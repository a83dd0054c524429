import Packetia.Lib.Word
import Packetia.Nack.Requests

/-!
# The map is what is missing

The packets of a run have true numbers, of which the requester sees the low bits. As long as
these are within half a turn of each other, the steps forward are small and there is room
in the map, it holds exactly the numbers between the first and the newest that have neither
been received nor given up (`missing_exact`): those before the first are never
missing, a late packet takes its number out, and a newer one puts in the numbers after the
newest so far, none of which can have been received or given up before (`Holds`).

Every number that enters the map is counted, and once more when it leaves (`Balanced`).
-/

namespace Packetia.Nack

open List OrdMap NackRequester
open BitVec (ofInt ofInt_add ofNat toNat_ofInt)

namespace NackRequester

variable {r : NackRequester} {nowMs k : ℕ} {seq x : BitVec 16} {fec : Bool}
  {first newest n : ℤ} {numbers : List ℤ} {lost : List (BitVec 16)}

/-! ## Counting -/

/-- What has been counted as missing has been counted again, or is still missing. -/
def Balanced (r : NackRequester) : Prop :=
  r.stats.missingPackets = r.stats.reorderedPackets + r.stats.recoveredPackets +
    r.stats.abandonedPackets + r.missingPackets.size

theorem Balanced.clearMissing (h : Balanced r) : Balanced (r.clearMissing seq nowMs fec).2 := by
  rw [NackRequester.clearMissing]
  cases hfind : r.missingPackets.find? seq with
  | none => exact h
  | some missing =>
    have hsize : r.missingPackets.size = (r.missingPackets.erase seq).size + 1 :=
      (erase_perm (find?_eq_some.1 hfind)).length_eq
    rw [Balanced] at h ⊢
    simp only [Stats.arrived]
    split_ifs
    all_goals
      simp only
      omega

theorem Balanced.addMissing (h : Balanced r) : Balanced (r.addMissing seq nowMs) := by
  rw [Balanced] at h ⊢
  simp only [NackRequester.addMissing]
  split_ifs with hseq
  · rw [emplace_of_mem _ hseq]
    exact h
  · rw [size_emplace _ hseq]
    simp only
    omega

theorem Balanced.addMissingFrom (h : Balanced r) : Balanced (addMissingFrom nowMs r seq k) := by
  induction k generalizing r seq with
  | zero => exact h
  | succ k ih =>
    rw [addMissingFrom]
    split_ifs
    · exact h
    · exact ih h.addMissing

variable {nacks gone : List (BitVec 16)} {a b : ℤ}

/-- `Process` parts the numbers into those given up and those still missing. -/
theorem Outcome.perm (h : Outcome r nowMs nacks gone (r.process nowMs))
    (hpast : ∀ e ∈ r.missingPackets.entries, e.2.firstMissingMs ≤ nowMs) :
    (gone ++ (r.process nowMs).requester.missingPackets.keys).Perm r.missingPackets.keys := by
  have hdisjoint : ∀ x ∈ gone, x ∉ (r.process nowMs).requester.missingPackets.keys := by
    intro x hx hkept
    obtain ⟨v, hv⟩ := mem_keys.1 hkept
    obtain ⟨p, hp⟩ := mem_keys.1 (h.gone_sublist.subset hx)
    cases h.fate (x, p) hp with
    | future _ _ hno _ | waits _ _ hno _ | requested _ _ hno _ => exact hno hx
    | abandoned _ _ _ hno => exact hno v hv
  rw [perm_ext_iff_of_nodup (nodup_append.2
    ⟨r.missingPackets.keys_nodup.sublist h.gone_sublist, keys_nodup _,
      fun x hx y hy hxy => hdisjoint x hx (hxy ▸ hy)⟩) r.missingPackets.keys_nodup]
  intro x
  rw [mem_append]
  constructor
  · exact fun hx => hx.elim (fun hx => h.gone_sublist.subset hx) fun hx => h.keys_sublist.subset hx
  · intro hx
    obtain ⟨p, hp⟩ := mem_keys.1 hx
    cases h.fate (x, p) hp with
    | future hlt _ _ _ => exact absurd hlt (not_lt.2 (hpast _ hp))
    | abandoned _ _ hgone _ => exact .inl hgone
    | waits _ _ _ hkept | requested _ _ _ hkept => exact .inr (mem_keys_of_mem hkept)

theorem Balanced.process (h : Balanced r) (hout : Outcome r nowMs nacks gone (r.process nowMs))
    (hpast : ∀ e ∈ r.missingPackets.entries, e.2.firstMissingMs ≤ nowMs) :
    Balanced (r.process nowMs).requester := by
  have hsize := (hout.perm hpast).length_eq
  rw [length_append, OrdMap.keys, OrdMap.keys, length_map, length_map] at hsize
  rw [Balanced, size] at h ⊢
  rw [hout.stats_eq]
  simp only
  omega

/-! ## The numbers -/

/-- Numbers within a turn of each other differ. -/
theorem ofInt_inj_of_near (hab : a - b < 2 ^ 16) (hba : b - a < 2 ^ 16) :
    ofInt 16 a = ofInt 16 b ↔ a = b := by
  refine ⟨fun heq => ?_, congrArg _⟩
  rcases lt_trichotomy a b with hlt | rfl | hlt
  · exact absurd heq (ofInt_ne_of_lt hlt (by omega))
  · rfl
  · exact absurd heq.symm (ofInt_ne_of_lt hlt (by omega))

theorem isNewer_ofInt (hab : a - b < 2 ^ 15) (hba : b - a < 2 ^ 15) :
    IsNewerSequenceNumber (ofInt 16 a) (ofInt 16 b) ↔ b < a := by
  rw [IsNewerSequenceNumber, ne_eq, ofInt_inj_of_near (by omega) (by omega), ← ofInt_sub,
    toNat_ofInt]
  omega

theorem gap_ofInt (hab : a - b < 2 ^ 15) (hlt : b < a) :
    (ofInt 16 a - ofInt 16 b).toNat = (a - b).toNat := by
  rw [← ofInt_sub, toNat_ofInt]
  omega

/-- If there has been room for all numbers, they are in the map. -/
theorem mem_keys_addMissingFrom (hsize :
      (addMissingFrom nowMs r seq k).missingPackets.size < r.config.maxNackListSize) :
    x ∈ (addMissingFrom nowMs r seq k).missingPackets.keys ↔
      x ∈ r.missingPackets.keys ∨ ∃ i < k, x = seq + ofNat 16 i := by
  induction k generalizing r seq with
  | zero => simp [addMissingFrom]
  | succ k ih =>
    rw [addMissingFrom] at hsize ⊢
    split_ifs at hsize ⊢ with hfull
    · omega
    · have hfirst : seq + ofNat 16 0 = seq := BitVec.add_zero seq
      have hkeys : x ∈ (r.addMissing seq nowMs).missingPackets.keys ↔
          x = seq ∨ x ∈ r.missingPackets.keys := mem_keys_emplace
      rw [ih hsize, hkeys, Nat.exists_lt_succ_left, hfirst, or_assoc, or_left_comm]
      simp only [add_one_add_ofNat]

/-- The map holds the numbers between `first` and `newest` that are neither among `numbers` nor
    given up. -/
structure Holds (first newest : ℤ) (numbers : List ℤ) (lost : List (BitVec 16))
    (r : NackRequester) : Prop where
  initialized : r.initialized = true
  newestSeq : r.newestSeq = ofInt 16 newest
  first_mem : first ∈ numbers
  newest_mem : newest ∈ numbers
  le_newest : ∀ n ∈ numbers, n ≤ newest
  keys : ∀ x, x ∈ r.missingPackets.keys ↔
    ∃ n, first < n ∧ n < newest ∧ n ∉ numbers ∧ x = ofInt 16 n ∧ x ∉ lost
  lost : ∀ x ∈ lost, ∃ n, first < n ∧ n < newest ∧ x = ofInt 16 n

theorem mem_keys_clearMissing : x ∈ (r.clearMissing seq nowMs fec).2.missingPackets.keys ↔
    x ∈ r.missingPackets.keys ∧ x ≠ seq := by
  simp only [OrdMap.mem_keys, mem_clearMissing, exists_and_right]

section Packet

variable (h : Holds first newest numbers lost r)
  (hwindow : ∀ a ∈ numbers ++ [n], ∀ b ∈ numbers ++ [n], b - a < 2 ^ 15)

include h hwindow

theorem Holds.isNewer : IsNewerSequenceNumber (ofInt 16 n) r.newestSeq ↔ newest < n := by
  have hn : n ∈ numbers ++ [n] := mem_concat_self
  have hnewest : newest ∈ numbers ++ [n] := mem_append_left _ h.newest_mem
  rw [h.newestSeq]
  exact isNewer_ofInt (hwindow _ hnewest _ hn) (hwindow _ hn _ hnewest)

/-- A packet that is not newer than the newest only takes its number out. -/
theorem Holds.received_late (hle : n ≤ newest) :
    (r.onReceivedPacket (ofInt 16 n) nowMs fec).2 = (r.clearMissing (ofInt 16 n) nowMs fec).2 := by
  have hnewest := (clearMissing_frame r (ofInt 16 n) nowMs fec).2.2
  rw [received_next h.initialized, advance, hnewest, if_pos]
  rw [h.isNewer hwindow]
  exact not_lt.2 hle

/-- A newer packet, after a small step, also puts in the numbers before its own. -/
theorem Holds.received_ahead (hlt : newest < n) (hgap : n - newest ≤ r.config.maxSequenceGap) :
    (r.onReceivedPacket (ofInt 16 n) nowMs fec).2 =
      { addMissingFrom nowMs (r.clearMissing (ofInt 16 n) nowMs fec).2
        (ofInt 16 newest + 1) ((n - newest).toNat - 1) with
          newestSeq := ofInt 16 n } := by
  have hn : n ∈ numbers ++ [n] := mem_concat_self
  have hwidth := hwindow _ (mem_append_left _ h.newest_mem) _ hn
  obtain ⟨hconfig, -, hnewest⟩ := clearMissing_frame r (ofInt 16 n) nowMs fec
  rw [received_next h.initialized]
  rcases advance_cases (r.clearMissing (ofInt 16 n) nowMs fec).2 (ofInt 16 n) nowMs
    with ⟨hold, -⟩ | ⟨-, hjump, -⟩ | ⟨-, -, heq⟩
  · rw [hnewest, h.isNewer hwindow] at hold
    exact absurd hlt hold
  · rw [hconfig, hnewest, h.newestSeq, gap_ofInt hwidth hlt] at hjump
    omega
  · rw [heq, hnewest, h.newestSeq, gap_ofInt hwidth hlt]

theorem Holds.late (hle : n ≤ newest) :
    Holds first newest (numbers ++ [n]) lost
      (r.onReceivedPacket (ofInt 16 n) nowMs fec).2 := by
  have hmem : ∀ a ∈ numbers, a ∈ numbers ++ [n] := fun a ha => mem_append_left _ ha
  have hn : n ∈ numbers ++ [n] := mem_concat_self
  obtain ⟨-, hinit, hnewest⟩ := clearMissing_frame r (ofInt 16 n) nowMs fec
  rw [h.received_late hwindow hle]
  refine ⟨hinit.trans h.initialized, hnewest.trans h.newestSeq, hmem _ h.first_mem,
    hmem _ h.newest_mem, ?_, fun x => ?_, h.lost⟩
  · exact forall_mem_concat.2 ⟨h.le_newest, hle⟩
  · rw [mem_keys_clearMissing, h.keys]
    constructor
    · rintro ⟨⟨m, hlo, hhi, hmiss, rfl, hlost⟩, hne⟩
      refine ⟨m, hlo, hhi, fun hm => ?_, rfl, hlost⟩
      rcases mem_append.1 hm with hm | hm
      · exact hmiss hm
      · exact hne (congrArg _ (mem_singleton.1 hm))
    · rintro ⟨m, hlo, hhi, hmiss, rfl, hlost⟩
      have hfirst := hwindow _ hn _ (hmem _ h.newest_mem)
      have hlast := hwindow _ (hmem _ h.first_mem) _ hn
      refine ⟨⟨m, hlo, hhi, fun hm => hmiss (hmem _ hm), rfl, hlost⟩, ?_⟩
      rw [ne_eq, ofInt_inj_of_near (by omega) (by omega)]
      exact fun heq => hmiss (heq ▸ hn)

theorem Holds.ahead (hlt : newest < n) (hgap : n - newest ≤ r.config.maxSequenceGap)
    (hsize : (r.onReceivedPacket (ofInt 16 n) nowMs fec).2.missingPackets.size <
      r.config.maxNackListSize) :
    Holds first n (numbers ++ [n]) lost (r.onReceivedPacket (ofInt 16 n) nowMs fec).2 := by
  have hmem : ∀ a ∈ numbers, a ∈ numbers ++ [n] := fun a ha => mem_append_left _ ha
  have hn : n ∈ numbers ++ [n] := mem_concat_self
  have hwidth := hwindow _ (hmem _ h.first_mem) _ hn
  have hfirst := h.le_newest _ h.first_mem
  obtain ⟨hconfig, hinit, -⟩ := clearMissing_frame r (ofInt 16 n) nowMs fec
  have hnumber : ∀ i : ℕ, ofInt 16 newest + 1 + ofNat 16 i = ofInt 16 (newest + 1 + i) := by
    intro i
    rw [ofInt_add, ofInt_add, BitVec.ofInt_natCast]
    rfl
  rw [h.received_ahead hwindow hlt hgap] at hsize ⊢
  refine ⟨?_, rfl, hmem _ h.first_mem, hn, ?_, fun x => ?_, ?_⟩
  · exact (adds_addMissingFrom nowMs _ _ _).initialized.trans (hinit.trans h.initialized)
  · exact forall_mem_concat.2 ⟨fun m hm => (h.le_newest m hm).trans hlt.le, le_rfl⟩
  · refine (mem_keys_addMissingFrom (hconfig.symm ▸ hsize)).trans ?_
    rw [mem_keys_clearMissing, h.keys]
    constructor
    · rintro (⟨⟨m, hlo, hhi, hmiss, rfl, hlost⟩, -⟩ | ⟨i, hi, rfl⟩)
      · refine ⟨m, hlo, hhi.trans hlt, fun hm => ?_, rfl, hlost⟩
        rcases mem_append.1 hm with hm | hm
        · exact hmiss hm
        · rw [mem_singleton.1 hm] at hhi
          omega
      · -- A number after the newest has neither been received nor given up.
        rw [hnumber]
        refine ⟨newest + 1 + i, by omega, by omega, fun hm => ?_, rfl, fun hlost => ?_⟩
        · rcases mem_append.1 hm with hm | hm
          · have hle := h.le_newest _ hm
            omega
          · rw [mem_singleton] at hm
            omega
        · obtain ⟨m, hlo, hhi, heq⟩ := h.lost _ hlost
          rw [ofInt_inj_of_near (by omega) (by omega)] at heq
          omega
    · rintro ⟨m, hlo, hhi, hmiss, rfl, hlost⟩
      have hne : m ≠ newest := fun heq => hmiss (heq ▸ hmem _ h.newest_mem)
      by_cases hm : m < newest
      · refine .inl ⟨⟨m, hlo, hm, fun hm => hmiss (hmem _ hm), rfl, hlost⟩, ?_⟩
        rw [ne_eq, ofInt_inj_of_near (by omega) (by omega)]
        omega
      · refine .inr ⟨(m - newest - 1).toNat, by omega, ?_⟩
        rw [hnumber]
        congr 1
        omega
  · intro x hx
    obtain ⟨m, hlo, hhi, heq⟩ := h.lost x hx
    exact ⟨m, hlo, hhi.trans hlt, heq⟩

end Packet

/-- The first packet. -/
theorem holds_first (hinit : r.initialized = false) (hempty : r.missingPackets.size = 0) :
    Holds n n [n] [] (r.onReceivedPacket (ofInt 16 n) nowMs fec).2 := by
  have hentries : r.missingPackets.entries = [] := length_eq_zero_iff.1 hempty
  rw [received_first hinit]
  refine ⟨rfl, rfl, mem_singleton_self n, mem_singleton_self n, ?_, fun x => ?_, nofun⟩
  · rw [forall_mem_singleton]
  · constructor
    · intro hx
      rw [OrdMap.keys, hentries] at hx
      cases hx
    · rintro ⟨m, hlo, hhi, -⟩
      omega

theorem Holds.process (h : Holds first newest numbers lost r)
    (hout : Outcome r nowMs nacks gone (r.process nowMs))
    (hpast : ∀ e ∈ r.missingPackets.entries, e.2.firstMissingMs ≤ nowMs) :
    Holds first newest numbers (lost ++ gone) (r.process nowMs).requester := by
  have hperm := hout.perm hpast
  have hdisjoint := (nodup_append.1 (hperm.nodup_iff.2 r.missingPackets.keys_nodup)).2.2
  have hkeys : ∀ x, x ∈ (r.process nowMs).requester.missingPackets.keys ↔
      x ∈ r.missingPackets.keys ∧ x ∉ gone := by
    intro x
    rw [← hperm.mem_iff, mem_append]
    constructor
    · exact fun hx => ⟨.inr hx, fun hgone => hdisjoint x hgone x hx rfl⟩
    · exact fun hx => hx.1.resolve_left hx.2
  obtain ⟨-, hinit, hnewest⟩ := process_frame r nowMs
  refine ⟨hinit.trans h.initialized, hnewest.trans h.newestSeq, h.first_mem, h.newest_mem,
    h.le_newest, fun x => ?_, fun x hx => ?_⟩
  · rw [hkeys, h.keys]
    simp only [mem_append, not_or]
    constructor
    · rintro ⟨⟨m, hlo, hhi, hmiss, heq, hlost⟩, hgone⟩
      exact ⟨m, hlo, hhi, hmiss, heq, hlost, hgone⟩
    · rintro ⟨m, hlo, hhi, hmiss, heq, hlost, hgone⟩
      exact ⟨⟨m, hlo, hhi, hmiss, heq, hlost⟩, hgone⟩
  · rcases mem_append.1 hx with hx | hx
    · exact h.lost x hx
    · obtain ⟨m, hlo, hhi, -, heq, -⟩ := (h.keys x).1 (hout.gone_sublist.subset hx)
      exact ⟨m, hlo, hhi, heq⟩

/-- The times in the map are times of calls. -/
theorem dated_step {D : ℕ → Prop} {c : Call} (hinv : Inv r)
    (h : ∀ e ∈ r.missingPackets.entries, D e.2.firstMissingMs) (hc : ∀ t ∈ c.timeMs, D t) :
    ∀ e ∈ (r.step c).missingPackets.entries, D e.2.firstMissingMs := by
  intro e he
  cases c with
  | received k nowMs fec =>
    rcases (mem_received hinv.idle he).2 with hold | ⟨-, hnew⟩
    · exact h e hold
    · rw [hnew]
      exact hc nowMs rfl
  | process nowMs =>
    obtain ⟨nacks, gone, hout⟩ := process_spec r nowMs hinv.idle
    obtain ⟨p, hp⟩ := mem_keys.1 (hout.keys_sublist.subset (mem_keys_of_mem he))
    cases hout.fate (e.1, p) hp with
    | future _ _ _ hno | abandoned _ _ _ hno => exact absurd he (hno e.2)
    | waits _ _ _ hkept | requested _ _ _ hkept =>
      rw [entry_unique he hkept]
      exact h _ hp
  | clearUpTo k => exact h e (mem_filterKeys.1 he).1
  | abandonPending | reset => cases he
  | _ => exact h e he

end NackRequester

/-! ## Runs -/

open NackRequester

theorem dated_after (config : Config) (calls : List Call) :
    ∀ e ∈ (after config calls).missingPackets.entries,
      e.2.firstMissingMs ∈ calls.filterMap Call.timeMs := by
  refine run_induction (P := fun calls (r : NackRequester) => ∀ e ∈ r.missingPackets.entries,
    e.2.firstMissingMs ∈ calls.filterMap Call.timeMs) (fun e he => absurd he not_mem_nil) ?_
    calls
  intro calls c h
  refine dated_step (inv_after config calls) (fun e he => ?_) fun t ht => ?_
  · rw [filterMap_append]
    exact mem_append_left _ (h e he)
  · exact mem_filterMap.2 ⟨c, mem_concat_self, ht⟩

/-- A call on the requester, where packets have their true numbers. -/
inductive Event
  | packet (number : ℤ) (nowMs : ℕ) (recoveredByFec : Bool)
  | process (nowMs : ℕ)
  | updateRtt (rttMs : ℕ)
  | setNackCallback (callback : Bool)
  | setRecoveryFailureCallback (callback : Bool)

def Event.call : Event → Call
  | packet number nowMs recoveredByFec => .received (ofInt 16 number) nowMs recoveredByFec
  | process nowMs => .process nowMs
  | updateRtt rttMs => .updateRtt rttMs
  | setNackCallback callback => .setNackCallback callback
  | setRecoveryFailureCallback callback => .setRecoveryFailureCallback callback

def Event.number : Event → Option ℤ
  | packet number _ _ => some number
  | _ => none

/-- The true numbers of the packets received. -/
def numbers (events : List Event) : List ℤ := events.filterMap Event.number

/-- The state after a run. -/
def afterEvents (config : Config) (events : List Event) : NackRequester :=
  after config (events.map Event.call)

/-- The numbers that `Process` gives up in a call. -/
def abandonedOf (r : NackRequester) : Call → List (BitVec 16)
  | .process nowMs => (r.process nowMs).abandoned
  | _ => []

/-- The numbers that `Process` has given up in a run. -/
def abandoned (config : Config) (events : List Event) : List (BitVec 16) :=
  (history step (.make config) (events.map Event.call)).flatMap fun c => abandonedOf c.1 c.2

/-- A run in which the times do not decrease, the numbers are within half a turn, the steps
    forward are small and there is always room in the map. -/
structure Regular (config : Config) (events : List Event) : Prop where
  timely : Timely (events.map Event.call)
  window : ∀ a ∈ numbers events, ∀ b ∈ numbers events, b - a < 2 ^ 15
  steps : EachAfter (fun (before : List ℤ) n => ∀ newest ∈ before.max?,
    n - newest ≤ config.maxSequenceGap) (numbers events)
  room : ∀ before, before <+: events →
    (afterEvents config before).missingPackets.size < config.maxNackListSize

variable {config : Config} {events : List Event} {e : Event} {nowMs : ℕ}

theorem afterEvents_concat : afterEvents config (events ++ [e]) =
    (afterEvents config events).step e.call := by
  rw [afterEvents, map_append, after]
  exact run_concat _ _

theorem abandoned_concat : abandoned config (events ++ [e]) =
    abandoned config events ++ abandonedOf (afterEvents config events) e.call := by
  rw [abandoned, map_append, map_singleton, history_concat, flatMap_append, flatMap_singleton]
  rfl

theorem numbers_concat : numbers (events ++ [e]) = numbers events ++ e.number.toList := by
  rw [numbers, filterMap_append, numbers, filterMap_cons, filterMap_nil]
  cases e.number <;> rfl

theorem Regular.init (h : Regular config (events ++ [e])) : Regular config events where
  timely := by
    have htimely := h.timely
    rw [map_append] at htimely
    exact htimely.of_append
  window a ha b hb := by
    have hmem : ∀ n ∈ numbers events, n ∈ numbers (events ++ [e]) := fun n hn => by
      rw [numbers_concat]
      exact mem_append_left _ hn
    exact h.window a (hmem a ha) b (hmem b hb)
  steps := by
    have hsteps := h.steps
    rw [numbers_concat] at hsteps
    exact hsteps.of_append
  room before hbefore := h.room before (hbefore.trans (prefix_append _ _))

/-- The entries are not from the future. -/
theorem Regular.past (h : Regular config (events ++ [.process nowMs])) :
    ∀ m ∈ (afterEvents config events).missingPackets.entries, m.2.firstMissingMs ≤ nowMs := by
  intro m hm
  have htimely := h.timely
  rw [map_append, Timely, filterMap_append] at htimely
  exact (pairwise_append.1 htimely).2.2 _ (dated_after config _ m hm) nowMs
    (mem_singleton_self nowMs)

/-- Either no packet has arrived, or the map holds what is missing. -/
def Known (config : Config) (events : List Event) : Prop :=
  numbers events = [] ∧ (afterEvents config events).initialized = false ∧
      abandoned config events = [] ∨
    ∃ first newest, (numbers events).head? = some first ∧
      Holds first newest (numbers events) (abandoned config events) (afterEvents config events)

theorem Known.packet {n : ℤ} {fec : Bool} (h : Known config events)
    (hbalanced : Balanced (afterEvents config events))
    (hregular : Regular config (events ++ [.packet n nowMs fec])) :
    Known config (events ++ [.packet n nowMs fec]) ∧
      Balanced (afterEvents config (events ++ [.packet n nowMs fec])) := by
  have hnumbers : numbers (events ++ [.packet n nowMs fec]) = numbers events ++ [n] :=
    numbers_concat
  have habandoned : abandoned config (events ++ [.packet n nowMs fec]) =
      abandoned config events := by
    rw [abandoned_concat]
    exact append_nil _
  have hconfig : (afterEvents config events).config = (make config).config := config_after _ _
  obtain ⟨-, hwindow, hsteps, hroom⟩ := hregular
  have hsize := hroom _ (prefix_refl _)
  rw [hnumbers] at hwindow hsteps
  rw [afterEvents_concat] at hsize
  rw [Known, hnumbers, habandoned, afterEvents_concat]
  rcases h with ⟨hnone, hinit, hlost⟩ | ⟨first, newest, hfirst, hholds⟩
  · have hidle := (inv_after config (events.map Event.call)).idle hinit
    rw [hnone, hlost, nil_append]
    refine ⟨.inr ⟨n, n, rfl, holds_first hinit hidle⟩, ?_⟩
    rw [Event.call, step, received_first hinit]
    exact hbalanced
  · have hgap : n - newest ≤ (afterEvents config events).config.maxSequenceGap := by
      rw [hconfig]
      exact hsteps _ n [] rfl newest (max?_eq_some_iff.2 ⟨hholds.newest_mem, hholds.le_newest⟩)
    have hhead : (numbers events ++ [n]).head? = some first := by
      rw [head?_append, hfirst, Option.some_or]
    rcases le_or_gt n newest with hle | hlt
    · refine ⟨.inr ⟨first, newest, hhead, hholds.late hwindow hle⟩, ?_⟩
      rw [Event.call, step, hholds.received_late hwindow hle]
      exact hbalanced.clearMissing
    · refine ⟨.inr ⟨first, n, hhead, hholds.ahead hwindow hlt hgap (hconfig.symm ▸ hsize)⟩, ?_⟩
      rw [Event.call, step, hholds.received_ahead hwindow hlt hgap]
      exact hbalanced.clearMissing.addMissingFrom

theorem Known.process (h : Known config events) (hbalanced : Balanced (afterEvents config events))
    (hregular : Regular config (events ++ [.process nowMs])) :
    Known config (events ++ [.process nowMs]) ∧
      Balanced (afterEvents config (events ++ [.process nowMs])) := by
  have hnumbers : numbers (events ++ [.process nowMs]) = numbers events := by
    rw [numbers_concat]
    exact append_nil _
  have hidle := (inv_after config (events.map Event.call)).idle
  obtain ⟨nacks, gone, hout⟩ := process_spec (afterEvents config events) nowMs hidle
  have habandoned : abandoned config (events ++ [.process nowMs]) =
      abandoned config events ++ gone := by
    rw [abandoned_concat, ← hout.abandoned_eq]
    rfl
  rw [Known, hnumbers, habandoned, afterEvents_concat]
  refine ⟨?_, hbalanced.process hout hregular.past⟩
  rcases h with ⟨hnone, hinit, hlost⟩ | ⟨first, newest, hfirst, hholds⟩
  · have hempty : (afterEvents config events).missingPackets.entries = [] :=
      length_eq_zero_iff.1 (hidle hinit)
    have hgone := hout.gone_sublist
    rw [OrdMap.keys, hempty, map_nil, sublist_nil] at hgone
    refine .inl ⟨hnone, (process_frame _ nowMs).2.1.trans hinit, ?_⟩
    rw [hlost, hgone, nil_append]
  · exact .inr ⟨first, newest, hfirst, hholds.process hout hregular.past⟩

/-- The other calls do not concern the map. -/
theorem Known.other (h : Known config events) (hnumber : e.number = none)
    (hcall : ∀ r : NackRequester, abandonedOf r e.call = [] ∧
      (r.step e.call).initialized = r.initialized ∧ (r.step e.call).newestSeq = r.newestSeq ∧
      (r.step e.call).missingPackets = r.missingPackets) : Known config (events ++ [e]) := by
  obtain ⟨hnone, hinit, hnewest, hmissing⟩ := hcall (afterEvents config events)
  rw [Known, numbers_concat, hnumber, abandoned_concat, hnone, afterEvents_concat, hinit,
    Option.toList_none, append_nil, append_nil]
  refine h.imp_right ?_
  rintro ⟨first, newest, hfirst, hholds⟩
  refine ⟨first, newest, hfirst, hinit.trans hholds.initialized, hnewest.trans hholds.newestSeq,
    hholds.first_mem, hholds.newest_mem, hholds.le_newest, ?_, hholds.lost⟩
  rw [hmissing]
  exact hholds.keys

theorem known_of_regular (h : Regular config events) :
    Known config events ∧ Balanced (afterEvents config events) := by
  induction events using reverseRecOn with
  | nil => exact ⟨.inl ⟨rfl, rfl, rfl⟩, rfl⟩
  | append_singleton events e ih =>
    obtain ⟨hknown, hbalanced⟩ := ih h.init
    cases e with
    | packet n nowMs fec => exact hknown.packet hbalanced h
    | process nowMs => exact hknown.process hbalanced h
    | updateRtt rttMs | setNackCallback callback | setRecoveryFailureCallback callback =>
      rw [afterEvents_concat]
      exact ⟨hknown.other rfl fun r => ⟨rfl, rfl, rfl, rfl⟩, hbalanced⟩

/-- In a regular run the map is exactly what is missing: the numbers strictly between the first
    and the newest received that have been neither received nor given up. Every number
    counted as missing is counted as reordered, recovered or abandoned, or is in the map. -/
theorem missing_exact (config : Config) (events : List Event) (h : Regular config events) :
    (∀ x, x ∈ (afterEvents config events).missingPackets.keys ↔
      ∃ first newest n, (numbers events).head? = some first ∧
        (numbers events).max? = some newest ∧ first < n ∧ n < newest ∧ n ∉ numbers events ∧
        x = ofInt 16 n ∧ x ∉ abandoned config events) ∧
    (afterEvents config events).stats.missingPackets =
      (afterEvents config events).stats.reorderedPackets +
      (afterEvents config events).stats.recoveredPackets +
      (afterEvents config events).stats.abandonedPackets +
      (afterEvents config events).missingPackets.size := by
  obtain ⟨hknown, hbalanced⟩ := known_of_regular h
  refine ⟨fun x => ?_, hbalanced⟩
  rcases hknown with ⟨hnone, hinit, -⟩ | ⟨first, newest, hfirst, hholds⟩
  · have hempty : (afterEvents config events).missingPackets.entries = [] :=
      length_eq_zero_iff.1 ((inv_after config (events.map Event.call)).idle hinit)
    rw [OrdMap.keys, hempty, hnone]
    constructor
    · simp
    · rintro ⟨first, newest, n, hfirst, -⟩
      cases hfirst
  · have hnewest : (numbers events).max? = some newest :=
      List.max?_eq_some_iff.2 ⟨hholds.newest_mem, hholds.le_newest⟩
    rw [hholds.keys]
    constructor
    · rintro ⟨n, hn⟩
      exact ⟨first, newest, n, hfirst, hnewest, hn⟩
    · rintro ⟨first', newest', n, hfirst', hnewest', hn⟩
      obtain rfl := Option.some.inj (hfirst.symm.trans hfirst')
      obtain rfl := Option.some.inj (hnewest.symm.trans hnewest')
      exact ⟨n, hn⟩

/-- Packets around the wrap of the numbers: one is late, one is recovered, one stays missing. -/
def wrapping : List Event :=
  [.packet 65533 0 false, .packet 65536 5 false, .packet 65534 10 false, .packet 65539 15 false,
    .packet 65538 20 true, .process 50]

theorem missing_exact_wrapping :
    (∀ x, x ∈ (afterEvents {} wrapping).missingPackets.keys ↔
      ∃ first newest n, (numbers wrapping).head? = some first ∧
        (numbers wrapping).max? = some newest ∧ first < n ∧ n < newest ∧ n ∉ numbers wrapping ∧
        x = ofInt 16 n ∧ x ∉ abandoned {} wrapping) ∧
    (afterEvents {} wrapping).missingPackets.keys = [1, 65535] := by
  refine ⟨(missing_exact {} wrapping ⟨by decide, by decide, ?_, ?_⟩).1, by decide⟩
  · have hsteps := (((((eachAfter_nil (P := fun (before : List ℤ) n => ∀ newest ∈ before.max?,
      n - newest ≤ (100 : ℕ))).concat (a := 65533) (by decide)).concat (a := 65536)
      (by decide)).concat (a := 65534) (by decide)).concat (a := 65539) (by decide)).concat
      (a := 65538) (by decide)
    exact hsteps
  · intro before hbefore
    have hall : ∀ before ∈ wrapping.inits,
        (afterEvents {} before).missingPackets.size < 1000 := by decide
    exact hall before ((mem_inits _ _).2 hbefore)

end Packetia.Nack
