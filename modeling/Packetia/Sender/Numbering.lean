import Packetia.Sender.Steps

/-!
# The numbers of a sender

Downstream a packet is known by its 16-bit sequence number, so two packets in
flight must not share one. Here the numbers of what a track has sent are read
off the list of its sends:

* the *ledger* of the sends unwraps their numbers, each around the furthest one
  so far. Besides the furthest place it keeps the *barrier*: the furthest place
  when padding was last sent or the stream last resumed;
* a list of sends is `Numbered` when padding and the packets that resume the
  stream take the place after the furthest one, and the other packets continue
  with the distance the packet before them has from its source number.

Every run of a track is `Numbered` (`after_numbered`). This is not enough to keep
the numbers apart: the distance changes at every padding, so a source packet that
comes late, behind the barrier, gets the number of another packet. While the source
packets that are sent are `InTime`, packets under different mappings with the same
number are more than half a turn apart (`sends_differ`).
-/

namespace Packetia.Sender

open List
open Option (elim_none elim_some some)

/-- The source number of a packet; zero for padding. -/
def Content.source : Content → BitVec 16
  | .media source _ => source
  | .padding => 0

/-- Different source packets, or a source packet and padding. -/
def Content.Differs : Content → Content → Prop
  | .media s _, .media s' _ => s ≠ s'
  | .padding, .padding => False
  | _, _ => True

instance : ∀ c c' : Content, Decidable (c.Differs c')
  | .media _ _, .media _ _ => inferInstanceAs (Decidable (_ ≠ _))
  | .padding, .padding => .isFalse id
  | .media _ _, .padding => .isTrue trivial
  | .padding, .media _ _ => .isTrue trivial

/-- The packet starts a new mapping from source numbers: padding, or the first
    source packet after a discontinuity. -/
def Content.Opens : Content → Prop
  | .media _ resumes => resumes = true
  | .padding => True

instance : DecidablePred Content.Opens
  | .media _ resumes => inferInstanceAs (Decidable (resumes = true))
  | .padding => .isTrue trivial

variable (log : List Sent) (s : Sent)

/-- The distance from the source number. -/
def Sent.shift : BitVec 16 := s.number - s.content.source

/-! ## The ledger -/

structure Ledger where
  /-- The furthest place sent. -/
  far : ℤ
  /-- The furthest place when the mapping last changed. -/
  barrier : ℤ
  deriving DecidableEq

/-- The place of a send after the ledger, none when nothing was sent yet. -/
def place : Option Ledger → Sent → ℤ
  | none, s => s.number.toNat
  | some l, s => nearest l.far s.number

/-- The first packet has nothing behind it that is less than half a turn away. -/
def Ledger.first : Ledger where
  far := place none s
  barrier := if s.content = .padding then place none s else place none s - 0x8001

def Ledger.enter (l : Ledger) (s : Sent) : Ledger where
  far := max l.far (place (some l) s)
  barrier := match s.content with
    | .padding => max l.far (place (some l) s)
    | .media _ true => l.far
    | .media _ false => l.barrier

/-- The ledger of a list of sends. -/
def ledger : Option Ledger := log.foldl (fun o s => some (o.elim (.first s) (·.enter s))) none

/-- The ledger after further sends. -/
def Ledger.walk (l : Ledger) (log : List Sent) : Ledger := log.foldl Ledger.enter l

/-- How many numbers have been passed since the mapping last changed. -/
def Ledger.passed (l : Ledger) : ℤ := l.far - l.barrier

/-- How many places the sends leave out. -/
def Ledger.skipped : Ledger → List Sent → ℕ
  | _, [] => 0
  | l, s :: log => (place (some l) s - l.far - 1).toNat + (l.enter s).skipped log

/-! ## The rules -/

/-- How a send is numbered after the sends `log`. -/
def Follows : Prop :=
  (s.content.Opens → ∀ l ∈ ledger log, s.number = BitVec.ofInt 16 (l.far + 1)) ∧
    (¬s.content.Opens → ∀ x ∈ log.getLast?, x.content ≠ .padding → s.shift = x.shift)

def Numbered : Prop := EachAfter Follows log

/-- A source packet gets a place beyond the barrier. -/
def Beyond : Prop := ¬s.content.Opens → ∀ l ∈ ledger log, l.barrier < place (some l) s

/-- No source packet falls behind padding or a discontinuity. -/
def Fresh : Prop := EachAfter Beyond log

/-! ## Places -/

variable {l : Ledger} {s a b : Sent} {log pre mid post : List Sent}

theorem ledger_concat (log : List Sent) (s : Sent) :
    ledger (log ++ [s]) = some ((ledger log).elim (.first s) (·.enter s)) := by
  rw [ledger, foldl_append]
  rfl

theorem ledger_append (h : ledger pre = some l) (log : List Sent) :
    ledger (pre ++ log) = some (l.walk log) := by
  induction log using reverseRecOn with
  | nil => rw [append_nil, h]; rfl
  | append_singleton log s ih =>
    rw [← append_assoc, ledger_concat, ih, Ledger.walk, Ledger.walk, foldl_append]
    rfl

theorem ofInt_place (o : Option Ledger) (s : Sent) : BitVec.ofInt 16 (place o s) = s.number := by
  cases o with
  | none => rw [place, BitVec.ofInt_natCast, BitVec.ofNat_toNat, BitVec.setWidth_eq]
  | some l => exact ofInt_nearest l.far s.number

/-- A send is at most at the furthest place, and not half a turn behind it. -/
theorem place_bounds (o : Option Ledger) (s : Sent) :
    place o s ≤ (o.elim (Ledger.first s) (·.enter s)).far ∧
      (o.elim (Ledger.first s) (·.enter s)).far - 0x8000 ≤ place o s := by
  cases o with
  | none => exact ⟨le_rfl, by simp only [elim_none, Ledger.first]; omega⟩
  | some l =>
    have hlo := (nearest_bounds l.far s.number).1
    simp only [elim_some, Ledger.enter, place] at hlo ⊢
    omega

theorem Ledger.barrier_enter (h : l.barrier ≤ l.far) (s : Sent) :
    l.barrier ≤ (l.enter s).barrier ∧ (l.enter s).barrier ≤ (l.enter s).far := by
  have hfar : l.far ≤ max l.far (place (some l) s) := le_max_left _ _
  rw [enter]
  split
  · exact ⟨h.trans hfar, le_rfl⟩
  · exact ⟨h, hfar⟩
  · exact ⟨le_rfl, h.trans hfar⟩

theorem ledger_barrier (h : ledger log = some l) : l.barrier ≤ l.far := by
  induction log using reverseRecOn generalizing l with
  | nil => cases h
  | append_singleton log s ih =>
    rw [ledger_concat] at h
    obtain rfl := some.inj h
    cases hlog : ledger log with
    | none =>
      simp only [elim_none, Ledger.first]
      split_ifs <;> omega
    | some l => exact (Ledger.barrier_enter (ih hlog) s).2

/-- Further sends raise the barrier, and one that opens a mapping raises it to
    everything before. -/
theorem Ledger.walk_barrier (h : l.barrier ≤ l.far) (log : List Sent) :
    l.barrier ≤ (l.walk log).barrier ∧
      ((∃ s ∈ log, s.content.Opens) → l.far ≤ (l.walk log).barrier) := by
  induction log generalizing l with
  | nil => exact ⟨le_rfl, fun ⟨s, hs, _⟩ => absurd hs not_mem_nil⟩
  | cons s log ih =>
    obtain ⟨hmono, hle⟩ := barrier_enter h s
    obtain ⟨ih₁, ih₂⟩ := ih hle
    refine ⟨hmono.trans ih₁, fun ⟨x, hx, hopens⟩ => ?_⟩
    rcases mem_cons.1 hx with rfl | hx
    · refine le_trans ?_ ih₁
      rw [enter]
      split
      · exact le_max_left _ _
      · exact le_rfl
      · next heq => rw [heq] at hopens; cases hopens
    · exact (le_max_left _ _).trans (ih₂ ⟨x, hx, hopens⟩)

/-- Each send goes one place further, besides the places it leaves out. -/
theorem Ledger.walk_far (l : Ledger) (log : List Sent) :
    l.far ≤ (l.walk log).far ∧ (l.walk log).far ≤ l.far + log.length + l.skipped log := by
  induction log generalizing l with
  | nil => exact ⟨le_rfl, by simp [walk, skipped]⟩
  | cons s log ih =>
    obtain ⟨hlo, hhi⟩ := ih (l.enter s)
    have hfar : (l.enter s).far = max l.far (place (some l) s) := rfl
    rw [skipped, length_cons]
    change l.far ≤ ((l.enter s).walk log).far ∧ ((l.enter s).walk log).far ≤ _
    omega

/-- Between two source packets with no new mapping in between, the distance from
    the source numbers is the same. -/
theorem Numbered.shift_eq (hn : Numbered (pre ++ a :: (mid ++ b :: post)))
    (ha : a.content ≠ .padding) (hmid : ∀ s ∈ mid, ¬s.content.Opens) (hb : ¬b.content.Opens) :
    b.shift = a.shift := by
  induction mid using reverseRecOn generalizing b post with
  | nil =>
    have hfollows := hn (pre ++ [a]) b post (by simp)
    exact hfollows.2 hb a (by simp) ha
  | append_singleton mid x ih =>
    have hx : ¬x.content.Opens := hmid x (by simp)
    have hfollows := hn (pre ++ a :: (mid ++ [x])) b post (by simp)
    have hlast : (pre ++ a :: (mid ++ [x])).getLast? = some x := by
      rw [← cons_append, ← append_assoc, getLast?_concat]
    rw [hfollows.2 hb x hlast fun h => hx (by rw [h]; trivial)]
    have hn' : Numbered (pre ++ a :: (mid ++ x :: b :: post)) := by simpa using hn
    exact ih hn' (fun s hs => hmid s (mem_append_left _ hs)) hx

/-- The places left out by the sends `log`, after the sends `pre`. -/
def skippedAfter (pre log : List Sent) : ℕ := (ledger pre).elim 0 (·.skipped log)

/-- The mapping changes between two sends: the first is padding, or padding or a
    resumption follows it up to the second. -/
def Parted (a : Sent) (mid : List Sent) (b : Sent) : Prop :=
  a.content = .padding ∨ (∃ s ∈ mid, s.content.Opens) ∨ b.content.Opens

/-- Of two sends between which the mapping changes, the second is beyond the first. -/
theorem place_lt_place {la : Ledger} (hn : Numbered (pre ++ a :: (mid ++ b :: post)))
    (hf : Fresh (pre ++ a :: (mid ++ b :: post))) (hla : ledger (pre ++ [a]) = some la)
    (hopens : Parted a mid b) : place (ledger pre) a < place (some (la.walk mid)) b := by
  have hla' : la = (ledger pre).elim (.first a) (·.enter a) :=
    some.inj (hla.symm.trans (ledger_concat pre a))
  have hplace : place (ledger pre) a ≤ la.far := hla' ▸ (place_bounds (ledger pre) a).1
  have hbarrier := ledger_barrier hla
  obtain ⟨hmono, hraise⟩ := Ledger.walk_barrier hbarrier mid
  have hlm : ledger (pre ++ a :: mid) = some (la.walk mid) := by
    rw [← ledger_append hla, append_assoc, singleton_append]
  by_cases hb : b.content.Opens
  · -- The second opens a mapping, right after the furthest place.
    have hnumber := (hn (pre ++ a :: mid) b post (by simp)).1 hb _ hlm
    rw [place, hnumber, nearest_ofInt (by norm_num) (by norm_num)]
    exact (hplace.trans (Ledger.walk_far la mid).1).trans_lt (lt_add_one _)
  · -- The first is at the barrier at most, and the second beyond it.
    refine lt_of_le_of_lt ?_ (hf (pre ++ a :: mid) b post (by simp) hb _ hlm)
    rcases hopens with ha | hmid | hb'
    · refine le_trans ?_ hmono
      rw [hla']
      cases ledger pre with
      | none => simp [Ledger.first, ha]
      | some l => simp [Ledger.enter, ha]
    · exact hplace.trans (hraise hmid)
    · exact absurd hb' hb

/-- In a numbered list of sends where no source packet falls behind the barrier,
    the numbers of different packets differ. If they are parted, then as long as fewer
    than half a turn of numbers is used. -/
theorem Numbered.number_ne (hn : Numbered (pre ++ a :: (mid ++ b :: post)))
    (hf : Fresh (pre ++ a :: (mid ++ b :: post)))
    (hwindow : Parted a mid b → mid.length + 2 + skippedAfter (pre ++ [a]) (mid ++ [b]) ≤ 2 ^ 15)
    (hdiff : a.content.Differs b.content) : a.number ≠ b.number := by
  by_cases hopens : Parted a mid b
  · have hla := ledger_concat pre a
    have hlt := place_lt_place hn hf hla hopens
    replace hwindow := hwindow hopens
    have hlo := (place_bounds (ledger pre) a).2
    generalize (ledger pre).elim (Ledger.first a) (·.enter a) = la at hla hlt hlo
    rw [skippedAfter, hla, elim_some] at hwindow
    -- The second is less than half a turn beyond the furthest place then.
    have hhi := (place_bounds (some (la.walk mid)) b).1
    have hfar := (Ledger.walk_far la (mid ++ [b])).2
    have hwalk : la.walk (mid ++ [b]) = (la.walk mid).enter b := by
      rw [Ledger.walk, foldl_append]
      rfl
    rw [hwalk, length_append, length_singleton] at hfar
    rw [← ofInt_place (ledger pre) a, ← ofInt_place (some (la.walk mid)) b]
    refine ofInt_ne_of_lt hlt ?_
    simp only [elim_some] at hhi
    omega
  · -- Both are source packets under the same mapping.
    simp only [Parted, not_or, not_exists, not_and] at hopens
    obtain ⟨ha, hmid, hb⟩ := hopens
    have hshift := hn.shift_eq ha hmid hb
    intro heq
    rw [Sent.shift, Sent.shift, heq] at hshift
    have hsource : b.content.source = a.content.source := sub_right_injective hshift
    cases hac : a.content with
    | padding => exact ha hac
    | media sa ra =>
      cases hbc : b.content with
      | padding => exact hb (hbc ▸ trivial)
      | media sb rb =>
        rw [hac, hbc] at hdiff hsource
        exact hdiff hsource.symm

/-! ## The track -/

namespace Track

open Rtp

variable {cfg : Config} {t : Track} {h : Header} {s : Sent}

theorem accept_hasSent : (t.accept h).hasSent = t.hasSent := by
  rw [accept, startTimestamp, startSeq, rebase]; split_ifs <;> rfl

theorem accept_lastOutSeq : (t.accept h).lastOutSeq = t.lastOutSeq := by
  rw [accept, startTimestamp, startSeq, rebase]; split_ifs <;> rfl

theorem accept_rebasePending : (t.accept h).rebasePending = t.rebasePending := by
  rw [accept, startTimestamp, startSeq, rebase]; split_ifs <;> rfl

theorem accept_sent : (t.accept h).sent = t.sent := by
  rw [accept, startTimestamp, startSeq, rebase]; split_ifs <;> rfl

theorem accept_started : (t.accept h).started = true := by
  rw [accept, startTimestamp]
  split_ifs with hs
  · exact hs
  · rfl

/-- Once a track has started, only a discontinuity changes the base. -/
theorem accept_base (hs : t.started = true) (hr : t.rebasePending = false) :
    (t.accept h).baseOutSeq = t.baseOutSeq ∧ (t.accept h).baseInSeq = t.baseInSeq := by
  simp [accept, startTimestamp, startSeq, rebase, hs, hr]

/-- The packet that resumes the stream gets the number after the furthest one. -/
theorem accept_mapSeq_of_rebase (hr : t.rebasePending = true) :
    (t.accept h).mapSeq h.seq = t.nextOutSeq h.seq := by
  have hbase : (t.accept h).baseInSeq = h.seq ∧ (t.accept h).baseOutSeq = t.nextOutSeq h.seq := by
    simp only [accept, startTimestamp, startSeq, rebase, hr]
    split_ifs <;> simp_all
  rw [mapSeq, hbase.1, hbase.2, sub_self, add_zero]

theorem mapSeq_sub (t : Track) (seq : BitVec 16) :
    t.mapSeq seq - seq = t.baseOutSeq - t.baseInSeq := by
  rw [mapSeq]
  ring

theorem primary_concat (h : s.retransmit = false) :
    (t.sent ++ [s]).filter (fun s => !s.retransmit) = t.primary ++ [s] := by
  rw [filter_append, primary]
  simp [h]

/-- The fields of a track that number its packets agree with what it has sent. -/
structure Books (t : Track) : Prop where
  numbered : Numbered t.primary
  unsent : t.hasSent = false → t.primary = []
  far : t.hasSent = true → ∃ l, ledger t.primary = some l ∧ BitVec.ofInt 16 l.far = t.lastOutSeq
  mapping : t.rebasePending = false → ∀ x ∈ t.primary.getLast?, x.content ≠ .padding →
    t.started = true ∧ x.shift = t.baseOutSeq - t.baseInSeq

section

variable (hb : Books t)
include hb

/-- The number after the furthest one, where something has been sent. -/
theorem Books.nextOutSeq (first : BitVec 16) :
    ∀ l ∈ ledger t.primary, t.nextOutSeq first = BitVec.ofInt 16 (l.far + 1) := by
  intro l hl
  cases hs : t.hasSent with
  | false =>
    rw [hb.unsent hs] at hl
    cases hl
  | true =>
    obtain ⟨l', hl', hfar⟩ := hb.far hs
    obtain rfl := some.inj (hl'.symm.trans hl)
    rw [Track.nextOutSeq, if_pos hs, ← hfar, BitVec.ofInt_add]
    rfl

theorem Books.accept (h : Header) : Books (t.accept h) := by
  have hprimary : (t.accept h).primary = t.primary := by rw [primary, primary, accept_sent]
  refine ⟨?_, ?_, ?_, ?_⟩
  · rw [hprimary]
    exact hb.numbered
  · rw [hprimary, accept_hasSent]
    exact hb.unsent
  · rw [hprimary, accept_hasSent, accept_lastOutSeq]
    exact hb.far
  · intro hr x hx hmedia
    rw [accept_rebasePending] at hr
    rw [hprimary] at hx
    obtain ⟨hs, hshift⟩ := hb.mapping hr x hx hmedia
    rw [(accept_base hs hr).1, (accept_base hs hr).2]
    exact ⟨accept_started, hshift⟩

/-- The furthest place follows the number a track records for a source packet. -/
theorem Books.far_media (hs : s.number = t.mapSeq h.seq) (timestamp : ℤ) :
    ∃ l, ledger (t.primary ++ [s]) = some l ∧
        BitVec.ofInt 16 l.far = (t.recordOut h timestamp).lastOutSeq := by
  refine ⟨_, ledger_concat _ s, ?_⟩
  cases hsent : t.hasSent with
  | false =>
    have hadv : t.Advances (t.mapSeq h.seq) := .inl (by rw [hsent]; exact Bool.false_ne_true)
    rw [hb.unsent hsent, recordOut, if_pos hadv, ← hs]
    exact ofInt_place none s
  | true =>
    obtain ⟨l, hl, hfar⟩ := hb.far hsent
    rw [hl, elim_some, Ledger.enter, place, ofInt_max_nearest, hfar, hs, recordOut]
    have hiff : 2 * (t.mapSeq h.seq - t.lastOutSeq).toNat < 2 ^ 16 ↔
        t.Advances (t.mapSeq h.seq) := by
      rw [Advances, hsent]
      simp only [not_true_eq_false, false_or]
      omega
    exact if_congr hiff rfl rfl

theorem Books.inputRtpPacket (env : Env) (data : List Byte) :
    Books (t.inputRtpPacket cfg env data).2 := by
  rcases inputRtpPacket_cases cfg env data t with heq | ⟨h, -, -, -, hcases⟩
  · rw [heq]
    exact hb
  have hb' := hb.accept h
  rcases hcases with ⟨n, heq⟩ | ⟨n, s, order, cache, packets, octets, hcontent, hagain, hs, heq⟩
  · rw [heq]
    exact ⟨hb'.numbered, hb'.unsent, hb'.far, hb'.mapping⟩
  rw [heq]
  have hshift : s.shift = (t.accept h).baseOutSeq - (t.accept h).baseInSeq := by
    rw [Sent.shift, hs, hcontent, Content.source, mapSeq_sub]
  have hfollows : Follows (t.accept h).primary s := by
    refine ⟨fun hopens l hl => ?_, fun hopens x hx hmedia => ?_⟩
    · -- The base has just been set to the packet.
      rw [hcontent, Content.Opens, accept_rebasePending] at hopens
      rw [hs, accept_mapSeq_of_rebase hopens]
      rw [primary, accept_sent] at hl
      exact hb.nextOutSeq h.seq l hl
    · rw [hcontent, Content.Opens, Bool.not_eq_true] at hopens
      rw [hshift]
      exact (hb'.mapping hopens x hx hmedia).2.symm
  refine ⟨?_, fun hun => ?_, fun _ => ?_, fun _ x hx _ => ?_⟩
  · rw [primary, primary_concat hagain]
    exact hb'.numbered.concat hfollows
  · cases hun
  · rw [primary, primary_concat hagain]
    exact hb'.far_media hs (t.sourceTimestamp h)
  · rw [primary, primary_concat hagain, getLast?_concat] at hx
    obtain rfl := some.inj hx
    exact ⟨accept_started, hshift⟩

theorem Books.sendPadding (env : Env) (paddingBytes : ℕ) :
    Books (t.sendPadding cfg env paddingBytes).2 := by
  rcases sendPadding_cases cfg env paddingBytes t with ⟨n, heq⟩ | ⟨n, s, hcontent, hagain, hs, heq⟩
  · rw [heq]
    exact { hb with }
  rw [heq]
  refine ⟨?_, fun hun => ?_, fun _ => ?_, fun _ x hx hmedia => ?_⟩
  · rw [primary, primary_concat hagain]
    refine hb.numbered.concat ⟨fun _ l hl => ?_, fun hopens => ?_⟩
    · rw [hs]
      exact hb.nextOutSeq 0 l hl
    · exact absurd (show s.content.Opens by rw [hcontent]; trivial) hopens
  · cases hun
  · rw [primary, primary_concat hagain]
    refine ⟨_, ledger_concat _ s, ?_⟩
    change _ = t.nextOutSeq 0
    cases hl : ledger t.primary with
    | none => exact (ofInt_place none s).trans hs
    | some l =>
      have hnext := hb.nextOutSeq 0 l hl
      have hplace : nearest l.far (BitVec.ofInt 16 (l.far + 1)) = l.far + 1 :=
        nearest_ofInt (by norm_num) (by norm_num)
      rw [elim_some, Ledger.enter, place, hs, hnext, hplace, max_eq_right (by omega)]
  · rw [primary, primary_concat hagain, getLast?_concat] at hx
    obtain rfl := some.inj hx
    exact absurd hcontent hmedia

theorem Books.step (c : Call) : Books (t.step cfg c) := by
  cases c with
  | inputRtpPacket env data => exact hb.inputRtpPacket env data
  | sendPadding env paddingBytes => exact hb.sendPadding env paddingBytes
  | beginDiscontinuity => exact { hb with mapping := nofun }
  | onRtcpNack env lost =>
    obtain ⟨⟨n, cache, sent, heq⟩, hprimary⟩ := echoes_onRtcpNack cfg env lost t
    rw [Track.step]
    generalize t.onRtcpNack cfg env lost = t' at heq hprimary ⊢
    subst heq
    exact ⟨hprimary ▸ hb.numbered, fun h => hprimary.trans (hb.unsent h), fun h => by
      rw [hprimary]; exact hb.far h, fun h => by rw [hprimary]; exact hb.mapping h⟩
  | allocateElsewhere => exact { hb with }

end

theorem books_new : Books {} :=
  ⟨eachAfter_nil, fun _ => rfl, fun h => absurd h Bool.false_ne_true, nofun⟩

theorem after_books (cfg : Config) (calls : List Call) : Books (after cfg calls) :=
  run_induction (P := fun _ t => Books t) books_new (fun _ c hb => hb.step c) calls

/-- The sends of every run are numbered. -/
theorem after_numbered (cfg : Config) (calls : List Call) : Numbered (after cfg calls).primary :=
  (after_books cfg calls).numbered

/-- The source number to which the last number sent belongs, under the mapping in force. -/
def newestSource (t : Track) : BitVec 16 := t.baseInSeq + (t.lastOutSeq - t.baseOutSeq)

/-- A source number is not behind the source numbers passed since padding was last sent
    or the stream last resumed. -/
def InTime (seq : BitVec 16) (t : Track) : Prop :=
  ∀ l ∈ ledger t.primary, -l.passed < (seq - t.newestSource).toInt
  deriving Decidable

/-- A source packet that is sent, and does not set up a mapping itself, is in time. -/
def KeepsOrder (cfg : Config) (t : Track) : Call → Prop
  | .inputRtpPacket env data => (t.inputRtpPacket cfg env data).1 = true → t.started = true →
      t.rebasePending = false → ∀ h ∈ parseRtpHeader data, t.InTime h.seq
  | .sendPadding _ _ | .beginDiscontinuity | .onRtcpNack _ _ | .allocateElsewhere => True

instance (cfg : Config) (t : Track) : DecidablePred (t.KeepsOrder cfg)
  | .inputRtpPacket _ _ => inferInstanceAs (Decidable (_ → _ → _ → _))
  | .sendPadding _ _ | .beginDiscontinuity | .onRtcpNack _ _ | .allocateElsewhere => .isTrue trivial

/-- A source packet in time gets a place beyond the barrier: as far from the furthest
    place as its source number is from the newest one. -/
theorem Books.beyond (hb : Books t) (hcontent : s.content = .media h.seq t.rebasePending)
    (hs : s.number = (t.accept h).mapSeq h.seq)
    (hin : t.started = true → t.rebasePending = false → t.InTime h.seq) : Beyond t.primary s := by
  intro hopens l hl
  have hr : t.rebasePending = false := by
    rw [hcontent, Content.Opens] at hopens
    exact eq_false_of_ne_true hopens
  have hsent : t.hasSent = true := by
    by_contra hno
    rw [hb.unsent (eq_false_of_ne_true hno)] at hl
    cases hl
  obtain ⟨l', hl', hfar⟩ := hb.far hsent
  obtain rfl := some.inj (hl'.symm.trans hl)
  rw [place, nearest, hfar, hs]
  cases hstarted : t.started with
  | true =>
    have hdistance : (t.accept h).mapSeq h.seq - t.lastOutSeq = h.seq - t.newestSource := by
      rw [mapSeq, (accept_base hstarted hr).1, (accept_base hstarted hr).2, newestSource]
      ring
    have hpassed := hin hstarted hr l' hl
    rw [hdistance]
    rw [Ledger.passed] at hpassed
    omega
  | false =>
    -- The packet sets up the mapping, right after the furthest place.
    have hnext : (t.accept h).mapSeq h.seq = t.lastOutSeq + 1 := by
      simp [Track.accept, startTimestamp, startSeq, rebase, mapSeq, Track.nextOutSeq, hstarted, hr,
        hsent]
    have hle := ledger_barrier hl
    rw [hnext, add_sub_cancel_left]
    exact hle.trans_lt (lt_add_one _)

theorem fresh_step (hb : Books t) (hf : Fresh t.primary) {c : Call} (hc : t.KeepsOrder cfg c) :
    Fresh (t.step cfg c).primary := by
  cases c with
  | inputRtpPacket env data =>
    rw [step]
    rcases inputRtpPacket_cases cfg env data t with heq | ⟨h, hparse, -, -, hcases⟩
    · rwa [heq]
    rcases hcases with ⟨n, heq⟩ | ⟨n, s, order, cache, packets, octets, hcontent, hagain, hs, heq⟩
    · rw [heq, primary, accept_sent]
      exact hf
    · rw [accept_rebasePending] at hcontent
      rw [heq, primary, accept_sent, primary_concat hagain]
      exact hf.concat (hb.beyond hcontent hs fun h₁ h₂ => hc (by rw [heq]) h₁ h₂ h hparse)
  | sendPadding env paddingBytes =>
    rw [step]
    rcases sendPadding_cases cfg env paddingBytes t with ⟨n, heq⟩ | ⟨n, s, hcontent, hagain, -, heq⟩
    · rw [heq]
      exact hf
    · rw [heq, primary, primary_concat hagain]
      exact hf.concat fun hno => absurd (by rw [hcontent]; trivial) hno
  | beginDiscontinuity | allocateElsewhere => exact hf
  | onRtcpNack env lost =>
    rw [step, (echoes_onRtcpNack cfg env lost t).primary]
    exact hf

/-- In a run whose source packets are in time, none is sent behind the barrier. -/
theorem after_fresh {calls : List Call}
    (h : ∀ x ∈ history (step cfg) {} calls, x.1.KeepsOrder cfg x.2) :
    Fresh (after cfg calls).primary := by
  induction calls using reverseRecOn with
  | nil => exact eachAfter_nil
  | append_singleton calls c ih =>
    rw [history_concat, forall_mem_concat] at h
    rw [after, run_concat]
    exact fresh_step (after_books cfg calls) (ih h.1) h.2

/-- In every run whose source packets are in time when they are sent, two different
    packets have different numbers. If the mapping changes between them, then as long as
    the packets sent from the one to the other and the numbers left out are together at
    most half a turn. -/
theorem sends_differ (cfg : Config) (calls : List Call) (pre mid post : List Sent) (a b : Sent)
    (horder : ∀ x ∈ history (step cfg) {} calls, x.1.KeepsOrder cfg x.2)
    (hlog : (after cfg calls).primary = pre ++ a :: (mid ++ b :: post))
    (hwindow : Parted a mid b → mid.length + 2 + skippedAfter (pre ++ [a]) (mid ++ [b]) ≤ 2 ^ 15)
    (hdiff : a.content.Differs b.content) : a.number ≠ b.number := by
  have hn := after_numbered cfg calls
  have hfresh := after_fresh horder
  rw [hlog] at hn hfresh
  exact hn.number_ne hfresh hwindow hdiff

/-- A source packet with two bytes of payload. -/
def sourcePacket (seq : BitVec 16) (timestamp : BitVec 32) : List Byte :=
  [0x80, 96] ++ u16Bytes seq ++ u32Bytes timestamp ++ [0, 0, 0, 7, 1, 2]

/-- A track with transport numbers, as padding needs them. -/
def stampedConfig : Config := { transportCcExtensionId := 1, hasAllocator := true }

/-- Two source packets with padding between them, the second of them late. -/
theorem sends_differ_across_padding :
    let calls : List Call := [.inputRtpPacket {} (sourcePacket 12 0), .sendPadding {} 1,
      .inputRtpPacket {} (sourcePacket 15 0), .inputRtpPacket {} (sourcePacket 14 0)]
    ∃ a p c b, (after stampedConfig calls).primary = [a, p, c, b] ∧ a.content = .media 12 false ∧
      b.content = .media 14 false ∧ a.number ≠ b.number := by
  intro calls
  have horder : ∀ x ∈ history (step stampedConfig) {} calls, x.1.KeepsOrder stampedConfig x.2 := by
    decide +kernel
  generalize hlog : (after stampedConfig calls).primary = log
  have hnumbers : log.map (fun s => (s.content, s.number)) =
      [(.media 12 false, 12), (.padding, 13), (.media 15 false, 16), (.media 14 false, 15)] := by
    rw [← hlog]
    decide +kernel
  match log, hnumbers with
  | [a, p, c, b], hnumbers =>
    simp only [map_cons, map_nil, List.cons.injEq, Prod.mk.injEq, and_true] at hnumbers
    obtain ⟨⟨ha, ha'⟩, ⟨hp, hp'⟩, ⟨hc, hc'⟩, hb, hb'⟩ := hnumbers
    refine ⟨a, p, c, b, rfl, ha, hb, ?_⟩
    refine sends_differ stampedConfig calls [] [p, c] [] a b horder hlog (fun _ => ?_) ?_
    · simp only [length_cons, length_nil, nil_append, cons_append, skippedAfter, ledger, foldl_cons,
        foldl_nil, elim_some, elim_none, Ledger.skipped, Ledger.enter, Ledger.first,
        place, ha, ha', hp, hp', hc, hc', hb']
      decide
    · rw [ha, hb]
      decide

/-- Source packet 11 is late. After the padding the distance is one more, and it
    gets the number of packet 12. -/
theorem late_packet_repeats_number :
    let sends := (after stampedConfig [.inputRtpPacket {} (sourcePacket 10 0),
      .inputRtpPacket {} (sourcePacket 12 0), .sendPadding {} 1,
      .inputRtpPacket {} (sourcePacket 11 0)]).primary
    sends.map (fun s => (s.content, s.number)) =
        [(.media 10 false, 10), (.media 12 false, 12), (.padding, 13), (.media 11 false, 12)] ∧
      Content.Differs (.media 12 false) (.media 11 false) := by
  intro sends
  constructor <;> decide +kernel

end Track

end Packetia.Sender
