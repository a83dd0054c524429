import Packetia.Twcc.Generator

/-!
# What the reports say

A run of the generator is logged: the packets that were taken, with their extended
numbers, and the reports that were made. The reports cover increasing ranges of numbers,
and a packet they show as received has the time at which it was first taken
(`Session.reports_of_run`).

A packet that was taken and is not among the arrivals cannot come back to them: its
number has been reported and the packet is refused, or the history is full of newer
packets and it is discarded at once (`Kept`). So the first time is the one reported.

A packet that was discarded is skipped by the reports, for the next report starts behind
it. But before the first report, an older packet moves the start back (`Overtakes`), and
the packet that was discarded is then reported as lost (`Session.reports_discarded`).
-/

namespace Packetia.Twcc

open OrdMap List

/-! ## The log -/

/-- A packet that `OnPacket` took. -/
structure Accepted where
  sequence : BitVec 16
  extended : ℤ
  timeUs : ℤ
  deriving DecidableEq

/-- The time at which the number `x` was first taken. -/
def firstTime (log : List Accepted) (x : ℤ) : Option ℤ :=
  (log.find? fun a => a.extended = x).map Accepted.timeUs

/-- A report, with the extended numbers it covers. -/
structure Issued where
  first : ℤ
  last : ℤ
  report : FeedbackReport

/-- The extended numbers of a report, each with what is said of it. -/
def Issued.entries (r : Issued) : List (ℤ × FeedbackPacket) :=
  (Int.range r.first (r.last + 1)).zip r.report.packets

/-- The generator, the packets it took and the reports it made. -/
structure Session where
  generator : Generator := {}
  accepted : List Accepted := []
  reports : List Issued := []

inductive Call
  | onPacket (transportSequence : BitVec 16) (arrivalTimeUs : ℤ)
  | buildFeedback (senderSsrc mediaSsrc : BitVec 32) (nowUs : ℤ)
  | reset

/-- A report is made at a positive time: the time zero stands for no report. -/
def Call.Timed : Call → Prop
  | .buildFeedback _ _ nowUs => 0 < nowUs
  | _ => True

instance : DecidablePred Call.Timed := fun call =>
  match call with
  | .onPacket _ _ => inferInstanceAs (Decidable True)
  | .buildFeedback _ _ nowUs => inferInstanceAs (Decidable (0 < nowUs))
  | .reset => inferInstanceAs (Decidable True)

namespace Session

/-- A call, with what it adds to the log. A reset clears the log. -/
def step (cfg : Config) (s : Session) : Call → Session
  | .onPacket transportSequence arrivalTimeUs =>
    let r := s.generator.onPacket cfg transportSequence arrivalTimeUs
    { s with
      generator := r.2
      accepted := if r.1 then
          s.accepted ++ [{ sequence := transportSequence,
                           extended := s.generator.unwrap transportSequence,
                           timeUs := arrivalTimeUs }]
        else s.accepted }
  | .buildFeedback senderSsrc mediaSsrc nowUs =>
    let r := s.generator.buildFeedback cfg senderSsrc mediaSsrc nowUs
    { s with
      generator := r.2
      reports := match r.1 with
        | some report => s.reports ++ [{ first := s.generator.nextFeedbackSequence,
                                         last := s.generator.reportEnd cfg, report }]
        | none => s.reports }
  | .reset => { generator := s.generator.reset }

/-- The number `x` is reported as not received. -/
def Lost (s : Session) (x : ℤ) : Prop :=
  ∃ r ∈ s.reports, ∃ e ∈ r.entries, e.1 = x ∧ e.2.received = false
  deriving Decidable

/-- A packet older than `x` is taken before the first report, after `x` was taken and
    discarded. -/
def Overtakes (cfg : Config) (x : ℤ) (s : Session) : Call → Prop
  | .onPacket transportSequence arrivalTimeUs =>
    (s.generator.onPacket cfg transportSequence arrivalTimeUs).1 = true ∧
      s.generator.lastFeedbackTimeUs = 0 ∧ x ∈ s.accepted.map Accepted.extended ∧
      x ∉ s.generator.arrivalsUs.keys ∧ s.generator.unwrap transportSequence < x
  | _ => False

instance (cfg : Config) (x : ℤ) (s : Session) : DecidablePred (Overtakes cfg x s) := fun call =>
  match call with
  | .onPacket _ _ => inferInstanceAs (Decidable (_ ∧ _ ∧ _ ∧ _ ∧ _))
  | .buildFeedback _ _ _ => inferInstanceAs (Decidable False)
  | .reset => inferInstanceAs (Decidable False)

end Session

/-! ## The first time of a number -/

variable {log : List Accepted}

theorem firstTime_concat_of_some {x t : ℤ} (h : firstTime log x = some t) (a : Accepted) :
    firstTime (log ++ [a]) x = some t := by
  obtain ⟨b, hb, rfl⟩ := Option.map_eq_some_iff.1 h
  rw [firstTime, find?_append, hb]
  rfl

theorem firstTime_concat_self {a : Accepted} (h : ∀ b ∈ log, b.extended ≠ a.extended) :
    firstTime (log ++ [a]) a.extended = some a.timeUs := by
  have hnone : log.find? (fun b => b.extended = a.extended) = none :=
    find?_eq_none.2 fun b hb => by simpa using h b hb
  rw [firstTime, find?_append, hnone]
  simp

namespace Generator

/-! ## A call on the generator -/

variable {cfg : Config} {g g₀ : Generator} {s : BitVec 16} {x z t stop now : ℤ}

/-- The number `x` is covered by the reports so far: its packets are refused. -/
def Closed (g : Generator) (x : ℤ) : Prop := g.lastFeedbackTimeUs ≠ 0 ∧ x < g.nextFeedbackSequence

/-- The history is full of packets newer than `x`. -/
def Crowded (cfg : Config) (g : Generator) (x : ℤ) : Prop :=
  g.arrivalsUs.size = cfg.historyLimit ∧ ∀ y ∈ g.arrivalsUs.keys, x < y

/-- The generator is made ready for the packet `z`. -/
structure Prepares (g g₀ : Generator) (z : ℤ) : Prop where
  arrivals : g₀.arrivalsUs = g.arrivalsUs
  time : g₀.lastFeedbackTimeUs = g.lastFeedbackTimeUs
  started : g₀.hasSequence = true
  next_le : g₀.nextFeedbackSequence ≤ z
  next : g₀.nextFeedbackSequence = g.nextFeedbackSequence ∨
    g.lastFeedbackTimeUs = 0 ∧ g₀.nextFeedbackSequence = z

/-- A packet is refused, or the generator is made ready for it and it is recorded. -/
theorem onPacket_cases (cfg : Config) (s : BitVec 16) (t : ℤ)
    (hfresh : g.hasSequence = false → g.lastFeedbackTimeUs = 0) :
    g.onPacket cfg s t = (false, g) ∨
    ∃ g₀, Prepares g g₀ (g.unwrap s) ∧
      g.onPacket cfg s t = (true, g₀.record cfg (g.unwrap s) t) := by
  rw [onPacket]
  by_cases ht : t < 0
  · exact .inl (if_pos ht)
  rw [if_neg ht]
  by_cases hseq : g.hasSequence = true
  · rw [if_neg (not_not.2 hseq)]
    by_cases hold : g.unwrap s < g.nextFeedbackSequence ∧ g.lastFeedbackTimeUs ≠ 0
    · exact .inl (if_pos hold)
    · refine .inr ⟨g.extend (g.unwrap s), ⟨rfl, rfl, hseq, ?_, ?_⟩, if_neg hold⟩
      all_goals
        rw [extend]
        split_ifs with hlast
      · exact min_le_right _ _
      · exact not_lt.1 fun hlt => hold ⟨hlt, hlast⟩
      · exact (min_choice _ _).imp_right fun hmin => ⟨hlast, hmin⟩
      · exact .inl rfl
  · rw [if_pos hseq]
    exact .inr ⟨g.start (g.unwrap s),
      ⟨rfl, rfl, rfl, le_rfl, .inr ⟨hfresh (Bool.eq_false_iff.2 hseq), rfl⟩⟩, rfl⟩

theorem Prepares.closed (h : Prepares g g₀ z) (hx : g.Closed x) : g₀.Closed x := by
  refine ⟨h.time ▸ hx.1, ?_⟩
  rcases h.next with heq | ⟨hzero, -⟩
  · exact heq ▸ hx.2
  · exact absurd hzero hx.1

/-- A closed number is not that of the packet. -/
theorem Prepares.ne_of_closed (h : Prepares g g₀ z) (hx : g.Closed x) : x ≠ z :=
  ((h.closed hx).2.trans_le h.next_le).ne

section

variable (hsize : g.arrivalsUs.size ≤ cfg.historyLimit)
include hsize

/-- Recording a packet does not move the start of the next report back. -/
theorem le_next_record :
    g.nextFeedbackSequence ≤ (g.record cfg z t).nextFeedbackSequence := by
  rcases record_cases hsize with ⟨-, h⟩ | ⟨-, -, h⟩ | ⟨-, -, m, -, h⟩ <;> rw [h]
  exact le_max_left _ _

theorem record_frame :
    (g.record cfg z t).lastFeedbackTimeUs = g.lastFeedbackTimeUs ∧
      (g.record cfg z t).hasSequence = g.hasSequence := by
  rcases record_cases hsize with ⟨-, h⟩ | ⟨-, -, h⟩ | ⟨-, -, m, -, h⟩
  all_goals
    rw [h]
    exact ⟨rfl, rfl⟩

theorem Closed.record (hx : g.Closed x) : (g.record cfg z t).Closed x :=
  ⟨(record_frame hsize).1 ▸ hx.1, hx.2.trans_le (le_next_record hsize)⟩

/-- A packet that leaves the arrivals is behind the start of the next report. -/
theorem mem_or_lt_record (hx : x ∈ g.arrivalsUs.keys ∨ x < g.nextFeedbackSequence ∨ x = z) :
    x ∈ (g.record cfg z t).arrivalsUs.keys ∨ x < (g.record cfg z t).nextFeedbackSequence := by
  rcases or_left_comm.1 hx with hlt | hmem
  · exact .inr (hlt.trans_le (le_next_record hsize))
  · have hemplace : x ∈ (g.arrivalsUs.emplace z t).keys := mem_keys_emplace.2 hmem.symm
    rcases record_cases hsize with ⟨hz, h⟩ | ⟨-, -, h⟩ | ⟨-, -, m, hm, h⟩
    · rw [h]
      exact .inl (hmem.elim id fun hxz => hxz ▸ hz)
    · rw [h]
      exact .inl hemplace
    · rw [h]
      rcases eq_or_mem_tail_of_mem_keys hm hemplace with rfl | htail
      · exact .inr (lt_max_of_lt_right (lt_add_one _))
      · exact .inl htail

end

/-- What the arrivals keep of the packets that were taken. -/
structure Kept (cfg : Config) (log : List Accepted) (g : Generator) : Prop where
  size : g.arrivalsUs.size ≤ cfg.historyLimit
  fresh : g.hasSequence = false → g.lastFeedbackTimeUs = 0
  first : ∀ e ∈ g.arrivalsUs.entries, firstTime log e.1 = some e.2
  found : ∀ a ∈ log, a.extended ∈ g.arrivalsUs.keys ∨ g.Closed a.extended ∨ g.Crowded cfg a.extended

variable {log : List Accepted}

theorem kept_init (cfg : Config) : Kept cfg [] {} where
  size := Nat.zero_le _
  fresh _ := rfl
  first := nofun
  found := nofun

section

variable (h : Kept cfg log g)
include h

theorem Kept.prepares (hg : Prepares g g₀ z) : Kept cfg log g₀ where
  size := hg.arrivals ▸ h.size
  fresh hf := absurd (hg.started.symm.trans hf) (by decide)
  first := hg.arrivals ▸ h.first
  found a ha := by
    rw [Crowded, hg.arrivals]
    exact (h.found a ha).imp_right (Or.imp_left hg.closed)

/-- A packet that was taken and is gone is older than the whole history, which is full,
    if it is not refused. -/
theorem Kept.crowded_of_notMem {a : Accepted} (ha : a ∈ log)
    (hnext : g.nextFeedbackSequence ≤ a.extended) (hnot : a.extended ∉ g.arrivalsUs.keys) :
    g.Crowded cfg a.extended := by
  rcases h.found a ha with hmem | hclosed | hcrowded
  · exact absurd hmem hnot
  · exact absurd hclosed.2 (not_lt.2 hnext)
  · exact hcrowded

/-- The oldest packet is discarded to make room for the packet `z`. -/
theorem Kept.discard (hnext : g.nextFeedbackSequence ≤ z) (hz : z ∉ g.arrivalsUs.keys)
    (hfull : g.arrivalsUs.size = cfg.historyLimit) {m : ℤ × ℤ}
    (hm : (g.arrivalsUs.emplace z t).head? = some m) (s : BitVec 16) :
    Kept cfg (log ++ [⟨s, z, t⟩])
      { g with
        arrivalsUs := (g.arrivalsUs.emplace z t).tail
        nextFeedbackSequence := max g.nextFeedbackSequence (m.1 + 1) } := by
  have hsize : (g.arrivalsUs.emplace z t).tail.size = cfg.historyLimit := by
    have := size_tail_of_head? hm
    have := size_emplace t hz
    omega
  have hnewer : ∀ y ∈ (g.arrivalsUs.emplace z t).tail.keys, m.1 < y := by
    intro y hy
    obtain ⟨v, hv⟩ := mem_keys.1 hy
    exact head?_lt_tail hm hv
  -- If the packet itself stays, one that was there before is discarded, and is older.
  have hold : m.1 ≠ z → m.1 ∈ g.arrivalsUs.keys ∧ m.1 < z := by
    intro hne
    have hmem := mem_keys_emplace.1 (mem_keys_of_mem (OrdMap.mem_of_head? hm))
    refine ⟨hmem.resolve_left hne, ?_⟩
    exact hnewer z ((eq_or_mem_tail_of_mem_keys hm
      (mem_keys_emplace.2 (.inl rfl))).resolve_left hne.symm)
  refine ⟨hsize.le, h.fresh, fun e he => ?_, fun a ha => ?_⟩
  · rcases (mem_emplace hz).1 (OrdMap.mem_of_mem_tail he) with rfl | hmem
    · -- It was not taken before: it would be older than the whole history.
      obtain ⟨hmem, hlt⟩ := hold (hnewer z (mem_keys_of_mem he)).ne
      refine firstTime_concat_self fun b hb heq => ?_
      have hcrowded := h.crowded_of_notMem hb (heq ▸ hnext) (heq ▸ hz)
      exact absurd (hcrowded.2 m.1 hmem) (heq ▸ hlt.not_gt)
    · exact firstTime_concat_of_some (h.first e hmem) _
  · have hgone {x : ℤ} (hx : x ∈ (g.arrivalsUs.emplace z t).keys) :
        x ∈ (g.arrivalsUs.emplace z t).tail.keys ∨
          ((g.arrivalsUs.emplace z t).tail.size = cfg.historyLimit ∧
            ∀ y ∈ (g.arrivalsUs.emplace z t).tail.keys, x < y) := by
      rcases eq_or_mem_tail_of_mem_keys hm hx with rfl | htail
      · exact .inr ⟨hsize, hnewer⟩
      · exact .inl htail
    rcases mem_append.1 ha with ha | ha
    · rcases h.found a ha with hmem | hclosed | hcrowded
      · exact (hgone (mem_keys_emplace.2 (.inr hmem))).imp_right .inr
      · exact .inr (.inl ⟨hclosed.1, lt_max_of_lt_left hclosed.2⟩)
      · refine .inr (.inr ⟨hsize, fun y hy => ?_⟩)
        obtain ⟨v, hv⟩ := mem_keys.1 hy
        rcases (mem_emplace hz).1 (OrdMap.mem_of_mem_tail hv) with heq | hmem
        · obtain rfl : y = z := congrArg Prod.fst heq
          obtain ⟨hmem, hlt⟩ := hold (hnewer y hy).ne
          exact (hcrowded.2 m.1 hmem).trans hlt
        · exact hcrowded.2 y (mem_keys_of_mem hmem)
    · obtain rfl := mem_singleton.1 ha
      exact (hgone (mem_keys_emplace.2 (.inl rfl))).imp_right .inr

/-- A packet that is taken keeps the first times. -/
theorem Kept.record (hnext : g.nextFeedbackSequence ≤ z) (s : BitVec 16) (t : ℤ) :
    Kept cfg (log ++ [⟨s, z, t⟩]) (g.record cfg z t) := by
  rcases record_cases h.size with
    ⟨hz, heq⟩ | ⟨hz, hlt, heq⟩ | ⟨hz, hfull, m, hm, heq⟩
  · rw [heq]
    exact ⟨h.size, h.fresh, fun e he => firstTime_concat_of_some (h.first e he) _,
      forall_mem_concat.2 ⟨h.found, .inl hz⟩⟩
  · rw [heq]
    refine ⟨(size_emplace t hz).trans_le hlt, h.fresh, fun e he => ?_, fun a ha => ?_⟩
    · rcases (mem_emplace hz).1 he with rfl | hmem
      · refine firstTime_concat_self fun b hb hbz => ?_
        exact hlt.ne (h.crowded_of_notMem hb (hbz ▸ hnext) (hbz ▸ hz)).1
      · exact firstTime_concat_of_some (h.first e hmem) _
    · rcases mem_append.1 ha with ha | ha
      · rcases h.found a ha with hmem | hclosed | hcrowded
        · exact .inl (mem_keys_emplace.2 (.inr hmem))
        · exact .inr (.inl hclosed)
        · exact absurd hcrowded.1 hlt.ne
      · exact .inl (mem_keys_emplace.2 (.inl (mem_singleton.1 ha ▸ rfl)))
  · rw [heq]
    exact h.discard hnext hz hfull hm s

omit h in
/-- The numbers of a report are closed by it. -/
theorem closed_reported (hnow : 0 < now) (hx : x ≤ stop) : (g.reported stop now).Closed x :=
  ⟨hnow.ne', Int.lt_add_one_of_le hx⟩

omit h in
theorem mem_keys_reported : x ∈ (g.reported stop now).arrivalsUs.keys ↔
    x ∈ g.arrivalsUs.keys ∧ stop < x := by
  simp only [reported, OrdMap.mem_keys, mem_eraseThrough, exists_and_right]

theorem Kept.reported (hnow : 0 < now) (hstop : g.nextFeedbackSequence ≤ stop)
    (hseq : g.hasSequence = true) : Kept cfg log (g.reported stop now) where
  size := (size_eraseThrough_le _ _).trans h.size
  fresh hf := absurd (hseq.symm.trans hf) (by decide)
  first e he := h.first e (mem_eraseThrough.1 he).1
  found a ha := by
    rcases le_or_gt a.extended stop with hle | hgt
    · exact .inr (.inl (closed_reported hnow hle))
    · rcases h.found a ha with hmem | hclosed | hcrowded
      · exact .inl (mem_keys_reported.2 ⟨hmem, hgt⟩)
      · exact absurd (hclosed.2.trans_le hstop) hgt.not_gt
      · -- All arrivals are newer than the report, and stay.
        have hall : g.arrivalsUs.eraseThrough stop = g.arrivalsUs :=
          eraseThrough_of_lt fun y hy => hgt.trans (hcrowded.2 y hy)
        refine .inr (.inr ?_)
        rw [Crowded, Generator.reported, hall]
        exact hcrowded

end

/-- A report is made of at least one number, or nothing happens. -/
theorem buildFeedback_cases (cfg : Config) (g : Generator) (sender media : BitVec 32) (now : ℤ) :
    g.buildFeedback cfg sender media now = (none, g) ∨
    (g.hasSequence = true ∧ g.nextFeedbackSequence ≤ g.reportEnd cfg ∧
      g.reportEnd cfg - g.nextFeedbackSequence + 1 ≤ cfg.statusLimit ∧
      g.buildFeedback cfg sender media now =
        (some (g.report sender media g.nextFeedbackSequence (g.reportEnd cfg)),
          g.reported (g.reportEnd cfg) now)) := by
  rw [buildFeedback]
  split_ifs with h
  · have hpos : 1 ≤ cfg.statusLimit := le_max_left _ _
    refine .inr ⟨h.1.1, le_min h.1.2 (by omega), ?_, rfl⟩
    rw [reportEnd]
    omega
  · exact .inl rfl

end Generator

/-! ## The reports -/

/-- The report is about the numbers it covers, and a packet it shows as received has its
    first time. -/
structure Issued.Genuine (log : List Accepted) (r : Issued) : Prop where
  nonempty : r.first ≤ r.last
  base : r.report.baseSequence = BitVec.ofInt 16 r.first
  count : r.report.packetStatusCount.toNat = r.report.packets.length
  covers : r.entries.map Prod.fst = Int.range r.first (r.last + 1)
  all : r.entries.map Prod.snd = r.report.packets
  word : ∀ e ∈ r.entries, e.2.transportSequence = BitVec.ofInt 16 e.1
  received : ∀ e ∈ r.entries, e.2.received = true → firstTime log e.1 = some e.2.receiveTimeUs

open Generator

section Issued

variable {cfg : Config} {log : List Accepted} {g : Generator} {r : Issued} {x : ℤ}

theorem Issued.Genuine.concat (h : r.Genuine log) (a : Accepted) : r.Genuine (log ++ [a]) :=
  { h with received := fun e he hr => firstTime_concat_of_some (h.received e he hr) a }

theorem Issued.Genuine.mem_range (h : r.Genuine log) {e : ℤ × FeedbackPacket}
    (he : e ∈ r.entries) : r.first ≤ e.1 ∧ e.1 ≤ r.last := by
  have hmem : e.1 ∈ Int.range r.first (r.last + 1) := h.covers ▸ mem_map_of_mem he
  exact (Int.mem_range_iff.1 hmem).imp_right Int.le_of_lt_add_one

theorem entries_report (g : Generator) (sender media : BitVec 32) (base stop : ℤ) :
    Issued.entries ⟨base, stop, g.report sender media base stop⟩ =
      (Int.range base (stop + 1)).map fun x => (x, g.statusOf x) := by
  have hzip := zip_map' (l := Int.range base (stop + 1)) (f := id) (g := g.statusOf)
  rwa [map_id] at hzip

/-- A number that is among the arrivals is shown as received, with its time. -/
theorem statusOf_of_mem {t : ℤ} (h : (x, t) ∈ g.arrivalsUs.entries) :
    (g.statusOf x).received = true ∧ (g.statusOf x).receiveTimeUs = t := by
  rw [statusOf, find?_eq_some.2 h]
  exact ⟨rfl, rfl⟩

/-- No other number is shown as received. -/
theorem statusOf_of_notMem (h : x ∉ g.arrivalsUs.keys) : (g.statusOf x).received = false := by
  rw [statusOf, find?_eq_none.2 h]

theorem statusOf_transportSequence (g : Generator) (x : ℤ) :
    (g.statusOf x).transportSequence = BitVec.ofInt 16 x := by
  rw [statusOf]
  cases g.arrivalsUs.find? x <;> rfl

theorem length_range (m n : ℤ) : (Int.range m n).length = (n - m).toNat := by
  simp [Int.range]

theorem range_sorted (m n : ℤ) : (Int.range m n).Pairwise (· < ·) :=
  pairwise_map.2 (pairwise_lt_range.imp fun h => by simpa using h)

/-- A report that is made is genuine. -/
theorem genuine_report (h : Kept cfg log g) (hmax : cfg.maxPacketStatusCount ≤ 65535)
    (hstop : g.nextFeedbackSequence ≤ g.reportEnd cfg)
    (hlen : g.reportEnd cfg - g.nextFeedbackSequence + 1 ≤ cfg.statusLimit)
    (sender media : BitVec 32) :
    Issued.Genuine log ⟨g.nextFeedbackSequence, g.reportEnd cfg,
      g.report sender media g.nextFeedbackSequence (g.reportEnd cfg)⟩ := by
  have hentries := entries_report g sender media g.nextFeedbackSequence (g.reportEnd cfg)
  have hlimit : cfg.statusLimit ≤ 65535 := max_le (by decide) hmax
  refine ⟨hstop, rfl, ?_, ?_, ?_, fun e he => ?_, fun e he hr => ?_⟩
  · rw [report, length_map, length_range, BitVec.toNat_ofInt]
    omega
  · rw [hentries, map_map]
    exact map_id _
  · rw [hentries, map_map]
    rfl
  · rw [hentries] at he
    obtain ⟨x, -, rfl⟩ := mem_map.1 he
    exact statusOf_transportSequence g x
  · rw [hentries] at he
    obtain ⟨x, -, rfl⟩ := mem_map.1 he
    by_cases hx : x ∈ g.arrivalsUs.keys
    · obtain ⟨t, ht⟩ := mem_keys.1 hx
      rw [(statusOf_of_mem ht).2]
      exact h.first (x, t) ht
    · exact absurd ((statusOf_of_notMem hx).symm.trans hr) (by decide)

end Issued

namespace Session

variable {cfg : Config} {s : Session} {q : BitVec 16} {x t now : ℤ} {sender media : BitVec 32}

/-! ## A call -/

theorem step_onPacket_cases (cfg : Config) (q : BitVec 16) (t : ℤ)
    (hfresh : s.generator.hasSequence = false → s.generator.lastFeedbackTimeUs = 0) :
    s.step cfg (.onPacket q t) = s ∨
    ∃ g₀, Prepares s.generator g₀ (s.generator.unwrap q) ∧
      (s.generator.onPacket cfg q t).1 = true ∧
      s.step cfg (.onPacket q t) =
        { s with
          generator := g₀.record cfg (s.generator.unwrap q) t
          accepted := s.accepted ++ [⟨q, s.generator.unwrap q, t⟩] } := by
  rcases onPacket_cases cfg q t hfresh with h | ⟨g₀, hg, h⟩
  · refine .inl ?_
    simp only [step, h, Bool.false_eq_true, if_false]
  · refine .inr ⟨g₀, hg, congrArg Prod.fst h, ?_⟩
    simp only [step, h, if_true]

theorem step_buildFeedback_cases (cfg : Config) (s : Session) (sender media : BitVec 32) (now : ℤ) :
    s.step cfg (.buildFeedback sender media now) = s ∨
    (s.generator.hasSequence = true ∧
      s.generator.nextFeedbackSequence ≤ s.generator.reportEnd cfg ∧
      s.generator.reportEnd cfg - s.generator.nextFeedbackSequence + 1 ≤ cfg.statusLimit ∧
      s.step cfg (.buildFeedback sender media now) =
        { s with
          generator := s.generator.reported (s.generator.reportEnd cfg) now
          reports := s.reports ++ [⟨s.generator.nextFeedbackSequence, s.generator.reportEnd cfg,
            s.generator.report sender media s.generator.nextFeedbackSequence
              (s.generator.reportEnd cfg)⟩] }) := by
  rcases buildFeedback_cases cfg s.generator sender media now with h | ⟨hseq, hstop, hlen, h⟩
  · refine .inl ?_
    simp only [step, h]
  · refine .inr ⟨hseq, hstop, hlen, ?_⟩
    simp only [step, h]

/-- What holds of the log after any calls. -/
structure Inv (cfg : Config) (s : Session) : Prop where
  kept : Kept cfg s.accepted s.generator
  words : ∀ a ∈ s.accepted, BitVec.ofInt 16 a.extended = a.sequence
  genuine : ∀ r ∈ s.reports, r.Genuine s.accepted
  sorted : s.reports.Pairwise fun r r' => r.last < r'.first
  closed : ∀ r ∈ s.reports, s.generator.Closed r.last

theorem inv_init (cfg : Config) : Inv cfg {} where
  kept := kept_init cfg
  words := nofun
  genuine := nofun
  sorted := .nil
  closed := nofun

theorem Inv.onPacket (h : Inv cfg s) (q : BitVec 16) (t : ℤ) :
    Inv cfg (s.step cfg (.onPacket q t)) := by
  rcases step_onPacket_cases cfg q t h.kept.fresh with heq | ⟨g₀, hg, -, heq⟩
  · rwa [heq]
  · have hkept := h.kept.prepares hg
    rw [heq]
    exact ⟨hkept.record hg.next_le q t,
      forall_mem_concat.2 ⟨h.words, ofInt_unwrap s.generator q⟩,
      fun r hr => (h.genuine r hr).concat _, h.sorted,
      fun r hr => (hg.closed (h.closed r hr)).record hkept.size⟩

theorem Inv.buildFeedback (h : Inv cfg s) (hmax : cfg.maxPacketStatusCount ≤ 65535)
    (sender media : BitVec 32) (hnow : 0 < now) :
    Inv cfg (s.step cfg (.buildFeedback sender media now)) := by
  rcases step_buildFeedback_cases cfg s sender media now with heq | ⟨hseq, hstop, hlen, heq⟩
  · rwa [heq]
  · rw [heq]
    exact ⟨h.kept.reported hnow hstop hseq, h.words,
      forall_mem_concat.2 ⟨h.genuine, genuine_report h.kept hmax hstop hlen sender media⟩,
      pairwise_concat.2 ⟨h.sorted, fun r hr => (h.closed r hr).2⟩,
      forall_mem_concat.2
        ⟨fun r hr => closed_reported hnow ((h.closed r hr).2.le.trans hstop),
          closed_reported hnow le_rfl⟩⟩

/-- A number that is reported is closed. -/
theorem Inv.closed_of_lost (h : Inv cfg s) (hx : s.Lost x) : s.generator.Closed x := by
  obtain ⟨r, hr, e, he, rfl, -⟩ := hx
  have hclosed := h.closed r hr
  exact ⟨hclosed.1, ((h.genuine r hr).mem_range he).2.trans_lt hclosed.2⟩

/-! ## A packet that is not overtaken -/

/-- The packet `x`, if it was taken, is among the arrivals or behind the start of the next
    report; and it is not reported as lost. -/
structure Safe (s : Session) (x : ℤ) : Prop where
  kept : x ∈ s.accepted.map Accepted.extended →
    x ∈ s.generator.arrivalsUs.keys ∨ x < s.generator.nextFeedbackSequence
  told : s.Lost x → x ∉ s.accepted.map Accepted.extended

theorem safe_init (x : ℤ) : Safe {} x where
  kept := nofun
  told _ := not_mem_nil

theorem Safe.onPacket (hs : Safe s x) (h : Inv cfg s)
    (hno : ¬Overtakes cfg x s (.onPacket q t)) : Safe (s.step cfg (.onPacket q t)) x := by
  rcases step_onPacket_cases cfg q t h.kept.fresh with heq | ⟨g₀, hg, htaken, heq⟩
  · rwa [heq]
  · rw [heq]
    constructor
    · intro hx
      refine mem_or_lt_record (h.kept.prepares hg).size ?_
      rw [map_append, mem_append, map_singleton, mem_singleton] at hx
      rcases hx with hx | hx
      · rw [hg.arrivals]
        by_cases hmem : x ∈ s.generator.arrivalsUs.keys
        · exact .inl hmem
        · rcases hg.next with hnext | ⟨hzero, hnext⟩
          · exact .inr (.inl (hnext ▸ (hs.kept hx).resolve_left hmem))
          · -- Before the first report the packet is not older than the one discarded.
            have hle : x ≤ s.generator.unwrap q :=
              not_lt.1 fun hlt => hno ⟨htaken, hzero, hx, hmem, hlt⟩
            exact .inr (hnext ▸ hle.lt_or_eq)
      · exact .inr (.inr hx)
    · intro hlost hx
      rw [map_append, mem_append, map_singleton, mem_singleton] at hx
      exact hx.elim (hs.told hlost) (hg.ne_of_closed (h.closed_of_lost hlost))

theorem Safe.buildFeedback (hs : Safe s x) (sender media : BitVec 32) (now : ℤ) :
    Safe (s.step cfg (.buildFeedback sender media now)) x := by
  rcases step_buildFeedback_cases cfg s sender media now with heq | ⟨-, hstop, -, heq⟩
  · rwa [heq]
  · rw [heq]
    constructor
    · intro hx
      rcases le_or_gt x (s.generator.reportEnd cfg) with hle | hgt
      · exact .inr (Int.lt_add_one_of_le hle)
      · refine .inl (mem_keys_reported.2 ⟨(hs.kept hx).resolve_right fun hlt => ?_, hgt⟩)
        exact absurd (hlt.trans_le hstop) hgt.not_gt
    · rintro ⟨r, hr, e, he, rfl, hreceived⟩
      rcases mem_append.1 hr with hr | hr
      · exact hs.told ⟨r, hr, e, he, rfl, hreceived⟩
      · -- The number is neither among the arrivals nor behind the start of the report.
        obtain rfl := mem_singleton.1 hr
        rw [entries_report] at he
        obtain ⟨x, hx, rfl⟩ := mem_map.1 he
        intro htaken
        rcases hs.kept htaken with hmem | hlt
        · obtain ⟨t, ht⟩ := mem_keys.1 hmem
          exact absurd ((statusOf_of_mem ht).1.symm.trans hreceived) (by decide)
        · exact absurd hlt (not_lt.2 (Int.mem_range_iff.1 hx).1)

/-! ## Runs -/

/-- The log after any calls, and the packets that are not overtaken in them. -/
theorem inv_run (hmax : cfg.maxPacketStatusCount ≤ 65535) (calls : List Call)
    (htimed : ∀ call ∈ calls, call.Timed) :
    Inv cfg (run (step cfg) {} calls) ∧
      ∀ x, (∀ h ∈ history (step cfg) {} calls, ¬Overtakes cfg x h.1 h.2) →
        Safe (run (step cfg) {} calls) x := by
  refine run_induction
    (P := fun calls s => (∀ call ∈ calls, call.Timed) → Inv cfg s ∧
      ∀ x, (∀ h ∈ history (step cfg) {} calls, ¬Overtakes cfg x h.1 h.2) → Safe s x)
    (fun _ => ⟨inv_init cfg, fun x _ => safe_init x⟩) (fun calls call ih htimed => ?_) calls htimed
  obtain ⟨hinv, hsafe⟩ := ih fun c hc => htimed c (mem_append_left _ hc)
  have hcall := htimed call mem_concat_self
  -- A packet that is not overtaken in the calls is safe before the last of them.
  have hbefore (x : ℤ)
      (hno : ∀ h ∈ history (step cfg) {} (calls ++ [call]), ¬Overtakes cfg x h.1 h.2) :
      Safe (run (step cfg) {} calls) x ∧ ¬Overtakes cfg x (run (step cfg) {} calls) call := by
    rw [history_concat] at hno
    exact ⟨hsafe x fun h hh => hno h (mem_append_left _ hh),
      hno (_, call) mem_concat_self⟩
  cases call with
  | onPacket q t =>
    exact ⟨hinv.onPacket q t, fun x hno => (hbefore x hno).1.onPacket hinv (hbefore x hno).2⟩
  | buildFeedback sender media now =>
    exact ⟨hinv.buildFeedback hmax sender media hcall,
      fun x hno => (hbefore x hno).1.buildFeedback sender media now⟩
  | reset => exact ⟨inv_init cfg, fun x _ => safe_init x⟩

/-- Whatever packets come, the reports cover increasing ranges of numbers, none twice. A
    packet shown as received has the time at which its number was first taken. A packet
    that was taken is not shown as lost, unless it was discarded and an older one was taken
    after it, before the first report. -/
theorem reports_of_run (hmax : cfg.maxPacketStatusCount ≤ 65535) (calls : List Call)
    (htimed : ∀ call ∈ calls, call.Timed) :
    let s := run (step cfg) {} calls
    s.reports.Pairwise (fun r r' => r.last < r'.first) ∧
      (s.reports.flatMap fun r => r.entries.map Prod.fst).Pairwise (· < ·) ∧
      (∀ r ∈ s.reports, r.Genuine s.accepted) ∧
      (∀ a ∈ s.accepted, BitVec.ofInt 16 a.extended = a.sequence) ∧
      ∀ a ∈ s.accepted,
        (∀ h ∈ history (step cfg) {} calls, ¬Overtakes cfg a.extended h.1 h.2) →
          ¬s.Lost a.extended := by
  intro s
  obtain ⟨hinv, hsafe⟩ := inv_run hmax calls htimed
  refine ⟨hinv.sorted, ?_, hinv.genuine, hinv.words, fun a ha hno hlost => ?_⟩
  · refine pairwise_flatMap.2 ⟨fun r hr => ?_, ?_⟩
    · rw [(hinv.genuine r hr).covers]
      exact range_sorted _ _
    · refine hinv.sorted.imp_of_mem fun {r r'} hr hr' hlt x hx y hy => ?_
      obtain ⟨e, he, rfl⟩ := mem_map.1 hx
      obtain ⟨e', he', rfl⟩ := mem_map.1 hy
      exact ((hinv.genuine r hr).mem_range he).2.trans_lt
        (hlt.trans_le ((hinv.genuine r' hr').mem_range he').1)
  · exact (hsafe _ hno).told hlost (mem_map_of_mem ha)

/-- Three packets around the wrap of the numbers, the first of them twice, when two may
    wait: the first is discarded. -/
def wrappingCalls : List Call :=
  [.onPacket 65535 1000, .onPacket 0 2000, .onPacket 65535 2500, .onPacket 1 3000,
    .buildFeedback 1 2 5000]

/-- The packet that is discarded is not reported as lost. -/
theorem reports_of_wrappingCalls :
    let s := run (step { maxPacketStatusCount := 2, maxHistoryPackets := 2 }) {} wrappingCalls
    s.reports.length = 1 ∧ (∀ r ∈ s.reports, r.Genuine s.accepted) ∧ ¬s.Lost 65535 := by
  have hmax : Config.maxPacketStatusCount
      { maxPacketStatusCount := 2, maxHistoryPackets := 2 } ≤ 65535 := by decide
  obtain ⟨-, -, hgenuine, -, hlost⟩ := reports_of_run hmax wrappingCalls (by decide)
  exact ⟨by decide, hgenuine, hlost ⟨65535, 65535, 1000⟩ (by decide) (by decide)⟩

/-- Three packets when two may wait, and then an older one. -/
def overtakingCalls : List Call :=
  [.onPacket 10 1000, .onPacket 11 2000, .onPacket 12 3000, .onPacket 9 4000,
    .buildFeedback 1 2 5000]

/-- The packet 10 is taken and discarded. The packet 9 moves the start of the first report
    back to it, and it is reported as lost. -/
theorem reports_discarded :
    let s := run (step { maxPacketStatusCount := 2, maxHistoryPackets := 2 }) {} overtakingCalls
    (∀ call ∈ overtakingCalls, call.Timed) ∧ ∃ a ∈ s.accepted, s.Lost a.extended := by
  decide

end Session

end Packetia.Twcc
