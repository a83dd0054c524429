import Packetia.Downlink.Allocator
import Packetia.Lib.Run

/-!
# The allocator does not flap

While the demands and the target rate stay as they are, a video of the highest priority
that is resumed stays allowed (`stays_allowed`), whatever the margin and the delays are.

The videos of the highest priority are a fixed list, in the order of their ids. In a call
those that are allowed come first (`sorted_eq`), at their plain rate, then the others with
the margin. A video that is resumed was wanted in that call, and so were the others that
are taken from then on: there is room for all of them at their plain rates. An allowed
video that was not wanted did not fit, and waits for its pause; in the next call it has no
more room than before. So the videos that were wanted and are allowed are wanted again
(`takeFitting_allocate`).

If videos are paused without a delay, those that are allowed after a call fit into the budget, and
none that was not wanted would fit beside those that were (`allocate_within_budget`). Videos whose
rate is not known are never wanted.
-/

namespace Packetia.Downlink

open List Allocator

variable {Id : Type} [LinearOrder Id] {cfg : Config} {demands : List (Demand Id)}
  {a : Allocator Id} {budget : Budget} {nowMs : ℕ} {v d : Demand Id} {slots : Slots Id}
  {b : Demand Id} {target : BitVec 32}

/-- The track of a demand is allowed. -/
def Allocator.allows (a : Allocator Id) (d : Demand Id) : Bool := (slotAt a.slots d.id).allowed

/-- A video is allowed as before, or as it is wanted. -/
theorem allowed_visitSlot (wanted : Bool) (slot : Slot) :
    (visitSlot cfg nowMs wanted slot).allowed = slot.allowed ∨
      (visitSlot cfg nowMs wanted slot).allowed = wanted := by
  simp only [visitSlot]
  split_ifs
  all_goals first | exact .inl rfl | exact .inr rfl

omit [LinearOrder Id] in
/-- The first loop leaves videos as they are. -/
theorem allowed_admitSlot {clear : Bool} {slot : Slot} (hd : d.IsVideo) :
    (admitSlot clear d slot).allowed = slot.allowed := by
  rw [admitSlot, if_neg fun h => hd.2 h.2]
  split_ifs <;> rfl

theorem allowed_admitted (hids : (demands.map Demand.id).Nodup) (hd : d ∈ demands)
    (hvideo : d.IsVideo) :
    (slotAt (a.admitted cfg budget demands nowMs) d.id).allowed = a.allows d := by
  rw [slotAt, admitted_of_mem hids hd]
  exact allowed_admitSlot hvideo

omit [LinearOrder Id] in
/-- The plain rate is the least a video costs. -/
theorem required_le_costOf (allowed : Bool) (d : Demand Id) :
    required d ≤ costOf cfg allowed d := by
  rw [costOf, Nat.le_div_iff_mul_le (by decide), required]
  refine Nat.mul_le_mul_left _ ?_
  split_ifs <;> omega

omit [LinearOrder Id] in
theorem costOf_allowed (d : Demand Id) : costOf cfg true d = required d := by
  rw [costOf, if_pos rfl, Nat.mul_div_cancel _ (by decide), required]

/-! ## The videos of the highest priority -/

section

variable (cfg : Config) (demands : List (Demand Id)) (v : Demand Id)

/-- The videos with the priority of `v`, by their ids. -/
def topVideos : List (Demand Id) :=
  (demands.filter fun d => d.IsVideo ∧ d.priority = v.priority).insertionSort fun a b => a.id ≤ b.id

/-- The other videos. -/
def lowerVideos : List (Demand Id) := demands.filter fun d => d.IsVideo ∧ d.priority ≠ v.priority

/-- What is left of the budget for videos. -/
def videoRoom (budget : Budget) : ℕ :=
  budget.usable cfg - totalCost required (demands.filter (·.IsAudio))

end

theorem mem_topVideos :
    d ∈ topVideos demands v ↔ d ∈ demands ∧ d.IsVideo ∧ d.priority = v.priority := by
  rw [topVideos, mem_insertionSort, mem_filter, decide_eq_true_eq]

omit [LinearOrder Id] in
theorem mem_lowerVideos :
    d ∈ lowerVideos demands v ↔ d ∈ demands ∧ d.IsVideo ∧ d.priority ≠ v.priority := by
  rw [lowerVideos, mem_filter, decide_eq_true_eq]

theorem topVideos_sorted : (topVideos demands v).Pairwise fun a b => a.id ≤ b.id := by
  exact pairwise_insertionSort _ _

theorem topVideos_nodup (hids : (demands.map Demand.id).Nodup) : (topVideos demands v).Nodup :=
  (perm_insertionSort _ _).nodup_iff.2 ((List.Nodup.of_map _ hids).filter _)

theorem perm_videos :
    (topVideos demands v ++ lowerVideos demands v).Perm (demands.filter (·.IsVideo)) := by
  have htop : (demands.filter fun d => d.IsVideo ∧ d.priority = v.priority) =
      (demands.filter (·.IsVideo)).filter fun d => d.priority = v.priority := by
    rw [filter_filter]
    simp [and_comm]
  have hlower : lowerVideos demands v =
      (demands.filter (·.IsVideo)).filter fun d => !decide (d.priority = v.priority) := by
    rw [lowerVideos, filter_filter]
    simp [and_comm]
  rw [topVideos, hlower]
  refine ((perm_insertionSort _ _).append_right _).trans ?_
  rw [htop]
  exact filter_append_perm _ _

theorem rank_le_of_priority {a : Demand Id} (h : b.priority < a.priority) :
    rank slots a ≤ rank slots b := by
  refine (before_iff.1 ?_).le
  have hne : a.priority ≠ b.priority := fun heq => by
    rw [heq, BitVec.lt_def] at h
    omega
  rw [before, if_pos hne]
  exact decide_eq_true h

theorem rank_le_of_allowed {a : Demand Id} (h : a.priority = b.priority)
    (ha : (slotAt slots a.id).allowed = true) (hb : (slotAt slots b.id).allowed = false) :
    rank slots a ≤ rank slots b := by
  refine (before_iff.1 ?_).le
  rw [before, if_neg (not_not.2 h), if_pos (by rw [ha, hb]; decide), ha]

theorem rank_le_of_id {a : Demand Id} (h : a.priority = b.priority)
    (hallowed : (slotAt slots a.id).allowed = (slotAt slots b.id).allowed) (hid : a.id ≤ b.id) :
    rank slots a ≤ rank slots b := by
  refine not_lt.1 (mt before_iff.2 ?_)
  rw [before, if_neg (not_not.2 h.symm), if_neg (not_not.2 hallowed.symm), decide_eq_true_eq,
    not_lt]
  exact hid

/-- The order of the last loop: first the videos of the highest priority that are allowed. -/
theorem sorted_eq (hids : (demands.map Demand.id).Nodup)
    (htop : ∀ d ∈ demands, d.IsVideo → d.priority ≤ v.priority) :
    a.sorted cfg budget demands nowMs =
      (topVideos demands v).filter a.allows ++
        (topVideos demands v).filter (fun d => !a.allows d) ++
        sortVideos (a.admitted cfg budget demands nowMs) (lowerVideos demands v) := by
  rw [sorted, admission_videos]
  refine sortVideos_unique (nodup_videos hids)
    (((filter_append_perm _ _).append (sortVideos_perm _ _)).trans perm_videos) ?_
  have hallowed : ∀ d ∈ topVideos demands v,
      (slotAt (a.admitted cfg budget demands nowMs) d.id).allowed = a.allows d := by
    intro d hd
    obtain ⟨hmem, hvideo, -⟩ := mem_topVideos.1 hd
    exact allowed_admitted hids hmem hvideo
  have hpriority : ∀ d ∈ topVideos demands v, d.priority = v.priority := fun d hd =>
    (mem_topVideos.1 hd).2.2
  -- Two videos of the list that are both allowed, or both not.
  have hsame : ∀ p : Demand Id → Bool, (∀ d e, p d → p e → a.allows d = a.allows e) →
      ((topVideos demands v).filter p).Pairwise fun d e =>
        rank (a.admitted cfg budget demands nowMs) d ≤
          rank (a.admitted cfg budget demands nowMs) e := by
    intro p hp
    refine (topVideos_sorted.filter p).imp_of_mem ?_
    intro d e hd he hid
    obtain ⟨hd, hpd⟩ := mem_filter.1 hd
    obtain ⟨he, hpe⟩ := mem_filter.1 he
    refine rank_le_of_id ((hpriority d hd).trans (hpriority e he).symm) ?_ hid
    rw [hallowed d hd, hallowed e he, hp d e hpd hpe]
  rw [pairwise_append, pairwise_append]
  refine ⟨⟨hsame _ fun d e hd he => hd.trans he.symm, hsame _ fun d e hd he => ?_,
    fun d hd e he => ?_⟩, sortVideos_sorted _ _, fun d hd e he => ?_⟩
  · rw [Bool.not_eq_true'] at hd he
    rw [hd, he]
  · obtain ⟨hd, hpd⟩ := mem_filter.1 hd
    obtain ⟨he, hpe⟩ := mem_filter.1 he
    refine rank_le_of_allowed ((hpriority d hd).trans (hpriority e he).symm) ?_ ?_
    · rw [hallowed d hd, hpd]
    · rw [hallowed e he]
      exact Bool.not_eq_true' _ ▸ hpe
  · have hd : d ∈ topVideos demands v := by
      rcases mem_append.1 hd with hd | hd <;> exact mem_of_mem_filter hd
    obtain ⟨he, hvideo, hne⟩ := mem_lowerVideos.1 ((sortVideos_perm _ _).subset he)
    refine rank_le_of_priority ?_
    rw [hpriority d hd]
    exact BitVec.lt_of_le_ne (htop e he hvideo) hne

/-! ## A call -/

/-- The videos wanted in a call. -/
def Allocator.wanted (cfg : Config) (a : Allocator Id) (budget : Budget)
    (demands : List (Demand Id)) (nowMs : ℕ) : List (Demand Id) :=
  takeFitting (slotCost cfg (a.admitted cfg budget demands nowMs))
    (videoRoom cfg demands budget) (a.sorted cfg budget demands nowMs)

theorem sorted_perm : (a.sorted cfg budget demands nowMs).Perm (demands.filter (·.IsVideo)) := by
  rw [sorted, admission_videos]
  exact sortVideos_perm _ _

theorem mem_sorted (hd : d ∈ demands) (hvideo : d.IsVideo) :
    d ∈ a.sorted cfg budget demands nowMs :=
  sorted_perm.symm.subset (mem_filter.2 ⟨hd, decide_eq_true hvideo⟩)

section

variable (hids : (demands.map Demand.id).Nodup)
include hids

theorem slot_decided (hvalid : budget.Valid cfg nowMs) (hd : d ∈ demands) (hvideo : d.IsVideo) :
    slotAt (a.decided cfg budget demands nowMs) d.id =
      visitSlot cfg nowMs (decide (d ∈ a.wanted cfg budget demands nowMs))
        (slotAt (a.admitted cfg budget demands nowMs) d.id) := by
  rw [slotAt, decided, if_pos hvalid, admission_remaining,
    (foldl_visit_slots ((sorted_perm.map _).nodup_iff.2 (nodup_videos hids))).1 d
      (mem_sorted hd hvideo)]
  rfl

theorem allows_allocate (hvalid : budget.Valid cfg nowMs) (hd : d ∈ demands) (hvideo : d.IsVideo) :
    (a.allocate cfg budget demands nowMs).2.allows d = a.allows d ∨
      (a.allocate cfg budget demands nowMs).2.allows d =
        decide (d ∈ a.wanted cfg budget demands nowMs) := by
  change (slotAt (a.decided cfg budget demands nowMs) d.id).allowed = _ ∨
    (slotAt (a.decided cfg budget demands nowMs) d.id).allowed = _
  rw [slot_decided hids hvalid hd hvideo, ← allowed_admitted hids hd hvideo]
  exact allowed_visitSlot _ _

section

variable (htop : ∀ d ∈ demands, d.IsVideo → d.priority ≤ v.priority)
include htop

/-- The allowed videos of the highest priority are wanted if they fit at their plain rates. -/
theorem mem_wanted_of_allows (hd : d ∈ topVideos demands v) (hallowed : a.allows d = true) :
    d ∈ a.wanted cfg budget demands nowMs ↔
        d ∈ takeFitting required (videoRoom cfg demands budget)
          ((topVideos demands v).filter a.allows) := by
  have hcost : ∀ e ∈ (topVideos demands v).filter a.allows,
      slotCost cfg (a.admitted cfg budget demands nowMs) e = required e := by
    intro e he
    obtain ⟨he, hallowed⟩ := mem_filter.1 he
    obtain ⟨hmem, hvideo, -⟩ := mem_topVideos.1 he
    rw [slotCost, allowed_admitted hids hmem hvideo, hallowed, costOf_allowed]
  rw [wanted, sorted_eq hids htop, append_assoc, takeFitting_append,
    takeFitting_congr hcost, mem_append, or_iff_left]
  -- The rest of the list has other videos.
  intro hrest
  rcases mem_append.1 (mem_of_mem_takeFitting hrest) with hrest | hrest
  · have hnot := (mem_filter.1 hrest).2
    rw [hallowed] at hnot
    cases hnot
  · exact (mem_lowerVideos.1 ((sortVideos_perm _ _).subset hrest)).2.2 (mem_topVideos.1 hd).2.2

omit htop in
omit hids in
theorem required_ne_zero_of_wanted (hd : d ∈ a.wanted cfg budget demands nowMs) :
    required d ≠ 0 := by
  intro hzero
  refine cost_ne_zero_of_mem hd ?_
  rw [slotCost, costOf, ← required, hzero, Nat.zero_mul, Nat.zero_div]

omit htop in
omit hids in
/-- There is room for what is wanted, at the plain rates. -/
theorem totalCost_wanted_le (a : Allocator Id) (nowMs : ℕ) {l : List (Demand Id)} (hl : l.Nodup)
    (hwanted : ∀ d ∈ l, d ∈ a.wanted cfg budget demands nowMs) :
    totalCost required l ≤ videoRoom cfg demands budget := by
  obtain ⟨l', hperm, hsub⟩ := subperm_of_subset hl hwanted
  calc totalCost required l = totalCost required l' := totalCost_perm hperm.symm
    _ ≤ totalCost required (a.wanted cfg budget demands nowMs) := totalCost_sublist hsub
    _ ≤ totalCost (slotCost cfg (a.admitted cfg budget demands nowMs))
          (a.wanted cfg budget demands nowMs) := totalCost_le fun d _ => required_le_costOf _ d
    _ ≤ videoRoom cfg demands budget := totalCost_takeFitting_le

/-- After a call, the allowed videos of the highest priority that were wanted in it are those
    that fit. -/
theorem takeFitting_allocate (hvalid : budget.Valid cfg nowMs) :
    takeFitting required (videoRoom cfg demands budget)
      ((topVideos demands v).filter (a.allocate cfg budget demands nowMs).2.allows) =
      (topVideos demands v).filter fun d => (a.allocate cfg budget demands nowMs).2.allows d &&
        decide (d ∈ a.wanted cfg budget demands nowMs) := by
  have hchange : ∀ d ∈ topVideos demands v, _ := fun d hd =>
    allows_allocate (a := a) hids hvalid (mem_topVideos.1 hd).1 (mem_topVideos.1 hd).2.1
  refine takeFitting_stable (p := a.allows) (topVideos_nodup hids) ?_ ?_ ?_ ?_ le_rfl ?_
  · intro d _ hw
    exact required_ne_zero_of_wanted (of_decide_eq_true hw)
  · intro d hd hallowed
    rw [decide_eq_true_eq]
    exact mem_wanted_of_allows hids htop hd hallowed
  · intro d hd hallowed hw
    rcases hchange d hd with h | h
    · rw [h, hallowed]
    · rw [h, hw]
  · intro d hd hallowed hw
    rcases hchange d hd with h | h
    · rw [← h, hallowed]
    · exact absurd (h.symm.trans hallowed) hw
  · refine totalCost_wanted_le a nowMs ((topVideos_nodup hids).filter _) fun d hd => ?_
    have hboth := (mem_filter.1 hd).2
    rw [Bool.and_eq_true] at hboth
    exact of_decide_eq_true hboth.2

end

end

/-! ## The budget -/

/-- A video that is not wanted is paused at once if there is no delay. -/
theorem allowed_visitSlot_false (hpause : cfg.pauseDelayMs = 0) (slot : Slot) :
    (visitSlot cfg nowMs false slot).allowed = false := by
  cases hallowed : slot.allowed with
  | false => simp [visitSlot, hallowed]
  | true => simp [visitSlot, hallowed, hpause]

/-- A call without a delay for pauses. The videos that are allowed after it fit into what audio
    leaves of the budget. The call chooses videos, whose slots then change as visited: the chosen
    ones fit with their costs at the time, and no other video with a rate would fit beside them. -/
theorem allocate_within_budget (cfg : Config) (a : Allocator Id) (budget : Budget)
    (demands : List (Demand Id)) (nowMs : ℕ) (hpause : cfg.pauseDelayMs = 0)
    (hvalid : budget.Valid cfg nowMs) (hids : (demands.map Demand.id).Nodup) :
    totalCost required ((demands.filter (·.IsVideo)).filter
        (a.allocate cfg budget demands nowMs).2.allows) ≤ videoRoom cfg demands budget ∧
    ∃ chosen : List (Demand Id),
      (∀ d ∈ demands, d.IsVideo → slotAt (a.allocate cfg budget demands nowMs).2.slots d.id =
        visitSlot cfg nowMs (decide (d ∈ chosen))
          (admitSlot (a.clears cfg budget nowMs) d (slotAt a.slots d.id))) ∧
      chosen.Subperm (demands.filter (·.IsVideo)) ∧
      totalCost (slotCost cfg a.slots) chosen ≤ videoRoom cfg demands budget ∧
      ∀ d ∈ demands, d.IsVideo → required d ≠ 0 → d ∉ chosen →
        videoRoom cfg demands budget - totalCost (slotCost cfg a.slots) chosen <
          slotCost cfg a.slots d := by
  -- The first loop does not change what a video costs.
  have hwanted : a.wanted cfg budget demands nowMs = takeFitting (slotCost cfg a.slots)
      (videoRoom cfg demands budget) (a.sorted cfg budget demands nowMs) := by
    refine takeFitting_congr fun d hd => ?_
    obtain ⟨hd, hvideo⟩ := mem_filter.1 (sorted_perm.subset hd)
    rw [slotCost, allowed_admitted hids hd (of_decide_eq_true hvideo)]
    rfl
  constructor
  · refine totalCost_wanted_le a nowMs (((List.Nodup.of_map _ hids).filter _).filter _) ?_
    intro d hd
    obtain ⟨hd, hallowed⟩ := mem_filter.1 hd
    obtain ⟨hd, hvideo⟩ := mem_filter.1 hd
    by_contra hnot
    change (slotAt (a.decided cfg budget demands nowMs) d.id).allowed = true at hallowed
    rw [slot_decided hids hvalid hd (of_decide_eq_true hvideo), decide_eq_false hnot,
      allowed_visitSlot_false hpause] at hallowed
    cases hallowed
  · refine ⟨a.wanted cfg budget demands nowMs, fun d hd hvideo => ?_, ?_, ?_,
      fun d hd hvideo hrate hnot => ?_⟩
    · change slotAt (a.decided cfg budget demands nowMs) d.id = _
      rw [slot_decided hids hvalid hd hvideo, slotAt, admitted_of_mem hids hd]
      rfl
    · exact takeFitting_sublist.subperm.trans sorted_perm.subperm
    · rw [hwanted]
      exact totalCost_takeFitting_le
    · rw [hwanted] at hnot ⊢
      have hcost : required d ≤ slotCost cfg a.slots d := required_le_costOf _ d
      exact lt_cost_of_notMem (mem_sorted hd hvideo) (by omega) hnot

/-- A video whose rate is not known is not resumed, although it would cost nothing. -/
theorem unknown_rate_left_out :
    slotCost { pauseDelayMs := 0 } (fun _ => none) ({ id := 1 } : Demand ℕ) = 0 ∧
      (({} : Allocator ℕ).allocate { pauseDelayMs := 0 }
        { estimateValid := true, targetBps := 100 } [{ id := 1 }] 0).1 = [⟨1, false⟩] := by
  decide

/-! ## A sequence of calls -/

/-- The video `v` is allowed, and fits among the allowed videos of its priority. -/
def Settled (cfg : Config) (demands : List (Demand Id)) (target : BitVec 32) (v : Demand Id)
    (a : Allocator Id) : Prop :=
  v ∈ takeFitting required (videoRoom cfg demands { targetBps := target })
    ((topVideos demands v).filter a.allows)

theorem Settled.allows (h : Settled cfg demands target v a) :
    a.allows v = true := (mem_filter.1 (mem_of_mem_takeFitting h)).2

section

variable (hids : (demands.map Demand.id).Nodup)
include hids

section

variable (htop : ∀ d ∈ demands, d.IsVideo → d.priority ≤ v.priority)
include htop

/-- A video that was wanted in a call and is allowed after it is settled. -/
theorem settled_of_wanted (hv : v ∈ topVideos demands v) (hvalid : budget.Valid cfg nowMs)
    (hwanted : v ∈ a.wanted cfg budget demands nowMs)
    (hafter : (a.allocate cfg budget demands nowMs).2.allows v = true) :
    Settled cfg demands budget.targetBps v (a.allocate cfg budget demands nowMs).2 := by
  change v ∈ takeFitting required (videoRoom cfg demands budget) _
  rw [takeFitting_allocate hids htop hvalid, mem_filter, hafter, decide_eq_true hwanted]
  exact ⟨hv, rfl⟩

/-- A video that is resumed is settled. -/
theorem settled_of_resumed (hv : v ∈ demands) (hvideo : v.IsVideo) (hvalid : budget.Valid cfg nowMs)
    (hbefore : a.allows v = false)
    (hafter : (a.allocate cfg budget demands nowMs).2.allows v = true) :
    Settled cfg demands budget.targetBps v (a.allocate cfg budget demands nowMs).2 := by
  have hwanted : v ∈ a.wanted cfg budget demands nowMs := by
    rcases allows_allocate hids hvalid hv hvideo with h | h
    · rw [hafter, hbefore] at h
      cases h
    · exact of_decide_eq_true (h.symm.trans hafter)
  exact settled_of_wanted hids htop (mem_topVideos.2 ⟨hv, hvideo, rfl⟩) hvalid hwanted hafter

/-- A settled video stays settled. -/
theorem Settled.allocate (hvalid : budget.Valid cfg nowMs)
    (h : Settled cfg demands budget.targetBps v a) :
    Settled cfg demands budget.targetBps v (a.allocate cfg budget demands nowMs).2 := by
  have hv := (mem_filter.1 (mem_of_mem_takeFitting h)).1
  obtain ⟨hmem, hvideo, -⟩ := mem_topVideos.1 hv
  have hwanted : v ∈ a.wanted cfg budget demands nowMs :=
    (mem_wanted_of_allows hids htop hv h.allows).2 h
  have hafter : (a.allocate cfg budget demands nowMs).2.allows v = true := by
    rcases allows_allocate hids hvalid hmem hvideo with heq | heq
    · rw [heq, h.allows]
    · rw [heq, decide_eq_true hwanted]
  exact settled_of_wanted hids htop hv hvalid hwanted hafter

end

end

/-- A call with the same demands as the others. -/
def Allocator.next (cfg : Config) (demands : List (Demand Id)) (a : Allocator Id)
    (call : Budget × ℕ) : Allocator Id := (a.allocate cfg call.1 demands call.2).2

theorem Settled.run (hids : (demands.map Demand.id).Nodup)
    (htop : ∀ d ∈ demands, d.IsVideo → d.priority ≤ v.priority) {calls : List (Budget × ℕ)}
    (hcalls : ∀ c ∈ calls, c.1.Valid cfg c.2 ∧ c.1.targetBps = target)
    (h : Settled cfg demands target v a) :
    Settled cfg demands target v (run (next cfg demands) a calls) := by
  induction calls generalizing a with
  | nil => exact h
  | cons c calls ih =>
    obtain ⟨⟨hvalid, rfl⟩, hcalls⟩ := forall_mem_cons.1 hcalls
    exact ih hcalls (h.allocate hids htop hvalid)

theorem mem_allocate {allowed : Bool} (hv : v ∈ demands) :
    ⟨v.id, allowed⟩ ∈ (a.allocate cfg budget demands nowMs).1 ↔
      (a.allocate cfg budget demands nowMs).2.allows v = allowed := by
  change _ ∈ demands.map _ ↔ (slotAt (a.decided cfg budget demands nowMs) v.id).allowed = allowed
  rw [mem_map]
  constructor
  · rintro ⟨d, -, heq⟩
    obtain ⟨hid, hallowed⟩ := Allocation.mk.inj heq
    rwa [hid] at hallowed
  · intro hallowed
    exact ⟨v, hv, by rw [hallowed]⟩

/-- A sequence of calls with the same demands and the same target rate, each at a time at which
    its budget is valid. A video of the highest priority that goes from not allowed to allowed
    in a call is allowed in the results of all later calls. The calls need not be in the order
    of time, and the path may change. -/
theorem stays_allowed (cfg : Config) (demands : List (Demand Id)) (v : Demand Id)
    (a : Allocator Id) (target : BitVec 32) (earlier between : List (Budget × ℕ))
    (call later : Budget × ℕ) (hids : (demands.map Demand.id).Nodup) (hv : v ∈ demands)
    (hvideo : v.IsVideo) (htop : ∀ d ∈ demands, d.IsVideo → d.priority ≤ v.priority)
    (hcalls : ∀ c ∈ earlier ++ call :: between ++ [later],
      c.1.Valid cfg c.2 ∧ c.1.targetBps = target)
    (hpaused : (run (next cfg demands) a earlier).allows v = false)
    (hresumed : ⟨v.id, true⟩ ∈
      ((run (next cfg demands) a earlier).allocate cfg call.1 demands call.2).1) :
    ⟨v.id, true⟩ ∈ ((run (next cfg demands) a (earlier ++ call :: between)).allocate cfg
      later.1 demands later.2).1 := by
  rw [forall_mem_append, forall_mem_append, forall_mem_cons, forall_mem_singleton] at hcalls
  obtain ⟨⟨-, ⟨hvalid, rfl⟩, hbetween⟩, hvalid', htarget⟩ := hcalls
  have hsettled := settled_of_resumed hids htop hv hvideo hvalid hpaused
    ((mem_allocate hv).1 hresumed)
  have hrun := hsettled.run hids htop hbetween
  rw [mem_allocate hv, run_append, run_cons]
  rw [← htarget] at hrun
  exact (hrun.allocate hids htop hvalid').allows

/-- Two cameras, with room for one of them and without delays. -/
def cameras : List (Demand ℕ) := [{ id := 1, requiredBps := 60 }, { id := 2, requiredBps := 50 }]

theorem allocate_within_budget_cameras :
    totalCost required ((cameras.filter (·.IsVideo)).filter
      (({} : Allocator ℕ).allocate { pauseDelayMs := 0 }
        { estimateValid := true, targetBps := 100 } cameras 0).2.allows) ≤
      videoRoom { pauseDelayMs := 0 } cameras { estimateValid := true, targetBps := 100 } :=
  (allocate_within_budget { pauseDelayMs := 0 } {} { estimateValid := true, targetBps := 100 }
    cameras 0 rfl (by decide) (by decide)).1

theorem stays_allowed_cameras :
    ⟨1, true⟩ ∈ ((run (next { pauseDelayMs := 0, resumeDelayMs := 0 } cameras)
      ({ slots := fun _ => some { allowed := false } } : Allocator ℕ)
      [({ estimateValid := true, targetBps := 100 }, 0)]).allocate
        { pauseDelayMs := 0, resumeDelayMs := 0 } { estimateValid := true, targetBps := 100 }
        cameras 10).1 :=
  stays_allowed { pauseDelayMs := 0, resumeDelayMs := 0 } cameras { id := 1, requiredBps := 60 }
    { slots := fun _ => some { allowed := false } } 100 [] []
    ({ estimateValid := true, targetBps := 100 }, 0)
    ({ estimateValid := true, targetBps := 100 }, 10)
    (by decide) (by decide) (by decide) (by decide) (by decide) (by decide) (by decide)

end Packetia.Downlink
