import Packetia.Lib.Greedy

/-!
# The downlink bandwidth allocator

`DownlinkBandwidthAllocator` (`media/quality/DownlinkBandwidthAllocator.cpp`) decides which
of the tracks of a receiver may be sent, given a budget. Audio is always allowed and its
rate is reserved. The videos are gone over in the order of their priority, those allowed
at present first, and a video is wanted if it fits into what is left. A video that is
not allowed needs a margin to be wanted. A change has to be wanted for some time before it
is made; the time runs in the slot of the video.

The code goes over the demands in the order it is given them, in three loops over mutable
slots. What comes out does not depend on that order: after the first loop the slot of a
demand is a function of the demand and of its slot before (`admitted`), and after the last
one of whether the video is wanted (`visited`), which is decided by what fits in the sorted
list (`takeFitting`). Ids make the sorting total (`allocate_perm`).
-/

namespace Packetia.Downlink

open List Function

variable {Id : Type} [LinearOrder Id]

/-- `Config`, as the constructor accepts it. -/
structure Config where
  usablePercent : ℕ := 85
  resumeMarginPercent : ℕ := 20
  pauseDelayMs : ℕ := 300
  resumeDelayMs : ℕ := 1000
  feedbackTimeoutMs : ℕ := 1500
  usable_pos : usablePercent ≠ 0 := by decide
  usable_le : usablePercent ≤ 100 := by decide
  margin_le : resumeMarginPercent ≤ 100 := by decide
  timeout_pos : feedbackTimeoutMs ≠ 0 := by decide

/-- `DownlinkBandwidthBudget`. -/
structure Budget where
  pathEpoch : ℕ := 1
  measuredAtMs : ℕ := 0
  networkAvailable : Bool := true
  estimateValid : Bool := false
  targetBps : BitVec 32 := 0

/-- `DownlinkDemand`. -/
structure Demand (Id : Type) where
  id : Id
  audio : Bool := false
  eligible : Bool := true
  priority : BitVec 8 := 128
  requiredBps : BitVec 32 := 0
  deriving DecidableEq

/-- `DownlinkAllocation`. -/
structure Allocation (Id : Type) where
  id : Id
  allowed : Bool
  deriving DecidableEq

structure Slot where
  allowed : Bool := true
  pending : Bool := false
  sinceMs : ℕ := 0

/-- `slots_`. -/
abbrev Slots (Id : Type) := Id → Option Slot

/-- `slots_[id]`, which makes a slot if there is none. -/
def slotAt (slots : Slots Id) (id : Id) : Slot := (slots id).getD {}

structure Allocator (Id : Type) where
  epoch : ℕ := 0
  slots : Slots Id := fun _ => none

/-- The estimate can be used. -/
def Budget.Valid (cfg : Config) (budget : Budget) (nowMs : ℕ) : Prop :=
  budget.networkAvailable ∧ budget.estimateValid ∧ budget.targetBps ≠ 0 ∧
    nowMs ≥ budget.measuredAtMs ∧ nowMs - budget.measuredAtMs ≤ cfg.feedbackTimeoutMs
  deriving Decidable

/-- What there is to distribute. The rates have 32 bits, so that this and the costs below
    fit into the 64 bits of the code. -/
def Budget.usable (cfg : Config) (budget : Budget) : ℕ :=
  budget.targetBps.toNat * cfg.usablePercent / 100

/-- The videos among the demands that take part. -/
def Demand.IsVideo (d : Demand Id) : Prop := d.eligible ∧ ¬d.audio
  deriving Decidable

/-! ## The first loop -/

/-- The state of the first loop. -/
structure Admission (Id : Type) where
  slots : Slots Id
  remaining : ℕ
  videos : List (Demand Id) := []

/-- The slot of a demand in the first loop. -/
def admitSlot (clear : Bool) (d : Demand Id) (slot : Slot) : Slot :=
  let slot := if clear ∨ ¬d.eligible then { slot with pending := false } else slot
  if d.eligible ∧ d.audio then { slot with allowed := true } else slot

/-- A round of the first loop. -/
def Admission.enter (clear : Bool) (s : Admission Id) (d : Demand Id) : Admission Id :=
  let slots := Function.update s.slots d.id (some (admitSlot clear d (slotAt s.slots d.id)))
  if ¬d.eligible then { s with slots }
  else if d.audio then
    { s with slots, remaining := s.remaining - min s.remaining d.requiredBps.toNat }
  else { s with slots, videos := s.videos ++ [d] }

/-! ## The order of the videos -/

/-- The comparison the videos are sorted by. -/
def before (slots : Slots Id) (a b : Demand Id) : Bool :=
  if a.priority ≠ b.priority then a.priority > b.priority
  else if (slotAt slots a.id).allowed ≠ (slotAt slots b.id).allowed then (slotAt slots a.id).allowed
  else a.id < b.id

/-- `std::sort`. -/
def sortVideos (slots : Slots Id) (videos : List (Demand Id)) : List (Demand Id) :=
  videos.insertionSort fun a b => ¬before slots b a

/-! ## The last loop -/

/-- The rate that is taken for a video. -/
def costOf (cfg : Config) (allowed : Bool) (d : Demand Id) : ℕ :=
  d.requiredBps.toNat * (if allowed then 100 else 100 + cfg.resumeMarginPercent) / 100

/-- The slot of a video in the last loop. -/
def visitSlot (cfg : Config) (nowMs : ℕ) (wanted : Bool) (slot : Slot) : Slot :=
  if wanted = slot.allowed then { slot with pending := false }
  else
    let slot :=
      if ¬slot.pending ∨ nowMs < slot.sinceMs then { slot with pending := true, sinceMs := nowMs }
      else slot
    let delay := if wanted then cfg.resumeDelayMs else cfg.pauseDelayMs
    if nowMs - slot.sinceMs ≥ delay then { slot with allowed := wanted, pending := false } else slot

/-- A round of the last loop. -/
def visit (cfg : Config) (nowMs : ℕ) (s : Slots Id × ℕ) (d : Demand Id) : Slots Id × ℕ :=
  let slot := slotAt s.1 d.id
  let cost := costOf cfg slot.allowed d
  let wanted : Bool := cost ≠ 0 ∧ cost ≤ s.2
  (Function.update s.1 d.id (some (visitSlot cfg nowMs wanted slot)),
    if wanted then s.2 - cost else s.2)

section

variable (cfg : Config) (a : Allocator Id) (budget : Budget) (demands : List (Demand Id))
  (nowMs : ℕ)

/-- The first loop clears the timers: the path has changed, or the estimate is of no use. -/
def Allocator.clears : Bool := a.epoch ≠ budget.pathEpoch ∨ ¬budget.Valid cfg nowMs

/-- The first loop. -/
def Allocator.admission : Admission Id :=
  demands.foldl (Admission.enter (a.clears cfg budget nowMs))
    { slots := a.slots, remaining := budget.usable cfg }

/-- The slots after the first loop, without those of other ids. -/
def Allocator.admitted : Slots Id := fun id =>
  if id ∈ demands.map Demand.id then (a.admission cfg budget demands nowMs).slots id else none

/-- The videos in the order of the last loop. -/
def Allocator.sorted : List (Demand Id) :=
  sortVideos (a.admitted cfg budget demands nowMs) (a.admission cfg budget demands nowMs).videos

/-- The slots at the end. -/
def Allocator.decided : Slots Id :=
  if budget.Valid cfg nowMs then
    ((a.sorted cfg budget demands nowMs).foldl (visit cfg nowMs)
      (a.admitted cfg budget demands nowMs, (a.admission cfg budget demands nowMs).remaining)).1
  else a.admitted cfg budget demands nowMs

/-- `Allocate`. -/
def Allocator.allocate : List (Allocation Id) × Allocator Id :=
  let slots := a.decided cfg budget demands nowMs
  (demands.map fun d => ⟨d.id, (slotAt slots d.id).allowed⟩, { epoch := budget.pathEpoch, slots })

end

/-! ## What the loops do -/

variable {cfg : Config} {clear : Bool} {nowMs : ℕ} {demands demands' : List (Demand Id)}
  (s : Admission Id) (d : Demand Id)

/-- The audio that is reserved. -/
def Demand.IsAudio (d : Demand Id) : Prop := d.eligible ∧ d.audio
  deriving Decidable

def required (d : Demand Id) : ℕ := d.requiredBps.toNat

theorem enter_slots : (s.enter clear d).slots =
    update s.slots d.id (some (admitSlot clear d (slotAt s.slots d.id))) := by
  rw [Admission.enter]
  split_ifs <;> rfl

theorem enter_remaining :
    (s.enter clear d).remaining = s.remaining - if d.IsAudio then required d else 0 := by
  simp only [Admission.enter, Demand.IsAudio, required]
  by_cases he : d.eligible
  · by_cases ha : d.audio
    · simp only [he, ha, not_true_eq_false, if_false, if_true, and_self]
      omega
    · simp [he, ha]
  · simp [he]

theorem enter_videos : (s.enter clear d).videos = s.videos ++ if d.IsVideo then [d] else [] := by
  simp only [Admission.enter, Demand.IsVideo]
  by_cases he : d.eligible
  · by_cases ha : d.audio <;> simp [he, ha]
  · simp [he]

theorem foldl_enter_remaining :
    (demands.foldl (Admission.enter clear) s).remaining =
      s.remaining - totalCost required (demands.filter (·.IsAudio)) := by
  induction demands generalizing s with
  | nil => rfl
  | cons d demands ih =>
    rw [foldl_cons, ih, enter_remaining, filter_cons]
    by_cases ha : d.IsAudio
    · simp only [ha, decide_true, if_true, totalCost_cons]
      omega
    · simp [ha]

theorem foldl_enter_videos :
    (demands.foldl (Admission.enter clear) s).videos = s.videos ++ demands.filter (·.IsVideo) := by
  induction demands generalizing s with
  | nil => simp
  | cons d demands ih =>
    rw [foldl_cons, ih, enter_videos, filter_cons]
    by_cases hv : d.IsVideo <;> simp [hv]

/-- The first loop, on one slot. -/
theorem foldl_enter_slots (hids : (demands.map Demand.id).Nodup) (s : Admission Id) :
    (∀ d ∈ demands, (demands.foldl (Admission.enter clear) s).slots d.id =
      some (admitSlot clear d (slotAt s.slots d.id))) ∧
    ∀ id ∉ demands.map Demand.id,
      (demands.foldl (Admission.enter clear) s).slots id = s.slots id := by
  induction demands generalizing s with
  | nil => simp
  | cons d demands ih =>
    rw [map_cons, nodup_cons] at hids
    obtain ⟨hmem, hother⟩ := ih hids.2 (s.enter clear d)
    have hne : ∀ e ∈ demands, e.id ≠ d.id := fun e he heq =>
      hids.1 (heq ▸ mem_map_of_mem he)
    rw [enter_slots] at hmem hother
    rw [foldl_cons]
    refine ⟨forall_mem_cons.2 ⟨?_, fun e he => ?_⟩, fun id hid => ?_⟩
    · rw [hother _ hids.1, update_self]
    · rw [hmem e he, slotAt, update_of_ne (hne e he), slotAt]
    · rw [map_cons, mem_cons, not_or] at hid
      rw [hother id hid.2, update_of_ne hid.1]

variable {slots : Slots Id} {videos : List (Demand Id)} {room : ℕ}

/-- The rate that is taken for a video, by its slot. -/
def slotCost (cfg : Config) (slots : Slots Id) (d : Demand Id) : ℕ :=
  costOf cfg (slotAt slots d.id).allowed d

theorem visit_eq : visit cfg nowMs (slots, room) d =
    (update slots d.id (some (visitSlot cfg nowMs
        (decide (slotCost cfg slots d ≠ 0 ∧ slotCost cfg slots d ≤ room)) (slotAt slots d.id))),
      if slotCost cfg slots d ≠ 0 ∧ slotCost cfg slots d ≤ room then room - slotCost cfg slots d
      else room) := by
  simp only [visit, decide_eq_true_eq]
  rfl

/-- The last loop, on one slot: the videos that fit are wanted. -/
theorem foldl_visit_slots (hids : (videos.map Demand.id).Nodup) :
    (∀ d ∈ videos, (videos.foldl (visit cfg nowMs) (slots, room)).1 d.id =
      some (visitSlot cfg nowMs (decide (d ∈ takeFitting (slotCost cfg slots) room videos))
        (slotAt slots d.id))) ∧
    ∀ id ∉ videos.map Demand.id,
      (videos.foldl (visit cfg nowMs) (slots, room)).1 id = slots id := by
  induction videos generalizing slots room with
  | nil => simp
  | cons d videos ih =>
    rw [map_cons, nodup_cons] at hids
    have hne : ∀ e ∈ videos, e.id ≠ d.id := fun e he heq => hids.1 (heq ▸ mem_map_of_mem he)
    have hd : ∀ room, d ∉ takeFitting (slotCost cfg slots) room videos := fun _ hmem =>
      hne d (mem_of_mem_takeFitting hmem) rfl
    -- The slot of `d` does not matter for the others.
    have hcost : ∀ slot, ∀ e ∈ videos,
        slotCost cfg (update slots d.id slot) e = slotCost cfg slots e := by
      intro slot e he
      rw [slotCost, slotCost, slotAt, update_of_ne (hne e he), slotAt]
    rw [foldl_cons, visit_eq, takeFitting_cons]
    refine ⟨forall_mem_cons.2 ⟨?_, fun e he => ?_⟩, fun id hid => ?_⟩
    · rw [(ih hids.2).2 _ hids.1, update_self]
      refine congrArg (fun w => some (visitSlot cfg nowMs w _)) (decide_eq_decide.2 ?_)
      rw [mem_append, or_iff_left (hd _)]
      split_ifs with hfits <;> simp [hfits]
    · rw [(ih hids.2).1 e he, takeFitting_congr (hcost _), slotAt, update_of_ne (hne e he), slotAt]
      refine congrArg (fun w => some (visitSlot cfg nowMs w _)) (decide_eq_decide.2 ?_)
      rw [mem_append, or_iff_right]
      intro hmem
      split_ifs at hmem
      · exact hne e he (congrArg Demand.id (mem_singleton.1 hmem))
      · cases hmem
    · rw [map_cons, mem_cons, not_or] at hid
      rw [(ih hids.2).2 id hid.2, update_of_ne hid.1]

/-! ## The order -/

/-- What the videos are sorted by: the priority, the highest first, then whether they are
    allowed, then their id. -/
def rank (slots : Slots Id) (d : Demand Id) : ℕᵒᵈ ×ₗ Boolᵒᵈ ×ₗ Id :=
  toLex (OrderDual.toDual d.priority.toNat,
    toLex (OrderDual.toDual (slotAt slots d.id).allowed, d.id))

theorem before_iff {a b : Demand Id} : before slots a b = true ↔ rank slots a < rank slots b := by
  simp only [rank, Prod.Lex.toLex_lt_toLex, before, OrderDual.toDual_lt_toDual,
    OrderDual.toDual_inj]
  by_cases hpriority : a.priority = b.priority
  · by_cases hallowed : (slotAt slots a.id).allowed = (slotAt slots b.id).allowed
    · simp [hpriority, hallowed]
    · simp only [hpriority, hallowed, ne_eq, not_true_eq_false, not_false_eq_true, if_false,
        if_true, lt_irrefl, false_or, true_and, false_and, or_false, Bool.lt_iff]
      revert hallowed
      cases (slotAt slots a.id).allowed <;> cases (slotAt slots b.id).allowed <;> simp
  · have hne : a.priority.toNat ≠ b.priority.toNat := mt BitVec.eq_of_toNat_eq hpriority
    simp [hpriority, hne, BitVec.lt_def]

theorem sortVideos_sorted (slots : Slots Id) (videos : List (Demand Id)) :
    (sortVideos slots videos).Pairwise fun a b => rank slots a ≤ rank slots b := by
  have hle : (fun a b : Demand Id => ¬before slots b a = true) =
      fun a b => rank slots a ≤ rank slots b := by
    funext a b
    rw [before_iff, not_lt]
  have htotal : Std.Total fun a b : Demand Id => ¬before slots b a = true := by
    rw [hle]
    exact ⟨fun a b => le_total _ _⟩
  have htrans : IsTrans (Demand Id) fun a b => ¬before slots b a = true := by
    rw [hle]
    exact ⟨fun a b c => le_trans⟩
  have hsorted := pairwise_insertionSort (fun a b : Demand Id => ¬before slots b a = true) videos
  exact hsorted.imp fun h => not_lt.1 (mt before_iff.2 h)

theorem sortVideos_perm (slots : Slots Id) (videos : List (Demand Id)) :
    (sortVideos slots videos).Perm videos := perm_insertionSort _ _

/-- The sorted list depends on the videos only, not on the order they are listed in. -/
theorem sortVideos_unique {sorted : List (Demand Id)} (hids : (videos.map Demand.id).Nodup)
    (hperm : sorted.Perm videos)
    (hsorted : sorted.Pairwise fun a b => rank slots a ≤ rank slots b) :
    sortVideos slots videos = sorted := by
  refine List.Perm.eq_of_pairwise (fun a b ha hb hab hba => ?_) (sortVideos_sorted slots videos)
    hsorted ((sortVideos_perm slots videos).trans hperm.symm)
  have hid : a.id = b.id := by
    have hrank := le_antisymm hab hba
    exact (Prod.ext_iff.1 (Prod.ext_iff.1 hrank).2).2
  exact inj_on_of_nodup_map hids ((sortVideos_perm slots videos).subset ha)
    (hperm.subset hb) hid

/-! ## A call -/

namespace Allocator

variable {a : Allocator Id} {budget : Budget} {d : Demand Id}

theorem admission_remaining : (a.admission cfg budget demands nowMs).remaining =
    budget.usable cfg - totalCost required (demands.filter (·.IsAudio)) :=
  foldl_enter_remaining _

theorem admission_videos :
    (a.admission cfg budget demands nowMs).videos = demands.filter (·.IsVideo) := by
  rw [admission, foldl_enter_videos, nil_append]

section

variable (hids : (demands.map Demand.id).Nodup)
include hids

/-- After the first loop the slot of a demand depends on the demand and on its slot. -/
theorem admitted_of_mem (hd : d ∈ demands) :
    a.admitted cfg budget demands nowMs d.id =
      some (admitSlot (a.clears cfg budget nowMs) d (slotAt a.slots d.id)) := by
  rw [admitted, if_pos (mem_map_of_mem hd)]
  exact (foldl_enter_slots hids _).1 d hd

omit hids in
theorem admitted_of_notMem {id : Id} (hid : id ∉ demands.map Demand.id) :
    a.admitted cfg budget demands nowMs id = none := if_neg hid

theorem admitted_perm (hperm : demands.Perm demands') :
    a.admitted cfg budget demands' nowMs = a.admitted cfg budget demands nowMs := by
  have hids' : (demands'.map Demand.id).Nodup := (hperm.map _).nodup_iff.1 hids
  funext id
  by_cases hid : id ∈ demands.map Demand.id
  · obtain ⟨d, hd, rfl⟩ := mem_map.1 hid
    rw [admitted_of_mem hids hd, admitted_of_mem hids' (hperm.subset hd)]
  · rw [admitted_of_notMem hid, admitted_of_notMem fun h => hid ((hperm.map _).symm.subset h)]

omit [LinearOrder Id] in
theorem nodup_videos : ((demands.filter (·.IsVideo)).map Demand.id).Nodup :=
  hids.sublist (filter_sublist.map _)

theorem decided_perm (hperm : demands.Perm demands') :
    a.decided cfg budget demands' nowMs = a.decided cfg budget demands nowMs := by
  have hvideos := hperm.filter fun d => decide d.IsVideo
  have hsorted : a.sorted cfg budget demands' nowMs = a.sorted cfg budget demands nowMs := by
    rw [sorted, sorted, admitted_perm hids hperm, admission_videos, admission_videos]
    exact (sortVideos_unique (nodup_videos hids) ((sortVideos_perm _ _).trans hvideos.symm)
      (sortVideos_sorted _ _)).symm
  rw [decided, decided, hsorted, admitted_perm hids hperm, admission_remaining, admission_remaining,
    totalCost_perm (hperm.symm.filter fun d => decide d.IsAudio)]

end

/-- The order in which the demands are listed does not matter: the next state is the same, and
    the demands in another order have the same results in that order. -/
theorem allocate_perm (cfg : Config) (a : Allocator Id) (budget : Budget) (nowMs : ℕ)
    (hids : (demands.map Demand.id).Nodup) (hperm : demands.Perm demands') :
    (a.allocate cfg budget demands' nowMs).2 = (a.allocate cfg budget demands nowMs).2 ∧
      (demands'.zip (a.allocate cfg budget demands' nowMs).1).Perm
        (demands.zip (a.allocate cfg budget demands nowMs).1) := by
  simp only [allocate, decided_perm hids hperm, ← map_prod_left_eq_zip, true_and]
  exact hperm.symm.map _

/-- A microphone, a screen and a camera. -/
def meeting : List (Demand ℕ) :=
  [{ id := 3, audio := true, requiredBps := 50000 },
    { id := 1, priority := 200, requiredBps := 600000 },
    { id := 2, requiredBps := 400000 }]

theorem allocate_perm_meeting :
    (({} : Allocator ℕ).allocate {} { estimateValid := true, targetBps := 1000000 }
      meeting.reverse 0).2 =
    (({} : Allocator ℕ).allocate {} { estimateValid := true, targetBps := 1000000 } meeting 0).2 :=
  (allocate_perm {} {} { estimateValid := true, targetBps := 1000000 } 0 (by decide)
    (reverse_perm meeting).symm).1

end Allocator

end Packetia.Downlink
