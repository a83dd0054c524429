import Packetia.Lib.Missing
import Packetia.Reorder.Invariant

/-!
# In-order delivery

A stream of packets numbered from `start` on arrives in some order, while the
owner of the queue may tick at any time. As long as every packet arrives less
than `maxGap` ahead of the lowest one missing, no more than `maxCache` packets
wait for it, and none of them waits for the timeout (`Bounded`), the queue
repairs the order: it hands over exactly the packets of the stream, each once,
in the order of their numbers, whatever the arrival order and however often the
numbers wrap (`after_delivers`).

The queue is, at any time, determined by what has arrived (`Holds`): it has
handed over the packets below the lowest one missing and holds the others.
-/

namespace Packetia.Reorder.Queue

open List
open BitVec (ofInt ofInt_add ofInt_natCast ofNat ofNat_toNat setWidth_eq)

variable {α : Type*} {cfg : Config} {start : BitVec 16} {packet : ℕ → α} {a : ℕ × ℤ}

/-- What happens to the queue: the packet `i` of the stream arrives, or the
    owner ticks. -/
inductive Event
  | arrive (i : ℕ) (now : ℤ)
  | tick (now : ℤ)

def Event.time : Event → ℤ
  | .arrive _ now => now
  | .tick now => now

/-- The call of an event, for the stream of the packets `packet i`. -/
def Event.call (start : BitVec 16) (packet : ℕ → α) : Event → Call α
  | .arrive i now => .inputPacket (start + ofNat 16 i) (packet i) now
  | .tick now => .flushExpired now

def Event.arrival : Event → List (ℕ × ℤ)
  | .arrive i now => [(i, now)]
  | .tick _ => []

/-- The packets that have arrived, with their times, in the order of arrival. -/
def arrivals (es : List Event) : List (ℕ × ℤ) := es.flatMap Event.arrival

/-- The lowest packet that has not arrived. -/
def missing (as : List (ℕ × ℤ)) : ℕ := firstMissing (as.map Prod.fst)

theorem ne_missing_of_mem {as : List (ℕ × ℤ)} (ha : a ∈ as) : a.1 ≠ missing as := by
  intro h
  have hmem : a.1 ∈ as.map Prod.fst := mem_map_of_mem ha
  rw [h] at hmem
  exact firstMissing_notMem _ hmem

/-- The packets `0, …, n - 1` all arrive, once, the first one first; each less
    than the gap ahead of the lowest one missing, with no more than the capacity
    of the queue waiting for that one, and none waiting for the timeout. -/
structure Bounded (cfg : Config) (n : ℕ) (es : List Event) : Prop where
  once : ((arrivals es).map Prod.fst).Perm (List.range n)
  first : ∀ a ∈ (arrivals es).head?, a.1 = 0
  times : (es.map Event.time).Pairwise (· ≤ ·)
  gap : ∀ k (hk : k < (arrivals es).length),
    (arrivals es)[k].1 < missing ((arrivals es).take k) + cfg.maxGap
  cache : ∀ k ≤ (arrivals es).length,
    (((arrivals es).take k).filter fun a => missing ((arrivals es).take k) < a.1).length ≤
      cfg.maxCache
  wait : (arrivals es).Pairwise fun a b => b.1 < a.1 → b.2 - a.2 < ms cfg.timeoutMs

/-- After the arrivals `as`, the queue has handed over the packets below `m`
    and holds the others. -/
structure Holds (start : BitVec 16) (packet : ℕ → α) (as : List (ℕ × ℤ)) (m : ℕ) (q : Queue α) :
    Prop where
  live : q.started = true
  next_eq : q.next = start.toNat + m
  below : ∀ i < m, i ∈ as.map Prod.fst
  buffer : q.buffer.entries.Perm
    ((as.filter fun a => m ≤ a.1).map fun a => (start.toNat + (a.1 : ℤ), ⟨packet a.1, a.2⟩))
  sorted : q.sorted = (List.range m).map fun i : ℕ => (start.toNat + (i : ℤ), packet i)
  clean : q.stats.lost = 0 ∧ q.stats.duplicates = 0 ∧ q.stats.late = 0 ∧ q.stats.outOfWindow = 0

section Holds

variable {as : List (ℕ × ℤ)} {m : ℕ} {now : ℤ} {q : Queue α} {i : ℕ}

section

variable (hq : Holds start packet as m q)
include hq

theorem Holds.mem_buffer {e : ℤ × Buffered α} :
    e ∈ q.buffer.entries ↔
      ∃ a ∈ as, m ≤ a.1 ∧ e = (start.toNat + (a.1 : ℤ), ⟨packet a.1, a.2⟩) := by
  rw [hq.buffer.mem_iff]
  simp [and_assoc, eq_comm]

theorem Holds.next_le : ∀ e ∈ q.buffer.entries, q.next ≤ e.1 := by
  intro e he
  obtain ⟨a, -, hle, rfl⟩ := hq.mem_buffer.1 he
  rw [hq.next_eq]
  omega

/-- The queue is ready exactly when the packet it waits for has arrived. -/
theorem Holds.ready_iff_mem : q.Ready ↔ m ∈ as.map Prod.fst := by
  constructor
  · intro hr
    obtain ⟨b, hb⟩ := ready_iff.1 hr
    obtain ⟨a, ha, -, heq⟩ := hq.mem_buffer.1 (OrdMap.mem_of_head? hb)
    have hm : a.1 = m := by
      have := (Prod.mk.inj heq).1
      rw [hq.next_eq] at this
      omega
    exact hm ▸ mem_map_of_mem ha
  · intro hm
    obtain ⟨a, ha, rfl⟩ := mem_map.1 hm
    exact ready_of_mem hq.next_le (hq.mem_buffer.2 ⟨a, ha, le_rfl, rfl⟩) hq.next_eq

theorem Holds.missing_eq (hm : m ∉ as.map Prod.fst) : missing as = m := firstMissing_eq hm hq.below

section

variable (hnd : (as.map Prod.fst).Nodup)
include hnd

omit hq in
/-- Among arrivals that are all different, the others than `m` from `m` on. -/
theorem filter_le_perm {t : ℤ} (ht : (m, t) ∈ as) :
    (as.filter fun a => m ≤ a.1).Perm ((m, t) :: as.filter fun a => m + 1 ≤ a.1) := by
  have hnd' : as.Nodup := hnd.of_map
  refine (perm_ext_iff_of_nodup (hnd'.filter _)
    (nodup_cons.2 ⟨by simp, hnd'.filter _⟩)).2 fun a => ?_
  simp only [mem_filter, mem_cons, decide_eq_true_eq]
  constructor
  · rintro ⟨ha, hle⟩
    by_cases hm : a.1 = m
    · exact .inl (inj_on_of_nodup_map hnd ha ht hm)
    · exact .inr ⟨ha, by omega⟩
  · rintro (rfl | ⟨ha, hle⟩)
    · exact ⟨ht, le_rfl⟩
    · exact ⟨ha, by omega⟩

theorem Holds.emitFirst (hr : q.Ready) (now : ℤ) :
    Holds start packet as (m + 1) (q.emitFirst now) := by
  obtain ⟨b, hb⟩ := ready_iff.1 hr
  obtain ⟨⟨i, t⟩, ha, -, heq⟩ := hq.mem_buffer.1 (OrdMap.mem_of_head? hb)
  obtain ⟨hkey, rfl⟩ := Prod.mk.inj heq
  obtain rfl : i = m := by rw [hq.next_eq] at hkey; simp only at hkey; omega
  have hperm := hq.buffer.trans ((filter_le_perm hnd ha).map _)
  rw [OrdMap.entries_of_head? hb, map_cons, hq.next_eq] at hperm
  rw [Queue.emitFirst, hb]
  refine ⟨hq.live, ?_, fun j hj => ?_, hperm.cons_inv, ?_, hq.clean⟩
  · simp only [emit, hq.next_eq]
    push_cast
    ring
  · rcases Nat.lt_succ_iff_lt_or_eq.1 hj with hj | rfl
    · exact hq.below j hj
    · exact mem_map_of_mem ha
  · simp only [emit, hq.sorted, hq.next_eq, range_succ, map_append, map_singleton]

/-- A flush hands over the packets up to the lowest one missing. -/
theorem Holds.flushBuffered (now : ℤ) :
    Holds start packet as (missing as) (q.flushBuffered now) := by
  obtain ⟨⟨m', hq'⟩, hr⟩ := loop_spec (g := Ready)
    (P := fun q => ∃ m, Holds start packet as m q) (m := fun q => q.buffer.size)
    (fun q' hr ⟨m', hq'⟩ => by
      have := size_emitFirst hr now
      exact ⟨⟨_, hq'.emitFirst hnd hr now⟩, by omega⟩)
    ⟨m, hq⟩ (le_refl q.buffer.size)
  rw [hq'.missing_eq fun hm => hr (hq'.ready_iff_mem.2 hm)]
  exact hq'

end

theorem Holds.clearResync : Holds start packet as m q.clearResync :=
  { hq with }

end

theorem Holds.endProbation (cfg : Config) (hq : Holds start packet as m q) (now : ℤ) :
    Holds start packet as m (q.endProbation cfg now) := by
  rw [Queue.endProbation]
  split_ifs
  · exact hq.clearResync
  · exact hq

/-! ## Waiting -/

/-- When nothing has waited for the timeout, nothing is flushed. -/
theorem Holds.flushExpired (hq : Holds start packet as m q) {now : ℤ}
    (hwait : ∀ a ∈ as, m ≤ a.1 → now - a.2 < ms cfg.timeoutMs) :
    Holds start packet as m (q.flushExpired cfg now) := by
  have hq' := hq.endProbation cfg now
  have hdue : ¬(q.endProbation cfg now).Overdue cfg now := by
    rintro ⟨hw, hno⟩
    obtain ⟨⟨e, he, hold⟩, -⟩ := oldest_spec hw
    obtain ⟨a, ha, hle, rfl⟩ := hq'.mem_buffer.1 he
    exact hno (.inr (hold ▸ hwait a ha hle))
  rw [Queue.flushExpired, loop_of_not_guard hdue]
  exact hq'

/-! ## Arrivals -/

/-- The number of a packet of the stream, extended. -/
theorem ahead_packet (hm : q.next = start.toNat + m) (hle : m ≤ i)
    (hlt : i < m + 0x8000) : ahead q.next (start + ofNat 16 i) = i - m := by
  have hofInt : start + ofNat 16 i = ofInt 16 (start.toNat + (i : ℤ)) := by
    rw [ofInt_add, ofInt_natCast, ofInt_natCast, ofNat_toNat, setWidth_eq]
  have h := ahead_ofInt (w := 16) (x := q.next) (y := start.toNat + (i : ℤ)) (by omega) (by omega)
  rw [hofInt]
  omega

/-- The awaited packet arrives: it is handed over, and what waited for it. -/
theorem Holds.arrive_next (hq : Holds start packet as m q) (hm : m ∉ as.map Prod.fst)
    (hnd : ((as ++ [(m, now)]).map Prod.fst).Nodup) :
    Holds start packet (as ++ [(m, now)]) (missing (as ++ [(m, now)]))
      (Queue.flushBuffered now (emit q.next (packet m) now q.clearResync)) := by
  suffices h : Holds start packet (as ++ [(m, now)]) (m + 1)
      (emit q.next (packet m) now q.clearResync) from h.flushBuffered hnd now
  refine ⟨hq.live, ?_, fun i hi => ?_, ?_, ?_, hq.clean⟩
  · simp only [emit, Queue.clearResync, hq.next_eq]
    push_cast
    ring
  · rw [map_append, mem_append]
    rcases Nat.lt_succ_iff_lt_or_eq.1 hi with hi | rfl
    · exact .inl (hq.below i hi)
    · exact .inr (mem_singleton_self _)
  · have hfilter : ((as ++ [(m, now)]).filter fun a => m + 1 ≤ a.1) =
        as.filter fun a => m ≤ a.1 := by
      rw [filter_append, filter_singleton]
      simp only [Nat.not_succ_le_self, decide_false, cond_false, append_nil]
      refine filter_congr fun a ha => ?_
      have : a.1 ≠ m := fun h => hm (h ▸ mem_map_of_mem ha)
      simp only [decide_eq_decide]
      omega
    rw [hfilter]
    exact hq.buffer
  · simp only [emit, Queue.clearResync, hq.sorted, hq.next_eq, range_succ, map_append,
      map_singleton]

/-- A packet ahead arrives: it is buffered, as there is room for it. -/
theorem Holds.arrive_ahead (hq : Holds start packet as m q) (hi : i ∉ as.map Prod.fst)
    (hlt : m < i) (hgap : i < m + cfg.maxGap)
    (hroom : ((as ++ [(i, now)]).filter fun a => m ≤ a.1).length ≤ cfg.maxCache)
    (hwait : ∀ a ∈ as ++ [(i, now)], m ≤ a.1 → now - a.2 < ms cfg.timeoutMs) :
    Holds start packet (as ++ [(i, now)]) m
      (q.inputAhead cfg (start + ofNat 16 i) (packet i) now) := by
  have hahead := ahead_packet hq.next_eq hlt.le (hgap.trans_le (by have := cfg.window.2.1; omega))
  have hext : q.next + ((ahead q.next (start + ofNat 16 i) : ℕ) : ℤ) = start.toNat + (i : ℤ) := by
    rw [hahead, hq.next_eq]
    omega
  have hkey : start.toNat + (i : ℤ) ∉ q.buffer.keys := by
    intro hmem
    obtain ⟨b, hb⟩ := OrdMap.mem_keys.1 hmem
    obtain ⟨a, ha, -, heq⟩ := hq.mem_buffer.1 hb
    have := (Prod.mk.inj heq).1
    exact hi ((by omega : a.1 = i) ▸ mem_map_of_mem ha)
  rw [Queue.inputAhead, hext]
  simp only [hkey, if_false]
  set q' : Queue α := { q with
    buffer := q.buffer.emplace (start.toNat + (i : ℤ)) ⟨packet i, now⟩ } with hdef
  have hq' : Holds start packet (as ++ [(i, now)]) m q' := by
    refine ⟨hq.live, hq.next_eq, fun j hj => ?_, ?_, hq.sorted, hq.clean⟩
    · rw [map_append]
      exact mem_append_left _ (hq.below j hj)
    · rw [filter_append, map_append, filter_singleton]
      simp only [hlt.le, decide_true, cond_true, map_singleton]
      exact (OrdMap.emplace_perm _ hkey).trans
        ((hq.buffer.cons _).trans (perm_append_singleton _ _).symm)
  have hsize : ¬q'.buffer.size > cfg.maxCache := by
    rw [OrdMap.size, hq'.buffer.length_eq, length_map]
    omega
  rw [makeRoom, if_neg hsize]
  exact hq'.flushExpired hwait

/-- A packet arrives, after the first one: it is handed over or buffered. -/
theorem Holds.arrive (hq : Holds start packet as (missing as) q)
    (hnd : ((as ++ [(i, now)]).map Prod.fst).Nodup) (hgap : i < missing as + cfg.maxGap)
    (hroom : ((as ++ [(i, now)]).filter fun a => missing (as ++ [(i, now)]) < a.1).length ≤
      cfg.maxCache) (hwait : ∀ a ∈ as, missing as ≤ a.1 → now - a.2 < ms cfg.timeoutMs)
    (hwait' : ∀ a ∈ as ++ [(i, now)], missing (as ++ [(i, now)]) ≤ a.1 →
      now - a.2 < ms cfg.timeoutMs) :
    Holds start packet (as ++ [(i, now)]) (missing (as ++ [(i, now)]))
      (q.inputPacket cfg (start + ofNat 16 i) (packet i) now) := by
  have hq' := hq.flushExpired hwait
  have hi : i ∉ as.map Prod.fst := by
    rw [map_append, nodup_append] at hnd
    exact fun h => hnd.2.2 i h i (mem_singleton_self _) rfl
  have hle : missing as ≤ i := by
    by_contra hlt
    exact hi (mem_of_lt_firstMissing (not_le.1 hlt))
  have hwin := cfg.window.2.1
  have hahead := ahead_packet hq'.next_eq hle (by omega)
  rw [Queue.inputPacket, if_pos hq.live, Queue.inputNext, hahead, if_neg (by omega),
    if_neg (by omega), if_neg (by omega)]
  by_cases heq : i = missing as
  · -- The awaited packet.
    subst heq
    rw [if_pos (Nat.sub_self _)]
    exact hq'.arrive_next hi hnd
  · -- A packet ahead, with the lowest one still missing.
    have hsame : missing (as ++ [(i, now)]) = missing as := by
      rw [missing, map_append]
      exact firstMissing_concat_of_ne heq
    rw [hsame] at hroom hwait' ⊢
    rw [if_neg (by omega)]
    refine hq'.clearResync.arrive_ahead hi (by omega) hgap (le_trans (le_of_eq ?_) hroom) hwait'
    congr 1
    refine filter_congr fun a ha => ?_
    have hmiss : a.1 ≠ missing as := by
      rcases mem_append.1 ha with ha | ha
      · exact ne_missing_of_mem ha
      · rw [mem_singleton.1 ha]
        exact heq
    simp only [decide_eq_decide]
    omega

end Holds

/-! ## Runs -/

section Bounded

variable {n : ℕ} {es pre post : List Event}

@[simp] theorem arrivals_append (es es' : List Event) :
    arrivals (es ++ es') = arrivals es ++ arrivals es' := flatMap_append

theorem arrivals_cons (e : Event) (es : List Event) :
    arrivals (e :: es) = e.arrival ++ arrivals es := flatMap_cons

theorem Bounded.nodup (hb : Bounded cfg n es) : ((arrivals es).map Prod.fst).Nodup :=
  hb.once.nodup_iff.2 nodup_range

/-- An arrival has the time of its event. -/
theorem time_of_mem_arrivals (ha : a ∈ arrivals es) : ∃ e ∈ es, e.time = a.2 := by
  obtain ⟨e, he, hmem⟩ := mem_flatMap.1 ha
  cases e with
  | arrive i now => exact ⟨_, he, by rw [mem_singleton.1 hmem]; rfl⟩
  | tick now => exact absurd hmem not_mem_nil

/-- No packet waits for the timeout before the lowest missing one arrives. -/
theorem Bounded.waited (hb : Bounded cfg n es) (hes : es = pre ++ post) {now : ℤ}
    (hnow : ∀ e ∈ post, now ≤ e.time) :
    ∀ a ∈ arrivals pre, missing (arrivals pre) ≤ a.1 → now - a.2 < ms cfg.timeoutMs := by
  intro a ha hle
  have hlt : missing (arrivals pre) < a.1 := lt_of_le_of_ne hle (ne_missing_of_mem ha).symm
  have hwait := hb.wait
  have hsplit : arrivals es = arrivals pre ++ arrivals post := by rw [hes, arrivals_append]
  -- The missing packet is one of the stream, so it is among the later arrivals.
  have hn : a.1 < n := mem_range.1 (hb.once.mem_iff.1
    (hsplit ▸ mem_map_of_mem (mem_append_left _ ha)))
  have hmem : missing (arrivals pre) ∈ (arrivals es).map Prod.fst :=
    hb.once.mem_iff.2 (mem_range.2 (hlt.trans hn))
  rw [hsplit, map_append, mem_append] at hmem
  obtain ⟨b, hbmem, hbeq⟩ := mem_map.1 (hmem.resolve_left (firstMissing_notMem _))
  obtain ⟨e, he, htime⟩ := time_of_mem_arrivals hbmem
  rw [hsplit, pairwise_append] at hwait
  have := hwait.2.2 a ha b hbmem (hbeq ▸ hlt)
  have := hnow e he
  omega

theorem Bounded.time_le (hb : Bounded cfg n es) {e : Event} (hes : es = pre ++ e :: post) :
    (∀ e' ∈ e :: post, e.time ≤ e'.time) ∧ ∀ e' ∈ post, e.time ≤ e'.time := by
  have h := hb.times
  rw [hes, map_append, pairwise_append, map_cons, pairwise_cons] at h
  have hpost : ∀ e' ∈ post, e.time ≤ e'.time := fun e' he' =>
    h.2.1.1 _ (mem_map_of_mem he')
  refine ⟨fun e' he' => ?_, hpost⟩
  rcases mem_cons.1 he' with rfl | he'
  · exact le_rfl
  · exact hpost e' he'

/-- The state of the queue along the arrivals: new before the first one. -/
def Follows (cfg : Config) (start : BitVec 16) (packet : ℕ → α) (es : List Event) : Prop :=
  (arrivals es = [] ∧ after cfg (es.map (Event.call start packet)) = {}) ∨
    Holds start packet (arrivals es) (missing (arrivals es))
      (after cfg (es.map (Event.call start packet)))

theorem after_concat (e : Event) : after cfg ((pre ++ [e]).map (Event.call start packet)) =
    call cfg (after cfg (pre.map (Event.call start packet))) (e.call start packet) := by
  rw [map_append, map_singleton, after, run_concat, after]

theorem holds_first (now : ℤ) : Holds start packet [(0, now)] (missing [(0, now)])
    (inputPacket cfg (start + ofNat 16 0) (packet 0) now {}) := by
  have hzero : start + ofNat 16 0 = start := BitVec.add_zero _
  have hone : missing [(0, now)] = 1 := by
    refine firstMissing_eq (by simp) fun i hi => ?_
    rw [Nat.lt_one_iff.1 hi]
    exact mem_singleton_self _
  rw [hzero, hone]
  refine ⟨rfl, rfl, fun i hi => ?_, ?_, ?_, rfl, rfl, rfl, rfl⟩
  · rw [Nat.lt_one_iff.1 hi]
    exact mem_singleton_self _
  · simp [inputPacket, emit]
  · simp [inputPacket, emit]

theorem Bounded.follows (hb : Bounded cfg n es) (start : BitVec 16) (packet : ℕ → α) :
    ∀ pre post, es = pre ++ post → Follows cfg start packet pre := by
  intro pre
  induction pre using reverseRecOn with
  | nil => exact fun _ _ => .inl ⟨rfl, rfl⟩
  | append_singleton pre e ih =>
    intro post hes
    rw [append_assoc, singleton_append] at hes
    obtain ⟨htime, htime'⟩ := hb.time_le hes
    have hwait := hb.waited hes htime
    rw [Follows, after_concat, arrivals_append]
    cases e with
    | tick now =>
      have harr : arrivals [Event.tick now] = [] := rfl
      rw [harr, append_nil]
      rcases ih _ hes with ⟨hnil, hq⟩ | hq
      · exact .inl ⟨hnil, by rw [hq]; exact call_new rfl⟩
      · exact .inr (hq.flushExpired hwait)
    | arrive i now =>
      have harr : arrivals [Event.arrive i now] = [(i, now)] := rfl
      have hsplit : arrivals es = (arrivals pre ++ [(i, now)]) ++ arrivals post := by
        rw [hes, arrivals_append, arrivals_cons, append_assoc]
        rfl
      rw [harr]
      rcases ih _ hes with ⟨hnil, hq⟩ | hq
      · have hfirst : i = 0 := hb.first (i, now) (by rw [hsplit, hnil]; rfl)
        rw [hnil, hq, hfirst]
        exact .inr (holds_first now)
      · have hnd := hb.nodup
        have hlen : (arrivals pre).length < (arrivals es).length := by
          rw [hsplit, length_append, length_append, length_singleton]
          omega
        have hgap := hb.gap _ hlen
        have hcache := hb.cache (arrivals pre ++ [(i, now)]).length
          (by rw [hsplit]; simp)
        rw [hsplit, map_append] at hnd
        simp only [hsplit, take_left, append_assoc, getElem_append_right,
          le_refl, Nat.sub_self, cons_append, getElem_cons_zero] at hgap
        rw [hsplit, take_left] at hcache
        have hes' : es = (pre ++ [Event.arrive i now]) ++ post := by
          rw [hes, append_assoc, singleton_append]
        have hwait' := hb.waited hes' htime'
        rw [arrivals_append, harr] at hwait'
        exact .inr (hq.arrive hnd.of_append_left hgap hcache hwait hwait')

/-- The queue repairs the order of a stream: whatever the order in which its
    packets arrive, within the bounds of the queue, it hands over exactly the
    packets of the stream, in order, each once, with nothing lost or dropped. -/
theorem after_delivers (cfg : Config) (start : BitVec 16) (packet : ℕ → α) (n : ℕ)
    (es : List Event) (hb : Bounded cfg n es) :
    let q := after cfg (es.map (Event.call start packet))
    q.delivered = ((List.range n).map fun i => (start + ofNat 16 i, packet i)) ∧
      q.stats.lost = 0 ∧ q.stats.late = 0 ∧ q.stats.duplicates = 0 ∧
      q.stats.outOfWindow = 0 ∧ q.buffer.size = 0 := by
  have hmissing : missing (arrivals es) = n := firstMissing_of_perm_range hb.once
  rcases hb.follows start packet es [] (append_nil _).symm with
    ⟨hnil, hq⟩ | hq
  · have hn : n = 0 := by rw [← hmissing, hnil]; rfl
    rw [hq, hn]
    exact ⟨rfl, rfl, rfl, rfl, rfl, rfl⟩
  · rw [hmissing] at hq
    obtain ⟨hlost, hdup, hlate, hout⟩ := hq.clean
    refine ⟨?_, hlost, hlate, hdup, hout, ?_⟩
    · rw [delivered, hq.sorted, map_map]
      refine map_congr_left fun i _ => ?_
      rw [Function.comp_apply, ofInt_add, ofInt_natCast, ofInt_natCast, ofNat_toNat, setWidth_eq]
    · rw [OrdMap.size, hq.buffer.length_eq, length_map, length_eq_zero_iff, filter_eq_nil_iff]
      intro a ha
      have := mem_range.1 (hb.once.mem_iff.1 (mem_map_of_mem ha))
      simpa using this

end Bounded

/-- Five packets across the wrap, the second one last, with a tick in between. -/
theorem after_delivers_wrap :
    let es : List Event := [.arrive 0 0, .arrive 3 1, .arrive 2 1, .tick 5, .arrive 4 7,
      .arrive 1 9]
    Bounded .default 5 es ∧ (after .default (es.map (Event.call 65534 id))).delivered =
      [(65534, 0), (65535, 1), (0, 2), (1, 3), (2, 4)] := by
  intro es
  have hb : Bounded .default 5 es := ⟨by decide, by decide, by decide, by decide, by decide,
    by decide⟩
  exact ⟨hb, (after_delivers .default 65534 id 5 es hb).1⟩

end Packetia.Reorder.Queue
