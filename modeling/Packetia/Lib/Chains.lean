import Mathlib

/-!
# Intrusive lists

Nodes that carry one `next` field each can be on one list at a time.
`IsChain next head l` says that following `next` from the pointer `head` visits the nodes
`l` and ends.

`Chains next head lists owner` is a family of such lists over the same `next`: list `i`
starts at `head i` and has the nodes `lists i`, each once, which are the nodes that `i`
owns. As a node has at most one owner, no node is on two lists, and writing the `next` of a
node leaves all lists but its owner's as they are. So taking a node off a list
(`Chains.pop`), putting one that no list owns on a list (`Chains.push`) and giving up a list
(`Chains.drop`) change the family at the places one expects and nowhere else.
-/

namespace Packetia

open Function

variable {α ι : Type*}

/-- Following `next` from `head` visits the nodes `l`, in this order, and ends. -/
def IsChain (next : α → Option α) : Option α → List α → Prop
  | head, [] => head = none
  | head, a :: l => head = some a ∧ IsChain next (next a) l

section IsChain

variable {next next' : α → Option α} {head : Option α} {a : α} {l l' : List α}

/-- A chain depends on the `next` of its own nodes only. -/
theorem IsChain.congr (h : IsChain next head l) (hnext : ∀ a ∈ l, next' a = next a) :
    IsChain next' head l := by
  induction l generalizing head with
  | nil => exact h
  | cons a l ih =>
    refine ⟨h.1, ?_⟩
    rw [hnext a List.mem_cons_self]
    exact ih h.2 fun b hb => hnext b (List.mem_cons_of_mem _ hb)

theorem IsChain.nil_of_none (h : IsChain next none l) : l = [] := by
  cases l with
  | nil => rfl
  | cons b l => exact absurd h.1 (by simp)

theorem IsChain.cons_of_some (h : IsChain next (some a) l) :
    ∃ t, l = a :: t ∧ IsChain next (next a) t := by
  cases l with
  | nil => exact absurd h (by simp [IsChain])
  | cons b t =>
    obtain rfl : a = b := Option.some.inj h.1
    exact ⟨t, rfl, h.2⟩

theorem IsChain.unique (h : IsChain next head l) (h' : IsChain next head l') : l = l' := by
  induction l generalizing head l' with
  | nil =>
    rw [IsChain] at h
    rw [h] at h'
    exact h'.nil_of_none.symm
  | cons a l ih =>
    rw [h.1] at h'
    obtain ⟨t, rfl, ht⟩ := h'.cons_of_some
    rw [ih h.2 ht]

end IsChain

/-- The lists `lists i`, of the nodes that `i` owns, start at `head i`. -/
structure Chains (next : α → Option α) (head : ι → Option α) (lists : ι → List α)
    (owner : α → Option ι) : Prop where
  chain : ∀ i, IsChain next (head i) (lists i)
  nodup : ∀ i, (lists i).Nodup
  mem_iff : ∀ i a, a ∈ lists i ↔ owner a = some i

namespace Chains

variable {next : α → Option α} {head : ι → Option α} {lists : ι → List α}
  {owner : α → Option ι} {i j : ι} {a : α}

section

variable (h : Chains next head lists owner)
include h

theorem nil_of_head (hi : head i = none) : lists i = [] := by
  have hc := h.chain i
  rw [hi] at hc
  exact hc.nil_of_none

theorem cons_of_head (hi : head i = some a) : ∃ t, lists i = a :: t ∧ IsChain next (next a) t := by
  have hc := h.chain i
  rw [hi] at hc
  exact hc.cons_of_some

theorem owner_of_head (hi : head i = some a) : owner a = some i := by
  obtain ⟨t, ht, -⟩ := h.cons_of_head hi
  rw [← h.mem_iff, ht]
  exact List.mem_cons_self

end

variable [DecidableEq α] [DecidableEq ι]

section

variable (h : Chains next head lists owner)
include h

/-- `a = head; head = head->next`. -/
theorem pop (hi : head i = some a) :
    Chains next (update head i (next a)) (update lists i (lists i).tail) (update owner a none) := by
  obtain ⟨t, ht, hchain⟩ := h.cons_of_head hi
  have hnodup := h.nodup i
  rw [ht, List.nodup_cons] at hnodup
  refine ⟨fun j => ?_, fun j => ?_, fun j b => ?_⟩ <;> by_cases hj : j = i
  · subst hj
    simpa [ht] using hchain
  · simpa [hj] using h.chain j
  · subst hj
    simpa [ht] using hnodup.2
  · simpa [hj] using h.nodup j
  · subst hj
    by_cases hb : b = a
    · subst hb
      simpa [ht] using hnodup.1
    · have := h.mem_iff j b
      rw [ht] at this
      simpa [ht, hb] using this
  · by_cases hb : b = a
    · subst hb
      have := h.owner_of_head hi
      simp [hj, h.mem_iff, this, Ne.symm hj]
    · simpa [hj, hb] using h.mem_iff j b

omit [DecidableEq ι] in
/-- Writing the `next` of a node that is on no list. -/
theorem setNext (ha : owner a = none) (p : Option α) :
    Chains (update next a p) head lists owner where
  chain j := (h.chain j).congr fun b hb => by
    have hba : b ≠ a := by
      rintro rfl
      rw [h.mem_iff, ha] at hb
      exact absurd hb (by simp)
    rw [update_of_ne hba]
  nodup := h.nodup
  mem_iff := h.mem_iff

/-- `a->next = head; head = a`, for a node that is on no list. -/
theorem push (ha : owner a = none) (j : ι) :
    Chains (update next a (head j)) (update head j (some a))
      (update lists j (a :: lists j)) (update owner a (some j)) := by
  have hset := h.setNext ha (head j)
  have hmem : ∀ k, a ∉ lists k := fun k hk => by
    rw [h.mem_iff, ha] at hk
    exact absurd hk (by simp)
  refine ⟨fun k => ?_, fun k => ?_, fun k b => ?_⟩ <;> by_cases hk : k = j
  · subst hk
    simpa [IsChain] using hset.chain k
  · simpa [hk] using hset.chain k
  · subst hk
    simpa using ⟨hmem k, h.nodup k⟩
  · simpa [hk] using h.nodup k
  · subst hk
    by_cases hb : b = a
    · simp [hb]
    · simpa [hb] using h.mem_iff k b
  · by_cases hb : b = a
    · subst hb
      simp [hk, Ne.symm hk, hmem]
    · simpa [hk, hb] using h.mem_iff k b

omit [DecidableEq α] in
/-- A list that is given up: its nodes are on no list. -/
theorem drop (i : ι) :
    Chains next (update head i none) (update lists i [])
      (fun a => if owner a = some i then none else owner a) := by
  refine ⟨fun k => ?_, fun k => ?_, fun k b => ?_⟩ <;> by_cases hk : k = i
  · subst hk
    simp [IsChain]
  · simpa [hk] using h.chain k
  · subst hk
    simp
  · simpa [hk] using h.nodup k
  · subst hk
    by_cases hb : owner b = some k <;> simp [hb]
  · by_cases hb : owner b = some i
    · simp [hk, h.mem_iff, hb, Ne.symm hk]
    · simpa [hk, hb] using h.mem_iff k b

end

end Chains

end Packetia
