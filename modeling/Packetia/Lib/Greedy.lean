import Mathlib

/-!
# Taking what fits

Items are gone over in a given order, and each is taken if it fits into the room that
is left. An item without a cost is never taken.

The order may put first the items that were taken before. If they were taken when the
list was gone over the last time, they are taken again: those that were kept without
having been taken did not fit then, and do not fit now (`takeFitting_stable`).
-/

namespace Packetia

open List

variable {α : Type*}

/-- The items of a list that are taken, with the given room. -/
def takeFitting (cost : α → ℕ) : ℕ → List α → List α
  | _, [] => []
  | room, x :: l =>
    if cost x ≠ 0 ∧ cost x ≤ room then x :: takeFitting cost (room - cost x) l
    else takeFitting cost room l

/-- The cost of all items of a list. -/
def totalCost (cost : α → ℕ) (l : List α) : ℕ := (l.map cost).sum

section

variable {cost cost' : α → ℕ} {room room' : ℕ} {l l' : List α} {x : α}

@[simp] theorem totalCost_cons : totalCost cost (x :: l) = cost x + totalCost cost l := by
  simp [totalCost]

theorem totalCost_perm (h : l.Perm l') : totalCost cost l = totalCost cost l' := (h.map cost).sum_eq

theorem totalCost_sublist (h : l.Sublist l') : totalCost cost l ≤ totalCost cost l' := by
  induction h with
  | slnil => exact le_rfl
  | cons x _ ih => rw [totalCost_cons]; omega
  | cons_cons x _ ih => rw [totalCost_cons, totalCost_cons]; omega

theorem totalCost_le (h : ∀ x ∈ l, cost x ≤ cost' x) : totalCost cost l ≤ totalCost cost' l := by
  induction l with
  | nil => exact le_rfl
  | cons x l ih =>
    have hx := h x mem_cons_self
    have hl := ih fun y hy => h y (mem_cons_of_mem _ hy)
    rw [totalCost_cons, totalCost_cons]
    omega

theorem takeFitting_cons : takeFitting cost room (x :: l) =
    (if cost x ≠ 0 ∧ cost x ≤ room then [x] else []) ++
      takeFitting cost (if cost x ≠ 0 ∧ cost x ≤ room then room - cost x else room) l := by
  rw [takeFitting]
  split_ifs <;> rfl

theorem takeFitting_sublist : (takeFitting cost room l).Sublist l := by
  induction l generalizing room with
  | nil => exact .slnil
  | cons x l ih =>
    rw [takeFitting]
    split_ifs
    · exact ih.cons_cons x
    · exact ih.cons x

theorem mem_of_mem_takeFitting (h : x ∈ takeFitting cost room l) : x ∈ l :=
  takeFitting_sublist.subset h

/-- What is taken has fitted. -/
theorem totalCost_takeFitting_le : totalCost cost (takeFitting cost room l) ≤ room := by
  induction l generalizing room with
  | nil => exact Nat.zero_le _
  | cons x l ih =>
    rw [takeFitting]
    split_ifs with h
    · have hrest : totalCost cost (takeFitting cost (room - cost x) l) ≤ room - cost x := ih
      rw [totalCost_cons]
      omega
    · exact ih

theorem cost_ne_zero_of_mem (h : x ∈ takeFitting cost room l) : cost x ≠ 0 := by
  induction l generalizing room with
  | nil => cases h
  | cons y l ih =>
    rw [takeFitting] at h
    split_ifs at h with hy
    · rcases mem_cons.1 h with rfl | h
      · exact hy.1
      · exact ih h
    · exact ih h

theorem takeFitting_congr (h : ∀ x ∈ l, cost x = cost' x) :
    takeFitting cost room l = takeFitting cost' room l := by
  induction l generalizing room with
  | nil => rfl
  | cons x l ih =>
    have hl : ∀ room, takeFitting cost room l = takeFitting cost' room l := fun _ =>
      ih fun y hy => h y (mem_cons_of_mem _ hy)
    rw [takeFitting, takeFitting, h x mem_cons_self, hl, hl]

/-- One list after the other. -/
theorem takeFitting_append : takeFitting cost room (l ++ l') =
    takeFitting cost room l ++
      takeFitting cost (room - totalCost cost (takeFitting cost room l)) l' := by
  induction l generalizing room with
  | nil => rfl
  | cons x l ih =>
    rw [cons_append, takeFitting, takeFitting]
    split_ifs
    · rw [ih, cons_append, totalCost_cons, Nat.sub_sub]
    · exact ih

/-- What is not taken does not fit into the room that is left. -/
theorem lt_cost_of_notMem (hx : x ∈ l) (hcost : cost x ≠ 0) (h : x ∉ takeFitting cost room l) :
    room - totalCost cost (takeFitting cost room l) < cost x := by
  induction l generalizing room with
  | nil => cases hx
  | cons y l ih =>
    rw [takeFitting] at h ⊢
    split_ifs at h ⊢ with hfits
    · rw [mem_cons, not_or] at h
      rw [totalCost_cons, ← Nat.sub_sub]
      exact ih ((mem_cons.1 hx).resolve_left h.1) h.2
    · rcases mem_cons.1 hx with rfl | hx
      · omega
      · exact ih hx h

/-- The items of `l` with `p` are gone over, and those with `w` are taken. The next time
    the items with `p'` are gone over: all that were taken, maybe some that were not, and
    maybe others with `w`. If there is room for all of those with `w`, they are taken, and
    no others. -/
theorem takeFitting_stable {p p' w : α → Bool} (hl : l.Nodup) (hcost : ∀ x ∈ l, w x → cost x ≠ 0)
    (htaken : ∀ x ∈ l, p x → (w x ↔ x ∈ takeFitting cost room (l.filter p)))
    (hkept : ∀ x ∈ l, p x → w x → p' x) (hold : ∀ x ∈ l, p' x → ¬w x → p x)
    (hroom : room' ≤ room) (hfit : totalCost cost (l.filter fun x => p' x && w x) ≤ room') :
    takeFitting cost room' (l.filter p') = l.filter fun x => p' x && w x := by
  -- Along the list, less room is left the second time than the first.
  induction l generalizing room room' with
  | nil => rfl
  | cons x l ih =>
    obtain ⟨hx, hl⟩ := nodup_cons.1 hl
    have hcost' := fun y (hy : y ∈ l) => hcost y (mem_cons_of_mem _ hy)
    have hkept' := fun y (hy : y ∈ l) => hkept y (mem_cons_of_mem _ hy)
    have hold' := fun y (hy : y ∈ l) => hold y (mem_cons_of_mem _ hy)
    have hne : ∀ y ∈ l, y ≠ x := fun y hy hyx => hx (hyx ▸ hy)
    -- When `x` is taken the second time, with what follows from the rest of the list.
    have htake : ∀ room₁, room' - cost x ≤ room₁ → w x = true → p' x = true →
        (∀ y ∈ l, p y → (w y ↔ y ∈ takeFitting cost room₁ (l.filter p))) →
        takeFitting cost room' ((x :: l).filter p') = (x :: l).filter fun x => p' x && w x := by
      intro room₁ hle hw hp' htaken₁
      have hboth : (p' x && w x) = true := by rw [hp', hw]; rfl
      rw [filter_cons_of_pos (p := fun x => p' x && w x) hboth, totalCost_cons] at hfit
      rw [filter_cons_of_pos hp', filter_cons_of_pos (p := fun x => p' x && w x) hboth,
        takeFitting, if_pos ⟨hcost x mem_cons_self hw, by omega⟩,
        ih hl hcost' htaken₁ hkept' hold' hle (by omega)]
    -- When it is not.
    have hskip : (cost x = 0 ∨ room' < cost x ∨ p' x = false) → (p' x && w x) = false →
        (∀ y ∈ l, p y → (w y ↔ y ∈ takeFitting cost room (l.filter p))) →
        takeFitting cost room' ((x :: l).filter p') = (x :: l).filter fun x => p' x && w x := by
      intro hnot hboth htaken₁
      rw [filter_cons_of_neg (p := fun x => p' x && w x) (by rw [hboth]; decide)] at hfit ⊢
      rw [← ih hl hcost' htaken₁ hkept' hold' hroom hfit]
      by_cases hp' : p' x = true
      · rw [filter_cons_of_pos hp', takeFitting, if_neg]
        rw [hp'] at hnot
        simp only [Bool.true_eq_false, or_false] at hnot
        omega
      · rw [filter_cons_of_neg hp']
    by_cases hp : p x = true
    · have hx₁ := htaken x mem_cons_self hp
      rw [filter_cons_of_pos hp, takeFitting] at hx₁ htaken
      split_ifs at hx₁ htaken with hfits
      · have hw : w x = true := hx₁.2 mem_cons_self
        refine htake (room - cost x) (by omega) hw (hkept x mem_cons_self hp hw) ?_
        intro y hy hpy
        rw [htaken y (mem_cons_of_mem _ hy) hpy, mem_cons, or_iff_right (hne y hy)]
      · have hw : w x = false := by
          rw [← Bool.not_eq_true, hx₁]
          exact fun hmem => hx (mem_of_mem_filter (mem_of_mem_takeFitting hmem))
        refine hskip (by omega) (by rw [hw, Bool.and_false]) ?_
        exact fun y hy => htaken y (mem_cons_of_mem _ hy)
    · rw [filter_cons_of_neg hp] at htaken
      have htaken₁ := fun y (hy : y ∈ l) => htaken y (mem_cons_of_mem _ hy)
      by_cases hw : w x = true
      · by_cases hp' : p' x = true
        · exact htake room (by omega) hw hp' htaken₁
        · rw [Bool.not_eq_true] at hp'
          exact hskip (.inr (.inr hp')) (by rw [hp', Bool.false_and]) htaken₁
      · have hp' : p' x = false := by
          rw [← Bool.not_eq_true]
          exact fun hp' => hp (hold x mem_cons_self hp' hw)
        exact hskip (.inr (.inr hp')) (by rw [hp', Bool.false_and]) htaken₁

end

end Packetia
