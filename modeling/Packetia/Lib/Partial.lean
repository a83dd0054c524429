import Mathlib

/-!
# Passes that may fail

A pass over a list that gives up at the first element it cannot take is a fold in
`Option`. It succeeds on a list of lists as on their concatenation
(`foldlM_flatMap`), and what every step that succeeds keeps holds at the end, of the
elements it has gone over (`foldlM_induction`).
-/

namespace Packetia

open List

variable {α β γ : Type} {l : List α} {R : α → β → Prop} {f : β → α → Option β}

theorem guard_bind {p : Prop} [Decidable p] (f : Unit → Option β) :
    (guard p >>= f : Option β) = if p then f () else none := by
  by_cases h : p <;> simp [guard, h]

/-- All elements are taken, one by one. -/
theorem mapM_eq_some {f : α → Option β} {l' : List β} :
    l.mapM f = some l' ↔ List.Forall₂ (fun a b => f a = some b) l l' := by
  induction l generalizing l' with
  | nil => cases l' <;> simp
  | cons a l ih =>
    rw [mapM_cons]
    cases l' with
    | nil => simp [Option.bind_eq_some_iff]
    | cons b l' => simp [Option.bind_eq_some_iff, ih]

/-- Elements that can all be taken are all taken. -/
theorem exists_forall₂ (h : ∀ a ∈ l, ∃ b, R a b) : ∃ l', List.Forall₂ R l l' := by
  induction l with
  | nil => exact ⟨[], .nil⟩
  | cons a l ih =>
    obtain ⟨b, hb⟩ := h a mem_cons_self
    obtain ⟨l', hl⟩ := ih fun c hc => h c (mem_cons_of_mem _ hc)
    exact ⟨b :: l', .cons hb hl⟩

theorem exists_of_forall₂ {l' : List β}
    (h : List.Forall₂ R l l') {b : β} (hb : b ∈ l') : ∃ a ∈ l, R a b := by
  induction h with
  | nil => cases hb
  | cons hab _ ih =>
    rcases mem_cons.1 hb with rfl | hb
    · exact ⟨_, mem_cons_self, hab⟩
    · obtain ⟨a, ha, hr⟩ := ih hb
      exact ⟨a, mem_cons_of_mem _ ha, hr⟩

/-- A pass in two levels is a pass over the concatenation. -/
theorem foldlM_flatMap (f : β → γ → Option β) (g : α → List γ) (l : List α) (b : β) :
    (l.flatMap g).foldlM f b = l.foldlM (fun b a => (g a).foldlM f b) b := by
  induction l generalizing b with
  | nil => rfl
  | cons a l ih => simp only [flatMap_cons, foldlM_append, foldlM_cons, ih]

/-- A pass whose steps change nothing changes nothing. -/
theorem foldlM_of_forall {b : β}
    (h : ∀ a ∈ l, f b a = some b) : l.foldlM f b = some b := by
  induction l with
  | nil => rfl
  | cons a l ih =>
    rw [foldlM_cons, h a mem_cons_self]
    exact ih fun c hc => h c (mem_cons_of_mem _ hc)

/-- What holds initially and is kept by every step that succeeds holds at the end. The
    property may speak of the elements gone over so far. -/
theorem foldlM_induction {P : List α → β → Prop} {b b' : β}
    (init : P [] b) (step : ∀ l a b b', P l b → f b a = some b' → P (l ++ [a]) b')
    (h : l.foldlM f b = some b') : P l b' := by
  induction l using reverseRecOn generalizing b' with
  | nil =>
    obtain rfl : b = b' := Option.some.inj h
    exact init
  | append_singleton l a ih =>
    simp only [foldlM_append, foldlM_cons, foldlM_nil, bind_pure,
      Option.bind_eq_bind, Option.bind_eq_some_iff] at h
    obtain ⟨c, hc, ha⟩ := h
    exact step l a c b' (ih hc) ha

end Packetia
