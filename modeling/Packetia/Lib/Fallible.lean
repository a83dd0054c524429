import Mathlib

/-!
# Computations that may fail

Calls that stop at the first error and give it back. The lemmas take a computation that has
succeeded apart: a sequence (`bind_eq_ok`), a check (`require_bind_eq_ok`), a loop with a state
(`foldlM_concat_eq_ok`, `foldlM_ok_induction`), a loop of checks (`forM_eq_ok`) and one that
computes an element for each of a list (`mapM_eq_ok`).
-/

namespace Packetia

universe u v

variable {α β γ : Type u} {ε : Type v} {f : α → Except ε β} {c : Bool} {e : ε} {value : Option α}
  {a : α}

/-- Stops with an error unless the condition holds. -/
def require (condition : Bool) (error : ε) : Except ε Unit :=
  if condition then .ok () else .error error

/-- The value, or an error if there is none. -/
def expect (value : Option α) (error : ε) : Except ε α := value.elim (.error error) .ok

theorem bind_eq_ok {x : Except ε α} {b : β} : (x >>= f) = .ok b ↔ ∃ a, x = .ok a ∧ f a = .ok b := by
  cases x with
  | error e =>
    constructor
    · intro h
      cases h
    · rintro ⟨a, h, -⟩
      cases h
  | ok a =>
    constructor
    · exact fun h => ⟨a, rfl, h⟩
    · rintro ⟨a', h, h'⟩
      cases h
      exact h'

theorem require_eq_ok {u : Unit} : require c e = .ok u ↔ c = true := by
  cases c <;> simp [require]

theorem require_bind_eq_ok {β : Type} {f : Unit → Except ε β} {b : β} :
    (require c e >>= f) = .ok b ↔ c = true ∧ f () = .ok b := by
  cases c
  · exact ⟨nofun, fun h => (by cases h.1)⟩
  · exact ⟨fun h => ⟨rfl, h⟩, fun h => h.2⟩

theorem expect_eq_ok : expect value e = .ok a ↔ value = some a := by
  cases value with
  | none => exact ⟨nofun, nofun⟩
  | some b => exact ⟨fun h => (by cases h; rfl), fun h => (by cases h; rfl)⟩

theorem expect_bind_eq_ok {b : β} :
    (expect value e >>= f) = .ok b ↔ ∃ a, value = some a ∧ f a = .ok b := by
  rw [bind_eq_ok]
  exact exists_congr fun a => and_congr_left fun _ => expect_eq_ok

theorem expect_bind_of_eq (h : value = some a) (e : ε) (f : α → Except ε β) :
    (expect value e >>= f) = f a := by
  rw [h]
  rfl

theorem require_bind_of_eq {β : Type} (h : c = true) (e : ε) (f : Unit → Except ε β) :
    (require c e >>= f) = f () := by
  rw [h]
  rfl

section Loops

variable {f : β → α → Except ε β} {b c : β} {l : List α}

theorem foldlM_concat_eq_ok :
    (l ++ [a]).foldlM f b = .ok c ↔ ∃ b', l.foldlM f b = .ok b' ∧ f b' a = .ok c := by
  rw [List.foldlM_append, bind_eq_ok]
  refine exists_congr fun b' => and_congr_right fun _ => ?_
  rw [List.foldlM_cons, bind_eq_ok]
  constructor
  · rintro ⟨b'', h, hnil⟩
    cases hnil
    exact h
  · exact fun h => ⟨c, h, rfl⟩

/-- What holds at first and is kept by every round that succeeds holds at the end. The property may
    speak of the elements gone through. -/
theorem foldlM_ok_induction {P : List α → β → Prop} (init : P [] b)
    (round : ∀ l a b c, P l b → f b a = .ok c → P (l ++ [a]) c) (h : l.foldlM f b = .ok c) :
    P l c := by
  induction l using List.reverseRecOn generalizing c with
  | nil =>
    cases h
    exact init
  | append_singleton l a ih =>
    obtain ⟨b', hl, ha⟩ := foldlM_concat_eq_ok.1 h
    exact round l a b' c (ih hl) ha

theorem mapM_eq_ok {g : α → Except ε γ} {l' : List γ} :
    l.mapM g = .ok l' ↔ List.Forall₂ (fun a b => g a = .ok b) l l' := by
  induction l generalizing l' with
  | nil =>
    rw [List.mapM_nil, List.forall₂_nil_left_iff]
    exact ⟨fun h => (by cases h; rfl), fun h => (by rw [h]; rfl)⟩
  | cons a l ih =>
    rw [List.mapM_cons, bind_eq_ok, List.forall₂_cons_left_iff]
    refine exists_congr fun b => ?_
    rw [bind_eq_ok]
    constructor
    · rintro ⟨ha, bs, hl, hpure⟩
      cases hpure
      exact ⟨bs, ha, ih.1 hl, rfl⟩
    · rintro ⟨bs, ha, hl, rfl⟩
      exact ⟨ha, bs, ih.2 hl, rfl⟩

/-- Lists that are related element by element have the same images. -/
theorem map_eq_of_forall₂ {R : α → β → Prop} {g : α → γ} {h : β → γ} {l' : List β}
    (hR : ∀ a b, R a b → h b = g a) (hl : List.Forall₂ R l l') : l'.map h = l.map g := by
  induction hl with
  | nil => rfl
  | cons hab _ ih => rw [List.map_cons, List.map_cons, hR _ _ hab, ih]

end Loops

end Packetia
