import Packetia.Lib.OrdMap

/-!
# Rings

A ring of `n` slots keeps items under integer numbers, each in the slot of its
number modulo `n`. A slot holds one item, so an item is found only if its own
number is in its slot. The occupied slots are an ordered map, and that every item
is in its own slot is part of the ring.
-/

namespace Packetia

open OrdMap

/-- The slot of a number. -/
def Ring.index (n : ℕ) (x : ℤ) : ℕ := (x % n).toNat

/-- A ring of `n` slots, with the number of each item. -/
structure Ring (n : ℕ) (β : Type*) where
  /-- The occupied slots, in order. -/
  slots : OrdMap ℕ (ℤ × β)
  own_slot : ∀ e ∈ slots.entries, e.1 = Ring.index n e.2.1

namespace Ring

variable {n : ℕ} {β : Type*} {r : Ring n β} {x y : ℤ} {v : β}

@[ext] theorem ext {r r' : Ring n β} (h : r.slots = r'.slots) : r = r' := by
  cases r; cases r'; cases h; rfl

instance [DecidableEq β] : DecidableEq (Ring n β) := fun r r' =>
  decidable_of_iff (r.slots = r'.slots) ⟨ext, fun h => h ▸ rfl⟩

/-- The ring without items. -/
def empty : Ring n β := ⟨.empty, fun _ h => absurd h List.not_mem_nil⟩

/-- The items, with their numbers, in the order of the slots. -/
def items (r : Ring n β) : List (ℤ × β) := r.slots.entries.map Prod.snd

/-- What is in the slot of `x`. -/
def occupant (r : Ring n β) (x : ℤ) : Option (ℤ × β) := r.slots.find? (index n x)

/-- The item of the number `x`. -/
def get? (r : Ring n β) (x : ℤ) : Option β :=
  (r.occupant x).bind fun e => if e.1 = x then some e.2 else none

theorem get?_eq_some : r.get? x = some v ↔ r.occupant x = some (x, v) := by
  rw [get?, Option.bind_eq_some_iff]
  constructor
  · rintro ⟨e, he, hv⟩
    split_ifs at hv with hx
    rw [he, ← hx, ← Option.some.inj hv]
  · intro h
    exact ⟨(x, v), h, if_pos rfl⟩

theorem index_of_occupant (h : r.occupant x = some (y, v)) : index n x = index n y :=
  r.own_slot _ (find?_eq_some.1 h)

theorem get?_of_occupant (h : r.occupant x = some (y, v)) : r.get? y = some v := by
  rw [get?_eq_some, occupant, ← index_of_occupant h]
  exact h

theorem mem_items : (x, v) ∈ r.items ↔ r.get? x = some v := by
  rw [get?_eq_some, occupant, find?_eq_some, items, List.mem_map]
  constructor
  · rintro ⟨⟨i, e⟩, he, rfl⟩
    have hi : i = index n x := r.own_slot _ he
    exact hi ▸ he
  · intro h
    exact ⟨_, h, rfl⟩

/-- Two items do not share a slot. -/
theorem get?_of_index_eq (h : r.get? x = some v) (hslot : index n y = index n x) (hne : y ≠ x) :
    r.get? y = none := by
  have hx := get?_eq_some.1 h
  rw [occupant] at hx
  simp [get?, occupant, hslot, hx, Ne.symm hne]

/-- The numbers of the items differ. -/
theorem items_nodup (r : Ring n β) : (r.items.map Prod.fst).Nodup := by
  have hinj : (r.slots.entries.map fun e => index n e.2.1).Nodup := by
    have hkeys : r.slots.entries.map (fun e => index n e.2.1) = r.slots.keys :=
      List.map_congr_left fun e he => (r.own_slot e he).symm
    rw [hkeys]
    exact r.slots.keys_nodup
  rw [items, List.map_map]
  have hcomp : (fun e : ℕ × ℤ × β => index n e.2.1) =
      index n ∘ (Prod.fst ∘ Prod.snd : ℕ × ℤ × β → ℤ) := rfl
  rw [hcomp, ← List.map_map] at hinj
  exact hinj.of_map _

/-- The ring with an item in an empty slot. -/
def put (r : Ring n β) (x : ℤ) (v : β) : Ring n β where
  slots := r.slots.emplace (index n x) (x, v)
  own_slot e he := by
    rcases mem_insertNew he with rfl | he
    · rfl
    · exact r.own_slot e he

/-- The ring without the item in the slot of `x`. -/
def erase (r : Ring n β) (x : ℤ) : Ring n β where
  slots := r.slots.erase (index n x)
  own_slot e he := r.own_slot e (mem_erase.1 he).1

theorem occupant_erase (r : Ring n β) (x y : ℤ) :
    (r.erase x).occupant y = if index n y = index n x then none else r.occupant y :=
  find?_erase _ _ _

theorem get?_put (h : r.occupant x = none) (v : β) (y : ℤ) :
    (r.put x v).get? y = if y = x then some v else r.get? y := by
  have hk := find?_eq_none.1 h
  rw [get?, occupant, put, find?_emplace hk]
  split_ifs with hslot hy hy
  · simp [hy]
  · have hnone : r.get? y = none := by
      rw [get?, occupant, hslot]
      simp only [occupant] at h
      simp [h]
    simp [Ne.symm hy, hnone]
  · exact absurd (congrArg _ hy) hslot
  · rfl

theorem get?_erase (h : r.get? x = some v) (y : ℤ) :
    (r.erase x).get? y = if y = x then none else r.get? y := by
  have hx := get?_eq_some.1 h
  rw [get?, occupant_erase]
  split_ifs with hslot hy hy
  · rfl
  · have hnone : r.get? y = none := by
      rw [get?, occupant, hslot]
      rw [occupant] at hx
      simp [hx, Ne.symm hy]
    exact hnone.symm
  · exact absurd (congrArg _ hy) hslot
  · rfl

theorem items_put (h : r.occupant x = none) (v : β) : (r.put x v).items.Perm ((x, v) :: r.items) :=
  (emplace_perm _ (find?_eq_none.1 h)).map _

theorem items_erase (h : r.get? x = some v) : r.items.Perm ((x, v) :: (r.erase x).items) :=
  (erase_perm (find?_eq_some.1 (get?_eq_some.1 h))).map _

end Ring

end Packetia
