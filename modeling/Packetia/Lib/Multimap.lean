import Packetia.Lib.Table

/-!
# Multimaps

Tables of sets, as a map from keys to hash sets is. A set is a list without repetition here, and a
key without an entry has the empty set (`members`). The lemmas say what is a member after an
operation; whether an empty set has an entry does not matter to them.
-/

namespace Packetia

/-- A set at every key. -/
abbrev Multimap (K V : Type*) := Table K (List V)

namespace Multimap

variable {K V : Type*} (m : Multimap K V)

def members (k : K) : List V := (m.find k).getD []

theorem members_of_find {m : Multimap K V} {k : K} {l : List V} (h : m.find k = some l) :
    members m k = l := by
  rw [members, h, Option.getD_some]

section Update

variable [DecidableEq K] [DecidableEq V]

/-- `m[k]`, which makes an entry if there is none. -/
def touch (k : K) : Multimap K V := m.set k (members m k)

/-- `m[k].insert(v)`. -/
def add (k : K) (v : V) : Multimap K V :=
  m.set k (if v ∈ members m k then members m k else members m k ++ [v])

/-- `m[k].erase(v)`, with the entry itself if nothing is left in it. -/
def remove (k : K) (v : V) : Multimap K V :=
  match m.find k with
  | none => m
  | some l =>
    let l := l.filter fun x => x ≠ v
    if l = [] then m.erase k else m.set k l

/-- `v` is taken out of all sets. -/
def removeAll (v : V) : Multimap K V := m.filterMap fun _ l => some (l.filter fun x => x ≠ v)

variable {m} {k j : K} {v x : V}

omit [DecidableEq V] in
theorem members_set {l : List V} :
    members (m.set k l : Multimap K V) j = if j = k then l else members m j := by
  rw [members, Table.find_set]
  split_ifs <;> rfl

omit [DecidableEq V] in
theorem members_erase :
    members (m.erase k : Multimap K V) j = if j = k then [] else members m j := by
  rw [members, Table.find_erase]
  split_ifs <;> rfl

omit [DecidableEq V] in
theorem members_touch : members (touch m k) j = members m j := by
  rw [touch, members_set]
  split_ifs with h
  · rw [h]
  · rfl

theorem mem_members_add : x ∈ members (add m k v) j ↔ x ∈ members m j ∨ j = k ∧ x = v := by
  rw [add, members_set]
  by_cases hj : j = k
  · subst hj
    rw [if_pos rfl]
    split_ifs with hv
    · exact ⟨.inl, fun h => h.elim id fun h => h.2 ▸ hv⟩
    · simp
  · simp [hj]

theorem mem_members_remove : x ∈ members (remove m k v) j ↔ x ∈ members m j ∧ ¬(j = k ∧ x = v) := by
  rw [remove]
  cases hk : m.find k with
  | none =>
    refine (and_iff_left_of_imp fun hx => ?_).symm
    rintro ⟨rfl, -⟩
    rw [members, hk] at hx
    cases hx
  | some l =>
    have hl : members m k = l := members_of_find hk
    dsimp only
    by_cases hj : j = k
    · subst hj
      split_ifs with hempty
      · have hall : ∀ y ∈ l, y = v := by simpa using hempty
        rw [members_erase, if_pos rfl, hl]
        exact ⟨fun h => absurd h List.not_mem_nil, fun h => absurd ⟨rfl, hall x h.1⟩ h.2⟩
      · rw [members_set, if_pos rfl, hl]
        simp
    · split_ifs
      · rw [members_erase, if_neg hj]
        simp [hj]
      · rw [members_set, if_neg hj]
        simp [hj]

omit [DecidableEq K] in
theorem mem_members_removeAll : x ∈ members (removeAll m v) j ↔ x ∈ members m j ∧ x ≠ v := by
  rw [members, removeAll, Table.find_filterMap, members]
  cases m.find j <;> simp

end Update

end Multimap

end Packetia
