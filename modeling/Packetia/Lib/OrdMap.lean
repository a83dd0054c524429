import Mathlib

/-!
# Ordered maps

Maps kept in the order of their keys, as an ordered container is: `head?` is
the first entry, `tail` the map without it, `emplace` adds an entry unless its
key is there already, `erase` drops the entry at a key, `eraseThrough` the entries up
to a key and `filterKeys` those whose key fails a test. `sweep` goes over the entries with
a running state and gives each a new value or drops it. The entries are a list whose keys
increase strictly, and the order is part of the map, so no operation can break it.
-/

namespace Packetia

open List

/-- A map with its entries in the strict order of their keys. -/
structure OrdMap (K V : Type*) [LinearOrder K] where
  /-- The entries, in iteration order. -/
  entries : List (K × V)
  sorted : entries.Pairwise fun a b => a.1 < b.1

namespace OrdMap

variable {K V : Type*} [LinearOrder K] {m : OrdMap K V}

@[ext] theorem ext {m' : OrdMap K V} (h : m.entries = m'.entries) : m = m' := by
  cases m; cases m'; cases h; rfl

instance [DecidableEq V] : DecidableEq (OrdMap K V) := fun m m' =>
  decidable_of_iff (m.entries = m'.entries) ⟨ext, fun h => h ▸ rfl⟩

/-- The map without entries. -/
def empty : OrdMap K V := ⟨[], .nil⟩

instance : Inhabited (OrdMap K V) := ⟨empty⟩

@[simp] theorem entries_empty : (empty : OrdMap K V).entries = [] := rfl

/-- The number of entries. -/
def size (m : OrdMap K V) : ℕ := m.entries.length

@[simp] theorem size_empty : (empty : OrdMap K V).size = 0 := rfl

/-- The keys, in order. -/
def keys (m : OrdMap K V) : List K := m.entries.map Prod.fst

variable {k : K}

theorem mem_keys : k ∈ m.keys ↔ ∃ v, (k, v) ∈ m.entries := by
  simp [keys]

variable {e : K × V} {v : V} {es : List (K × V)}

theorem mem_keys_of_mem (he : e ∈ m.entries) : e.1 ∈ m.keys := mem_map_of_mem he

theorem keys_sorted (m : OrdMap K V) : m.keys.Pairwise (· < ·) := pairwise_map.2 m.sorted

theorem keys_nodup (m : OrdMap K V) : m.keys.Nodup := m.keys_sorted.imp ne_of_lt

/-- An entry is determined by its key. -/
theorem entry_unique {v' : V} (hv : (k, v) ∈ m.entries) (hv' : (k, v') ∈ m.entries) : v = v' := by
  exact (Prod.mk.inj (inj_on_of_nodup_map m.keys_nodup hv hv' rfl)).2

/-! ## The first entry -/

/-- The first entry. -/
def head? (m : OrdMap K V) : Option (K × V) := m.entries.head?

/-- The map without its first entry. -/
def tail (m : OrdMap K V) : OrdMap K V := ⟨m.entries.tail, m.sorted.tail⟩

@[simp] theorem entries_tail (m : OrdMap K V) : m.tail.entries = m.entries.tail := rfl

theorem entries_of_head? (he : m.head? = some e) : m.entries = e :: m.tail.entries := by
  obtain ⟨es, hs⟩ := m
  cases es with
  | nil => simp [head?] at he
  | cons a es => simp only [head?, head?_cons, Option.some.injEq] at he; simp [he]

theorem head?_eq_none : m.head? = none ↔ m.size = 0 := by
  simp [head?, size]

theorem size_tail_of_head? (he : m.head? = some e) : m.size = m.tail.size + 1 := by
  rw [size, entries_of_head? he, length_cons, size]

/-- The other entries come after the first. -/
theorem head?_lt_tail {e' : K × V} (he : m.head? = some e) (he' : e' ∈ m.tail.entries) :
    e.1 < e'.1 := by
  have hs := m.sorted
  rw [entries_of_head? he, pairwise_cons] at hs
  exact hs.1 e' he'

theorem mem_of_mem_tail (he : e ∈ m.tail.entries) : e ∈ m.entries := List.mem_of_mem_tail he

theorem mem_of_head? (he : m.head? = some e) : e ∈ m.entries := entries_of_head? he ▸ mem_cons_self

/-- A key is the first one, or one of the others. -/
theorem eq_or_mem_tail_of_mem_keys (he : m.head? = some e) (hk : k ∈ m.keys) :
    k = e.1 ∨ k ∈ m.tail.keys := by
  rw [keys, entries_of_head? he, map_cons, mem_cons] at hk
  exact hk

/-! ## Adding an entry -/

/-- The entries with `(k, v)` in its place, unless the key is there already. -/
def insertNew (k : K) (v : V) : List (K × V) → List (K × V)
  | [] => [(k, v)]
  | e :: es => if k < e.1 then (k, v) :: e :: es else
      if k = e.1 then e :: es else e :: insertNew k v es

theorem mem_insertNew (he : e ∈ insertNew k v es) : e = (k, v) ∨ e ∈ es := by
  induction es with
  | nil => simpa [insertNew] using he
  | cons a es ih =>
    rw [insertNew] at he
    split_ifs at he with h₁ h₂
    · exact (mem_cons.1 he).imp_right id
    · exact .inr he
    · rcases mem_cons.1 he with rfl | he
      · exact .inr mem_cons_self
      · exact (ih he).imp_right (mem_cons_of_mem _)

theorem sorted_insertNew (k : K) (v : V) (hs : es.Pairwise fun a b => a.1 < b.1) :
    (insertNew k v es).Pairwise fun a b => a.1 < b.1 := by
  induction es with
  | nil => simp [insertNew]
  | cons e es ih =>
    rw [pairwise_cons] at hs
    rw [insertNew]
    split_ifs with h₁ h₂
    · refine pairwise_cons.2 ⟨fun b hb => ?_, pairwise_cons.2 hs⟩
      rcases mem_cons.1 hb with rfl | hb
      · exact h₁
      · exact h₁.trans (hs.1 b hb)
    · exact pairwise_cons.2 hs
    · refine pairwise_cons.2 ⟨fun b hb => ?_, ih hs.2⟩
      rcases mem_insertNew hb with rfl | hb
      · exact lt_of_le_of_ne (not_lt.1 h₁) (Ne.symm h₂)
      · exact hs.1 b hb

/-- Adding the entry `(k, v)`, unless there is one with this key. -/
def emplace (m : OrdMap K V) (k : K) (v : V) : OrdMap K V :=
  ⟨insertNew k v m.entries, sorted_insertNew k v m.sorted⟩

theorem insertNew_perm (hs : es.Pairwise fun a b => a.1 < b.1) (hk : k ∉ es.map Prod.fst) :
    (insertNew k v es).Perm ((k, v) :: es) := by
  induction es with
  | nil => exact .refl _
  | cons e es ih =>
    rw [map_cons, mem_cons, not_or] at hk
    rw [insertNew]
    split_ifs with h₁ h₂
    · exact .refl _
    · exact absurd h₂ hk.1
    · exact ((ih (pairwise_cons.1 hs).2 hk.2).cons e).trans (.swap _ _ _)

/-- A new key is added to the entries. -/
theorem emplace_perm (v : V) (hk : k ∉ m.keys) :
    (m.emplace k v).entries.Perm ((k, v) :: m.entries) := insertNew_perm m.sorted hk

/-- A key that is there already keeps its entry. -/
theorem emplace_of_mem (v : V) (hk : k ∈ m.keys) : m.emplace k v = m := by
  obtain ⟨es, hs⟩ := m
  refine ext ?_
  change insertNew k v es = es
  change k ∈ es.map Prod.fst at hk
  induction es with
  | nil => simp at hk
  | cons e es ih =>
    rw [pairwise_cons] at hs
    rw [insertNew]
    split_ifs with h₁ h₂
    · rcases mem_cons.1 hk with rfl | hk
      · exact absurd h₁ (lt_irrefl _)
      · obtain ⟨b, hb, rfl⟩ := mem_map.1 hk
        exact absurd (hs.1 b hb) (not_lt.2 h₁.le)
    · rfl
    · rw [ih hs.2 ((mem_cons.1 hk).resolve_left h₂)]

theorem mem_emplace (hk : k ∉ m.keys) :
    e ∈ (m.emplace k v).entries ↔ e = (k, v) ∨ e ∈ m.entries := by
  rw [(emplace_perm v hk).mem_iff, mem_cons]

theorem mem_keys_emplace {j : K} : j ∈ (m.emplace k v).keys ↔ j = k ∨ j ∈ m.keys := by
  by_cases hk : k ∈ m.keys
  · rw [emplace_of_mem v hk]
    exact ⟨.inr, fun h => h.elim (fun hj => hj ▸ hk) id⟩
  · rw [keys, ((emplace_perm v hk).map Prod.fst).mem_iff, map_cons, mem_cons, keys]

theorem size_emplace (v : V) (hk : k ∉ m.keys) : (m.emplace k v).size = m.size + 1 :=
  (emplace_perm v hk).length_eq

theorem size_emplace_le (m : OrdMap K V) (k : K) (v : V) : (m.emplace k v).size ≤ m.size + 1 := by
  by_cases hk : k ∈ m.keys
  · rw [emplace_of_mem v hk]
    exact Nat.le_succ _
  · exact (size_emplace v hk).le

/-! ## Looking up and erasing -/

/-- The value at a key. -/
def find? (m : OrdMap K V) (k : K) : Option V := (m.entries.find? fun e => e.1 = k).map Prod.snd

theorem find?_eq_some : m.find? k = some v ↔ (k, v) ∈ m.entries := by
  constructor
  · intro h
    obtain ⟨e, he, rfl⟩ := Option.map_eq_some_iff.1 h
    have hk : e.1 = k := by simpa using find?_some he
    exact hk ▸ mem_of_find?_eq_some he
  · intro h
    obtain ⟨e, he⟩ : ∃ e, m.entries.find? (fun e => decide (e.1 = k)) = some e :=
      Option.isSome_iff_exists.1 (find?_isSome.2 ⟨(k, v), h, by simp⟩)
    have hk : e.1 = k := by simpa using find?_some he
    obtain ⟨k', v'⟩ := e
    obtain rfl : k' = k := hk
    rw [find?, he, Option.map_some, entry_unique (mem_of_find?_eq_some he) h]

theorem find?_eq_none : m.find? k = none ↔ k ∉ m.keys := by
  rw [Option.eq_none_iff_forall_ne_some, mem_keys, not_exists]
  exact forall_congr' fun v => not_congr find?_eq_some

theorem find?_emplace (hk : k ∉ m.keys) (j : K) :
    (m.emplace k v).find? j = if j = k then some v else m.find? j := by
  refine Option.ext fun u => ?_
  rw [find?_eq_some, mem_emplace hk, Prod.mk.injEq]
  split_ifs with hj
  · subst hj
    have hno : (j, u) ∉ m.entries := fun h => hk (mem_keys_of_mem h)
    simp [hno, eq_comm]
  · rw [find?_eq_some]
    simp [hj]

/-- Dropping the entry at the key `k`. -/
def erase (m : OrdMap K V) (k : K) : OrdMap K V :=
  ⟨m.entries.filter fun e => e.1 ≠ k, m.sorted.filter _⟩

theorem mem_erase : e ∈ (m.erase k).entries ↔ e ∈ m.entries ∧ e.1 ≠ k := by
  simp [erase]

theorem find?_erase (m : OrdMap K V) (k j : K) :
    (m.erase k).find? j = if j = k then none else m.find? j := by
  refine Option.ext fun u => ?_
  rw [find?_eq_some, mem_erase]
  split_ifs with hj
  · simp [hj]
  · rw [find?_eq_some]
    simp [hj]

/-- An entry is dropped once. -/
theorem erase_perm (h : (k, v) ∈ m.entries) : m.entries.Perm ((k, v) :: (m.erase k).entries) := by
  have hnodup := m.keys_nodup.of_map Prod.fst
  rw [perm_ext_iff_of_nodup hnodup]
  · intro e
    rw [mem_cons, mem_erase]
    constructor
    · intro he
      by_cases hk : e.1 = k
      · exact .inl (Prod.ext hk (entry_unique (show (k, e.2) ∈ m.entries from hk ▸ he) h))
      · exact .inr ⟨he, hk⟩
    · rintro (rfl | he)
      · exact h
      · exact he.1
  · refine nodup_cons.2 ⟨fun hmem => (mem_erase.1 hmem).2 rfl, ?_⟩
    exact hnodup.filter _

/-- Dropping the entries up to the key `k`. -/
def eraseThrough (m : OrdMap K V) (k : K) : OrdMap K V :=
  ⟨m.entries.filter fun e => k < e.1, m.sorted.filter _⟩

theorem mem_eraseThrough : e ∈ (m.eraseThrough k).entries ↔ e ∈ m.entries ∧ k < e.1 := by
  simp [eraseThrough]

theorem size_eraseThrough_le (m : OrdMap K V) (k : K) : (m.eraseThrough k).size ≤ m.size :=
  length_filter_le _ _

/-- Nothing is dropped if all keys are beyond `k`. -/
theorem eraseThrough_of_lt (h : ∀ j ∈ m.keys, k < j) : m.eraseThrough k = m :=
  ext (filter_eq_self.2 fun e he => by simpa using h e.1 (mem_keys_of_mem he))

/-- Dropping the entries whose key fails the test `p`. -/
def filterKeys (m : OrdMap K V) (p : K → Bool) : OrdMap K V :=
  ⟨m.entries.filter fun e => p e.1, m.sorted.filter _⟩

theorem mem_filterKeys {p : K → Bool} : e ∈ (m.filterKeys p).entries ↔ e ∈ m.entries ∧ p e.1 := by
  simp [filterKeys]

theorem size_filterKeys_le (m : OrdMap K V) (p : K → Bool) : (m.filterKeys p).size ≤ m.size :=
  length_filter_le _ _

/-! ## Going over the entries -/

section Sweep

variable {σ : Type*} {visit : σ → K → V → σ × Option V}

omit [LinearOrder K] in
/-- The entries are visited in order. A visit changes the running state, and gives the entry a
    new value or drops it. -/
def sweepEntries (visit : σ → K → V → σ × Option V) : σ → List (K × V) → σ × List (K × V)
  | s, [] => (s, [])
  | s, e :: es =>
    let next := visit s e.1 e.2
    let rest := sweepEntries visit next.1 es
    (rest.1, (next.2.map fun v => (e.1, v)).toList ++ rest.2)

omit [LinearOrder K] in
theorem keys_sweepEntries (s : σ) (es : List (K × V)) :
    ((sweepEntries visit s es).2.map Prod.fst).Sublist (es.map Prod.fst) := by
  induction es generalizing s with
  | nil => exact .slnil
  | cons e es ih =>
    rw [sweepEntries, map_append, map_cons]
    cases (visit s e.1 e.2).2 with
    | none => exact (ih _).cons _
    | some v => exact (ih _).cons_cons _

/-- The map after all entries have been visited, and the state at the end. -/
def sweep (visit : σ → K → V → σ × Option V) (s : σ) (m : OrdMap K V) : σ × OrdMap K V :=
  ((sweepEntries visit s m.entries).1, ⟨(sweepEntries visit s m.entries).2,
    List.pairwise_map.1 (m.keys_sorted.sublist (keys_sweepEntries s m.entries))⟩)

end Sweep

end OrdMap

end Packetia
