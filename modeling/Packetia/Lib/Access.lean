import Packetia.Lib.Bytes

/-!
# Reads that leave a trace

A reader of a packet gets a pointer and a length, and reads bytes at offsets from the
pointer. What it computes depends on the bytes it reads, and so does where it reads
next. `Access α` is such a reader: it is done, or it reads a byte and goes on with it.

On a byte string a reader has a value (`value`) and the list of the offsets it reads
(`reads`). There is no other way to look at the string, so the value depends on the
bytes at these offsets only (`value_congr`), and a reader that stays below `n`
(`Below`) sees the first `n` bytes (`value_take`).
-/

namespace Packetia

universe u

/-- A computation that reads bytes by their offset. -/
inductive Access (α : Type u) : Type u
  | done (a : α)
  | read (i : ℕ) (next : Byte → Access α)

namespace Access

variable {α β : Type u}

/-- One computation after another. -/
protected def bind : Access α → (α → Access β) → Access β
  | done a, f => f a
  | read i next, f => read i fun b => (next b).bind f

instance : Monad Access where
  pure := done
  bind := Access.bind

/-- What is computed from the bytes of `data`. -/
def value : Access α → List Byte → α
  | done a, _ => a
  | read i next, data => (next (byteAt data i)).value data

/-- The offsets read, in order. -/
def reads : Access α → List Byte → List ℕ
  | done _, _ => []
  | read i next, data => i :: (next (byteAt data i)).reads data

/-- The same computation from the pointer `p + offset`. -/
def shift (offset : ℕ) : Access α → Access α
  | done a => done a
  | read i next => read (offset + i) fun b => (next b).shift offset

/-- `p[i]`. -/
def byte (i : ℕ) : Access Byte := read i done

def u16 (i : ℕ) : Access (BitVec 16) := do
  let high ← byte i
  let low ← byte (i + 1)
  pure (high ++ low)

def u24 (i : ℕ) : Access (BitVec 24) := do
  let high ← byte i
  let low ← u16 (i + 1)
  pure (high ++ low)

def u32 (i : ℕ) : Access (BitVec 32) := do
  let high ← u16 i
  let low ← u16 (i + 2)
  pure (high ++ low)

def u64 (i : ℕ) : Access (BitVec 64) := do
  let high ← u32 i
  let low ← u32 (i + 4)
  pure (high ++ low)

variable {data data' : List Byte} {x : Access α} {f : α → Access β} {i n offset : ℕ}

/-! ## Values -/

@[simp] theorem value_pure (a : α) : (pure a : Access α).value data = a := rfl

@[simp] theorem value_bind : (x >>= f).value data = (f (x.value data)).value data := by
  induction x with
  | done a => rfl
  | read i next ih => exact ih _

@[simp] theorem value_byte : (byte i).value data = byteAt data i := by
  rw [byte, value, value]

@[simp] theorem value_u16 : (u16 i).value data = u16At data i := by
  rw [u16, value_bind, value_bind, value_byte, value_byte, value_pure, u16At]

@[simp] theorem value_u32 : (u32 i).value data = u32At data i := by
  rw [u32, value_bind, value_bind, value_u16, value_u16, value_pure, u32At]

@[simp] theorem value_shift : (x.shift offset).value data = x.value (data.drop offset) := by
  induction x with
  | done a => rfl
  | read i next ih => rw [shift, value, value, byteAt_drop, ih]

/-! ## Reads -/

@[simp] theorem reads_pure (a : α) : (pure a : Access α).reads data = [] := rfl

@[simp] theorem reads_bind :
    (x >>= f).reads data = x.reads data ++ (f (x.value data)).reads data := by
  induction x with
  | done a => rfl
  | read i next ih => exact congrArg (i :: ·) (ih _)

@[simp] theorem reads_shift :
    (x.shift offset).reads data = (x.reads (data.drop offset)).map (offset + ·) := by
  induction x with
  | done a => rfl
  | read i next ih => rw [shift, reads, reads, byteAt_drop, ih, List.map_cons]

/-- The value depends on the bytes that are read only. -/
theorem value_congr (h : ∀ i ∈ x.reads data, byteAt data' i = byteAt data i) :
    x.value data' = x.value data := by
  induction x with
  | done a => rfl
  | read i next ih =>
    have hi : byteAt data' i = byteAt data i := h i List.mem_cons_self
    rw [value, value, hi]
    exact ih _ fun j hj => h j (List.mem_cons_of_mem _ hj)

/-! ## Readers that stay below a bound -/

/-- On `data` the reader reads below `n` only. -/
def Below (n : ℕ) (x : Access α) (data : List Byte) : Prop := ∀ i ∈ x.reads data, i < n

@[simp] theorem below_pure (a : α) : Below n (pure a : Access α) data := nofun

@[simp] theorem below_bind :
    Below n (x >>= f) data ↔ Below n x data ∧ Below n (f (x.value data)) data := by
  simp [Below, or_imp, forall_and]

@[simp] theorem below_byte : Below n (byte i) data ↔ i < n := by simp [Below, byte, reads]

@[simp] theorem below_u16 : Below n (u16 i) data ↔ i + 1 < n := by
  simp [u16]; omega

@[simp] theorem below_u24 : Below n (u24 i) data ↔ i + 2 < n := by
  simp [u24]; omega

@[simp] theorem below_u32 : Below n (u32 i) data ↔ i + 3 < n := by
  simp [u32]; omega

@[simp] theorem below_u64 : Below n (u64 i) data ↔ i + 7 < n := by
  simp [u64]; omega

/-- A reader that stays below `n` sees the first `n` bytes. -/
theorem value_take (h : Below n x data) : x.value (data.take n) = x.value data :=
  value_congr fun i hi => byteAt_take (h i hi)

end Access

end Packetia
