import Mathlib

/-!
# Texts

Texts are lists of characters, so that a text can be taken apart by recursion. A string literal
stands for its characters.

* `words` splits at white space;
* `decimal` and `decimalInt` write a number, `number` reads one that has digits only;
* `upToFirst` and `afterFirst` are what is before and after the first character that passes a
  test;
* `trim` drops the blanks at both ends, `lower` changes the letters of ASCII.
-/

namespace Packetia

abbrev Text := List Char

instance : Coe String Text := ⟨String.toList⟩

/-! ## Characters -/

variable (c : Char) (p : Char → Bool) (text : Text)

/-- White space, as the classification of the C locale has it. -/
def isSpace : Bool := c = ' ' || c = '\t' || c = '\n' || c = '\r' || c.toNat = 11 || c.toNat = 12

/-- A space or a tab. -/
def isBlank : Bool := c = ' ' || c = '\t'

/-- A control character other than a tab. -/
def isControl : Bool := c.toNat < 32 && c ≠ '\t' || c.toNat = 127

def lowerChar : Char := if 'A' ≤ c ∧ c ≤ 'Z' then Char.ofNat (c.toNat + 32) else c

def lower : Text := text.map lowerChar

/-! ## Parts of a text -/

/-- The text up to the first character that passes the test. -/
def upToFirst : Text := text.takeWhile fun c => !p c

/-- The text from the first character that passes the test. -/
def fromFirst : Text := text.dropWhile fun c => !p c

/-- The text after the first character that passes the test. -/
def afterFirst : Text := (fromFirst p text).tail

def trim : Text := (text.dropWhile isBlank).rdropWhile isBlank

/-- The words of a text. -/
def words : List Text := (text.splitOnP isSpace).filter fun word => word ≠ []

/-! ## Numbers -/

def decimal (n : ℕ) : Text := Nat.toDigits 10 n

def decimalInt : ℤ → Text
  | .ofNat n => decimal n
  | .negSucc n => '-' :: decimal (n + 1)

/-- The number that a text consists of. -/
def number : Option ℕ :=
  if text ≠ [] ∧ text.all Char.isDigit then some (Nat.ofDigitChars 10 text 0) else none

theorem number_decimal (n : ℕ) : number (decimal n) = some n := by
  have hdigits : (Nat.toDigits 10 n).all Char.isDigit = true :=
    List.all_eq_true.2 fun c hc => Nat.isDigit_of_mem_toDigits (by decide) (by decide) hc
  rw [number, decimal, if_pos ⟨Nat.toDigits_ne_nil, hdigits⟩,
    Nat.ofDigitChars_toDigits (by decide) (by decide)]

end Packetia
