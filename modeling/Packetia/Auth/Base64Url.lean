import Packetia.Lib.Bytes

/-!
# Unpadded base64url

The texts of a JWT. `Encode` (`service/Auth/JoinToken.cpp`) takes what `EVP_EncodeBlock` makes of
the bytes, drops its padding and replaces two letters of the alphabet; `DecodeBase64Url`
(`service/Auth/JwtAuthenticator.cpp`) reads six bits with every letter and takes a byte off whenever
it has eight. Its accumulator has 32 bits and is never cleared, but only the bits not taken off
matter (`decodeLoop_group`), so that it gives back what was encoded (`decodeBase64Url_encode`).
-/

namespace Packetia.Auth

open List
open BitVec (ofNat toNat_ofNat)

/-- The bytes of an ASCII text. -/
def ascii (text : String) : List Byte := text.toList.map fun c => ofNat 8 c.toNat

/-! ## Encoding -/

/-- The letters of RFC 4648. -/
def alphabet : List Byte := ascii "ABCDEFGHIJKLMNOPQRSTUVWXYZabcdefghijklmnopqrstuvwxyz0123456789+/"

def letter (v : ℕ) : Byte := alphabet.getD v 0

/-- The padding. -/
def pad : Byte := 61

/-- `EVP_EncodeBlock`. -/
def encodeBlock : List Byte → List Byte
  | a :: b :: c :: rest =>
    letter (a.toNat / 4) :: letter (a.toNat % 4 * 16 + b.toNat / 16) ::
      letter (b.toNat % 16 * 4 + c.toNat / 64) :: letter (c.toNat % 64) :: encodeBlock rest
  | [a, b] =>
    [letter (a.toNat / 4), letter (a.toNat % 4 * 16 + b.toNat / 16), letter (b.toNat % 16 * 4), pad]
  | [a] => [letter (a.toNat / 4), letter (a.toNat % 4 * 16), pad, pad]
  | [] => []

/-- `+` becomes `-`, and `/` becomes `_`. -/
def urlSafe (c : Byte) : Byte := if c = 43 then 45 else if c = 47 then 95 else c

def encode (data : List Byte) : List Byte := ((encodeBlock data).rdropWhile (· = pad)).map urlSafe

/-! ## Decoding -/

/-- The six bits of a letter. -/
def value (c : Byte) : Option ℕ :=
  if 65 ≤ c ∧ c ≤ 90 then some (c.toNat - 65)
  else if 97 ≤ c ∧ c ≤ 122 then some (c.toNat - 97 + 26)
  else if 48 ≤ c ∧ c ≤ 57 then some (c.toNat - 48 + 52)
  else if c = 45 then some 62
  else if c = 95 then some 63
  else none

/-- The loop of `DecodeBase64Url`, with the check behind it. -/
def decodeLoop (bits accumulator : ℕ) (decoded : List Byte) : List Byte → Option (List Byte)
  | [] =>
    if bits = 0 ∨ accumulator &&& (1 <<< bits - 1) = 0 then some decoded else none
  | c :: rest =>
    match value c with
    | none => none
    | some value =>
      let accumulator := (accumulator <<< 6 ||| value) % 2 ^ 32
      if 8 ≤ bits + 6 then
        decodeLoop (bits + 6 - 8) accumulator
          (decoded ++ [ofNat 8 (accumulator >>> (bits + 6 - 8) &&& 0xff)]) rest
      else decodeLoop (bits + 6) accumulator decoded rest

def decodeBase64Url (encoded : List Byte) : Option (List Byte) :=
  if encoded = [] ∨ encoded.length % 4 = 1 then none else decodeLoop 0 0 [] encoded

/-! ## Letters -/

/-- A letter of the result. -/
def urlLetter (v : ℕ) : Byte := urlSafe (letter v)

theorem letter_spec : ∀ v < 64,
    letter v ≠ pad ∧ urlLetter v ≠ 46 ∧ value (urlLetter v) = some v := by
  decide +kernel

theorem rdropWhile_append {l m : List Byte} (h : ∀ c ∈ l, c ≠ pad) :
    (l ++ m).rdropWhile (· = pad) = l ++ m.rdropWhile (· = pad) := by
  have hdrop : l.reverse.dropWhile (· = pad) = l.reverse := by
    refine dropWhile_eq_self_iff.2 fun hl => ?_
    simpa using h _ (mem_reverse.1 (getElem_mem hl))
  rw [rdropWhile, rdropWhile, reverse_append, dropWhile_append]
  split_ifs with hnil
  · rw [hdrop, reverse_reverse, isEmpty_iff.1 hnil, reverse_nil, append_nil]
  · rw [reverse_append, reverse_reverse]

variable {a b c : Byte} {data decoded : List Byte} (accumulator : ℕ) {text : List Byte}

theorem encode_group (rest : List Byte) : encode (a :: b :: c :: rest) =
    [urlLetter (a.toNat / 4), urlLetter (a.toNat % 4 * 16 + b.toNat / 16),
      urlLetter (b.toNat % 16 * 4 + c.toNat / 64), urlLetter (c.toNat % 64)] ++ encode rest := by
  have hne : ∀ x ∈ [letter (a.toNat / 4), letter (a.toNat % 4 * 16 + b.toNat / 16),
      letter (b.toNat % 16 * 4 + c.toNat / 64), letter (c.toNat % 64)], x ≠ pad := by
    simp only [forall_mem_cons, not_mem_nil, false_implies, implies_true, and_true]
    exact ⟨(letter_spec _ (by omega)).1, (letter_spec _ (by omega)).1, (letter_spec _ (by omega)).1,
      (letter_spec _ (by omega)).1⟩
  have heq := rdropWhile_append (m := encodeBlock rest) hne
  rw [encode, encodeBlock]
  exact (congrArg (map urlSafe) heq).trans (map_append ..)

theorem encode_two : encode [a, b] = [urlLetter (a.toNat / 4),
    urlLetter (a.toNat % 4 * 16 + b.toNat / 16), urlLetter (b.toNat % 16 * 4)] := by
  have hne := (letter_spec (b.toNat % 16 * 4) (by omega)).1
  simp [encode, encodeBlock, rdropWhile, hne, urlLetter]

theorem encode_one : encode [a] = [urlLetter (a.toNat / 4), urlLetter (a.toNat % 4 * 16)] := by
  have hne := (letter_spec (a.toNat % 4 * 16) (by omega)).1
  simp [encode, encodeBlock, rdropWhile, hne, urlLetter]

theorem length_encode (data : List Byte) : (encode data).length = (4 * data.length + 2) / 3 := by
  fun_induction encodeBlock data with
  | case1 a b c rest ih =>
    rw [encode_group, length_append, ih]
    simp only [length_cons, length_nil]
    omega
  | case2 a b => simp [encode_two]
  | case3 a => simp [encode_one]
  | case4 => rfl

/-- No letter is a dot. -/
theorem dot_notMem_encode (data : List Byte) : (46 : Byte) ∉ encode data := by
  have hdot : ∀ v < 64, (46 : Byte) ≠ urlLetter v := fun v hv => (letter_spec v hv).2.1.symm
  fun_induction encodeBlock data with
  | case1 a b c rest ih =>
    rw [encode_group]
    simp only [mem_append, mem_cons, not_mem_nil, or_false, not_or]
    exact ⟨⟨hdot _ (by omega), hdot _ (by omega), hdot _ (by omega), hdot _ (by omega)⟩, ih⟩
  | case2 a b =>
    rw [encode_two]
    simp only [mem_cons, not_mem_nil, or_false, not_or]
    exact ⟨hdot _ (by omega), hdot _ (by omega), hdot _ (by omega)⟩
  | case3 a =>
    rw [encode_one]
    simp only [mem_cons, not_mem_nil, or_false, not_or]
    exact ⟨hdot _ (by omega), hdot _ (by omega)⟩
  | case4 => exact not_mem_nil

/-! ## Reading back -/

theorem shiftLeft_or {v : ℕ} (hv : v < 64) : accumulator <<< 6 ||| v = accumulator * 64 + v := by
  rw [← Nat.shiftLeft_add_eq_or_of_lt (by simpa using hv), Nat.shiftLeft_eq]

theorem ofNat_and (n : ℕ) : ofNat 8 (n &&& 255) = ofNat 8 n := by
  have hmod := Nat.and_two_pow_sub_one_eq_mod n 8
  rw [hmod]
  apply BitVec.eq_of_toNat_eq
  simp

/-- A letter brings six bits. -/
theorem decodeLoop_letter {bits v : ℕ} (rest : List Byte) (hv : v < 64) :
    decodeLoop bits accumulator decoded (urlLetter v :: rest) =
      if 2 ≤ bits then
        decodeLoop (bits - 2) ((accumulator * 64 + v) % 2 ^ 32)
          (decoded ++ [ofNat 8 ((accumulator * 64 + v) % 2 ^ 32 / 2 ^ (bits - 2))]) rest
      else decodeLoop (bits + 6) ((accumulator * 64 + v) % 2 ^ 32) decoded rest := by
  have hbits : (8 ≤ bits + 6) = (2 ≤ bits) := by rw [eq_iff_iff]; omega
  rw [decodeLoop, (letter_spec v hv).2.2]
  simp only [shiftLeft_or _ hv, hbits]
  split_ifs with h
  · rw [ofNat_and, Nat.shiftRight_eq_div_pow, show bits + 6 - 8 = bits - 2 by omega]
  · rfl

/-- The bits that are left are zero. -/
theorem decodeLoop_nil (bits accumulator : ℕ) : decodeLoop bits accumulator decoded [] =
    if accumulator % 2 ^ bits = 0 then some decoded else none := by
  rw [decodeLoop, Nat.one_shiftLeft, Nat.and_two_pow_sub_one_eq_mod]
  refine if_congr (or_iff_right_of_imp fun hbits => ?_) rfl rfl
  rw [hbits, pow_zero, Nat.mod_one]

theorem ofNat_eq {n : ℕ} (h : n % 256 = a.toNat) : ofNat 8 n = a :=
  BitVec.eq_of_toNat_eq (by rw [toNat_ofNat]; exact h)

/-- Four letters are three bytes, whatever the accumulator had. -/
theorem decodeLoop_group (decoded rest : List Byte) : ∃ accumulator',
    decodeLoop 0 accumulator decoded ([urlLetter (a.toNat / 4),
      urlLetter (a.toNat % 4 * 16 + b.toNat / 16), urlLetter (b.toNat % 16 * 4 + c.toNat / 64),
      urlLetter (c.toNat % 64)] ++ rest) =
    decodeLoop 0 accumulator' (decoded ++ [a, b, c]) rest := by
  simp only [cons_append, nil_append]
  rw [decodeLoop_letter _ _ (by omega), if_neg (by decide), decodeLoop_letter _ _ (by omega),
    if_pos (by decide), decodeLoop_letter _ _ (by omega), if_pos (by decide),
    decodeLoop_letter _ _ (by omega), if_pos (by decide)]
  refine ⟨_, congrArg (fun l => decodeLoop _ _ l rest) ?_⟩
  rw [append_assoc, append_assoc]
  refine congrArg (decoded ++ ·) ?_
  simp only [cons_append, nil_append]
  congr 1
  · exact ofNat_eq (by omega)
  · congr 1
    · exact ofNat_eq (by omega)
    · congr 1
      exact ofNat_eq (by omega)

theorem decodeLoop_encode (data : List Byte) (accumulator : ℕ) (decoded : List Byte) :
    decodeLoop 0 accumulator decoded (encode data) = some (decoded ++ data) := by
  fun_induction encodeBlock data generalizing accumulator decoded with
  | case1 a b c rest ih =>
    obtain ⟨accumulator', heq⟩ := decodeLoop_group accumulator decoded
      (encode rest)
    rw [encode_group, heq, ih, append_assoc]
    rfl
  | case2 a b =>
    rw [encode_two, decodeLoop_letter _ _ (by omega), if_neg (by decide),
      decodeLoop_letter _ _ (by omega), if_pos (by decide), decodeLoop_letter _ _ (by omega),
      if_pos (by decide), decodeLoop_nil, if_pos (by omega), append_assoc]
    refine congrArg (fun l => some (decoded ++ l)) ?_
    simp only [cons_append, nil_append]
    congr 1
    · exact ofNat_eq (by omega)
    · congr 1
      exact ofNat_eq (by omega)
  | case3 a =>
    rw [encode_one, decodeLoop_letter _ _ (by omega), if_neg (by decide),
      decodeLoop_letter _ _ (by omega), if_pos (by decide), decodeLoop_nil, if_pos (by omega)]
    refine congrArg (fun l => some (decoded ++ l)) ?_
    congr 1
    exact ofNat_eq (by omega)
  | case4 =>
    rw [append_nil]
    exact (decodeLoop_nil 0 accumulator).trans (if_pos (by omega))

theorem decodeBase64Url_encode (h : data ≠ []) : decodeBase64Url (encode data) = some data := by
  have hlen : 0 < data.length := length_pos_iff.2 h
  have hlength := length_encode data
  rw [decodeBase64Url, if_neg, decodeLoop_encode, nil_append]
  rintro (hnil | hmod)
  · rw [hnil, length_nil] at hlength
    omega
  · omega

/-! ## One text for the bytes -/

theorem letter_of_value : ∀ c : Byte, ∀ v ∈ value c, v < 64 ∧ c = urlLetter v := by
  decide +kernel

theorem letters_of_decodeLoop {bits accumulator : ℕ}
    (h : decodeLoop bits accumulator decoded text = some data) :
    ∀ c ∈ text, ∃ v < 64, c = urlLetter v := by
  induction text generalizing bits accumulator decoded with
  | nil => exact nofun
  | cons c text ih =>
    rw [decodeLoop] at h
    split at h
    · cases h
    · rename_i v hv
      refine forall_mem_cons.2 ⟨⟨v, letter_of_value c v hv⟩, ?_⟩
      split_ifs at h
      · exact ih h
      · exact ih h

/-- Four times six bits are those of three bytes. -/
theorem exists_bytes {v w x y : ℕ} (hv : v < 64) (hw : w < 64) (hx : x < 64) (hy : y < 64) :
    ∃ a b c : Byte, v = a.toNat / 4 ∧ w = a.toNat % 4 * 16 + b.toNat / 16 ∧
      x = b.toNat % 16 * 4 + c.toNat / 64 ∧ y = c.toNat % 64 := by
  refine ⟨.ofNat 8 (v * 4 + w / 16), .ofNat 8 (w % 16 * 16 + x / 4), .ofNat 8 (x % 4 * 64 + y), ?_⟩
  simp only [toNat_ofNat]
  omega

/-- What is read is the text of the bytes that were added; the bits left over were checked. -/
theorem encode_of_decodeLoop {accumulator : ℕ} {decoded data : List Byte} :
    ∀ {text : List Byte}, text.length % 4 ≠ 1 → decodeLoop 0 accumulator decoded text = some data →
      ∃ bytes, data = decoded ++ bytes ∧ encode bytes = text
  | [], _, h => ⟨[], by simpa [decodeLoop] using h.symm, rfl⟩
  | [_], hlength, _ => absurd rfl hlength
  | [_, _], _, h => by
    obtain ⟨⟨v, hv, rfl⟩, ⟨w, hw, rfl⟩, -⟩ := by
      simpa only [forall_mem_cons] using letters_of_decodeLoop h
    obtain ⟨a, b, -, rfl, rfl, -, -⟩ := exists_bytes hv hw (by decide : 0 < 64) (by decide : 0 < 64)
    have hread := h
    rw [decodeLoop_letter _ _ hv, if_neg (by decide), decodeLoop_letter _ _ hw, if_pos (by decide),
      decodeLoop_nil] at hread
    split_ifs at hread with hzero
    have htext : encode [a] = [urlLetter (a.toNat / 4),
        urlLetter (a.toNat % 4 * 16 + b.toNat / 16)] := by
      rw [encode_one, show b.toNat / 16 = 0 by omega, add_zero]
    rw [← htext, decodeLoop_encode] at h
    exact ⟨[a], (Option.some.inj h).symm, htext⟩
  | [_, _, _], _, h => by
    obtain ⟨⟨v, hv, rfl⟩, ⟨w, hw, rfl⟩, ⟨x, hx, rfl⟩, -⟩ := by
      simpa only [forall_mem_cons] using letters_of_decodeLoop h
    obtain ⟨a, b, c, rfl, rfl, rfl, -⟩ := exists_bytes hv hw hx (by decide : 0 < 64)
    have hread := h
    rw [decodeLoop_letter _ _ hv, if_neg (by decide), decodeLoop_letter _ _ hw, if_pos (by decide),
      decodeLoop_letter _ _ hx, if_pos (by decide), decodeLoop_nil] at hread
    split_ifs at hread with hzero
    have htext : encode [a, b] = [urlLetter (a.toNat / 4),
        urlLetter (a.toNat % 4 * 16 + b.toNat / 16),
        urlLetter (b.toNat % 16 * 4 + c.toNat / 64)] := by
      rw [encode_two, show c.toNat / 64 = 0 by omega, add_zero]
    rw [← htext, decodeLoop_encode] at h
    exact ⟨[a, b], (Option.some.inj h).symm, htext⟩
  | _ :: _ :: _ :: _ :: text, hlength, h => by
    obtain ⟨⟨v, hv, rfl⟩, ⟨w, hw, rfl⟩, ⟨x, hx, rfl⟩, ⟨y, hy, rfl⟩, -⟩ := by
      simpa only [forall_mem_cons] using letters_of_decodeLoop h
    obtain ⟨a, b, c, rfl, rfl, rfl, rfl⟩ := exists_bytes hv hw hx hy
    obtain ⟨accumulator', hgroup⟩ := decodeLoop_group accumulator decoded
      text
    obtain ⟨bytes, rfl, hbytes⟩ := encode_of_decodeLoop
      (by simp only [length_cons] at hlength; omega) (hgroup.symm.trans h)
    exact ⟨a :: b :: c :: bytes, by simp, by rw [encode_group, hbytes]; rfl⟩

theorem encode_of_decodeBase64Url {text data : List Byte} (h : decodeBase64Url text = some data) :
    encode data = text := by
  rw [decodeBase64Url] at h
  split_ifs at h with htext
  obtain ⟨bytes, rfl, hbytes⟩ := encode_of_decodeLoop (fun hone => htext (.inr hone)) h
  exact hbytes

/-- `decodeLoop` with an accumulator that does not wrap. -/
def decodeWide (bits accumulator : ℕ) (decoded : List Byte) : List Byte → Option (List Byte)
  | [] =>
    if bits = 0 ∨ accumulator &&& (1 <<< bits - 1) = 0 then some decoded else none
  | c :: rest =>
    match value c with
    | none => none
    | some value =>
      let accumulator := accumulator <<< 6 ||| value
      if 8 ≤ bits + 6 then
        decodeWide (bits + 6 - 8) accumulator
          (decoded ++ [ofNat 8 (accumulator >>> (bits + 6 - 8) &&& 0xff)]) rest
      else decodeWide (bits + 6) accumulator decoded rest

/-- Only the low bits of the accumulator matter. -/
theorem decodeLoop_eq_decodeWide {bits n m : ℕ} (hbits : bits < 8)
    (h : n % 2 ^ bits = m % 2 ^ bits) :
    decodeLoop bits n decoded text = decodeWide bits m decoded text := by
  induction text generalizing bits n m decoded with
  | nil =>
    change _ = decodeLoop bits m decoded []
    rw [decodeLoop_nil, decodeLoop_nil, h]
  | cons c text ih =>
    rw [decodeLoop, decodeWide]
    cases hc : value c with
    | none => rfl
    | some v =>
      simp only [shiftLeft_or _ (letter_of_value c v hc).1, ofNat_and, Nat.shiftRight_eq_div_pow]
      split_ifs with htake
      · have hlow : (n * 64 + v) % 2 ^ 32 % 2 ^ (bits + 6 - 8) = (m * 64 + v) % 2 ^ (bits + 6 - 8) ∧
            (n * 64 + v) % 2 ^ 32 / 2 ^ (bits + 6 - 8) % 256 =
              (m * 64 + v) / 2 ^ (bits + 6 - 8) % 256 := by
          interval_cases bits <;> omega
        rw [ih (by omega) hlow.1, ofNat_eq ?_]
        rw [toNat_ofNat]
        exact hlow.2
      · refine ih (by omega) ?_
        interval_cases bits <;> omega

/-- The two directions are inverse to each other, and the accumulator may wrap. -/
theorem base64Url_canonical :
    (∀ data ≠ [], decodeBase64Url (encode data) = some data) ∧
    (∀ text data, decodeBase64Url text = some data → encode data = text) ∧
    (∀ text text' data, decodeBase64Url text = some data → decodeBase64Url text' = some data →
      text = text') ∧
    ∀ text, decodeLoop 0 0 [] text = decodeWide 0 0 [] text := by
  refine ⟨fun data => decodeBase64Url_encode, fun _ _ => encode_of_decodeBase64Url,
    fun text text' data h h' => ?_, fun text => decodeLoop_eq_decodeWide (by decide) rfl⟩
  rw [← encode_of_decodeBase64Url h, ← encode_of_decodeBase64Url h']

end Packetia.Auth
