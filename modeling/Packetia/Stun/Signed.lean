import Packetia.Stun.Frames

/-!
# The signed part of a message

MESSAGE-INTEGRITY covers the bytes before it, apart from the length in the header, which counts
what follows as well. What follows can be replaced by anyone on the way. `signed` cuts it off: a
function of the message that gives the same on `msg.signed` as on `msg` cannot see it.

Two messages with the same bytes up to the end of MESSAGE-INTEGRITY, apart from the length, have
the same signed part (`signed_eq`), although their attributes are read from bytes that differ.
-/

namespace Packetia.Stun

open List Option AttrType

variable {p p' : List Byte} {stop stop' off e : ℕ} {l l' : List AttrView} {t : BitVec 16}
  {mi : AttrView}

/-! ## Attributes -/

/-- The attributes up to MESSAGE-INTEGRITY, which is the last of them. -/
def throughIntegrity : List AttrView → List AttrView
  | [] => []
  | a :: rest =>
    if a.type = messageIntegrity.code then [a] else a :: throughIntegrity rest

/-- Where these attributes end, if what is before them ends at `e`. -/
def signedEnd (e : ℕ) : List AttrView → ℕ
  | [] => e
  | a :: rest =>
    if a.type = messageIntegrity.code then a.valueOffset + a.len.toNat
    else signedEnd (a.valueOffset + a.len.toNat) rest

theorem signedEnd_throughIntegrity (e : ℕ) (l : List AttrView) :
    signedEnd e (throughIntegrity l) = signedEnd e l := by
  induction l generalizing e with
  | nil => rfl
  | cons a rest ih =>
    by_cases h : a.type = messageIntegrity.code <;> simp [throughIntegrity, h, signedEnd, ih]

theorem throughIntegrity_sublist (l : List AttrView) : (throughIntegrity l).Sublist l := by
  induction l with
  | nil => exact List.Sublist.slnil
  | cons a rest ih =>
    rw [throughIntegrity]
    split_ifs
    · exact (nil_sublist rest).cons_cons a
    · exact ih.cons_cons a

/-- `FindAttr` does not look behind MESSAGE-INTEGRITY. -/
theorem findIn_throughIntegrity (ht : t ≠ fingerprint.code) :
    findIn t (throughIntegrity l) = findIn t l := by
  induction l with
  | nil => rfl
  | cons a rest ih =>
    rw [throughIntegrity]
    split_ifs with h
    · simp [findIn, h, ht]
    · rw [findIn, findIn, ih]

theorem mem_throughIntegrity_of_findIn {a : AttrView} (ht : t ≠ fingerprint.code)
    (h : findIn t l = some a) : a ∈ throughIntegrity l := by
  induction l with
  | nil => cases h
  | cons b rest ih =>
    rw [findIn] at h
    rw [throughIntegrity]
    split_ifs at h with htype hb
    · cases h
      split_ifs <;> exact mem_cons_self
    · rw [if_neg fun hmi => hb ⟨hmi, ht⟩]
      exact mem_cons_of_mem _ (ih h)

/-- The values up to MESSAGE-INTEGRITY lie between `off` and the end of the signed part. -/
theorem Tiles.signedEnd (h : Tiles p stop off l) (he : e ≤ off) :
    e ≤ signedEnd e l ∧ Stun.signedEnd e l ≤ stop ∧ ∀ a ∈ throughIntegrity l,
      off + kAttrHeaderSize ≤ a.valueOffset ∧ a.valueOffset + a.len.toNat ≤ Stun.signedEnd e l := by
  induction l generalizing off e with
  | nil => exact ⟨le_refl _, he.trans (le_of_eq h), nofun⟩
  | cons b rest ih =>
    obtain ⟨-, -, hvalue, hrest⟩ := h
    have hpad := le_pad4 b.len.toNat
    have hle := hrest.le
    rw [Stun.signedEnd, throughIntegrity]
    split_ifs
    · refine ⟨by omega, by omega, fun a ha => ?_⟩
      rw [mem_singleton.1 ha]
      omega
    · obtain ⟨hlow, hhigh, hvalues⟩ := ih hrest (e := b.valueOffset + b.len.toNat) (by omega)
      refine ⟨by omega, hhigh, fun a ha => ?_⟩
      rcases mem_cons.1 ha with rfl | ha
      · omega
      · have := hvalues a ha
        omega

/-- The signed part ends with the first MESSAGE-INTEGRITY. -/
theorem Tiles.signedEnd_le (h : Tiles p stop off l) (hmi : mi ∈ l)
    (htype : mi.type = messageIntegrity.code) :
    Stun.signedEnd e l ≤ mi.valueOffset + mi.len.toNat ∧
      off + kAttrHeaderSize ≤ mi.valueOffset := by
  induction l generalizing off e with
  | nil => cases hmi
  | cons b rest ih =>
    obtain ⟨-, -, hvalue, hrest⟩ := h
    have hpad := le_pad4 b.len.toNat
    rw [Stun.signedEnd]
    rcases mem_cons.1 hmi with rfl | hmi
    · rw [if_pos htype]
      omega
    · obtain ⟨hend, hoff⟩ := ih hrest (e := b.valueOffset + b.len.toNat) hmi
      split_ifs
      · omega
      · omega

/-- Bytes that agree up to the end of a MESSAGE-INTEGRITY give the same attributes up to the
    first one: each attribute says where the next begins. -/
theorem Tiles.throughIntegrity_eq (h : Tiles p stop off l) (h' : Tiles p' stop' off l')
    (hmi : mi ∈ l) (htype : mi.type = messageIntegrity.code)
    (hstop : mi.valueOffset + mi.len.toNat ≤ stop')
    (hbytes : ∀ i, off ≤ i → i < mi.valueOffset + mi.len.toNat → byteAt p i = byteAt p' i) :
    throughIntegrity l = throughIntegrity l' := by
  induction l generalizing off l' with
  | nil => cases hmi
  | cons a rest ih =>
    have hoff := (h.signedEnd_le (e := 0) hmi htype).2
    rw [kAttrHeaderSize] at hoff
    cases l' with
    | nil =>
      have hstop' : off = stop' := h'
      omega
    | cons a' rest' =>
      obtain ⟨hatype, halen, havalue, hrest⟩ := h
      obtain ⟨hatype', halen', havalue', hrest'⟩ := h'
      have hu16 : ∀ i, off ≤ i → i + 1 < off + 4 → u16At p i = u16At p' i := fun i hi hi' => by
        rw [u16At, u16At, hbytes i hi (by omega), hbytes (i + 1) (by omega) (by omega)]
      have ha : a = a' := by
        cases a
        cases a'
        simp only [AttrView.mk.injEq] at *
        exact ⟨by rw [hatype, hatype', hu16 off (le_refl _) (by omega)],
          by rw [halen, halen', hu16 (off + 2) (by omega) (by omega)], by rw [havalue, havalue']⟩
      subst ha
      rw [throughIntegrity, throughIntegrity]
      split_ifs with hfirst
      · rfl
      · have hmi' : mi ∈ rest := (mem_cons.1 hmi).resolve_left fun heq => hfirst (heq ▸ htype)
        rw [ih hrest hrest' hmi' fun i hi => hbytes i (by omega)]

/-! ## Messages -/

namespace StunMessageInfo

variable (msg : StunMessageInfo)

/-- The size of the signed part. -/
def signedSize : ℕ := signedEnd kHeaderSize msg.attrs

/-- The message without what follows MESSAGE-INTEGRITY, with zero for its length. -/
def signed : StunMessageInfo :=
  { msg with
    length := 0
    attrs := throughIntegrity msg.attrs
    raw := overwrite (msg.raw.take msg.signedSize) 2 [0, 0] }

/-- The bytes of the message hold its signed part, behind a header. -/
structure Framed : Prop where
  header : kHeaderSize ≤ msg.signedSize
  size : msg.signedSize ≤ msg.raw.length
  value : ∀ a ∈ throughIntegrity msg.attrs,
    kHeaderSize + kAttrHeaderSize ≤ a.valueOffset ∧ a.valueOffset + a.len.toNat ≤ msg.signedSize

theorem framed_of_parse {msg : StunMessageInfo} (h : parse p = some msg) : msg.Framed := by
  obtain ⟨hstun, htiles, hmsg⟩ := parse_eq_some.1 h
  obtain ⟨hlow, hhigh, hvalue⟩ := htiles.signedEnd (le_refl _)
  have hraw : msg.raw = p.take (kHeaderSize + (u16At p 2).toNat) := congrArg (·.raw) hmsg
  have hlen : msg.raw.length = kHeaderSize + (u16At p 2).toNat := by
    rw [hraw, length_take]
    exact Nat.min_eq_left (Nat.le_of_not_lt hstun.2.2.2.2)
  exact ⟨hlow, hlen ▸ hhigh, hvalue⟩

variable {msg} {a : AttrView}

namespace Framed

section

variable (h : msg.Framed)
include h

theorem length_signed : msg.signed.raw.length = msg.signedSize := by
  have hheader := h.header
  have hsize := h.size
  rw [kHeaderSize] at hheader
  have hlen : (msg.raw.take msg.signedSize).length = msg.signedSize := by
    rw [length_take]
    omega
  rw [signed]
  rw [length_overwrite, hlen]
  rw [hlen, length_cons, length_singleton]
  omega

/-- The bytes of the signed part, but for the length in the header. -/
theorem byteAt_signed {i : ℕ} (hi : 4 ≤ i) (hi' : i < msg.signedSize) :
    byteAt msg.signed.raw i = byteAt msg.raw i := by
  have hsize := h.size
  rw [signed]
  rw [byteAt_overwrite_ge, byteAt_take hi']
  · rw [length_take, length_cons, length_singleton]
    omega
  · rwa [length_cons, length_singleton]

section

variable (ha : a ∈ throughIntegrity msg.attrs) {i : ℕ}
include ha

/-- The bytes of a value. -/
theorem byteAt_value (hi : i < a.len.toNat) :
    byteAt msg.signed.raw (a.valueOffset + i) = byteAt msg.raw (a.valueOffset + i) := by
  obtain ⟨hlow, hhigh⟩ := h.value a ha
  rw [kAttrHeaderSize] at hlow
  exact h.byteAt_signed (by omega) (by omega)

theorem u16At_value (hi : i + 2 ≤ a.len.toNat) :
    u16At msg.signed.raw (a.valueOffset + i) = u16At msg.raw (a.valueOffset + i) := by
  rw [u16At, u16At, h.byteAt_value ha (by omega), Nat.add_assoc, h.byteAt_value ha (by omega)]

theorem u32At_value (hi : i + 4 ≤ a.len.toNat) :
    u32At msg.signed.raw (a.valueOffset + i) = u32At msg.raw (a.valueOffset + i) := by
  rw [u32At, u32At, h.u16At_value ha (by omega), Nat.add_assoc, h.u16At_value ha (by omega)]

theorem u64At_value (hi : 8 ≤ a.len.toNat) :
    u64At msg.signed.raw a.valueOffset = u64At msg.raw a.valueOffset := by
  have h₀ := h.u32At_value ha (i := 0) (by omega)
  rw [Nat.add_zero] at h₀
  rw [u64At, u64At, h₀, h.u32At_value ha (by omega)]

theorem inBounds : msg.IsAttrInBounds a := by
  have hvalue := (h.value a ha).2
  have hsize := h.size
  exact ⟨by omega, by omega⟩

theorem inBounds_signed : msg.signed.IsAttrInBounds a := by
  have hvalue := (h.value a ha).2
  rw [IsAttrInBounds, h.length_signed]
  omega

theorem attrValue_signed : msg.signed.attrValue a = msg.attrValue a := by
  have hin := h.inBounds ha
  have hin' := h.inBounds_signed ha
  rw [attrValue, attrValue, if_neg hin.2, if_neg hin'.2]
  have hlen : ∀ raw : List Byte, ¬a.valueOffset + a.len.toNat > raw.length →
      ((raw.drop a.valueOffset).take a.len.toNat).length = a.len.toNat := fun raw hraw => by
    rw [length_take, length_drop]
    omega
  refine eq_of_byteAt (by rw [hlen _ hin.2, hlen _ hin'.2]) fun i hi => ?_
  rw [hlen _ hin'.2] at hi
  rw [byteAt_take hi, byteAt_take hi, byteAt_drop, byteAt_drop, h.byteAt_value ha hi]

end

end

theorem findAttr_signed {t : AttrType} (ht : t ≠ .fingerprint) :
    msg.signed.findAttr t = msg.findAttr t :=
  findIn_throughIntegrity (by cases t <;> first | exact absurd rfl ht | decide)

theorem mem_of_findAttr {t : AttrType} (ht : t ≠ .fingerprint) (hfind : msg.findAttr t = some a) :
    a ∈ throughIntegrity msg.attrs :=
  mem_throughIntegrity_of_findIn (by cases t <;> first | exact absurd rfl ht | decide) hfind

theorem hasAttr_signed {t : AttrType} (ht : t ≠ .fingerprint) :
    msg.signed.hasAttr t = msg.hasAttr t := by
  rw [hasAttr, hasAttr, findAttr_signed ht]

end Framed

/-- The signed part of a message is read off the bytes up to the end of a MESSAGE-INTEGRITY, but
    for the length in the header. -/
theorem signed_eq {msg' : StunMessageInfo} {mi : AttrView} (h : parse p = some msg)
    (h' : parse p' = some msg') (hmi : mi ∈ msg.attrs) (htype : mi.type = messageIntegrity.code)
    (hlen : mi.valueOffset + mi.len.toNat ≤ msg'.raw.length)
    (hbytes : ∀ i < mi.valueOffset + mi.len.toNat, i ≠ 2 → i ≠ 3 → byteAt p i = byteAt p' i) :
    msg.signed = msg'.signed := by
  have hframed := framed_of_parse h
  have hframed' := framed_of_parse h'
  obtain ⟨hstun, htiles, hmsg⟩ := parse_eq_some.1 h
  obtain ⟨hstun', htiles', hmsg'⟩ := parse_eq_some.1 h'
  have hraw : msg.raw = p.take (kHeaderSize + (u16At p 2).toNat) := congrArg (·.raw) hmsg
  have hraw' : msg'.raw = p'.take (kHeaderSize + (u16At p' 2).toNat) := congrArg (·.raw) hmsg'
  obtain ⟨hend, hoff⟩ := htiles.signedEnd_le hmi htype
  rw [kAttrHeaderSize, kHeaderSize] at hoff
  -- The attributes, and with them where the signed part ends.
  have hattrs : throughIntegrity msg.attrs = throughIntegrity msg'.attrs := by
    refine htiles.throughIntegrity_eq htiles' hmi htype ?_ fun i hi hi' =>
      hbytes i hi' (by rw [kHeaderSize] at hi; omega) (by rw [kHeaderSize] at hi; omega)
    refine hlen.trans ?_
    rw [hraw', length_take]
    exact Nat.min_le_left _ _
  have hsize : msg.signedSize = msg'.signedSize := by
    rw [signedSize, signedSize, ← signedEnd_throughIntegrity, hattrs, signedEnd_throughIntegrity]
  have hle : msg.signedSize ≤ mi.valueOffset + mi.len.toNat := hend
  -- The fields of the header.
  have hu16 : ∀ i, i + 1 < 2 ∨ 4 ≤ i ∧ i + 1 < 20 → u16At p i = u16At p' i := fun i hi => by
    rw [u16At, u16At, hbytes i (by omega) (by omega) (by omega),
      hbytes (i + 1) (by omega) (by omega) (by omega)]
  have htypeRaw : u16At p 0 = u16At p' 0 := hu16 0 (.inl (by omega))
  have hcookie : u32At p 4 = u32At p' 4 := by
    rw [u32At, u32At, hu16 4 (.inr (by omega)), hu16 (4 + 2) (.inr (by omega))]
  have htxid : octetsAt p 8 12 = octetsAt p' 8 12 := by
    rw [octetsAt, octetsAt, Subtype.mk.injEq]
    refine congrArg ofFn (funext fun j => ?_)
    exact hbytes _ (by omega) (by omega) (by omega)
  -- The bytes, of which the two of the length have been overwritten.
  have hbyte : ∀ i < msg.signedSize, i ≠ 2 → i ≠ 3 → byteAt msg.raw i = byteAt msg'.raw i := by
    intro i hi h₂ h₃
    have hin := hframed.size
    have hin' := hframed'.size
    rw [← hsize, hraw', length_take] at hin'
    rw [hraw, length_take] at hin
    rw [hraw, hraw', byteAt_take (by omega), byteAt_take (by omega), hbytes i (by omega) h₂ h₃]
  have hsigned : msg.signed.raw = msg'.signed.raw := by
    refine eq_of_byteAt (by rw [hframed.length_signed, hframed'.length_signed, hsize])
      fun i hi => ?_
    rw [hframed.length_signed] at hi
    have hheader := hframed.header
    have hin := hframed.size
    rw [kHeaderSize] at hheader
    have htake : 2 ≤ (msg.raw.take msg.signedSize).length := by rw [length_take]; omega
    have htake' : 2 ≤ (msg'.raw.take msg'.signedSize).length := by rw [length_take]; omega
    rcases lt_or_ge i 4 with hlt | hge
    · rw [signed, signed]
      rcases lt_or_ge i 2 with hlt' | hge'
      · rw [byteAt_overwrite_lt htake hlt', byteAt_overwrite_lt htake' hlt', byteAt_take hi,
          byteAt_take (hsize ▸ hi), hbyte i hi (by omega) (by omega)]
      · obtain ⟨j, rfl⟩ := Nat.exists_eq_add_of_le hge'
        have hj : j < [(0 : Byte), 0].length := by simp; omega
        rw [byteAt_overwrite htake hj, byteAt_overwrite htake' hj]
    · rw [hframed.byteAt_signed hge hi, hframed'.byteAt_signed hge (hsize ▸ hi),
        hbyte i hi (by omega) (by omega)]
  rw [signed, signed, mk.injEq]
  refine ⟨?_, rfl, ?_, ?_, ?_, ?_, hattrs, hsigned⟩ <;> rw [hmsg, hmsg']
  exacts [htypeRaw, hcookie, htxid, congrArg decodeMethod htypeRaw, congrArg decodeClass htypeRaw]

end StunMessageInfo

/-! ## Decoding -/

section Decoding

open StunMessageInfo Framed

variable {msg : StunMessageInfo}

section

variable (h : msg.Framed)
include h

theorem decodeUsername_signed : decodeUsername msg.signed = decodeUsername msg := by
  rw [decodeUsername, decodeUsername, findAttr_signed (by decide)]
  cases hfind : msg.findAttr .username with
  | none => rfl
  | some a =>
    have ha := mem_of_findAttr (by decide) hfind
    simp [h.inBounds ha, h.inBounds_signed ha, h.attrValue_signed ha]

theorem decodePriority_signed : decodePriority msg.signed = decodePriority msg := by
  rw [decodePriority, decodePriority, findAttr_signed (by decide)]
  cases hfind : msg.findAttr .priority with
  | none => rfl
  | some a =>
    have ha := mem_of_findAttr (by decide) hfind
    by_cases hlen : a.len = 4#16
    · have hvalue := h.u32At_value ha (i := 0) (by rw [hlen]; decide)
      rw [Nat.add_zero] at hvalue
      simp [h.inBounds ha, h.inBounds_signed ha, hvalue]
    · simp [hlen]

theorem decodeRole_signed {t : AttrType} (ht : t ≠ .fingerprint) :
    decodeRole t msg.signed = decodeRole t msg := by
  rw [decodeRole, decodeRole, findAttr_signed ht]
  cases hfind : msg.findAttr t with
  | none => rfl
  | some a =>
    have ha := mem_of_findAttr ht hfind
    by_cases hlen : a.len = 8#16
    · have hvalue := h.u64At_value ha (by rw [hlen]; decide)
      simp [h.inBounds ha, h.inBounds_signed ha, hvalue]
    · simp [hlen]

end

/-- MESSAGE-INTEGRITY is about the signed part. -/
theorem verifyMessageIntegrity_signed (hmac : Hmac)
    (h : msg.Framed) (key : List Byte) :
    verifyMessageIntegrity hmac msg.signed key = verifyMessageIntegrity hmac msg key := by
  rw [verifyMessageIntegrity, verifyMessageIntegrity, findAttr_signed (by decide)]
  cases hfind : msg.findAttr .messageIntegrity with
  | none => rfl
  | some a =>
    have ha := mem_of_findAttr (by decide) hfind
    by_cases hlen : a.len = 20#16
    · have hvalue := h.attrValue_signed ha
      have hin := h.inBounds ha
      have hin' := h.inBounds_signed ha
      have hplace := h.value a ha
      have hsize := h.size
      have hlen' : a.len.toNat = 20 := by rw [hlen]; rfl
      rw [attrValue, attrValue, if_neg hin.2, if_neg hin'.2, hlen'] at hvalue
      rw [kHeaderSize, kAttrHeaderSize, hlen'] at hplace
      have htext : ∀ new : List Byte, new.length = 2 →
          overwrite (msg.signed.raw.take (a.valueOffset - kAttrHeaderSize)) 2 new =
            overwrite (msg.raw.take (a.valueOffset - kAttrHeaderSize)) 2 new := by
        intro new hnew
        rw [signed, kAttrHeaderSize]
        rw [overwrite_take_overwrite (by rw [hnew]; rfl) (by omega)
          (by rw [length_take]; omega), take_take, Nat.min_eq_left (by omega)]
      have hroom : a.valueOffset - kAttrHeaderSize + kAttrHeaderSize + 20 ≤ msg.raw.length := by
        rw [kAttrHeaderSize]
        omega
      have hroom' : a.valueOffset - kAttrHeaderSize + kAttrHeaderSize + 20 ≤
          msg.signed.raw.length := by
        rw [kAttrHeaderSize, h.length_signed]
        omega
      simp [hin, hin', hlen, hvalue, htext, u16Bytes, hroom, hroom']
    · simp [hlen]

/-- An address is read off the value of its attribute. -/
theorem decodeXorAddress_signed (h : msg.Framed) {a : AttrView}
    (ha : a ∈ throughIntegrity msg.attrs) (t : AttrType) :
    decodeXorAddress { msg.signed with attrs := [a] } t =
      decodeXorAddress { msg with attrs := [a] } t := by
  have hbounds : StunMessageInfo.IsAttrInBounds { msg.signed with attrs := [a] } a :=
    h.inBounds_signed ha
  have hbounds' : StunMessageInfo.IsAttrInBounds { msg with attrs := [a] } a := h.inBounds ha
  have hfind : findAttr { msg.signed with attrs := [a] } t =
    findAttr { msg with attrs := [a] } t := rfl
  have hmask : addressMask msg.signed.txid = addressMask msg.txid := rfl
  rw [decodeXorAddress, decodeXorAddress, hfind]
  cases hattr : findAttr { msg with attrs := [a] } t with
  | none => rfl
  | some b =>
    obtain rfl : a = b := by
      rw [findAttr, findIn, findIn] at hattr
      split_ifs at hattr
      exact some.inj hattr
    simp only [bind_eq_bind, bind_some, hbounds, hbounds', hmask]
    by_cases hlen : a.len.toNat < 4
    · simp [hlen]
    rw [h.u16At_value ha (by omega), h.byteAt_value ha (by omega)]
    -- Each family has its own length, which is checked before the address is read.
    have hip : ∀ n, a.len.toNat = n + 4 → ∀ i < n,
        byteAt msg.signed.raw (a.valueOffset + 4 + i) = byteAt msg.raw (a.valueOffset + 4 + i) :=
      fun n hn i hi => by
        rw [Nat.add_assoc, h.byteAt_value ha (by omega)]
    split_ifs
    · by_cases hlen : a.len = 8#16
      · have hip' := hip 4 (by rw [hlen]; rfl)
        simp +contextual [hlen, hip']
      · simp [hlen]
    · by_cases hlen : a.len = 20#16
      · have hip' := hip 16 (by rw [hlen]; rfl)
        simp [hlen, hip']
      · simp [hlen]
    · rfl

end Decoding

end Packetia.Stun
