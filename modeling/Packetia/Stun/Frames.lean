import Packetia.Stun.Message

/-!
# STUN messages as frames

What `BuildMessage` writes is a frame: a header with the length of the body, and the attributes
one after the other (`buildMessage_eq`). `Parse` reads attributes that tile the body
(`parse_eq_some`), so it finds in a frame the attributes it was made of (`parse_frame`).
-/

namespace Packetia.Stun

open List Option
open BitVec (getLsbD_and getLsbD_or getLsbD_ushiftRight ofNat)

variable {p pre post : List Byte} {i n off stop : ℕ} {l : List AttrView}
  {attributes : List StunAttribute} (method : StunMethod) (klass : StunClass)
  {msg : StunMessageInfo}

/-! ## The type -/

/-- The bits of a type that has been put together. -/
theorem getLsbD_encodeType (hi : i < 16) :
    (encodeType method klass).getLsbD i =
      if i < 4 then method.getLsbD i
      else if i = 4 then klass.code.getLsbD 0
      else if i < 8 then method.getLsbD (i - 1)
      else if i = 8 then klass.code.getLsbD 1
      else if i < 14 then method.getLsbD (i - 2)
      else false := by
  simp only [encodeType, getLsbD_or, getLsbD_and, BitVec.getLsbD_shiftLeft, getLsbD_ushiftRight]
  interval_cases i <;> simp

theorem decodeMethod_encodeType {method : StunMethod} (h : method.toNat ≤ 0x0FFF)
    (klass : StunClass) : decodeMethod (encodeType method klass) = method := by
  have hhigh : ∀ i, 12 ≤ i → method.getLsbD i = false := fun i hi => by
    exact Nat.testBit_lt_two_pow
      (lt_of_lt_of_le (Nat.lt_succ_of_le h) (Nat.pow_le_pow_right Nat.two_pos hi))
  refine BitVec.eq_of_getLsbD_eq fun i hi => ?_
  simp only [decodeMethod, getLsbD_or, getLsbD_and, getLsbD_ushiftRight]
  interval_cases i <;> simp (disch := decide) only [getLsbD_encodeType, hhigh] <;> simp

theorem decodeClass_encodeType : decodeClass (encodeType method klass) = klass := by
  have hbit : ∀ x : BitVec 16, x &&& 0x1 = 0 ↔ x.getLsbD 0 = false := fun x => by
    have h := and_one_shiftLeft_ne_zero (x := x) (i := 0) (by decide)
    rw [BitVec.shiftLeft_zero, ne_eq, ← Bool.not_eq_false] at h
    exact not_iff_not.1 h
  simp only [decodeClass, hbit, getLsbD_ushiftRight]
  simp (disch := decide) only [getLsbD_encodeType]
  cases klass <;> simp [StunClass.code]

/-- The first two bits of a message are zero. -/
theorem encodeType_high : (encodeType method klass).extractLsb' 8 8 &&& 0xC0 = 0 := by
  refine BitVec.eq_of_getLsbD_eq fun i hi => ?_
  simp only [getLsbD_and, BitVec.getLsbD_extractLsb']
  interval_cases i <;> simp (disch := decide) only [getLsbD_encodeType] <;> simp

/-! ## Tiles -/

/-- The attributes fill the bytes from `off` to `stop`, each with its type and its length as they
    are read and its value padded to a multiple of four bytes. -/
def Tiles (p : List Byte) (stop : ℕ) : ℕ → List AttrView → Prop
  | off, [] => off = stop
  | off, a :: rest => a.type = u16At p off ∧ a.len = u16At p (off + 2) ∧
      a.valueOffset = off + kAttrHeaderSize ∧
      Tiles p stop (off + kAttrHeaderSize + pad4 a.len.toNat) rest

theorem Tiles.le (h : Tiles p stop off l) : off ≤ stop := by
  induction l generalizing off with
  | nil => exact le_of_eq h
  | cons a rest ih => exact le_trans (by omega) (ih h.2.2.2)

/-- The values lie within the bytes, and begin at a multiple of four if the first does. -/
theorem Tiles.value (h : Tiles p stop off l) (hoff : off % 4 = 0) :
    ∀ a ∈ l, a.valueOffset % 4 = 0 ∧ a.valueOffset + a.len.toNat ≤ stop := by
  induction l generalizing off with
  | nil => exact nofun
  | cons b rest ih =>
    obtain ⟨-, -, hvalue, hrest⟩ := h
    have hmod := pad4_mod b.len.toNat
    rw [kAttrHeaderSize] at hvalue hrest
    intro a ha
    rcases mem_cons.1 ha with rfl | ha
    · have hle := hrest.le
      have hpad := le_pad4 a.len.toNat
      exact ⟨by omega, by omega⟩
    · exact ih hrest (by omega) a ha

/-- The loop of `Parse` reads tiles. -/
theorem parseAttrs_eq_some (hn : stop ≤ off + 4 * n) :
    parseAttrs p stop n off = some l ↔ Tiles p stop off l := by
  induction n generalizing off l with
  | zero =>
    rw [parseAttrs]
    cases l with
    | nil => simp [Tiles]
    | cons a rest =>
      refine ⟨fun h => by split_ifs at h; simp at h, fun h => ?_⟩
      have hle := h.2.2.2.le
      rw [kAttrHeaderSize] at hle
      omega
  | succ n ih =>
    rw [parseAttrs]
    dsimp only
    cases l with
    | nil =>
      rw [Tiles]
      split_ifs with h₁ h₂ h₃ h₄ <;> simp <;> omega
    | cons a rest =>
      have hlen : ∀ rest', Tiles p stop off (a :: rest') →
          off + kAttrHeaderSize + pad4 (u16At p (off + 2)).toNat ≤ stop := fun rest' h => by
        rw [← h.2.1]
        exact h.2.2.2.le
      rw [kAttrHeaderSize] at hlen
      split_ifs with h₁ h₂ h₃ h₄
      rotate_left 2
      · rw [map_eq_some_iff]
        constructor
        · rintro ⟨rest', hrest', heq⟩
          obtain ⟨rfl, rfl⟩ := cons.inj heq
          exact ⟨rfl, rfl, rfl, (ih (by rw [kAttrHeaderSize]; omega)).1 hrest'⟩
        · rintro ⟨htype, hlen', hvalue, hrest⟩
          rw [hlen'] at hrest
          refine ⟨rest, (ih (by rw [kAttrHeaderSize]; omega)).2 hrest, ?_⟩
          cases a
          simp_all
      all_goals
        refine ⟨fun h => by simp at h, fun h => ?_⟩
        have := hlen _ h
        have hsize : kAttrHeaderSize = 4 := rfl
        omega

/-- What `Parse` accepts, and what it gives. -/
theorem parse_eq_some : parse p = some msg ↔ IsStun p ∧
    Tiles p (kHeaderSize + (u16At p 2).toNat) kHeaderSize msg.attrs ∧
    msg = {
      typeRaw := u16At p 0
      length := u16At p 2
      magicCookie := u32At p 4
      txid := octetsAt p 8 12
      method := decodeMethod (u16At p 0)
      klass := decodeClass (u16At p 0)
      attrs := msg.attrs
      raw := p.take (kHeaderSize + (u16At p 2).toNat) } := by
  rw [parse]
  split_ifs with hstun
  · simp only [map_eq_some_iff, parseAttrs_eq_some
      (show kHeaderSize + (u16At p 2).toNat ≤ kHeaderSize + 4 * (kHeaderSize + (u16At p 2).toNat) by
        omega), hstun, true_and]
    constructor
    · rintro ⟨l, hl, rfl⟩
      exact ⟨hl, rfl⟩
    · rintro ⟨hl, hmsg⟩
      exact ⟨msg.attrs, hl, hmsg.symm⟩
  · simp [hstun]

/-! ## Frames -/

/-- A message with the given body; `len` is the length in its header. -/
def frame (type len : BitVec 16) (txid : TxId) (body : List Byte) : List Byte :=
  u16Bytes type ++ u16Bytes len ++ u32Bytes kMagicCookie ++ txid.1 ++ body

/-- An attribute as it is written. -/
def encodeAttr (attr : StunAttribute) : List Byte :=
  u16Bytes attr.type ++ u16Bytes (ofNat 16 attr.value.length) ++ attr.value ++
    List.replicate (pad4 attr.value.length - attr.value.length) 0

def encodeAttrs (attributes : List StunAttribute) : List Byte := attributes.flatMap encodeAttr

section Frame

variable (type len : BitVec 16) (txid : TxId) (body : List Byte)

theorem length_frame : (frame type len txid body).length = kHeaderSize + body.length := by
  simp [frame, u16Bytes, u32Bytes, txid.2, kHeaderSize]
  omega

theorem frame_append (rest : List Byte) :
    frame type len txid body ++ rest = frame type len txid (body ++ rest) := by
  rw [frame, frame, append_assoc _ body]

theorem take_frame (rest : List Byte) :
    (frame type len txid (body ++ rest)).take (kHeaderSize + body.length)
      = frame type len txid body := by
  rw [← frame_append, ← length_frame type len txid body, take_left]

theorem updateMessageLength_frame (h : body.length ≤ 0xFFFF) :
    updateMessageLength (frame type len txid body)
      = some (frame type (ofNat 16 body.length) txid body) := by
  have hlength := length_frame type len txid body
  rw [updateMessageLength, if_neg (by omega), if_neg (by omega), hlength, Nat.add_sub_cancel_left]
  rfl

theorem length_encodeAttr (attr : StunAttribute) :
    (encodeAttr attr).length = kAttrHeaderSize + pad4 attr.value.length := by
  have hle := le_pad4 attr.value.length
  simp [encodeAttr, u16Bytes, kAttrHeaderSize]
  omega

theorem length_encodeAttrs_mod (attributes : List StunAttribute) :
    (encodeAttrs attributes).length % 4 = 0 := by
  induction attributes with
  | nil => rfl
  | cons attr rest ih =>
    have hpad := pad4_mod attr.value.length
    rw [encodeAttrs, flatMap_cons, length_append, length_encodeAttr, kAttrHeaderSize]
    rw [encodeAttrs] at ih
    omega

theorem toNat_length {value : List Byte} (h : value.length ≤ 0xFFFF) :
    (ofNat 16 value.length).toNat = value.length := by
  rw [BitVec.toNat_ofNat, Nat.mod_eq_of_lt (by omega)]

theorem appendAttr_eq (out : List Byte) {attr : StunAttribute} (h : attr.value.length ≤ 0xFFFF) :
    appendAttr out attr.type attr.value (ofNat 16 attr.value.length)
      = out ++ encodeAttr attr := by
  rw [appendAttr, encodeAttr, toNat_length h, take_length]

theorem appendAttrs_eq (out : List Byte) {attributes : List StunAttribute}
    (h : ∀ attr ∈ attributes, attr.value.length ≤ 0xFFFF) :
    appendAttrs out attributes = out ++ encodeAttrs attributes := by
  induction attributes generalizing out with
  | nil => simp [appendAttrs, encodeAttrs]
  | cons attr rest ih =>
    rw [appendAttrs, foldl_cons, appendAttr_eq _ (h attr mem_cons_self)]
    have := ih (out ++ encodeAttr attr) fun a ha => h a (mem_cons_of_mem _ ha)
    rw [appendAttrs] at this
    rw [this, append_assoc, encodeAttrs, encodeAttrs, flatMap_cons]

/-! ## What the builder adds -/

variable (hmac : Hmac) (key : List Byte)

/-- MESSAGE-INTEGRITY behind the given body. -/
def integrityAttr : StunAttribute where
  type := AttrType.messageIntegrity.code
  value := (hmac key (frame type (ofNat 16 (body.length + 24)) txid body)).1

/-- FINGERPRINT behind the given body. -/
def fingerprintAttr : StunAttribute where
  type := AttrType.fingerprint.code
  value := u32Bytes (computeFingerprint
    (frame type (ofNat 16 (body.length + 8)) txid body))

/-- The attributes that the builder adds. -/
def trailers (addFingerprint : Bool) : List StunAttribute :=
  let integrity := if key = [] then [] else [integrityAttr type txid body hmac key]
  integrity ++
    if addFingerprint then [fingerprintAttr type txid (body ++ encodeAttrs integrity)] else []

theorem length_integrityAttr :
    (encodeAttr (integrityAttr type txid body hmac key)).length = 24 := by
  rw [length_encodeAttr, show (integrityAttr type txid body hmac key).value.length = 20 from
    (hmac _ _).2]
  rfl

theorem length_fingerprintAttr : (encodeAttr (fingerprintAttr type txid body)).length = 8 := by
  rw [length_encodeAttr, show (fingerprintAttr type txid body).value.length = 4 from rfl]
  rfl

/-- Both attributes are added in the same way: an attribute of zeros, the length of the message,
    and then the value, which is about the bytes before. -/
theorem seal_frame (t : BitVec 16) {n : ℕ} (hn : n % 4 = 0) (value : List Byte → List Byte)
    (hvalue : ∀ text, (value text).length = n) (h : body.length + (4 + n) ≤ 0xFFFF) :
    (updateMessageLength (frame type len txid body ++ u16Bytes t ++ u16Bytes (ofNat 16 n) ++
        replicate n 0)).bind (fun out =>
      some (overwrite out ((frame type len txid body).length + kAttrHeaderSize)
        (value (out.take (frame type len txid body).length))))
      = some (frame type (ofNat 16 (body.length + (4 + n))) txid (body ++ encodeAttr
          ⟨t, value (frame type (ofNat 16 (body.length + (4 + n))) txid body)⟩)) := by
  set header := u16Bytes t ++ u16Bytes (ofNat 16 n) with hheader
  have hout : frame type len txid body ++ u16Bytes t ++ u16Bytes (ofNat 16 n) ++
      replicate n 0 = frame type len txid (body ++ (header ++ replicate n 0)) := by
    rw [← frame_append]
    simp only [hheader, append_assoc]
  have hlen : (body ++ (header ++ replicate n (0 : Byte))).length = body.length + (4 + n) := by
    simp [hheader, u16Bytes]
    omega
  have hpad : pad4 n - n = 0 := by
    rw [pad4]
    omega
  rw [hout, updateMessageLength_frame _ _ _ _ (by omega), hlen, length_frame, bind_some,
    take_frame, ← append_assoc, ← frame_append, overwrite_append, frame_append, encodeAttr]
  · simp only [hvalue, hpad, replicate_zero, append_nil, append_assoc, hheader]
  · rw [length_frame]
    simp [hheader, u16Bytes, kAttrHeaderSize]
    omega
  · simp [hvalue]

theorem appendMessageIntegrityAttr_frame (h : body.length + 24 ≤ 0xFFFF) :
    appendMessageIntegrityAttr hmac (frame type len txid body) key
      = some (frame type (ofNat 16 (body.length + 24)) txid
          (body ++ encodeAttr (integrityAttr type txid body hmac key))) :=
  seal_frame type len txid body AttrType.messageIntegrity.code rfl (fun text => (hmac key text).1)
    (fun text => (hmac key text).2) h

theorem appendFingerprintAttr_frame (h : body.length + 8 ≤ 0xFFFF) :
    appendFingerprintAttr (frame type len txid body)
      = some (frame type (ofNat 16 (body.length + 8)) txid
          (body ++ encodeAttr (fingerprintAttr type txid body))) :=
  seal_frame type len txid body AttrType.fingerprint.code rfl
    (fun text => u32Bytes (computeFingerprint text)) (fun _ => rfl) h

theorem length_trailers (addFingerprint : Bool) :
    (encodeAttrs (trailers type txid body hmac key addFingerprint)).length
      = (if key = [] then 0 else 24) + if addFingerprint then 8 else 0 := by
  by_cases hkey : key = [] <;> cases addFingerprint <;>
    simp [trailers, hkey, encodeAttrs, length_integrityAttr, length_fingerprintAttr]

/-- The end of a message. -/
theorem finish_frame (addFingerprint : Bool)
    (h : body.length + ((if key = [] then 0 else 24) + if addFingerprint then 8 else 0) ≤ 0xFFFF) :
    finish hmac (frame type len txid body) key addFingerprint = some
      (frame type (ofNat 16
          (body ++ encodeAttrs (trailers type txid body hmac key addFingerprint)).length) txid
        (body ++ encodeAttrs (trailers type txid body hmac key addFingerprint))) := by
  have hlen := length_trailers type txid body hmac key addFingerprint
  have hmi := length_integrityAttr type txid body hmac key
  rw [← hlen, ← length_append] at h
  rw [finish]
  by_cases hkey : key = [] <;> cases addFingerprint <;>
    simp only [trailers, hkey, if_true, if_false, Option.pure_def, bind_eq_bind,
      bind_some, Bool.false_eq_true, append_nil, nil_append, encodeAttrs,
      flatMap_nil, flatMap_cons, cons_append] at h ⊢
  · exact updateMessageLength_frame _ _ _ _ h
  · have hfp := length_fingerprintAttr type txid body
    rw [length_append] at h
    rw [appendFingerprintAttr_frame _ _ _ _ (by omega), bind_some,
      updateMessageLength_frame _ _ _ _ (by rw [length_append]; exact h)]
  · rw [length_append] at h
    rw [appendMessageIntegrityAttr_frame _ _ _ _ _ _ (by omega), bind_some,
      updateMessageLength_frame _ _ _ _ (by rw [length_append]; exact h)]
  · have hfp := length_fingerprintAttr type txid
      (body ++ encodeAttr (integrityAttr type txid body hmac key))
    rw [← append_assoc, length_append, length_append] at h
    rw [appendMessageIntegrityAttr_frame _ _ _ _ _ _ (by omega), bind_some,
      appendFingerprintAttr_frame _ _ _ _ (by rw [length_append]; omega), bind_some,
      updateMessageLength_frame _ _ _ _ (by simp only [length_append]; exact h),
      append_assoc]

end Frame

/-! ## The builder -/

/-- The builder takes the attribute: it is not one that it adds itself, and its length fits. -/
def StunAttribute.Accepted (attr : StunAttribute) : Prop :=
  attr.type ≠ AttrType.messageIntegrity.code ∧ attr.type ≠ AttrType.messageIntegritySha256.code ∧
    attr.type ≠ AttrType.fingerprint.code ∧ attr.value.length ≤ 0xFFFF

theorem bodySize_eq_some {size total : ℕ} (h : bodySize size attributes = some total)
    (hsize : size ≤ 0xFFFF) :
    (∀ attr ∈ attributes, attr.Accepted) ∧ total = size + (encodeAttrs attributes).length ∧
      total ≤ 0xFFFF := by
  induction attributes generalizing size with
  | nil =>
    rw [bodySize, some.injEq] at h
    subst h
    exact ⟨nofun, rfl, hsize⟩
  | cons attr rest ih =>
    rw [bodySize] at h
    split_ifs at h with hbad hlong
    push Not at hbad
    obtain ⟨hrest, htotal, hle⟩ := ih h (not_lt.1 hlong)
    refine ⟨forall_mem_cons.2 ⟨hbad, hrest⟩, ?_, hle⟩
    rw [htotal, encodeAttrs, encodeAttrs, flatMap_cons, length_append, length_encodeAttr,
      kAttrHeaderSize]
    omega

section Built

variable {hmac : Hmac} {method : StunMethod} {klass : StunClass}
  {txid : TxId} {attributes : List StunAttribute} {key out : List Byte} {addFingerprint : Bool}

/-- All attributes of a message that has been built. -/
def allAttributes (hmac : Hmac) (method : StunMethod)
    (klass : StunClass) (txid : TxId) (attributes : List StunAttribute) (key : List Byte)
    (addFingerprint : Bool) : List StunAttribute :=
  attributes ++
    trailers (encodeType method klass) txid (encodeAttrs attributes) hmac key addFingerprint

/-- What `BuildMessage` writes. -/
theorem buildMessage_eq
    (h : buildMessage hmac method klass txid attributes key addFingerprint = some out) :
    method.toNat ≤ 0x0FFF ∧ (∀ attr ∈ attributes, attr.Accepted) ∧
      ∃ body, encodeAttrs (allAttributes hmac method klass txid attributes key addFingerprint) =
          body ∧ body.length ≤ 0xFFFF ∧
        out = frame (encodeType method klass) (ofNat 16 body.length) txid body := by
  rw [buildMessage, guard_bind] at h
  split at h
  swap
  · cases h
  rename_i hguard
  have hmethod : method.toNat ≤ 0x0FFF := by omega
  obtain ⟨total, hsize, h⟩ := bind_eq_some_iff.1 h
  dsimp only at h
  obtain ⟨haccepted, htotal, hle⟩ := bodySize_eq_some hsize (by split_ifs <;> omega)
  have hlen : (encodeAttrs (allAttributes hmac method klass txid attributes key
      addFingerprint)).length = total := by
    rw [allAttributes, encodeAttrs, flatMap_append, length_append]
    rw [← encodeAttrs, ← encodeAttrs, length_trailers, htotal, add_comm]
  have hhead : overwrite (buildBindingRequest txid) 0 (u16Bytes (encodeType method klass))
      = frame (encodeType method klass) 0 txid [] := by
    rw [frame, append_nil]
    rfl
  rw [hhead, appendAttrs_eq _ fun attr ha => (haccepted attr ha).2.2.2, frame_append,
    nil_append, finish_frame _ _ _ _ _ _ _ (by omega), some.injEq] at h
  refine ⟨hmethod, haccepted, _, rfl, by omega, h.symm.trans ?_⟩
  rw [allAttributes, encodeAttrs, encodeAttrs, encodeAttrs, flatMap_append]

end Built

/-! ## Parsing a frame -/

/-- Where `Parse` finds the attributes that are written from `off` on. -/
def views : ℕ → List StunAttribute → List AttrView
  | _, [] => []
  | off, attr :: rest =>
    { type := attr.type
      len := ofNat 16 attr.value.length
      valueOffset := off + kAttrHeaderSize } ::
      views (off + kAttrHeaderSize + pad4 attr.value.length) rest

section Views

variable {attributes more : List StunAttribute}

theorem views_append : views off (attributes ++ more)
    = views off attributes ++ views (off + (encodeAttrs attributes).length) more := by
  induction attributes generalizing off with
  | nil => rfl
  | cons attr rest ih =>
    rw [cons_append, views, views, ih, cons_append, encodeAttrs, encodeAttrs,
      flatMap_cons, length_append, length_encodeAttr]
    simp only [Nat.add_assoc]

section

variable (h : ∀ attr ∈ attributes, attr.value.length ≤ 0xFFFF)
include h

theorem tiles_views (pre : List Byte) :
    Tiles (pre ++ encodeAttrs attributes) (pre.length + (encodeAttrs attributes).length)
      pre.length (views pre.length attributes) := by
  induction attributes generalizing pre with
  | nil => rfl
  | cons attr rest ih =>
    have hrest := ih (fun a ha => h a (mem_cons_of_mem _ ha)) (pre ++ encodeAttr attr)
    have hattr := length_encodeAttr attr
    have happend : pre ++ encodeAttrs (attr :: rest)
        = pre ++ encodeAttr attr ++ encodeAttrs rest := by
      rw [encodeAttrs, flatMap_cons, ← encodeAttrs, append_assoc]
    have hlen : pre.length + (encodeAttrs (attr :: rest)).length
        = (pre ++ encodeAttr attr).length + (encodeAttrs rest).length := by
      rw [← length_append, happend, length_append]
    rw [length_append, hattr] at hrest
    rw [happend, hlen, views, length_append, hattr]
    refine ⟨?_, ?_, rfl, ?_⟩
    · simp only [encodeAttr, append_assoc]
      rw [u16At_append _ rfl]
    · have hshift : (pre ++ u16Bytes attr.type).length = pre.length + 2 := by
        rw [length_append]
        rfl
      simp only [encodeAttr, append_assoc]
      rw [← append_assoc pre, u16At_append _ hshift]
    · rw [toNat_length (h attr mem_cons_self)]
      simpa only [Nat.add_assoc] using hrest

/-- The value of an attribute, where `Parse` finds it. -/
theorem attrValues_views {post : List Byte} (pre : List Byte)
    (hraw : msg.raw = pre ++ (encodeAttrs attributes ++ post)) :
    (views pre.length attributes).map (fun a => (⟨a.type, msg.attrValue a⟩ : StunAttribute))
      = attributes := by
  induction attributes generalizing pre with
  | nil => rfl
  | cons attr rest ih =>
    have hattr := length_encodeAttr attr
    have hlen := toNat_length (h attr mem_cons_self)
    have hraw' : msg.raw = pre ++ encodeAttr attr ++ (encodeAttrs rest ++ post) := by
      rw [hraw, encodeAttrs, flatMap_cons, ← encodeAttrs]
      simp only [append_assoc]
    have hrest := ih (fun a ha => h a (mem_cons_of_mem _ ha)) _ hraw'
    rw [length_append, hattr, ← Nat.add_assoc] at hrest
    rw [views, map_cons, hrest]
    -- the value stands behind the header of the attribute
    obtain ⟨header, hheader⟩ : ∃ header, header = pre ++ (u16Bytes attr.type ++
      u16Bytes (ofNat 16 attr.value.length)) := ⟨_, rfl⟩
    have hvalue : msg.raw = header ++ (attr.value ++ (replicate
        (pad4 attr.value.length - attr.value.length) 0 ++ (encodeAttrs rest ++ post))) := by
      rw [hraw', encodeAttr]
      simp only [hheader, append_assoc]
    have hoffset : pre.length + kAttrHeaderSize = header.length := by
      simp [hheader, u16Bytes, kAttrHeaderSize]
    have hlength : msg.raw.length = header.length + (attr.value.length + (replicate
        (pad4 attr.value.length - attr.value.length) (0 : Byte) ++
          (encodeAttrs rest ++ post)).length) := by
      rw [hvalue, length_append, length_append]
    congr 1
    rw [StunMessageInfo.attrValue, if_neg (by simp only [hlen]; omega)]
    simp only [hlen, hoffset]
    rw [hvalue, drop_left, take_left]

end

end Views

/-- The message that a frame is parsed to. -/
def framed (type : BitVec 16) (txid : TxId) (attributes : List StunAttribute) :
    StunMessageInfo where
  typeRaw := type
  length := ofNat 16 (encodeAttrs attributes).length
  magicCookie := kMagicCookie
  txid := txid
  method := decodeMethod type
  klass := decodeClass type
  attrs := views kHeaderSize attributes
  raw := frame type (ofNat 16 (encodeAttrs attributes).length) txid (encodeAttrs attributes)

theorem octetsAt_eq {n : ℕ} (x : Octets n) (h : ∀ j < n, byteAt p (i + j) = byteAt x.1 j) :
    octetsAt p i n = x := by
  refine Subtype.ext (ext_getElem (by rw [octetsAt, length_ofFn, x.2]) fun j hj hj' => ?_)
  have hjn : j < n := by rwa [x.2] at hj'
  simp only [octetsAt, List.getElem_ofFn]
  rw [h j hjn, byteAt, getD_eq_getElem _ _ hj']

/-- `Parse` accepts a frame and finds its attributes. -/
theorem parse_frame {type : BitVec 16} (htype : type.extractLsb' 8 8 &&& 0xC0 = 0) (txid : TxId)
    (h : ∀ attr ∈ attributes, attr.value.length ≤ 0xFFFF)
    (hlen : (encodeAttrs attributes).length ≤ 0xFFFF) :
    parse (frame type (ofNat 16 (encodeAttrs attributes).length) txid
      (encodeAttrs attributes)) = some (framed type txid attributes) := by
  set len := ofNat 16 (encodeAttrs attributes).length with hlen_def
  set body := encodeAttrs attributes with hbody
  have hlength := length_frame type len txid body
  have htoNat : len.toNat = body.length := toNat_length hlen
  have h₀ : u16At (frame type len txid body) 0 = type := extractLsb_append type
  have h₂ : u16At (frame type len txid body) 2 = len := extractLsb_append len
  have h₄ : u32At (frame type len txid body) 4 = kMagicCookie := by
    rw [frame, append_assoc, append_assoc]
    exact u32At_append kMagicCookie rfl
  have hmod : len &&& 0x3 = 0 := by
    have := length_encodeAttrs_mod attributes
    refine BitVec.eq_of_toNat_eq ?_
    rw [BitVec.toNat_and, htoNat, show (0x3 : BitVec 16).toNat = 2 ^ 2 - 1 from rfl,
      Nat.and_two_pow_sub_one_eq_mod]
    exact this
  have htx : octetsAt (frame type len txid body) 8 12 = txid := by
    refine octetsAt_eq txid fun j hj => ?_
    have := byteAt_append_add (u16Bytes type ++ u16Bytes len ++ u32Bytes kMagicCookie) txid.1 body
      (by rwa [txid.2])
    rwa [← append_assoc] at this
  have hframe : frame type len txid body = (frame type len txid []) ++ body := by
    rw [frame_append, nil_append]
  have htiles := tiles_views h (frame type len txid [])
  rw [← hbody, ← hframe, length_frame, length_nil, Nat.add_zero] at htiles
  refine parse_eq_some.2 ⟨⟨?_, ?_, ?_, ?_, ?_⟩, ?_, ?_⟩
  · omega
  · exact not_not.2 htype
  · exact not_not.2 h₄
  · rw [h₂]
    exact not_not.2 hmod
  · rw [h₂, htoNat]
    omega
  · rw [h₂, htoNat]
    exact htiles
  · rw [h₀, h₂, h₄, htx, htoNat, ← hlength, take_length]
    rfl

end Packetia.Stun
