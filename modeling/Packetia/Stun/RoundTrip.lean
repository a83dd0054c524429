import Packetia.Stun.Frames

/-!
# STUN messages that are built and parsed

`Parse` gives back what `BuildMessage` was given; the integrity and the fingerprint that the
builder has added are those that the verifiers compute; and an address is read as it was
written. Whatever `Parse` accepts, its attributes tile the body (`codec_inverse`).
-/

namespace Packetia.Stun

open List Option StunMessageInfo AttrType

/-! ## What is found in a message -/

variable {attributes : List StunAttribute} {attr : StunAttribute}

section Find

variable {msg : StunMessageInfo} {t : AttrType} {l more : List AttrView} {a : AttrView}

/-- An attribute with its value. -/
def StunMessageInfo.attribute (msg : StunMessageInfo) (a : AttrView) : StunAttribute :=
  ⟨a.type, msg.attrValue a⟩

/-- Attributes of other types are passed over. -/
theorem findIn_append (h : ∀ a ∈ l, a.type ≠ t.code ∧ a.type ≠ messageIntegrity.code) :
    findIn t.code (l ++ more) = findIn t.code more := by
  induction l with
  | nil => rfl
  | cons a rest ih =>
    obtain ⟨hne, hmi⟩ := h a mem_cons_self
    rw [cons_append, findIn, if_neg hne, if_neg (fun h => hmi h.1)]
    exact ih fun a ha => h a (mem_cons_of_mem _ ha)

/-- The first attribute of a type is found. -/
theorem findIn_of_find? (hl : l.map msg.attribute = attributes)
    (hmi : ∀ attr ∈ attributes, attr.type ≠ messageIntegrity.code)
    (h : attributes.find? (fun attr => attr.type = t.code) = some attr) :
    ∃ a, findIn t.code (l ++ more) = some a ∧ msg.attribute a = attr := by
  induction l generalizing attributes with
  | nil =>
    subst hl
    simp at h
  | cons a rest ih =>
    subst hl
    rw [map_cons, find?_cons] at h
    rw [cons_append, findIn]
    by_cases ht : a.type = t.code
    · rw [if_pos ht]
      simp only [StunMessageInfo.attribute, ht, decide_true] at h
      exact ⟨a, rfl, by rw [← some.inj h, StunMessageInfo.attribute, ht]⟩
    · have hne : a.type ≠ messageIntegrity.code := hmi (msg.attribute a) (by simp)
      rw [if_neg ht, if_neg fun h => hne h.1]
      simp only [StunMessageInfo.attribute, ht, decide_false] at h
      exact ih rfl (fun attr ha => hmi attr (mem_cons_of_mem _ ha)) h

/-- An attribute with a value is in bounds, and its value is where it says. -/
theorem attrValue_spec (h : msg.attrValue a ≠ []) : msg.IsAttrInBounds a ∧
    a.len.toNat = (msg.attrValue a).length ∧
    ∀ j < a.len.toNat, byteAt msg.raw (a.valueOffset + j) = byteAt (msg.attrValue a) j := by
  rw [attrValue] at h ⊢
  split_ifs at h ⊢ with hbounds
  · exact absurd rfl h
  · refine ⟨⟨by omega, hbounds⟩, by simp; omega, fun j hj => ?_⟩
    rw [byteAt_take hj, byteAt_drop]

end Find

/-! ## Addresses -/

/-- The types of the attributes that are addresses. -/
def AttrType.IsAddress (t : AttrType) : Prop :=
  t = .xorMappedAddress ∨ t = .xorPeerAddress ∨ t = .xorRelayedAddress

/-- The number of bytes of an address. -/
def IpFamily.width : IpFamily → ℕ
  | .ipv4 => 4
  | .ipv6 => 16

/-- The number of a family on the wire. -/
def IpFamily.code : IpFamily → Byte
  | .ipv4 => 0x01
  | .ipv6 => 0x02

/-- The address is that of the endpoint. -/
def XorMappedAddress.Is (x : XorMappedAddress) (ep : IpEndpoint) : Prop :=
  x.port = ep.port ∧ x.isIpv6 = decide (ep.family = .ipv6) ∧
    ∀ i < ep.family.width, byteAt x.ip.1 i = byteAt ep.ip.1 i

theorem byteAt_ofFn {n : ℕ} (f : Fin n → Byte) (j : Fin n) : byteAt (ofFn f) j = f j := by
  rw [byteAt, getD_eq_getElem _ _ (by simp), List.getElem_ofFn]

theorem encodeXorAddress_eq (ep : IpEndpoint) (txid : TxId) :
    encodeXorAddress ep txid = [0, ep.family.code] ++ u16Bytes (ep.port ^^^ portMask) ++
      ofFn fun i : Fin ep.family.width =>
        byteAt ep.ip.1 i ^^^ byteAt (addressMask txid) i := by
  rw [encodeXorAddress]
  cases ep.family <;> rfl

theorem xor_xor {w : ℕ} (x y : BitVec w) : x ^^^ y ^^^ y = x := by
  rw [BitVec.xor_assoc, BitVec.xor_self, BitVec.xor_zero]

/-- An address is read from the value that it was written to. -/
theorem decodeXorAddress_eq {msg : StunMessageInfo} {t : AttrType} {a : AttrView}
    {ep : IpEndpoint} (ht : t.IsAddress) (hfind : msg.findAttr t = some a)
    (hvalue : msg.attrValue a = encodeXorAddress ep msg.txid) :
    ∃ x, decodeXorAddress msg t = some x ∧ x.Is ep := by
  rw [IsAddress] at ht
  rw [encodeXorAddress_eq] at hvalue
  obtain ⟨hbounds, hlen, hbytes⟩ := attrValue_spec (show msg.attrValue a ≠ [] by simp [hvalue])
  rw [hvalue] at hlen hbytes
  have hlen' : a.len.toNat = 4 + ep.family.width := by
    rw [hlen]
    simp [u16Bytes]
    omega
  have hfamily : byteAt msg.raw (a.valueOffset + 1) = ep.family.code := hbytes 1 (by omega)
  have hport : u16At msg.raw (a.valueOffset + 2) = ep.port ^^^ portMask := by
    rw [u16At, hbytes 2 (by omega), hbytes 3 (by omega)]
    exact extractLsb_append _
  have hip : ∀ i : Fin ep.family.width, byteAt msg.raw (a.valueOffset + 4 + i)
      ^^^ byteAt (addressMask msg.txid) i = byteAt ep.ip.1 i := fun i => by
    have hbyte : byteAt msg.raw (a.valueOffset + 4 + i)
        = byteAt ep.ip.1 i ^^^ byteAt (addressMask msg.txid) i := by
      have hfour : ([0, ep.family.code] ++ u16Bytes (ep.port ^^^ portMask)).length = 4 := rfl
      rw [Nat.add_assoc, hbytes (4 + i) (by omega), byteAt_append_right (by omega), hfour,
        Nat.add_sub_cancel_left]
      exact byteAt_ofFn _ i
    rw [hbyte, xor_xor]
  simp only [decodeXorAddress, guard_bind, if_pos ht, hfind, if_pos hbounds, hfamily, hport,
    xor_xor, bind_eq_bind, bind_some, if_pos (show ¬a.len.toNat < 4 by omega)]
  cases hep : ep.family with
  | ipv4 =>
    rw [hep] at hlen' hip
    have h8 : a.len = 8 := BitVec.eq_of_toNat_eq hlen'
    refine ⟨_, by simp only [IpFamily.code, h8, not_not, if_true]; rfl, rfl, by simp [hep],
      fun i hi => ?_⟩
    rw [hep] at hi
    refine (byteAt_ofFn (fun i : Fin 16 => if i.1 < 4 then byteAt msg.raw (a.valueOffset + 4 + i)
      ^^^ byteAt (addressMask msg.txid) i else 0) ⟨i, lt_trans hi (by decide)⟩).trans ?_
    exact (if_pos hi).trans (hip ⟨i, hi⟩)
  | ipv6 =>
    rw [hep] at hlen' hip
    have h20 : a.len = 20 := BitVec.eq_of_toNat_eq hlen'
    refine ⟨_, by simp only [IpFamily.code, h20, not_not, if_true]; rfl, rfl, by simp [hep],
      fun i hi => ?_⟩
    rw [hep] at hi
    exact (byteAt_ofFn (fun i : Fin 16 => byteAt msg.raw (a.valueOffset + 4 + i)
      ^^^ byteAt (addressMask msg.txid) i) ⟨i, hi⟩).trans (hip ⟨i, hi⟩)

/-! ## The attributes of a frame -/

theorem u32At_take_drop (data : List Byte) (i : ℕ) :
    u32At ((data.drop i).take 4) 0 = u32At data i := by
  simp (disch := omega) only [u32At, u16At, byteAt_take, byteAt_drop, Nat.add_zero, Nat.zero_add,
    Nat.add_assoc]

section Framed

variable (type : BitVec 16) (txid : TxId)

theorem attribute_framed (h : ∀ attr ∈ attributes, attr.value.length ≤ 0xFFFF) :
    (framed type txid attributes).attrs.map (framed type txid attributes).attribute
      = attributes := by
  have hraw : (framed type txid attributes).raw
      = frame type (BitVec.ofNat 16 (encodeAttrs attributes).length) txid [] ++
        (encodeAttrs attributes ++ []) := by
    rw [append_nil, frame_append]
    rfl
  have hmap := attrValues_views h _ hraw
  rwa [length_frame] at hmap

theorem type_views {off : ℕ} {P : BitVec 16 → Prop} (h : ∀ attr ∈ attributes, P attr.type) :
    ∀ a ∈ views off attributes, P a.type := by
  induction attributes generalizing off with
  | nil => exact nofun
  | cons attr rest ih =>
    exact forall_mem_cons.2 ⟨h attr mem_cons_self, ih fun a ha => h a (mem_cons_of_mem _ ha)⟩

theorem length_views (off : ℕ) (attributes : List StunAttribute) :
    (views off attributes).length = attributes.length := by
  induction attributes generalizing off with
  | nil => rfl
  | cons attr rest ih => rw [views, length_cons, ih, length_cons]

theorem length_of_mem_trailers {body key : List Byte} {hmac : Hmac}
    {addFingerprint : Bool}
    (h : attr ∈ trailers type txid body hmac key addFingerprint) : attr.value.length ≤ 0xFFFF := by
  have hmi : (integrityAttr type txid body hmac key).value.length = 20 := (hmac _ _).2
  rw [trailers, mem_append] at h
  rcases h with h | h
  · split_ifs at h
    · exact absurd h not_mem_nil
    · rw [mem_singleton.1 h, hmi]
      decide
  · split_ifs at h
    iterate 2
      · rw [mem_singleton.1 h]
        exact (show 4 ≤ 0xFFFF by decide)
    · exact absurd h not_mem_nil

/-- The place of an attribute behind others. -/
def viewBehind (attributes : List StunAttribute) (attr : StunAttribute) : AttrView where
  type := attr.type
  len := BitVec.ofNat 16 attr.value.length
  valueOffset := kHeaderSize + (encodeAttrs attributes).length + kAttrHeaderSize

/-- The bytes of a frame, before an attribute and at its value. -/
theorem raw_framed (attributes more : List StunAttribute) (attr : StunAttribute) :
    ∃ all, attributes ++ attr :: more = all ∧
      (framed type txid all).raw.length = kHeaderSize + ((encodeAttrs attributes).length +
        ((encodeAttr attr).length + (encodeAttrs more).length)) ∧
      (framed type txid all).raw.take (kHeaderSize + (encodeAttrs attributes).length)
        = frame type (BitVec.ofNat 16 (encodeAttrs all).length) txid (encodeAttrs attributes) ∧
      ((framed type txid all).raw.drop
          (kHeaderSize + (encodeAttrs attributes).length + kAttrHeaderSize)).take attr.value.length
        = attr.value := by
  refine ⟨_, rfl, ?_⟩
  have hbody : encodeAttrs (attributes ++ attr :: more)
      = encodeAttrs attributes ++ (encodeAttr attr ++ encodeAttrs more) := by
    simp only [encodeAttrs, flatMap_append, flatMap_cons]
  obtain ⟨len, hlen⟩ : ∃ len, len
    = BitVec.ofNat 16 (encodeAttrs (attributes ++ attr :: more)).length := ⟨_, rfl⟩
  have hraw : (framed type txid (attributes ++ attr :: more)).raw
      = frame type len txid (encodeAttrs attributes ++ (encodeAttr attr ++ encodeAttrs more)) := by
    rw [← hbody, hlen]
    rfl
  rw [hraw, ← hlen]
  refine ⟨?_, take_frame .., ?_⟩
  · rw [length_frame, length_append, length_append]
  · have hsplit : frame type len txid (encodeAttrs attributes ++ (encodeAttr attr ++
        encodeAttrs more)) = (frame type len txid (encodeAttrs attributes) ++
          (u16Bytes attr.type ++ u16Bytes (BitVec.ofNat 16 attr.value.length))) ++
            (attr.value ++ (replicate (pad4 attr.value.length - attr.value.length) 0 ++
              encodeAttrs more)) := by
      rw [← frame_append, encodeAttr]
      simp only [append_assoc]
    rw [hsplit, drop_left' (by rw [length_append, length_frame]; rfl), take_left]

/-- The integrity that the builder adds is the one that is computed. -/
theorem verifyMessageIntegrity_framed (hmac : Hmac) (key : List Byte)
    (more : List StunAttribute) (h : ∀ attr ∈ attributes, attr.type ≠ messageIntegrity.code) :
    verifyMessageIntegrity hmac (framed type txid (attributes ++
      integrityAttr type txid (encodeAttrs attributes) hmac key :: more)) key = true := by
  obtain ⟨attr, hattr⟩ : ∃ attr, attr = integrityAttr type txid (encodeAttrs attributes) hmac key :=
    ⟨_, rfl⟩
  have hvalue : attr.value.length = 20 := by
    rw [hattr]
    exact (hmac _ _).2
  rw [← hattr]
  obtain ⟨_, rfl, hlen, htake, hdrop⟩ := raw_framed type txid attributes more attr
  have hfind : (framed type txid (attributes ++ attr :: more)).findAttr .messageIntegrity
      = some (viewBehind attributes attr) := by
    rw [findAttr, framed, views_append, findIn_append fun a ha =>
      ⟨type_views (P := (· ≠ _)) h a ha, type_views (P := (· ≠ _)) h a ha⟩, views, findIn,
      if_pos (by rw [hattr]; rfl)]
    rfl
  have hstart : (viewBehind attributes attr).valueOffset - kAttrHeaderSize
      = kHeaderSize + (encodeAttrs attributes).length := Nat.add_sub_cancel ..
  have hlen20 : (viewBehind attributes attr).len = 20 := by
    rw [viewBehind, hvalue]
    rfl
  rw [length_encodeAttr, hvalue, show pad4 20 = 20 from rfl] at hlen
  rw [hvalue] at hdrop
  simp only [verifyMessageIntegrity, hfind, hstart, htake, decide_eq_true_eq, hlen20,
    StunMessageInfo.IsAttrInBounds, hlen]
  refine ⟨⟨by omega, ?_⟩, by simp, by omega, ?_⟩
  · rw [show (20 : BitVec 16).toNat = 20 from rfl]
    omega
  · rw [viewBehind, hdrop, hattr, integrityAttr]
    congr 2
    rw [show kHeaderSize + (encodeAttrs attributes).length + 24 - kHeaderSize
      = (encodeAttrs attributes).length + 24 by omega]
    rfl

/-- The fingerprint that the builder adds is the one that is computed. -/
theorem verifyFingerprint_framed (attributes : List StunAttribute) :
    verifyFingerprint (framed type txid (attributes ++
      [fingerprintAttr type txid (encodeAttrs attributes)])) = true := by
  obtain ⟨attr, hattr⟩ : ∃ attr, attr = fingerprintAttr type txid (encodeAttrs attributes) :=
    ⟨_, rfl⟩
  have hvalue : attr.value.length = 4 := by
    rw [hattr]
    rfl
  rw [← hattr]
  obtain ⟨_, rfl, hlen, htake, hdrop⟩ := raw_framed type txid attributes [] attr
  have hfind : (framed type txid (attributes ++ [attr])).findLastAttr .fingerprint
      = some (viewBehind attributes attr) := by
    rw [findLastAttr, framed, views_append, reverse_append]
    rw [hattr]
    rfl
  have hoffset : (viewBehind attributes attr).valueOffset
      = kHeaderSize + (encodeAttrs attributes).length + kAttrHeaderSize := rfl
  have hstart : (viewBehind attributes attr).valueOffset - kAttrHeaderSize
      = kHeaderSize + (encodeAttrs attributes).length := Nat.add_sub_cancel ..
  have hlen4 : (viewBehind attributes attr).len = 4 := by
    rw [viewBehind, hvalue]
    rfl
  have hbody : (encodeAttrs (attributes ++ [attr])).length
      = (encodeAttrs attributes).length + 8 := by
    rw [encodeAttrs, flatMap_append, length_append, flatMap_singleton, length_encodeAttr, hvalue]
    rfl
  have hword : u32At (framed type txid (attributes ++ [attr])).raw
      (viewBehind attributes attr).valueOffset
      = computeFingerprint (frame type (BitVec.ofNat 16 ((encodeAttrs attributes).length + 8)) txid
          (encodeAttrs attributes)) := by
    rw [hvalue] at hdrop
    rw [hoffset, ← u32At_take_drop, hdrop, hattr]
    exact u32_extract _
  rw [length_encodeAttr, hvalue, show pad4 4 = 4 from rfl, encodeAttrs, encodeAttrs,
    flatMap_nil, length_nil, ← encodeAttrs] at hlen
  simp only [verifyFingerprint, hfind, hstart, htake, decide_eq_true_eq, hlen4, hword, hbody,
    StunMessageInfo.IsAttrInBounds, hlen]
  refine ⟨⟨by omega, ?_⟩, by simp, ?_, trivial⟩
  · rw [show (4 : BitVec 16).toNat = 4 from rfl]
    omega
  · rw [kAttrHeaderSize]
    omega

end Framed

/-! ## Building and parsing -/

/-- Building and parsing are inverse. The message that `BuildMessage` makes is accepted, as long
    as it is, with the method, the class, the transaction and the attributes that were given,
    followed by MESSAGE-INTEGRITY if there is a key and FINGERPRINT if it was asked for; both are
    verified; and an address that was encoded for this transaction is decoded. Whatever is
    accepted is tiled by its attributes, whose values are aligned and lie in the message. -/
theorem codec_inverse (hmac : Hmac) :
    (∀ method klass txid attributes key addFingerprint out,
      buildMessage hmac method klass txid attributes key addFingerprint = some out →
      ∃ msg, parse out = some msg ∧ msg.raw = out ∧ msg.method = method ∧ msg.klass = klass ∧
        msg.txid = txid ∧
        (∃ added, msg.attrs.map msg.attribute = attributes ++ added ∧
          added.map StunAttribute.type = (if key = [] then [] else [messageIntegrity.code])
            ++ if addFingerprint then [fingerprint.code] else []) ∧
        (key ≠ [] → verifyMessageIntegrity hmac msg key = true) ∧
        (addFingerprint = true → verifyFingerprint msg = true) ∧
        ∀ ep t, t.IsAddress →
          attributes.find? (fun attr => attr.type = t.code)
            = some ⟨t.code, encodeXorAddress ep txid⟩ →
          ∃ x, decodeXorAddress msg t = some x ∧ x.Is ep) ∧
    ∀ p msg, parse p = some msg →
      msg.raw = p.take (kHeaderSize + (u16At p 2).toNat) ∧ msg.raw.length ≤ p.length ∧
        Tiles p msg.raw.length kHeaderSize msg.attrs ∧
        ∀ a ∈ msg.attrs, a.valueOffset % 4 = 0 ∧ a.valueOffset + a.len.toNat ≤ msg.raw.length := by
  constructor
  · intro method klass txid attributes key addFingerprint out h
    obtain ⟨hmethod, haccepted, _, rfl, hlen, rfl⟩ := buildMessage_eq h
    set type := encodeType method klass with htype
    have hall : ∀ attr ∈ allAttributes hmac method klass txid attributes key addFingerprint,
        attr.value.length ≤ 0xFFFF := by
      intro attr ha
      rcases mem_append.1 ha with ha | ha
      · exact (haccepted attr ha).2.2.2
      · exact length_of_mem_trailers type txid ha
    have hmi : ∀ attr ∈ attributes, attr.type ≠ messageIntegrity.code :=
      fun attr ha => (haccepted attr ha).1
    have hattrs := attribute_framed type txid hall
    refine ⟨framed type txid _, parse_frame (encodeType_high method klass) txid hall hlen, rfl,
      decodeMethod_encodeType hmethod klass, decodeClass_encodeType method klass, rfl,
      ⟨_, hattrs, ?_⟩, fun hkey => ?_, fun hfp => ?_, fun ep t ht hfind => ?_⟩
    · by_cases hkey : key = [] <;> cases addFingerprint <;>
        simp [trailers, hkey, integrityAttr, fingerprintAttr]
    · rw [allAttributes, trailers, if_neg hkey, singleton_append]
      exact verifyMessageIntegrity_framed type txid hmac key _ hmi
    · subst hfp
      rw [allAttributes, trailers, if_pos rfl, ← append_assoc]
      have hbody : ∀ l, encodeAttrs (attributes ++ l) = encodeAttrs attributes ++ encodeAttrs l :=
        fun l => flatMap_append
      rw [← hbody]
      exact verifyFingerprint_framed type txid _
    · have hviews : (framed type txid (allAttributes hmac method klass txid attributes key
          addFingerprint)).attrs = views kHeaderSize attributes ++ _ := views_append
      rw [hviews, map_append, allAttributes] at hattrs
      have hfirst := (append_inj hattrs (by rw [length_map, length_views])).1
      obtain ⟨a, ha, hattr⟩ := findIn_of_find? hfirst hmi hfind
      refine decodeXorAddress_eq ht (a := a) ?_ (congrArg StunAttribute.value hattr)
      rw [findAttr, hviews]
      exact ha
  · intro p msg h
    obtain ⟨hstun, htiles, hmsg⟩ := parse_eq_some.1 h
    have hraw : msg.raw = p.take (kHeaderSize + (u16At p 2).toNat) := by rw [hmsg]
    have hlen : msg.raw.length = kHeaderSize + (u16At p 2).toNat := by
      rw [hraw, length_take, min_eq_left (not_lt.1 hstun.2.2.2.2)]
    rw [← hlen] at htiles
    exact ⟨hraw, by rw [hlen]; exact not_lt.1 hstun.2.2.2.2, htiles, htiles.value rfl⟩

end Packetia.Stun
