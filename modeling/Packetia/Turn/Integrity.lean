import Packetia.Ice.Agent
import Packetia.Stun.Signed
import Packetia.Turn.Steps

/-!
# What follows MESSAGE-INTEGRITY

The bytes behind MESSAGE-INTEGRITY are not signed. Two requests that agree up to there get the
same answer of `TurnAuth` and the same decisions of `TurnServer` and `IceAgent`: every function
that they are made of gives the same on the signed part of a request as on the request
(`handleRequest_signed` and the lemmas before it), and both requests have the same signed part.

There is one exception. An Allocate of a client that has an allocation is answered as a
retransmission only if it is the datagram that made the allocation, byte for byte
(`TurnServer.cpp`, where `HandleRequest` compares `request` with the datagram). The tables stay as
they are in either case.
-/

namespace Packetia.Turn

open List Option Stun Net StunMessageInfo Framed Outcome
open AttrType (messageIntegrity nonce realm)

section Signed

variable {hmac : Hmac} {md5 : List Byte → Octets 16}
  {opts : TurnServerOptions} {env : Env} {sv : Server} {client : SocketAddr}
  {msg : StunMessageInfo} {data : List Byte} {l : List AttrView}

/-! ## Scans -/

theorem countBefore_throughIntegrity (t : AttrType) (l : List AttrView) :
    countBefore t (throughIntegrity l) = countBefore t l := by
  induction l with
  | nil => rfl
  | cons a rest ih =>
    by_cases h : a.type = messageIntegrity.code <;> simp [throughIntegrity, h, countBefore, ih]

theorem attributeCount_signed (t : AttrType) :
    attributeCount msg.signed t = attributeCount msg t := by
  rw [attributeCount, attributeCount, signed]
  induction msg.attrs with
  | nil => rfl
  | cons a rest ih =>
    by_cases h : a.type = messageIntegrity.code <;> simp [throughIntegrity, h, countThrough, ih]

theorem unknownAttributes_signed : unknownAttributes msg.signed = unknownAttributes msg := by
  have hscan : ∀ l unknown, unknownIn msg.method unknown (throughIntegrity l) =
      unknownIn msg.method unknown l := by
    intro l
    induction l with
    | nil => exact fun unknown => rfl
    | cons a rest ih =>
      intro unknown
      by_cases h : a.type = messageIntegrity.code
      · simp only [throughIntegrity, unknownIn, h, true_or, if_true]
      · simp only [throughIntegrity, if_neg h, unknownIn, ih]
  exact hscan msg.attrs []

theorem peerAttrs_throughIntegrity (l : List AttrView) :
    peerAttrs (throughIntegrity l) = peerAttrs l := by
  induction l with
  | nil => rfl
  | cons a rest ih =>
    by_cases h : a.type = messageIntegrity.code <;> simp [throughIntegrity, h, peerAttrs, ih]

theorem mem_throughIntegrity_of_mem_peerAttrs {a : AttrView}
    (h : a ∈ peerAttrs l) : a ∈ throughIntegrity l := by
  induction l with
  | nil => exact h
  | cons b rest ih =>
    rw [peerAttrs] at h
    rw [throughIntegrity]
    split_ifs at h with hmi hpeer
    · cases h
    · rw [if_neg hmi]
      exact mem_cons_of_mem _ (ih h)
    · rw [if_neg hmi]
      exact mem_cons.2 ((mem_cons.1 h).imp_right ih)

/-! ## Attributes -/

variable {t : AttrType}

section

variable (h : msg.Framed)
include h

theorem fourByteAttribute_signed (ht : t ≠ .fingerprint) :
    fourByteAttribute msg.signed t = fourByteAttribute msg t := by
  rw [fourByteAttribute, fourByteAttribute, findAttr_signed ht]
  cases hfind : msg.findAttr t with
  | none => rfl
  | some a => simp [h.attrValue_signed (mem_of_findAttr ht hfind)]

omit h in
theorem fourByteAttribute_spec {a : AttrView} (ht : t ≠ .fingerprint)
    (ha : fourByteAttribute msg t = some a) : a ∈ throughIntegrity msg.attrs ∧ a.len.toNat = 4 := by
  rw [fourByteAttribute] at ha
  cases hfind : msg.findAttr t with
  | none => simp [hfind] at ha
  | some b =>
    have hb := mem_of_findAttr ht hfind
    by_cases hlen : b.len = 4#16
    · simp only [hfind, bind_eq_bind, bind_some, bind_eq_some_iff,
        Option.pure_def, some.injEq] at ha
      obtain ⟨-, -, rfl⟩ := ha
      exact ⟨hb, by rw [hlen]; rfl⟩
    · simp [hfind, hlen] at ha

/-- What is read from such an attribute. -/
theorem bind_fourByteAttribute_signed {β : Type} (ht : t ≠ .fingerprint) {f g : AttrView → Option β}
    (hfg : ∀ a ∈ throughIntegrity msg.attrs, a.len.toNat = 4 → f a = g a) :
    (fourByteAttribute msg.signed t).bind f = (fourByteAttribute msg t).bind g := by
  rw [fourByteAttribute_signed h ht]
  refine bind_congr fun a ha => ?_
  obtain ⟨hmem, hlen⟩ := fourByteAttribute_spec ht ha
  exact hfg a hmem hlen

theorem decodeUInt32_signed (ht : t ≠ .fingerprint) :
    decodeUInt32 msg.signed t = decodeUInt32 msg t :=
  bind_fourByteAttribute_signed h ht fun _ hmem hlen =>
    congrArg some (h.u32At_value hmem (i := 0) (by omega))

theorem decodeRequestedTransport_signed :
    decodeRequestedTransport msg.signed = decodeRequestedTransport msg :=
  bind_fourByteAttribute_signed h (by decide) fun _ hmem hlen =>
    congrArg some (h.byteAt_value hmem (i := 0) (by omega))

theorem decodeChannelNumber_signed : decodeChannelNumber msg.signed = decodeChannelNumber msg :=
  bind_fourByteAttribute_signed h (by decide) fun _ hmem hlen =>
    congrArg (fun channel => guard (ValidChannel channel) >>= fun _ => pure channel)
      (h.u16At_value hmem (i := 0) (by omega))

theorem decodePeers_signed (a : Allocation) (hl : ∀ attr ∈ l, attr ∈ throughIntegrity msg.attrs) :
    decodePeers env msg.signed a l = decodePeers env msg a l := by
  induction l with
  | nil => rfl
  | cons attr rest ih =>
    have hpeer : decodePeer env msg.signed attr a = decodePeer env msg attr a := by
      rw [decodePeer, decodePeer, decodeXorAddress_signed h (hl attr mem_cons_self)]
      rfl
    rw [decodePeers, decodePeers, hpeer, ih fun b hb => hl b (mem_cons_of_mem _ hb)]

end

/-! ## Requests -/

section

variable (h : msg.Framed)
include h

theorem readLifetime_signed : readLifetime msg.signed = readLifetime msg := by
  rw [readLifetime, readLifetime, attributeCount_signed, decodeUInt32_signed h (by decide)]

theorem requestedFamily_signed : requestedFamily msg.signed = requestedFamily msg := by
  rw [requestedFamily, requestedFamily, attributeCount_signed, findAttr_signed (by decide)]
  cases hfind : msg.findAttr .requestedAddressFamily with
  | none => rfl
  | some a =>
    by_cases hlen : a.len = 4#16
    · have hvalue := h.byteAt_value (mem_of_findAttr (by decide) hfind) (i := 0)
        (by rw [hlen]; decide)
      rw [Nat.add_zero] at hvalue
      simp only [hvalue]
    · simp [hlen]

theorem checkAllocate_signed : checkAllocate opts msg.signed = checkAllocate opts msg := by
  rw [checkAllocate, checkAllocate, attributeCount_signed, decodeRequestedTransport_signed h,
    requestedFamily_signed h]

theorem checkChannel_signed (a : Allocation) (peer : SocketAddr) :
    checkChannel msg.signed a peer = checkChannel msg a peer := by
  rw [checkChannel, checkChannel, attributeCount_signed, decodeChannelNumber_signed h]

theorem handlePeers_signed (generation : ℕ) (allocation : Option Allocation) (key : List Byte) :
    handlePeers hmac opts env generation allocation msg.signed key =
        handlePeers hmac opts env generation allocation msg key := by
  have hsuccess : success hmac msg.signed key [] = success hmac msg key [] := rfl
  have hmethod : msg.signed.method = msg.method := rfl
  have hattrs : peerAttrs msg.signed.attrs = peerAttrs msg.attrs :=
    peerAttrs_throughIntegrity msg.attrs
  cases allocation with
  | none => rfl
  | some a =>
    rw [handlePeers, handlePeers, hattrs,
      decodePeers_signed h a fun _ => mem_throughIntegrity_of_mem_peerAttrs]
    simp only [hsuccess, hmethod, checkChannel_signed h]

theorem handleMethod_signed (allocation : Option Allocation) (authenticated : TurnAuthResult)
    (data : List Byte) :
    handleMethod hmac opts env sv client allocation msg.signed authenticated data =
      handleMethod hmac opts env sv client allocation msg authenticated data := by
  have hallocate : ∀ lifetime,
      handleAllocate hmac opts env sv client allocation msg.signed authenticated data lifetime =
        handleAllocate hmac opts env sv client allocation msg authenticated data lifetime := by
    intro lifetime
    rw [handleAllocate, handleAllocate, checkAllocate_signed h]
    rfl
  rw [handleMethod, handleMethod, readLifetime_signed h, handlePeers_signed h]
  simp only [hallocate]
  rfl

/-- `HandleRequest` does not see what follows MESSAGE-INTEGRITY in the message. -/
theorem handleRequest_signed (allocation : Option Allocation) (authenticated : TurnAuthResult)
    (data : List Byte) :
    handleRequest hmac opts env sv client allocation msg.signed authenticated data =
      handleRequest hmac opts env sv client allocation msg authenticated data := by
  rw [handleRequest, handleRequest, unknownAttributes_signed, handleMethod_signed h]
  rfl

end

/-! ## Authentication -/

theorem countAttrs_signed_le (t : AttrType) :
    countAttrs t msg.signed.attrs ≤ countAttrs t msg.attrs :=
  (throughIntegrity_sublist msg.attrs).countP_le

theorem findAttr_eq_none (h : countAttrs t msg.attrs = 0) : msg.findAttr t = none := by
  have hscan : ∀ l : List AttrView, (∀ a ∈ l, ¬decide (a.type = t.code) = true) →
      findIn t.code l = none := by
    intro l hl
    induction l with
    | nil => rfl
    | cons a rest ih =>
      obtain ⟨ha, hrest⟩ := forall_mem_cons.1 hl
      rw [findIn, if_neg (by simpa using ha), ih hrest]
      split_ifs <;> rfl
  exact hscan msg.attrs (countP_eq_zero.1 h)

section

variable (auth : TurnAuth) (h : msg.Framed) (honce : countAttrs .messageIntegrity msg.attrs ≤ 1)
  (hnone : countAttrs .fingerprint msg.attrs = 0) (context : TurnAuthContext) (env : AuthEnv)
include h honce hnone

theorem credentials_signed : auth.credentials hmac md5 msg.signed context env =
    auth.credentials hmac md5 msg context env := by
  have honce' : countAttrs .messageIntegrity msg.signed.attrs ≤ 1 :=
    (countAttrs_signed_le _).trans honce
  have hnone' : countAttrs .fingerprint msg.signed.attrs = 0 :=
    Nat.le_zero.1 (hnone ▸ countAttrs_signed_le _)
  have hcount : (countAttrs .messageIntegrity msg.signed.attrs > 1) =
      (countAttrs .messageIntegrity msg.attrs > 1) :=
    propext (iff_of_false (Nat.not_lt.2 honce') (Nat.not_lt.2 honce))
  have hbefore : ∀ t, countBefore t msg.signed.attrs = countBefore t msg.attrs :=
    fun t => countBefore_throughIntegrity t msg.attrs
  have hvalue : ∀ t : AttrType, ((msg.signed.findAttr t).map msg.signed.attrValue).getD [] =
      ((msg.findAttr t).map msg.attrValue).getD [] := by
    intro t
    by_cases ht : t = .fingerprint
    · rw [ht, findAttr_eq_none hnone, findAttr_eq_none hnone']
      rfl
    · rw [findAttr_signed ht]
      cases hfind : msg.findAttr t with
      | none => rfl
      | some a =>
        rw [map_some, map_some, h.attrValue_signed (mem_of_findAttr ht hfind)]
  have hintegrity : msg.signed.findAttr .messageIntegrity = msg.findAttr .messageIntegrity :=
    findAttr_signed (by decide)
  have hsha : msg.signed.hasAttr .messageIntegritySha256 = msg.hasAttr .messageIntegritySha256 :=
    hasAttr_signed (by decide)
  rw [TurnAuth.credentials, TurnAuth.credentials]
  simp -zeta only [hcount, hbefore, hvalue, hintegrity, hsha, verifyMessageIntegrity_signed hmac h]

/-- `Authenticate` does not see what follows MESSAGE-INTEGRITY if it is not a FINGERPRINT. -/
theorem authenticateMessage_signed : auth.authenticateMessage hmac md5 msg.signed context env =
    auth.authenticateMessage hmac md5 msg context env := by
  have hnone' : countAttrs .fingerprint msg.signed.attrs = 0 :=
    Nat.le_zero.1 (hnone ▸ countAttrs_signed_le _)
  rw [TurnAuth.authenticateMessage, TurnAuth.authenticateMessage, hnone, hnone',
    credentials_signed auth h honce hnone]
  rfl

end

/-! ## Two requests -/

/-- The bytes of two messages agree up to the end of their MESSAGE-INTEGRITY, but for the length in
    the header. Neither has another one, or a FINGERPRINT. -/
structure SameSigned (data data' : List Byte) (msg msg' : StunMessageInfo) : Prop where
  parse : parse data = some msg
  parse' : Stun.parse data' = some msg'
  once : countAttrs .messageIntegrity msg.attrs = 1
  once' : countAttrs .messageIntegrity msg'.attrs = 1
  none : countAttrs .fingerprint msg.attrs = 0
  none' : countAttrs .fingerprint msg'.attrs = 0
  bytes : ∃ mi ∈ msg.attrs, mi.type = messageIntegrity.code ∧
    mi.valueOffset + mi.len.toNat ≤ msg'.raw.length ∧
    ∀ i < mi.valueOffset + mi.len.toNat, i ≠ 2 → i ≠ 3 → byteAt data i = byteAt data' i

/-- An allocation without the request that made it. -/
def Allocation.withoutRequest (a : Allocation) : Allocation := { a with request := [] }

/-- What a request leaves behind, without the request. -/
def Outcome.withoutRequest (o : Outcome) : Outcome :=
  { o with allocation := o.allocation.map Allocation.withoutRequest }

section SameSigned

variable {data' : List Byte} {msg' : StunMessageInfo} {a : Allocation}
  (authenticated : TurnAuthResult)

theorem SameSigned.signed_eq (h : SameSigned data data' msg msg') : msg.signed = msg'.signed := by
  obtain ⟨mi, hmi, htype, hlen, hbytes⟩ := h.bytes
  exact StunMessageInfo.signed_eq h.parse h.parse' hmi htype hlen hbytes

/-- What does not see the end of a message gives the same on both. -/
theorem SameSigned.congr {α : Type*} {f : StunMessageInfo → α} (h : SameSigned data data' msg msg')
    (hf : ∀ {m : StunMessageInfo}, m.Framed → f m.signed = f m) : f msg = f msg' := by
  rw [← hf (framed_of_parse h.parse), ← hf (framed_of_parse h.parse'), h.signed_eq]

theorem parseStunDatagram_eq_some (h : parse data = some msg)
    (hraw : msg.raw.length = data.length) : parseStunDatagram data = some msg := by
  simp [parseStunDatagram, h, hraw]

theorem SameSigned.authenticate_eq (h : SameSigned data data' msg msg')
    (hraw : msg.raw.length = data.length) (hraw' : msg'.raw.length = data'.length)
    (auth : TurnAuth) (context : TurnAuthContext) (env : AuthEnv) :
    auth.authenticate hmac md5 data context env = auth.authenticate hmac md5 data' context env := by
  rw [TurnAuth.authenticate, TurnAuth.authenticate, parseStunDatagram_eq_some h.parse hraw,
    parseStunDatagram_eq_some h.parse' hraw']
  dsimp only
  rw [← authenticateMessage_signed auth (framed_of_parse h.parse) h.once.le h.none,
    ← authenticateMessage_signed auth (framed_of_parse h.parse') h.once'.le h.none', h.signed_eq]

/-! The datagram itself is only stored, or compared with the one that is stored. -/

/-- A request that makes an allocation stores the datagram. -/
theorem handleAllocate_none (lifetime : ℕ) (data data' : List Byte) :
    (handleAllocate hmac opts env sv client none msg authenticated data lifetime).map
        withoutRequest =
      (handleAllocate hmac opts env sv client none msg authenticated data' lifetime).map
        withoutRequest := by
  rw [handleAllocate, handleAllocate]
  cases checkAllocate opts msg with
  | error code => rfl
  | ok r =>
    dsimp only
    split_ifs
    · rfl
    · cases env.openRelay r.1 with
      | none => rfl
      | some port =>
        refine congrArg Except.ok ?_
        dsimp only [withoutRequest]
        rw [apply_ite (Option.map _), apply_ite (Option.map _)]
        rfl

/-- A request of a client that has an allocation leaves it alone. -/
theorem handleAllocate_some {authenticated : TurnAuthResult} {lifetime : ℕ} {o : Outcome}
    (h : handleAllocate hmac opts env sv client (some a) msg authenticated data lifetime = .ok o) :
    o.allocation = some a ∧ o.generation = sv.generation := by
  rw [handleAllocate] at h
  split at h
  · cases h
  · dsimp only at h
    split_ifs at h
    cases h
    exact ⟨rfl, rfl⟩

/-- The answer to it depends on the datagram only by whether it is the one that is stored. -/
theorem handleAllocate_congr (lifetime : ℕ)
    (h : a.transaction = msg.txid → (a.request = data ↔ a.request = data')) :
    handleAllocate hmac opts env sv client (some a) msg authenticated data lifetime =
      handleAllocate hmac opts env sv client (some a) msg authenticated data' lifetime := by
  rw [handleAllocate, handleAllocate]
  by_cases htransaction : a.transaction = msg.txid
  · simp only [ne_eq, h htransaction]
  · simp only [ne_eq, htransaction, not_false_eq_true, if_true]

variable (hmac opts env sv client)

section

variable (allocation : Option Allocation) (authenticated : TurnAuthResult) (data data' : List Byte)
  (h : msg.method = StunMethod.allocate → ∀ a, allocation = some a → a.transaction = msg.txid →
    (a.request = data ↔ a.request = data'))
include h

theorem handleMethod_data :
    (handleMethod hmac opts env sv client allocation msg authenticated data).map
        withoutRequest =
      (handleMethod hmac opts env sv client allocation msg authenticated data').map
        withoutRequest := by
  rw [handleMethod, handleMethod]
  split_ifs with hmethod hrefresh
  · cases readLifetime msg <;> rfl
  · cases readLifetime msg with
    | error code => rfl
    | ok lifetime =>
      cases allocation with
      | none => exact handleAllocate_none authenticated lifetime data data'
      | some a =>
        dsimp only
        rw [handleAllocate_congr authenticated lifetime (h (hmethod.resolve_right hrefresh) a rfl)]
  · rfl

theorem handleRequest_congr :
    (handleRequest hmac opts env sv client allocation msg authenticated data).withoutRequest =
      (handleRequest hmac opts env sv client allocation msg authenticated
        data').withoutRequest := by
  have hmethod := handleMethod_data hmac opts env sv client allocation authenticated data data' h
  rw [handleRequest, handleRequest]
  generalize handleMethod _ _ _ _ _ _ _ _ data = r at *
  generalize handleMethod _ _ _ _ _ _ _ _ data' = r' at *
  split_ifs
  · rfl
  · rfl
  · rfl
  · cases r with
    | error code =>
      cases r' with
      | error code' => rw [Except.error.inj hmethod]
      | ok o' => cases hmethod
    | ok o =>
      cases r' with
      | error code' => cases hmethod
      | ok o' => exact Except.ok.inj hmethod

end

/-- An Allocate of a client that has an allocation leaves it alone. -/
theorem handleRequest_allocate (hmethod : msg.method = StunMethod.allocate) (data : List Byte) :
    (handleRequest hmac opts env sv client (some a) msg authenticated data).allocation = some a ∧
      (handleRequest hmac opts env sv client (some a) msg authenticated data).generation =
        sv.generation := by
  have hrefresh : msg.method ≠ StunMethod.refresh := by rw [hmethod]; decide
  rw [handleRequest]
  split_ifs
  · exact ⟨rfl, rfl⟩
  · exact ⟨rfl, rfl⟩
  · rw [handleMethod, if_pos (.inl hmethod)]
    cases readLifetime msg with
    | error code => exact ⟨rfl, rfl⟩
    | ok lifetime =>
      dsimp only
      rw [if_neg hrefresh]
      cases ho : handleAllocate hmac opts env sv client (some a) msg authenticated data
        lifetime with
      | error code => exact ⟨rfl, rfl⟩
      | ok o => exact handleAllocate_some ho

/-- The tables do not depend on the datagram, apart from the one that is stored. -/
theorem handleRequest_tables (msg : StunMessageInfo) (allocation : Option Allocation)
    (authenticated : TurnAuthResult) (data data' : List Byte) :
    (handleRequest hmac opts env sv client allocation msg authenticated data).allocation.map
        Allocation.withoutRequest =
      (handleRequest hmac opts env sv client allocation msg authenticated data').allocation.map
        Allocation.withoutRequest ∧
    (handleRequest hmac opts env sv client allocation msg authenticated data).generation =
      (handleRequest hmac opts env sv client allocation msg authenticated data').generation := by
  by_cases hmethod : msg.method = StunMethod.allocate
  · cases allocation with
    | none =>
      have h := handleRequest_congr hmac opts env sv client none authenticated data
        data' fun (_ : msg.method = _) a ha => absurd ha.symm (some_ne_none a)
      exact ⟨congrArg Outcome.allocation h, (congrArg Outcome.generation h :)⟩
    | some a =>
      have h := handleRequest_allocate (a := a) hmac opts env sv client authenticated hmethod
      rw [(h data).1, (h data').1, (h data).2, (h data').2]
      exact ⟨rfl, rfl⟩
  · have h := handleRequest_congr hmac opts env sv client allocation authenticated data data'
      fun hm => absurd hm hmethod
    exact ⟨congrArg Outcome.allocation h, (congrArg Outcome.generation h :)⟩

end SameSigned

variable (hmac md5) in
/-- What follows MESSAGE-INTEGRITY decides nothing, but for whether an Allocate is a retransmission
    of the one that made the allocation. -/
theorem unsigned_bytes_decide_nothing :
    (∀ data data' msg msg', SameSigned data data' msg msg' → msg.raw.length = data.length →
      msg'.raw.length = data'.length →
      (∀ (auth : TurnAuth) context env, auth.authenticate hmac md5 data context env =
        auth.authenticate hmac md5 data' context env) ∧
      ∀ opts env sv client allocation authenticated,
        (handleRequest hmac opts env sv client allocation msg authenticated data).allocation.map
            Allocation.withoutRequest =
          (handleRequest hmac opts env sv client allocation msg' authenticated
            data').allocation.map Allocation.withoutRequest ∧
        (handleRequest hmac opts env sv client allocation msg authenticated data).generation =
          (handleRequest hmac opts env sv client allocation msg' authenticated
            data').generation ∧
        ((msg.method = StunMethod.allocate → ∀ a, allocation = some a →
            a.transaction = msg.txid → (a.request = data ↔ a.request = data')) →
          (handleRequest hmac opts env sv client allocation msg authenticated data).response =
            (handleRequest hmac opts env sv client allocation msg' authenticated
              data').response)) ∧
    ∀ data data' msg msg', SameSigned data data' msg msg' →
      (∀ ctx, Ice.validateUsername ctx msg = Ice.validateUsername ctx msg') ∧
      (∀ key, verifyMessageIntegrity hmac msg key = verifyMessageIntegrity hmac msg' key) ∧
      decodeIceControlling msg = decodeIceControlling msg' ∧
      decodeIceControlled msg = decodeIceControlled msg' ∧
      (∀ ctx, Ice.hasRoleConflict ctx msg = Ice.hasRoleConflict ctx msg') ∧
      decodePriority msg = decodePriority msg' ∧
      hasUseCandidate msg = hasUseCandidate msg' := by
  refine ⟨fun data data' msg msg' h hraw hraw' => ⟨h.authenticate_eq hraw hraw',
    fun opts env sv client allocation authenticated => ?_⟩, fun data data' msg msg' h => ?_⟩
  · -- Both messages give what their signed part gives, with their own datagrams.
    have hmsg : ∀ d, handleRequest hmac opts env sv client allocation msg authenticated d =
        handleRequest hmac opts env sv client allocation msg' authenticated d :=
      fun d => h.congr (f := fun m =>
        handleRequest hmac opts env sv client allocation m authenticated d)
        fun hframed => handleRequest_signed hframed allocation authenticated d
    rw [← hmsg data']
    obtain ⟨htables, hgeneration⟩ :=
      handleRequest_tables hmac opts env sv client msg allocation authenticated data data'
    refine ⟨htables, hgeneration, fun hsame => ?_⟩
    exact (congrArg response
      (handleRequest_congr hmac opts env sv client allocation authenticated data data' hsame) :)
  · have hrole : ∀ t ≠ AttrType.fingerprint, decodeRole t msg = decodeRole t msg' :=
      fun t ht => h.congr fun hframed => decodeRole_signed hframed ht
    have hcontrolling : decodeIceControlling msg = decodeIceControlling msg' := hrole _ (by decide)
    have hcontrolled : decodeIceControlled msg = decodeIceControlled msg' := hrole _ (by decide)
    have hintegrity : ∀ key, verifyMessageIntegrity hmac msg key =
        verifyMessageIntegrity hmac msg' key :=
      fun key => h.congr (f := fun m => verifyMessageIntegrity hmac m key)
        fun hframed => verifyMessageIntegrity_signed hmac hframed key
    refine ⟨fun ctx => ?_, hintegrity, hcontrolling, hcontrolled, fun ctx => ?_,
      h.congr decodePriority_signed,
      h.congr (f := hasUseCandidate) fun _ => hasAttr_signed (by decide)⟩
    · rw [Ice.validateUsername, Ice.validateUsername, h.congr decodeUsername_signed]
    · rw [Ice.hasRoleConflict, Ice.hasRoleConflict, hcontrolling, hcontrolled]

end Signed

/-! An Allocate that is sent again after the answer to it has left the cache, as it was and with a
SOFTWARE attribute behind MESSAGE-INTEGRITY. -/

namespace Retransmission

def txid : TxId := octetsAt [] 0 12

/-- The same code for every text, and the same key for every password. -/
def hmac (_ _ : List Byte) : Octets 20 := octetsAt [] 0 20

def md5 (_ : List Byte) : Octets 16 := octetsAt [] 0 16

/-- The Allocate, with the given attributes behind MESSAGE-INTEGRITY. -/
def datagram (unsigned : List StunAttribute) : List Byte :=
  let body := encodeAttrs ([⟨AttrType.username.code, text "user"⟩,
    ⟨realm.code, text "realm"⟩, ⟨nonce.code, text "nonce"⟩,
    ⟨AttrType.requestedTransport.code, [kUdpTransport, 0, 0, 0]⟩,
    ⟨messageIntegrity.code, (hmac [] []).1⟩] ++ unsigned)
  frame (encodeType .allocate .request) (BitVec.ofNat 16 body.length) txid body

def software : StunAttribute := ⟨AttrType.software.code, []⟩

def client : SocketAddr := .v4 (octetsAt [192, 0, 2, 1] 0 4) 1

def opts : TurnServerOptions where
  advertisedIp := some (.v4 (octetsAt [192, 0, 2, 2] 0 4) 0)
  advertisedIpV6 := none
  auth := { realm := text "realm", hasLookup := true, nonceLifetimeMs := 1000 }
  maxSessions := 1
  maxAllocations := 1
  maxAllocationsPerUser := 1
  maxPermissions := 1
  maxChannels := 1

def env : Env where
  pruneMs := 0
  handleMs := 0
  auth := { nowMs := 0, lookup := fun _ => some (text "password"), nonce := none }
  allowPeer := none
  openRelay := fun _ => some 2
  txid := none

def authenticated (unsigned : List StunAttribute) : TurnAuthResult :=
  (opts.auth.authenticate hmac md5 (datagram unsigned) { nonce := text "nonce" } env.auth).1

theorem parsed : (parse (datagram [])).isSome = true := by decide +kernel

theorem parsed_software : (parse (datagram [software])).isSome = true := by decide +kernel

theorem allocated : (handleRequest hmac opts env {} client none ((parse (datagram [])).get parsed)
    (authenticated []) (datagram [])).allocation.isSome = true := by decide +kernel

end Retransmission

open Retransmission in
/-- The first is answered, the second is refused. -/
theorem unsigned_bytes_refuse_retransmission :
    ∃ msg msg', SameSigned (datagram []) (datagram [software]) msg msg' ∧
      msg.raw.length = (datagram []).length ∧ msg'.raw.length = (datagram [software]).length ∧
      (authenticated []).status = .authorized ∧
      ∃ a, (handleRequest hmac opts env {} client none msg (authenticated [])
          (datagram [])).allocation = some a ∧
        classOf (handleRequest hmac opts env {} client (some a) msg (authenticated [])
          (datagram [])).response = .successResponse ∧
        classOf (handleRequest hmac opts env {} client (some a) msg' (authenticated [software])
          (datagram [software])).response = .errorResponse := by
  refine ⟨(parse (datagram [])).get parsed, (parse (datagram [software])).get parsed_software,
    ⟨(some_get parsed).symm, (some_get parsed_software).symm, by decide +kernel,
      by decide +kernel, by decide +kernel, by decide +kernel, ?_⟩, by decide +kernel,
    by decide +kernel, by decide +kernel, ?_⟩
  · exact ⟨⟨messageIntegrity.code, 20, 64⟩, by decide +kernel, rfl, by decide +kernel,
      by decide +kernel⟩
  · exact ⟨_, (some_get allocated).symm, by decide +kernel, by decide +kernel⟩

end Packetia.Turn
