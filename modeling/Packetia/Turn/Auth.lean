import Packetia.Turn.Codec

/-!
# Authentication of TURN requests

`TurnAuth` (`protocol/turn/TurnAuth.cpp`), the long-term credentials of STUN. A request names a
user, the realm and the nonce that the server gave out to this client, and is signed with a key
that is derived from the password.

HMAC-SHA1 and MD5 are the given functions `hmac` and `md5`. The clock, the table of passwords and
the source of nonces are those of the call (`AuthEnv`).
-/

namespace Packetia.Turn

open Stun Net

/-! ## Constants -/

def kErrorBadRequest : ℕ := 400
def kErrorUnauthorized : ℕ := 401
def kErrorForbidden : ℕ := 403
def kErrorUnknownAttribute : ℕ := 420
def kErrorAllocationMismatch : ℕ := 437
def kErrorStaleNonce : ℕ := 438
def kErrorAddressFamilyNotSupported : ℕ := 440
def kErrorWrongCredentials : ℕ := 441
def kErrorUnsupportedTransportProtocol : ℕ := 442
def kErrorPeerAddressFamilyMismatch : ℕ := 443
def kErrorAllocationQuotaReached : ℕ := 486
def kErrorServerError : ℕ := 500
def kErrorInsufficientCapacity : ℕ := 508

def kUsernameMaxBytes : ℕ := 512

def kTextMaxBytes : ℕ := 763

def kRealmMaxBytes : ℕ := 127

/-- `IsPrintableAscii`. -/
def IsPrintableAscii (value : List Byte) : Prop := ∀ c ∈ value, ¬(c < 0x20 ∨ c > 0x7E)
  deriving Decidable

def ValidAsciiText (text : List Byte) (limit : ℕ) (allowEmpty : Bool) : Prop :=
  (allowEmpty = true ∨ text ≠ []) ∧ text.length ≤ limit ∧ IsPrintableAscii text
  deriving Decidable

def text (s : String) : List Byte := s.toList.map fun c => BitVec.ofNat 8 c.toNat

/-! ## Authentication -/

/-- `TurnAuthContext`, of one client. -/
structure TurnAuthContext where
  nonce : List Byte := []
  nonceIssuedMs : ℕ := 0

inductive Status
  | ignored
  | authorized
  | response
  | internalError
  deriving DecidableEq

structure TurnAuthResult where
  status : Status := .ignored
  errorCode : ℕ := 0
  response : List Byte := []
  username : List Byte := []
  integrityKey : List Byte := []

structure TurnAuth where
  realm : List Byte
  hasLookup : Bool
  nonceLifetimeMs : ℕ

/-- What a call gets from outside. -/
structure AuthEnv where
  nowMs : ℕ
  /-- `lookup_`: the password of a user. -/
  lookup : List Byte → Option (List Byte)
  /-- `nonce_generator_`: the next nonce, if there is one. -/
  nonce : Option (List Byte)

def internalError : TurnAuthResult := { status := .internalError, errorCode := kErrorServerError }

def SupportedRequest (msg : StunMessageInfo) : Prop :=
  msg.klass = .request ∧ (msg.method = StunMethod.allocate ∨ msg.method = StunMethod.refresh ∨
    msg.method = StunMethod.createPermission ∨ msg.method = StunMethod.channelBind)
  deriving Decidable

/-- `DerivePreparedLegacyKey`. -/
def derivePreparedLegacyKey (md5 : List Byte → Octets 16) (username realm password : List Byte) :
    Option (List Byte) := do
  guard ¬(username = [] ∨ realm = [] ∨ username.length > kUsernameMaxBytes ∨
    realm.length > kTextMaxBytes ∨ password.length > kTextMaxBytes ∨
    username.contains 0 = true ∨ realm.contains 0 = true ∨ password.contains 0 = true)
  pure (md5 (username ++ [0x3A] ++ realm ++ [0x3A] ++ password)).1

/-- The occurrences of a type before MESSAGE-INTEGRITY. -/
def countBefore (t : AttrType) : List AttrView → ℕ
  | [] => 0
  | a :: rest =>
    if a.type = AttrType.messageIntegrity.code then 0
    else (if a.type = t.code then 1 else 0) + countBefore t rest

/-- The occurrences of a type. -/
def countAttrs (t : AttrType) (attrs : List AttrView) : ℕ := attrs.countP fun a => a.type = t.code

namespace TurnAuth

variable (auth : TurnAuth)

def NonceExpired (context : TurnAuthContext) (now : ℕ) : Prop :=
  context.nonce = [] ∨
    now ≥ context.nonceIssuedMs ∧ now - context.nonceIssuedMs ≥ auth.nonceLifetimeMs
  deriving Decidable

/-- `EnsureNonce`: the context, if it has a nonce then. -/
def ensureNonce (context : TurnAuthContext) (env : AuthEnv) : Option TurnAuthContext :=
  if ¬auth.NonceExpired context env.nowMs then some context
  else
    match env.nonce with
    | none => none
    | some nonce =>
      if ¬ValidAsciiText nonce kTextMaxBytes false ∨ nonce = context.nonce then none
      else some { nonce, nonceIssuedMs := env.nowMs }

def IsConfigured : Prop :=
  ValidAsciiText auth.realm kRealmMaxBytes false ∧ auth.hasLookup = true ∧ auth.nonceLifetimeMs ≠ 0
  deriving Decidable

variable (hmac : Hmac) (md5 : List Byte → Octets 16)

/-- The end of `ErrorResponse`. -/
def errorMessage (request : StunMessageInfo) (code : ℕ) (attributes : List StunAttribute) :
    TurnAuthResult :=
  match buildMessage hmac request.method .errorResponse request.txid attributes [] true with
  | none => internalError
  | some response => { status := .response, errorCode := code, response }

def errorResponse (request : StunMessageInfo) (code : ℕ) (reason : String)
    (context : TurnAuthContext) (env : AuthEnv) : TurnAuthResult × TurnAuthContext :=
  let error : StunAttribute := {
    type := AttrType.errorCode.code
    value := [0, 0, BitVec.ofNat 8 (code / 100), BitVec.ofNat 8 (code % 100)] ++ text reason }
  if code = kErrorUnauthorized ∨ code = kErrorStaleNonce then
    match auth.ensureNonce context env with
    | none => (internalError, context)
    | some context =>
      (errorMessage hmac request code [error,
        { type := AttrType.realm.code, value := auth.realm },
        { type := AttrType.nonce.code, value := context.nonce }], context)
  else (errorMessage hmac request code [error], context)

/-- The part of `Authenticate` that ends with a user and a key, or with an error. -/
def credentials (msg : StunMessageInfo) (context : TurnAuthContext) (env : AuthEnv) :
    Except (Option (ℕ × String)) (List Byte × List Byte) := do
  let badRequest (reason : String) := some (kErrorBadRequest, reason)
  let unauthorized := some (kErrorUnauthorized, "Unauthorized")
  if countAttrs .messageIntegrity msg.attrs > 1 ∨ msg.hasAttr .messageIntegritySha256 = true then
    throw (badRequest "Unsupported integrity attributes")
  let integrity ← match msg.findAttr .messageIntegrity with
    | none => throw unauthorized
    | some integrity => pure integrity
  if integrity.len ≠ 20 then throw (badRequest "Bad MESSAGE-INTEGRITY")
  if countBefore .username msg.attrs ≠ 1 ∨ countBefore .realm msg.attrs ≠ 1 ∨
      countBefore .nonce msg.attrs ≠ 1 then
    throw (badRequest "Missing or duplicate credentials")
  let value (t : AttrType) := ((msg.findAttr t).map msg.attrValue).getD []
  if ¬ValidAsciiText (value .username) kUsernameMaxBytes false ∨
      ¬ValidAsciiText (value .realm) kRealmMaxBytes false ∨
      ¬ValidAsciiText (value .nonce) kTextMaxBytes false then
    throw (badRequest "Bad credential encoding")
  if value .realm ≠ auth.realm then throw unauthorized
  if auth.NonceExpired context env.nowMs ∨ value .nonce ≠ context.nonce then
    throw (some (kErrorStaleNonce, "Stale Nonce"))
  let password ← match env.lookup (value .username) with
    | none => throw unauthorized
    | some password => pure password
  if ¬ValidAsciiText password kTextMaxBytes true then throw none
  let key ← match derivePreparedLegacyKey md5 (value .username) auth.realm password with
    | none => throw none
    | some key => pure key
  if verifyMessageIntegrity hmac msg key = false then throw unauthorized
  pure (value .username, key)

/-- `Authenticate`, of a datagram that has been parsed. -/
def authenticateMessage (msg : StunMessageInfo) (context : TurnAuthContext) (env : AuthEnv) :
    TurnAuthResult × TurnAuthContext :=
  if ¬SupportedRequest msg then ({}, context)
  else if ¬auth.IsConfigured then (internalError, context)
  else if countAttrs .fingerprint msg.attrs ≠ 0 ∧
      (countAttrs .fingerprint msg.attrs ≠ 1 ∨ verifyFingerprint msg = false) then ({}, context)
  else
    match auth.credentials hmac md5 msg context env with
    | .error none => (internalError, context)
    | .error (some (code, reason)) => auth.errorResponse hmac msg code reason context env
    | .ok (username, integrityKey) =>
      ({ status := .authorized, username, integrityKey }, context)

def authenticate (data : List Byte) (context : TurnAuthContext) (env : AuthEnv) :
    TurnAuthResult × TurnAuthContext :=
  match parseStunDatagram data with
  | none => ({}, context)
  | some msg => auth.authenticateMessage hmac md5 msg context env

end TurnAuth

end Packetia.Turn
