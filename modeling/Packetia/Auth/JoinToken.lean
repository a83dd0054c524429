import Packetia.Auth.Base64Url
import Packetia.Lib.Fallible
import Packetia.Lib.Text

/-!
# Join tokens

`SignJoinToken` (`service/Auth/JoinToken.cpp`) puts the identity and the rights of a participant
into a JWT, and `JwtAuthenticator::Authenticate` (`service/Auth/JwtAuthenticator.cpp`) checks one
and reads them back (`join_token_round_trip`).

The HMAC is any function, and so is what the JSON library makes of a text (`Environment`): it gives
the events of the parser, so that keys can be met twice. What it writes for a value is modelled
(`Json.dump`), as the length of a token depends on it.
-/

namespace Packetia.Auth

open List Option

/-! ## JSON -/

inductive Json
  | null
  | bool (value : Bool)
  | int (value : ℤ)
  | float (text : List Byte)
  | string (text : List Byte)
  | array (items : List Json)
  | object (fields : List (List Byte × Json))

abbrev Fields := List (List Byte × Json)

/-- What is written for a byte of a string. -/
def escape (c : Byte) : List Byte :=
  if c = 34 ∨ c = 92 then [92, c]
  else if c = 8 then ascii "\\b"
  else if c = 9 then ascii "\\t"
  else if c = 10 then ascii "\\n"
  else if c = 12 then ascii "\\f"
  else if c = 13 then ascii "\\r"
  else if c < 32 then ascii "\\u00" ++ (Nat.toDigits 16 (c.toNat + 256)).tail.map
    fun d => BitVec.ofNat 8 d.toNat
  else [c]

def quote (text : List Byte) : List Byte := 34 :: text.flatMap escape ++ [34]

mutual

/-- `dump`. -/
def Json.dump : Json → List Byte
  | .null => ascii "null"
  | .bool value => ascii (if value then "true" else "false")
  | .int value => (decimalInt value).map fun c => BitVec.ofNat 8 c.toNat
  | .float text => text
  | .string text => quote text
  | .array items => 91 :: dumpItems items ++ [93]
  | .object fields => 123 :: dumpFields fields ++ [125]

def dumpItems : List Json → List Byte
  | [] => []
  | item :: rest => item.dump ++ (if rest.isEmpty then [] else [44]) ++ dumpItems rest

def dumpFields : List (List Byte × Json) → List Byte
  | [] => []
  | (key, value) :: rest =>
    quote key ++ 58 :: value.dump ++ (if rest.isEmpty then [] else [44]) ++ dumpFields rest

end

mutual

/-- The callback of `ParseObject` lets a value at a depth pass. -/
def Json.passes (depth : ℕ) : Json → Bool
  | .null | .bool _ | .int _ | .float _ | .string _ => depth ≤ 8
  | .array items => depth ≤ 8 && itemsPass (depth + 1) items
  | .object fields =>
    depth ≤ 8 && (fields.map (·.1)).Nodup && fieldsPass (depth + 1) fields

def itemsPass (depth : ℕ) : List Json → Bool
  | [] => true
  | item :: rest => item.passes depth && itemsPass depth rest

def fieldsPass (depth : ℕ) : List (List Byte × Json) → Bool
  | [] => true
  | (_, value) :: rest => value.passes depth && fieldsPass depth rest

end

/-! ## Contexts -/

inductive Audience
  | webRtc
  | control
  | rtsp
  deriving DecidableEq

structure RoomGrant where
  room : List Byte
  roomJoin : Bool
  canPublish : Bool
  canSubscribe : Bool
  roomAdmin : Bool
  canUpdateOwnMetadata : Bool
  deriving DecidableEq

structure AuthContext where
  subjectId : List Byte
  issuer : List Byte
  name : List Byte
  audience : Audience
  tokenId : List Byte
  expiresAtUnixSeconds : ℤ
  video : RoomGrant
  nodeId : List Byte
  instanceId : List Byte
  assignmentId : List Byte
  deriving DecidableEq

inductive AuthError
  | unauthenticated
  | invalidToken
  | expiredToken
  | wrongAudience
  | notConfigured
  deriving DecidableEq

structure Environment where
  /-- `SecretFor` of the key provider, if there is one. -/
  keys : Option (List Byte → Option (List Byte))
  parse : List Byte → Option Json
  hmac : List Byte → List Byte → Octets 32

/-! ## Signing -/

variable (env : Environment) (c : AuthContext) (text : List Byte) (fields : Fields)

def header : Fields :=
  [(ascii "alg", .string (ascii "HS256")), (ascii "typ", .string (ascii "JWT"))]

def videoClaims (video : RoomGrant) : Fields :=
  [(ascii "canPublish", .bool video.canPublish),
    (ascii "canSubscribe", .bool video.canSubscribe),
    (ascii "canUpdateOwnMetadata", .bool video.canUpdateOwnMetadata),
    (ascii "room", .string video.room),
    (ascii "roomAdmin", .bool video.roomAdmin),
    (ascii "roomJoin", .bool true)]

/-- The claims, in the order of their keys. -/
def claims (issuedAt : ℤ) : Fields :=
  [(ascii "assignment_id", .string c.assignmentId),
    (ascii "aud", .string (ascii "packetia-webrtc")),
    (ascii "exp", .int c.expiresAtUnixSeconds),
    (ascii "iat", .int issuedAt),
    (ascii "instance_id", .string c.instanceId),
    (ascii "iss", .string c.issuer),
    (ascii "jti", .string c.tokenId),
    (ascii "name", .string c.name),
    (ascii "node_id", .string c.nodeId),
    (ascii "sub", .string c.subjectId),
    (ascii "video", .object (videoClaims c.video))]

/-- The configuration that `SignJoinToken` demands. -/
def Signable (secret : List Byte) (issuedAt : ℤ) : Prop :=
  (32 ≤ secret.length ∧ secret.length ≤ 4096) ∧ c.issuer ≠ [] ∧ c.subjectId ≠ [] ∧
    c.video.room ≠ [] ∧ c.video.roomJoin = true ∧ c.nodeId ≠ [] ∧ c.instanceId ≠ [] ∧
    issuedAt < c.expiresAtUnixSeconds ∧ c.audience = .webRtc
  deriving Decidable

/-- What is signed. -/
def content (issuedAt : ℤ) : List Byte :=
  encode (Json.object header).dump ++ 46 :: encode (Json.object (claims c issuedAt)).dump

/-- `SignJoinToken`; it throws at an invalid configuration. -/
def signJoinToken (secret : List Byte) (issuedAt : ℤ) : Option (List Byte) :=
  if Signable c secret issuedAt then
    some (content c issuedAt ++ 46 :: encode (env.hmac secret (content c issuedAt)).1)
  else none

/-! ## Authentication -/

def parseObject : Option Fields :=
  match env.parse text with
  | some (.object fields) => if (Json.object fields).passes 0 then some fields else none
  | _ => none

def isControl (c : Byte) : Bool := c < 32 || c = 127

/-- `ReadString`. A text that is missing is empty. -/
def readString (key : List Byte) (required : Bool) : Option (List Byte) :=
  match fields.lookup key with
  | none => if required then none else some []
  | some (.string text) =>
    if (required = true ∧ text = []) ∨ 256 < text.length ∨ text.any isControl = true then none
    else some text
  | some _ => none

def readTimestamp (key : List Byte) (required : Bool) : Option ℤ :=
  match fields.lookup key with
  | none => if required then none else some 0
  | some (.int value) => if 0 ≤ value ∧ value < 2 ^ 63 then some value else none
  | some _ => none

def readPermission (key : List Byte) : Option Bool :=
  match fields.lookup key with
  | none => some false
  | some (.bool value) => some value
  | some _ => none

/-- A text of the list, for `HasAudience`. -/
def Json.text? : Json → Option (List Byte)
  | .string text => if text = [] then none else some text
  | _ => none

def hasAudience (expected : List Byte) : Bool :=
  match fields.lookup (ascii "aud") with
  | some (.string text) => text = expected
  | some (.array items) =>
    items ≠ [] ∧ items.length ≤ 16 ∧ (items.mapM Json.text?).any fun texts => expected ∈ texts
  | _ => false

def readVideo : Option RoomGrant :=
  match fields.lookup (ascii "video") with
  | none => some ⟨[], false, false, false, false, false⟩
  | some (.object video) => do
    if (video.lookup (ascii "canPublishSources")).isSome then none
    let room ← readString video (ascii "room") false
    let roomJoin ← readPermission video (ascii "roomJoin")
    let canPublish ← readPermission video (ascii "canPublish")
    let canSubscribe ← readPermission video (ascii "canSubscribe")
    let roomAdmin ← readPermission video (ascii "roomAdmin")
    let canUpdateOwnMetadata ← readPermission video (ascii "canUpdateOwnMetadata")
    some ⟨room, roomJoin, canPublish, canSubscribe, roomAdmin, canUpdateOwnMetadata⟩
  | some _ => none

/-- The text in front of the first dot, and that behind it. -/
def cut : List Byte → Option (List Byte × List Byte)
  | [] => none
  | c :: rest =>
    if c = 46 then some ([], rest) else (cut rest).map fun parts => (c :: parts.1, parts.2)

def Audience.claim : Audience → Option (List Byte)
  | webRtc => some (ascii "packetia-webrtc")
  | control => some (ascii "packetia-control")
  | rtsp => none

/-- The header, if the text is one that `Authenticate` knows. -/
def checkHeader : Bool :=
  (parseObject env text).any fun header =>
    readString header (ascii "alg") true = some (ascii "HS256") &&
      ((header.lookup (ascii "typ")).isNone ||
        readString header (ascii "typ") false = some (ascii "JWT")) &&
      (header.lookup (ascii "crit")).isNone && (header.lookup (ascii "b64")).isNone

/-- The part of `Authenticate` up to the HMAC: the claims of a token that is genuine. -/
def verify (secretFor : List Byte → Option (List Byte)) (token : List Byte) :
    Option (List Byte × Fields) := do
  let (first, rest) ← cut token
  let (second, last) ← cut rest
  if last.contains 46 then none
  let headerText ← decodeBase64Url first
  if 1024 < headerText.length then none
  let claimsText ← decodeBase64Url second
  let signature ← decodeBase64Url last
  if signature.length ≠ 32 then none
  if checkHeader env headerText = false then none
  let claims ← parseObject env claimsText
  let issuer ← readString claims (ascii "iss") true
  let secret ← secretFor issuer
  if secret.length < 32 ∨ 4096 < secret.length then none
  if (env.hmac secret (first ++ 46 :: second)).1 ≠ signature then none
  some (issuer, claims)

/-- The part of `Authenticate` behind the HMAC. -/
def readClaims (claims : Fields) (issuer audience : List Byte) (expected : Audience) (now : ℤ) :
    Except AuthError AuthContext := do
  require (hasAudience claims audience) .wrongAudience
  let subjectId ← expect (readString claims (ascii "sub") true) .invalidToken
  let tokenId ← expect (readString claims (ascii "jti") false) .invalidToken
  let name ← expect (readString claims (ascii "name") false) .invalidToken
  let nodeId ← expect (readString claims (ascii "node_id") false) .invalidToken
  let instanceId ← expect (readString claims (ascii "instance_id") false) .invalidToken
  let assignmentId ← expect (readString claims (ascii "assignment_id") false) .invalidToken
  let expiresAt ← expect (readTimestamp claims (ascii "exp") true) .invalidToken
  require (expiresAt ≠ 0) .invalidToken
  let notBefore ← expect (readTimestamp claims (ascii "nbf") false) .invalidToken
  let issuedAt ← expect (readTimestamp claims (ascii "iat") false) .invalidToken
  require (notBefore < expiresAt ∧ issuedAt < expiresAt) .invalidToken
  require (now < expiresAt) .expiredToken
  require (notBefore ≤ now ∧ issuedAt ≤ now) .invalidToken
  let video ← expect (readVideo claims) .invalidToken
  return {
    subjectId, issuer, name, tokenId, video, nodeId, instanceId, assignmentId
    audience := expected, expiresAtUnixSeconds := expiresAt }

def authenticate (now : ℤ) (token : List Byte) (expected : Audience) :
    Except AuthError AuthContext := do
  let secretFor ← expect env.keys .notConfigured
  require (token ≠ []) .unauthenticated
  require (token.length ≤ 8192) .invalidToken
  let audience ← expect expected.claim .wrongAudience
  let (issuer, claims) ← expect (verify env secretFor token) .invalidToken
  readClaims claims issuer audience expected now

/-! ## Lengths -/

/-- A text of at most 256 bytes without control characters. -/
def Plain : Prop := text.length ≤ 256 ∧ text.any isControl = false
  deriving Decidable

/-- The eight texts of a context. -/
def AuthContext.texts (c : AuthContext) : List (List Byte) :=
  [c.issuer, c.subjectId, c.name, c.tokenId, c.nodeId, c.instanceId, c.assignmentId, c.video.room]

/-- The texts of a context are plain. -/
def AuthContext.Plain (c : AuthContext) : Prop := ∀ text ∈ c.texts, Auth.Plain text
  deriving Decidable

theorem length_escape : ∀ c : Byte, isControl c = false → (escape c).length ≤ 2 := by
  decide +kernel

theorem length_quote {text : List Byte} (h : Plain text) : (quote text).length ≤ 514 := by
  have hflat : ∀ l : List Byte, l.any isControl = false →
      (l.flatMap escape).length ≤ 2 * l.length := by
    intro l hl
    induction l with
    | nil => exact Nat.zero_le _
    | cons c l ih =>
      rw [any_cons, Bool.or_eq_false_iff] at hl
      have hc := length_escape c hl.1
      have hrest := ih hl.2
      rw [flatMap_cons, length_append, length_cons]
      omega
  have hle := hflat text h.2
  have hlen := h.1
  simp only [quote, length_append, length_cons, length_nil]
  omega

theorem length_dump_int {n : ℤ} (h : 0 ≤ n) (h' : n < 2 ^ 63) : (Json.int n).dump.length ≤ 19 := by
  obtain ⟨m, rfl⟩ := Int.eq_ofNat_of_zero_le h
  rw [Json.dump, length_map]
  exact Nat.toDigits_length 10 m 19 (by decide) (by omega)

theorem length_dump_bool (value : Bool) : (Json.bool value).dump.length ≤ 5 := by
  cases value <;> decide

theorem length_dumpFields : (dumpFields fields).length ≤
    (fields.map fun field => (quote field.1).length + 2).sum +
      (fields.map fun field => field.2.dump.length).sum := by
  induction fields with
  | nil => exact Nat.zero_le _
  | cons field rest ih =>
    have hcomma : (if rest.isEmpty then [] else [(44 : Byte)]).length ≤ 1 := by
      split_ifs <;> decide
    rw [dumpFields, map_cons, map_cons, sum_cons, sum_cons]
    simp only [length_append, length_cons] at hcomma ⊢
    omega

variable {env : Environment} {c : AuthContext} {secret token : List Byte} {issuedAt : ℤ}
  {first rest : List Byte} {secretFor : List Byte → Option (List Byte)}

theorem length_claims (hp : c.Plain) (h : 0 ≤ issuedAt) (h' : issuedAt < c.expiresAtUnixSeconds)
    (hexp : c.expiresAtUnixSeconds < 2 ^ 63) :
    (Json.object (claims c issuedAt)).dump.length ≤ 4700 := by
  have hquote : ∀ text ∈ c.texts, (Json.string text).dump.length ≤ 514 :=
    fun text ht => length_quote (hp text ht)
  simp only [AuthContext.texts, forall_mem_cons] at hquote
  obtain ⟨h₁, h₂, h₃, h₄, h₅, h₆, h₇, h₈, -⟩ := hquote
  have hiat := length_dump_int h (h'.trans hexp)
  have hexp' := length_dump_int (h.trans h'.le) hexp
  have haud : (Json.string (ascii "packetia-webrtc")).dump.length = 17 := rfl
  have hobject : ∀ fields : Fields, (Json.object fields).dump.length =
      (dumpFields fields).length + 2 := fun fields => by simp [Json.dump]
  have hle := length_dumpFields (claims c issuedAt)
  have hvideo := length_dumpFields (videoClaims c.video)
  have hkeys : ((claims c issuedAt).map fun field => (quote field.1).length + 2).sum = 102 := rfl
  have hvideoKeys : ((videoClaims c.video).map fun field => (quote field.1).length + 2).sum = 87 :=
    rfl
  have hb₁ := length_dump_bool c.video.canPublish
  have hb₂ := length_dump_bool c.video.canSubscribe
  have hb₃ := length_dump_bool c.video.canUpdateOwnMetadata
  have hb₄ := length_dump_bool c.video.roomAdmin
  have hb₅ := length_dump_bool true
  rw [hkeys] at hle
  rw [hvideoKeys] at hvideo
  simp only [claims, videoClaims, map_cons, map_nil, sum_cons, sum_nil, hobject] at hle hvideo ⊢
  omega

/-! ## The round trip -/

theorem cut_append (h : (46 : Byte) ∉ first) : cut (first ++ 46 :: rest) = some (first, rest) := by
  induction first with
  | nil => rfl
  | cons c first ih =>
    rw [mem_cons, not_or] at h
    rw [cons_append, cut, if_neg (Ne.symm h.1), ih h.2]
    rfl

theorem readString_of_lookup {fields : Fields} {key text : List Byte} {required : Bool}
    (h : fields.lookup key = some (.string text)) (hp : Plain text)
    (hne : required = true → text ≠ []) : readString fields key required = some text := by
  rw [readString, h]
  refine if_neg ?_
  rintro (⟨hr, hnil⟩ | hlong | hcontrol)
  · exact hne hr hnil
  · exact absurd hp.1 (not_le.2 hlong)
  · rw [hp.2] at hcontrol
    cases hcontrol

theorem dump_object_ne_nil : (Json.object fields).dump ≠ [] := by
  simp [Json.dump]

/-- What was signed is found genuine. -/
theorem verify_signed (hs : Signable c secret issuedAt)
    (hp : c.Plain) (hsecret : secretFor c.issuer = some secret)
    (hheader : env.parse (Json.object header).dump = some (.object header))
    (hclaims : env.parse (Json.object (claims c issuedAt)).dump =
      some (.object (claims c issuedAt))) :
    verify env secretFor (content c issuedAt ++ 46 ::
      encode (env.hmac secret (content c issuedAt)).1) = some (c.issuer, claims c issuedAt) := by
  have hcut : cut (content c issuedAt ++ 46 :: encode (env.hmac secret (content c issuedAt)).1) =
      some (encode (Json.object header).dump, encode (Json.object (claims c issuedAt)).dump ++
        46 :: encode (env.hmac secret (content c issuedAt)).1) := by
    rw [content, append_assoc, cons_append]
    exact cut_append (dot_notMem_encode _)
  have hissuer : readString (claims c issuedAt) (ascii "iss") true = some c.issuer :=
    readString_of_lookup rfl (hp _ mem_cons_self) fun _ => hs.2.1
  have hsignature : (env.hmac secret (content c issuedAt)).1 ≠ [] := by
    intro hnil
    have hlen := (env.hmac secret (content c issuedAt)).2
    rw [hnil] at hlen
    cases hlen
  have hparse : parseObject env (Json.object (claims c issuedAt)).dump =
      some (claims c issuedAt) := by
    rw [parseObject, hclaims]
    rfl
  have hchecked : checkHeader env (Json.object header).dump = true := by
    have hparsed : parseObject env (Json.object header).dump = some header := by
      rw [parseObject, hheader]
      rfl
    rw [checkHeader, hparsed]
    rfl
  have hlength : ¬1024 < (Json.object header).dump.length := by decide
  obtain ⟨⟨hmin, hmax⟩, -⟩ := hs
  rw [verify, hcut]
  simp only [bind_eq_bind, bind_some, cut_append (dot_notMem_encode _),
    contains_eq_mem, decide_eq_true_eq, dot_notMem_encode, if_false,
    decodeBase64Url_encode (dump_object_ne_nil _), hlength,
    decodeBase64Url_encode hsignature, hchecked, hparse, hissuer, hsecret,
    (env.hmac secret (content c issuedAt)).2, ne_eq, not_true_eq_false, Bool.true_eq_false]
  rw [if_neg (by omega)]
  exact if_neg (not_not.2 rfl)

theorem readVideo_signed (hp : Plain c.video.room) (hjoin : c.video.roomJoin = true) :
    readVideo (claims c issuedAt) = some c.video := by
  have hroom : readString (videoClaims c.video) (ascii "room") false = some c.video.room :=
    readString_of_lookup rfl hp nofun
  have hlookup : (claims c issuedAt).lookup (ascii "video") =
      some (.object (videoClaims c.video)) := rfl
  rw [readVideo, hlookup]
  dsimp only
  rw [hroom]
  change some { c.video with roomJoin := true } = some c.video
  rw [← hjoin]

/-- What is left to check of the claims of a signed token. -/
theorem readClaims_signed (hp : c.Plain) (hs : Signable c secret issuedAt) (hissued : 0 ≤ issuedAt)
    (hexp : c.expiresAtUnixSeconds < 2 ^ 63) (now : ℤ) :
    readClaims (claims c issuedAt) c.issuer (ascii "packetia-webrtc") .webRtc now =
      (require (now < c.expiresAtUnixSeconds) .expiredToken >>= fun _ =>
        require (0 ≤ now ∧ issuedAt ≤ now) .invalidToken >>= fun _ => .ok c) := by
  obtain ⟨-, -, hsub, -, hjoin, -, -, hlt, haud⟩ := hs
  simp only [AuthContext.Plain, AuthContext.texts, forall_mem_cons] at hp
  obtain ⟨-, hsubject, hname, hid, hnode, hinstance, hassignment, hroom, -⟩ := hp
  have hoptional : ∀ {key text}, (claims c issuedAt).lookup key = some (.string text) →
      Plain text → readString (claims c issuedAt) key false = some text :=
    fun h hp => readString_of_lookup h hp nofun
  have hsubject : readString (claims c issuedAt) (ascii "sub") true = some c.subjectId :=
    readString_of_lookup rfl hsubject fun _ => hsub
  have haudience : hasAudience (claims c issuedAt) (ascii "packetia-webrtc") = true := rfl
  have hexpiry : readTimestamp (claims c issuedAt) (ascii "exp") true =
      some c.expiresAtUnixSeconds := if_pos ⟨by omega, hexp⟩
  have hiat : readTimestamp (claims c issuedAt) (ascii "iat") false = some issuedAt :=
    if_pos ⟨hissued, by omega⟩
  have hnbf : readTimestamp (claims c issuedAt) (ascii "nbf") false = some 0 := rfl
  have hpos : c.expiresAtUnixSeconds ≠ 0 := by omega
  have hbefore : (0 : ℤ) < c.expiresAtUnixSeconds ∧ issuedAt < c.expiresAtUnixSeconds :=
    ⟨by omega, hlt⟩
  have hcontext : c = { c with audience := .webRtc } := by rw [← haud]
  rw [readClaims, require_bind_of_eq haudience, expect_bind_of_eq hsubject,
    expect_bind_of_eq (hoptional rfl hid), expect_bind_of_eq (hoptional rfl hname),
    expect_bind_of_eq (hoptional rfl hnode), expect_bind_of_eq (hoptional rfl hinstance),
    expect_bind_of_eq (hoptional rfl hassignment), expect_bind_of_eq hexpiry,
    require_bind_of_eq (decide_eq_true hpos), expect_bind_of_eq hnbf, expect_bind_of_eq hiat,
    require_bind_of_eq (decide_eq_true hbefore)]
  refine congrArg _ (funext fun _ => congrArg _ (funext fun _ => ?_))
  rw [expect_bind_of_eq (readVideo_signed hroom hjoin)]
  exact congrArg Except.ok hcontext.symm

/-- A context that is signed comes back from its token, as long as the token is valid and for the
    audience it is made for. -/
theorem join_token_round_trip {secretFor : List Byte → Option (List Byte)}
    (hsign : signJoinToken env c secret issuedAt = some token) (hp : c.Plain)
    (hissued : 0 ≤ issuedAt) (hexp : c.expiresAtUnixSeconds < 2 ^ 63)
    (hkeys : env.keys = some secretFor) (hsecret : secretFor c.issuer = some secret)
    (hheader : env.parse (Json.object header).dump = some (.object header))
    (hclaims : env.parse (Json.object (claims c issuedAt)).dump =
      some (.object (claims c issuedAt))) :
    (∀ now, issuedAt ≤ now → now < c.expiresAtUnixSeconds →
      authenticate env now token .webRtc = .ok c) ∧
    (∀ now, authenticate env now token .control = .error .wrongAudience) ∧
    (∀ now, c.expiresAtUnixSeconds ≤ now →
      authenticate env now token .webRtc = .error .expiredToken) ∧
    ∀ now, now < issuedAt → authenticate env now token .webRtc = .error .invalidToken := by
  have hs : Signable c secret issuedAt := by
    by_contra hs
    rw [signJoinToken, if_neg hs] at hsign
    cases hsign
  rw [signJoinToken, if_pos hs, some_inj] at hsign
  have hverify := verify_signed hs hp hsecret hheader hclaims
  rw [hsign] at hverify
  have hlength : token.length ≤ 8192 := by
    have hle := length_claims hp hissued hs.2.2.2.2.2.2.2.1 hexp
    have hhead : (Json.object header).dump.length = 27 := rfl
    have hmac := (env.hmac secret (content c issuedAt)).2
    have hcontent : (content c issuedAt).length = (4 * (Json.object header).dump.length + 2) / 3 +
        ((4 * (Json.object (claims c issuedAt)).dump.length + 2) / 3 + 1) := by
      simp only [content, length_append, length_cons, length_encode]
    rw [← hsign, length_append, length_cons, length_encode]
    omega
  have hnil : token ≠ [] := by
    rw [← hsign]
    simp
  have hauth : ∀ now expected audience, expected.claim = some audience →
      authenticate env now token expected =
        readClaims (claims c issuedAt) c.issuer audience expected now := by
    intro now expected audience ha
    rw [authenticate, expect_bind_of_eq hkeys, require_bind_of_eq (decide_eq_true hnil),
      require_bind_of_eq (decide_eq_true hlength), expect_bind_of_eq ha, expect_bind_of_eq hverify]
  refine ⟨fun now h₁ h₂ => ?_, fun now => ?_, fun now h₁ => ?_, fun now h₁ => ?_⟩
  · rw [hauth now .webRtc _ rfl, readClaims_signed hp hs hissued hexp, require,
      if_pos (decide_eq_true h₂), require, if_pos (decide_eq_true ⟨hissued.trans h₁, h₁⟩)]
    rfl
  · rw [hauth now .control _ rfl]
    rfl
  · rw [hauth now .webRtc _ rfl, readClaims_signed hp hs hissued hexp, require,
      if_neg (by simpa using h₁)]
    rfl
  · have h₂ := hs.2.2.2.2.2.2.2.1
    rw [hauth now .webRtc _ rfl, readClaims_signed hp hs hissued hexp, require,
      if_pos (decide_eq_true (h₁.trans h₂)), require, if_neg (by simp [h₁])]
    rfl

/-- A context with short texts. -/
def alice : AuthContext where
  subjectId := ascii "a"
  issuer := ascii "b"
  name := []
  audience := .webRtc
  tokenId := []
  expiresAtUnixSeconds := 10
  video := ⟨ascii "c", true, true, true, false, false⟩
  nodeId := ascii "d"
  instanceId := ascii "e"
  assignmentId := []

/-- One secret, an HMAC that is always one, and a parser that knows two texts. -/
def surroundings : Environment where
  keys := some fun _ => some (replicate 32 7)
  parse text :=
    if text = (Json.object header).dump then some (.object header)
    else if text = (Json.object (claims alice 5)).dump then some (.object (claims alice 5))
    else none
  hmac _ _ := ⟨replicate 32 1, rfl⟩

theorem join_token_of_short_texts :
    ∃ token, signJoinToken surroundings alice (replicate 32 7) 5 = some token ∧
      authenticate surroundings 7 token .webRtc = .ok alice := by
  have hsign : signJoinToken surroundings alice (replicate 32 7) 5 = some _ := if_pos (by decide)
  have hne : (Json.object (claims alice 5)).dump ≠ (Json.object header).dump := by decide
  have hclaims : surroundings.parse (Json.object (claims alice 5)).dump =
      some (.object (claims alice 5)) := by
    simp only [surroundings, if_neg hne, if_true]
  have hheader : surroundings.parse (Json.object header).dump = some (.object header) := by
    simp only [surroundings, if_true]
  exact ⟨_, hsign, (join_token_round_trip hsign (by decide) (by decide) (by decide) rfl rfl
    hheader hclaims).1 7 (by decide) (by decide)⟩

/-! ## Soundness -/

theorem eq_of_cut (h : cut token = some (first, rest)) : token = first ++ 46 :: rest := by
  induction token generalizing first with
  | nil => cases h
  | cons b token ih =>
    rw [cut] at h
    split_ifs at h with hb
    · cases h
      rw [hb]
      rfl
    · obtain ⟨parts, hparts, heq⟩ := map_eq_some_iff.1 h
      cases heq
      rw [ih hparts, cons_append]

/-- The claims that are found genuine are signed with the secret of their issuer. -/
theorem verify_sound {issuer : List Byte}
    {fields : Fields} (h : verify env secretFor token = some (issuer, fields)) :
    ∃ secret content, secretFor issuer = some secret ∧ 32 ≤ secret.length ∧
      token = content ++ 46 :: encode (env.hmac secret content).1 := by
  simp only [verify, bind_eq_bind, bind_eq_some_iff, ite_eq_iff, reduceCtorEq, and_false, false_and,
    exists_false, false_or] at h
  obtain ⟨parts, hfirst, parts', hsecond, -, headerText, -, -, claimsText, -, signature, hdecoded,
    -, -, claims, -, issuer', -, secret, hsecret, hsize, hsigned, heq⟩ := h
  cases heq
  refine ⟨secret, parts.1 ++ 46 :: parts'.1, hsecret, by omega, ?_⟩
  rw [not_not.1 hsigned, encode_of_decodeBase64Url hdecoded, eq_of_cut hfirst, eq_of_cut hsecond,
    append_assoc, cons_append]

/-- A token that is accepted is genuine, and in time: it is what was signed and, in the only text
    for it, the HMAC of this with the secret of the issuer. -/
theorem accepted_is_signed {now : ℤ} {expected : Audience}
    (h : authenticate env now token expected = .ok c) :
    (∃ secretFor secret content, env.keys = some secretFor ∧ secretFor c.issuer = some secret ∧
      32 ≤ secret.length ∧ token = content ++ 46 :: encode (env.hmac secret content).1) ∧
      c.audience = expected ∧ now < c.expiresAtUnixSeconds := by
  simp only [authenticate, readClaims, expect_bind_eq_ok, require_bind_eq_ok,
    decide_eq_true_eq] at h
  obtain ⟨secretFor, hkeys, -, -, -, -, found, hverify, -, subject, -, id, -, name, -, node, -,
    instance', -, assignment, -, expiresAt, -, -, notBefore, -, issuedAt, -, -, htime, -, video, -,
    heq⟩ := h
  cases heq
  obtain ⟨secret, content, hsecret, hlength, hsigned⟩ := verify_sound hverify
  exact ⟨⟨secretFor, secret, content, hkeys, hsecret, hlength, hsigned⟩, rfl, htime⟩

theorem accepted_is_signed_short_texts :
    let token := content alice 5 ++ 46 :: encode (replicate 32 1)
    authenticate surroundings 7 token .webRtc = .ok alice ∧
      ∃ secret content, token = content ++ 46 :: encode (surroundings.hmac secret content).1 := by
  intro token
  have h : authenticate surroundings 7 token .webRtc = .ok alice := by decide +kernel
  obtain ⟨⟨_, secret, content, -, -, -, hsigned⟩, -⟩ := accepted_is_signed h
  exact ⟨h, secret, content, hsigned⟩

end Packetia.Auth
