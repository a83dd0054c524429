import Packetia.Lib.Fallible
import Packetia.Lib.Text

/-!
# Accounts

The tables of `service/Account/SqliteAccountStore.cpp` and the checks of `AccountPolicy.h`. A user
has a status and a credential version; a session belongs to a user, at the version of the
credentials it was opened with. The store keeps digests of tokens, not the tokens.

The rows of a table are listed in the order of insertion; `session_id` and `token_digest` are
unique. A transaction either gives the new tables or leaves them as they are.
-/

namespace Packetia.Account

inductive AccountError
  | invalidArgument
  | unauthenticated
  | invalidCredentials
  | notFound
  | userDisabled
  | sessionExpired
  | sessionRevoked
  | storageError
  | internalError

inductive UserStatus
  | active
  | disabled
  deriving DecidableEq

structure User where
  id : Text
  login : Text
  displayName : Text
  status : UserStatus := .active
  credentialVersion : ℕ := 1

structure StoredUser where
  user : User
  passwordHash : Text

structure LoginSession where
  sessionId : Text
  userId : Text
  tokenDigest : Text
  credentialVersion : ℕ
  createdAt : ℤ
  expiresAt : ℤ
  /-- Zero means not revoked. -/
  revokedAt : ℤ

/-- A session and its user in one snapshot. -/
structure StoredSession where
  session : LoginSession
  user : User

/-- The tables. -/
structure Store where
  users : List StoredUser := []
  sessions : List LoginSession := []

/-! ## Checks -/

variable (store : Store) (session : LoginSession) (digest : Text) (now : ℤ)

def isHex (c : Char) : Bool := '0' ≤ c && c ≤ '9' || 'a' ≤ c && c ≤ 'f'

def validDigest : Bool := digest.length = 64 && digest.all isHex

def validNewSession : Bool :=
  session.sessionId ≠ [] && session.sessionId.length ≤ 128 && session.userId ≠ [] &&
    session.userId.length ≤ 128 && validDigest session.tokenDigest &&
    0 < session.credentialVersion && session.credentialVersion ≤ 2 ^ 63 - 1 && 0 < now &&
    session.createdAt = now && now < session.expiresAt && session.revokedAt = 0

/-- `SessionValidity`. -/
def sessionValidity (snapshot : StoredSession) (now : ℤ) : Except AccountError Unit := do
  require (snapshot.user.status = .active) .userDisabled
  require (snapshot.session.revokedAt = 0 &&
    snapshot.session.credentialVersion = snapshot.user.credentialVersion) .sessionRevoked
  require (now < snapshot.session.expiresAt) .sessionExpired
  require (0 < now && snapshot.session.createdAt ≤ now &&
    snapshot.session.userId = snapshot.user.id) .unauthenticated

/-! ## Tables -/

namespace Store

def findUser (id : Text) : Option User :=
  (store.users.find? fun row => row.user.id = id).map StoredUser.user

def findUserByLogin (login : Text) : Option StoredUser :=
  store.users.find? fun row => row.user.login = login

/-- `FindSessionByDigest`: the session joined with its user. -/
def findSession : Option StoredSession := do
  let session ← store.sessions.find? fun row => row.tokenDigest = digest
  let user ← store.findUser session.userId
  pure ⟨session, user⟩

/-- The `INSERT`, which fails if the id or the digest is there already. -/
def insertSession : Except AccountError Store := do
  require (store.sessions.all fun row =>
    row.sessionId ≠ session.sessionId && row.tokenDigest ≠ session.tokenDigest) .storageError
  pure { store with sessions := store.sessions ++ [{ session with revokedAt := 0 }] }

/-- The `UPDATE` of `revoked_at`, on one row: that of the digest, if it is not revoked. -/
def revokeRow (row : LoginSession) : LoginSession :=
  if row.tokenDigest = digest ∧ row.revokedAt = 0 then { row with revokedAt := now } else row

def revoke : Store :=
  { store with sessions := store.sessions.map (revokeRow digest now) }

def insertSessionIfCurrent : Except AccountError Store := do
  require (validNewSession session now) .invalidArgument
  let user ← expect (store.findUser session.userId) .invalidCredentials
  require (user.status = .active) .userDisabled
  require (user.credentialVersion = session.credentialVersion) .invalidCredentials
  store.insertSession session

def rotateSessionIfCurrent (previousDigest : Text) (replacement : LoginSession) (now : ℤ) :
    Except AccountError Store := do
  require (validNewSession replacement now && validDigest previousDigest &&
    previousDigest ≠ replacement.tokenDigest) .invalidArgument
  let previous ← expect (store.findSession previousDigest) .notFound
  sessionValidity previous now
  require (replacement.userId = previous.user.id &&
    replacement.credentialVersion = previous.user.credentialVersion &&
    replacement.sessionId ≠ previous.session.sessionId) .invalidArgument
  -- The `UPDATE` has to change one row, which the check above has seen in the same transaction.
  require ((store.sessions.filter fun row =>
    row.tokenDigest = previousDigest && row.revokedAt = 0).length = 1) .sessionRevoked
  (store.revoke previousDigest now).insertSession replacement

def revokeSession : Except AccountError Store := do
  require (validDigest digest && 0 < now) .invalidArgument
  pure (store.revoke digest now)

/-- A change of the status and the credential version of a user. -/
def changeUser (id : Text) (status : UserStatus) (credentialVersion : ℕ) : Store :=
  { store with
    users := store.users.map fun row =>
      if row.user.id = id then { row with user := { row.user with status, credentialVersion } }
      else row }

end Store

end Packetia.Account
