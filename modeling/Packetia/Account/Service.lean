import Packetia.Account.Store
import Packetia.Lib.Run
import Packetia.Lib.Table

/-!
# Login sessions

`Login`, `ResolveSession`, `RenewSession` and `Logout` of `service/Account/AccountService.cpp`,
as calls of many threads. A call takes its steps one after the other: it looks into the store, it
reads the clock and makes a new session, and it commits a transaction. Between two steps of a
call anything else may happen: steps of other calls, changes of users, and time that passes. A
call may also end with an error of the store, of the hasher or of the random generator.

Besides what the code has, the system keeps a *ledger* of what was committed: tokens that were
issued, those that were logged out, and changes of users. A call that has looked into the store
remembers how long the ledger was then. Nothing reads the ledger.
-/

namespace Packetia.Account

/-! ## Tokens -/

/-- The form of a token that `TokenDigest` checks. -/
def isToken (token : Text) : Bool :=
  token.length = 68 && token.take 4 = "pkt_" && (token.drop 4).all isHex

/-- What the service is built with. Digests of tokens are taken as injective. -/
structure Config where
  sessionTtlSeconds : ℕ
  digest : Text → Text
  digest_injective : ∀ token token', isToken token = true → isToken token' = true →
    digest token = digest token' → token = token'
  /-- The password hasher, on a password and a hash. -/
  verify : Text → Text → Bool
  dummyPasswordHash : Text

variable (call : ℕ) (config : Config) (stored : Option StoredSession)

def Config.tokenDigest (token : Text) : Except AccountError Text := do
  require (isToken token) .unauthenticated
  pure (config.digest token)

/-! ## Inputs -/

def isLoginChar (c : Char) : Bool :=
  'a' ≤ c && c ≤ 'z' || '0' ≤ c && c ≤ '9' || c = '.' || c = '_' || c = '-' || c = '@' || c = '+'

def normalizeLogin (input : Text) : Option Text :=
  let stripped := (input.dropWhile (· = ' ')).rdropWhile (· = ' ')
  if input.length ≤ 256 ∧ 3 ≤ stripped.length ∧ (lower stripped).all isLoginChar then
    some (lower stripped)
  else none

def validPasswordInput (password : Text) : Bool :=
  password ≠ [] && password.length ≤ 4096 && !password.any fun c => c.toNat = 0

structure LoginRequest where
  login : Text
  password : Text

structure AccountIdentity where
  userId : Text
  sessionId : Text
  displayName : Text

def identity (stored : StoredSession) : AccountIdentity :=
  ⟨stored.user.id, stored.session.sessionId, stored.user.displayName⟩

structure LoginResult where
  identity : AccountIdentity
  sessionToken : Text
  expiresAt : ℤ

/-- What the random generator gives: a token and the id of a session. Nothing below needs the tokens
    to differ: a digest that is there already is refused. -/
structure Random where
  token : Text
  sessionId : Text

/-- `NewSession`: the session and the result of the call that opens it. -/
def newSession (user : User) (now : ℤ) (random : Random) :
    Except AccountError (LoginSession × LoginResult) := do
  require (0 < now && now ≤ 2 ^ 63 - 1 - config.sessionTtlSeconds) .internalError
  let digest ← config.tokenDigest random.token
  let expiresAt := now + config.sessionTtlSeconds
  pure (⟨random.sessionId, user.id, digest, user.credentialVersion, now, expiresAt, 0⟩,
    ⟨⟨user.id, random.sessionId, user.displayName⟩, random.token, expiresAt⟩)

/-! ## Calls -/

inductive Request
  | login (request : LoginRequest)
  | resolveSession (token : Text)
  | renewSession (token : Text)
  | logout (token : Text)

/-- How far a call has come. -/
inductive Frame
  | login (request : LoginRequest)
  /-- The user is found and the password is verified. -/
  | loginVerified (user : User)
  | loginGenerated (session : LoginSession) (result : LoginResult)
  | loggedIn (result : Except AccountError LoginResult)
  | resolve (token : Text)
  /-- What the lookup has given, and the length of the ledger then. -/
  | resolveFound (token : Text) (ledger : ℕ) (stored : Option StoredSession)
  /-- The result, with the clock reading. -/
  | resolved (token : Text) (ledger : ℕ) (now : ℤ) (result : Except AccountError AccountIdentity)
  | renew (token : Text)
  | renewFound (token : Text) (stored : Option StoredSession)
  | renewGenerated (token : Text) (replacement : LoginSession) (result : LoginResult)
  | renewed (token : Text) (result : Except AccountError LoginResult)
  | logout (token : Text)
  | logoutReady (token : Text) (now : ℤ)
  | loggedOut (token : Text) (result : Except AccountError Unit)

def Request.frame : Request → Frame
  | .login request => .login request
  | .resolveSession token => .resolve token
  | .renewSession token => .renew token
  | .logout token => .logout token

/-- A token that was issued, by a login or for the token that it renews. -/
structure Issue where
  token : Text
  userId : Text
  credentialVersion : ℕ
  expiresAt : ℤ
  renews : Option Text

/-- What has been committed. -/
inductive Entry
  | issued (issue : Issue)
  | loggedOut (token : Text)
  | changed (id : Text) (status : UserStatus) (credentialVersion : ℕ)

structure System where
  store : Store
  clock : ℤ
  calls : Table ℕ Frame := .empty
  ledger : List Entry := []

inductive Event
  | start (call : ℕ) (request : Request)
  /-- The next step of a call, with what the random generator gives if it is asked. -/
  | next (call : ℕ) (random : Random)
  /-- A call ends with an error before it commits. -/
  | fail (call : ℕ) (error : AccountError)
  | changeUser (id : Text) (status : UserStatus) (credentialVersion : ℕ)
  | pass (seconds : ℕ)

/-- The user whose password is right, unless it is disabled. -/
def verifyUser (store : Store) (request : LoginRequest) : Except AccountError User := do
  let login ← expect (normalizeLogin request.login) .invalidArgument
  require (validPasswordInput request.password) .invalidArgument
  let found := store.findUserByLogin login
  -- A password is verified for missing accounts as well.
  let verified := config.verify request.password
    (found.elim config.dummyPasswordHash StoredUser.passwordHash)
  let stored ← expect (if verified then found else none) .invalidCredentials
  require (stored.user.status = .active) .userDisabled
  pure stored.user

/-- The result of `ResolveSession`, from what the lookup gave and the clock reading. -/
def resolution (now : ℤ) : Except AccountError AccountIdentity := do
  let stored ← expect stored .unauthenticated
  sessionValidity stored now
  pure (identity stored)

/-- The replacement that `RenewSession` makes, from what the lookup gave and the clock reading. -/
def replacement (now : ℤ) (random : Random) : Except AccountError (LoginSession × LoginResult) := do
  let stored ← expect stored .unauthenticated
  sessionValidity stored now
  newSession config stored.user now random

namespace System

variable (config : Config) (s : System)

def setCall (call : ℕ) (frame : Frame) : System :=
  { s with calls := s.calls.set call frame }

/-- A transaction, with its entry of the ledger, or its error. -/
def commit (call : ℕ) (outcome : Except AccountError Store) (entry : Entry)
    (done : Except AccountError Unit → Frame) : System :=
  match outcome with
  | .ok store => { s with store, ledger := s.ledger ++ [entry] }.setCall call (done (.ok ()))
  | .error error => s.setCall call (done (.error error))

/-- The entry for a session that is opened. -/
def entry (session : LoginSession) (result : LoginResult) (renews : Option Text) : Entry :=
  .issued ⟨result.sessionToken, session.userId, session.credentialVersion, session.expiresAt,
    renews⟩

/-- The next step of a call that has come as far as `frame`. -/
def advance (call : ℕ) (random : Random) : Frame → System
  | .login request =>
    match verifyUser config s.store request with
    | .ok user => s.setCall call (.loginVerified user)
    | .error error => s.setCall call (.loggedIn (.error error))
  | .loginVerified user =>
    match newSession config user s.clock random with
    | .ok (session, result) => s.setCall call (.loginGenerated session result)
    | .error error => s.setCall call (.loggedIn (.error error))
  | .loginGenerated session result =>
    s.commit call (s.store.insertSessionIfCurrent session session.createdAt)
      (entry session result none) fun outcome => .loggedIn (outcome.map fun _ => result)
  | .resolve token =>
    match config.tokenDigest token with
    | .ok digest =>
      s.setCall call (.resolveFound token s.ledger.length (s.store.findSession digest))
    | .error error => s.setCall call (.resolved token s.ledger.length s.clock (.error error))
  | .resolveFound token ledger stored =>
    s.setCall call (.resolved token ledger s.clock (resolution stored s.clock))
  | .renew token =>
    match config.tokenDigest token with
    | .ok digest => s.setCall call (.renewFound token (s.store.findSession digest))
    | .error error => s.setCall call (.renewed token (.error error))
  | .renewFound token stored =>
    match replacement config stored s.clock random with
    | .ok (session, result) => s.setCall call (.renewGenerated token session result)
    | .error error => s.setCall call (.renewed token (.error error))
  | .renewGenerated token session result =>
    s.commit call (s.store.rotateSessionIfCurrent (config.digest token) session session.createdAt)
      (entry session result (some token)) fun outcome =>
        .renewed token (outcome.map fun _ => result)
  | .logout token =>
    match config.tokenDigest token with
    | .ok _ =>
      if 0 < s.clock then s.setCall call (.logoutReady token s.clock)
      else s.setCall call (.loggedOut token (.error .internalError))
    | .error error => s.setCall call (.loggedOut token (.error error))
  | .logoutReady token now =>
    s.commit call (s.store.revokeSession (config.digest token) now) (.loggedOut token)
      (.loggedOut token)
  | .loggedIn _ | .resolved _ _ _ _ | .renewed _ _ | .loggedOut _ _ => s

/-- A call that ends with an error, if it has not ended. `ResolveSession` has no such error: what it
    reads is there. -/
def abandon (call : ℕ) (error : AccountError) : Frame → System
  | .login _ | .loginVerified _ | .loginGenerated _ _ => s.setCall call (.loggedIn (.error error))
  | .renew token | .renewFound token _ | .renewGenerated token _ _ =>
    s.setCall call (.renewed token (.error error))
  | .logout token | .logoutReady token _ => s.setCall call (.loggedOut token (.error error))
  | .resolve _ | .resolveFound _ _ _ | .loggedIn _ | .resolved _ _ _ _ | .renewed _ _
  | .loggedOut _ _ => s

def step : Event → System
  | .start call request =>
    if s.calls.find call = none then s.setCall call request.frame else s
  | .next call random =>
    match s.calls.find call with
    | none => s
    | some frame => s.advance config call random frame
  | .fail call error =>
    match s.calls.find call with
    | none => s
    | some frame => s.abandon call error frame
  | .changeUser id status version =>
    { s with
      store := s.store.changeUser id status version
      ledger := s.ledger ++ [.changed id status version] }
  | .pass seconds => { s with clock := s.clock + seconds }

/-- The system after some events, from users without sessions. -/
def after (users : List StoredUser) (clock : ℤ) (events : List Event) : System :=
  run (step config) { store := { users }, clock } events

end System

end Packetia.Account
