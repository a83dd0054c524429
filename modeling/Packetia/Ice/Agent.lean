import Packetia.Lib.Run
import Packetia.Net.SocketAddr

/-!
# The ICE agent

`IceAgent` (`protocol/ice/IceAgent.cpp`) answers the connectivity checks of a peer. A check is a
Binding request that names the user fragments of both sides and is signed with the local
password. The address that the controlling side nominates with USE-CANDIDATE becomes the selected
peer. Checks from it keep the agent alive; without one for `timeout_ms_`, it fails.

Every reading of the clock is an argument of the call that makes it. `HandleDatagram` reads it
twice, for the watchdog and for the check that has been accepted.
-/

namespace Packetia.Ice

open Stun Net

inductive Role
  | controlling
  | controlled
  deriving DecidableEq

structure IceContext where
  localUfrag : List Byte := []
  localPwd : List Byte := []
  remoteUfrag : List Byte := []
  remotePwd : List Byte := []
  role : Role := .controlled

variable (ctx : IceContext)

namespace IceContext

def hasLocalCredentials : Bool := ctx.localUfrag ≠ [] ∧ ctx.localPwd ≠ []

def isControlling : Bool := ctx.role = .controlling

def inboundIntegrityKey : List Byte := ctx.localPwd

end IceContext

/-! ## The lifecycle -/

inductive State
  | new
  | checking
  | completed
  | failed
  | closed
  deriving DecidableEq

inductive Event
  | start
  | check
  | nominate
  | credentialsChanged
  | timeout
  | close
  deriving DecidableEq

/-- The table of `lifecycle_`. -/
def transitions : List (State × Event × State) := [
  (.new, .start, .checking),
  (.checking, .start, .checking),
  (.completed, .start, .checking),
  (.failed, .start, .checking),
  (.new, .check, .checking),
  (.checking, .check, .checking),
  (.completed, .check, .completed),
  (.checking, .nominate, .completed),
  (.completed, .nominate, .completed),
  (.new, .credentialsChanged, .new),
  (.checking, .credentialsChanged, .checking),
  (.completed, .credentialsChanged, .checking),
  (.checking, .timeout, .failed),
  (.completed, .timeout, .failed),
  (.new, .close, .closed),
  (.checking, .close, .closed),
  (.completed, .close, .closed),
  (.failed, .close, .closed),
  (.closed, .close, .closed)]

/-- `StateMachine::Process`, for a table without guards and actions: the next state, if the event
    is accepted. -/
def process (state : State) (event : Event) : Option State :=
  (transitions.find? fun row => row.1 = state ∧ row.2.1 = event).map fun row => row.2.2

/-! ## The agent -/

inductive HandleResult
  | notStun
  | ignored
  | errorResponse
  | successResponse
  deriving DecidableEq

structure Agent where
  ctx : IceContext := {}
  timeoutMs : ℕ := 0
  lastCheckMs : ℕ := 0
  selectedPeer : SocketAddr := .none
  state : State := .new

def kMaxStunPacketSize : ℕ := 1500

namespace Agent

variable (a : Agent)

/-- `Transition`: the agent, and whether the event is accepted. -/
def transition (event : Event) : Agent × Bool :=
  match process a.state event with
  | none => (a, false)
  | some state =>
    ({ a with
        state
        selectedPeer := if event ≠ .check ∧ event ≠ .nominate then .none else a.selectedPeer },
      true)

def hasSelectedPeer : Bool := a.state = .completed

def startLiveness (timeoutMs nowMs : ℕ) : Agent × Bool :=
  if timeoutMs = 0 ∨ (a.transition .start).2 = false then (a, false)
  else ({ (a.transition .start).1 with timeoutMs, lastCheckMs := nowMs }, true)

def close : Agent := ({ a with timeoutMs := 0 }.transition .close).1

def checkLiveness (nowMs : ℕ) : Agent × Bool :=
  if a.state = .failed ∨ a.state = .closed then (a, false)
  else if a.timeoutMs = 0 then (a, true)
  else if nowMs ≥ a.lastCheckMs ∧ nowMs - a.lastCheckMs ≥ a.timeoutMs then
    ((a.transition .timeout).1, false)
  else (a, true)

def setLocalCredentials (ufrag pwd : List Byte) : Agent :=
  let a' := if ufrag ≠ a.ctx.localUfrag ∨ pwd ≠ a.ctx.localPwd then
    (a.transition .credentialsChanged).1 else a
  { a' with ctx := { a'.ctx with localUfrag := ufrag, localPwd := pwd } }

def setRemoteCredentials (ufrag pwd : List Byte) : Agent :=
  let a' := if ufrag ≠ a.ctx.remoteUfrag ∨ pwd ≠ a.ctx.remotePwd then
    (a.transition .credentialsChanged).1 else a
  { a' with ctx := { a'.ctx with remoteUfrag := ufrag, remotePwd := pwd } }

end Agent

/-! ## Binding requests -/

/-- A colon. -/
def colon : Byte := 0x3A

/-- `ValidateUsername`: the remote user fragment. -/
def validateUsername (msg : StunMessageInfo) : Option (List Byte) := do
  let username ← decodeUsername msg
  guard (colon ∈ username)
  let loc := username.takeWhile (· ≠ colon)
  let remote := (username.dropWhile (· ≠ colon)).tail
  guard ¬(loc ≠ ctx.localUfrag ∨ remote = [] ∨ colon ∈ remote)
  guard ¬(ctx.remoteUfrag ≠ [] ∧ remote ≠ ctx.remoteUfrag)
  pure remote

def hasRoleConflict (msg : StunMessageInfo) : Bool :=
  if ctx.isControlling then (decodeIceControlling msg).isSome
  else (decodeIceControlled msg).isSome

/-- The attributes before MESSAGE-INTEGRITY that have to be understood and are not, each once,
    behind those in `unknown`. -/
def unknownIn (unknown : List (BitVec 16)) : List AttrView → List (BitVec 16)
  | [] => unknown
  | a :: rest =>
    if a.type = AttrType.messageIntegrity.code then unknown
    else if a.type < 0x8000 ∧ a.type ≠ AttrType.username.code ∧
        a.type ≠ AttrType.priority.code ∧ a.type ≠ AttrType.useCandidate.code ∧
        a.type ∉ unknown then unknownIn (unknown ++ [a.type]) rest
    else unknownIn unknown rest

/-- The role, the priority and the nomination do not fit together. -/
def BadIceAttributes (msg : StunMessageInfo) : Prop :=
  let hasControlling := (decodeIceControlling msg).isSome
  let hasControlled := (decodeIceControlled msg).isSome
  let bothRoles := msg.hasAttr .iceControlling && msg.hasAttr .iceControlled
  decodePriority msg = none ∨ decodePriority msg = some 0 ∨ bothRoles = true ∨
    hasControlling = hasControlled ∨
    ∃ nomination ∈ msg.findAttr .useCandidate, nomination.len ≠ 0 ∨ hasControlling = false
  deriving Decidable

section Hmac

variable (hmac : Hmac)

/-- `BuildError`: the response, empty if it cannot be built. -/
def buildError (ctx : IceContext) (msg : StunMessageInfo) (code : ℕ) (reason : String)
    (unknown : List (BitVec 16)) : List Byte :=
  let err : StunErrorCode := {
    code
    reason := reason.toList.map fun c => BitVec.ofNat 8 c.toNat
    unknownAttributes := unknown }
  (buildBindingError hmac msg err (if code = 400 ∨ code = 401 then [] else ctx.inboundIntegrityKey)
    kMaxStunPacketSize).getD []

/-- `BuildSuccess`. -/
def buildSuccess (ctx : IceContext) (src : SocketAddr) (msg : StunMessageInfo) :
    Option (List Byte) := do
  let mapped ← src.endpoint
  buildIceBindingSuccess hmac msg mapped ctx.inboundIntegrityKey true kMaxStunPacketSize

/-- `HandleBindingRequest`, up to where the request is accepted: the remote user fragment and the
    response, or the result and the response of a request that is not. -/
def validateRequest (ctx : IceContext) (src : SocketAddr) (msg : StunMessageInfo) :
    Except (HandleResult × List Byte) (List Byte × List Byte) :=
  if ctx.hasLocalCredentials = false then .error (.ignored, [])
  else if msg.hasAttr .fingerprint = false ∨ verifyFingerprint msg = false then
    .error (.ignored, [])
  else if msg.hasAttr .username = false ∨ msg.hasAttr .messageIntegrity = false then
    .error (.errorResponse, buildError hmac ctx msg 400 "Missing credentials" [])
  else
    match validateUsername ctx msg with
    | none => .error (.errorResponse, buildError hmac ctx msg 401 "Bad USERNAME" [])
    | some remote =>
      if verifyMessageIntegrity hmac msg ctx.inboundIntegrityKey = false then
        .error (.errorResponse, buildError hmac ctx msg 401 "Bad MESSAGE-INTEGRITY" [])
      else if BadIceAttributes msg then
        .error (.errorResponse, buildError hmac ctx msg 400 "Bad ICE attributes" [])
      else if unknownIn [] msg.attrs ≠ [] then
        .error (.errorResponse,
          buildError hmac ctx msg 420 "Unknown Attribute" (unknownIn [] msg.attrs))
      else if hasRoleConflict ctx msg then
        .error (.errorResponse, buildError hmac ctx msg 487 "Role Conflict" [])
      else
        match buildSuccess hmac ctx src msg with
        | none => .error (.ignored, [])
        | some response => .ok (remote, response)

namespace Agent

variable (a : Agent)

/-- The remote user fragment is learnt from the first request that is accepted. -/
def learn (remote : List Byte) : Agent :=
  if a.ctx.remoteUfrag = [] then { a with ctx := { a.ctx with remoteUfrag := remote } } else a

variable (src : SocketAddr)

/-- The source of a request with USE-CANDIDATE is selected. -/
def select (msg : StunMessageInfo) : Agent :=
  if a.ctx.isControlling = false ∧ hasUseCandidate msg = true ∧
      (a.hasSelectedPeer = false ∨ a.selectedPeer.same src = false) then
    ({ a with selectedPeer := src }.transition .nominate).1
  else a

/-- A request from the selected peer resets the watchdog. -/
def refresh (nowMs : ℕ) : Agent :=
  if a.timeoutMs ≠ 0 ∧ a.hasSelectedPeer = true ∧ a.selectedPeer.same src = true then
    { a with lastCheckMs := nowMs }
  else a

/-- The rest of `HandleBindingRequest`. -/
def accept (msg : StunMessageInfo) (remote : List Byte) (nowMs : ℕ) : Agent :=
  (((a.transition .check).1.learn remote).select src msg).refresh src nowMs

/-- `HandleDatagram`: the agent, the result and the response. -/
def handleDatagram (data : List Byte) (checkMs nowMs : ℕ) :
    Agent × HandleResult × List Byte :=
  let alive := a.checkLiveness checkMs
  if alive.2 = false then (alive.1, .ignored, [])
  else
    match parse data with
    | none => (alive.1, .notStun, [])
    | some msg =>
      if msg.raw.length ≠ data.length ∨ msg.isBindingRequest = false then
        (alive.1, .ignored, [])
      else
        match validateRequest hmac alive.1.ctx src msg with
        | .error (result, response) => (alive.1, result, response)
        | .ok (remote, response) =>
          (alive.1.accept src msg remote nowMs, .successResponse, response)

end Agent

/-- The calls. -/
inductive Call
  | handleDatagram (src : SocketAddr) (data : List Byte) (checkMs nowMs : ℕ)
  | startLiveness (timeoutMs nowMs : ℕ)
  | checkLiveness (nowMs : ℕ)
  | setLocalCredentials (ufrag pwd : List Byte)
  | setRemoteCredentials (ufrag pwd : List Byte)
  | close

namespace Agent

def step (a : Agent) : Call → Agent
  | .handleDatagram src data checkMs nowMs => (a.handleDatagram hmac src data checkMs nowMs).1
  | .startLiveness timeoutMs nowMs => (a.startLiveness timeoutMs nowMs).1
  | .checkLiveness nowMs => (a.checkLiveness nowMs).1
  | .setLocalCredentials ufrag pwd => a.setLocalCredentials ufrag pwd
  | .setRemoteCredentials ufrag pwd => a.setRemoteCredentials ufrag pwd
  | .close => a.close

/-- The agent after the calls `calls`. -/
def after (calls : List Call) : Agent := run (step hmac) {} calls

end Agent

end Hmac

end Packetia.Ice
