import Packetia.Ice.Agent
import Packetia.Lib.Table
import Packetia.Net.Classifier

/-!
# Sessions on one UDP port

`WebRtcUdpMux` (`protocol/WebRtc/WebRtcUdpMux.cpp`): sessions share a UDP port. A STUN request is
routed by the user fragment in its USERNAME, anything else by its source, which a session has to
bind first (`BindPeer`).

A datagram is looked up under the lock and handed to the transport of its session later, by a
delivery that runs on another executor. An entry of the table has a flag of its own, `active`,
which a delivery reads before it hands over the datagram; entries and flags are numbered here.
Without a `dispatch` the delivery runs on the thread that has received the datagram, but after the
lock is given back, so it is left to run as well. Transports are numbered as well. They can be
closed by others at any time, and the UDP server decides too whether one is writable.
-/

namespace Packetia.WebRtc

open Net

/-- A user fragment. -/
abbrev Ufrag := List Byte

structure Entry where
  transport : ℕ
  peer : SocketAddr := .none
  /-- The number of its flag. -/
  active : ℕ

/-- A datagram on its way to a transport. What it was looked up under, `ufrag`, and the number of
    the datagram are not kept by the code. -/
structure Delivery where
  number : ℕ
  transport : ℕ
  active : ℕ
  source : SocketAddr
  packet : List Byte
  ufrag : Ufrag

/-- A datagram that was handed to a transport. -/
structure Handed where
  number : ℕ
  transport : ℕ
  source : SocketAddr
  packet : List Byte

structure Mux where
  sessions : Table Ufrag Entry := .empty
  peers : Table SocketAddr Ufrag := .empty
  closed : Bool := false
  /-- The flags, by number. -/
  flags : ℕ → Bool := fun _ => false
  entries : ℕ := 0
  /-- The transports that are closed, by number. -/
  closedTransports : ℕ → Bool := fun _ => false
  transports : ℕ := 0
  /-- The number of datagrams received so far. -/
  datagrams : ℕ := 0
  pending : List Delivery := []
  handed : List Handed := []

/-- The UDP server during a call. -/
structure Server where
  expired : Bool
  writable : Bool

/-- The characters of a user fragment. -/
def isIceChar (c : Byte) : Bool :=
  0x61 ≤ c && c ≤ 0x7A || 0x41 ≤ c && c ≤ 0x5A || 0x30 ≤ c && c ≤ 0x39 || c = 0x2B || c = 0x2F

def validUfrag (ufrag : Ufrag) : Bool :=
  4 ≤ ufrag.length && ufrag.length ≤ 256 && ufrag.all isIceChar

namespace Mux

variable (m : Mux)

variable (server : Server) (localUfrag : Ufrag) (peer : SocketAddr)

/-- `UdpDatagramTransport::IsWritable`. -/
def isWritable (transport : ℕ) : Bool :=
  !m.closedTransports transport && !server.expired && server.writable

/-- `UdpDatagramTransport::Close`. -/
def closeTransport (transport : ℕ) : Mux :=
  { m with closedTransports := Function.update m.closedTransports transport true }

def deactivate (flag : ℕ) : Mux := { m with flags := Function.update m.flags flag false }

/-- An entry for `ufrag` with a flag of its own, which is set. -/
def emplace (ufrag : Ufrag) (transport : ℕ) : Mux :=
  { m with
    sessions := m.sessions.set ufrag { transport, active := m.entries }
    flags := Function.update m.flags m.entries true
    entries := m.entries + 1 }

/-- `Register`: the transport, if there is one. -/
def register (id : BitVec 64) (localUfrag : Ufrag) : Mux × Option ℕ :=
  if m.closed ∨ id = 0 ∨ server.expired ∨ (m.sessions.find localUfrag).isSome ∨
      validUfrag localUfrag = false then (m, none)
  else
    ({ m.emplace localUfrag m.transports with transports := m.transports + 1 }, some m.transports)

/-- The address, if there is one, is free. -/
def freePeer : Mux :=
  { m with peers := if peer ≠ .none then m.peers.erase peer else m.peers }

def unregister : Mux :=
  match m.sessions.find localUfrag with
  | none => m
  | some session =>
    let m := ((m.freePeer session.peer).deactivate session.active).closeTransport session.transport
    { m with sessions := m.sessions.erase localUfrag }

/-- Atomically replaces the generation without closing the transport. -/
def restart (oldUfrag newUfrag : Ufrag) : Mux × Bool :=
  match m.sessions.find oldUfrag with
  | none => (m, false)
  | some previous =>
    if m.closed ∨ m.isWritable server previous.transport = false ∨
        (m.sessions.find newUfrag).isSome ∨ validUfrag newUfrag = false then (m, false)
    else
      let m := ((m.emplace newUfrag previous.transport).deactivate previous.active).freePeer
        previous.peer
      ({ m with sessions := m.sessions.erase oldUfrag }, true)

/-- The session under `ufrag`, if there is one, has `peer` now. -/
def setPeer (ufrag : Ufrag) (peer : SocketAddr) : Mux :=
  { m with
    sessions := match m.sessions.find ufrag with
      | none => m.sessions
      | some session => m.sessions.set ufrag { session with peer } }

/-- The other session that has `peer`. -/
def otherOwner : Option Ufrag := (m.peers.find peer).filter fun ufrag => ufrag ≠ localUfrag

/-- The address belongs to another session that can use it. -/
def ownerWritable : Bool :=
  ((m.otherOwner localUfrag peer).bind m.sessions.find).any fun owner =>
    m.isWritable server owner.transport

def bindPeer : Mux × Bool :=
  match m.sessions.find localUfrag with
  | none => (m, false)
  | some session =>
    if m.closed ∨ m.isWritable server session.transport = false ∨ peer.isValid = false ∨
        peer.port = 0 then (m, false)
    else if m.ownerWritable server localUfrag peer then (m, false)
    else
      let previousOwner := m.otherOwner localUfrag peer
      let m := { m with peers := m.peers.set peer localUfrag }
      let m := match previousOwner with
        | none => m
        | some ufrag => m.setPeer ufrag .none
      let m := if session.peer ≠ peer then m.freePeer session.peer else m
      (m.setPeer localUfrag peer, true)

/-- `Close`. -/
def close : Mux :=
  if m.closed then m
  else
    let entries := m.sessions.keys.filterMap m.sessions.find
    let m := { m with closed := true }
    let m := entries.foldl (fun m session =>
      (m.deactivate session.active).closeTransport session.transport) m
    { m with peers := .empty, sessions := .empty }

/-- The user fragment by which a STUN message is routed. -/
def stunUfrag (data : List Byte) : Option Ufrag := do
  let message ← Stun.parse data
  guard (message.raw.length = data.length ∧ message.isBindingRequest = true)
  let username ← Stun.decodeUsername message
  let separator := username.idxOf Ice.colon
  guard (separator < username.length ∧ 4 ≤ separator ∧ separator ≤ 256 ∧
    separator + 1 ≠ username.length ∧
    (username.drop (separator + 1)).contains Ice.colon = false)
  pure (username.take separator)

/-- The user fragment under which a datagram is looked up. -/
def route (source : SocketAddr) (data : List Byte) : Option Ufrag :=
  match classify data with
  | .stun => stunUfrag data
  | .unknown => none
  | _ => m.peers.find source

/-- The section of `OnDatagram` under the lock: the delivery that is left to run, if any. -/
def lookup (source : SocketAddr) (data : List Byte) : Option Delivery :=
  if data = [] ∨ source = .none ∨ m.closed then none
  else do
    let ufrag ← m.route source data
    let session ← m.sessions.find ufrag
    pure {
      number := m.datagrams, transport := session.transport, active := session.active, source,
      packet := data, ufrag }

/-- `OnDatagram`. A delivery that is dropped is one that never runs. -/
def onDatagram (source : SocketAddr) (data : List Byte) : Mux :=
  { m with
    pending := m.pending ++ (m.lookup source data).toList
    datagrams := m.datagrams + 1 }

/-- The `i`-th delivery runs. -/
def deliver (i : ℕ) : Mux :=
  match m.pending[i]? with
  | none => m
  | some d =>
    let m := { m with pending := m.pending.eraseIdx i }
    if m.flags d.active then
      { m with handed := m.handed ++ [⟨d.number, d.transport, d.source, d.packet⟩] }
    else m

/-! ## Runs -/

inductive Call
  | register (server : Server) (id : BitVec 64) (localUfrag : Ufrag)
  | unregister (localUfrag : Ufrag)
  | restart (server : Server) (oldUfrag newUfrag : Ufrag)
  | bindPeer (server : Server) (localUfrag : Ufrag) (peer : SocketAddr)
  | close
  | onDatagram (source : SocketAddr) (data : List Byte)
  | deliver (i : ℕ)
  /-- A transport is closed by others. -/
  | closeTransport (transport : ℕ)

def step : Call → Mux
  | .register server id localUfrag => (m.register server id localUfrag).1
  | .unregister localUfrag => m.unregister localUfrag
  | .restart server oldUfrag newUfrag => (m.restart server oldUfrag newUfrag).1
  | .bindPeer server localUfrag peer => (m.bindPeer server localUfrag peer).1
  | .close => m.close
  | .onDatagram source data => m.onDatagram source data
  | .deliver i => m.deliver i
  | .closeTransport transport => m.closeTransport transport

/-- The mux after the calls `calls`. -/
def after (calls : List Call) : Mux := Packetia.run step {} calls

end Mux

end Packetia.WebRtc
