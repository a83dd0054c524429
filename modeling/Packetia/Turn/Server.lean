import Packetia.Lib.Run
import Packetia.Lib.Table
import Packetia.Turn.Auth

/-!
# The TURN server

`TurnServer::Impl` (`protocol/turn/TurnServer.cpp`). A client, known by its address, asks for an
allocation, an address of the server from which it can exchange datagrams with peers. It has to
ask for a permission for the IP address of a peer first. A channel is a short name for a peer.
Allocations, permissions and channels expire unless they are asked for again.

A datagram is handled in one step. What the handling gets from outside is in `Env`: the readings
of the clock, of which it makes up to three, the answers of `allow_peer`, the table of passwords,
random bytes, and whether a relay socket can be opened. The answers to clients and the datagrams
that are relayed are outputs of the step.
-/

namespace Packetia.Turn

open Stun Net StunMethod

/-! ## Constants -/

def kPermissionMs : ℕ := 300000

def kChannelMs : ℕ := 600000

def kSessionIdleMs : ℕ := 60000

def kCacheMs : ℕ := 40000

def kMaxCachedResponses : ℕ := 8

def kMaxControlBytes : ℕ := 4096

def kMaxUdpDatagramBytes : ℕ := 65507

def kDefaultLifetime : ℕ := 600

def kMaxLifetime : ℕ := 3600

/-! ## Addresses -/

def UnicastV4 (hostIp : BitVec 32) : Prop := hostIp >>> 24 ≠ 0 ∧ hostIp >>> 28 < 14
  deriving Decidable

/-- `IN6_IS_ADDR_V4MAPPED`. -/
def IsV4Mapped (ip : Octets 16) : Prop :=
  ip.1.take 10 = List.replicate 10 0 ∧ (ip.1.drop 10).take 2 = [0xFF, 0xFF]
  deriving Decidable

def unicast : SocketAddr → Bool
  | .none => false
  | .v4 ip _ => UnicastV4 (u32At ip.1 0)
  | .v6 ip _ scope =>
    scope = 0 ∧ ip.1 ≠ List.replicate 16 0 ∧ byteAt ip.1 0 ≠ 0xFF ∧ ¬IsV4Mapped ip

/-- `PublicPeer`, the default for `allow_peer`. -/
def publicPeer : SocketAddr → Bool
  | .none => false
  | .v4 ip _ =>
    let ip := u32At ip.1 0
    UnicastV4 ip ∧ ip >>> 24 ≠ 10 ∧ ip >>> 24 ≠ 127 ∧ ip &&& 0xFFF00000 ≠ 0xAC100000 ∧
      ip &&& 0xFFFF0000 ≠ 0xC0A80000 ∧ ip &&& 0xFFFF0000 ≠ 0xA9FE0000 ∧
      ip &&& 0xFFC00000 ≠ 0x64400000 ∧ ip &&& 0xFFFE0000 ≠ 0xC6120000
  | .v6 ip port scope =>
    let b₀ := byteAt ip.1 0
    let b₁ := byteAt ip.1 1
    unicast (.v6 ip port scope) ∧ ip.1 ≠ List.replicate 15 0 ++ [1] ∧
      ¬(b₀ = 0xFE ∧ b₁ &&& 0xC0 = 0x80) ∧ b₀ &&& 0xFE ≠ 0xFC ∧ ¬(b₀ = 0xFE ∧ b₁ &&& 0xC0 = 0xC0) ∧
      ip.1.take 12 ≠ List.replicate 12 0

/-- `PeerIp`: permissions do not depend on the port. -/
def peerIp : SocketAddr → SocketAddr
  | .none => .none
  | .v4 ip _ => .v4 ip 0
  | .v6 ip _ scope => .v6 ip 0 scope

def withPort (port : BitVec 16) : SocketAddr → SocketAddr
  | .none => .none
  | .v4 ip _ => .v4 ip port
  | .v6 ip _ scope => .v6 ip port scope

/-- `Endpoint`. -/
def endpointOf (addr : SocketAddr) : IpEndpoint := addr.endpoint.getD {}

/-- `Deadline`: the sum, which stays at the largest number. -/
def deadline (now duration : ℕ) : ℕ :=
  if duration > 2 ^ 64 - 1 - now then 2 ^ 64 - 1 else now + duration

/-! ## Attributes -/

/-- The loop of `AttributeCount`, up to and including MESSAGE-INTEGRITY. -/
def countThrough (t : AttrType) : List AttrView → ℕ
  | [] => 0
  | a :: rest =>
    (if a.type = t.code then 1 else 0) +
      if a.type = AttrType.messageIntegrity.code then 0 else countThrough t rest

section

variable (msg : StunMessageInfo)

def attributeCount (t : AttrType) : ℕ := countThrough t msg.attrs

def ValidFingerprint : Prop :=
  countAttrs .fingerprint msg.attrs = 0 ∨
    countAttrs .fingerprint msg.attrs = 1 ∧ verifyFingerprint msg = true
  deriving Decidable

/-- The attributes that a method takes. -/
def allowedAttributes (method : StunMethod) : List AttrType :=
  if method = binding then [.mappedAddress, .username, .messageIntegrity,
    .messageIntegritySha256, .errorCode, .unknownAttributes, .channelNumber, .lifetime,
    .xorPeerAddress, .data, .realm, .nonce, .xorRelayedAddress, .requestedAddressFamily,
    .requestedTransport, .xorMappedAddress, .priority, .useCandidate]
  else
    (if method ≠ send then [.username, .realm, .nonce] else []) ++
    if method = allocate then [.requestedTransport, .lifetime, .requestedAddressFamily]
    else if method = refresh then [.lifetime]
    else if method = createPermission then [.xorPeerAddress]
    else if method = channelBind then [.xorPeerAddress, .channelNumber]
    else if method = send then [.xorPeerAddress, .data]
    else []

/-- `AllowedAttribute`. -/
def AllowedAttribute (method : StunMethod) (raw : BitVec 16) : Prop :=
  raw ∈ (allowedAttributes method).map AttrType.code
  deriving Decidable

/-- The loop of `UnknownAttributes`, with those found so far. -/
def unknownIn (method : StunMethod) (unknown : List (BitVec 16)) : List AttrView → List (BitVec 16)
  | [] => unknown
  | a :: rest =>
    if a.type = AttrType.messageIntegrity.code ∨
        method = binding ∧ a.type = AttrType.messageIntegritySha256.code then unknown
    else if a.type < 0x8000 ∧ ¬AllowedAttribute method a.type ∧ unknown.contains a.type = false
    then unknownIn method (unknown ++ [a.type]) rest
    else unknownIn method unknown rest

def unknownAttributes : List (BitVec 16) := unknownIn msg.method [] msg.attrs

/-- The XOR-PEER-ADDRESS attributes before MESSAGE-INTEGRITY. -/
def peerAttrs : List AttrView → List AttrView
  | [] => []
  | a :: rest =>
    if a.type = AttrType.messageIntegrity.code then []
    else if a.type ≠ AttrType.xorPeerAddress.code then peerAttrs rest
    else a :: peerAttrs rest

end

/-! ## State -/

structure Channel where
  peer : SocketAddr
  expires : ℕ

/-- An allocation. Its relay socket is known by the generation. -/
structure Allocation where
  advertised : SocketAddr
  username : List Byte
  transaction : TxId
  request : List Byte
  generation : ℕ
  expires : ℕ
  permissions : Table SocketAddr ℕ := .empty
  channels : Table (BitVec 16) Channel := .empty

structure CachedResponse where
  transaction : TxId
  request : List Byte
  response : List Byte
  expires : ℕ
  unauthorized : Bool

structure Session where
  auth : TurnAuthContext := {}
  allocation : Option Allocation := none
  cache : List CachedResponse := []
  lastActivity : ℕ := 0

/-- `TurnServerOptions`. An address is `none` if its text is empty. -/
structure TurnServerOptions where
  advertisedIp : Option SocketAddr
  advertisedIpV6 : Option SocketAddr
  auth : TurnAuth
  maxSessions : ℕ
  maxAllocations : ℕ
  maxAllocationsPerUser : ℕ
  maxPermissions : ℕ
  maxChannels : ℕ

structure Server where
  sessions : Table SocketAddr Session := .empty
  generation : ℕ := 0

/-- What the handling of a datagram gets from outside. -/
structure Env where
  /-- The clock when the datagram arrives, which `Prune` gets. -/
  pruneMs : ℕ
  /-- The clock in `HandleRequest` or `HasPermission`. -/
  handleMs : ℕ
  auth : AuthEnv
  /-- `allow_peer`, if it is set. -/
  allowPeer : Option (SocketAddr → Bool)
  /-- `OpenRelay`: the port of the socket, if one can be opened. -/
  openRelay : IpFamily → Option (BitVec 16)
  /-- The transaction of a Data indication. -/
  txid : Option TxId

inductive Output
  /-- An answer, in `SendResponse`, which may hold back a 401. -/
  | response (client : SocketAddr) (message : List Byte) (unauthorized : Bool)
  /-- An answer to a Binding request. -/
  | binding (client : SocketAddr) (message : List Byte)
  /-- Data from the client, sent by its relay socket. -/
  | toPeer (client : SocketAddr) (generation : ℕ) (peer : SocketAddr) (payload : List Byte)
  /-- Data from a peer, for the client. -/
  | toClient (client : SocketAddr) (generation : ℕ) (peer : SocketAddr) (packet : List Byte)

/-! ## Expiry -/

variable (env : Env) (msg : StunMessageInfo) (a : Allocation) (peer : SocketAddr)

def Allocation.prune (now : ℕ) : Allocation :=
  { a with
    permissions := a.permissions.filterMap fun _ expires =>
      if now ≥ expires then none else some expires
    channels := a.channels.filterMap fun _ c => if now ≥ c.expires then none else some c }

/-- The body of the loop of `Prune`: the session, unless it is dropped. -/
def Session.prune (s : Session) (now : ℕ) : Option Session :=
  let s := { s with
    cache := s.cache.dropWhile fun c => now ≥ c.expires
    allocation := (s.allocation.filter fun a => ¬now ≥ a.expires).map (·.prune now) }
  if s.allocation.isNone ∧ now ≥ s.lastActivity ∧ now - s.lastActivity ≥ kSessionIdleMs then none
  else some s

namespace Server

variable (sv : Server)

def prune (now : ℕ) : Server :=
  { sv with sessions := sv.sessions.filterMap fun _ s => s.prune now }

/-- `AllocationCount`, of all users if the name is empty. -/
def allocationCount (username : List Byte) : ℕ :=
  sv.sessions.count fun _ s => s.allocation.any fun a => username = [] ∨ a.username = username

/-- The allocation of a client. -/
def allocationOf (client : SocketAddr) : Option Allocation :=
  (sv.sessions.find client).bind Session.allocation

end Server

/-! ## Peers -/

def peerAllowed (requirePort : Bool) : Bool :=
  unicast peer ∧ (requirePort = false ∨ peer.port ≠ 0) ∧
    (match env.allowPeer with
      | some allow => allow peer
      | none => publicPeer peer) = true

def hasPermission : Bool :=
  (a.permissions.find (peerIp peer)).any fun expires => env.handleMs < expires

/-- `DecodePeer`: the peer that an attribute names, or the code of an error. -/
def decodePeer (attr : AttrView) (a : Allocation) : Except ℕ SocketAddr :=
  match decodeXorAddress { msg with attrs := [attr] } .xorPeerAddress with
  | none => .error kErrorBadRequest
  | some decoded =>
    if decoded.isIpv6 ≠ a.advertised.isV6 then .error kErrorPeerAddressFamilyMismatch
    else
      let out : SocketAddr := if decoded.isIpv6 then .v6 decoded.ip decoded.port 0
        else .v4 (octetsAt decoded.ip.1 0 4) decoded.port
      if peerAllowed env out (msg.method ≠ createPermission) then .ok out
      else .error kErrorForbidden

/-- The loop of `HandleRequest` over the peers. -/
def decodePeers (env : Env) (msg : StunMessageInfo) (a : Allocation) :
    List AttrView → Except ℕ (List SocketAddr)
  | [] => .ok []
  | attr :: rest =>
    match decodePeer env msg attr a with
    | .error code => .error code
    | .ok peer => (decodePeers env msg a rest).map (peer :: ·)

/-! ## Requests -/

section Hmac

variable (hmac : Hmac) (md5 : List Byte → Octets 16) (opts : TurnServerOptions)

/-- `Success`: the response, empty if it cannot be built. -/
def success (msg : StunMessageInfo) (key : List Byte) (attributes : List StunAttribute) :
    List Byte :=
  (buildMessage hmac msg.method .successResponse msg.txid attributes key true).getD []

/-- `Error`: the response, empty if it cannot be built. -/
def error (msg : StunMessageInfo) (code : ℕ) (key : List Byte) (unknown : List (BitVec 16)) :
    List Byte :=
  let attributes : List StunAttribute := [{
    type := AttrType.errorCode.code
    value := [0, 0, BitVec.ofNat 8 (code / 100), BitVec.ofNat 8 (code % 100)] }]
  let attributes := if unknown = [] then attributes else attributes ++ [{
    type := AttrType.unknownAttributes.code
    value := unknown.flatMap u16Bytes }]
  (buildMessage hmac msg.method .errorResponse msg.txid attributes key true).getD []

/-- What a request leaves behind: the allocation of the client, the last generation and the
    response. -/
structure Outcome where
  allocation : Option Allocation
  generation : ℕ
  response : List Byte

/-- The lifetime that a request asks for. -/
def readLifetime : Except ℕ ℕ :=
  if attributeCount msg .lifetime > 1 then .error kErrorBadRequest
  else if attributeCount msg .lifetime = 0 then .ok kDefaultLifetime
  else
    match decodeUInt32 msg .lifetime with
    | none => .error kErrorBadRequest
    | some lifetime => .ok lifetime.toNat

/-- `std::clamp`, to the lifetimes that are given. -/
def clampLifetime (lifetime : ℕ) : ℕ := max kDefaultLifetime (min lifetime kMaxLifetime)

/-- `HandleRequest`, for Refresh. -/
def handleRefresh (env : Env) (generation : ℕ) (allocation : Option Allocation)
    (msg : StunMessageInfo) (key : List Byte) (lifetime : ℕ) : Except ℕ Outcome :=
  match allocation with
  | none => .error kErrorAllocationMismatch
  | some a =>
    let lifetime := if lifetime ≠ 0 then clampLifetime lifetime else lifetime
    let response := success hmac msg key [uInt32Attribute .lifetime lifetime]
    .ok {
      generation, response
      allocation := if response = [] then some a
        else if lifetime = 0 then none
        else some { a with expires := deadline env.handleMs (lifetime * 1000) } }

/-- The family that an Allocate asks for. -/
def requestedFamily : Except ℕ IpFamily :=
  if attributeCount msg .requestedAddressFamily > 1 then .error kErrorBadRequest
  else
    match msg.findAttr .requestedAddressFamily with
    | none => .ok .ipv4
    | some family =>
      let value := byteAt msg.raw family.valueOffset
      if family.len ≠ 4 then .error kErrorBadRequest
      else if value ≠ 0x01 ∧ value ≠ 0x02 then .error kErrorBadRequest
      else .ok (if value = 0x02 then .ipv6 else .ipv4)

/-- The checks of an Allocate that do not depend on the state: the family and the address to be
    advertised. -/
def checkAllocate (msg : StunMessageInfo) :
    Except ℕ (IpFamily × SocketAddr) :=
  if attributeCount msg .requestedTransport ≠ 1 then .error kErrorBadRequest
  else
    match decodeRequestedTransport msg with
    | none => .error kErrorBadRequest
    | some transport =>
      if transport ≠ kUdpTransport then .error kErrorUnsupportedTransportProtocol
      else
        match requestedFamily msg with
        | .error code => .error code
        | .ok family =>
          match if family = .ipv6 then opts.advertisedIpV6 else opts.advertisedIp with
          | none => .error kErrorAddressFamilyNotSupported
          | some publicIp => .ok (family, publicIp)

/-- The answer to an Allocate, with the address of the allocation. -/
def allocateResponse (client : SocketAddr) (a : Allocation) (msg : StunMessageInfo)
    (key : List Byte) (lifetime : ℕ) : List Byte :=
  match xorAddressAttribute .xorRelayedAddress (endpointOf a.advertised) msg.txid,
      xorAddressAttribute .xorMappedAddress (endpointOf client) msg.txid with
  | some relay, some mapped =>
    success hmac msg key [relay, mapped, uInt32Attribute .lifetime lifetime]
  | _, _ => []

/-- `HandleRequest`, for Allocate. -/
def handleAllocate (env : Env) (sv : Server) (client : SocketAddr)
    (allocation : Option Allocation) (msg : StunMessageInfo) (authenticated : TurnAuthResult)
    (data : List Byte) (lifetime : ℕ) : Except ℕ Outcome :=
  let key := authenticated.integrityKey
  match checkAllocate opts msg with
  | .error code => .error code
  | .ok (family, publicIp) =>
    match allocation with
    | some a =>
      -- Only a retransmission of the request that made the allocation is answered.
      if a.transaction ≠ msg.txid then .error kErrorAllocationMismatch
      else if a.request ≠ data then .error kErrorBadRequest
      else
        let left := (a.expires + 2 ^ 64 - env.handleMs + 999) % 2 ^ 64 / 1000 % 2 ^ 32
        .ok {
          allocation := some a
          generation := sv.generation
          response := allocateResponse hmac client a msg key left }
    | none =>
      if sv.allocationCount [] ≥ opts.maxAllocations ∨
          sv.allocationCount authenticated.username ≥ opts.maxAllocationsPerUser then
        .error kErrorAllocationQuotaReached
      else
        match env.openRelay family with
        | none => .error kErrorInsufficientCapacity
        | some port =>
          let lifetime := clampLifetime lifetime
          let pending : Allocation := {
            advertised := withPort port publicIp
            username := authenticated.username
            transaction := msg.txid
            request := data
            generation := sv.generation + 1
            expires := deadline env.handleMs (lifetime * 1000) }
          let response := allocateResponse hmac client pending msg key lifetime
          .ok {
            response
            allocation := if response = [] then none else some pending
            generation := sv.generation + 1 }

/-- The permissions with the peers of a request. -/
def addPermissions (permissions : Table SocketAddr ℕ) (peers : List SocketAddr) :
    Table SocketAddr ℕ :=
  peers.foldl (fun t peer => t.set (peerIp peer) (deadline env.handleMs kPermissionMs)) permissions

/-- The channel that a ChannelBind asks for, if it may be bound to the peer. -/
def checkChannel : Except ℕ (BitVec 16) :=
  if attributeCount msg .channelNumber ≠ 1 then .error kErrorBadRequest
  else
    match decodeChannelNumber msg with
    | none => .error kErrorBadRequest
    | some channel =>
      if (a.channels.find channel).any fun c => c.peer.same peer = false then
        .error kErrorBadRequest
      else if a.channels.any fun ch c => ch ≠ channel ∧ c.peer.same peer = true then
        .error kErrorBadRequest
      else .ok channel

/-- `HandleRequest`, for CreatePermission and ChannelBind. -/
def handlePeers (env : Env) (generation : ℕ)
    (allocation : Option Allocation) (msg : StunMessageInfo) (key : List Byte) : Except ℕ Outcome :=
  match allocation with
  | none => .error kErrorAllocationMismatch
  | some a =>
    match decodePeers env msg a (peerAttrs msg.attrs) with
    | .error code => .error code
    | .ok [] => .error kErrorBadRequest
    | .ok (peer :: peers) =>
      let permissions := addPermissions env a.permissions (peer :: peers)
      let response := success hmac msg key []
      if msg.method = channelBind ∧ peers ≠ [] then .error kErrorBadRequest
      else if permissions.size > opts.maxPermissions then .error kErrorInsufficientCapacity
      else if msg.method = channelBind then
        match checkChannel msg a peer with
        | .error code => .error code
        | .ok channel =>
          let channels := a.channels.set channel
            { peer, expires := deadline env.handleMs kChannelMs }
          if channels.size > opts.maxChannels then .error kErrorInsufficientCapacity
          else .ok {
            generation, response
            allocation := some (if response = [] then a else { a with permissions, channels }) }
      else .ok {
        generation, response
        allocation := some (if response = [] then a else { a with permissions }) }

/-- The body of `HandleRequest`, after the checks that all methods share. -/
def handleMethod (env : Env) (sv : Server) (client : SocketAddr)
    (allocation : Option Allocation) (msg : StunMessageInfo) (authenticated : TurnAuthResult)
    (data : List Byte) : Except ℕ Outcome :=
  if msg.method = allocate ∨ msg.method = refresh then
    match readLifetime msg with
    | .error code => .error code
    | .ok lifetime =>
      if msg.method = refresh then
        handleRefresh hmac env sv.generation allocation msg authenticated.integrityKey lifetime
      else handleAllocate hmac opts env sv client allocation msg authenticated data lifetime
  else handlePeers hmac opts env sv.generation allocation msg authenticated.integrityKey

/-- `HandleRequest`, of a client with the allocation `allocation`. -/
def handleRequest (env : Env) (sv : Server) (client : SocketAddr)
    (allocation : Option Allocation) (msg : StunMessageInfo) (authenticated : TurnAuthResult)
    (data : List Byte) : Outcome :=
  let key := authenticated.integrityKey
  let refuse (code : ℕ) (unknown : List (BitVec 16)) : Outcome :=
    { allocation, generation := sv.generation, response := error hmac msg code key unknown }
  if allocation.any fun a => a.username ≠ authenticated.username then
    refuse (if msg.method = allocate then kErrorAllocationMismatch
      else kErrorWrongCredentials) []
  else if unknownAttributes msg ≠ [] then
    refuse kErrorUnknownAttribute (unknownAttributes msg)
  else
    match handleMethod hmac opts env sv client allocation msg authenticated data with
    | .error code => refuse code []
    | .ok outcome => outcome

/-! ## Datagrams -/

/-- The session with a response in its cache. -/
def Session.remember (s : Session) (c : CachedResponse) : Session :=
  let cache := s.cache ++ [c]
  { s with cache := if cache.length > kMaxCachedResponses then cache.tail else cache }

/-- A request of the session `session`, which is new or the one in the table. -/
def serve (env : Env) (sv : Server) (client : SocketAddr)
    (session : Session) (msg : StunMessageInfo) (data : List Byte) : Server × List Output :=
  let session := { session with lastActivity := env.pruneMs }
  let sv := { sv with sessions := sv.sessions.set client session }
  match session.cache.find? fun c => c.transaction = msg.txid with
  | some cached =>
    (sv, if cached.request = data then [.response client cached.response cached.unauthorized]
      else [])
  | none =>
    let (authenticated, context) := opts.auth.authenticate hmac md5 data session.auth env.auth
    let outcome :=
      if authenticated.status = .authorized then
        handleRequest hmac opts env sv client session.allocation msg authenticated data
      else {
        allocation := session.allocation
        generation := sv.generation
        response := if authenticated.status = .response then authenticated.response else [] }
    let session := { session with auth := context, allocation := outcome.allocation }
    let unauthorized : Bool :=
      authenticated.status = .response ∧ authenticated.errorCode = kErrorUnauthorized
    if outcome.response = [] then
      ({ sessions := sv.sessions.set client session, generation := outcome.generation }, [])
    else
      ({ sessions := sv.sessions.set client (session.remember {
            transaction := msg.txid
            request := data
            response := outcome.response
            expires := deadline env.pruneMs kCacheMs
            unauthorized })
         generation := outcome.generation },
        [.response client outcome.response unauthorized])

/-- The answer to a Binding request. -/
def bindingResponse (client : SocketAddr) (msg : StunMessageInfo) : List Byte :=
  if unknownAttributes msg ≠ [] then
    error hmac msg kErrorUnknownAttribute [] (unknownAttributes msg)
  else
    match xorAddressAttribute .xorMappedAddress (endpointOf client) msg.txid with
    | none => []
    | some mapped => success hmac msg [] [mapped]

/-- Channel data of a client, in the table after `Prune`. -/
def onChannelData (env : Env) (sv : Server) (client : SocketAddr) (d : TurnChannelData) :
    List Output :=
  match sv.allocationOf client with
  | none => []
  | some a =>
    match a.channels.find d.channel with
    | none => []
    | some binding =>
      if peerAllowed env binding.peer true then
        [.toPeer client a.generation binding.peer d.data]
      else []

/-- A Send indication of a client, in the table after `Prune`. -/
def onSend (env : Env) (sv : Server) (client : SocketAddr) (msg : StunMessageInfo) : List Output :=
  match sv.allocationOf client, msg.findAttr .xorPeerAddress, msg.findAttr .data with
  | some a, some attr, some payload =>
    if unknownAttributes msg ≠ [] ∨ attributeCount msg .xorPeerAddress ≠ 1 ∨
        attributeCount msg .data ≠ 1 then []
    else
      match decodePeer env msg attr a with
      | .error _ => []
      | .ok peer =>
        if hasPermission env a peer then
          [.toPeer client a.generation peer (msg.attrValue payload)]
        else []
  | _, _, _ => []

/-- `OnControl`: a datagram of a client. -/
def onControl (env : Env) (sv : Server) (client : SocketAddr)
    (data : List Byte) : Server × List Output :=
  if data.length = 0 ∨ data.length > kMaxUdpDatagramBytes ∨ client.isValid = false then (sv, [])
  else
    let sv := sv.prune env.pruneMs
    match parseChannelDataDatagram data with
    | some d => (sv, onChannelData env sv client d)
    | none =>
      match parseStunDatagram data with
      | none => (sv, [])
      | some msg =>
        if ¬ValidFingerprint msg then (sv, [])
        else if msg.method = binding then
          if msg.isBindingRequest = false ∨ data.length > kMaxControlBytes then (sv, [])
          else if bindingResponse hmac client msg = [] then (sv, [])
          else (sv, [.binding client (bindingResponse hmac client msg)])
        else if msg.method = send ∧ msg.klass = .indication then
          (sv, onSend env sv client msg)
        else if ¬SupportedRequest msg ∨ data.length > kMaxControlBytes then (sv, [])
        else
          match sv.sessions.find client with
          | none =>
            if sv.sessions.size ≥ opts.maxSessions then (sv, [])
            else serve hmac md5 opts env sv client {} msg data
          | some session => serve hmac md5 opts env sv client session msg data

/-- The datagram for a client with data of a peer. -/
def relayPacket (env : Env) (a : Allocation) (peer : SocketAddr) (data : List Byte) :
    Option (List Byte) :=
  match a.channels.findKey fun _ c => c.peer.same peer with
  | some channel => buildChannelData channel data
  | none => do
    let txid ← env.txid
    let address ← xorAddressAttribute .xorPeerAddress (endpointOf peer) txid
    buildMessage hmac StunMethod.data .indication txid
      [address, { type := AttrType.data.code, value := data }] [] false

/-- `OnRelay`: a datagram of a peer, on the relay socket of the generation `id` of a client. -/
def onRelay (env : Env) (sv : Server) (client : SocketAddr) (id : ℕ) (peer : SocketAddr)
    (data : List Byte) : Server × List Output :=
  if peerAllowed env peer true = false then (sv, [])
  else
    let sv := sv.prune env.pruneMs
    match sv.allocationOf client with
    | none => (sv, [])
    | some a =>
      if a.generation ≠ id ∨ hasPermission env a peer = false then (sv, [])
      else
        match relayPacket hmac env a peer data with
        | none => (sv, [])
        | some packet => (sv, [.toClient client id peer packet])

/-- What the server reacts to. -/
inductive Event
  | control (env : Env) (client : SocketAddr) (data : List Byte)
  | relay (env : Env) (client : SocketAddr) (id : ℕ) (peer : SocketAddr) (data : List Byte)
  | prune (now : ℕ)

def react (sv : Server) : Event → Server × List Output
  | .control env client data => onControl hmac md5 opts env sv client data
  | .relay env client id peer data => onRelay hmac env sv client id peer data
  | .prune now => (sv.prune now, [])

def step (sv : Server) (e : Event) : Server := (react hmac md5 opts sv e).1

/-- The server after the events `events`. -/
def after (events : List Event) : Server := run (step hmac md5 opts) {} events

end Hmac

end Packetia.Turn
