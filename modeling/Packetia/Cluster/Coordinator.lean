import Packetia.Lib.Run
import Packetia.Lib.Table

/-!
# The coordinator of a cluster

`Coordinator` (`service/Cluster/Coordinator.cpp`) and the parts of `MeetingService`
(`service/meeting/MeetingService.cpp`) that write to the same tables. A node registers with an
*instance* id, one per start of its process, and keeps its lease by heartbeats. A room is bound to
an instance of a node by an *assignment*, until the node releases it.

The tables of the database are `Store`, and a transaction is a function that gives a new store or
fails; a transaction that fails leaves the store alone (`step`). The clock and the random ids are
inputs of a call. The clock is read several times by `ReclaimCandidates`.
-/

namespace Packetia.Cluster

/-! ## Tables -/

structure Failure where
  status : ℕ
  code : String

structure Node where
  id : String := ""
  inst : String := ""
  signalingUrl : String := ""
  maxRooms : ℤ := 0
  participants : ℤ := 0
  managementUrl : String := ""

structure RoomAssignment where
  roomId : String
  assignmentId : String
  node : Node := {}
  reclaimAfter : ℤ := 0
  closing : Bool := false

/-- A row of `cluster_nodes`. -/
structure NodeRow where
  inst : String
  url : String
  capacity : ℤ
  expires : ℤ
  participants : ℤ
  managementUrl : String

inductive RoomState
  | open
  | closing
  | ended
  deriving DecidableEq

/-- A row of `cluster_rooms`. -/
structure RoomRow where
  owner : String
  node : Option String := none
  inst : Option String := none
  state : RoomState := .open
  assignmentId : String := ""
  reclaimAfter : ℤ := 0
  lastProbe : ℤ := 0

structure Store where
  nodes : Table String NodeRow := .empty
  instances : Table (String × String) Unit := .empty
  rooms : Table String RoomRow := .empty
  members : Table (String × String) Bool := .empty

variable (st : Store) (value : String)

def Store.setNode (id : String) (row : NodeRow) : Store :=
  { st with nodes := st.nodes.set id row }

def Store.setRoom (id : String) (row : RoomRow) : Store :=
  { st with rooms := st.rooms.set id row }

/-- What `RandomId` returns: 32 hexadecimal digits, of which only that there are some matters. -/
abbrev RandomId := { id : String // id ≠ "" }

/-- A column that may be null, as text. -/
def text (column : Option String) : String := column.getD ""

/-! ## Checks -/

def validId : Bool :=
  value ≠ "" && value.utf8ByteSize ≤ 128 &&
    value.toList.all fun c => c.isAlphanum || c = '_' || c = '-' || c = '.'

/-- A URL after a scheme of `n` characters. -/
def validUrlFrom (n : ℕ) : Bool :=
  n ≠ 0 && n < value.utf8ByteSize && value.utf8ByteSize ≤ 1024 &&
    (value.toList.all fun c => 32 < c.toNat && c.toNat < 127 && c ≠ '@' && c ≠ '#' && c ≠ '?') &&
    value.toList.getD n ' ' ≠ '/' && value.toList.getD n ' ' ≠ ':'

def validSignalingUrl : Bool :=
  validUrlFrom value (if "ws://".toList.isPrefixOf value.toList then 5
    else if "wss://".toList.isPrefixOf value.toList then 6 else 0)

def validManagementUrl : Bool :=
  validUrlFrom value (if "http://".toList.isPrefixOf value.toList then 7
    else if "https://".toList.isPrefixOf value.toList then 8 else 0) &&
    value.toList.getLast? ≠ some '/'

def kLeaseSeconds : ℤ := 10
def kAdmissionHoldSeconds : ℤ := 90

def invalidId : Failure := ⟨400, "invalid_id"⟩

/-! ## Nodes -/

section Nodes

variable (st : Store)

def Store.remember (node : Node) : Store :=
  { st with instances := st.instances.set (node.id, node.inst) () }

/-- The node takes over its id, if it never had it before. -/
def retirePrevious (node : Node) : Except Failure Store :=
  if (st.instances.find (node.id, node.inst)).isSome then .error ⟨409, "instance_retired"⟩
  else .ok (st.remember node)

/-- The part of `Register` before the row is written. -/
def checkInstance (now : ℤ) (node : Node) : Except Failure Store :=
  match st.nodes.find node.id with
  | some existing =>
    if existing.inst = node.inst then
      if existing.url ≠ node.signalingUrl ∨ existing.capacity ≠ node.maxRooms ∨
          existing.managementUrl ≠ node.managementUrl then
        .error ⟨409, "instance_configuration_changed"⟩
      else .ok st
    else if existing.expires > now then .error ⟨409, "node_already_live"⟩
    else retirePrevious st node
  | none => retirePrevious st node

/-- The row of a node that registers. -/
def Node.row (now : ℤ) (node : Node) : NodeRow where
  inst := node.inst
  url := node.signalingUrl
  capacity := node.maxRooms
  expires := now + kLeaseSeconds
  participants := node.participants
  managementUrl := node.managementUrl

def register (now : ℤ) (node : Node) : Except Failure Store :=
  if validId node.id = false ∨ validId node.inst = false then .error invalidId
  else if validSignalingUrl node.signalingUrl = false ∨
      (node.managementUrl ≠ "" ∧ validManagementUrl node.managementUrl = false) ∨
      node.maxRooms < 1 ∨ node.maxRooms > 10000 ∨ node.participants < 0 then
    .error ⟨400, "invalid_node"⟩
  else
    (checkInstance st now node).map fun st => st.setNode node.id (node.row now)

def NodeRow.renew (row : NodeRow) (now participants : ℤ) : NodeRow :=
  { row with expires := now + kLeaseSeconds, participants }

def heartbeat (now : ℤ) (node inst : String) (participants : ℤ) : Except Failure Store :=
  if validId node = false ∨ validId inst = false then .error invalidId
  else if participants < 0 ∨ participants > 65536 then .error ⟨400, "invalid_load"⟩
  else
    match st.nodes.find node with
    | some row =>
      if row.inst = inst then
        .ok (st.setNode node (row.renew now participants))
      else .error ⟨409, "instance_fenced"⟩
    | none => .error ⟨409, "instance_fenced"⟩

def NodeRow.toNode (id : String) (row : NodeRow) : Node :=
  { id, inst := row.inst, signalingUrl := row.url, maxRooms := row.capacity,
    participants := row.participants, managementUrl := row.managementUrl }

/-- `ReadNode`: the node, if this instance of it has a lease. -/
def readNode (node inst : String) (now : ℤ) : Except Failure Node :=
  match st.nodes.find node with
  | some row =>
    if row.inst = inst ∧ row.expires > now then .ok (row.toNode node)
    else .error ⟨503, "room_node_unavailable"⟩
  | none => .error ⟨503, "room_node_unavailable"⟩

end Nodes

/-! ## Rooms -/

section Rooms

variable (st : Store)

/-- `r` is bound to the instance `inst` of the node `id`. -/
def RoomRow.boundTo (r : RoomRow) (id inst : String) : Bool :=
  r.node = some id && r.inst = some inst

/-- The number of rooms bound to an instance of a node. -/
def assigned (id inst : String) : ℕ := st.rooms.count fun _ r => r.boundTo id inst

variable (now : ℤ)

/-- The nodes that can take a room. -/
def available : List (String × NodeRow) :=
  st.nodes.keys.filterMap fun id => (st.nodes.find id).bind fun row =>
    if row.expires > now ∧ (assigned st id row.inst : ℤ) < row.capacity then some (id, row)
    else none

/-- The order of the nodes: by the share of the capacity in use, by participants, by id. The
    quotients that the code compares are of numbers up to 10000, so it makes no difference that
    they are in floating point. -/
def lighter (a b : String × NodeRow) : Bool :=
  let share := (assigned st a.1 a.2.inst : ℤ) * b.2.capacity
  let share' := (assigned st b.1 b.2.inst : ℤ) * a.2.capacity
  share < share' || share = share' && (a.2.participants < b.2.participants ||
    a.2.participants = b.2.participants && a.1 ≤ b.1)

def leastLoaded : Option (String × NodeRow) := ((available st now).mergeSort (lighter st)).head?

variable (random : Option RandomId) (row : RoomRow)

/-- The node and the assignment for a room. -/
def chooseNode :
    Except Failure (Node × String) :=
  if text row.node ≠ "" then
    (readNode st (text row.node) (text row.inst) now).map fun node => (node, row.assignmentId)
  else
    match leastLoaded st now with
    | none => .error ⟨503, "no_available_node"⟩
    | some (id, node) =>
      match random with
      | none => .error ⟨503, "random_unavailable"⟩
      | some assignment => .ok (node.toNode id, assignment)

def RoomRow.assign (now : ℤ) (node : Node) (assignmentId : String) : RoomRow :=
  { row with
    node := some node.id
    inst := some node.inst
    assignmentId
    reclaimAfter := now + kAdmissionHoldSeconds }

def assignRoom (room : String) :
    Except Failure (Store × RoomAssignment) :=
  if validId room = false then .error invalidId
  else
    match st.rooms.find room with
    | none => .error ⟨404, "room_not_found"⟩
    | some row =>
      if row.state ≠ .open then .error ⟨410, "room_ended"⟩
      else
        (chooseNode st now random row).map fun chosen =>
          (st.setRoom room (row.assign now chosen.1 chosen.2),
            { roomId := room
              assignmentId := chosen.2
              node := chosen.1
              reclaimAfter := now + kAdmissionHoldSeconds })

/-- The rooms that an instance may have to give up, those first that were asked for longest ago. -/
def reclaimable (node inst : String) : List (String × RoomRow) :=
  ((st.rooms.keys.filterMap fun id => (st.rooms.find id).bind fun row =>
      if row.boundTo node inst ∧ (row.state = .closing ∨ row.reclaimAfter ≤ now) then some (id, row)
      else none).mergeSort fun a b =>
    a.2.lastProbe < b.2.lastProbe || a.2.lastProbe = b.2.lastProbe && a.1 ≤ b.1).take 16

/-- `UPDATE cluster_rooms SET last_probe=? WHERE id=?`. -/
def setLastProbe (rooms : Table String RoomRow) (probe : String × ℤ) : Table String RoomRow :=
  match rooms.find probe.1 with
  | none => rooms
  | some row => rooms.set probe.1 { row with lastProbe := probe.2 }

/-- The clock reads `now` for the lease, `now'` for the rooms, and `probe i` for the `i`-th of
    them. -/
def reclaimCandidates (now now' : ℤ) (probe : ℕ → ℤ) (node inst : String) :
    Except Failure (Store × List RoomAssignment) :=
  if validId node = false ∨ validId inst = false then .error invalidId
  else
    (readNode st node inst now).map fun _ =>
      let result := reclaimable st now' node inst
      ({ st with rooms :=
          (result.zipIdx.map fun item => (item.1.1, probe item.2)).foldl setLastProbe st.rooms },
        result.map fun item =>
          { roomId := item.1, assignmentId := item.2.assignmentId
            reclaimAfter := item.2.reclaimAfter, closing := item.2.state = .closing })

def RoomRow.release : RoomRow :=
  { owner := row.owner, state := if row.state = .closing then .ended else row.state }

def releaseRoom (node inst room assignment : String) : Except Failure (Store × Bool) :=
  if validId node = false ∨ validId inst = false ∨ validId room = false ∨
      validId assignment = false then .error invalidId
  else
    (readNode st node inst now).map fun _ =>
      match st.rooms.find room with
      | none => (st, false)
      | some row =>
        if row.boundTo node inst ∧ row.assignmentId = assignment then
          (st.setRoom room row.release, true)
        else (st, false)

/-! ## Meetings -/

/-- A room with its owner as a member. -/
def Store.addRoom (room owner : String) : Store :=
  { st with
    rooms := st.rooms.set room { owner }
    members := st.members.set (room, owner) true }

def createRoom (owner : String) : Except Failure (Store × String) :=
  if validId owner = false then .error invalidId
  else if st.rooms.count (fun _ row => row.owner = owner && row.state ≠ .ended) ≥ 100 then
    .error ⟨409, "room_quota_exceeded"⟩
  else
    match random with
    | none => .error ⟨503, "random_unavailable"⟩
    | some room =>
      if (st.rooms.find room).isSome ∨ (st.members.find (room, owner)).isSome then
        .error ⟨503, "storage_unavailable"⟩
      else .ok (st.addRoom room owner, room)

/-- The room ends at once. -/
def RoomRow.Ends : Prop := row.state = .ended ∨ text row.node = ""
  deriving Decidable

def RoomRow.beginEnd : RoomRow :=
  { row with state := if row.Ends then .ended else .closing }

def beginEnd (room owner : String) : Except Failure (Store × Bool) :=
  if validId room = false ∨ validId owner = false then .error invalidId
  else
    match st.rooms.find room with
    | none => .error ⟨403, "room_owner_required"⟩
    | some row =>
      if row.owner ≠ owner then .error ⟨403, "room_owner_required"⟩
      else
        .ok (st.setRoom room row.beginEnd, row.Ends)

def setMemberRole (room owner user : String) (canPublish : Bool) : Except Failure Store :=
  if validId room = false ∨ validId owner = false ∨ validId user = false then .error invalidId
  else
    match st.rooms.find room with
    | none => .error ⟨403, "room_owner_required"⟩
    | some row =>
      if row.owner ≠ owner then .error ⟨403, "room_owner_required"⟩
      else if row.state ≠ .open then .error ⟨410, "room_ended"⟩
      else if user = owner ∧ canPublish = false then .error ⟨400, "owner_role_required"⟩
      else if st.members.count (fun key _ => key.1 = room && key.2 ≠ user) ≥ 1000 then
        .error ⟨409, "member_quota_exceeded"⟩
      else .ok { st with members := st.members.set (room, user) canPublish }

end Rooms

/-! ## Runs -/

inductive Call
  | register (now : ℤ) (node : Node)
  | heartbeat (now : ℤ) (node inst : String) (participants : ℤ)
  | assignRoom (now : ℤ) (random : Option RandomId) (room : String)
  | reclaimCandidates (now now' : ℤ) (probe : ℕ → ℤ) (node inst : String)
  | releaseRoom (now : ℤ) (node inst room assignment : String)
  | createRoom (random : Option RandomId) (owner : String)
  | beginEnd (room owner : String)
  | setMemberRole (room owner user : String) (canPublish : Bool)

/-- The transaction of a call, without what the call returns. -/
def Call.run (st : Store) : Call → Except Failure Store
  | .register now node => Cluster.register st now node
  | .heartbeat now node inst participants => Cluster.heartbeat st now node inst participants
  | .assignRoom now random room => (Cluster.assignRoom st now random room).map Prod.fst
  | .reclaimCandidates now now' probe node inst =>
    (Cluster.reclaimCandidates st now now' probe node inst).map Prod.fst
  | .releaseRoom now node inst room assignment =>
    (Cluster.releaseRoom st now node inst room assignment).map Prod.fst
  | .createRoom random owner => (Cluster.createRoom st random owner).map Prod.fst
  | .beginEnd room owner => (Cluster.beginEnd st room owner).map Prod.fst
  | .setMemberRole room owner user canPublish =>
    Cluster.setMemberRole st room owner user canPublish

/-- A transaction that fails is rolled back. -/
def step (call : Call) : Store := (call.run st).toOption.getD st

/-- The tables after the calls `calls`, from empty ones. -/
def after (calls : List Call) : Store := Packetia.run step {} calls

/-- The random id that a call may use. -/
def Call.random : Call → Option RandomId
  | .assignRoom _ random _ => random
  | .createRoom random _ => random
  | _ => none

end Packetia.Cluster
