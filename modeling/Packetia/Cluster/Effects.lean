import Packetia.Cluster.Coordinator

/-!
# What a transaction does

`Effect` has a case for every way in which a call of the coordinator can succeed, with what held
before it. A call that fails does nothing.
-/

namespace Packetia.Cluster

open List Option

variable {st st' : Store}

/-- The lease of the instance `inst` of the node `id` is live. -/
def Live (st : Store) (id inst : String) (now : ℤ) : Prop :=
  ∃ row, st.nodes.find id = some row ∧ row.inst = inst ∧ row.expires > now

/-- The call can change the tables `st` into these. -/
inductive Effect (st : Store) : Call → Store → Prop
  /-- An instance registers again. -/
  | refresh {now : ℤ} {node : Node} {existing : NodeRow}
    (hrow : st.nodes.find node.id = some existing) (hinst : existing.inst = node.inst)
    (hcapacity : existing.capacity = node.maxRooms) :
    Effect st (.register now node) (st.setNode node.id (node.row now))
  /-- A new instance registers. -/
  | takeOver {now : ℤ} {node : Node} (hid : node.id ≠ "") (hcapacity : 0 ≤ node.maxRooms)
    (hexpired : ∀ row, st.nodes.find node.id = some row → row.inst ≠ node.inst ∧ row.expires ≤ now)
    (hfresh : st.instances.find (node.id, node.inst) = none) :
    Effect st (.register now node) ((st.remember node).setNode node.id (node.row now))
  | heartbeat {now : ℤ} {id inst : String} {participants : ℤ} {row : NodeRow}
    (hrow : st.nodes.find id = some row) (hinst : row.inst = inst) :
    Effect st (.heartbeat now id inst participants) (st.setNode id (row.renew now participants))
  /-- The room is bound, and stays so. -/
  | reassign {now : ℤ} {random : Option RandomId} {room : String} {row : RoomRow} {node : NodeRow}
    (hrow : st.rooms.find room = some row) (hbound : text row.node ≠ "")
    (hnode : st.nodes.find (text row.node) = some node) (hinst : node.inst = text row.inst)
    (hlive : node.expires > now) :
    Effect st (.assignRoom now random room)
      (st.setRoom room (row.assign now (node.toNode (text row.node)) row.assignmentId))
  | assign {now : ℤ} {assignment : RandomId} {room id : String} {row : RoomRow} {node : NodeRow}
    (hrow : st.rooms.find room = some row) (hopen : row.state = .open)
    (hunbound : text row.node = "") (hnode : st.nodes.find id = some node)
    (hlive : node.expires > now) (hroom : (assigned st id node.inst : ℤ) < node.capacity) :
    Effect st (.assignRoom now (some assignment) room)
      (st.setRoom room (row.assign now (node.toNode id) assignment))
  | probe {now now' : ℤ} {probe : ℕ → ℤ} {id inst : String} (probes : List (String × ℤ)) :
    Effect st (.reclaimCandidates now now' probe id inst)
      { st with rooms := probes.foldl setLastProbe st.rooms }
  /-- The room is not bound in this way. -/
  | stale {now : ℤ} {id inst room assignment : String} :
    Effect st (.releaseRoom now id inst room assignment) st
  | release {now : ℤ} {id inst room assignment : String} {row : RoomRow}
    (hlive : Live st id inst now) (hrow : st.rooms.find room = some row)
    (hbound : row.node = some id ∧ row.inst = some inst)
    (hassignment : row.assignmentId = assignment) :
    Effect st (.releaseRoom now id inst room assignment) (st.setRoom room row.release)
  | create {room : RandomId} {owner : String} (hfresh : st.rooms.find room = none) :
    Effect st (.createRoom (some room) owner) (st.addRoom room owner)
  | beginEnd {room owner : String} {row : RoomRow} (hrow : st.rooms.find room = some row) :
    Effect st (.beginEnd room owner) (st.setRoom room row.beginEnd)
  | setMemberRole {room owner user : String} {canPublish : Bool} :
    Effect st (.setMemberRole room owner user canPublish)
      { st with members := st.members.set (room, user) canPublish }

theorem map_eq_ok {α β ε : Type*} {x : Except ε α} {f : α → β} {y : β}
    (h : x.map f = .ok y) : ∃ a, x = .ok a ∧ f a = y := by
  cases x with
  | error e => cases h
  | ok a => exact ⟨a, rfl, Except.ok.inj h⟩

variable {id : String}

theorem ne_empty_of_validId (h : ¬validId id = false) : id ≠ "" := by
  rintro rfl
  exact h rfl

variable {now : ℤ} {inst owner : String} {node : Node} {c : String × NodeRow} {result : Bool}

theorem readNode_eq_ok (h : readNode st id inst now = .ok node) :
    ∃ row, st.nodes.find id = some row ∧ row.inst = inst ∧ row.expires > now ∧
      node = row.toNode id := by
  rw [readNode] at h
  split at h
  · rename_i row hrow
    split_ifs at h with hlive
    cases h
    exact ⟨row, hrow, hlive.1, hlive.2, rfl⟩
  · cases h

theorem retirePrevious_eq_ok (h : retirePrevious st node = .ok st') :
    st.instances.find (node.id, node.inst) = none ∧ st' = st.remember node := by
  rw [retirePrevious] at h
  split_ifs at h with hretired
  cases h
  exact ⟨not_isSome_iff_eq_none.1 hretired, rfl⟩

theorem checkInstance_eq_ok (h : checkInstance st now node = .ok st') :
    (∃ existing, st.nodes.find node.id = some existing ∧ existing.inst = node.inst ∧
      existing.capacity = node.maxRooms ∧ st' = st) ∨
    (∀ row, st.nodes.find node.id = some row → row.inst ≠ node.inst ∧ row.expires ≤ now) ∧
      st.instances.find (node.id, node.inst) = none ∧
      st' = st.remember node := by
  rw [checkInstance] at h
  cases hrow : st.nodes.find node.id with
  | none =>
    rw [hrow] at h
    exact .inr ⟨nofun, retirePrevious_eq_ok h⟩
  | some existing =>
    rw [hrow] at h
    dsimp only at h
    split_ifs at h with hinst hchanged hlive
    · cases h
      rw [not_or, not_or, not_not, not_not] at hchanged
      exact .inl ⟨existing, rfl, hinst, hchanged.2.1, rfl⟩
    · refine .inr ⟨fun row hrow => ?_, retirePrevious_eq_ok h⟩
      cases hrow
      exact ⟨hinst, not_lt.1 hlive⟩

theorem register_effect (h : register st now node = .ok st') :
    Effect st (.register now node) st' := by
  rw [register] at h
  split_ifs at h with hid hnode
  rw [not_or] at hid
  obtain ⟨st₁, hcheck, rfl⟩ := map_eq_ok h
  rcases checkInstance_eq_ok hcheck with
    ⟨existing, hrow, hinst, hcapacity, rfl⟩ | ⟨hexpired, hfresh, rfl⟩
  · exact .refresh hrow hinst hcapacity
  · have hcapacity : 0 ≤ node.maxRooms := by
      by_contra hneg
      exact hnode (.inr (.inr (.inl (by omega))))
    exact .takeOver (ne_empty_of_validId hid.1) hcapacity hexpired hfresh

theorem heartbeat_effect {participants : ℤ} (h : heartbeat st now id inst participants = .ok st') :
    Effect st (.heartbeat now id inst participants) st' := by
  rw [heartbeat] at h
  split_ifs at h
  split at h
  · rename_i row hrow
    split_ifs at h with hinst
    cases h
    exact .heartbeat hrow hinst
  · cases h

theorem mem_available (h : c ∈ available st now) :
    st.nodes.find c.1 = some c.2 ∧ c.2.expires > now ∧
      (assigned st c.1 c.2.inst : ℤ) < c.2.capacity := by
  obtain ⟨id, -, hid⟩ := mem_filterMap.1 h
  obtain ⟨row, hrow, hif⟩ := bind_eq_some_iff.1 hid
  split_ifs at hif with hroom
  cases hif
  exact ⟨hrow, hroom⟩

theorem mem_of_leastLoaded (h : leastLoaded st now = some c) : c ∈ available st now :=
  (mergeSort_perm ..).mem_iff.1 (mem_of_head? h)

variable {random : Option RandomId}

theorem chooseNode_eq_ok {row : RoomRow} {chosen : Node × String}
    (h : chooseNode st now random row = .ok chosen) :
    text row.node ≠ "" ∧ (∃ node, st.nodes.find (text row.node) = some node ∧
      node.inst = text row.inst ∧ node.expires > now ∧
      chosen = (node.toNode (text row.node), row.assignmentId)) ∨
    text row.node = "" ∧ ∃ id node assignment, random = some assignment ∧
      st.nodes.find id = some node ∧ node.expires > now ∧
      (assigned st id node.inst : ℤ) < node.capacity ∧
      chosen = (node.toNode id, assignment.1) := by
  rw [chooseNode] at h
  split_ifs at h with hbound
  · obtain ⟨node, hread, rfl⟩ := map_eq_ok h
    obtain ⟨row', hrow', hinst, hlive, rfl⟩ := readNode_eq_ok hread
    exact .inl ⟨hbound, row', hrow', hinst, hlive, rfl⟩
  · refine .inr ⟨not_not.1 hbound, ?_⟩
    split at h
    · cases h
    · rename_i id node hleast
      cases random with
      | none => cases h
      | some assignment =>
        cases h
        have hc := mem_available (mem_of_leastLoaded hleast)
        exact ⟨id, node, assignment, rfl, hc.1, hc.2.1, hc.2.2, rfl⟩

variable {room : String}

/-- A successful `AssignRoom`: the room is open, and the node it returns is live. -/
theorem assignRoom_eq_ok {assignment : RoomAssignment}
    (h : assignRoom st now random room = .ok (st', assignment)) :
    Live st assignment.node.id assignment.node.inst now ∧
      Effect st (.assignRoom now random room) st' := by
  rw [assignRoom] at h
  split_ifs at h
  split at h
  · cases h
  · rename_i row hrow
    split_ifs at h with hopen
    obtain ⟨chosen, hchoose, heq⟩ := map_eq_ok h
    cases heq
    rcases chooseNode_eq_ok hchoose with ⟨hbound, node, hnode, hinst, hlive, rfl⟩ |
      ⟨hunbound, id, node, a, rfl, hnode, hlive, hcapacity, rfl⟩
    · exact ⟨⟨node, hnode, rfl, hlive⟩, .reassign hrow hbound hnode hinst hlive⟩
    · exact ⟨⟨node, hnode, rfl, hlive⟩,
        .assign hrow (not_not.1 hopen) hunbound hnode hlive hcapacity⟩

theorem reclaimCandidates_effect {now' : ℤ} {probe : ℕ → ℤ} {result : List RoomAssignment}
    (h : reclaimCandidates st now now' probe id inst = .ok (st', result)) :
    Effect st (.reclaimCandidates now now' probe id inst) st' := by
  rw [reclaimCandidates] at h
  split_ifs at h
  obtain ⟨node, -, heq⟩ := map_eq_ok h
  cases heq
  exact .probe _

theorem releaseRoom_effect {assignment : String}
    (h : releaseRoom st now id inst room assignment = .ok (st', result)) :
    Effect st (.releaseRoom now id inst room assignment) st' := by
  rw [releaseRoom] at h
  split_ifs at h
  obtain ⟨node, hread, heq⟩ := map_eq_ok h
  obtain ⟨nodeRow, hnode, hinst, hlive, -⟩ := readNode_eq_ok hread
  split at heq
  · cases heq
    exact .stale
  · rename_i row hrow
    split_ifs at heq with hbound
    · cases heq
      have hboundTo : row.node = some id ∧ row.inst = some inst := by
        simpa [RoomRow.boundTo] using hbound.1
      exact .release ⟨nodeRow, hnode, hinst, hlive⟩ hrow hboundTo hbound.2
    · cases heq
      exact .stale

theorem createRoom_effect (h : createRoom st random owner = .ok (st', room)) :
    Effect st (.createRoom random owner) st' := by
  cases random with
  | none =>
    rw [createRoom] at h
    split_ifs at h
  | some id =>
    rw [createRoom] at h
    split_ifs at h with hvalid hquota hconflict
    cases h
    rw [not_or] at hconflict
    exact .create (not_isSome_iff_eq_none.1 hconflict.1)

theorem beginEnd_effect (h : beginEnd st room owner = .ok (st', result)) :
    Effect st (.beginEnd room owner) st' := by
  rw [beginEnd] at h
  split_ifs at h
  split at h
  · cases h
  · split_ifs at h
    cases h
    exact .beginEnd ‹_›

theorem setMemberRole_effect {user : String} {canPublish : Bool}
    (h : setMemberRole st room owner user canPublish = .ok st') :
    Effect st (.setMemberRole room owner user canPublish) st' := by
  rw [setMemberRole] at h
  cases hrow : st.rooms.find room <;> rw [hrow] at h <;> dsimp only at h <;> split_ifs at h
  cases h
  exact .setMemberRole

/-- What a call does: nothing, or one of the effects. -/
theorem step_cases (st : Store) (call : Call) :
    step st call = st ∨ Effect st call (step st call) := by
  rw [step]
  cases hrun : call.run st with
  | error e => exact .inl rfl
  | ok st' =>
    refine .inr ?_
    rw [Except.toOption, getD_some]
    cases call with
    | register now node => exact register_effect hrun
    | heartbeat now id inst participants => exact heartbeat_effect hrun
    | assignRoom now random room =>
      obtain ⟨⟨_, assignment⟩, hok, rfl⟩ := map_eq_ok hrun
      exact (assignRoom_eq_ok hok).2
    | reclaimCandidates now now' probe id inst =>
      obtain ⟨⟨_, result⟩, hok, rfl⟩ := map_eq_ok hrun
      exact reclaimCandidates_effect hok
    | releaseRoom now id inst room assignment =>
      obtain ⟨⟨_, result⟩, hok, rfl⟩ := map_eq_ok hrun
      exact releaseRoom_effect hok
    | createRoom random owner =>
      obtain ⟨⟨_, room⟩, hok, rfl⟩ := map_eq_ok hrun
      exact createRoom_effect hok
    | beginEnd room owner =>
      obtain ⟨⟨_, result⟩, hok, rfl⟩ := map_eq_ok hrun
      exact beginEnd_effect hok
    | setMemberRole room owner user canPublish => exact setMemberRole_effect hrun

end Packetia.Cluster
