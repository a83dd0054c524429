import Packetia.Cluster.Effects

/-!
# Bindings of rooms

Whatever calls are made, in whatever order, a room is bound to an instance that has registered,
within its capacity (`Inv`), and only `AssignRoom` and `ReleaseRoom` change a binding
(`step_room`). An instance that has been replaced never comes back, since all instances are
remembered (`step_node`), and an assignment id is used for one binding only.
-/

namespace Packetia.Cluster

open Table List Option RoomRow

variable {st : Store} {row : RoomRow} {now : ℤ} {id : String}

/-! ## Counting rooms -/

theorem assigned_setRoom {room : String}
    (hrow : st.rooms.find room = some row) (row' : RoomRow) (id inst : String) :
    assigned (st.setRoom room row') id inst + (row.boundTo id inst).toNat =
      assigned st id inst + (row'.boundTo id inst).toNat := by
  have hcount := count_set (t := st.rooms) (k := room) (v := row')
    (p := fun _ r => r.boundTo id inst)
  rw [hrow, any_some] at hcount
  exact hcount

/-- A room that is bound as before does not matter. -/
theorem assigned_setRoom_of_eq {room : String} {row row' : RoomRow}
    (hrow : st.rooms.find room = some row) (hnode : row'.node = row.node)
    (hinst : row'.inst = row.inst) (id inst : String) :
    assigned (st.setRoom room row') id inst = assigned st id inst := by
  have hcount := assigned_setRoom hrow row' id inst
  have hbound : row'.boundTo id inst = row.boundTo id inst := by
    rw [boundTo, hnode, hinst, boundTo]
  rw [hbound] at hcount
  omega

/-! ## Invariant -/

/-- A row of the rooms is consistent, given the instances that have registered. -/
structure RoomRow.Sound (instances : Table (String × String) Unit) (row : RoomRow) : Prop where
  bound : ∀ id, row.node = some id →
    id ≠ "" ∧ ∃ inst, row.inst = some inst ∧ instances.find (id, inst) ≠ none
  unbound : row.node = none → row.inst = none ∧ row.assignmentId = ""
  closing : row.state = .closing → row.node ≠ none
  ended : row.state = .ended → row.node = none

/-- What holds of the tables after any calls. -/
structure Inv (st : Store) : Prop where
  capacity : ∀ id row, st.nodes.find id = some row → (assigned st id row.inst : ℤ) ≤ row.capacity
  current : ∀ id row, st.nodes.find id = some row → st.instances.find (id, row.inst) ≠ none
  named : st.nodes.find "" = none
  rooms : ∀ room row, st.rooms.find room = some row → row.Sound st.instances

namespace RoomRow

variable {instances : Table (String × String) Unit} {row row' : RoomRow}

/-- A room that is given back is not bound, and not closing. -/
theorem release_sound (row : RoomRow) : row.release.Sound instances where
  bound := nofun
  unbound _ := ⟨rfl, rfl⟩
  closing hclosing := by
    rw [RoomRow.release] at hclosing
    split_ifs at hclosing with hstate
    exact absurd hclosing hstate
  ended _ := rfl

section

variable (h : row.Sound instances)
include h

theorem Sound.node_eq_none (htext : text row.node = "") : row.node = none := by
  cases hnode : row.node with
  | none => rfl
  | some id =>
    rw [hnode] at htext
    exact absurd htext (h.bound id hnode).1

theorem Sound.of_text (htext : text row.node ≠ "") :
    row.node = some (text row.node) ∧ row.inst = some (text row.inst) := by
  cases hnode : row.node with
  | none =>
    rw [hnode] at htext
    exact absurd rfl htext
  | some id =>
    obtain ⟨-, inst, hinst, -⟩ := h.bound id hnode
    rw [hinst]
    exact ⟨rfl, rfl⟩

/-- A row that differs in nothing that matters. -/
theorem Sound.congr (hnode : row'.node = row.node) (hinst : row'.inst = row.inst)
    (hassignment : row'.assignmentId = row.assignmentId) (hstate : row'.state = row.state) :
    row'.Sound instances where
  bound := by
    rw [hnode, hinst]
    exact h.bound
  unbound := by
    rw [hnode, hinst, hassignment]
    exact h.unbound
  closing := by
    rw [hstate, hnode]
    exact h.closing
  ended := by
    rw [hstate, hnode]
    exact h.ended

theorem Sound.beginEnd : row.beginEnd.Sound instances where
  bound := h.bound
  unbound := h.unbound
  closing hclosing hnode := by
    have hends : row.Ends := .inr (congrArg text hnode)
    rw [RoomRow.beginEnd, if_pos hends] at hclosing
    cases hclosing
  ended hended := by
    by_cases hends : row.Ends
    · exact hends.elim h.ended h.node_eq_none
    · rw [RoomRow.beginEnd, if_neg hends] at hended
      cases hended

end

end RoomRow

section

variable (h : Inv st)
include h

/-- A change of one room. -/
theorem Inv.setRoom {room : String} {row' : RoomRow} (hsound : row'.Sound st.instances)
    (hcount : ∀ id node, st.nodes.find id = some node →
      (assigned (st.setRoom room row') id node.inst : ℤ) ≤ node.capacity) :
    Inv (st.setRoom room row') where
  capacity := hcount
  current := h.current
  named := h.named
  rooms := forall_find_set hsound h.rooms

/-- A room that is bound as before. -/
theorem Inv.setRoom_of_eq {room : String}
    (hrow : st.rooms.find room = some row) (row' : RoomRow) (hsound : row'.Sound st.instances)
    (hnode : row'.node = row.node) (hinst : row'.inst = row.inst) : Inv (st.setRoom room row') := by
  refine h.setRoom hsound fun id node hid => ?_
  rw [assigned_setRoom_of_eq hrow hnode hinst]
  exact h.capacity id node hid

theorem Inv.setLastProbes (probes : List (String × ℤ)) :
    Inv { st with rooms := probes.foldl setLastProbe st.rooms } := by
  induction probes generalizing st with
  | nil => exact h
  | cons probe probes ih =>
    rw [foldl_cons, setLastProbe]
    cases hrow : st.rooms.find probe.1 with
    | none => exact ih h
    | some row =>
      exact ih (h.setRoom_of_eq hrow { row with lastProbe := probe.2 }
        ((h.rooms _ row hrow).congr rfl rfl rfl rfl) rfl rfl)

/-! ## Steps -/

theorem assign_inv {assignment : RandomId} {room id : String}
    {node : NodeRow} (hrow : st.rooms.find room = some row)
    (hopen : row.state = .open) (hunbound : text row.node = "")
    (hnode : st.nodes.find id = some node)
    (hroom : (assigned st id node.inst : ℤ) < node.capacity) :
    Inv (st.setRoom room (row.assign now (node.toNode id) assignment)) := by
  have hnone : row.node = none := (h.rooms room row hrow).node_eq_none hunbound
  have hid : id ≠ "" := by
    rintro rfl
    cases h.named.symm.trans hnode
  refine h.setRoom ⟨?_, ?_, ?_, ?_⟩ fun id' node' hnode' => ?_
  · rintro id' hid'
    cases hid'
    exact ⟨hid, node.inst, rfl, h.current id node hnode⟩
  · exact nofun
  · exact fun hclosing => by cases hopen.symm.trans hclosing
  · exact fun hended => by cases hopen.symm.trans hended
  · -- The room counts for the node that takes it, which has a place left, and for no other one.
    have hcount := assigned_setRoom hrow (row.assign now (node.toNode id) assignment) id' node'.inst
    have hold : row.boundTo id' node'.inst = false := by
      rw [boundTo, hnone]
      rfl
    rw [hold, Bool.toNat_false, Nat.add_zero] at hcount
    rw [hcount]
    by_cases hsame : id' = id
    · subst hsame
      cases hnode.symm.trans hnode'
      have hle := Bool.toNat_le
        ((row.assign now (node.toNode id') assignment).boundTo id' node.inst)
      omega
    · have hnew : (row.assign now (node.toNode id) assignment).boundTo id' node'.inst = false := by
        simp [boundTo, assign, NodeRow.toNode, Ne.symm hsame]
      rw [hnew, Bool.toNat_false, Nat.add_zero]
      exact h.capacity id' node' hnode'

theorem release_inv {room : String}
    (hrow : st.rooms.find room = some row) : Inv (st.setRoom room row.release) := by
  refine h.setRoom row.release_sound fun id node hnode => ?_
  have hcount := assigned_setRoom hrow row.release id node.inst
  have hnew : row.release.boundTo id node.inst = false := rfl
  rw [hnew, Bool.toNat_false, Nat.add_zero] at hcount
  have hcapacity := h.capacity id node hnode
  omega

/-- A new row for a node, within the capacity of an instance that has registered. -/
theorem Inv.setNode {row : NodeRow} (hid : id ≠ "")
    (hcapacity : (assigned st id row.inst : ℤ) ≤ row.capacity)
    (hcurrent : st.instances.find (id, row.inst) ≠ none) : Inv (st.setNode id row) where
  capacity := forall_find_set hcapacity h.capacity
  current := forall_find_set hcurrent h.current
  named := (find_set_of_ne hid.symm).trans h.named
  rooms := h.rooms

/-- A new row for an instance, of the same capacity. -/
theorem setNode_inv {row row' : NodeRow}
    (hrow : st.nodes.find id = some row) (hinst : row'.inst = row.inst)
    (hcapacity : row'.capacity = row.capacity) : Inv (st.setNode id row') := by
  refine h.setNode ?_ ?_ ?_
  · rintro rfl
    cases h.named.symm.trans hrow
  · rw [hinst, hcapacity]
    exact h.capacity id row hrow
  · rw [hinst]
    exact h.current id row hrow

/-- No room is bound to an instance that has not registered. -/
theorem assigned_eq_zero {id inst : String}
    (hfresh : st.instances.find (id, inst) = none) : assigned st id inst = 0 := by
  rw [assigned, Table.count, countP_eq_zero]
  intro room _ hbound
  obtain ⟨row, hrow, hbound⟩ := (Option.any_eq_true ..).1 hbound
  have hboth : row.node = some id ∧ row.inst = some inst := by
    simpa [boundTo] using hbound
  obtain ⟨-, inst', hinst', hknown⟩ := (h.rooms room row hrow).bound id hboth.1
  cases hboth.2.symm.trans hinst'
  exact hknown hfresh

end

theorem find_remember (node : Node) (key : String × String) :
    (st.remember node).instances.find key =
      if key = (node.id, node.inst) then some () else st.instances.find key := find_set ..

variable {key : String × String}

theorem known_remember {node : Node} (h : st.instances.find key ≠ none) :
    (st.remember node).instances.find key ≠ none := by
  rw [find_remember]
  split_ifs
  · exact some_ne_none _
  · exact h

theorem Inv.remember (h : Inv st) (node : Node) : Inv (st.remember node) where
  capacity := h.capacity
  current id row hrow := known_remember (h.current id row hrow)
  named := h.named
  rooms room row hrow := by
    have hsound := h.rooms room row hrow
    refine ⟨fun id hid => ?_, hsound.unbound, hsound.closing, hsound.ended⟩
    obtain ⟨hne, inst, hinst, hknown⟩ := hsound.bound id hid
    exact ⟨hne, inst, hinst, known_remember hknown⟩

theorem takeOver_inv (h : Inv st) {node : Node} (hid : node.id ≠ "")
    (hcapacity : 0 ≤ node.maxRooms) (hfresh : st.instances.find (node.id, node.inst) = none) :
    Inv ((st.remember node).setNode node.id (node.row now)) := by
  have hzero : assigned (st.remember node) node.id node.inst = 0 := assigned_eq_zero h hfresh
  refine (h.remember node).setNode hid ?_ ?_
  · rw [Node.row, hzero]
    exact hcapacity
  · rw [Node.row, find_remember, if_pos rfl]
    exact some_ne_none _

theorem create_inv (h : Inv st) {room owner : String} (hfresh : st.rooms.find room = none) :
    Inv (st.addRoom room owner) := by
  refine ⟨fun id node hnode => ?_, h.current, h.named, forall_find_set ?_ h.rooms⟩
  · have hcount := count_set (t := st.rooms) (k := room) (v := { owner })
      (p := fun _ r => r.boundTo id node.inst)
    rw [hfresh] at hcount
    have hsame : assigned (st.addRoom room owner) id node.inst = assigned st id node.inst := hcount
    rw [hsame]
    exact h.capacity id node hnode
  · exact ⟨nofun, fun _ => ⟨rfl, rfl⟩, nofun, nofun⟩

/-- A room that is bound stays so when it is assigned again. -/
theorem reassign_eq {instances : Table (String × String) Unit}
    {node : NodeRow} (hsound : row.Sound instances) (hbound : text row.node ≠ "")
    (hinst : node.inst = text row.inst) :
    (row.assign now (node.toNode (text row.node)) row.assignmentId).node = row.node ∧
      (row.assign now (node.toNode (text row.node)) row.assignmentId).inst = row.inst := by
  obtain ⟨hnode, hinst'⟩ := hsound.of_text hbound
  exact ⟨hnode.symm, (congrArg some hinst).trans hinst'.symm⟩

variable {call : Call} {st' : Store}

theorem Effect.inv (heffect : Effect st call st') (h : Inv st) : Inv st' := by
  cases heffect with
  | refresh hrow hinst hcapacity => exact setNode_inv h hrow hinst.symm hcapacity.symm
  | takeOver hid hcapacity _ hfresh => exact takeOver_inv h hid hcapacity hfresh
  | heartbeat hrow _ => exact setNode_inv h hrow rfl rfl
  | reassign hrow hbound _ hinst _ =>
    have hsound := h.rooms _ _ hrow
    obtain ⟨hnode, hinst'⟩ := reassign_eq hsound hbound hinst
    exact h.setRoom_of_eq hrow _ (hsound.congr hnode hinst' rfl rfl) hnode hinst'
  | assign hrow hopen hunbound hnode _ hroom => exact assign_inv h hrow hopen hunbound hnode hroom
  | probe probes => exact h.setLastProbes probes
  | stale => exact h
  | release _ hrow _ _ => exact release_inv h hrow
  | create hfresh => exact create_inv h hfresh
  | beginEnd hrow => exact h.setRoom_of_eq hrow _ (h.rooms _ _ hrow).beginEnd rfl rfl
  | setMemberRole => exact { h with }

theorem step_inv (h : Inv st) (call : Call) : Inv (step st call) := by
  rcases step_cases st call with heq | heffect
  · rwa [heq]
  · exact heffect.inv h

theorem after_inv (calls : List Call) : Inv (after calls) :=
  run_induction (P := fun _ st => Inv st)
    ⟨fun _ _ h => (by cases h), fun _ _ h => (by cases h), rfl, fun _ _ h => by cases h⟩
    (fun _ call h => step_inv h call) calls

/-! ## What changes -/

/-- A room is opened, closed and ended, in this order. -/
def RoomState.Next (s s' : RoomState) : Prop :=
  s' = s ∨ s = .open ∧ s' = .closing ∨ s = .open ∧ s' = .ended ∨ s = .closing ∧ s' = .ended

def RoomRow.SameBinding (row row' : RoomRow) : Prop :=
  row'.node = row.node ∧ row'.inst = row.inst ∧ row'.assignmentId = row.assignmentId

/-- How the binding of a room changes by a call in `st`: not at all, from unbound to bound by
    `AssignRoom`, or from bound to unbound by a `ReleaseRoom` of this binding from an instance
    with a lease. -/
def Rebound (st : Store) (call : Call) (room : String) (row row' : RoomRow) : Prop :=
  row.SameBinding row' ∨
  (row.node = none ∧ row'.node ≠ none ∧
    ∃ now id, call = .assignRoom now (some id) room ∧ row'.assignmentId = id) ∨
  (row'.node = none ∧ ∃ now id inst, call = .releaseRoom now id inst room row.assignmentId ∧
    row.node = some id ∧ row.inst = some inst ∧ Live st id inst now)

/-- Probes change nothing else of a room. -/
theorem map_find_setLastProbes {β : Type*} {f : RoomRow → β}
    (hf : ∀ row probe, f { row with lastProbe := probe } = f row) (rooms : Table String RoomRow)
    (probes : List (String × ℤ)) (room : String) :
    ((probes.foldl setLastProbe rooms).find room).map f = (rooms.find room).map f := by
  induction probes generalizing rooms with
  | nil => rfl
  | cons probe probes ih =>
    rw [foldl_cons, ih, setLastProbe]
    cases hrow : rooms.find probe.1 with
    | none => rfl
    | some row =>
      dsimp only
      rw [find_set]
      split_ifs with hroom
      · rw [hroom, hrow, map_some, map_some, hf]
      · rfl

theorem beginEnd_next (row : RoomRow) : row.state.Next row.beginEnd.state := by
  rw [RoomRow.beginEnd]
  cases hstate : row.state with
  | «open» | closing => split_ifs <;> simp [RoomState.Next]
  | ended =>
    rw [if_pos (.inl hstate)]
    exact .inl rfl

section

variable (heffect : Effect st call st')
include heffect

/-- What a call can do to a room. -/
theorem Effect.room (h : Inv st) {room : String} (hrow : st.rooms.find room = some row) :
    ∃ row', st'.rooms.find room = some row' ∧
      row.state.Next row'.state ∧ Rebound st call room row row' := by
  have hsame : row.state.Next row.state ∧ Rebound st call room row row :=
    ⟨.inl rfl, .inl ⟨rfl, rfl, rfl⟩⟩
  cases heffect with
  | refresh | takeOver | heartbeat | stale | setMemberRole => exact ⟨row, hrow, hsame⟩
  | reassign hchanged hbound _ hinst _ =>
    refine exists_find_set hrow hsame ?_
    rintro rfl
    cases hrow.symm.trans hchanged
    obtain ⟨hnode, hinst'⟩ := reassign_eq (h.rooms _ _ hrow) hbound hinst
    exact ⟨.inl rfl, .inl ⟨hnode, hinst', rfl⟩⟩
  | @assign now assignment changed id row₁ node hchanged _ hunbound _ _ _ =>
    refine exists_find_set hrow hsame ?_
    rintro rfl
    cases hrow.symm.trans hchanged
    have hnone := (h.rooms _ _ hrow).node_eq_none hunbound
    exact ⟨.inl rfl, .inr (.inl ⟨hnone, some_ne_none _, now, assignment, rfl, rfl⟩)⟩
  | probe probes =>
    have hmap := map_find_setLastProbes
      (f := fun row => (row.state, row.node, row.inst, row.assignmentId)) (fun _ _ => rfl)
      st.rooms probes room
    rw [hrow] at hmap
    obtain ⟨row', hrow', heq⟩ := map_eq_some_iff.1 hmap
    simp only [Prod.mk.injEq] at heq
    exact ⟨row', hrow', .inl heq.1, .inl heq.2⟩
  | @release now id inst changed assignment row₁ hlive hchanged hbound hassignment =>
    refine exists_find_set hrow hsame ?_
    rintro rfl
    cases hrow.symm.trans hchanged
    refine ⟨?_, .inr (.inr ⟨rfl, now, id, inst, by rw [hassignment], hbound.1, hbound.2, hlive⟩)⟩
    rw [RoomRow.release]
    split_ifs with hclosing
    · exact .inr (.inr (.inr ⟨hclosing, rfl⟩))
    · exact .inl rfl
  | @create id owner hfresh =>
    refine ⟨row, (find_set_of_ne ?_).trans hrow, hsame⟩
    rintro rfl
    cases hfresh.symm.trans hrow
  | beginEnd hchanged =>
    refine exists_find_set hrow hsame ?_
    rintro rfl
    cases hrow.symm.trans hchanged
    exact ⟨beginEnd_next _, .inl ⟨rfl, rfl, rfl⟩⟩

/-- A room that is new is open and not bound. -/
theorem Effect.room_new {room : String}
    (hnone : st.rooms.find room = none) (hrow : st'.rooms.find room = some row) :
    row.node = none ∧ row.inst = none ∧ row.assignmentId = "" ∧ row.state = .open := by
  have hold : ∀ {changed : String} {row₁ row' : RoomRow}, st.rooms.find changed = some row₁ →
      (st.setRoom changed row').rooms.find room = none := fun hchanged => by
    refine (find_set_of_ne ?_).trans hnone
    rintro rfl
    cases hnone.symm.trans hchanged
  cases heffect with
  | refresh | takeOver | heartbeat | stale | setMemberRole => cases hnone.symm.trans hrow
  | reassign hchanged | assign hchanged | release _ hchanged | beginEnd hchanged =>
    cases (hold hchanged).symm.trans hrow
  | probe probes =>
    have hmap := map_find_setLastProbes (f := fun _ => ()) (fun _ _ => rfl) st.rooms probes room
    rw [hnone, map_none, map_eq_none_iff] at hmap
    cases hmap.symm.trans hrow
  | @create id owner _ =>
    have hfind : (st.addRoom id owner).rooms.find room =
        if room = id then some { owner } else st.rooms.find room := find_set ..
    rw [hfind] at hrow
    split_ifs at hrow
    · cases hrow
      exact ⟨rfl, rfl, rfl, rfl⟩
    · cases hnone.symm.trans hrow

/-- What a call can do to a node. -/
theorem Effect.node {row : NodeRow} (hrow : st.nodes.find id = some row) :
    ∃ row', st'.nodes.find id = some row' ∧ (row'.inst = row.inst ∨
      (∃ now node, call = .register now node ∧ node.id = id ∧ row.expires ≤ now) ∧
        st.instances.find (id, row'.inst) = none) := by
  cases heffect with
  | @refresh now node existing hchanged hinst =>
    refine exists_find_set hrow (.inl rfl) ?_
    rintro rfl
    cases hrow.symm.trans hchanged
    exact .inl hinst.symm
  | @takeOver now node _ _ hexpired hfresh =>
    refine exists_find_set hrow (.inl rfl) ?_
    rintro rfl
    exact .inr ⟨⟨now, node, rfl, rfl, (hexpired row hrow).2⟩, hfresh⟩
  | @heartbeat now changed inst participants existing hchanged =>
    refine exists_find_set hrow (.inl rfl) ?_
    rintro rfl
    cases hrow.symm.trans hchanged
    exact .inl rfl
  | _ => exact ⟨row, hrow, .inl rfl⟩

/-- An instance is never forgotten. -/
theorem Effect.known (h : st.instances.find key ≠ none) : st'.instances.find key ≠ none := by
  cases heffect with
  | takeOver => exact known_remember h
  | _ => exact h

end

/-! ## Runs -/

theorem after_concat (calls : List Call) (call : Call) :
    after (calls ++ [call]) = step (after calls) call := run_concat calls call

theorem known_after {pre calls : List Call} (hpre : pre <+: calls)
    (h : (after pre).instances.find key ≠ none) : (after calls).instances.find key ≠ none := by
  obtain ⟨post, rfl⟩ := hpre
  induction post using List.reverseRecOn with
  | nil => rwa [append_nil]
  | append_singleton post call ih =>
    rw [← append_assoc, after_concat]
    rcases step_cases (after (pre ++ post)) call with heq | heffect
    · rwa [heq]
    · exact heffect.known ih

/-- An assignment id is one that has been drawn. -/
theorem assignmentId_after (calls : List Call) {room : String}
    (hrow : (after calls).rooms.find room = some row) :
    row.assignmentId = "" ∨ ∃ id ∈ calls.filterMap Call.random, row.assignmentId = id := by
  induction calls using List.reverseRecOn generalizing room row with
  | nil => cases hrow
  | append_singleton calls call ih =>
    have hmono : ∀ {s : String}, (s = "" ∨ ∃ id ∈ calls.filterMap Call.random, s = id) →
        s = "" ∨ ∃ id ∈ (calls ++ [call]).filterMap Call.random, s = id := by
      rintro s (hs | ⟨id, hid, hs⟩)
      · exact .inl hs
      · exact .inr ⟨id, by rw [filterMap_append]; exact mem_append_left _ hid, hs⟩
    rw [after_concat] at hrow
    rcases step_cases (after calls) call with heq | heffect
    · rw [heq] at hrow
      exact hmono (ih hrow)
    · cases hold : (after calls).rooms.find room with
      | none => exact .inl (heffect.room_new hold hrow).2.2.1
      | some row₀ =>
        obtain ⟨row', hrow', -, hrebound⟩ := heffect.room (after_inv calls) hold
        cases hrow'.symm.trans hrow
        rcases hrebound with hsame | ⟨-, -, now, id, rfl, hid⟩ | ⟨hnone, -⟩
        · rw [hsame.2.2]
          exact hmono (ih hold)
        · exact .inr ⟨id, by simp [Call.random], hid⟩
        · have hinv := step_inv (after_inv calls) call
          exact .inl ((hinv.rooms room row hrow).unbound hnone).2

/-- Bindings are fenced and bounded after the calls `calls`, and by the next call `call`. -/
structure Fenced (calls : List Call) (call : Call) : Prop where
  /-- A node has no more rooms than it can take. -/
  capacity : ∀ id node, (after calls).nodes.find id = some node →
    (assigned (after calls) id node.inst : ℤ) ≤ node.capacity
  /-- A node changes its instance only when its lease has expired, and to a new one. -/
  instances : ∀ id node, (after calls).nodes.find id = some node →
    ∃ node', (after (calls ++ [call])).nodes.find id = some node' ∧ (node'.inst = node.inst ∨
      (∃ now new, call = .register now new ∧ new.id = id ∧ node.expires ≤ now) ∧
      ∀ pre, pre <+: calls → ∀ old, (after pre).nodes.find id = some old → old.inst ≠ node'.inst)
  /-- Rooms are never deleted. They are opened, closed and ended, and only `AssignRoom` and
      `ReleaseRoom` change their bindings. -/
  rooms : ∀ room row, (after calls).rooms.find room = some row →
    ∃ row', (after (calls ++ [call])).rooms.find room = some row' ∧
      row.state.Next row'.state ∧ Rebound (after calls) call room row row' ∧
      -- A new binding has an assignment id of its own.
      (row.node = none → row'.node ≠ none → row'.assignmentId ≠ "" ∧
        ∀ pre, pre <+: calls → ∀ r old, (after pre).rooms.find r = some old →
          old.assignmentId ≠ row'.assignmentId)
  /-- New rooms are open and not bound. -/
  created : ∀ room row, (after calls).rooms.find room = none →
    (after (calls ++ [call])).rooms.find room = some row → row.node = none ∧ row.state = .open
  closing : ∀ room row, (after calls).rooms.find room = some row → row.state = .closing →
    row.node ≠ none ∧ row.inst ≠ none
  ended : ∀ room row, (after calls).rooms.find room = some row → row.state = .ended →
    row.node = none ∧ row.inst = none ∧ row.assignmentId = ""
  /-- `AssignRoom` returns a node with a lease. -/
  assigned : ∀ now random room st assignment,
    assignRoom (after calls) now random room = .ok (st, assignment) →
      Live (after calls) assignment.node.id assignment.node.inst now

theorem bindings_fenced (calls : List Call) (call : Call)
    (hdistinct : ((calls ++ [call]).filterMap Call.random).Nodup) : Fenced calls call := by
  have hinv := after_inv calls
  refine ⟨hinv.capacity, ?_, ?_, ?_, ?_, ?_, fun _ _ _ _ _ h => (assignRoom_eq_ok h).1⟩
  · intro id node hnode
    rw [after_concat]
    rcases step_cases (after calls) call with heq | heffect
    · rw [heq]
      exact ⟨node, hnode, .inl rfl⟩
    · obtain ⟨node', hnode', hsame | ⟨hregister, hfresh⟩⟩ := heffect.node hnode
      · exact ⟨node', hnode', .inl hsame⟩
      · refine ⟨node', hnode', .inr ⟨hregister, fun pre hpre old hold heq => ?_⟩⟩
        have hknown := known_after hpre ((after_inv pre).current id old hold)
        rw [heq] at hknown
        exact hknown hfresh
  · intro room row hrow
    rw [after_concat]
    rcases step_cases (after calls) call with heq | heffect
    · rw [heq]
      exact ⟨row, hrow, .inl rfl, .inl ⟨rfl, rfl, rfl⟩, fun hnone hbound => absurd hnone hbound⟩
    · obtain ⟨row', hrow', hstate, hrebound⟩ := heffect.room hinv hrow
      refine ⟨row', hrow', hstate, hrebound, fun hnone hbound => ?_⟩
      rcases hrebound with hsame | ⟨-, -, now, id, rfl, hid⟩ | ⟨hunbound, -⟩
      · exact absurd (hsame.1.trans hnone) hbound
      · rw [hid]
        refine ⟨id.2, fun pre hpre r old hold heq => ?_⟩
        rcases assignmentId_after pre hold with hempty | ⟨id', hid', hold'⟩
        · exact id.2 (heq.symm.trans hempty)
        · -- The id would have been drawn twice.
          obtain rfl : id' = id := Subtype.ext (hold'.symm.trans heq)
          rw [filterMap_append] at hdistinct
          refine (nodup_append.1 hdistinct).2.2 id' ?_ id' mem_cons_self rfl
          obtain ⟨post, rfl⟩ := hpre
          rw [filterMap_append]
          exact mem_append_left _ hid'
      · exact absurd hunbound hbound
  · intro room row hnone hrow
    rw [after_concat] at hrow
    rcases step_cases (after calls) call with heq | heffect
    · rw [heq] at hrow
      cases hnone.symm.trans hrow
    · have hnew := heffect.room_new hnone hrow
      exact ⟨hnew.1, hnew.2.2.2⟩
  · intro room row hrow hclosing
    have hsound := hinv.rooms room row hrow
    have hbound := hsound.closing hclosing
    refine ⟨hbound, fun hinst => ?_⟩
    obtain ⟨id, hid⟩ := ne_none_iff_exists'.1 hbound
    obtain ⟨-, inst, hinst', -⟩ := hsound.bound id hid
    cases hinst.symm.trans hinst'
  · intro room row hrow hended
    have hsound := hinv.rooms room row hrow
    have hnone := hsound.ended hended
    exact ⟨hnone, hsound.unbound hnone⟩

/-- A node takes a room and gives it back. Its process starts again when the lease is over. -/
def restarted : List Call :=
  let node : Node := { id := "n", inst := "i", signalingUrl := "ws://h", maxRooms := 1 }
  [.register 0 node, .createRoom (some ⟨"r", by decide⟩) "alice",
    .assignRoom 1 (some ⟨"a", by decide⟩) "r", .releaseRoom 2 "n" "i" "r" "a",
    .register 10 { node with inst := "j" }]

/-- The room goes to the new process, with an id of its own. -/
theorem bindings_fenced_restarted :
    ((after (restarted ++ [Call.assignRoom 11 (some ⟨"b", by decide⟩) "r"])).rooms.find "r").map
      (fun row => (row.inst, row.assignmentId)) = some (some "j", "b") ∧
    Fenced restarted (.assignRoom 11 (some ⟨"b", by decide⟩) "r") :=
  ⟨by decide +kernel, bindings_fenced restarted _ (by decide +kernel)⟩

end Packetia.Cluster
