import Packetia.Cluster.Bindings

/-!
# Leases

A process that runs a node keeps a lease of its own (`NodeLease.h`): it counts from the start of a
request on the monotonic clock of the process, in milliseconds, and is two seconds shorter than
the lease that the coordinator grants (`NodeClient.cpp`). The coordinator counts from the moment it
handles the request, in whole seconds of its own clock.

The clocks run at the same rate, each with an offset. Time is an ordered field, such as the reals.
Requests and replies may be lost, late or repeated: once sent, they can arrive any number of times.
A reply belongs to its request, since a request has a connection of its own.

Of the processes that run a node, those of one instance at most see their lease live
(`one_live_instance`).
-/

namespace Packetia.Cluster

open List Function

variable {ι 𝕜 : Type*} [Field 𝕜] [LinearOrder 𝕜] [IsStrictOrderedRing 𝕜] [FloorRing 𝕜]

/-- Processes, the node that each of them runs, and the offsets of the clocks. -/
structure Deployment (ι 𝕜 : Type*) [Zero 𝕜] [LE 𝕜] where
  node : ι → Node
  /-- The clock of the coordinator, when time is zero. -/
  epoch : 𝕜
  /-- The monotonic clock of a process, when time is zero. It does not go below zero. -/
  boot : ι → 𝕜
  boot_nonneg : ∀ p, 0 ≤ boot p

variable (d : Deployment ι 𝕜)

/-- `NodeLease::NowMs`. -/
def Deployment.nowMs (p : ι) (t : 𝕜) : ℤ := ⌊1000 * (t + d.boot p)⌋

/-- `Coordinator::UnixSeconds`. -/
def Deployment.unixSeconds (t : 𝕜) : ℤ := ⌊t + d.epoch⌋

/-- A request of `NodeClient::Send`. -/
structure Request (ι : Type*) where
  process : ι
  requestStart : ℤ
  registration : Bool
  participants : ℤ

structure Reply (ι : Type*) where
  process : ι
  requestStart : ℤ
  status : ℕ

structure System (ι : Type*) where
  store : Store := {}
  requests : List (Request ι) := []
  replies : List (Reply ι) := []
  /-- `deadline_` of the lease of each process. -/
  deadline : ι → ℤ := fun _ => 0

inductive Event (ι : Type*)
  | send (p : ι) (registration : Bool) (participants : ℤ)
  /-- The coordinator handles the `i`-th request. What it does after the transaction may fail. -/
  | handle (i : ℕ) (fault : Option ℕ)
  /-- The `i`-th request is refused before it comes to a transaction. -/
  | refuse (i : ℕ) (status : ℕ)
  /-- The `i`-th reply arrives. -/
  | receive (i : ℕ)
  | revoke (p : ι)

/-- `NodeLease::Renew`. -/
def renew (requestStart leaseSeconds : ℤ) : ℤ := requestStart + (leaseSeconds - 2) * 1000

/-- The call of the coordinator that a request asks for. -/
def Request.call (t : 𝕜) (r : Request ι) : Call :=
  if r.registration then
    .register (d.unixSeconds t) { d.node r.process with participants := r.participants }
  else .heartbeat (d.unixSeconds t) (d.node r.process).id (d.node r.process).inst r.participants

namespace System

variable [DecidableEq ι]

/-- `NodeLease::IsLive`. -/
def IsLive (s : System ι) (p : ι) (t : 𝕜) : Prop :=
  d.nowMs p t < s.deadline p
  deriving Decidable

/-- An event at the time `t`. -/
def step (d : Deployment ι 𝕜) (s : System ι) (event : 𝕜 × Event ι) : System ι :=
  let t := event.1
  match event.2 with
  | .send p registration participants =>
    { s with requests := s.requests ++ [⟨p, d.nowMs p t, registration, participants⟩] }
  | .handle i fault =>
    match s.requests[i]? with
    | none => s
    | some r =>
      match (r.call d t).run s.store with
      | .error failure =>
        { s with replies := s.replies ++ [⟨r.process, r.requestStart, failure.status⟩] }
      | .ok store =>
        { s with
          store
          replies := s.replies ++ [⟨r.process, r.requestStart, fault.getD 200⟩] }
  | .refuse i status =>
    match s.requests[i]? with
    | none => s
    | some r =>
      if status = 200 then s
      else { s with replies := s.replies ++ [⟨r.process, r.requestStart, status⟩] }
  | .receive i =>
    match s.replies[i]? with
    | none => s
    | some reply =>
      if reply.status = 200 then
        { s with deadline :=
            Function.update s.deadline reply.process (renew reply.requestStart kLeaseSeconds) }
      else if reply.status = 401 ∨ reply.status = 409 then
        { s with deadline := Function.update s.deadline reply.process 0 }
      else s
  | .revoke p => { s with deadline := Function.update s.deadline p 0 }

/-- The system after the events `events`, from nothing. -/
def after (d : Deployment ι 𝕜) (events : List (𝕜 × Event ι)) : System ι :=
  Packetia.run (step d) {} events

end System

/-! ## When a lease ends -/

namespace Deployment

variable (d : Deployment ι 𝕜) {p : ι} {t : 𝕜}

/-- The time at which the clock of `p` reads `ms`. -/
def timeOf (p : ι) (ms : ℤ) : 𝕜 := ms / 1000 - d.boot p

theorem nowMs_lt {ms : ℤ} : d.nowMs p t < ms ↔ t < d.timeOf p ms := by
  rw [nowMs, Int.floor_lt, timeOf, lt_sub_iff_add_lt, lt_div_iff₀' (by norm_num)]

/-- A lease that counts from now ends in eight seconds at the latest. -/
theorem timeOf_renew_le : d.timeOf p (renew (d.nowMs p t) kLeaseSeconds) ≤ t + 8 := by
  have hfloor : (d.nowMs p t : 𝕜) ≤ 1000 * (t + d.boot p) := Int.floor_le _
  rw [timeOf, renew, kLeaseSeconds, sub_le_iff_le_add, div_le_iff₀ (by norm_num)]
  push_cast
  linarith

theorem nowMs_nonneg (ht : 0 ≤ t) : 0 ≤ d.nowMs p t := by
  have hsum : 0 ≤ t + d.boot p := add_nonneg ht (d.boot_nonneg p)
  exact Int.floor_nonneg.2 (mul_nonneg (by norm_num) hsum)

theorem unixSeconds_mono {t' : 𝕜} (h : t ≤ t') : d.unixSeconds t ≤ d.unixSeconds t' :=
  Int.floor_le_floor (add_le_add_left h _)

end Deployment

/-! ## What the coordinator grants -/

/-- The coordinator has granted a lease to the instance `inst` of the node `id` at `now`. -/
structure Granted (st st' : Store) (id inst : String) (now : ℤ) : Prop where
  row : ∃ row, st'.nodes.find id = some row ∧ row.inst = inst ∧ row.expires = now + kLeaseSeconds
  others : ∀ j, j ≠ id → st'.nodes.find j = st.nodes.find j
  known : ∀ key, st.instances.find key ≠ none → st'.instances.find key ≠ none
  registered : st'.instances.find (id, inst) ≠ none
  /-- It had one before, or it is new and nobody else has one. -/
  before : (∃ row, st.nodes.find id = some row ∧ row.inst = inst) ∨
    st.instances.find (id, inst) = none ∧
      ∀ row, st.nodes.find id = some row → row.inst ≠ inst ∧ row.expires ≤ now

variable {st st' : Store} (d : Deployment ι 𝕜) {t : 𝕜} {r : Request ι} {node : Node}
  {failure : Failure}

theorem granted_of_register {now : ℤ} (hinv : Inv st)
    (h : register st now node = .ok st') : Granted st st' node.id node.inst now := by
  have hothers : ∀ (st : Store) (j : String), j ≠ node.id →
      (st.setNode node.id (node.row now)).nodes.find j = st.nodes.find j :=
    fun st j hj => Table.find_set_of_ne hj
  cases register_effect h with
  | @refresh _ _ existing hrow hinst _ =>
    have hknown := hinv.current _ existing hrow
    rw [hinst] at hknown
    exact ⟨⟨_, Table.find_set_self, rfl, rfl⟩, hothers st, fun _ => id, hknown,
      .inl ⟨existing, hrow, hinst⟩⟩
  | takeOver _ _ hexpired hfresh =>
    refine ⟨⟨_, Table.find_set_self, rfl, rfl⟩, hothers (st.remember node),
      fun _ => known_remember, ?_, .inr ⟨hfresh, hexpired⟩⟩
    refine (find_remember node _).trans_ne ?_
    rw [if_pos rfl]
    exact Option.some_ne_none _

omit [IsStrictOrderedRing 𝕜] in
theorem granted_of_run (hinv : Inv st) (h : (r.call d t).run st = .ok st') :
    Granted st st' (d.node r.process).id (d.node r.process).inst (d.unixSeconds t) := by
  rw [Request.call] at h
  split_ifs at h
  · have hgranted := granted_of_register hinv h
    exact hgranted
  · cases heartbeat_effect h with
    | @heartbeat _ _ _ _ row hrow hinst =>
      refine ⟨⟨_, Table.find_set_self, hinst, rfl⟩, fun j hj => Table.find_set_of_ne hj,
        fun _ => id, ?_, .inl ⟨row, hrow, hinst⟩⟩
      have hknown := hinv.current _ row hrow
      rwa [hinst] at hknown

omit [Field 𝕜] [LinearOrder 𝕜] [IsStrictOrderedRing 𝕜] [FloorRing 𝕜] in
theorem map_eq_error {α β ε : Type*} {x : Except ε α} {f : α → β} {e : ε}
    (h : x.map f = .error e) : x = .error e := by
  cases x with
  | error e' => exact congrArg Except.error (Except.error.inj h)
  | ok a => cases h

theorem retirePrevious_status
    (h : retirePrevious st node = .error failure) : failure.status = 409 := by
  rw [retirePrevious] at h
  split_ifs at h
  cases h
  rfl

theorem checkInstance_status {now : ℤ}
    (h : checkInstance st now node = .error failure) : failure.status = 409 := by
  rw [checkInstance] at h
  cases hrow : st.nodes.find node.id with
  | none =>
    rw [hrow] at h
    exact retirePrevious_status h
  | some existing =>
    rw [hrow] at h
    dsimp only at h
    split_ifs at h
    · cases h
      rfl
    · cases h
      rfl
    · exact retirePrevious_status h

omit [IsStrictOrderedRing 𝕜] in
/-- A request that fails is not answered with 200. -/
theorem status_of_run (h : (r.call d t).run st = .error failure) : failure.status ≠ 200 := by
  rw [Request.call] at h
  split_ifs at h
  · rw [Call.run, register] at h
    split_ifs at h
    · cases h
      decide
    · cases h
      decide
    · rw [checkInstance_status (map_eq_error h)]
      decide
  · rw [Call.run, heartbeat] at h
    split_ifs at h
    · cases h
      decide
    · cases h
      decide
    · cases hrow : st.nodes.find (d.node r.process).id with
      | none =>
        rw [hrow] at h
        cases h
        decide
      | some row =>
        rw [hrow] at h
        dsimp only at h
        split_ifs at h
        cases h
        decide

/-! ## Invariant -/

/-- The lease that a reply brings ends at this time. -/
def Reply.ends (r : Reply ι) : 𝕜 := d.timeOf r.process (renew r.requestStart kLeaseSeconds)

/-- A successful reply is to the instance that the coordinator has, and ends a second before the
    coordinator's own lease, or it is to an instance that has been replaced, and has ended. -/
def Reply.Covered (st : Store) (t : 𝕜) (r : Reply ι) : Prop :=
  st.instances.find ((d.node r.process).id, (d.node r.process).inst) ≠ none ∧
  ∃ row, st.nodes.find (d.node r.process).id = some row ∧
    (row.inst = (d.node r.process).inst ∧ r.ends d + d.epoch + 1 < row.expires ∨
      row.inst ≠ (d.node r.process).inst ∧ r.ends d ≤ t)

/-- The system is consistent at the time `t`. -/
structure System.Inv (d : Deployment ι 𝕜) (s : System ι) (t : 𝕜) : Prop where
  store : Cluster.Inv s.store
  requests : ∀ r ∈ s.requests, d.timeOf r.process (renew r.requestStart kLeaseSeconds) ≤ t + 8
  expires : ∀ id row, s.store.nodes.find id = some row →
    row.expires ≤ d.unixSeconds t + kLeaseSeconds
  replies : ∀ r ∈ s.replies, r.status = 200 → r.Covered d s.store t
  leases : ∀ p, s.deadline p = 0 ∨ ∃ r ∈ s.replies, r.status = 200 ∧ r.process = p ∧
    s.deadline p = renew r.requestStart kLeaseSeconds

namespace System

variable {d} {s : System ι} {t t' : 𝕜} {st' : Store}

theorem Inv.mono (h : Inv d s t) (ht : t ≤ t') : Inv d s t' where
  store := h.store
  requests r hr := (h.requests r hr).trans (add_le_add_left ht 8)
  expires id row hrow := (h.expires id row hrow).trans (add_le_add_left (d.unixSeconds_mono ht) _)
  replies r hr hstatus := by
    obtain ⟨hknown, row, hrow, hcurrent | hreplaced⟩ := h.replies r hr hstatus
    · exact ⟨hknown, row, hrow, .inl hcurrent⟩
    · exact ⟨hknown, row, hrow, .inr ⟨hreplaced.1, hreplaced.2.trans ht⟩⟩
  leases := h.leases

/-- A grant keeps what has been replied before. -/
theorem covered_of_granted {id inst : String}
    (hexpires : ∀ id row, s.store.nodes.find id = some row →
      row.expires ≤ d.unixSeconds t + kLeaseSeconds)
    (hgranted : Granted s.store st' id inst (d.unixSeconds t)) {r : Reply ι}
    (hcovered : r.Covered d s.store t) : r.Covered d st' t := by
  obtain ⟨hknown, row, hrow, hcase⟩ := hcovered
  refine ⟨hgranted.known _ hknown, ?_⟩
  by_cases hid : (d.node r.process).id = id
  swap
  · exact ⟨row, (hgranted.others _ hid).trans hrow, hcase⟩
  obtain ⟨row', hrow', hinst', hexpires'⟩ := hgranted.row
  rw [hid] at hknown hrow ⊢
  refine ⟨row', hrow', ?_⟩
  rcases hgranted.before with ⟨old, hold, holdInst⟩ | ⟨hfresh, hexpired⟩
  · -- The instance stays, and the lease does not get shorter.
    cases hrow.symm.trans hold
    have hle := hexpires id row hrow
    rw [← hexpires'] at hle
    have hle' : (row.expires : 𝕜) ≤ row'.expires := Int.cast_le.2 hle
    rw [hinst', ← holdInst]
    exact hcase.imp_left fun h => ⟨h.1, h.2.trans_le hle'⟩
  · -- The instance is new, and whoever had a lease has none any more.
    have hne : row'.inst ≠ (d.node r.process).inst := fun heq => by
      rw [← heq, hinst'] at hknown
      exact hknown hfresh
    refine .inr ⟨hne, ?_⟩
    rcases hcase with ⟨-, hends⟩ | ⟨-, hends⟩
    · have hle : (row.expires : 𝕜) ≤ t + d.epoch :=
        (Int.cast_le.2 (hexpired row hrow).2).trans (Int.floor_le _)
      linarith
    · exact hends

/-- The reply to a request that has been granted. -/
theorem covered_of_new {r : Reply ι}
    (hgranted : Granted s.store st' (d.node r.process).id (d.node r.process).inst
      (d.unixSeconds t)) (hends : r.ends d ≤ t + 8) : r.Covered d st' t := by
  obtain ⟨row, hrow, hinst, hexpires⟩ := hgranted.row
  refine ⟨hgranted.registered, row, hrow, .inl ⟨hinst, ?_⟩⟩
  have hfloor : t + d.epoch < d.unixSeconds t + 1 := Int.lt_floor_add_one _
  rw [hexpires, kLeaseSeconds]
  push_cast
  linarith

omit [IsStrictOrderedRing 𝕜] in
/-- A reply more. -/
theorem Inv.addReply (h : Inv d s t) (r : Reply ι) (hr : r.status = 200 → r.Covered d s.store t) :
    Inv d { s with replies := s.replies ++ [r] } t := by
  refine { h with replies := forall_mem_concat.2 ⟨h.replies, hr⟩, leases := fun p => ?_ }
  refine (h.leases p).imp_right ?_
  rintro ⟨r', hr', hlease⟩
  exact ⟨r', mem_append_left _ hr', hlease⟩

theorem handle_inv (h : Inv d s t) {r : Request ι} (hr : r ∈ s.requests)
    (hrun : (r.call d t).run s.store = .ok st') (status : ℕ) :
    Inv d { s with
      store := st'
      replies := s.replies ++ [⟨r.process, r.requestStart, status⟩] } t := by
  have hgranted := granted_of_run d h.store hrun
  have hstore : Cluster.Inv st' := by
    have hstep := Cluster.step_inv h.store (r.call d t)
    rwa [Cluster.step, hrun] at hstep
  have hmid : Inv d { s with store := st' } t := by
    refine ⟨hstore, h.requests, fun id row hrow => ?_, fun r' hr' hstatus => ?_, h.leases⟩
    · by_cases hid : id = (d.node r.process).id
      · obtain ⟨row', hrow', -, hexpires⟩ := hgranted.row
        rw [hid] at hrow
        cases hrow'.symm.trans hrow
        exact hexpires.le
      · exact h.expires id row ((hgranted.others id hid).symm.trans hrow)
    · exact covered_of_granted h.expires hgranted (h.replies r' hr' hstatus)
  exact hmid.addReply _ fun _ => covered_of_new hgranted (h.requests r hr)

variable [DecidableEq ι]

omit [IsStrictOrderedRing 𝕜] in
/-- A lease that is revoked, or renewed by a successful reply. -/
theorem Inv.setDeadline (h : Inv d s t) (p : ι) (deadline : ℤ)
    (hdeadline : deadline = 0 ∨ ∃ r ∈ s.replies, r.status = 200 ∧ r.process = p ∧
      deadline = renew r.requestStart kLeaseSeconds) :
    Inv d { s with deadline := Function.update s.deadline p deadline } t := by
  refine { h with leases := fun q => ?_ }
  dsimp only
  by_cases hq : q = p
  · subst hq
    rw [update_self]
    exact hdeadline
  · rw [update_of_ne hq]
    exact h.leases q

theorem step_inv (h : Inv d s t) (event : Event ι) : Inv d (step d s (t, event)) t := by
  cases event with
  | send p registration participants =>
    exact { h with requests := forall_mem_concat.2 ⟨h.requests, d.timeOf_renew_le⟩ }
  | handle i fault =>
    rw [step]
    dsimp only
    cases hr : s.requests[i]? with
    | none => exact h
    | some r =>
      dsimp only
      cases hrun : (r.call d t).run s.store with
      | error failure => exact h.addReply _ fun hstatus => absurd hstatus (status_of_run d hrun)
      | ok st' => exact handle_inv h (mem_of_getElem? hr) hrun _
  | refuse i status =>
    rw [step]
    dsimp only
    cases s.requests[i]? with
    | none => exact h
    | some r =>
      split_ifs with hstatus
      · exact h
      · exact h.addReply _ fun heq => absurd heq hstatus
  | receive i =>
    rw [step]
    dsimp only
    cases hr : s.replies[i]? with
    | none => exact h
    | some r =>
      dsimp only
      split_ifs with hstatus
      · exact h.setDeadline _ _ (.inr ⟨r, mem_of_getElem? hr, hstatus, rfl, rfl⟩)
      · exact h.setDeadline _ _ (.inl rfl)
      · exact h
  | revoke p => exact h.setDeadline p 0 (.inl rfl)

omit [IsStrictOrderedRing 𝕜] [DecidableEq ι] in
/-- Nothing has been sent or granted at the start. -/
theorem init_inv (d : Deployment ι 𝕜) (t : 𝕜) : Inv d ({} : System ι) t where
  store := Cluster.after_inv []
  requests := nofun
  expires := nofun
  replies := nofun
  leases _ := .inl rfl

/-- The invariant holds at any time from the last event on. -/
theorem after_inv (d : Deployment ι 𝕜) (events : List (𝕜 × Event ι))
    (hsorted : (events.map Prod.fst).Pairwise (· ≤ ·)) (t : 𝕜)
    (ht : ∀ event ∈ events, event.1 ≤ t) : Inv d (after d events) t := by
  induction events using List.reverseRecOn generalizing t with
  | nil => exact init_inv d t
  | append_singleton events event ih =>
    rw [map_append, pairwise_append] at hsorted
    have hbefore : ∀ e ∈ events, e.1 ≤ event.1 := fun e he =>
      hsorted.2.2 e.1 (mem_map_of_mem he) event.1 mem_cons_self
    have hlast : event.1 ≤ t := ht event mem_concat_self
    rw [after, run_concat]
    exact (step_inv (ih hsorted.1 event.1 hbefore) event.2).mono hlast

omit [DecidableEq ι] in
/-- A lease that is live comes from a reply that has not ended. -/
theorem Inv.exists_reply (h : Inv d s t) (ht : 0 ≤ t) {p : ι} (hlive : IsLive d s p t) :
    ∃ r ∈ s.replies, r.status = 200 ∧ r.process = p ∧ t < r.ends d := by
  rcases h.leases p with hzero | ⟨r, hr, hstatus, hprocess, hdeadline⟩
  · rw [IsLive, hzero] at hlive
    exact absurd (d.nowMs_nonneg ht) (not_le.2 hlive)
  · rw [IsLive, hdeadline, d.nowMs_lt, ← hprocess] at hlive
    exact ⟨r, hr, hstatus, hprocess, hlive⟩

/-- At no time do two processes of one node with different instance ids see their lease live. -/
theorem one_live_instance (d : Deployment ι 𝕜) (events : List (𝕜 × Event ι))
    (hsorted : (events.map Prod.fst).Pairwise (· ≤ ·)) (t : 𝕜) (ht : 0 ≤ t)
    (hlast : ∀ event ∈ events, event.1 ≤ t) (p q : ι) (hid : (d.node p).id = (d.node q).id)
    (hinst : (d.node p).inst ≠ (d.node q).inst) :
    ¬(IsLive d (after d events) p t ∧ IsLive d (after d events) q t) := by
  rintro ⟨hp, hq⟩
  have hinv := after_inv d events hsorted t hlast
  obtain ⟨r, hr, hstatus, rfl, hends⟩ := hinv.exists_reply ht hp
  obtain ⟨r', hr', hstatus', rfl, hends'⟩ := hinv.exists_reply ht hq
  obtain ⟨-, row, hrow, hcase⟩ := hinv.replies r hr hstatus
  obtain ⟨-, row', hrow', hcase'⟩ := hinv.replies r' hr' hstatus'
  rw [← hid] at hrow'
  cases hrow.symm.trans hrow'
  -- The coordinator has one instance, so one of the two has been replaced.
  rcases hcase with ⟨hcurrent, -⟩ | ⟨-, hended⟩
  · rcases hcase' with ⟨hcurrent', -⟩ | ⟨-, hended'⟩
    · exact hinst (hcurrent.symm.trans hcurrent')
    · exact absurd hended' (not_le.2 hends')
  · exact absurd hended (not_le.2 hends)

/-- Two instances of a node. -/
def twoInstances : Deployment Bool ℚ where
  node p := { id := "n", inst := if p then "b" else "a", signalingUrl := "ws://h", maxRooms := 1 }
  epoch := 1 / 2
  boot p := if p then 3 else 0
  boot_nonneg p := by cases p <;> norm_num

/-- The first one registers. The second one is refused, and registers when the lease is over. -/
def takeover : List (ℚ × Event Bool) :=
  [(0, .send false true 0), (1 / 4, .handle 0 none), (1 / 2, .receive 0), (2, .send true true 0),
    (3, .handle 1 none), (4, .receive 1), (10, .send true true 0), (21 / 2, .handle 2 none),
    (11, .receive 2)]

theorem one_live_instance_takeover :
    IsLive twoInstances (after twoInstances (takeover.take 6)) false 4 ∧
    IsLive twoInstances (after twoInstances takeover) true 12 ∧
    ¬(IsLive twoInstances (after twoInstances takeover) false 12 ∧
      IsLive twoInstances (after twoInstances takeover) true 12) := by
  refine ⟨by decide +kernel, by decide +kernel,
    one_live_instance twoInstances takeover ?_ 12 ?_ ?_ false true rfl ?_⟩
  · decide +kernel
  · norm_num
  · decide +kernel
  · decide

end System

end Packetia.Cluster
