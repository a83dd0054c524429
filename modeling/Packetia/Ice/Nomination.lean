import Packetia.Ice.Agent

/-!
# The selected peer of the ICE agent

What an agent with the role Controlled trusts comes from requests that are signed with its
password (`Authentic`):

* the selected peer is the source of such a request, with USE-CANDIDATE, and nothing has reset
  the agent since (`Nominated`);
* the watchdog is reset by such requests of the selected peer and by `StartLiveness`
  (`Checked`).

`Inv` has both, and every call keeps it (`step_inv`).
-/

namespace Packetia.Ice

open List Stun Net

/-! ## Requests -/

variable {msg : StunMessageInfo} {remote : List Byte} {src : SocketAddr}

section Hmac

variable {hmac : Hmac}

variable (hmac) in
/-- `data` is a Binding request of the controlling side, signed for the credentials of `ctx`. -/
structure Authentic (ctx : IceContext) (data : List Byte) (msg : StunMessageInfo) : Prop where
  parsed : parse data = some msg
  whole : msg.raw.length = data.length
  binding : msg.isBindingRequest = true
  fingerprint : msg.hasAttr .fingerprint = true ∧ verifyFingerprint msg = true
  username : ∃ remote, decodeUsername msg = some (ctx.localUfrag ++ colon :: remote) ∧
    remote ≠ [] ∧ (ctx.remoteUfrag = [] ∨ ctx.remoteUfrag = remote)
  integrity : verifyMessageIntegrity hmac msg ctx.localPwd = true
  controlling : (decodeIceControlling msg).isSome = true

theorem split_colon {username : List Byte} (h : colon ∈ username) :
    username = username.takeWhile (· ≠ colon) ++
      colon :: (username.dropWhile (· ≠ colon)).tail := by
  induction username with
  | nil => cases h
  | cons b rest ih =>
    by_cases hb : b = colon
    · simp [hb]
    · have hrest : colon ∈ rest := (mem_cons.1 h).resolve_left (Ne.symm hb)
      simpa [hb] using ih hrest

variable {ctx : IceContext} {response data : List Byte}

/-- What `ValidateUsername` accepts. -/
theorem validateUsername_spec (h : validateUsername ctx msg = some remote) :
    decodeUsername msg = some (ctx.localUfrag ++ colon :: remote) ∧ remote ≠ [] ∧
      (ctx.remoteUfrag = [] ∨ ctx.remoteUfrag = remote) := by
  rw [validateUsername] at h
  obtain ⟨username, husername, h⟩ := Option.bind_eq_some_iff.1 h
  simp only [guard_bind] at h
  split_ifs at h with hcolon hparts hpinned
  obtain rfl := Option.some.inj h
  push Not at hparts hpinned
  refine ⟨?_, hparts.2.1, ?_⟩
  · rw [husername, ← hparts.1, ← split_colon hcolon]
  · by_cases hempty : ctx.remoteUfrag = []
    · exact .inl hempty
    · exact .inr (hpinned hempty).symm

/-- What a request that is accepted has passed. -/
theorem validateRequest_eq_ok (h : validateRequest hmac ctx src msg = .ok (remote, response)) :
    (msg.hasAttr .fingerprint = true ∧ verifyFingerprint msg = true) ∧
      validateUsername ctx msg = some remote ∧
      verifyMessageIntegrity hmac msg ctx.localPwd = true ∧ ¬BadIceAttributes msg ∧
      hasRoleConflict ctx msg = false ∧ src ≠ .none := by
  rw [validateRequest] at h
  cases husername : validateUsername ctx msg with
  | none =>
    simp only [husername] at h
    split_ifs at h
  | some remote' =>
    cases hsuccess : buildSuccess hmac ctx src msg with
    | none =>
      simp only [husername, hsuccess] at h
      split_ifs at h
    | some response' =>
      simp only [husername, hsuccess] at h
      split_ifs at h with hcredentials hfingerprint hmissing hintegrity hbad hunknown hconflict
      obtain ⟨rfl, rfl⟩ := Prod.mk.inj (Except.ok.inj h)
      simp only [not_or, Bool.not_eq_false] at hfingerprint
      refine ⟨hfingerprint, rfl, Bool.eq_true_of_not_eq_false hintegrity, hbad,
        Bool.eq_false_of_not_eq_true hconflict, ?_⟩
      -- The response has the source in it, so there is one.
      rintro rfl
      cases hsuccess

/-- A request that is not accepted is not answered with a success response. -/
theorem validateRequest_error_ne {e : HandleResult × List Byte}
    (h : validateRequest hmac ctx src msg = .error e) : e.1 ≠ .successResponse := by
  rw [validateRequest] at h
  cases husername : validateUsername ctx msg <;> cases hsuccess : buildSuccess hmac ctx src msg <;>
    simp only [husername, hsuccess] at h <;> split_ifs at h <;>
    rw [← Except.error.inj h] <;> exact nofun

theorem Authentic.of_validateRequest (hrole : ctx.role = .controlled)
    (hparsed : parse data = some msg) (hwhole : msg.raw.length = data.length)
    (hbinding : msg.isBindingRequest = true)
    (h : validateRequest hmac ctx src msg = .ok (remote, response)) :
    Authentic hmac ctx data msg := by
  obtain ⟨hfingerprint, husername, hintegrity, hbad, hconflict, -⟩ := validateRequest_eq_ok h
  refine ⟨hparsed, hwhole, hbinding, hfingerprint, ⟨remote, validateUsername_spec husername⟩,
    hintegrity, ?_⟩
  -- The request is not of the controlled side and of just one side.
  have hcontrolled : (decodeIceControlled msg).isSome = false := by
    simpa [hasRoleConflict, IceContext.isControlling, hrole] using hconflict
  simp only [BadIceAttributes, not_or] at hbad
  rw [hcontrolled, Bool.not_eq_false] at hbad
  exact hbad.2.2.2.1

/-- A request that is authentic stays so when its own user fragment is learnt. -/
theorem Authentic.learnt (h : Authentic hmac ctx data msg)
    (husername : validateUsername ctx msg = some remote) :
    Authentic hmac { ctx with remoteUfrag := remote } data msg := by
  obtain ⟨hname, hne, -⟩ := validateUsername_spec husername
  exact { h with username := ⟨remote, hname, hne, .inr rfl⟩ }

end Hmac

/-! ## Steps -/

namespace Agent

variable {a : Agent} {e : Event} {nowMs timeoutMs : ℕ}

/-- The watchdog fires at `nowMs`. -/
def TimesOut (a : Agent) (nowMs : ℕ) : Prop :=
  (a.state = .checking ∨ a.state = .completed) ∧ a.timeoutMs ≠ 0 ∧
    a.lastCheckMs + a.timeoutMs ≤ nowMs
  deriving Decidable

/-- The call is a restart, changes the credentials, runs into the timeout or closes the agent. -/
def Resets (a : Agent) : Call → Prop
  | .handleDatagram _ _ checkMs _ => a.TimesOut checkMs
  | .startLiveness timeoutMs nowMs => (a.startLiveness timeoutMs nowMs).2 = true
  | .checkLiveness nowMs => a.TimesOut nowMs
  | .setLocalCredentials ufrag pwd => ufrag ≠ a.ctx.localUfrag ∨ pwd ≠ a.ctx.localPwd
  | .setRemoteCredentials ufrag pwd => ufrag ≠ a.ctx.remoteUfrag ∨ pwd ≠ a.ctx.remotePwd
  | .close => True

@[simp] theorem transition_ctx (e : Event) : (a.transition e).1.ctx = a.ctx := by
  rw [transition]
  split <;> rfl

@[simp] theorem transition_timeoutMs (e : Event) : (a.transition e).1.timeoutMs = a.timeoutMs := by
  rw [transition]
  split <;> rfl

@[simp] theorem transition_lastCheckMs (e : Event) :
    (a.transition e).1.lastCheckMs = a.lastCheckMs := by
  rw [transition]
  split <;> rfl

/-- Only a nomination leads to Completed, and a check from there. -/
theorem process_completed {s : State} (h : process s e = some .completed) :
    e = .nominate ∨ e = .check := by
  cases s <;> cases e <;> first | exact .inl rfl | exact .inr rfl | exact absurd h (by decide)

/-- The state Completed accepts every event. -/
theorem process_isSome_completed (e : Event) : (process .completed e).isSome = true := by
  cases e <;> decide

/-- An event that resets the agent leaves it without a selected peer. -/
theorem transition_reset (he : e ≠ .check ∧ e ≠ .nominate)
    (h : a.state = .completed ↔ a.selectedPeer ≠ .none) :
    (a.transition e).1.state ≠ .completed ∧ (a.transition e).1.selectedPeer = .none := by
  rw [transition]
  split
  · rename_i hnone
    have hstate : a.state ≠ .completed := by
      intro hs
      have hsome := process_isSome_completed e
      rw [← hs, hnone] at hsome
      cases hsome
    exact ⟨hstate, not_not.1 fun hpeer => hstate (h.2 hpeer)⟩
  · rename_i s hs
    refine ⟨?_, if_pos he⟩
    rintro rfl
    rcases process_completed hs with rfl | rfl
    · exact he.2 rfl
    · exact he.1 rfl

/-- `CheckLiveness` only changes an agent whose watchdog fires. -/
theorem checkLiveness_fst (a : Agent) (nowMs : ℕ) : (a.checkLiveness nowMs).1 =
    if a.TimesOut nowMs then { a with state := .failed, selectedPeer := .none } else a := by
  obtain ⟨ctx, timeoutMs, lastCheckMs, selectedPeer, state⟩ := a
  have hlate : (nowMs ≥ lastCheckMs ∧ nowMs - lastCheckMs ≥ timeoutMs) ↔
      lastCheckMs + timeoutMs ≤ nowMs := by omega
  cases state <;> by_cases ht : timeoutMs = 0 <;>
    by_cases hn : lastCheckMs + timeoutMs ≤ nowMs <;>
    simp [checkLiveness, TimesOut, hlate, ht, hn, transition, process, transitions]

/-- An agent that is alive has not timed out. -/
theorem checkLiveness_snd (h : (a.checkLiveness nowMs).2 = true) :
    (a.state ≠ .failed ∧ a.state ≠ .closed) ∧ (a.checkLiveness nowMs).1 = a ∧
      (a.timeoutMs ≠ 0 → nowMs < a.lastCheckMs + a.timeoutMs) := by
  rw [checkLiveness] at h ⊢
  split_ifs at h ⊢ with hstate htimeout hlate
  · exact ⟨not_or.1 hstate, rfl, fun hne => absurd htimeout hne⟩
  · exact ⟨not_or.1 hstate, rfl, fun _ => by omega⟩

theorem startLiveness_eq_true (h : (a.startLiveness timeoutMs nowMs).2 = true) :
    (a.startLiveness timeoutMs nowMs).1 =
      { (a.transition .start).1 with timeoutMs, lastCheckMs := nowMs } := by
  rw [startLiveness] at h ⊢
  split_ifs at h ⊢
  rfl

theorem startLiveness_eq_false (h : (a.startLiveness timeoutMs nowMs).2 = false) :
    (a.startLiveness timeoutMs nowMs).1 = a := by
  rw [startLiveness] at h ⊢
  split_ifs at h ⊢
  rfl

theorem transition_check (halive : a.state ≠ .failed ∧ a.state ≠ .closed) :
    (a.transition .check).1 =
      { a with state := if a.state = .new then .checking else a.state } := by
  obtain ⟨ctx, timeoutMs, lastCheckMs, selectedPeer, state⟩ := a
  cases state with
  | new | checking | completed => rfl
  | failed => exact absurd rfl halive.1
  | closed => exact absurd rfl halive.2

theorem transition_nominate (h : a.state = .checking ∨ a.state = .completed) :
    (a.transition .nominate).1 = { a with state := .completed } := by
  obtain ⟨ctx, timeoutMs, lastCheckMs, selectedPeer, state⟩ := a
  rcases h with rfl | rfl <;> rfl

theorem select_cases (src : SocketAddr) (msg : StunMessageInfo)
    (h : a.state = .checking ∨ a.state = .completed) :
    (hasUseCandidate msg = true ∧
        a.select src msg = { a with state := .completed, selectedPeer := src }) ∨
      a.select src msg = a := by
  rw [select]
  split_ifs with hselect
  · exact .inl ⟨hselect.2.1, transition_nominate h⟩
  · exact .inr rfl

theorem refresh_cases (src : SocketAddr) (nowMs : ℕ) :
    ((a.state = .completed ∧ a.selectedPeer = src) ∧
        a.refresh src nowMs = { a with lastCheckMs := nowMs }) ∨
      a.refresh src nowMs = a := by
  rw [refresh]
  split_ifs with hrefresh
  · obtain ⟨-, hselected, hsame⟩ := hrefresh
    exact .inl ⟨⟨of_decide_eq_true hselected, (SocketAddr.same_iff.1 hsame).2⟩, rfl⟩
  · exact .inr rfl

/-- What an accepted request does: its user fragment is learnt if there is none, its source is
    selected if it nominates, and the watchdog is reset if it is from the selected peer. -/
theorem accept_spec (src : SocketAddr) (msg : StunMessageInfo) (remote : List Byte) (nowMs : ℕ)
    (halive : a.state ≠ .failed ∧ a.state ≠ .closed) :
    ∃ a', a.accept src msg remote nowMs = a' ∧
      a'.ctx = (if a.ctx.remoteUfrag = [] then { a.ctx with remoteUfrag := remote } else a.ctx) ∧
      a'.timeoutMs = a.timeoutMs ∧
      ((hasUseCandidate msg = true ∧ a'.state = .completed ∧ a'.selectedPeer = src) ∨
        (a'.selectedPeer = a.selectedPeer ∧ (a'.state = .completed ↔ a.state = .completed))) ∧
      (a'.lastCheckMs = a.lastCheckMs ∨
        a'.lastCheckMs = nowMs ∧ a'.state = .completed ∧ a'.selectedPeer = src) := by
  obtain ⟨b, hb⟩ : ∃ b, b = (a.transition .check).1.learn remote := ⟨_, rfl⟩
  have hb' : b.ctx = (if a.ctx.remoteUfrag = [] then { a.ctx with remoteUfrag := remote }
      else a.ctx) ∧ b.timeoutMs = a.timeoutMs ∧ b.lastCheckMs = a.lastCheckMs ∧
      b.selectedPeer = a.selectedPeer ∧
      b.state = if a.state = .new then .checking else a.state := by
    rw [hb, transition_check halive, learn]
    split_ifs <;> exact ⟨rfl, rfl, rfl, rfl, rfl⟩
  obtain ⟨hctx, htimeout, hlast, hpeer, hstate⟩ := hb'
  have hopen : b.state = .checking ∨ b.state = .completed := by
    rw [hstate]
    cases h : a.state <;> simp_all
  have hcompleted : b.state = .completed ↔ a.state = .completed := by
    rw [hstate]
    cases h : a.state <;> simp
  have haccept : a.accept src msg remote nowMs = (b.select src msg).refresh src nowMs := by
    rw [hb, accept]
  refine ⟨_, haccept, ?_⟩
  rcases select_cases src msg hopen with ⟨huse, hselect⟩ | hselect <;>
    rcases refresh_cases src nowMs with ⟨hfrom, hrefresh⟩ | hrefresh <;>
    rw [hrefresh, hselect]
  · exact ⟨hctx, htimeout, .inl ⟨huse, rfl, rfl⟩, .inr ⟨rfl, rfl, rfl⟩⟩
  · exact ⟨hctx, htimeout, .inl ⟨huse, rfl, rfl⟩, .inl hlast⟩
  · rw [hselect] at hfrom
    exact ⟨hctx, htimeout, .inr ⟨hpeer, hcompleted⟩, .inr ⟨rfl, hfrom⟩⟩
  · exact ⟨hctx, htimeout, .inr ⟨hpeer, hcompleted⟩, .inl hlast⟩

section Hmac

variable {hmac : Hmac}

variable (hmac) in
/-- A datagram times the agent out, is accepted as a request, or changes nothing. -/
theorem handleDatagram_cases (hrole : a.ctx.role = .controlled) (src : SocketAddr)
    (data : List Byte) (checkMs nowMs : ℕ) :
    ∃ r, a.handleDatagram hmac src data checkMs nowMs = r ∧ ((r.2.1 ≠ .successResponse ∧ r.1 =
        if a.TimesOut checkMs then { a with state := .failed, selectedPeer := .none } else a) ∨
      (r.2.1 = .successResponse ∧
        (a.state ≠ .failed ∧ a.state ≠ .closed) ∧ ¬a.TimesOut checkMs ∧ src ≠ .none ∧
        ∃ msg remote, Authentic hmac a.ctx data msg ∧ validateUsername a.ctx msg = some remote ∧
          r.1 = a.accept src msg remote nowMs)) := by
  have hfst := a.checkLiveness_fst checkMs
  refine ⟨_, rfl, ?_⟩
  rw [handleDatagram]
  by_cases hdead : (a.checkLiveness checkMs).2 = false
  · rw [if_pos hdead]
    exact .inl ⟨nofun, hfst⟩
  obtain ⟨halive, hsame, hlate⟩ := checkLiveness_snd (Bool.eq_true_of_not_eq_false hdead)
  have htimes : ¬a.TimesOut checkMs := fun h => by
    have := hlate h.2.1
    have := h.2.2
    omega
  rw [if_neg hdead, hsame, if_neg htimes]
  cases hparsed : parse data with
  | none => exact .inl ⟨nofun, rfl⟩
  | some msg =>
    by_cases hrequest : msg.raw.length ≠ data.length ∨ msg.isBindingRequest = false
    · simp only [if_pos hrequest]
      exact .inl ⟨nofun, trivial⟩
    simp only [if_neg hrequest]
    rw [not_or, not_not, Bool.not_eq_false] at hrequest
    cases hvalid : validateRequest hmac a.ctx src msg with
    | error e => exact .inl ⟨validateRequest_error_ne hvalid, rfl⟩
    | ok r =>
      obtain ⟨remote, response⟩ := r
      obtain ⟨-, husername, -, -, -, hsrc⟩ := validateRequest_eq_ok hvalid
      exact .inr ⟨rfl, halive, htimes, hsrc, msg, remote,
        Authentic.of_validateRequest hrole hparsed hrequest.1 hrequest.2 hvalid, husername, rfl⟩

/-! ## Runs -/

variable (hmac) in
/-- The selected peer sent a request with USE-CANDIDATE that is authentic for the present
    credentials, and the agent has not been reset since. -/
def Nominated (calls : List (Agent × Call)) (a : Agent) : Prop :=
  ∃ before later a₀ data checkMs nowMs msg,
    calls = before ++ (a₀, .handleDatagram a.selectedPeer data checkMs nowMs) :: later ∧
      (∀ x ∈ later, ¬x.1.Resets x.2) ∧ Authentic hmac a.ctx data msg ∧ hasUseCandidate msg = true

variable (hmac) in
/-- The call, in the agent `a`, starts the watchdog at `nowMs`, or resets it by a request that is
    authentic and comes from the selected peer. -/
def Checked (a : Agent) (call : Call) (nowMs : ℕ) : Prop :=
  (∃ timeoutMs, call = .startLiveness timeoutMs nowMs ∧
      (a.startLiveness timeoutMs nowMs).2 = true) ∨
    ∃ src data checkMs msg, call = .handleDatagram src data checkMs nowMs ∧
      Authentic hmac a.ctx data msg ∧ (a.step hmac call).state = .completed ∧
      (a.step hmac call).selectedPeer = src

variable (hmac) in
/-- What holds after the calls `calls`. -/
structure Inv (calls : List (Agent × Call)) (a : Agent) : Prop where
  role : a.ctx.role = .controlled
  selected : a.state = .completed ↔ a.selectedPeer ≠ .none
  pinned : a.state = .completed → a.ctx.remoteUfrag ≠ []
  nominated : a.state = .completed → Nominated hmac calls a
  checked : a.timeoutMs ≠ 0 → ∃ x ∈ calls, Checked hmac x.1 x.2 a.lastCheckMs

variable {calls : List (Agent × Call)} {call : Call}

theorem Nominated.concat (h : Nominated hmac calls a) (call : Call) (hcall : ¬a.Resets call) :
    Nominated hmac (calls ++ [(a, call)]) a := by
  obtain ⟨before, later, a₀, data, checkMs, nowMs, msg, rfl, hlater, hmsg⟩ := h
  refine ⟨before, later ++ [(a, call)], a₀, data, checkMs, nowMs, msg, ?_, ?_, hmsg⟩
  · rw [append_assoc, cons_append]
  · exact forall_mem_concat.2 ⟨hlater, hcall⟩

section

variable (h : Inv hmac calls a)
include h

/-- A call that leaves the agent as it is keeps the invariant, unless it resets the agent. -/
theorem Inv.same (hcall : ¬a.Resets call) : Inv hmac (calls ++ [(a, call)]) a where
  role := h.role
  selected := h.selected
  pinned := h.pinned
  nominated := fun hs => (h.nominated hs).concat call hcall
  checked := fun ht => by
    obtain ⟨x, hx, hat⟩ := h.checked ht
    exact ⟨x, mem_append_left _ hx, hat⟩

/-- An agent without a selected peer satisfies the invariant if its watchdog does. -/
theorem Inv.reset {a' : Agent} (hrole : a'.ctx.role = a.ctx.role) (hstate : a'.state ≠ .completed)
    (hpeer : a'.selectedPeer = .none)
    (hchecked : a'.timeoutMs ≠ 0 → (a'.timeoutMs = a.timeoutMs ∧ a'.lastCheckMs = a.lastCheckMs) ∨
      Checked hmac a call a'.lastCheckMs) : Inv hmac (calls ++ [(a, call)]) a' where
  role := hrole.trans h.role
  selected := by simp [hstate, hpeer]
  pinned := fun hs => absurd hs hstate
  nominated := fun hs => absurd hs hstate
  checked := fun ht => by
    rcases hchecked ht with ⟨hsame, hlast⟩ | hat
    · obtain ⟨x, hx, hat⟩ := h.checked (hsame ▸ ht)
      exact ⟨x, mem_append_left _ hx, hlast ▸ hat⟩
    · exact ⟨(a, call), mem_concat_self, hat⟩

omit h in
variable (hmac) in
/-- The watchdog moves by the calls that `Checked` names. -/
theorem step_lastCheckMs (hrole : a.ctx.role = .controlled) (call : Call) :
    (a.step hmac call).lastCheckMs = a.lastCheckMs ∨
      Checked hmac a call (a.step hmac call).lastCheckMs := by
  cases call with
  | handleDatagram src data checkMs nowMs =>
    obtain ⟨_, rfl, ⟨-, hstep⟩ | ⟨-, halive, -, -, msg, remote, hmsg, -, hstep⟩⟩ :=
      handleDatagram_cases hmac hrole src data checkMs nowMs
    · left
      rw [step, hstep]
      split_ifs <;> rfl
    · obtain ⟨_, rfl, -, -, -, hlast⟩ := accept_spec src msg remote nowMs halive
      rw [← hstep] at hlast
      rcases hlast with hlast | ⟨hlast, hcompleted, hpeer⟩
      · exact .inl hlast
      · refine .inr (.inr ⟨src, data, checkMs, msg, ?_, hmsg, hcompleted, hpeer⟩)
        rw [step, hlast]
  | startLiveness timeoutMs nowMs =>
    cases hstart : (a.startLiveness timeoutMs nowMs).2 with
    | false => exact .inl (by rw [step, startLiveness_eq_false hstart])
    | true =>
      refine .inr (.inl ⟨timeoutMs, ?_, ?_⟩) <;> rw [step, startLiveness_eq_true hstart]
      exact hstart
  | checkLiveness nowMs =>
    left
    rw [step, checkLiveness_fst]
    split_ifs <;> rfl
  | setLocalCredentials ufrag pwd =>
    left
    rw [step, setLocalCredentials]
    split_ifs
    · exact transition_lastCheckMs _
    · rfl
  | setRemoteCredentials ufrag pwd =>
    left
    rw [step, setRemoteCredentials]
    split_ifs
    · exact transition_lastCheckMs _
    · rfl
  | close => exact .inl (transition_lastCheckMs _)

/-- An accepted request keeps the invariant. -/
theorem Inv.accept {data : List Byte} {checkMs nowMs : ℕ}
    (halive : a.state ≠ .failed ∧ a.state ≠ .closed) (htimes : ¬a.TimesOut checkMs)
    (hsrc : src ≠ .none) (hmsg : Authentic hmac a.ctx data msg)
    (husername : validateUsername a.ctx msg = some remote)
    (hlast : (a.accept src msg remote nowMs).lastCheckMs = a.lastCheckMs ∨
      Checked hmac a (.handleDatagram src data checkMs nowMs)
        (a.accept src msg remote nowMs).lastCheckMs) :
    Inv hmac (calls ++ [(a, .handleDatagram src data checkMs nowMs)])
      (a.accept src msg remote nowMs) := by
  obtain ⟨_, rfl, hctx, htimeout, hselect, -⟩ := accept_spec src msg remote nowMs halive
  have hremote : remote ≠ [] := (validateUsername_spec husername).2.1
  have hpinned : (a.accept src msg remote nowMs).ctx.remoteUfrag ≠ [] := by
    rw [hctx]
    split_ifs with hempty
    · exact hremote
    · exact hempty
  have hauthentic : Authentic hmac (a.accept src msg remote nowMs).ctx data msg := by
    rw [hctx]
    split_ifs with hempty
    · exact hmsg.learnt husername
    · exact hmsg
  refine ⟨?_, ?_, fun _ => hpinned, fun hs => ?_, fun ht => ?_⟩
  · rw [hctx]
    split_ifs <;> exact h.role
  · rcases hselect with ⟨-, hs, hpeer⟩ | ⟨hpeer, hs⟩
    · simp [hs, hpeer, hsrc]
    · rw [hs, hpeer, h.selected]
  · rcases hselect with ⟨huse, -, hpeer⟩ | ⟨hpeer, hs'⟩
    · exact ⟨calls, [], a, data, checkMs, nowMs, msg, by rw [hpeer], by simp, hauthentic, huse⟩
    · -- The peer was selected before, so the user fragment has been known since.
      obtain ⟨before, later, a₀, data₀, checkMs₀, nowMs₀, msg₀, hcalls, hlater, hmsg₀, huse⟩ :=
        (h.nominated (hs'.1 hs)).concat (.handleDatagram src data checkMs nowMs) htimes
      rw [if_neg (h.pinned (hs'.1 hs))] at hctx
      exact ⟨before, later, a₀, data₀, checkMs₀, nowMs₀, msg₀, by rw [hpeer, hcalls], hlater,
        hctx ▸ hmsg₀, huse⟩
  · rcases hlast with hlast | hat
    · obtain ⟨x, hx, hat⟩ := h.checked (htimeout ▸ ht)
      exact ⟨x, mem_append_left _ hx, hlast ▸ hat⟩
    · exact ⟨_, mem_concat_self, hat⟩

theorem step_inv (call : Call) : Inv hmac (calls ++ [(a, call)]) (a.step hmac call) := by
  have hlast := step_lastCheckMs hmac h.role call
  cases call with
  | handleDatagram src data checkMs nowMs =>
    obtain ⟨_, rfl, ⟨-, hstep⟩ |
        ⟨-, halive, htimes, hsrc, msg, remote, hmsg, husername, hstep⟩⟩ :=
      handleDatagram_cases hmac h.role src data checkMs nowMs
    · rw [step, hstep]
      split_ifs with htimes
      · exact h.reset rfl (by simp) rfl fun _ => .inl ⟨rfl, rfl⟩
      · exact h.same htimes
    · rw [step, hstep] at hlast ⊢
      exact h.accept halive htimes hsrc hmsg husername hlast
  | startLiveness timeoutMs nowMs =>
    cases hstart : (a.startLiveness timeoutMs nowMs).2 with
    | false =>
      rw [step, startLiveness_eq_false hstart]
      exact h.same (by rw [Resets, hstart]; exact Bool.false_ne_true)
    | true =>
      obtain ⟨hstate, hpeer⟩ := transition_reset (e := .start) (by decide) h.selected
      rw [step, startLiveness_eq_true hstart]
      refine h.reset ?_ hstate hpeer fun _ => .inr (.inl ⟨timeoutMs, rfl, hstart⟩)
      rw [transition_ctx]
  | checkLiveness nowMs =>
    rw [step, checkLiveness_fst]
    split_ifs with htimes
    · exact h.reset rfl (by simp) rfl fun _ => .inl ⟨rfl, rfl⟩
    · exact h.same htimes
  | setLocalCredentials ufrag pwd | setRemoteCredentials ufrag pwd =>
    simp only [step, setLocalCredentials, setRemoteCredentials]
    split_ifs with hchanged
    · obtain ⟨hstate, hpeer⟩ := transition_reset (e := .credentialsChanged) (by decide) h.selected
      refine h.reset ?_ hstate hpeer fun _ =>
        .inl ⟨transition_timeoutMs _, transition_lastCheckMs _⟩
      rw [transition_ctx]
    · obtain ⟨hufrag, hpwd⟩ := not_or.1 hchanged
      obtain rfl := not_not.1 hufrag
      obtain rfl := not_not.1 hpwd
      exact h.same hchanged
  | close =>
    have hselected : { a with timeoutMs := 0 }.state = .completed ↔
        { a with timeoutMs := 0 }.selectedPeer ≠ .none := h.selected
    obtain ⟨hstate, hpeer⟩ := transition_reset (e := .close) (by decide) hselected
    refine h.reset ?_ hstate hpeer fun ht => absurd ?_ ht
    · rw [step, close, transition_ctx]
    · rw [step, close, transition_timeoutMs]

end

theorem after_inv (ops : List Call) : Inv hmac (history (step hmac) {} ops) (after hmac ops) := by
  refine run_induction (P := fun ops a => Inv hmac (history (step hmac) {} ops) a) ?_ ?_ ops
  · exact ⟨rfl, by decide, nofun, nofun, absurd rfl⟩
  · intro ops call h
    rw [history_concat]
    exact step_inv h call

variable (hmac) in
/-- Along every run of the agent: it is Completed exactly when it has a selected peer, which an
    authentic request of this peer nominated after the last reset; the watchdog moves by
    `StartLiveness` and by authentic requests of the selected peer only, so an agent that is alive
    at `nowMs` has seen one of them less than the timeout ago; and a datagram that is not answered
    with a success response changes nothing, unless the watchdog fires. -/
theorem selection_is_authenticated (ops : List Call) :
    ((after hmac ops).state = .completed ↔ (after hmac ops).selectedPeer ≠ .none) ∧
      ((after hmac ops).state = .completed →
        Nominated hmac (history (step hmac) {} ops) (after hmac ops)) ∧
      (∀ call, ((after hmac ops).step hmac call).lastCheckMs ≠ (after hmac ops).lastCheckMs →
        Checked hmac (after hmac ops) call ((after hmac ops).step hmac call).lastCheckMs) ∧
      (∀ nowMs, (after hmac ops).timeoutMs ≠ 0 →
        ((after hmac ops).checkLiveness nowMs).2 = true →
        ∃ x ∈ history (step hmac) {} ops, ∃ checkedMs, Checked hmac x.1 x.2 checkedMs ∧
          nowMs < checkedMs + (after hmac ops).timeoutMs) ∧
      (∀ src data checkMs nowMs,
        ((after hmac ops).handleDatagram hmac src data checkMs nowMs).2.1 ≠ .successResponse →
        ((after hmac ops).handleDatagram hmac src data checkMs nowMs).1 =
          if (after hmac ops).TimesOut checkMs then
            { after hmac ops with state := .failed, selectedPeer := .none }
          else after hmac ops) := by
  have h : Inv hmac (history (step hmac) {} ops) (after hmac ops) := after_inv ops
  refine ⟨h.selected, h.nominated, fun call hmoved => ?_, fun nowMs ht halive => ?_,
    fun src data checkMs nowMs hresult => ?_⟩
  · exact (step_lastCheckMs hmac h.role call).resolve_left hmoved
  · obtain ⟨x, hx, hat⟩ := h.checked ht
    exact ⟨x, hx, _, hat, (checkLiveness_snd halive).2.2 ht⟩
  · obtain ⟨_, rfl, ⟨-, hstep⟩ | ⟨hok, -⟩⟩ :=
      handleDatagram_cases hmac h.role src data checkMs nowMs
    · exact hstep
    · exact absurd hok hresult

/-! ## Close -/

theorem checkLiveness_closed {a : Agent} (h : a.state = .closed) (nowMs : ℕ) :
    a.checkLiveness nowMs = (a, false) := if_pos (.inr h)

/-- A closed agent stays closed, whatever is called. -/
theorem step_closed {a : Agent} (h : a.state = .closed) (call : Call) :
    (a.step hmac call).state = .closed := by
  have hstays (e : Event) : (a.transition e).1.state = .closed := by
    -- `transitions` has one row for a closed agent, which stays closed.
    rw [transition, h]
    cases e <;> first | exact h | rfl
  cases call with
  | handleDatagram src data checkMs nowMs =>
    rw [step, handleDatagram, checkLiveness_closed h]
    exact h
  | startLiveness timeoutMs nowMs =>
    rw [step, startLiveness]
    split_ifs
    · exact h
    · exact hstays .start
  | checkLiveness nowMs =>
    rw [step, checkLiveness_closed h]
    exact h
  | setLocalCredentials ufrag pwd =>
    rw [step, setLocalCredentials]
    split_ifs
    · exact hstays .credentialsChanged
    · exact h
  | setRemoteCredentials ufrag pwd =>
    rw [step, setRemoteCredentials]
    split_ifs
    · exact hstays .credentialsChanged
    · exact h
  | close =>
    rw [step, close, transition, h]
    rfl

variable (hmac) in
/-- `Close` is final: whatever is called after it, neither `StartLiveness` nor new credentials
    bring the agent back, and it ignores every datagram. -/
theorem closed_for_good (before later : List Call) :
    (after hmac (before ++ .close :: later)).state = .closed ∧
      ∀ src data checkMs nowMs, ((after hmac (before ++ .close :: later)).handleDatagram hmac src
        data checkMs nowMs).2 = (.ignored, []) := by
  have hclosed : (after hmac (before ++ .close :: later)).state = .closed := by
    rw [after, run_append, run_cons]
    refine run_induction (P := fun _ (a : Agent) => a.state = .closed) ?_
      (fun _ call h => step_closed h call) later
    rw [step, close, transition]
    cases (run (step hmac) {} before).state <;> rfl
  refine ⟨hclosed, fun src data checkMs nowMs => ?_⟩
  rw [handleDatagram, checkLiveness_closed hclosed]
  rfl

end Hmac

/-- A check by the user `b` of the agent `a`, with `p` as its password and an HMAC that is always
    zero. -/
def check (nomination : List StunAttribute) : List Byte :=
  (buildMessage (fun _ _ => octetsAt [] 0 20) .binding .request (octetsAt [] 0 12)
    ([⟨AttrType.username.code, [0x61, colon, 0x62]⟩, ⟨AttrType.priority.code, [0, 0, 0, 1]⟩,
      ⟨AttrType.iceControlling.code, List.replicate 8 0⟩] ++ nomination) [0x70] true).getD []

/-- The datagram on which the watchdog fires is ignored, and the selected peer is gone. A check
    without USE-CANDIDATE from the selected peer resets the watchdog. -/
theorem ignored_clears_and_check_refreshes :
    let hmac : Hmac := fun _ _ => octetsAt [] 0 20
    let peer : SocketAddr := .v4 (octetsAt [10, 0, 0, 1] 0 4) 5000
    let nomination := check [⟨AttrType.useCandidate.code, []⟩]
    let a := after hmac [.setLocalCredentials [0x61] [0x70], .startLiveness 1000 0,
      .handleDatagram peer nomination 1 1]
    (a.state = .completed ∧ a.selectedPeer = peer ∧ a.lastCheckMs = 1) ∧
      ((a.handleDatagram hmac peer nomination 1001 1001).2.1 = .ignored ∧
        (a.handleDatagram hmac peer nomination 1001 1001).1.selectedPeer = .none) ∧
      (parse (check [])).map hasUseCandidate = some false ∧
        (a.handleDatagram hmac peer (check []) 500 500).1.lastCheckMs = 500 := by
  decide +kernel

end Agent

end Packetia.Ice
