import Packetia.Account.Ledger

/-!
# Sessions are used once

What a lookup gives says how a token stands then (`Lookup`), and what is made of it later, with a
clock reading that is not before, is right (`resolution_iff`). A call that renews a token finds
its row not revoked when it commits, so no other call has renewed it.

The results are put together in `sessions_single_use`, of every interleaving of calls.
-/

namespace Packetia.Account

open List Option

/-! ## Lookups -/

/-- What a lookup of a token gave, when the ledger and the clock were these. -/
structure Lookup (config : Config) (users : List StoredUser) (ledger : List Entry) (clock : ℤ)
    (token : Text) (stored : Option StoredSession) : Prop where
  found : ∀ snapshot, stored = some snapshot → ∃ issue : Issue, issue.token = token ∧
    (∀ issue', .issued issue' ∈ ledger → issue'.token = token → issue' = issue) ∧
    (Standing ledger issue ↔ snapshot.session.revokedAt = 0) ∧
    (usersAfter users ledger).findUser issue.userId = some snapshot.user ∧
    Opens config clock snapshot.session issue
  missing : stored = none → ∀ issue, .issued issue ∈ ledger → issue.token = token →
    (usersAfter users ledger).findUser issue.userId = none

/-- `ResolveSession` succeeds just for a token that is live, and gives its user. -/
def Resolves (users : List StoredUser) (ledger : List Entry) (token : Text) (now : ℤ)
    (result : Except AccountError AccountIdentity) : Prop :=
  (∀ identity, result = .ok identity → ∃ user, Live users ledger token now user ∧
    identity.userId = user.id ∧ identity.displayName = user.displayName) ∧
  ((∃ user, Live users ledger token now user) → ∃ identity, result = .ok identity)

section Lookup

variable {config : Config} {users : List StoredUser} {store : Store} {ledger : List Entry}
  {clock now : ℤ} {token : Text} {stored : Option StoredSession}

theorem Standing.issued {issue : Issue} (h : Standing ledger issue) : .issued issue ∈ ledger := by
  obtain ⟨pre, post, rfl, -⟩ := h
  simp

/-- The rows of a table with distinct digests. -/
theorem Tables.find_of_mem (h : Tables config users store ledger clock) {row : LoginSession}
    (hrow : row ∈ store.sessions) :
    (store.sessions.find? fun other => other.tokenDigest = row.tokenDigest) = some row := by
  cases hfind : store.sessions.find? fun other => other.tokenDigest = row.tokenDigest with
  | none => simpa using find?_eq_none.1 hfind row hrow
  | some other =>
    have hdigest : other.tokenDigest = row.tokenDigest := by simpa using find?_some hfind
    rw [inj_on_of_nodup_map h.distinct (mem_of_find?_eq_some hfind) hrow hdigest]

theorem Tables.lookup (h : Tables config users store ledger clock) (htoken : isToken token = true) :
    Lookup config users ledger clock token (store.findSession (config.digest token)) where
  found snapshot hsnapshot := by
    obtain ⟨row, hfind, hsnapshot⟩ := bind_eq_some_iff.1 hsnapshot
    obtain ⟨user, huser, hsnapshot⟩ := bind_eq_some_iff.1 hsnapshot
    cases hsnapshot
    obtain ⟨issue, pre, post, hok⟩ := h.rows row (mem_of_find?_eq_some hfind)
    have hdigest : row.tokenDigest = config.digest token := by simpa using find?_some hfind
    obtain rfl : issue.token = token :=
      config.digest_injective _ _ hok.isToken htoken (hok.digest ▸ hdigest)
    refine ⟨issue, rfl, fun issue' hissue' heq => h.eq_of_issued hissue' hok.mem heq,
      h.standing_iff hok, ?_, hok.toOpens⟩
    rw [← hok.userId, ← Store.findUser_congr h.users]
    exact huser
  missing hnone issue hissue heq := by
    subst heq
    obtain ⟨row, hrow, hdigest⟩ := mem_map.1 (h.issued issue hissue).2
    obtain ⟨own, pre, post, hok⟩ := h.rows row hrow
    have hown : own = issue := by
      refine h.eq_of_issued hok.mem hissue ?_
      exact config.digest_injective _ _ hok.isToken htoken (hok.digest ▸ hdigest)
    subst hown
    rw [Store.findSession, ← hdigest, h.find_of_mem hrow] at hnone
    rw [← hok.userId, ← Store.findUser_congr h.users]
    exact eq_none_iff_forall_ne_some.2 (by simpa [bind_eq_none_iff] using hnone)

/-- The result of a call, from what its lookup gave and a later reading of the clock. -/
theorem Lookup.resolution_iff (h : Lookup config users ledger clock token stored)
    (hnow : clock ≤ now) : Resolves users ledger token now (resolution stored now) := by
  constructor
  · intro result hresult
    obtain ⟨snapshot, rfl, hrest⟩ := expect_bind_eq_ok.1 hresult
    obtain ⟨u, hvalid, hrest⟩ := bind_eq_ok.1 hrest
    cases hrest
    obtain ⟨hactive, hvalid⟩ := require_bind_eq_ok.1 hvalid
    obtain ⟨hrevoked, hvalid⟩ := require_bind_eq_ok.1 hvalid
    obtain ⟨hexpires, -⟩ := require_bind_eq_ok.1 hvalid
    rw [Bool.and_eq_true, decide_eq_true_eq, decide_eq_true_eq] at hrevoked
    obtain ⟨issue, htoken, -, hstanding, huser, hopens⟩ := h.found snapshot rfl
    refine ⟨snapshot.user, ⟨issue, htoken, hstanding.2 hrevoked.1, huser, of_decide_eq_true hactive,
      hrevoked.2.symm.trans hopens.credentialVersion, ?_⟩, rfl, rfl⟩
    rw [← hopens.expiresAt]
    exact of_decide_eq_true hexpires
  · rintro ⟨user, issue, htoken, hstanding, huser, hactive, hversion, hexpires⟩
    cases hstored : stored with
    | none =>
      rw [h.missing hstored issue hstanding.issued htoken] at huser
      cases huser
    | some snapshot =>
      obtain ⟨issue', -, hunique, hstanding', huser', hopens⟩ := h.found snapshot hstored
      obtain rfl := hunique issue hstanding.issued htoken
      obtain rfl : snapshot.user = user := some.inj (huser'.symm.trans huser)
      refine ⟨identity snapshot, expect_bind_eq_ok.2 ⟨snapshot, rfl, bind_eq_ok.2 ⟨(), ?_, rfl⟩⟩⟩
      refine require_bind_eq_ok.2 ⟨decide_eq_true hactive, require_bind_eq_ok.2 ⟨?_, ?_⟩⟩
      · rw [Bool.and_eq_true, decide_eq_true_eq, decide_eq_true_eq]
        exact ⟨hstanding'.1 hstanding, hopens.credentialVersion.trans hversion.symm⟩
      · rw [← hopens.expiresAt] at hexpires
        refine require_bind_eq_ok.2 ⟨decide_eq_true hexpires, require_eq_ok.2 ?_⟩
        simp only [Bool.and_eq_true, decide_eq_true_eq]
        have hcreated := hopens.created
        exact ⟨⟨by omega, by omega⟩, hopens.userId.trans (Store.id_of_findUser huser').symm⟩

end Lookup

/-! ## Calls -/

/-- A new session and its result belong together. -/
def Generated (config : Config) (clock : ℤ) (session : LoginSession) (result : LoginResult) :
    Prop :=
  ∀ renews, Opens config clock session ⟨result.sessionToken, session.userId,
    session.credentialVersion, session.expiresAt, renews⟩

/-- What is known of a call that has come so far. -/
def FrameOk (config : Config) (users : List StoredUser) (ledger : List Entry) (clock : ℤ) :
    Frame → Prop
  | .loginGenerated session result => Generated config clock session result
  | .resolveFound token n stored =>
    n ≤ ledger.length ∧ Lookup config users (ledger.take n) clock token stored
  | .resolved token n now result =>
    n ≤ ledger.length ∧ Resolves users (ledger.take n) token now result
  | .renewFound token _ => isToken token = true
  | .renewGenerated token session result =>
    isToken token = true ∧ Generated config clock session result
  | .renewed token result => ∀ r, result = .ok r →
    ∃ issue, .issued issue ∈ ledger ∧ issue.renews = some token
  | .logoutReady token _ => isToken token = true
  | .login _ | .loginVerified _ | .loggedIn _ | .resolve _ | .renew _ | .logout _
  | .loggedOut _ _ => True

section Calls

variable {config : Config} {users : List StoredUser} {s : System} {ledger : List Entry} {clock : ℤ}
  {session : LoginSession} {result : LoginResult} {clock' now : ℤ} {random : Random} {frame : Frame}
  {entries : List Entry}

theorem Generated.later (h : Generated config clock session result) (hclock : clock ≤ clock') :
    Generated config clock' session result := fun renews => (h renews).later hclock

/-- What is known of a call stays known. -/
theorem FrameOk.mono (h : FrameOk config users ledger clock frame) (hclock : clock ≤ clock') :
    FrameOk config users (ledger ++ entries) clock' frame := by
  have htake : ∀ {n}, n ≤ ledger.length → n ≤ (ledger ++ entries).length ∧
      (ledger ++ entries).take n = ledger.take n := fun hn =>
    ⟨by rw [length_append]; omega, take_append_of_le_length hn⟩
  cases frame with
  | loginGenerated session result => exact Generated.later h hclock
  | resolveFound token n stored =>
    obtain ⟨hn, hlookup⟩ := h
    refine ⟨(htake hn).1, ?_⟩
    rw [(htake hn).2]
    refine ⟨fun snapshot hsnapshot => ?_, hlookup.missing⟩
    obtain ⟨issue, htoken, hunique, hstanding, huser, hopens⟩ := hlookup.found snapshot hsnapshot
    exact ⟨issue, htoken, hunique, hstanding, huser, hopens.later hclock⟩
  | resolved token n now result =>
    obtain ⟨hn, hresolved⟩ := h
    refine ⟨(htake hn).1, ?_⟩
    rw [(htake hn).2]
    exact hresolved
  | renewGenerated token session result => exact ⟨h.1, Generated.later h.2 hclock⟩
  | renewed token result =>
    intro r hr
    obtain ⟨issue, hissue, hrenews⟩ := h r hr
    exact ⟨issue, mem_append_left _ hissue, hrenews⟩
  | renewFound token stored | logoutReady token now | login request | loginVerified user
  | loggedIn result | resolve token | renew token | logout token | loggedOut token result => exact h

/-- The tables agree with the ledger, and so does what calls have seen. -/
structure Inv (config : Config) (users : List StoredUser) (s : System) : Prop where
  tables : Tables config users s.store s.ledger s.clock
  frames : ∀ call frame, s.calls.find call = some frame →
    FrameOk config users s.ledger s.clock frame
  /-- Calls that have renewed a token are the one call. -/
  once : ∀ call call' token r r', s.calls.find call = some (.renewed token (.ok r)) →
    s.calls.find call' = some (.renewed token (.ok r')) → call = call'

section

variable (h : Inv config users s)
include h

/-- A call goes on. If it has renewed a token, it was the first one. -/
theorem Inv.setCall {call : ℕ} (hframe : FrameOk config users s.ledger s.clock frame)
    (hfirst : ∀ token r, frame = .renewed token (.ok r) →
      ∀ call' r', s.calls.find call' ≠ some (.renewed token (.ok r'))) :
    Inv config users (s.setCall call frame) where
  tables := h.tables
  frames := Table.forall_find_set hframe h.frames
  once c c' token r₁ r₂ hc hc' := by
    have hcases : ∀ {c r}, (s.setCall call frame).calls.find c = some (.renewed token (.ok r)) →
        c = call ∧ frame = .renewed token (.ok r) ∨
          s.calls.find c = some (.renewed token (.ok r)) := by
      intro c r hc
      rcases eq_or_ne c call with rfl | hne
      · exact .inl ⟨rfl, by simpa [System.setCall] using hc⟩
      · rw [System.setCall, Table.find_set_of_ne hne] at hc
        exact .inr hc
    rcases hcases hc with ⟨rfl, hframe⟩ | hold <;> rcases hcases hc' with ⟨rfl, hframe'⟩ | hold'
    · rfl
    · exact absurd hold' (hfirst token r₁ hframe c' r₂)
    · exact absurd hold (hfirst token r₂ hframe' c r₁)
    · exact h.once c c' token r₁ r₂ hold hold'

/-- More entries and more time, with tables that agree. -/
theorem Inv.grow {store : Store} {clock : ℤ}
    (htables : Tables config users store (s.ledger ++ entries) clock) (hclock : s.clock ≤ clock) :
    Inv config users { s with store, ledger := s.ledger ++ entries, clock } where
  tables := htables
  frames call frame hframe := (h.frames call frame hframe).mono hclock
  once := h.once

end

/-! ## Steps -/

theorem newSession_generated {user : User}
    (h : newSession config user now random = .ok (session, result)) :
    Generated config now session result := by
  obtain ⟨hnow, h⟩ := require_bind_eq_ok.1 h
  obtain ⟨digest, hdigest, h⟩ := bind_eq_ok.1 h
  obtain ⟨htoken, hdigest⟩ := require_bind_eq_ok.1 hdigest
  cases hdigest
  cases h
  rw [Bool.and_eq_true, decide_eq_true_eq] at hnow
  exact fun renews => ⟨htoken, rfl, rfl, rfl, rfl, hnow.1, le_refl _⟩

theorem replacement_generated {stored : Option StoredSession}
    (h : replacement config stored now random = .ok (session, result)) :
    Generated config now session result := by
  obtain ⟨snapshot, -, h⟩ := expect_bind_eq_ok.1 h
  obtain ⟨u, -, h⟩ := bind_eq_ok.1 h
  exact newSession_generated h

theorem tokenDigest_eq_ok {token digest : Text} (h : config.tokenDigest token = .ok digest) :
    isToken token = true ∧ digest = config.digest token := by
  obtain ⟨htoken, h⟩ := require_bind_eq_ok.1 h
  cases h
  exact ⟨htoken, rfl⟩

section

variable (h : Inv config users s)
include h

/-- A token of another form was never issued. -/
theorem Inv.not_live {token : Text} {error : AccountError} {now : ℤ}
    (htoken : config.tokenDigest token = .error error) (user : User) :
    ¬Live users (s.ledger.take s.ledger.length) token now user := by
  rw [take_length]
  rintro ⟨issue, rfl, hstanding, -⟩
  have hdigest : config.tokenDigest issue.token = .ok (config.digest issue.token) :=
    require_bind_eq_ok.2 ⟨(h.tables.issued issue hstanding.issued).1, rfl⟩
  rw [hdigest] at htoken
  cases htoken

theorem Inv.advance {call : ℕ} (random : Random) (hcall : s.calls.find call = some frame) :
    Inv config users (s.advance config call random frame) := by
  have hframe := h.frames call frame hcall
  cases frame with
  | login request =>
    rw [System.advance]
    split <;> exact h.setCall trivial nofun
  | loginVerified user =>
    rw [System.advance]
    split
    · next session result hnew =>
      exact h.setCall (newSession_generated hnew) nofun
    · exact h.setCall trivial nofun
  | loginGenerated session result =>
    rw [System.advance]
    cases hinsert : s.store.insertSessionIfCurrent session session.createdAt with
    | error error => exact h.setCall trivial nofun
    | ok store =>
      have htables := h.tables.loggedIn (hframe none) rfl hinsert
      exact (h.grow htables (le_refl _)).setCall trivial nofun
  | resolve token =>
    rw [System.advance]
    split
    · next digest hdigest =>
      obtain ⟨htoken, rfl⟩ := tokenDigest_eq_ok hdigest
      refine h.setCall ⟨le_refl _, ?_⟩ nofun
      rw [take_length]
      exact h.tables.lookup htoken
    · next error hdigest =>
      refine h.setCall ⟨le_refl _, nofun, ?_⟩ nofun
      rintro ⟨user, hlive⟩
      exact absurd hlive (h.not_live hdigest user)
  | resolveFound token n stored =>
    exact h.setCall ⟨hframe.1, hframe.2.resolution_iff (le_refl _)⟩ nofun
  | renew token =>
    rw [System.advance]
    split
    · next digest hdigest =>
      exact h.setCall (tokenDigest_eq_ok hdigest).1 nofun
    · exact h.setCall (nofun) nofun
  | renewFound token stored =>
    rw [System.advance]
    split
    · next session result hnew =>
      exact h.setCall ⟨hframe, replacement_generated hnew⟩ nofun
    · exact h.setCall (nofun) nofun
  | renewGenerated token session result =>
    rw [System.advance]
    cases hrotate : s.store.rotateSessionIfCurrent (config.digest token) session
        session.createdAt with
    | error error =>
      exact h.setCall (nofun) nofun
    | ok store =>
      have htables := h.tables.renewed hframe.1 (hframe.2 (some token)) rfl hrotate
      refine (h.grow htables (le_refl _)).setCall (fun _ _ => ⟨_, mem_concat_self, rfl⟩) ?_
      -- The row of the token was not revoked, so no call has renewed it.
      rintro _ _ ⟨⟩ call' r' hcall'
      obtain ⟨issue, hissue, hrenews⟩ := h.frames call' _ hcall' r' rfl
      obtain ⟨-, hrow, -⟩ := rotateSessionIfCurrent_eq_ok hrotate
      exact h.tables.not_unrevoked_of_renews hissue hrenews ⟨hframe.1, hrow⟩
  | logout token =>
    rw [System.advance]
    split
    · next digest hdigest =>
      split
      · exact h.setCall (tokenDigest_eq_ok hdigest).1 nofun
      · exact h.setCall trivial nofun
    · exact h.setCall trivial nofun
  | logoutReady token now =>
    rw [System.advance]
    cases hrevoke : s.store.revokeSession (config.digest token) now with
    | error error => exact h.setCall trivial nofun
    | ok store =>
      obtain ⟨hnow, hstore⟩ := require_bind_eq_ok.1 hrevoke
      cases hstore
      rw [Bool.and_eq_true, decide_eq_true_eq] at hnow
      have htables := h.tables.loggedOut hframe hnow.2
      exact (h.grow htables (le_refl _)).setCall trivial nofun
  | loggedIn result | resolved token n now result | renewed token result | loggedOut token result =>
    exact h

theorem Inv.abandon (call : ℕ) (error : AccountError) (frame : Frame) :
    Inv config users (s.abandon call error frame) := by
  cases frame with
  | login _ | loginVerified _ | loginGenerated _ _ | logout _ | logoutReady _ _ =>
    exact h.setCall trivial nofun
  | renew _ | renewFound _ _ | renewGenerated _ _ _ => exact h.setCall (nofun) nofun
  | resolve _ | resolveFound _ _ _ | loggedIn _ | resolved _ _ _ _ | renewed _ _ | loggedOut _ _ =>
    exact h

theorem Inv.step (event : Event) : Inv config users (s.step config event) := by
  cases event with
  | start call request =>
    rw [System.step]
    split_ifs
    · cases request <;> exact h.setCall trivial nofun
    · exact h
  | next call random =>
    rw [System.step]
    split
    · exact h
    · next frame hcall => exact h.advance random hcall
  | fail call error =>
    rw [System.step]
    split
    · exact h
    · next frame _ => exact h.abandon call error frame
  | changeUser id status version =>
    exact h.grow (h.tables.changed id status version) (le_refl _)
  | pass seconds =>
    have hclock : s.clock ≤ s.clock + seconds := by omega
    have htables : Tables config users s.store (s.ledger ++ []) (s.clock + seconds) := by
      rw [append_nil]
      exact h.tables.later hclock
    have hgrow := h.grow htables hclock
    simp only [append_nil] at hgrow
    exact hgrow

end

theorem after_inv (users : List StoredUser) (clock : ℤ) (events : List Event) :
    Inv config users (System.after config users clock events) := by
  refine run_induction (P := fun _ s => Inv config users s) ?_ (fun _ event h => h.step event)
    events
  refine ⟨⟨rfl, nofun, nofun, nodup_nil, eachAfter_nil, ?_⟩, nofun, nofun⟩
  rintro origin token token' - - ⟨-, row, hrow, -⟩
  cases hrow

end Calls

/-- What holds of sessions: `ResolveSession` succeeds just for tokens that are live when it looks,
    with the clock as it is read after that, and gives their user; a token is renewed by one call
    at most; and of the tokens that come from one login, one at most is not revoked. -/
structure SingleUse (config : Config) (users : List StoredUser) (s : System) : Prop where
  resolved : ∀ call token n now result, s.calls.find call = some (.resolved token n now result) →
    Resolves users (s.ledger.take n) token now result
  renewedOnce : ∀ call call' token r r', s.calls.find call = some (.renewed token (.ok r)) →
    s.calls.find call' = some (.renewed token (.ok r')) → call = call'
  oneUnrevoked : ∀ login token token', .issued login ∈ s.ledger → login.renews = none →
    Descends s.ledger login.token token → Descends s.ledger login.token token' →
    s.store.Unrevoked config token → s.store.Unrevoked config token' → token = token'

theorem sessions_single_use (config : Config) (users : List StoredUser) (clock : ℤ)
    (events : List Event) : SingleUse config users (System.after config users clock events) := by
  have h : Inv config users _ := after_inv users clock events
  exact ⟨fun call token n now result hcall => (h.frames call _ hcall).2, h.once,
    fun login token token' _ _ hdesc hdesc' hun hun' =>
      h.tables.family login.token token token' hdesc hdesc' hun hun'⟩

end Packetia.Account
