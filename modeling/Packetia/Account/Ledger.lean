import Packetia.Account.Service

/-!
# Tables and the ledger

The tables against the ledger of what was committed. Every row of the table of sessions is a token
that was issued, with the user, the credential version and the time of expiry it was issued with,
and it is revoked just if the token was logged out or renewed since (`RowOk`).

A renewal revokes the row of its token and adds one, in a transaction that needs the row not to be
revoked. So of the tokens that come from one by renewals, the last one at most is not revoked
(`Tables.family`).
-/

namespace Packetia.Account

open List Option LoginSession

/-! ## The ledger -/

variable (users : List StoredUser) (ledger : List Entry) {now : ℤ} {ended : Text}

/-- The entry logs the token out or renews it. -/
def Entry.Ends (entry : Entry) (token : Text) : Prop :=
  entry = .loggedOut token ∨ ∃ issue, entry = .issued issue ∧ issue.renews = some token

/-- The token was issued so, and was neither logged out nor renewed since. -/
def Standing (issue : Issue) : Prop :=
  ∃ pre post, ledger = pre ++ .issued issue :: post ∧ ∀ entry ∈ post, ¬entry.Ends issue.token

/-- The users after the changes of the ledger. -/
def usersAfter : Store :=
  ledger.foldl (fun store entry =>
    match entry with
    | .changed id status version => store.changeUser id status version
    | .issued _ | .loggedOut _ => store) { users }

/-- The token stands for the user, who is active with the credentials it was issued for, and it has
    not expired. -/
def Live (token : Text) (now : ℤ) (user : User) : Prop :=
  ∃ issue : Issue, issue.token = token ∧ Standing ledger issue ∧
    (usersAfter users ledger).findUser issue.userId = some user ∧ user.status = .active ∧
    user.credentialVersion = issue.credentialVersion ∧ now < issue.expiresAt

/-- `token` comes from `origin` by renewals. -/
inductive Descends (ledger : List Entry) (origin : Text) : Text → Prop
  | refl : Descends ledger origin origin
  | renew {token : Text} {issue : Issue} : Descends ledger origin token →
    .issued issue ∈ ledger → issue.renews = some token → Descends ledger origin issue.token

/-- The row of the token is there, and it is not revoked. -/
def Store.Unrevoked (config : Config) (store : Store) (token : Text) : Prop :=
  isToken token = true ∧
    ∃ row ∈ store.sessions, row.tokenDigest = config.digest token ∧ row.revokedAt = 0

theorem usersAfter_concat (entry : Entry) :
    usersAfter users (ledger ++ [entry]) =
      match entry with
      | .changed id status version => (usersAfter users ledger).changeUser id status version
      | .issued _ | .loggedOut _ => usersAfter users ledger := by
  rw [usersAfter, foldl_append]
  cases entry <;> rfl

theorem Store.findUser_congr {store store' : Store} (h : store.users = store'.users) (id : Text) :
    store.findUser id = store'.findUser id := by
  rw [findUser, findUser, h]

theorem Store.id_of_findUser {store : Store} {id : Text} {user : User}
    (h : store.findUser id = some user) : user.id = id := by
  obtain ⟨row, hrow, rfl⟩ := map_eq_some_iff.1 h
  simpa using find?_some hrow

/-! ## Transactions -/

section Transactions

variable {store store' : Store} {session previous : LoginSession} {now : ℤ} {digest : Text}

theorem insertSession_eq_ok (h : store.insertSession session = .ok store') :
    (∀ row ∈ store.sessions, row.tokenDigest ≠ session.tokenDigest) ∧
      store' = { store with sessions := store.sessions ++ [{ session with revokedAt := 0 }] } := by
  obtain ⟨hall, h⟩ := require_bind_eq_ok.1 h
  cases h
  refine ⟨fun row hrow => ?_, rfl⟩
  have hboth := all_eq_true.1 hall row hrow
  rw [Bool.and_eq_true, decide_eq_true_eq, decide_eq_true_eq] at hboth
  exact hboth.2

theorem insertSessionIfCurrent_eq_ok (h : store.insertSessionIfCurrent session now = .ok store') :
    0 < now ∧ store.insertSession session = .ok store' := by
  obtain ⟨hvalid, h⟩ := require_bind_eq_ok.1 h
  obtain ⟨user, -, h⟩ := expect_bind_eq_ok.1 h
  obtain ⟨-, h⟩ := require_bind_eq_ok.1 h
  obtain ⟨-, h⟩ := require_bind_eq_ok.1 h
  simp only [validNewSession, Bool.and_eq_true, decide_eq_true_eq] at hvalid
  exact ⟨hvalid.1.1.1.2, h⟩

theorem rotateSessionIfCurrent_eq_ok
    (h : store.rotateSessionIfCurrent digest session now = .ok store') :
    0 < now ∧ (∃ row ∈ store.sessions, row.tokenDigest = digest ∧ row.revokedAt = 0) ∧
      (store.revoke digest now).insertSession session = .ok store' := by
  obtain ⟨hvalid, h⟩ := require_bind_eq_ok.1 h
  obtain ⟨found, hfound, h⟩ := expect_bind_eq_ok.1 h
  obtain ⟨u, -, h⟩ := bind_eq_ok.1 h
  obtain ⟨-, h⟩ := require_bind_eq_ok.1 h
  obtain ⟨hone, h⟩ := require_bind_eq_ok.1 h
  simp only [validNewSession, Bool.and_eq_true, decide_eq_true_eq] at hvalid
  refine ⟨hvalid.1.1.1.1.1.2, ?_, h⟩
  obtain ⟨row, hrow⟩ := length_eq_one_iff.1 (of_decide_eq_true hone)
  have hmem := mem_filter.1 (hrow ▸ mem_singleton_self row)
  simp only [Bool.and_eq_true, decide_eq_true_eq] at hmem
  exact ⟨row, hmem.1, hmem.2⟩

end Transactions

/-! ## Rows -/

section Rows

variable {config : Config} {ledger : List Entry} {clock : ℤ} {row : LoginSession} {entry : Entry}
  {issue : Issue} {pre post : List Entry}

/-- The session belongs to what is issued. -/
structure Opens (config : Config) (clock : ℤ) (session : LoginSession) (issue : Issue) : Prop where
  isToken : isToken issue.token = true
  digest : session.tokenDigest = config.digest issue.token
  userId : session.userId = issue.userId
  credentialVersion : session.credentialVersion = issue.credentialVersion
  expiresAt : session.expiresAt = issue.expiresAt
  created : 0 < session.createdAt ∧ session.createdAt ≤ clock

theorem Opens.later {session : LoginSession} {clock' : ℤ} (h : Opens config clock session issue)
    (hclock : clock ≤ clock') : Opens config clock' session issue :=
  { h with created := ⟨h.created.1, h.created.2.trans hclock⟩ }

/-- The row of a token that was issued: it is revoked just if the token has ended since. -/
structure RowOk (config : Config) (ledger : List Entry) (clock : ℤ) (row : LoginSession)
    (issue : Issue) (pre post : List Entry) : Prop extends Opens config clock row issue where
  split : ledger = pre ++ .issued issue :: post
  revoked : row.revokedAt = 0 ↔ ∀ entry ∈ post, ¬entry.Ends issue.token

section

variable (h : RowOk config ledger clock row issue pre post)
include h

theorem RowOk.split_concat : ledger ++ [entry] = pre ++ .issued issue :: (post ++ [entry]) := by
  rw [h.split]
  simp

/-- An entry that does not end the token leaves its row as it is. -/
theorem RowOk.keep (hends : ¬entry.Ends issue.token) :
    RowOk config (ledger ++ [entry]) clock row issue pre (post ++ [entry]) := by
  refine { h with split := h.split_concat, revoked := ?_ }
  rw [h.revoked, forall_mem_append, forall_mem_singleton]
  exact ⟨fun h => ⟨h, hends⟩, fun h => h.1⟩

/-- An entry that ends just one token, when the row of that token is revoked. -/
theorem RowOk.revoke (hended : Account.isToken ended = true)
    (hends : ∀ token, entry.Ends token ↔ token = ended) (hnow : 0 < now) :
    RowOk config (ledger ++ [entry]) clock (Store.revokeRow (config.digest ended) now row) issue pre
      (post ++ [entry]) := by
  by_cases htoken : issue.token = ended
  · have hends' : entry.Ends issue.token := (hends _).2 htoken
    have hpost : ¬∀ e ∈ post ++ [entry], ¬e.Ends issue.token := fun hall =>
      hall entry (by simp) hends'
    have hdigest : row.tokenDigest = config.digest ended := by rw [h.digest, htoken]
    unfold Store.revokeRow
    split_ifs with hrow
    · exact { h with split := h.split_concat, revoked := iff_of_false hnow.ne' hpost }
    · have hzero : row.revokedAt ≠ 0 := fun hzero => hrow ⟨hdigest, hzero⟩
      exact { h with split := h.split_concat, revoked := iff_of_false hzero hpost }
  · have hdigest : row.tokenDigest ≠ config.digest ended := fun hd =>
      htoken (config.digest_injective _ _ h.isToken hended (h.digest ▸ hd))
    rw [Store.revokeRow, if_neg fun hrow => hdigest hrow.1]
    exact h.keep fun hends' => htoken ((hends _).1 hends')

theorem RowOk.mem : .issued issue ∈ ledger := by
  rw [h.split]
  simp

end

end Rows

variable {token : Text}

theorem ends_loggedOut : (Entry.loggedOut ended).Ends token ↔ token = ended := by
  simp [Entry.Ends, eq_comm]

theorem ends_issued {issue : Issue} :
    (Entry.issued issue).Ends token ↔ issue.renews = some token := by
  simp [Entry.Ends]

theorem not_ends_changed {id : Text} {status : UserStatus} {version : ℕ} :
    ¬(Entry.changed id status version).Ends token := by
  simp [Entry.Ends]

/-! ## Tables -/

/-- A token is issued once, and the token it renews has been issued before. -/
def InOrder (before : List Entry) (entry : Entry) : Prop :=
  ∀ issue, entry = .issued issue →
    (∀ issue', .issued issue' ∈ before → issue'.token ≠ issue.token) ∧
    ∀ token, issue.renews = some token → ∃ issue', .issued issue' ∈ before ∧ issue'.token = token

/-- The tables agree with the ledger. -/
structure Tables (config : Config) (users : List StoredUser) (store : Store) (ledger : List Entry)
    (clock : ℤ) : Prop where
  users : store.users = (usersAfter users ledger).users
  rows : ∀ row ∈ store.sessions, ∃ issue pre post, RowOk config ledger clock row issue pre post
  issued : ∀ issue, .issued issue ∈ ledger → isToken issue.token = true ∧
    config.digest issue.token ∈ store.sessions.map tokenDigest
  distinct : (store.sessions.map tokenDigest).Nodup
  inOrder : EachAfter InOrder ledger
  /-- Of the tokens that come from one, one at most is not revoked. -/
  family : ∀ origin token token', Descends ledger origin token → Descends ledger origin token' →
    store.Unrevoked config token → store.Unrevoked config token' → token = token'

section Tables

variable {config : Config} {users : List StoredUser} {store : Store} {ledger : List Entry}
  {clock : ℤ} {now : ℤ} {entry : Entry}

/-- A token has one place in the ledger. -/
theorem eq_of_token_eq (h : EachAfter InOrder ledger) {issue issue' : Issue}
    {pre post pre' post' : List Entry} (hsplit : ledger = pre ++ .issued issue :: post)
    (hsplit' : ledger = pre' ++ .issued issue' :: post') (htoken : issue.token = issue'.token) :
    issue = issue' ∧ post = post' := by
  have hearlier : ∀ issue issue' pre rest post', ledger = pre ++ .issued issue :: rest ++
      .issued issue' :: post' → issue.token ≠ issue'.token := fun issue issue' pre rest post' hs =>
    (h _ _ _ hs issue' rfl).1 issue (by simp)
  rcases append_eq_append_iff.1 (hsplit.symm.trans hsplit') with
    ⟨_ | ⟨_, rest⟩, hpre, hrest⟩ | ⟨_ | ⟨_, rest⟩, hpre, hrest⟩ <;> cases hrest
  · exact ⟨rfl, rfl⟩
  · exact absurd htoken (hearlier issue issue' pre rest post' (hpre ▸ hsplit'))
  · exact ⟨rfl, rfl⟩
  · exact absurd htoken.symm (hearlier issue' issue pre' rest post (hpre ▸ hsplit))

section

variable (h : Tables config users store ledger clock) {origin : Text}
include h

/-- A token stands just if its row is not revoked. -/
theorem Tables.standing_iff {issue : Issue} {row : LoginSession} {pre post : List Entry}
    (hrow : RowOk config ledger clock row issue pre post) :
    Standing ledger issue ↔ row.revokedAt = 0 := by
  rw [hrow.revoked]
  constructor
  · rintro ⟨pre', post', hsplit, hpost⟩
    obtain ⟨-, rfl⟩ := eq_of_token_eq h.inOrder hrow.split hsplit rfl
    exact hpost
  · exact fun hpost => ⟨pre, post, hrow.split, hpost⟩

theorem Tables.eq_of_issued {issue issue' : Issue} (hissue : .issued issue ∈ ledger)
    (hissue' : .issued issue' ∈ ledger) (htoken : issue.token = issue'.token) : issue = issue' := by
  obtain ⟨pre, post, hsplit⟩ := append_of_mem hissue
  obtain ⟨pre', post', hsplit'⟩ := append_of_mem hissue'
  exact (eq_of_token_eq h.inOrder hsplit hsplit' htoken).1

/-- The row of a token that was renewed is revoked. -/
theorem Tables.not_unrevoked_of_renews {issue : Issue} (hissue : .issued issue ∈ ledger)
    (hrenews : issue.renews = some token) : ¬store.Unrevoked config token := by
  rintro ⟨-, row, hrow, hdigest, hzero⟩
  obtain ⟨pre, post, hsplit⟩ := append_of_mem hissue
  obtain ⟨parent, hparent, rfl⟩ := (h.inOrder _ _ _ hsplit issue rfl).2 token hrenews
  obtain ⟨own, pre', post', hok⟩ := h.rows row hrow
  have htoken : own.token = parent.token := by
    have hmem := hsplit ▸ mem_append_left _ hparent
    exact config.digest_injective _ _ hok.isToken (h.issued parent hmem).1 (hok.digest ▸ hdigest)
  -- The renewal comes after the token it renews.
  obtain ⟨before, between, hbefore⟩ := append_of_mem hparent
  have hsplit' : ledger = before ++ .issued parent :: (between ++ .issued issue :: post) := by
    rw [hsplit, hbefore]
    simp
  obtain ⟨rfl, rfl⟩ := eq_of_token_eq h.inOrder hok.split hsplit' htoken
  exact hok.revoked.1 hzero (.issued issue) (by simp) (ends_issued.2 hrenews)

omit h in
/-- What comes from a token after one more entry came from it before, or is the token that the entry
    issues. -/
theorem Descends.of_concat
    (hfresh : ∀ issue, entry = .issued issue → ∀ issue', .issued issue' ∈ ledger ++ [entry] →
      issue'.renews ≠ some issue.token) (h : Descends (ledger ++ [entry]) origin token) :
    Descends ledger origin token ∨
        ∃ issue parent, entry = .issued issue ∧ token = issue.token ∧ issue.renews = some parent ∧
          Descends ledger origin parent := by
  induction h with
  | refl => exact .inl .refl
  | @renew token issue' _ hissue hrenews ih =>
    rcases ih with ih | ⟨issue, parent, hissue', rfl, -, -⟩
    · rcases mem_append.1 hissue with hissue | hissue
      · exact .inl (.renew ih hissue hrenews)
      · exact .inr ⟨issue', token, (mem_singleton.1 hissue).symm, rfl, hrenews, ih⟩
    · exact absurd hrenews (hfresh issue hissue' issue' hissue)

omit h in
/-- A token that comes from another one was issued. -/
theorem Descends.issued (h : Descends ledger origin token) :
    token = origin ∨ ∃ issue, .issued issue ∈ ledger ∧ issue.token = token := by
  cases h with
  | refl => exact .inl rfl
  | renew _ hissue _ => exact .inr ⟨_, hissue, rfl⟩

theorem Tables.renews_issued {issue : Issue} (hissue : .issued issue ∈ ledger)
    (hrenews : issue.renews = some token) :
    ∃ issue', .issued issue' ∈ ledger ∧ issue'.token = token := by
  obtain ⟨pre, post, hsplit⟩ := append_of_mem hissue
  obtain ⟨issue', hmem, htoken⟩ := (h.inOrder _ _ _ hsplit issue rfl).2 token hrenews
  exact ⟨issue', hsplit ▸ mem_append_left _ hmem, htoken⟩

/-- Nothing comes from a token that was not issued. -/
theorem Tables.eq_of_descends (hdesc : Descends ledger origin token)
    (hnone : ∀ issue, .issued issue ∈ ledger → issue.token ≠ origin) : token = origin := by
  induction hdesc with
  | refl => rfl
  | renew _ hissue hrenews ih =>
    obtain ⟨issue', hmem, htoken⟩ := h.renews_issued hissue hrenews
    exact absurd (htoken.trans ih) (hnone issue' hmem)

end

/-! ## What a transaction keeps -/

theorem map_revokeRow_digest {digest : Text} {rows : List LoginSession} :
    (rows.map (Store.revokeRow digest now)).map tokenDigest = rows.map tokenDigest := by
  rw [List.map_map]
  refine map_congr_left fun row _ => ?_
  rw [Function.comp_apply, Store.revokeRow]
  split_ifs <;> rfl

theorem unrevoked_revoke (hended : isToken ended = true) (hnow : 0 < now)
    (h : (store.revoke (config.digest ended) now).Unrevoked config token) :
    store.Unrevoked config token ∧ token ≠ ended := by
  obtain ⟨htoken, row', hrow', hdigest, hzero⟩ := h
  obtain ⟨row, hrow, rfl⟩ := mem_map.1 hrow'
  unfold Store.revokeRow at hdigest hzero
  split_ifs at hdigest hzero with hrevoke
  · exact absurd hzero hnow.ne'
  · refine ⟨⟨htoken, row, hrow, hdigest, hzero⟩, ?_⟩
    rintro rfl
    exact hrevoke ⟨hdigest, hzero⟩

section

variable (h : Tables config users store ledger clock)
include h

/-- An entry that issues nothing, with rows that it may have revoked. -/
theorem Tables.concat {store' : Store} (hentry : ∀ issue, entry ≠ .issued issue)
    (husers : store'.users = (usersAfter users (ledger ++ [entry])).users)
    (hrows : ∀ row ∈ store'.sessions, ∃ issue pre post,
      RowOk config (ledger ++ [entry]) clock row issue pre post)
    (hdigests : store'.sessions.map tokenDigest = store.sessions.map tokenDigest)
    (hunrevoked : ∀ token, store'.Unrevoked config token → store.Unrevoked config token) :
    Tables config users store' (ledger ++ [entry]) clock where
  users := husers
  rows := hrows
  issued issue hissue := by
    rcases mem_append.1 hissue with hissue | hissue
    · rw [hdigests]
      exact h.issued issue hissue
    · exact absurd (mem_singleton.1 hissue).symm (hentry issue)
  distinct := by
    rw [hdigests]
    exact h.distinct
  inOrder := h.inOrder.concat fun issue hissue => absurd hissue (hentry issue)
  family origin token token' hdesc hdesc' hun hun' := by
    have hold : ∀ {token}, Descends (ledger ++ [entry]) origin token →
        Descends ledger origin token :=
      fun hdesc => (Descends.of_concat (fun issue hissue => absurd hissue (hentry issue))
        hdesc).elim id fun ⟨issue, _, hissue, _⟩ => absurd hissue (hentry issue)
    exact h.family origin token token' (hold hdesc) (hold hdesc') (hunrevoked token hun)
      (hunrevoked token' hun')

theorem Tables.loggedOut (htoken : isToken token = true) (hnow : 0 < now) :
    Tables config users (store.revoke (config.digest token) now) (ledger ++ [.loggedOut token])
      clock := by
  refine h.concat (nofun) ?_ ?_ map_revokeRow_digest
    fun token' hun => (unrevoked_revoke htoken hnow hun).1
  · rw [usersAfter_concat]
    exact h.users
  · intro row' hrow'
    obtain ⟨row, hrow, rfl⟩ := mem_map.1 hrow'
    obtain ⟨issue, pre, post, hok⟩ := h.rows row hrow
    exact ⟨issue, pre, _, hok.revoke htoken (fun _ => ends_loggedOut) hnow⟩

theorem Tables.changed (id : Text) (status : UserStatus) (version : ℕ) :
    Tables config users (store.changeUser id status version)
      (ledger ++ [.changed id status version]) clock := by
  refine h.concat (nofun) ?_ ?_ rfl fun token' hun => hun
  · rw [usersAfter_concat]
    simp only [Store.changeUser, h.users]
  · intro row hrow
    obtain ⟨issue, pre, post, hok⟩ := h.rows row hrow
    exact ⟨issue, pre, _, hok.keep not_ends_changed⟩

end

section

variable (h : Tables config users store ledger clock) {session : LoginSession} {store' : Store}
include h

/-- A session that is opened, when the row of the token that it renews has been revoked in the same
    transaction. -/
theorem Tables.issue {issue : Issue} {revoked : Store} (hopens : Opens config clock session issue)
    (husers : revoked.users = store.users)
    (hrows : ∀ row ∈ revoked.sessions, ∃ old pre post,
      RowOk config (ledger ++ [.issued issue]) clock row old pre post)
    (hdigests : revoked.sessions.map tokenDigest = store.sessions.map tokenDigest)
    (hunrevoked : ∀ token, revoked.Unrevoked config token →
      store.Unrevoked config token ∧ issue.renews ≠ some token)
    (hrenews : ∀ token, issue.renews = some token → store.Unrevoked config token)
    (hinsert : revoked.insertSession session = .ok store') :
    Tables config users store' (ledger ++ [.issued issue]) clock := by
  obtain ⟨hnew, rfl⟩ := insertSession_eq_ok hinsert
  have hdigestNew : config.digest issue.token ∉ store.sessions.map tokenDigest := by
    rw [← hdigests, ← hopens.digest, List.mem_map]
    exact fun ⟨row, hrow, hdigest⟩ => hnew row hrow hdigest
  have hdigestsAfter : (revoked.sessions ++ [{ session with revokedAt := 0 }]).map tokenDigest
      = store.sessions.map tokenDigest ++ [config.digest issue.token] := by
    rw [map_append, hdigests, map_singleton, hopens.digest]
  -- The digest of a token that was issued is there, so the token is new.
  have hfresh : ∀ issue', .issued issue' ∈ ledger → issue'.token ≠ issue.token := by
    intro issue' hissue' htoken
    exact hdigestNew (htoken ▸ (h.issued issue' hissue').2)
  have hparent : ∀ token, issue.renews = some token →
      ∃ issue', .issued issue' ∈ ledger ∧ issue'.token = token := by
    intro token htoken
    obtain ⟨hvalid, row, hrow, hdigest, -⟩ := hrenews token htoken
    obtain ⟨parent, pre, post, hok⟩ := h.rows row hrow
    exact ⟨parent, hok.mem, config.digest_injective _ _ hok.isToken hvalid (hok.digest ▸ hdigest)⟩
  have hnotRenewed : ∀ issue', .issued issue' ∈ ledger ++ [.issued issue] →
      issue'.renews ≠ some issue.token := by
    intro issue' hissue' hrenews'
    rcases mem_append.1 hissue' with hissue' | hissue'
    · obtain ⟨parent, hmem, htoken⟩ := h.renews_issued hissue' hrenews'
      exact hfresh parent hmem htoken
    · cases mem_singleton.1 hissue'
      obtain ⟨parent, hmem, htoken⟩ := hparent _ hrenews'
      exact hfresh parent hmem htoken
  refine ⟨?_, ?_, ?_, ?_, ?_, ?_⟩
  · rw [usersAfter_concat]
    exact husers.trans h.users
  · exact forall_mem_concat.2
      ⟨hrows, issue, ledger, [], { hopens with split := rfl, revoked := by simp }⟩
  · intro issue' hissue'
    rw [hdigestsAfter, mem_append]
    rcases mem_append.1 hissue' with hissue' | hissue'
    · exact ⟨(h.issued issue' hissue').1, .inl (h.issued issue' hissue').2⟩
    · cases mem_singleton.1 hissue'
      exact ⟨hopens.isToken, .inr (mem_singleton_self _)⟩
  · rw [hdigestsAfter, ← concat_eq_append]
    exact h.distinct.concat hdigestNew
  · exact h.inOrder.concat fun issue' hissue' => by
      cases hissue'
      exact ⟨hfresh, hparent⟩
  · -- The new token is the only one of its family that is not revoked: its parent was, before.
    intro origin token token' hdesc hdesc' hun hun'
    have hcases : ∀ {token}, Descends (ledger ++ [.issued issue]) origin token →
        Store.Unrevoked config { revoked with
          sessions := revoked.sessions ++ [{ session with revokedAt := 0 }] } token →
        Descends ledger origin token ∧ revoked.Unrevoked config token ∨
          token = issue.token ∧ (origin = issue.token ∨
            ∃ parent, issue.renews = some parent ∧ Descends ledger origin parent) := by
      rintro token hdesc ⟨hvalid, row, hrow, hdigest, hzero⟩
      rcases Descends.of_concat (fun issue' hissue' => by cases hissue'; exact hnotRenewed) hdesc
        with hdesc | ⟨issue', parent, hissue', rfl, hrenews', hfrom⟩
      · rcases mem_append.1 hrow with hrow | hrow
        · exact .inl ⟨hdesc, hvalid, row, hrow, hdigest, hzero⟩
        · rw [mem_singleton.1 hrow] at hdigest
          have htoken : token = issue.token :=
            config.digest_injective _ _ hvalid hopens.isToken (hdigest.symm.trans hopens.digest)
          rcases hdesc.issued with horigin | ⟨old, hold, htoken'⟩
          · exact .inr ⟨htoken, .inl (horigin ▸ htoken)⟩
          · exact absurd (htoken'.trans htoken) (hfresh old hold)
      · cases hissue'
        exact .inr ⟨rfl, .inr ⟨parent, hrenews', hfrom⟩⟩
    have hmixed : ∀ {token}, Descends ledger origin token → revoked.Unrevoked config token →
        (origin = issue.token ∨
          ∃ parent, issue.renews = some parent ∧ Descends ledger origin parent) →
        token = issue.token := by
      rintro token hdesc hun (horigin | ⟨parent, hparent', hdesc'⟩)
      · rw [h.eq_of_descends hdesc fun old hold => horigin ▸ hfresh old hold, horigin]
      · obtain ⟨hun, hne⟩ := hunrevoked token hun
        have := h.family origin token parent hdesc hdesc' hun (hrenews parent hparent')
        exact absurd (this ▸ hparent') hne
    rcases hcases hdesc hun with ⟨hold, hun⟩ | ⟨rfl, hwhy⟩ <;>
      rcases hcases hdesc' hun' with ⟨hold', hun'⟩ | ⟨rfl, hwhy'⟩
    · exact h.family origin token token' hold hold' (hunrevoked token hun).1
        (hunrevoked token' hun').1
    · exact hmixed hold hun hwhy'
    · exact (hmixed hold' hun' hwhy).symm
    · rfl

theorem Tables.loggedIn {issue : Issue} (hopens : Opens config clock session issue)
    (hrenews : issue.renews = none)
    (hinsert : store.insertSessionIfCurrent session now = .ok store') :
    Tables config users store' (ledger ++ [.issued issue]) clock := by
  refine h.issue hopens rfl ?_ rfl (fun token hun => ⟨hun, by simp [hrenews]⟩)
    (fun token htoken => absurd htoken (by simp [hrenews])) (insertSessionIfCurrent_eq_ok hinsert).2
  intro row hrow
  obtain ⟨old, pre, post, hok⟩ := h.rows row hrow
  exact ⟨old, pre, _, hok.keep (by rw [ends_issued, hrenews]; exact nofun)⟩

theorem Tables.renewed {issue : Issue} (htoken : isToken token = true)
    (hopens : Opens config clock session issue) (hrenews : issue.renews = some token)
    (hrotate : store.rotateSessionIfCurrent (config.digest token) session now = .ok store') :
    Tables config users store' (ledger ++ [.issued issue]) clock := by
  obtain ⟨hnow, hrow, hinsert⟩ := rotateSessionIfCurrent_eq_ok hrotate
  have hends : ∀ token', (Entry.issued issue).Ends token' ↔ token' = token := fun token' => by
    rw [ends_issued, hrenews, some.injEq, eq_comm]
  have husers : (store.revoke (config.digest token) now).users = store.users := rfl
  refine h.issue hopens husers ?_ map_revokeRow_digest ?_ ?_ hinsert
  · intro row' hrow'
    obtain ⟨row, hrow, rfl⟩ := mem_map.1 hrow'
    obtain ⟨old, pre, post, hok⟩ := h.rows row hrow
    exact ⟨old, pre, _, hok.revoke htoken hends hnow⟩
  · intro token' hun
    obtain ⟨hun, hne⟩ := unrevoked_revoke htoken hnow hun
    exact ⟨hun, fun h => hne (some.inj (h.symm.trans hrenews))⟩
  · intro token' htoken'
    obtain rfl : token = token' := some.inj (hrenews.symm.trans htoken')
    exact ⟨htoken, hrow⟩

theorem Tables.later {clock' : ℤ} (hclock : clock ≤ clock') :
    Tables config users store ledger clock' :=
  { h with
    rows := fun row hrow => by
      obtain ⟨issue, pre, post, hok⟩ := h.rows row hrow
      exact ⟨issue, pre, post, { hok with toOpens := hok.toOpens.later hclock }⟩ }

end

end Tables

end Packetia.Account
