import Packetia.Lib.Run
import Packetia.Turn.Auth

/-!
# What is authorized

`Authenticate` authorizes a request that is signed with the key of its user, for the realm of the
server and the nonce of the context (`Authentic`). What is counted once before MESSAGE-INTEGRITY
is what `FindAttr` finds (`exists_found`). The nonce of a context is replaced when it has expired,
by one that the generator has just given (`Renews`); so a nonce that was replaced comes back from
there only (`authorizes_authentic_requests`).
-/

namespace Packetia.Turn

open List Stun TurnAuth

variable (hmac : Hmac) (md5 : List Byte → Octets 16)
  (auth : TurnAuth)

/-- There is one attribute of the type before MESSAGE-INTEGRITY; it is the one that is found, and
    has the given value. -/
def GivesOnce (msg : StunMessageInfo) (t : AttrType) (value : List Byte) : Prop :=
  countBefore t msg.attrs = 1 ∧
    ∃ a ∈ msg.attrs.takeWhile fun a => a.type ≠ AttrType.messageIntegrity.code,
      a.type = t.code ∧ msg.findAttr t = some a ∧ msg.attrValue a = value

/-- The request is one of the user, signed with the key. -/
structure Authentic (msg : StunMessageInfo) (context : TurnAuthContext) (env : AuthEnv)
    (username key : List Byte) : Prop where
  supported : SupportedRequest msg
  fingerprint : countAttrs .fingerprint msg.attrs ≤ 1
  verifies : countAttrs .fingerprint msg.attrs = 1 → verifyFingerprint msg = true
  integrity : countAttrs .messageIntegrity msg.attrs = 1
  bytes : ∃ a ∈ msg.attrs, a.type = AttrType.messageIntegrity.code ∧ a.len = 20
  user : GivesOnce msg .username username
  realm : GivesOnce msg .realm auth.realm
  nonce : GivesOnce msg .nonce context.nonce
  current : context.nonce ≠ [] ∧ env.nowMs < context.nonceIssuedMs + auth.nonceLifetimeMs
  signed : ∃ password, env.lookup username = some password ∧
    derivePreparedLegacyKey md5 username auth.realm password = some key ∧
    verifyMessageIntegrity hmac msg key = true

variable {hmac md5 auth} {msg : StunMessageInfo} {context : TurnAuthContext} {env : AuthEnv}
  {data : List Byte} {t : AttrType} {l : List AttrView} {r : TurnAuthResult × TurnAuthContext}

theorem exists_found (h : countBefore t l ≠ 0) :
    ∃ a ∈ l.takeWhile fun a => a.type ≠ AttrType.messageIntegrity.code,
      a.type = t.code ∧ findIn t.code l = some a := by
  induction l with
  | nil => exact absurd rfl h
  | cons a l ih =>
    rw [countBefore] at h
    split_ifs at h with hintegrity htype
    · exact absurd rfl h
    · exact ⟨a, by simp [hintegrity], htype, by rw [findIn, if_pos htype]⟩
    · obtain ⟨b, hb, hfound⟩ := ih (by simpa using h)
      refine ⟨b, ?_, hfound.1, ?_⟩
      · rw [takeWhile_cons_of_pos (by simpa using hintegrity)]
        exact mem_cons_of_mem _ hb
      · rw [findIn, if_neg htype, if_neg fun h => hintegrity h.1, hfound.2]

theorem findIn_spec {t : BitVec 16} {a : AttrView} (h : findIn t l = some a) :
    a ∈ l ∧ a.type = t := by
  induction l with
  | nil => cases h
  | cons b l ih =>
    rw [findIn] at h
    split_ifs at h with htype
    · cases h
      exact ⟨mem_cons_self, htype⟩
    · exact ⟨mem_cons_of_mem _ (ih h).1, (ih h).2⟩

theorem givesOnce_of_count (h : countBefore t msg.attrs = 1) :
    GivesOnce msg t (((msg.findAttr t).map msg.attrValue).getD []) := by
  obtain ⟨a, ha, htype, hfound⟩ := exists_found (h.trans_ne one_ne_zero)
  exact ⟨h, a, ha, htype, hfound, by rw [StunMessageInfo.findAttr, hfound]; rfl⟩

theorem GivesOnce.unique {value value' : List Byte} (h : GivesOnce msg t value)
    (h' : GivesOnce msg t value') : value = value' := by
  obtain ⟨-, a, -, -, hfound, rfl⟩ := h
  obtain ⟨-, a', -, -, hfound', rfl⟩ := h'
  rw [Option.some.inj (hfound.symm.trans hfound')]

/-- A check of a `do` block that has returned. -/
theorem of_throw {ε α : Type} {c : Prop} [Decidable c] {e : ε} {rest : Unit → Except ε α} {a : α}
    (h : (if c then throw e >>= rest else rest ()) = .ok a) : ¬c ∧ rest () = .ok a := by
  split_ifs at h with hc
  · cases h
  · exact ⟨hc, h⟩

theorem authentic_of_credentials {username key : List Byte} (hsupported : SupportedRequest msg)
    (hfingerprint : ¬(countAttrs .fingerprint msg.attrs ≠ 0 ∧
      (countAttrs .fingerprint msg.attrs ≠ 1 ∨ verifyFingerprint msg = false)))
    (h : auth.credentials hmac md5 msg context env = .ok (username, key)) :
    Authentic hmac md5 auth msg context env username key := by
  rw [credentials] at h
  extract_lets value verified derived looked at h
  obtain ⟨honce, h⟩ := of_throw h
  split at h
  · cases h
  rename_i mi hmi
  rw [pure_bind] at h
  obtain ⟨hlen, h⟩ := of_throw h
  obtain ⟨hcounts, h⟩ := of_throw h
  obtain ⟨-, h⟩ := of_throw h
  obtain ⟨hrealm, h⟩ := of_throw h
  obtain ⟨hnonce, h⟩ := of_throw h
  simp only [looked] at h
  split at h
  · cases h
  rename_i password hpassword
  rw [pure_bind] at h
  obtain ⟨-, h⟩ := of_throw h
  split at h
  · cases h
  rename_i key' hkey
  rw [pure_bind] at h
  obtain ⟨hverify, h⟩ := of_throw h
  obtain ⟨rfl, rfl⟩ := Prod.mk.inj (Except.ok.inj h)
  rw [not_not] at hlen hrealm
  simp only [not_or, not_not] at hcounts hnonce
  obtain ⟨huser, hrealms, hnonces⟩ := hcounts
  obtain ⟨hcurrent, hnonce⟩ := hnonce
  obtain ⟨hmem, htype⟩ := findIn_spec hmi
  refine ⟨hsupported, by omega, fun hone => ?_, ?_, ⟨mi, hmem, htype, hlen⟩,
    givesOnce_of_count huser, hrealm ▸ givesOnce_of_count hrealms,
    hnonce ▸ givesOnce_of_count hnonces, ?_, password, hpassword, hkey, ?_⟩
  · simpa [hone] using hfingerprint
  · have hpos : 0 < countAttrs .messageIntegrity msg.attrs :=
      countP_pos_iff.2 ⟨mi, hmem, by simpa using htype⟩
    omega
  · rw [NonceExpired] at hcurrent
    exact ⟨(not_or.1 hcurrent).1, by omega⟩
  · simpa using hverify

/-- The context is as before, or its nonce had expired and is one that was just generated. -/
def Renews (auth : TurnAuth) (context : TurnAuthContext) (env : AuthEnv)
    (context' : TurnAuthContext) : Prop :=
  context' = context ∨ auth.NonceExpired context env.nowMs ∧ env.nonce = some context'.nonce

theorem errorResponse_spec {code : ℕ} {reason : String}
    (h : auth.errorResponse hmac msg code reason context env = r) :
    r.1.status ≠ .authorized ∧ Renews auth context env r.2 := by
  have hmessage : ∀ attributes, (errorMessage hmac msg code attributes).status ≠ .authorized := by
    intro attributes
    rw [errorMessage]
    split <;> simp [internalError]
  rw [errorResponse] at h
  split_ifs at h
  · split at h <;> subst h
    · exact ⟨by simp [internalError], .inl rfl⟩
    · rename_i context' hensured
      refine ⟨hmessage _, ?_⟩
      rw [ensureNonce] at hensured
      split_ifs at hensured with hexpired
      · split at hensured
        · cases hensured
        · rename_i nonce hnonce
          split_ifs at hensured
          cases hensured
          exact .inr ⟨hexpired, hnonce⟩
      · exact .inl (Option.some.inj hensured).symm
  · subst h
    exact ⟨hmessage _, .inl rfl⟩

/-- What a call can do. -/
theorem authenticate_spec (h : auth.authenticate hmac md5 data context env = r) :
    Renews auth context env r.2 ∧
      (r.1.status = .authorized → r.2 = context ∧ ∃ msg, parseStunDatagram data = some msg ∧
        Authentic hmac md5 auth msg context env r.1.username r.1.integrityKey) := by
  rw [authenticate] at h
  split at h
  · subst h
    exact ⟨.inl rfl, nofun⟩
  rename_i msg hparse
  rw [authenticateMessage] at h
  split_ifs at h with hsupported hconfigured hfingerprint
  · subst h
    exact ⟨.inl rfl, nofun⟩
  · split at h
    · subst h
      exact ⟨.inl rfl, nofun⟩
    · obtain ⟨hstatus, hrenews⟩ := errorResponse_spec h
      exact ⟨hrenews, fun hauthorized => absurd hauthorized hstatus⟩
    · rename_i hcredentials
      subst h
      exact ⟨.inl rfl, fun _ => ⟨rfl, msg, hparse,
        authentic_of_credentials hsupported hfingerprint hcredentials⟩⟩
  · subst h
    exact ⟨.inl rfl, nofun⟩
  · subst h
    exact ⟨.inl rfl, nofun⟩

/-- The context after a call. -/
def nextContext (hmac : Hmac) (md5 : List Byte → Octets 16)
    (auth : TurnAuth) (context : TurnAuthContext) (call : List Byte × AuthEnv) : TurnAuthContext :=
  (auth.authenticate hmac md5 call.1 context call.2).2

/-- A nonce that the context does not have comes from the generator. -/
theorem exists_generated {nonce : List Byte} {calls : List (List Byte × AuthEnv)}
    (hne : context.nonce ≠ nonce)
    (h : (run (nextContext hmac md5 auth) context calls).nonce = nonce) :
    ∃ call ∈ calls, call.2.nonce = some nonce := by
  induction calls generalizing context with
  | nil => exact absurd h hne
  | cons call calls ih =>
    by_cases hnext : (nextContext hmac md5 auth context call).nonce = nonce
    · have hrenews : Renews auth context call.2 (nextContext hmac md5 auth context call) :=
        (authenticate_spec rfl).1
      rcases hrenews with hkeep | ⟨-, hnew⟩
      · exact absurd (hkeep ▸ hnext) hne
      · exact ⟨call, mem_cons_self, hnext ▸ hnew⟩
    · obtain ⟨call', hmem, hcall'⟩ := ih hnext h
      exact ⟨call', mem_cons_of_mem _ hmem, hcall'⟩

/-- A call that authorizes leaves the context as it is. From any context, a nonce is replaced when
    it has expired, and is accepted later in a run only if the generator has given it again. -/
theorem authorizes_authentic_requests (hmac : Hmac)
    (md5 : List Byte → Octets 16) (auth : TurnAuth) :
    (∀ data context env r, auth.authenticate hmac md5 data context env = r →
      r.1.status = .authorized → r.2 = context ∧ ∃ msg, parseStunDatagram data = some msg ∧
        Authentic hmac md5 auth msg context env r.1.username r.1.integrityKey) ∧
    ∀ context call, (nextContext hmac md5 auth context call).nonce ≠ context.nonce →
      auth.NonceExpired context call.2.nowMs ∧
      ∀ calls data env msg, (auth.authenticate hmac md5 data
          (run (nextContext hmac md5 auth) context (call :: calls)) env).1.status = .authorized →
        parseStunDatagram data = some msg → GivesOnce msg .nonce context.nonce →
        ∃ call ∈ calls, call.2.nonce = some context.nonce := by
  refine ⟨fun data context env r h => (authenticate_spec h).2, fun context call hreplaced =>
    ⟨?_, fun calls data env msg hstatus hparse hold => ?_⟩⟩
  · rcases (authenticate_spec rfl).1 with hkeep | ⟨hexpired, -⟩
    · exact absurd (congrArg _ hkeep) hreplaced
    · exact hexpired
  · obtain ⟨-, msg', hparse', hauthentic⟩ := (authenticate_spec rfl).2 hstatus
    obtain rfl := Option.some.inj (hparse'.symm.trans hparse)
    exact exists_generated hreplaced (hauthentic.nonce.unique hold)

end Packetia.Turn
