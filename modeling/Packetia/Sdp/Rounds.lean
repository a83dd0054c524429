import Packetia.Sdp.Mirror

/-!
# Calls on a negotiator

Any calls, in any order, with any descriptions. A call that is refused changes nothing but the last
error (`step_refused`); the descriptions that are made have one session id and versions that
increase (`Issued`); the two descriptions that are agreed on mirror each other, and their m-lines
are only ever added to (`Inv`).
-/

namespace Packetia.Sdp.SdpNegotiator

open List

variable {n n' : SdpNegotiator}

inductive Call
  | createOffer (nextId : ℕ) (capabilities : SdpSession)
  | applyOffer (offer : SdpSession)
  | createAnswer (nextId : ℕ) (capabilities : SdpSession) (singleCodecPerMedia : Bool)
  | applyAnswer (answer : SdpSession)
  | commit
  | rollback

def step (n : SdpNegotiator) : Call → SdpNegotiator
  | .createOffer nextId capabilities => (n.createOffer nextId capabilities).1
  | .applyOffer offer => (n.applyOffer offer).1
  | .createAnswer nextId capabilities single => (n.createAnswer nextId capabilities single).1
  | .applyAnswer answer => (n.applyAnswer answer).1
  | .commit => n.commit.1
  | .rollback => n.rollback

/-- The description that a call makes, if any. -/
def created (n : SdpNegotiator) : Call → Option SdpSession
  | .createOffer nextId capabilities => (n.createOffer nextId capabilities).2
  | .createAnswer nextId capabilities single => (n.createAnswer nextId capabilities single).2
  | .applyOffer _ | .applyAnswer _ | .commit | .rollback => none

/-- What a call returns. `Rollback` returns nothing. -/
def returns (n : SdpNegotiator) : Call → Bool
  | .createOffer nextId capabilities => (n.createOffer nextId capabilities).2.isSome
  | .applyOffer offer => (n.applyOffer offer).2
  | .createAnswer nextId capabilities single => (n.createAnswer nextId capabilities single).2.isSome
  | .applyAnswer answer => (n.applyAnswer answer).2
  | .commit => n.commit.2
  | .rollback => true

variable (calls : List Call)

/-- A new negotiator after the calls `calls`. -/
def after : SdpNegotiator := Packetia.run step {} calls

/-- The descriptions made by the calls `calls`, in order. -/
def createdBy : List SdpSession :=
  (history step {} calls).filterMap fun entry => entry.1.created entry.2

/-! ## What a call does -/

variable {result : SdpSession} {call : Call} {description capabilities answer : SdpSession}

section Cases

variable {nextId : ℕ} {capabilities description : SdpSession}

theorem setLocalOrigin_none (h : n.setLocalOrigin nextId description = (n', none)) :
    ∃ error, n' = n.reject error := by
  rw [setLocalOrigin] at h
  split_ifs at h
  · cases h
    exact ⟨_, rfl⟩
  · cases hversion : n.localVersion description.origin <;> rw [hversion] at h <;> cases h
    exact ⟨_, rfl⟩

section

variable (h : n.setLocalOrigin nextId description = (n', some result))
include h

theorem setLocalOrigin_some :
    ∃ version, n.originVersionExhausted = false ∧
      n.localVersion description.origin = some version ∧
      n' = { n with
        localOriginId := n.localId nextId description.origin
        originVersionExhausted := version = 2 ^ 64 - 1
        nextOriginVersion := if version = 2 ^ 64 - 1 then n.nextOriginVersion else version + 1 } ∧
      result = { description with
        origin :=
          localOrigin (n.localId nextId description.origin) version description.origin } := by
  rw [setLocalOrigin] at h
  split_ifs at h with hexhausted
  · cases h
  · cases hversion : n.localVersion description.origin <;> rw [hversion] at h <;> cases h
    exact ⟨_, by simpa using hexhausted, rfl, by simp, rfl⟩

theorem currentLocal_setLocalOrigin : n'.currentLocal = n.currentLocal := by
  obtain ⟨version, -, -, rfl, -⟩ := setLocalOrigin_some h
  rfl

end

theorem createOffer_cases (nextId : ℕ) (capabilities : SdpSession) :
    (∃ error, n.createOffer nextId capabilities = (n.reject error, none)) ∨
      ∃ result n' offer, n.state = .stable ∧ n.offerDescription capabilities = .ok result ∧
        n.setLocalOrigin nextId result = (n', some offer) ∧
        n.createOffer nextId capabilities = ({ n' with
          wireOffer := offer
          pendingLocal := offer
          pendingRemote := {}
          pendingRemoteSdp := []
          pendingReady := false
          state := .haveLocalOffer
          lastError := "" }, some offer) := by
  rw [createOffer]
  split_ifs with hstate
  · exact .inl ⟨_, rfl⟩
  cases hresult : n.offerDescription capabilities with
  | error error => exact .inl ⟨error, rfl⟩
  | ok result =>
    dsimp only
    rcases horigin : n.setLocalOrigin nextId result with ⟨n', _ | offer⟩
    · obtain ⟨error, rfl⟩ := setLocalOrigin_none horigin
      exact .inl ⟨error, rfl⟩
    · exact .inr ⟨result, n', offer, not_not.1 hstate, rfl, horigin, rfl⟩

theorem applyOffer_cases (offer : SdpSession) :
    (∃ error, n.applyOffer offer = (n.reject error, false)) ∨
      ∃ normalized, n.state ≠ .haveLocalOffer ∧
        validateDescription offer false n.hasCurrent = .ok normalized ∧
        (n.hasCurrent = true → newRemoteOrigin n.currentRemote.origin normalized.origin
          n.currentRemoteSdp (serialize normalized) = true) ∧
        (n.hasCurrent = true → keepsMediaOrder n.currentRemote normalized = true) ∧
        n.applyOffer offer = ({ n with
          pendingRemote := normalized
          wireOffer := normalized
          pendingRemoteSdp := serialize normalized
          pendingLocal := {}
          pendingReady := false
          state := .haveRemoteOffer
          lastError := "" }, true) := by
  rw [applyOffer]
  split_ifs with hstate
  · exact .inl ⟨_, rfl⟩
  cases hnormalized : validateDescription offer false n.hasCurrent with
  | error error => exact .inl ⟨error, rfl⟩
  | ok normalized =>
    dsimp only
    split_ifs with horigin horder
    · exact .inl ⟨_, rfl⟩
    · exact .inl ⟨_, rfl⟩
    · refine .inr ⟨normalized, hstate, rfl, fun hcurrent => ?_, fun hcurrent => ?_, rfl⟩
      · simpa [hcurrent] using horigin
      · simpa [hcurrent] using horder

theorem createAnswer_cases (nextId : ℕ) (capabilities : SdpSession) (single : Bool) :
    (∃ error, n.createAnswer nextId capabilities single = (n.reject error, none)) ∨
      ∃ result remote n' answer, n.state = .haveRemoteOffer ∧
        n.answerDescription capabilities single = .ok (result, remote) ∧
        n.setLocalOrigin nextId result = (n', some answer) ∧
        n.createAnswer nextId capabilities single = ({ n' with
          pendingLocal := answer
          pendingRemote := remote
          pendingReady := true
          lastError := "" }, some answer) := by
  rw [createAnswer]
  split_ifs with hstate
  · exact .inl ⟨_, rfl⟩
  cases hresult : n.answerDescription capabilities single with
  | error error => exact .inl ⟨error, rfl⟩
  | ok pair =>
    obtain ⟨result, remote⟩ := pair
    dsimp only
    rcases horigin : n.setLocalOrigin nextId result with ⟨n', _ | answer⟩
    · obtain ⟨error, rfl⟩ := setLocalOrigin_none horigin
      exact .inl ⟨error, rfl⟩
    · exact .inr ⟨result, remote, n', answer, not_not.1 hstate, rfl, horigin, rfl⟩

theorem applyAnswer_cases (answer : SdpSession) :
    (∃ error, n.applyAnswer answer = (n.reject error, false)) ∨
      ∃ normalized own, n.state = .haveLocalOffer ∧ n.pendingReady = false ∧
        n.acceptAnswer answer = .ok (normalized, own) ∧
        n.applyAnswer answer = ({ n with
          pendingLocal := own
          pendingRemote := normalized
          pendingRemoteSdp := serialize normalized
          pendingReady := true
          lastError := "" }, true) := by
  rw [applyAnswer]
  split_ifs with hstate
  · exact .inl ⟨_, rfl⟩
  push Not at hstate
  cases hresult : n.acceptAnswer answer with
  | error error => exact .inl ⟨error, rfl⟩
  | ok pair => exact .inr ⟨pair.1, pair.2, hstate.1, by simpa using hstate.2, rfl, rfl⟩

end Cases

/-- The negotiators have the same record of origins. -/
structure SameOrigins (n n' : SdpNegotiator) : Prop where
  id : n'.localOriginId = n.localOriginId
  next : n'.nextOriginVersion = n.nextOriginVersion
  exhausted : n'.originVersionExhausted = n.originVersionExhausted

/-- A call is refused, or makes no description, or makes one with an origin of its own. Only
    `Commit` changes what is agreed on. -/
theorem step_cases (n : SdpNegotiator) (call : Call) :
    (∃ error, n.step call = n.reject error ∧ n.created call = none) ∨
    n.returns call = true ∧ (call ≠ .commit → (n.step call).currentLocal = n.currentLocal) ∧
      (n.created call = none ∧ SameOrigins n (n.step call) ∨
        ∃ nextId description n' result,
          n.setLocalOrigin nextId description = (n', some result) ∧
          n.created call = some result ∧ SameOrigins n' (n.step call)) := by
  cases call with
  | createOffer nextId capabilities =>
    rw [step, created, returns]
    obtain ⟨error, heq⟩ | ⟨result, n', offer, -, -, horigin, heq⟩ :=
      createOffer_cases nextId capabilities
    · exact .inl ⟨error, by rw [heq], by rw [heq]⟩
    · have hcurrent := currentLocal_setLocalOrigin horigin
      rw [heq]
      exact .inr ⟨rfl, fun _ => hcurrent, .inr ⟨_, _, n', offer, horigin, rfl, rfl, rfl, rfl⟩⟩
  | applyOffer offer =>
    rw [step, created, returns]
    obtain ⟨error, heq⟩ | ⟨_, -, -, -, -, heq⟩ := applyOffer_cases offer
    · exact .inl ⟨error, by rw [heq], rfl⟩
    · rw [heq]
      exact .inr ⟨rfl, fun _ => rfl, .inl ⟨rfl, rfl, rfl, rfl⟩⟩
  | createAnswer nextId capabilities single =>
    rw [step, created, returns]
    obtain ⟨error, heq⟩ | ⟨result, remote, n', answer, -, -, horigin, heq⟩ :=
      createAnswer_cases nextId capabilities single
    · exact .inl ⟨error, by rw [heq], by rw [heq]⟩
    · have hcurrent := currentLocal_setLocalOrigin horigin
      rw [heq]
      exact .inr ⟨rfl, fun _ => hcurrent, .inr ⟨_, _, n', answer, horigin, rfl, rfl, rfl, rfl⟩⟩
  | applyAnswer answer =>
    rw [step, created, returns]
    obtain ⟨error, heq⟩ | ⟨_, _, -, -, -, heq⟩ := applyAnswer_cases answer
    · exact .inl ⟨error, by rw [heq], rfl⟩
    · rw [heq]
      exact .inr ⟨rfl, fun _ => rfl, .inl ⟨rfl, rfl, rfl, rfl⟩⟩
  | commit =>
    rw [step, created, returns, commit]
    split_ifs
    · exact .inl ⟨n.lastError, rfl, rfl⟩
    · exact .inr ⟨rfl, absurd rfl, .inl ⟨rfl, rfl, rfl, rfl⟩⟩
  | rollback => exact .inr ⟨rfl, fun _ => rfl, .inl ⟨rfl, rfl, rfl, rfl⟩⟩

/-- A call that is refused changes nothing but the last error. -/
theorem step_refused (h : n.returns call = false) : ∃ error, n.step call = n.reject error := by
  obtain ⟨error, heq, -⟩ | ⟨hreturns, -⟩ := step_cases n call
  · exact ⟨error, heq⟩
  · cases h.symm.trans hreturns

/-! ## Origins -/

/-- The descriptions `made` have the session id of the negotiator and versions that increase and
    are used up. -/
structure Issued (made : List SdpSession) (n : SdpNegotiator) : Prop where
  fresh : n.localOriginId = [] → made = []
  id : ∀ description ∈ made, description.origin.sessId = n.localOriginId
  versions : ∃ versions : List ℕ,
    made.map (fun description => description.origin.sessVersion) = versions.map decimal ∧
    versions.Pairwise (· < ·) ∧
    (n.originVersionExhausted = false → ∀ version ∈ versions, version < n.nextOriginVersion)

variable {made : List SdpSession}

/-- A negotiator with the same record of origins. -/
theorem Issued.congr (h : Issued made n) (hsame : SameOrigins n n') : Issued made n' where
  fresh := by
    rw [hsame.id]
    exact h.fresh
  id := by
    rw [hsame.id]
    exact h.id
  versions := by
    rw [hsame.next, hsame.exhausted]
    exact h.versions

theorem localId_ne_nil (nextId : ℕ) (origin : SdpOrigin) : n.localId nextId origin ≠ [] := by
  rw [localId, orElse]
  split_ifs with hid hgiven
  · exact Nat.toDigits_ne_nil
  · exact hgiven
  · exact hid

theorem Issued.setLocalOrigin (h : Issued made n) {nextId : ℕ}
    (horigin : n.setLocalOrigin nextId description = (n', some result)) :
    Issued (made ++ [result]) n' := by
  obtain ⟨version, hexhausted, hversion, rfl, rfl⟩ := setLocalOrigin_some horigin
  obtain ⟨versions, hmap, hsorted, hbound⟩ := h.versions
  have hnew : ∀ v ∈ versions, v < version := by
    by_cases hid : n.localOriginId = []
    · rw [h.fresh hid, map_nil] at hmap
      rw [map_eq_nil_iff.1 hmap.symm]
      exact nofun
    · rw [localVersion, if_neg fun hand => hid hand.1] at hversion
      cases hversion
      exact hbound hexhausted
  constructor
  case fresh => exact fun hid => absurd hid (localId_ne_nil _ _)
  case id =>
    refine forall_mem_concat.2 ⟨fun d hd => ?_, rfl⟩
    have hid : n.localOriginId ≠ [] := by
      intro hid
      rw [h.fresh hid] at hd
      cases hd
    rw [h.id d hd, localId, if_neg hid]
  case versions =>
    refine ⟨versions ++ [version], ?_, ?_, ?_⟩
    · rw [map_append, hmap, map_append]
      rfl
    · exact pairwise_concat.2 ⟨hsorted, hnew⟩
    · intro hlast
      rw [if_neg (of_decide_eq_false hlast)]
      exact forall_mem_concat.2
        ⟨fun v hv => (hnew v hv).trans (Nat.lt_succ_self _), Nat.lt_succ_self _⟩

theorem Issued.step (h : Issued made n) (call : Call) :
    Issued (made ++ (n.created call).toList) (n.step call) := by
  have hnone : Issued (made ++ (none : Option SdpSession).toList) n := by
    rwa [Option.toList_none, append_nil]
  obtain ⟨error, heq, hcreated⟩ | ⟨-, -, ⟨hcreated, hsame⟩ | ⟨_, _, n', result, horigin, hcreated,
    hsame⟩⟩ := step_cases n call
  · rw [heq, hcreated]
    exact hnone.congr ⟨rfl, rfl, rfl⟩
  · rw [hcreated]
    exact hnone.congr hsame
  · rw [hcreated]
    exact (h.setLocalOrigin horigin).congr hsame

theorem createdBy_concat (call : Call) :
    createdBy (calls ++ [call]) = createdBy calls ++ ((after calls).created call).toList := by
  rw [createdBy, history_concat, filterMap_append, createdBy, filterMap_cons, after]
  cases (run step {} calls).created call <;> rfl

theorem after_issued : Issued (createdBy calls) (after calls) := by
  refine run_induction (P := fun calls n => Issued (createdBy calls) n) ?_ ?_ calls
  · exact ⟨fun _ => rfl, nofun, [], rfl, .nil, nofun⟩
  · intro calls call h
    rw [createdBy_concat]
    exact h.step call

/-! ## The descriptions that are agreed on -/

theorem offeredMedia_identity {previous media : SdpMedia}
    (h : offeredMedia result previous = .ok media) : media.identity = previous.identity := by
  rw [offeredMedia] at h
  cases hfind : result.medias.find? fun media => media.mid = previous.mid with
  | none =>
    rw [hfind] at h
    cases h
    rw [pausedMedia]
    cases result.medias.find? fun media => isActive media && rtpMedia media <;> rfl
  | some replacement =>
    rw [hfind] at h
    obtain ⟨hsame, h⟩ := require_bind_eq_ok.1 h
    cases h
    exact (sameMediaIdentity_iff.1 hsame).symm

theorem orderMedias_identities {medias : List SdpMedia} (hcurrent : n.hasCurrent = true)
    (h : n.orderMedias result = .ok medias) :
    identities n.currentLocal <+: medias.map SdpMedia.identity := by
  rw [orderMedias, if_pos hcurrent] at h
  obtain ⟨ordered, hordered, h⟩ := bind_eq_ok.1 h
  cases h
  have hmap : ordered.map SdpMedia.identity = identities n.currentLocal :=
    map_eq_of_forall₂ (fun _ _ => offeredMedia_identity) (mapM_eq_ok.1 hordered)
  rw [map_append, hmap]
  exact prefix_append ..

theorem offerDescription_identities (hcurrent : n.hasCurrent = true)
    (h : n.offerDescription capabilities = .ok result) :
    identities n.currentLocal <+: identities result := by
  rw [offerDescription] at h
  obtain ⟨-, h⟩ := require_bind_eq_ok.1 h
  obtain ⟨medias, hmedias, h⟩ := bind_eq_ok.1 h
  obtain ⟨-, h⟩ := require_bind_eq_ok.1 h
  obtain ⟨checked, hchecked, h⟩ := bind_eq_ok.1 h
  obtain ⟨_, -, h⟩ := bind_eq_ok.1 h
  cases h
  rw [validateDescription_identities hchecked]
  exact orderMedias_identities hcurrent hmedias

theorem answerDescription_eq_ok {remote : SdpSession} {single : Bool}
    (h : n.answerDescription capabilities single = .ok (result, remote)) :
    ∃ description, validateDescription description true n.hasCurrent = .ok result ∧
      validateAnswer n.wireOffer result = .ok () ∧
      effectiveOffer n.wireOffer result = some remote := by
  rw [answerDescription] at h
  obtain ⟨-, h⟩ := require_bind_eq_ok.1 h
  obtain ⟨pair, -, h⟩ := bind_eq_ok.1 h
  obtain ⟨-, h⟩ := require_bind_eq_ok.1 h
  obtain ⟨checked, hchecked, h⟩ := bind_eq_ok.1 h
  obtain ⟨_, hanswer, h⟩ := bind_eq_ok.1 h
  cases heffective : effectiveOffer n.wireOffer checked <;> rw [heffective] at h <;> cases h
  exact ⟨_, hchecked, hanswer, heffective⟩

theorem acceptAnswer_eq_ok {normalized own : SdpSession}
    (h : n.acceptAnswer answer = .ok (normalized, own)) :
    validateDescription answer true true = .ok normalized ∧
      validateAnswer n.wireOffer normalized = .ok () ∧
      (n.hasCurrent = true → newRemoteOrigin n.currentRemote.origin normalized.origin
        n.currentRemoteSdp (serialize normalized) = true) ∧
      effectiveOffer n.wireOffer normalized = some own := by
  rw [acceptAnswer] at h
  obtain ⟨checked, hchecked, h⟩ := bind_eq_ok.1 h
  obtain ⟨_, hanswer, h⟩ := bind_eq_ok.1 h
  obtain ⟨horigin, h⟩ := require_bind_eq_ok.1 h
  cases heffective : effectiveOffer n.wireOffer checked <;> rw [heffective] at h <;> cases h
  exact ⟨hchecked, hanswer, fun hcurrent => by simpa [hcurrent] using horigin, heffective⟩

/-- Two descriptions list the same m-lines and mirror each other. -/
structure Matched (a b : SdpSession) : Prop where
  identities : identities a = Sdp.identities b
  mirror : Mirror a b

theorem Matched.symm {a b : SdpSession} (h : Matched a b) : Matched b a :=
  ⟨h.identities.symm, h.mirror.symm⟩

/-- An answer that is checked and the offer as it is left by it. -/
theorem matched_of_answer {offer : SdpSession} {allowEmpty : Bool}
    (hchecked : validateDescription description true allowEmpty = .ok answer)
    (hanswer : validateAnswer offer answer = .ok ())
    (heffective : effectiveOffer offer answer = some result) :
    Matched result answer ∧ identities result = identities offer := by
  obtain ⟨hlength, hids⟩ := validateAnswer_identities hanswer
  have hresult := effectiveOffer_identities hlength heffective
  exact ⟨⟨hresult.trans hids, effectiveOffer_mirror hchecked hlength heffective⟩, hresult⟩

structure Inv (n : SdpNegotiator) : Prop where
  current : Matched n.currentLocal n.currentRemote
  none : n.hasCurrent = false → identities n.currentLocal = []
  offered : n.state ≠ .stable → identities n.currentLocal <+: identities n.wireOffer
  pending : n.pendingReady = true → Matched n.pendingLocal n.pendingRemote ∧
    identities n.currentLocal <+: identities n.pendingLocal

theorem Inv.reject (h : Inv n) (error : String) : Inv (n.reject error) :=
  { h with }

theorem Inv.rollback (h : Inv n) : Inv n.rollback where
  current := h.current
  none := h.none
  offered hstate := absurd rfl hstate
  pending := nofun

/-- What is agreed on is a beginning of what extends it when there is something. -/
theorem Inv.extends_current (h : Inv n) {l : List (Text × Text × Text)}
    (hl : n.hasCurrent = true → identities n.currentLocal <+: l) :
    identities n.currentLocal <+: l := by
  cases hcurrent : n.hasCurrent with
  | false =>
    rw [h.none hcurrent]
    exact nil_prefix
  | true => exact hl hcurrent

theorem step_inv (h : Inv n) (call : Call) : Inv (n.step call) := by
  cases call with
  | createOffer nextId capabilities =>
    rw [step]
    obtain ⟨error, heq⟩ | ⟨result, n', offer, -, hresult, horigin, heq⟩ :=
      createOffer_cases nextId capabilities <;> rw [heq]
    · exact h.reject error
    · obtain ⟨version, -, -, rfl, rfl⟩ := setLocalOrigin_some horigin
      have hoffered := h.extends_current fun hcurrent =>
        offerDescription_identities hcurrent hresult
      exact ⟨h.current, h.none, fun _ => hoffered, nofun⟩
  | applyOffer offer =>
    rw [step]
    obtain ⟨error, heq⟩ | ⟨normalized, -, -, -, horder, heq⟩ := applyOffer_cases offer <;> rw [heq]
    · exact h.reject error
    · refine ⟨h.current, h.none, fun _ => ?_, nofun⟩
      refine h.extends_current fun hcurrent => ?_
      rw [h.current.identities]
      exact keepsMediaOrder_iff.1 (horder hcurrent)
  | createAnswer nextId capabilities single =>
    rw [step]
    obtain ⟨error, heq⟩ | ⟨result, remote, n', answer, hstate, hresult, horigin, heq⟩ :=
      createAnswer_cases nextId capabilities single <;> rw [heq]
    · exact h.reject error
    · obtain ⟨version, -, -, rfl, rfl⟩ := setLocalOrigin_some horigin
      obtain ⟨description, hchecked, hanswer, heffective⟩ := answerDescription_eq_ok hresult
      obtain ⟨hmatched, hids⟩ := matched_of_answer hchecked hanswer heffective
      have hoffered := h.offered (by rw [hstate]; decide)
      refine ⟨h.current, h.none, h.offered, fun _ => ⟨⟨?_, hmatched.symm.mirror⟩, ?_⟩⟩
      · exact hmatched.identities.symm
      · rw [← hids, hmatched.identities] at hoffered
        exact hoffered
  | applyAnswer answer =>
    rw [step]
    obtain ⟨error, heq⟩ | ⟨normalized, own, hstate, -, hresult, heq⟩ :=
      applyAnswer_cases answer <;> rw [heq]
    · exact h.reject error
    · obtain ⟨hchecked, hanswer, -, heffective⟩ := acceptAnswer_eq_ok hresult
      obtain ⟨hmatched, hids⟩ := matched_of_answer hchecked hanswer heffective
      have hoffered := h.offered (by rw [hstate]; decide)
      refine ⟨h.current, h.none, h.offered, fun _ => ⟨hmatched, ?_⟩⟩
      rwa [← hids] at hoffered
  | commit =>
    rw [step, commit]
    split_ifs with hready
    · exact h
    · obtain ⟨hmatched, -⟩ := h.pending (eq_true_of_ne_false hready)
      exact ⟨hmatched, nofun, absurd rfl, nofun⟩
  | rollback => exact h.rollback

theorem after_inv : Inv (after calls) := by
  refine run_induction ?_ (fun _ call h => step_inv h call) calls
  exact ⟨⟨rfl, .nil⟩, fun _ => rfl, absurd rfl, nofun⟩

/-- Only `Commit` changes what is agreed on. -/
theorem step_currentLocal (h : call ≠ .commit) : (n.step call).currentLocal = n.currentLocal := by
  obtain ⟨error, heq, -⟩ | ⟨-, hcurrent, -⟩ := step_cases n call
  · rw [heq, reject]
  · exact hcurrent h

/-- A call adds to the m-lines at their end, if it changes them. -/
theorem step_grows (h : Inv n) (call : Call) :
    identities n.currentLocal <+: identities (n.step call).currentLocal := by
  by_cases hcommit : call = .commit
  · subst hcommit
    rw [step, commit]
    split_ifs with hready
    · exact prefix_refl _
    · exact (h.pending (eq_true_of_ne_false hready)).2
  · rw [step_currentLocal hcommit]

theorem after_grows (more : List Call) :
    identities (after calls).currentLocal <+: identities (after (calls ++ more)).currentLocal := by
  induction more using reverseRecOn with
  | nil => rw [append_nil]
  | append_singleton more call ih =>
    rw [← append_assoc, after, after, run_concat]
    exact ih.trans (step_grows (after_inv _) call)

/-! ## Agreement -/

/-- What the calls `calls` leave, and what a further call does. -/
structure Negotiated : Prop where
  refused : ∀ call, (after calls).returns call = false →
    ∃ error, (after calls).step call = { after calls with lastError := error }
  origins : ∃ (id : Text) (versions : List ℕ), versions.Pairwise (· < ·) ∧
    (∀ description ∈ createdBy calls, description.origin.sessId = id) ∧
    (createdBy calls).map (fun description => description.origin.sessVersion) = versions.map decimal
  identities : identities (after calls).currentLocal = Sdp.identities (after calls).currentRemote
  grows : ∀ more, Sdp.identities (after calls).currentLocal <+:
    Sdp.identities (after (calls ++ more)).currentLocal
  mirror : Mirror (after calls).currentLocal (after calls).currentRemote

theorem calls_keep_descriptions_mirrored (calls : List Call) : Negotiated calls where
  refused _ h := step_refused h
  origins := by
    have hissued := after_issued calls
    obtain ⟨versions, hversions, hsorted, -⟩ := hissued.versions
    exact ⟨_, versions, hsorted, hissued.id, hversions⟩
  identities := (after_inv calls).current.identities
  grows := after_grows calls
  mirror := (after_inv calls).current.mirror

end Packetia.Sdp.SdpNegotiator
