import Packetia.Sdp.Rounds

/-!
# Two negotiators

Two negotiators exchange descriptions as values. A round goes from an offer to a commit on both
sides, or is abandoned and rolled back on both sides at any point (`Move`). What one side makes the
other one accepts, as a description that has been checked once is checked again with the same
result (`validateDescription_idem`) and a new origin follows the one before
(`newRemoteOrigin_of_issued`). So both sides compute the same pair of descriptions, and after every
round they agree (`Session.Inv`).
-/

namespace Packetia.Sdp

open List Option Function

/-! ## Checking a description again -/

theorem bothDirections_idem (d e : MediaDirection) :
    bothDirections (bothDirections d e) e = bothDirections d e := by
  cases d <;> cases e <;> rfl

theorem orElse_idem (text fallback : Text) :
    orElse (orElse text fallback) fallback = orElse text fallback := by
  rw [orElse, orElse]
  split_ifs <;> simp_all

theorem inheritTransport_idem (media : SdpMedia) (session : SdpSession) :
    inheritTransport (inheritTransport media session) session = inheritTransport media session := by
  simp only [inheritTransport, orElse_idem, Bool.or_assoc, Bool.or_self]
  congr 2 <;> split_ifs <;> simp_all

theorem checkExtensions_idem {media : SdpMedia} {extensions : List RtpHeaderExtensionParameters}
    (h : checkExtensions media = .ok extensions) :
    checkExtensions { media with headerExtensions := extensions } = .ok extensions := by
  rw [checkExtensions, require_bind_eq_ok] at h
  obtain ⟨hchecks, h⟩ := h
  cases h
  rw [checkExtensions, require_bind_eq_ok]
  refine ⟨?_, ?_⟩
  · simpa [List.map_map, comp_def] using hchecks
  · refine congrArg Except.ok ?_
    rw [List.map_map]
    refine map_congr_left fun extension _ => ?_
    rw [comp_apply, bothDirections_idem]

section Validate

variable {description result : SdpSession} {answer : Bool} {st : Validation}

theorem validateMedia_of_active (media : SdpMedia)
    {headerExtensions : List RtpHeaderExtensionParameters}
    (hline : checkLine description answer st.mids media = .ok ())
    (hactive : isActive media = true) (hrtp : rtpMedia media = true)
    (hprofile : checkProfile description media = .ok ())
    (htransport : checkTransport answer st.transport (inheritTransport media description) = .ok ())
    (hcodecs : checkCodecs media = .ok ())
    (hextensions : checkExtensions media = .ok headerExtensions) :
    validateMedia description answer st media = .ok { st with
      mids := media.mid :: st.mids
      transport := some { inheritTransport media description with headerExtensions }
      active := st.active + 1
      medias := st.medias ++ [{ inheritTransport media description with headerExtensions }] } := by
  rw [validateMedia, bind_eq_ok]
  refine ⟨(), hline, ?_⟩
  rw [if_neg (by rw [hactive]; decide), if_neg (by rw [hrtp]; decide), bind_eq_ok]
  exact ⟨(), hprofile, bind_eq_ok.2 ⟨(), htransport, bind_eq_ok.2 ⟨(), hcodecs,
    bind_eq_ok.2 ⟨headerExtensions, hextensions, rfl⟩⟩⟩⟩

/-- An m-line that has been checked is checked again with the same result. -/
theorem validateMedia_idem {st st' : Validation} {media : SdpMedia}
    (h : validateMedia description answer st media = .ok st') :
    ∃ media', st'.medias = st.medias ++ [media'] ∧
      validateMedia description answer st media' = .ok st' := by
  obtain ⟨hline, ⟨-, rfl⟩ |
    ⟨hactive, hrtp, hprofile, htransport, hcodecs, extensions, hextensions, rfl⟩⟩ :=
      validateMedia_eq_ok h
  · exact ⟨media, rfl, h⟩
  refine ⟨{ inheritTransport media description with headerExtensions := extensions }, rfl, ?_⟩
  have hinherit : inheritTransport
      { inheritTransport media description with headerExtensions := extensions } description =
        { inheritTransport media description with headerExtensions := extensions } := by
    have hidem := congrArg (fun media : SdpMedia => { media with headerExtensions := extensions })
      (inheritTransport_idem media description)
    exact hidem
  have hagain : checkExtensions
      { inheritTransport media description with headerExtensions := extensions } = .ok extensions :=
    checkExtensions_idem (show checkExtensions (inheritTransport media description) = _ from
      hextensions)
  have hround := validateMedia_of_active
    { inheritTransport media description with headerExtensions := extensions } hline hactive hrtp
      hprofile (by rw [hinherit]; exact htransport) hcodecs hagain
  rwa [hinherit] at hround

theorem validateMedias_idem {medias : List SdpMedia}
    (h : medias.foldlM (validateMedia description answer) {} = .ok st) :
    st.medias.foldlM (validateMedia description answer) {} = .ok st := by
  refine foldlM_ok_induction (P := fun _ st =>
    st.medias.foldlM (validateMedia description answer) {} = .ok st) rfl ?_ h
  intro l media st st' ih hround
  obtain ⟨media', hmedias, hagain⟩ := validateMedia_idem hround
  rw [hmedias, foldlM_concat_eq_ok]
  exact ⟨st, ih, hagain⟩

/-- A description that has been checked is checked again with the same result. Its origin does not
    matter. -/
theorem validateDescription_idem {allowEmpty allowEmpty' : Bool}
    (h : validateDescription description answer allowEmpty = .ok result)
    (hempty : allowEmpty = true → allowEmpty' = true) (origin : SdpOrigin) :
    validateDescription { result with origin } answer allowEmpty' = .ok { result with origin } := by
  have hdescription := h
  rw [validateDescription, require_bind_eq_ok] at h
  obtain ⟨htype, h⟩ := h
  obtain ⟨st, hst, h⟩ := bind_eq_ok.1 h
  obtain ⟨hbundle, h⟩ := require_bind_eq_ok.1 h
  obtain ⟨hactive, h⟩ := require_bind_eq_ok.1 h
  cases h
  have hids : st.medias.map SdpMedia.identity = description.medias.map SdpMedia.identity :=
    validateDescription_identities hdescription
  have hmedias : st.medias ≠ [] ↔ description.medias ≠ [] := by
    rw [ne_eq, ← map_eq_nil_iff, hids, map_eq_nil_iff]
  rw [validateDescription, require_bind_eq_ok]
  refine ⟨?_, bind_eq_ok.2 ⟨st, validateMedias_idem hst, require_bind_eq_ok.2 ⟨hbundle,
    require_bind_eq_ok.2 ⟨?_, rfl⟩⟩⟩⟩
  · rw [Bool.and_eq_true, decide_eq_true_eq, decide_eq_true_eq] at htype ⊢
    exact ⟨htype.1, hmedias.2 htype.2⟩
  · cases allowEmpty with
    | false =>
      rw [Bool.false_or] at hactive
      simp_all
    | true =>
      rw [hempty rfl]
      exact hactive

end Validate

/-! ## Origins -/

theorem originNumber_decimal {version : ℕ} (h : version < 2 ^ 64) :
    originNumber (decimal version) = some version := by
  rw [originNumber, number_decimal, filter_some, if_pos (decide_eq_true h)]

theorem effectiveOffer_origin {offer answer result : SdpSession}
    (h : effectiveOffer offer answer = some result) : result.origin = offer.origin := by
  simp only [effectiveOffer, bind_eq_bind, bind_eq_some_iff] at h
  obtain ⟨medias, -, h⟩ := h
  cases h
  rfl

namespace SdpNegotiator

variable {n n' : SdpNegotiator}

/-- The negotiator has written the origin, and the version of it is used up. -/
structure Wrote (n : SdpNegotiator) (origin : SdpOrigin) : Prop where
  id : n.localOriginId ≠ [] ∧ origin.sessId = n.localOriginId
  version : ∃ version, origin.sessVersion = decimal version ∧ version < 2 ^ 64 ∧
    (n.originVersionExhausted = false → version < n.nextOriginVersion)

variable {origin : SdpOrigin}

/-- A negotiator with the same record of origins. -/
theorem Wrote.congr (h : n.Wrote origin) (hid : n'.localOriginId = n.localOriginId)
    (hnext : n'.nextOriginVersion = n.nextOriginVersion)
    (hexhausted : n'.originVersionExhausted = n.originVersionExhausted) : n'.Wrote origin where
  id := by
    rw [hid]
    exact h.id
  version := by
    rw [hnext, hexhausted]
    exact h.version

section SetLocalOrigin

variable {nextId : ℕ} {description result : SdpSession}

section

variable (hnext : n.nextOriginVersion < 2 ^ 64)
include hnext

theorem localVersion_lt {version : ℕ} (h : n.localVersion origin = some version) :
    version < 2 ^ 64 := by
  rw [localVersion] at h
  split_ifs at h
  · rw [originNumber, filter_eq_some_iff] at h
    exact of_decide_eq_true h.2
  · cases h
    exact hnext

section

variable (h : n.setLocalOrigin nextId description = (n', some result))
include h

theorem setLocalOrigin_next : n'.nextOriginVersion < 2 ^ 64 := by
  obtain ⟨version, -, hversion, rfl, -⟩ := setLocalOrigin_some h
  have hlt := localVersion_lt hnext hversion
  dsimp only
  split_ifs <;> omega

theorem wrote_of_setLocalOrigin : n'.Wrote result.origin := by
  obtain ⟨version, -, hversion, rfl, rfl⟩ := setLocalOrigin_some h
  refine ⟨⟨localId_ne_nil _ _, rfl⟩, version, rfl, localVersion_lt hnext hversion, fun hlast => ?_⟩
  rw [if_neg (of_decide_eq_false hlast)]
  exact Nat.lt_succ_self _

end

end

/-- An origin that has been written before comes before a new one. -/
theorem Wrote.lt_version (h : n.Wrote origin) {version : ℕ}
    (hexhausted : n.originVersionExhausted = false)
    (hversion : n.localVersion description.origin = some version) :
    ∃ previous, origin.sessVersion = decimal previous ∧ previous < 2 ^ 64 ∧ previous < version := by
  obtain ⟨previous, hprevious, hlt, hbound⟩ := h.version
  rw [localVersion, if_neg fun hand => h.id.1 hand.1] at hversion
  cases hversion
  exact ⟨previous, hprevious, hlt, hbound hexhausted⟩

theorem Wrote.setLocalOrigin (h : n.Wrote origin)
    (hset : n.setLocalOrigin nextId description = (n', some result)) : n'.Wrote origin := by
  obtain ⟨version, hexhausted, hversion, rfl, -⟩ := setLocalOrigin_some hset
  obtain ⟨previous, hprevious, hlt, hnew⟩ := h.lt_version hexhausted hversion
  refine ⟨?_, previous, hprevious, hlt, fun hlast => ?_⟩
  · rw [localId, if_neg h.id.1]
    exact h.id
  · rw [if_neg (of_decide_eq_false hlast)]
    exact hnew.trans (Nat.lt_succ_self _)

theorem newRemoteOrigin_of_wrote (h : n.Wrote origin) (hnext : n.nextOriginVersion < 2 ^ 64)
    (hset : n.setLocalOrigin nextId description = (n', some result)) (previousSdp nextSdp : Text) :
    newRemoteOrigin origin result.origin previousSdp nextSdp = true := by
  obtain ⟨version, hexhausted, hversion, -, rfl⟩ := setLocalOrigin_some hset
  obtain ⟨previous, hprevious, hlt, hnew⟩ := h.lt_version hexhausted hversion
  have hid : n.localId nextId description.origin = origin.sessId := by
    rw [localId, if_neg h.id.1, h.id.2]
  rw [newRemoteOrigin, hprevious, originNumber_decimal hlt]
  cases originNumber origin.sessId with
  | none => rfl
  | some _ =>
    dsimp only [localOrigin]
    rw [hid, originNumber_decimal (localVersion_lt hnext hversion)]
    simp [hnew]

end SetLocalOrigin

/-! ## What a call keeps -/

/-- What is agreed on stays, and so do the origins that have been written. -/
structure Keeps (n n' : SdpNegotiator) : Prop where
  hasCurrent : n'.hasCurrent = n.hasCurrent
  currentLocal : n'.currentLocal = n.currentLocal
  currentRemote : n'.currentRemote = n.currentRemote
  next : n.nextOriginVersion < 2 ^ 64 → n'.nextOriginVersion < 2 ^ 64
  wrote : ∀ origin, n.Wrote origin → n'.Wrote origin

theorem reject_keeps (n : SdpNegotiator) (error : String) : Keeps n (n.reject error) :=
  ⟨rfl, rfl, rfl, fun h => h, fun _ h => h.congr rfl rfl rfl⟩

theorem rollback_keeps (n : SdpNegotiator) : Keeps n n.rollback :=
  ⟨rfl, rfl, rfl, fun h => h, fun _ h => h.congr rfl rfl rfl⟩

theorem setLocalOrigin_keeps {nextId : ℕ} {description result : SdpSession}
    (h : n.setLocalOrigin nextId description = (n', some result)) : Keeps n n' := by
  have hnext := fun hnext => setLocalOrigin_next hnext h
  have hwrote := fun origin (ho : n.Wrote origin) => ho.setLocalOrigin h
  obtain ⟨version, -, -, rfl, -⟩ := setLocalOrigin_some h
  exact ⟨rfl, rfl, rfl, hnext, hwrote⟩

/-- A negotiator that differs in what is pending only. -/
theorem Keeps.congr {n'' : SdpNegotiator} (h : Keeps n n')
    (hcurrent : n''.hasCurrent = n'.hasCurrent)
    (hlocal : n''.currentLocal = n'.currentLocal) (hremote : n''.currentRemote = n'.currentRemote)
    (hid : n''.localOriginId = n'.localOriginId)
    (hnext : n''.nextOriginVersion = n'.nextOriginVersion)
    (hexhausted : n''.originVersionExhausted = n'.originVersionExhausted) : Keeps n n'' where
  hasCurrent := hcurrent.trans h.hasCurrent
  currentLocal := hlocal.trans h.currentLocal
  currentRemote := hremote.trans h.currentRemote
  next hlt := by
    rw [hnext]
    exact h.next hlt
  wrote origin ho := (h.wrote origin ho).congr hid hnext hexhausted

theorem keeps_refl (n : SdpNegotiator) : Keeps n n := ⟨rfl, rfl, rfl, fun h => h, fun _ h => h⟩

/-! ## Descriptions that are accepted -/

theorem offerDescription_checked {capabilities result : SdpSession}
    (h : n.offerDescription capabilities = .ok result) :
    ∃ description, validateDescription description false n.hasCurrent = .ok result := by
  rw [offerDescription] at h
  obtain ⟨-, h⟩ := require_bind_eq_ok.1 h
  obtain ⟨medias, -, h⟩ := bind_eq_ok.1 h
  obtain ⟨-, h⟩ := require_bind_eq_ok.1 h
  obtain ⟨checked, hchecked, h⟩ := bind_eq_ok.1 h
  obtain ⟨_, -, h⟩ := bind_eq_ok.1 h
  cases h
  exact ⟨_, hchecked⟩

/-- An offer that a negotiator takes as it is. -/
structure Acceptable (n : SdpNegotiator) (offer : SdpSession) : Prop where
  checked : validateDescription offer false n.hasCurrent = .ok offer
  follows : n.hasCurrent = true → ∀ previousSdp nextSdp,
    newRemoteOrigin n.currentRemote.origin offer.origin previousSdp nextSdp = true
  order : n.hasCurrent = true → keepsMediaOrder n.currentRemote offer = true

theorem Acceptable.applyOffer {offer : SdpSession} (h : Acceptable n offer)
    (hstate : n.state ≠ .haveLocalOffer) : n.applyOffer offer = ({ n with
      pendingRemote := offer
      wireOffer := offer
      pendingRemoteSdp := serialize offer
      pendingLocal := {}
      pendingReady := false
      state := .haveRemoteOffer
      lastError := "" }, true) := by
  rw [SdpNegotiator.applyOffer, if_neg hstate, h.checked]
  dsimp only
  cases hcurrent : n.hasCurrent with
  | false => rfl
  | true =>
    rw [h.follows hcurrent, h.order hcurrent]
    rfl

theorem acceptAnswer_of {answer own : SdpSession}
    (hchecked : validateDescription answer true true = .ok answer)
    (hanswer : validateAnswer n.wireOffer answer = .ok ())
    (hfollows : n.hasCurrent = true → newRemoteOrigin n.currentRemote.origin answer.origin
      n.currentRemoteSdp (serialize answer) = true)
    (heffective : effectiveOffer n.wireOffer answer = some own) :
    n.acceptAnswer answer = .ok (answer, own) := by
  rw [acceptAnswer]
  refine bind_eq_ok.2 ⟨answer, hchecked, bind_eq_ok.2 ⟨(), hanswer, require_bind_eq_ok.2 ⟨?_, ?_⟩⟩⟩
  · cases hcurrent : n.hasCurrent with
    | false => rfl
    | true => rw [hfollows hcurrent]; rfl
  · rw [heffective]
    rfl

end SdpNegotiator

/-! ## The exchange -/

inductive Side
  | a
  | b
  deriving DecidableEq

def Side.other : Side → Side
  | .a => .b
  | .b => .a

@[simp] theorem Side.other_other (side : Side) : side.other.other = side := by cases side <;> rfl

@[simp] theorem Side.other_ne (side : Side) : side.other ≠ side := by cases side <;> decide

/-- Where a round is: the side that offers, and the description that is on its way. -/
inductive Phase
  | idle
  | offered (offerer : Side) (offer : SdpSession)
  | applied (offerer : Side)
  | answered (offerer : Side) (answer : SdpSession)
  | ready (offerer : Side)

structure Exchange where
  peers : Side → SdpNegotiator := fun _ => {}
  phase : Phase := .idle

inductive Move
  | createOffer (side : Side) (nextId : ℕ) (capabilities : SdpSession)
  | applyOffer
  | createAnswer (nextId : ℕ) (capabilities : SdpSession) (singleCodecPerMedia : Bool)
  | applyAnswer
  | commit
  /-- The round is abandoned. -/
  | rollback

namespace Exchange

/-- One side has made a call. -/
def set (x : Exchange) (side : Side) (n : SdpNegotiator) (phase : Phase) : Exchange where
  peers := Function.update x.peers side n
  phase := phase

/-- A move that is not one of the phase does nothing. A call that is refused leaves the phase as
    it is. -/
def step (x : Exchange) : Move → Exchange
  | .createOffer side nextId capabilities =>
    match x.phase with
    | .idle =>
      let result := (x.peers side).createOffer nextId capabilities
      x.set side result.1 (result.2.elim .idle (.offered side))
    | _ => x
  | .applyOffer =>
    match x.phase with
    | .offered side offer =>
      let result := (x.peers side.other).applyOffer offer
      x.set side.other result.1 (if result.2 then .applied side else x.phase)
    | _ => x
  | .createAnswer nextId capabilities singleCodecPerMedia =>
    match x.phase with
    | .applied side =>
      let result := (x.peers side.other).createAnswer nextId capabilities singleCodecPerMedia
      x.set side.other result.1 (result.2.elim (.applied side) (.answered side))
    | _ => x
  | .applyAnswer =>
    match x.phase with
    | .answered side answer =>
      let result := (x.peers side).applyAnswer answer
      x.set side result.1 (if result.2 then .ready side else x.phase)
    | _ => x
  | .commit =>
    match x.phase with
    | .ready _ => { peers := fun side => (x.peers side).commit.1, phase := .idle }
    | _ => x
  | .rollback => { peers := fun side => (x.peers side).rollback, phase := .idle }

/-- Two new negotiators after the moves `moves`. -/
def after (moves : List Move) : Exchange := Packetia.run step {} moves

/-! ## Invariant -/

open SdpNegotiator

/-- Both sides agree on what is current, each with an origin it has written itself. -/
structure Settled (peers : Side → SdpNegotiator) : Prop where
  hasCurrent : ∀ side, (peers side.other).hasCurrent = (peers side).hasCurrent
  agree : ∀ side, (peers side).currentLocal = (peers side.other).currentRemote
  wrote : ∀ side, (peers side).hasCurrent = true →
    (peers side).Wrote (peers side).currentLocal.origin
  next : ∀ side, (peers side).nextOriginVersion < 2 ^ 64

/-- The side that offers waits for an answer. -/
structure Offering (n : SdpNegotiator) : Prop where
  state : n.state = .haveLocalOffer
  pending : n.pendingReady = false
  wrote : n.Wrote n.wireOffer.origin

/-- The answer of `answerer` is one that `offerer` takes as it is. -/
structure Answered (offerer answerer : SdpNegotiator) (answer : SdpSession) : Prop where
  ready : answerer.pendingReady = true
  pendingLocal : answerer.pendingLocal = answer
  wrote : answerer.Wrote answer.origin
  accepted : offerer.acceptAnswer answer = .ok (answer, answerer.pendingRemote)
  origin : answerer.pendingRemote.origin = offerer.wireOffer.origin

def PhaseInv (peers : Side → SdpNegotiator) : Phase → Prop
  | .idle => ∀ side, (peers side).state = .stable
  | .offered side offer => Offering (peers side) ∧ (peers side).wireOffer = offer ∧
    (peers side.other).state = .stable ∧ Acceptable (peers side.other) offer
  | .applied side => Offering (peers side) ∧ (peers side.other).state = .haveRemoteOffer ∧
    (peers side.other).wireOffer = (peers side).wireOffer
  | .answered side answer => Offering (peers side) ∧
    Answered (peers side) (peers side.other) answer
  | .ready _ => ∀ side, (peers side).pendingReady = true ∧
    (peers side).pendingLocal = (peers side.other).pendingRemote ∧
    (peers side).Wrote (peers side).pendingLocal.origin

structure Inv (x : Exchange) : Prop where
  settled : Settled x.peers
  phase : PhaseInv x.peers x.phase

section Peers

variable {peers : Side → SdpNegotiator} {side : Side} {n : SdpNegotiator}

theorem update_other : update peers side n side.other = peers side.other :=
  update_of_ne side.other_ne ..

theorem update_other' : update peers side.other n side = peers side :=
  update_of_ne side.other_ne.symm ..

/-- A call that keeps what is agreed on. -/
theorem Settled.set (h : Settled peers) (hkeeps : Keeps (peers side) n) :
    Settled (update peers side n) := by
  have hall : ∀ s, Keeps (peers s) (update peers side n s) := by
    intro s
    by_cases hs : s = side
    · subst hs
      rwa [update_self]
    · rw [update_of_ne hs]
      exact keeps_refl _
  constructor
  case hasCurrent =>
    intro s
    rw [(hall s).hasCurrent, (hall s.other).hasCurrent]
    exact h.hasCurrent s
  case agree =>
    intro s
    rw [(hall s).currentLocal, (hall s.other).currentRemote]
    exact h.agree s
  case wrote =>
    intro s hcurrent
    rw [(hall s).hasCurrent] at hcurrent
    rw [(hall s).currentLocal]
    exact (hall s).wrote _ (h.wrote s hcurrent)
  case next => exact fun s => (hall s).next (h.next s)

end Peers

variable {x : Exchange} {n : SdpNegotiator}

theorem createOffer_inv (h : Inv x) (side : Side) (nextId : ℕ) (capabilities : SdpSession) :
    Inv (x.step (.createOffer side nextId capabilities)) := by
  have hphase := h.phase
  rw [step]
  cases hx : x.phase with
  | idle =>
    rw [hx] at hphase
    obtain ⟨error, heq⟩ | ⟨result, n', offer, -, hresult, horigin, heq⟩ :=
      createOffer_cases nextId capabilities
    · rw [heq]
      refine ⟨h.settled.set (reject_keeps _ error), fun s => ?_⟩
      dsimp only [set]
      by_cases hs : s = side
      · subst hs
        rw [update_self]
        exact hphase s
      · rw [update_of_ne hs]
        exact hphase s
    · have hkeeps := setLocalOrigin_keeps horigin
      have hwrote := wrote_of_setLocalOrigin (h.settled.next side) horigin
      have hcurrent := h.settled.hasCurrent side
      have hagree := h.settled.agree side
      have hacceptable : Acceptable (x.peers side.other) offer := by
        obtain ⟨description, hchecked⟩ := offerDescription_checked hresult
        constructor
        case checked =>
          rw [hcurrent]
          obtain ⟨version, -, -, -, rfl⟩ := setLocalOrigin_some horigin
          exact validateDescription_idem hchecked (fun h => h) _
        case follows =>
          intro hother previousSdp nextSdp
          rw [← hagree]
          exact newRemoteOrigin_of_wrote (h.settled.wrote side (hcurrent ▸ hother))
            (h.settled.next side) horigin previousSdp nextSdp
        case order =>
          intro hother
          have hids := offerDescription_identities (hcurrent ▸ hother) hresult
          rw [keepsMediaOrder_iff, ← hagree]
          obtain ⟨version, -, -, -, rfl⟩ := setLocalOrigin_some horigin
          exact hids
      rw [heq]
      refine ⟨h.settled.set (hkeeps.congr rfl rfl rfl rfl rfl rfl), ?_⟩
      dsimp only [set, PhaseInv, elim_some]
      rw [update_other, update_self]
      exact ⟨⟨rfl, rfl, hwrote.congr rfl rfl rfl⟩, rfl, hphase _, hacceptable⟩
  | _ => exact h

theorem applyOffer_inv (h : Inv x) : Inv (x.step .applyOffer) := by
  have hphase := h.phase
  rw [step]
  cases hx : x.phase with
  | offered side offer =>
    rw [hx] at hphase
    obtain ⟨hoffering, hwire, hstate, hacceptable⟩ := hphase
    dsimp only
    rw [hacceptable.applyOffer (by rw [hstate]; decide)]
    refine ⟨h.settled.set ((keeps_refl _).congr rfl rfl rfl rfl rfl rfl), ?_⟩
    dsimp only [set]
    rw [if_pos rfl, PhaseInv, update_other', update_self]
    exact ⟨hoffering, rfl, hwire.symm⟩
  | _ => exact h

theorem createAnswer_inv (h : Inv x) (nextId : ℕ) (capabilities : SdpSession) (single : Bool) :
    Inv (x.step (.createAnswer nextId capabilities single)) := by
  have hphase := h.phase
  rw [step]
  cases hx : x.phase with
  | applied side =>
    rw [hx] at hphase
    obtain ⟨hoffering, hstate, hwire⟩ := hphase
    dsimp only
    obtain ⟨error, heq⟩ | ⟨result, remote, n', answer, -, hresult, horigin, heq⟩ :=
      createAnswer_cases nextId capabilities single
    · rw [heq]
      refine ⟨h.settled.set (reject_keeps _ error), ?_⟩
      dsimp only [set, PhaseInv, elim_none]
      rw [update_other', update_self]
      exact ⟨hoffering, hstate, hwire⟩
    · have hkeeps := setLocalOrigin_keeps horigin
      have hnext := h.settled.next side.other
      have hwrote := wrote_of_setLocalOrigin hnext horigin
      obtain ⟨description, hchecked, hanswer, heffective⟩ := answerDescription_eq_ok hresult
      rw [hwire] at hanswer heffective
      have haccepted : (x.peers side).acceptAnswer answer = .ok (answer, remote) := by
        have hagree := h.settled.agree side.other
        rw [Side.other_other] at hagree
        have hfollows : (x.peers side).hasCurrent = true → ∀ previousSdp nextSdp,
            newRemoteOrigin (x.peers side).currentRemote.origin answer.origin previousSdp nextSdp =
              true := by
          intro hcurrent previousSdp nextSdp
          rw [← hagree]
          rw [← h.settled.hasCurrent side] at hcurrent
          exact newRemoteOrigin_of_wrote (h.settled.wrote side.other hcurrent) hnext horigin _ _
        obtain ⟨version, -, -, -, rfl⟩ := setLocalOrigin_some horigin
        exact acceptAnswer_of (validateDescription_idem hchecked (fun _ => rfl) _) hanswer
          (fun hcurrent => hfollows hcurrent _ _) heffective
      rw [heq]
      refine ⟨h.settled.set (hkeeps.congr rfl rfl rfl rfl rfl rfl), ?_⟩
      dsimp only [set, PhaseInv, elim_some]
      rw [update_other', update_self]
      exact ⟨hoffering, rfl, rfl, hwrote.congr rfl rfl rfl, haccepted,
        effectiveOffer_origin heffective⟩
  | _ => exact h

theorem applyAnswer_eq (h : Offering n) {answer normalized own : SdpSession}
    (haccepted : n.acceptAnswer answer = .ok (normalized, own)) :
    n.applyAnswer answer = ({ n with
      pendingLocal := own
      pendingRemote := normalized
      pendingRemoteSdp := serialize normalized
      pendingReady := true
      lastError := "" }, true) := by
  have hready : ¬(n.state ≠ .haveLocalOffer ∨ n.pendingReady = true) := by
    simp [h.state, h.pending]
  rw [applyAnswer, if_neg hready, haccepted]

theorem applyAnswer_inv (h : Inv x) : Inv (x.step .applyAnswer) := by
  have hphase := h.phase
  rw [step]
  cases hx : x.phase with
  | answered side answer =>
    rw [hx] at hphase
    obtain ⟨hoffering, hanswered⟩ := hphase
    dsimp only
    rw [applyAnswer_eq hoffering hanswered.accepted]
    refine ⟨h.settled.set ((keeps_refl _).congr rfl rfl rfl rfl rfl rfl), ?_⟩
    dsimp only [set]
    rw [if_pos rfl, PhaseInv]
    have hboth : ∀ s, s = side ∨ s = side.other := by
      intro s
      cases s <;> cases side <;> decide
    intro s
    obtain rfl | rfl := hboth s
    · rw [update_other, update_self]
      refine ⟨rfl, rfl, ?_⟩
      rw [hanswered.origin]
      exact hoffering.wrote.congr rfl rfl rfl
    · rw [Side.other_other, update_other, update_self, hanswered.pendingLocal]
      exact ⟨hanswered.ready, rfl, hanswered.wrote⟩
  | _ => exact h

theorem commit_eq (h : n.pendingReady = true) : n.commit = ({ n with
    currentLocal := n.pendingLocal
    currentRemote := n.pendingRemote
    currentRemoteSdp := n.pendingRemoteSdp
    hasCurrent := true }.rollback, true) := by
  rw [SdpNegotiator.commit, if_neg (by rw [h]; decide)]

theorem commit_inv (h : Inv x) : Inv (x.step .commit) := by
  have hphase := h.phase
  rw [step]
  cases hx : x.phase with
  | ready side =>
    rw [hx] at hphase
    have hpeers := funext fun s => congrArg Prod.fst (commit_eq (hphase s).1)
    rw [hpeers]
    exact ⟨⟨fun _ => rfl, fun s => (hphase s).2.1, fun s _ => (hphase s).2.2.congr rfl rfl rfl,
      h.settled.next⟩, fun _ => rfl⟩
  | _ => exact h

theorem rollback_inv (h : Inv x) : Inv (x.step .rollback) where
  settled := ⟨h.settled.hasCurrent, h.settled.agree,
    fun s hcurrent => (rollback_keeps _).wrote _ (h.settled.wrote s hcurrent), h.settled.next⟩
  phase _ := rfl

theorem step_inv (h : Inv x) (move : Move) : Inv (x.step move) := by
  cases move with
  | createOffer side nextId capabilities => exact createOffer_inv h side nextId capabilities
  | applyOffer => exact applyOffer_inv h
  | createAnswer nextId capabilities single => exact createAnswer_inv h nextId capabilities single
  | applyAnswer => exact applyAnswer_inv h
  | commit => exact commit_inv h
  | rollback => exact rollback_inv h

theorem after_inv (moves : List Move) : Inv (after moves) := by
  refine run_induction ?_ (fun _ move h => step_inv h move) moves
  exact ⟨⟨fun _ => rfl, fun _ => rfl, nofun, fun _ => Nat.two_pow_pos 64⟩, fun _ => rfl⟩

/-! ## Agreement -/

/-- What the moves `moves` leave. -/
structure Agreement (moves : List Move) : Prop where
  /-- An offer that was made is accepted. -/
  offer : ∀ side offer, (after moves).phase = .offered side offer →
    (((after moves).peers side.other).applyOffer offer).2 = true
  /-- An answer that was made is accepted. -/
  answer : ∀ side answer, (after moves).phase = .answered side answer →
    (((after moves).peers side).applyAnswer answer).2 = true
  commit : ∀ side, (after moves).phase = .ready side → ∀ s, ((after moves).peers s).commit.2 = true
  local_remote : ((after moves).peers .a).currentLocal = ((after moves).peers .b).currentRemote
  remote_local : ((after moves).peers .a).currentRemote = ((after moves).peers .b).currentLocal

theorem negotiators_agree (moves : List Move) : Agreement moves := by
  have hinv := after_inv moves
  have hphase := hinv.phase
  constructor
  case offer =>
    intro side offer hoffered
    rw [hoffered] at hphase
    obtain ⟨-, -, hstate, hacceptable⟩ := hphase
    rw [hacceptable.applyOffer (by rw [hstate]; decide)]
  case answer =>
    intro side answer hanswered
    rw [hanswered] at hphase
    rw [applyAnswer_eq hphase.1 hphase.2.accepted]
  case commit =>
    intro side hready s
    rw [hready] at hphase
    rw [commit_eq (hphase s).1]
  case local_remote => exact hinv.settled.agree .a
  case remote_local => exact (hinv.settled.agree .b).symm

end Exchange

end Packetia.Sdp
