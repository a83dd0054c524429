import Packetia.Lib.Partial
import Packetia.Sdp.Negotiator

/-!
# Descriptions that mirror each other

An answer that is accepted and the offer as it is left by it mirror each other, m-line by m-line
(`Mirror`): the checks of the answer and the projection of the offer give this together
(`effectiveOffer_mirror`). The m-lines keep their identity, which is their mid, kind and protocol.
-/

namespace Packetia.Sdp

open List Option RtpCodecParameters

@[simp] theorem reverse_reverse (d : MediaDirection) : reverse (reverse d) = d := by
  cases d <;> rfl

/-! ## Identities of m-lines -/

def SdpMedia.identity (media : SdpMedia) : Text × Text × Text :=
  (media.mid, media.media, media.proto)

def identities (description : SdpSession) : List (Text × Text × Text) :=
  description.medias.map SdpMedia.identity

theorem sameMediaIdentity_iff {a b : SdpMedia} :
    sameMediaIdentity a b = true ↔ a.identity = b.identity := by
  simp [sameMediaIdentity, SdpMedia.identity, and_assoc]

theorem keepsMediaOrder_iff {previous next : SdpSession} :
    keepsMediaOrder previous next = true ↔ identities previous <+: identities next := by
  rw [keepsMediaOrder, identities, identities]
  generalize previous.medias = l
  generalize next.medias = l'
  induction l generalizing l' with
  | nil => simp
  | cons a l ih =>
    cases l' with
    | nil => simp
    | cons b l' =>
      rw [map_cons, map_cons, cons_prefix_cons, ← ih, ← sameMediaIdentity_iff]
      simp [and_left_comm]

/-! ## The mirror relation -/

structure MediaMirror (a b : SdpMedia) : Prop where
  direction : a.direction = reverse b.direction
  fmts : a.fmts = b.fmts
  payloadTypes : a.codecs.map payloadType = b.codecs.map payloadType
  extensions : a.headerExtensions.map (fun x => (x.id, x.uri, x.direction)) =
    b.headerExtensions.map fun x => (x.id, x.uri, reverse x.direction)
  port : a.port = 0 ↔ b.port = 0
  /-- One side is active and the other one passive. -/
  roles : a.port ≠ 0 → a.dtls.setup = .active ∧ b.dtls.setup = .passive ∨
    a.dtls.setup = .passive ∧ b.dtls.setup = .active

theorem MediaMirror.symm {a b : SdpMedia} (h : MediaMirror a b) : MediaMirror b a where
  direction := by rw [h.direction, reverse_reverse]
  fmts := h.fmts.symm
  payloadTypes := h.payloadTypes.symm
  extensions := by
    have hmap := congrArg (List.map fun x : ℤ × Text × MediaDirection =>
      (x.1, x.2.1, reverse x.2.2)) h.extensions
    simpa [Function.comp_def] using hmap.symm
  port := h.port.symm
  roles hport := (h.roles fun ha => hport (h.port.1 ha)).symm.imp And.symm And.symm

/-- The m-lines of two descriptions mirror each other, at every index. -/
def Mirror (a b : SdpSession) : Prop := List.Forall₂ MediaMirror a.medias b.medias

theorem Mirror.symm {a b : SdpSession} (h : Mirror a b) : Mirror b a :=
  h.flip.imp fun _ _ => MediaMirror.symm

/-! ## Checks of a description -/

variable {allowEmpty : Bool} {result : SdpSession} {description : SdpSession}

section Validate

variable {description : SdpSession} {answer : Bool} {st st' : Validation} {media : SdpMedia}

/-- What a round of the loop does: an m-line that is not active stays as it is, and so does one
    that is unknown; the others inherit the transport of the session. -/
theorem validateMedia_eq_ok (h : validateMedia description answer st media = .ok st') :
    checkLine description answer st.mids media = .ok () ∧
    ((isActive media = false ∨ isActive media = true ∧ rtpMedia media = false ∧ answer = false) ∧
      st' = { st with mids := media.mid :: st.mids, medias := st.medias ++ [media] } ∨
    isActive media = true ∧ rtpMedia media = true ∧
      checkProfile description media = .ok () ∧
      checkTransport answer st.transport (inheritTransport media description) = .ok () ∧
      checkCodecs media = .ok () ∧
      ∃ headerExtensions, checkExtensions media = .ok headerExtensions ∧
        st' = { st with
          mids := media.mid :: st.mids
          transport := some { inheritTransport media description with headerExtensions }
          active := st.active + 1
          medias := st.medias ++
            [{ inheritTransport media description with headerExtensions }] }) := by
  rw [validateMedia, bind_eq_ok] at h
  obtain ⟨_, hline, h⟩ := h
  refine ⟨hline, ?_⟩
  split_ifs at h with hactive hrtp
  · cases h
    exact .inl ⟨.inl hactive, rfl⟩
  all_goals have hactive' := eq_true_of_ne_false hactive
  · obtain ⟨hanswer, h⟩ := require_bind_eq_ok.1 h
    cases h
    exact .inl ⟨.inr ⟨hactive', hrtp, by simpa using hanswer⟩, rfl⟩
  obtain ⟨_, hprofile, h⟩ := bind_eq_ok.1 h
  obtain ⟨_, htransport, h⟩ := bind_eq_ok.1 h
  obtain ⟨_, hcodecs, h⟩ := bind_eq_ok.1 h
  obtain ⟨extensions, hextensions, h⟩ := bind_eq_ok.1 h
  cases h
  exact .inr ⟨hactive', eq_true_of_ne_false hrtp, hprofile, htransport, hcodecs, extensions,
    hextensions, rfl⟩

section

variable (h : validateDescription description answer allowEmpty = .ok result)
include h

theorem validateDescription_eq_ok :
    ∃ st, description.medias.foldlM (validateMedia description answer) {} = .ok st ∧
      result = { description with profile := .webRtc, medias := st.medias } := by
  rw [validateDescription, require_bind_eq_ok] at h
  obtain ⟨st, hst, h⟩ := bind_eq_ok.1 h.2
  obtain ⟨-, h⟩ := require_bind_eq_ok.1 h
  obtain ⟨-, h⟩ := require_bind_eq_ok.1 h
  cases h
  exact ⟨st, hst, rfl⟩

theorem validateDescription_identities : identities result = identities description := by
  obtain ⟨st, hst, rfl⟩ := validateDescription_eq_ok h
  refine foldlM_ok_induction (P := fun l st =>
    st.medias.map SdpMedia.identity = l.map SdpMedia.identity) rfl ?_ hst
  intro l media st st' ih hround
  obtain ⟨-, ⟨-, rfl⟩ | ⟨-, -, -, -, -, extensions, -, rfl⟩⟩ := validateMedia_eq_ok hround
  · rw [map_append, map_append, ih]
  · rw [map_append, map_append, ih]
    rfl

end

/-- An answer that is checked has a role for each m-line with a port. -/
theorem answer_roles (h : validateDescription description true allowEmpty = .ok result) :
    ∀ media ∈ result.medias, media.port ≠ 0 →
      media.dtls.setup = .active ∨ media.dtls.setup = .passive := by
  obtain ⟨st, hst, rfl⟩ := validateDescription_eq_ok h
  refine foldlM_ok_induction (P := fun _ st => ∀ media ∈ st.medias, media.port ≠ 0 →
    media.dtls.setup = .active ∨ media.dtls.setup = .passive) ?_ ?_ hst
  · exact nofun
  · intro l media st st' hroles hround
    obtain ⟨-, ⟨hkind, rfl⟩ | ⟨-, -, -, htransport, -, extensions, -, rfl⟩⟩ :=
      validateMedia_eq_ok hround <;> refine forall_mem_concat.2 ⟨hroles, fun hport => ?_⟩
    · -- An answer has no unknown media, so the m-line is one that is not active.
      obtain hactive | ⟨-, -, hanswer⟩ := hkind
      · simp [isActive, hport] at hactive
      · cases hanswer
    · rw [checkTransport, require_bind_eq_ok, require_bind_eq_ok] at htransport
      simpa using (Bool.and_eq_true_iff.1 htransport.2.1).2

end Validate

/-! ## The offer as it is left -/

theorem negotiate_payloadType {remote own codec : RtpCodecParameters}
    (h : negotiate remote own = some codec) : codec.payloadType = remote.payloadType := by
  simp only [negotiate, bind_eq_bind, bind_eq_some_iff] at h
  obtain ⟨_, -, _, -, _, -, answer, -, h⟩ := h
  cases h
  rfl

theorem effectiveCodec_payloadType {offered : List RtpCodecParameters}
    {codec result : RtpCodecParameters} (h : effectiveCodec offered codec = some result) :
    result.payloadType = codec.payloadType := by
  simp only [effectiveCodec, bind_eq_bind, bind_eq_some_iff] at h
  obtain ⟨original, -, effective, hnegotiate, h⟩ := h
  have hpayload := negotiate_payloadType hnegotiate
  cases h
  exact hpayload

/-- Payload types are kept, codec by codec. -/
theorem effectiveCodecs_payloadTypes {offered codecs results : List RtpCodecParameters}
    (h : codecs.mapM (effectiveCodec offered) = some results) :
    results.map payloadType = codecs.map payloadType :=
  map_eq_of_forall₂ (fun _ _ => effectiveCodec_payloadType) (mapM_eq_some.1 h)

theorem effectiveMedia_identity {media selected result : SdpMedia}
    (h : effectiveMedia media selected = some result) : result.identity = media.identity := by
  simp only [effectiveMedia, bind_eq_bind, bind_eq_some_iff] at h
  obtain ⟨codecs, -, h⟩ := h
  cases h
  rfl

/-- The m-line of an offer mirrors the one of the answer that it is left by. -/
theorem effectiveMedia_mirror {media selected result : SdpMedia}
    (h : effectiveMedia media selected = some result)
    (hroles : selected.port ≠ 0 → selected.dtls.setup = .active ∨ selected.dtls.setup = .passive) :
    MediaMirror result selected := by
  simp only [effectiveMedia, bind_eq_bind, bind_eq_some_iff] at h
  obtain ⟨codecs, hcodecs, h⟩ := h
  have hpayloads := effectiveCodecs_payloadTypes hcodecs
  cases h
  have hport : (if selected.port = 0 then 0 else if media.port = 0 then 9 else media.port) = 0 ↔
      selected.port = 0 := by
    split_ifs with hselected hmedia
    · exact iff_of_true rfl hselected
    · exact iff_of_false (by decide) hselected
    · exact iff_of_false hmedia hselected
  constructor
  case direction => rfl
  case fmts => rfl
  case payloadTypes => exact hpayloads
  case extensions =>
    rw [List.map_map]
    rfl
  case port => exact hport
  case roles =>
    intro hne
    rw [if_pos hne]
    obtain hrole | hrole := hroles fun h => hne (hport.2 h)
    · exact .inr ⟨by rw [hrole]; rfl, hrole⟩
    · exact .inl ⟨by rw [hrole]; rfl, hrole⟩

variable {offer : SdpSession} {answer : SdpSession}

/-- The m-lines of the offer as it is left, one for each pair. -/
theorem effectiveOffer_eq_some {offer result : SdpSession}
    (h : effectiveOffer offer answer = some result) :
    List.Forall₂ (fun pair media => effectiveMedia pair.1 pair.2 = some media)
      (offer.medias.zip answer.medias) result.medias := by
  simp only [effectiveOffer, bind_eq_bind, bind_eq_some_iff] at h
  obtain ⟨medias, hmedias, h⟩ := h
  cases h
  exact mapM_eq_some.1 hmedias

theorem effectiveOffer_mirror
    (hanswer : validateDescription description true allowEmpty = .ok answer)
    (hlength : offer.medias.length = answer.medias.length)
    (h : effectiveOffer offer answer = some result) : Mirror result answer := by
  have hroles := answer_roles hanswer
  have hmedias := effectiveOffer_eq_some h
  rw [Mirror]
  generalize result.medias = results at hmedias
  generalize offer.medias = offered at hmedias hlength
  generalize answer.medias = selected at hmedias hlength hroles
  induction offered generalizing results selected with
  | nil =>
    cases length_eq_zero_iff.1 hlength.symm
    cases hmedias
    exact .nil
  | cons a offered ih =>
    cases selected with
    | nil => cases hlength
    | cons b selected =>
      obtain ⟨media, rest, hmedia, hrest, rfl⟩ := forall₂_cons_left_iff.1 hmedias
      rw [forall_mem_cons] at hroles
      exact .cons (effectiveMedia_mirror hmedia hroles.1)
        (ih rest selected hrest (Nat.succ.inj hlength) hroles.2)

theorem effectiveOffer_identities (hlength : offer.medias.length = answer.medias.length)
    (h : effectiveOffer offer answer = some result) : identities result = identities offer := by
  have hmap : result.medias.map SdpMedia.identity =
      (offer.medias.zip answer.medias).map (SdpMedia.identity ∘ Prod.fst) :=
    map_eq_of_forall₂ (fun _ _ hmedia => effectiveMedia_identity hmedia)
      (effectiveOffer_eq_some h)
  rw [identities, identities, hmap, ← List.map_map, List.map_fst_zip hlength.le]

/-- An answer lists the m-lines of its offer. -/
theorem validateAnswer_identities {u : Unit} (h : validateAnswer offer answer = .ok u) :
    offer.medias.length = answer.medias.length ∧ identities offer = identities answer := by
  rw [validateAnswer, require_bind_eq_ok, Bool.and_eq_true, decide_eq_true_eq] at h
  obtain ⟨⟨hlength, horder⟩, -⟩ := h
  refine ⟨hlength, (keepsMediaOrder_iff.1 horder).eq_of_length ?_⟩
  rw [identities, identities, length_map, length_map, hlength]

end Packetia.Sdp
