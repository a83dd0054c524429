import Packetia.Room.Room

/-!
# Subscriptions as a relation

Who is subscribed to what is kept in three places: by track, by participant, and in the objects of
the participants. They agree if all three are the same relation (`Agrees`). Subscribing adds a pair
to the relation, and ending a subscription takes one away; nothing else of the room changes
(`Frame`).
-/

namespace Packetia.Room

open Multimap World List Function

variable {ρ : Type*} {idOf : ρ → String} {w w' w'' : World ρ} {R : String → String → Prop}
  {media : Media}

/-- The room differs in its subscriptions only. -/
structure Frame (w w' : World ρ) : Prop where
  room : w'.room = { w.room with
    trackSubscribers := w'.room.trackSubscribers
    participantSubscriptions := w'.room.participantSubscriptions }
  state : ∀ p, (w'.objects p).state = (w.objects p).state
  published : ∀ p, (w'.objects p).publishedTracks = (w.objects p).publishedTracks

namespace Frame

theorem refl (w : World ρ) : Frame w w := ⟨rfl, fun _ => rfl, fun _ => rfl⟩

section

variable (h : Frame w w')
include h

theorem trans (h' : Frame w' w'') : Frame w w'' where
  room := by
    rw [h'.room, h.room]
  state p := (h'.state p).trans (h.state p)
  published p := (h'.published p).trans (h.published p)

theorem participants : w'.room.participants = w.room.participants := by rw [h.room]

theorem publishedTracks : w'.room.publishedTracks = w.room.publishedTracks := by rw [h.room]

theorem autoSubscribe : w'.room.autoSubscribe = w.room.autoSubscribe := by rw [h.room]

theorem roomState : w'.room.state = w.room.state := by rw [h.room]

end

end Frame

/-- Participants are kept under their ids. -/
def Named (idOf : ρ → String) (w : World ρ) : Prop :=
  ∀ id p, w.room.participants.find id = some p → idOf p = id

theorem Named.frame (h : Named idOf w) (hframe : Frame w w') : Named idOf w' := by
  rw [Named, hframe.participants]
  exact h

/-- The three places have the subscriptions `R`. -/
structure Agrees (idOf : ρ → String) (w : World ρ) (R : String → String → Prop) : Prop where
  byTrack : ∀ s t, s ∈ members w.room.trackSubscribers t ↔ R s t
  byParticipant : ∀ s t, t ∈ members w.room.participantSubscriptions s ↔ R s t
  reported : ∀ p t, t ∈ (w.objects p).subscribedTrackIds ↔
    w.room.participants.find (idOf p) = some p ∧ R (idOf p) t

theorem Agrees.congr {R' : String → String → Prop} (h : Agrees idOf w R)
    (hR : ∀ s t, R s t ↔ R' s t) : Agrees idOf w R' := by
  have heq : R = R' := funext fun s => funext fun t => propext (hR s t)
  rwa [← heq]

variable [DecidableEq ρ] {f : Participant → Participant}

/-! ## Methods of a participant -/

@[simp] theorem World.room_modify (p : ρ) (f : Participant → Participant) :
    (w.modify p f).room = w.room := rfl

@[simp] theorem World.objects_modify_self (p : ρ) (f : Participant → Participant) :
    (w.modify p f).objects p = f (w.objects p) := update_self ..

theorem World.objects_modify_of_ne {p q : ρ} (h : q ≠ p) (f : Participant → Participant) :
    (w.modify p f).objects q = w.objects q := update_of_ne h ..

/-- What a method leaves alone. -/
theorem World.objects_modify_apply {β : Type*}
    (g : Participant → β) (hg : ∀ x, g (f x) = g x) (p q : ρ) :
    g ((w.modify p f).objects q) = g (w.objects q) := by
  by_cases hq : q = p
  · rw [hq, objects_modify_self, hg]
  · rw [objects_modify_of_ne hq]

/-- A method that leaves the state and the published tracks of a participant alone. -/
theorem Frame.modify (p : ρ) (hstate : ∀ x, (f x).state = x.state)
    (hpublished : ∀ x, (f x).publishedTracks = x.publishedTracks) (h : Frame w w') :
    Frame w (w'.modify p f) where
  room := h.room
  state q := (objects_modify_apply Participant.state hstate p q).trans (h.state q)
  published q :=
    (objects_modify_apply Participant.publishedTracks hpublished p q).trans (h.published q)

/-! ## Ending subscriptions -/

theorem unsubscribeTrackLocked_frame (w : World ρ) (s t : String) :
    Frame w (w.unsubscribeTrackLocked s t) := by
  have hroom : Frame w { w with room := { w.room with
      trackSubscribers := remove w.room.trackSubscribers t s
      participantSubscriptions := remove w.room.participantSubscriptions s t } } :=
    ⟨rfl, fun _ => rfl, fun _ => rfl⟩
  rw [World.unsubscribeTrackLocked]
  cases w.room.participants.find s with
  | none => exact hroom
  | some p => exact Frame.modify p (fun _ => rfl) (fun _ => rfl) hroom

theorem unsubscribeTrackLocked_agrees (h : Agrees idOf w R) (hnamed : Named idOf w) (s t : String) :
    Agrees idOf (w.unsubscribeTrackLocked s t) fun a b => R a b ∧ ¬(a = s ∧ b = t) := by
  have hframe := unsubscribeTrackLocked_frame w s t
  have hmaps : (w.unsubscribeTrackLocked s t).room.trackSubscribers =
        remove w.room.trackSubscribers t s ∧
      (w.unsubscribeTrackLocked s t).room.participantSubscriptions =
        remove w.room.participantSubscriptions s t := by
    rw [World.unsubscribeTrackLocked]
    cases w.room.participants.find s <;> exact ⟨rfl, rfl⟩
  constructor
  · intro a b
    rw [hmaps.1, mem_members_remove, h.byTrack, and_comm (a := b = t)]
  · intro a b
    rw [hmaps.2, mem_members_remove, h.byParticipant]
  · intro p b
    rw [hframe.participants]
    -- Only the object that is in the room under this id is changed.
    have hobject : ((w.unsubscribeTrackLocked s t).objects p).subscribedTrackIds =
        if w.room.participants.find s = some p then
          (w.objects p).subscribedTrackIds.filter fun x => x ≠ t
        else (w.objects p).subscribedTrackIds := by
      rw [World.unsubscribeTrackLocked]
      cases w.room.participants.find s with
      | none => rfl
      | some q =>
        by_cases hq : q = p
        · subst hq
          rw [if_pos rfl, objects_modify_self]
          rfl
        · rw [if_neg (by simpa using hq), objects_modify_of_ne (Ne.symm hq)]
    rw [hobject]
    split_ifs with hs
    · rw [mem_filter, h.reported, hnamed s p hs]
      simp [hs]
    · rw [h.reported]
      refine and_congr_right fun hp => (and_iff_left ?_).symm
      rintro ⟨rfl, -⟩
      exact hs hp

theorem unsubscribeAll_frame (w : World ρ) (pairs : List (String × String)) :
    Frame w (w.unsubscribeAll pairs) := by
  induction pairs generalizing w with
  | nil => exact Frame.refl w
  | cons pair rest ih => exact (unsubscribeTrackLocked_frame w pair.1 pair.2).trans (ih _)

theorem unsubscribeAll_agrees (hnamed : Named idOf w) (h : Agrees idOf w R)
    (pairs : List (String × String)) :
    Agrees idOf (w.unsubscribeAll pairs) fun a b => R a b ∧ (a, b) ∉ pairs := by
  induction pairs generalizing w R with
  | nil => exact h.congr fun a b => (and_iff_left not_mem_nil).symm
  | cons pair rest ih =>
    obtain ⟨s, t⟩ := pair
    have hagrees := ih (hnamed.frame (unsubscribeTrackLocked_frame w s t))
      (unsubscribeTrackLocked_agrees h hnamed s t)
    refine hagrees.congr fun a b => ?_
    rw [mem_cons, not_or, Prod.mk.injEq, and_assoc]

/-! ## Subscribing -/

/-- The conditions of `SubscribeTrackLocked`. -/
def Allowed (w : World ρ) (media : Media) (s t : String) : Prop :=
  s ≠ "" ∧ t ≠ "" ∧ w.room.participants.find s ≠ none ∧
    (∃ info, w.room.publishedTracks.find t = some info ∧ info.publisherId ≠ s ∧
      w.room.participants.find info.publisherId ≠ none) ∧ media.subscribe s t = true

omit [DecidableEq ρ] in
theorem Allowed.frame (hframe : Frame w w') {s t : String} :
    Allowed w' media s t ↔ Allowed w media s t := by
  rw [Allowed, Allowed, hframe.participants, hframe.publishedTracks]

/-- What `SubscribeTrackLocked` can do: nothing, make an empty entry, or subscribe. -/
theorem subscribeTrackLocked_cases (w : World ρ) (media : Media) (s t : String) :
    w.subscribeTrackLocked media s t = (w, false) ∧ ¬Allowed w media s t ∨
    w.subscribeTrackLocked media s t = ({ w with room := { w.room with
        trackSubscribers := touch w.room.trackSubscribers t } }, false) ∧
      (¬Allowed w media s t ∨ s ∈ members w.room.trackSubscribers t) ∨
    ∃ p, w.room.participants.find s = some p ∧ Allowed w media s t ∧
      w.subscribeTrackLocked media s t = (World.modify { w with room := { w.room with
        trackSubscribers := add (touch w.room.trackSubscribers t) t s
        participantSubscriptions := add w.room.participantSubscriptions s t } }
        p (·.subscribeTrack t), true) := by
  rw [World.subscribeTrackLocked]
  split
  · rename_i hempty
    exact .inl ⟨rfl, fun h => hempty.elim h.1 h.2.1⟩
  rename_i hempty
  rw [not_or] at hempty
  cases hs : w.room.participants.find s with
  | none => exact .inl ⟨rfl, fun h => h.2.2.1 hs⟩
  | some p =>
    cases ht : w.room.publishedTracks.find t with
    | none =>
      refine .inl ⟨rfl, fun h => ?_⟩
      obtain ⟨info, hinfo, -⟩ := h.2.2.2.1
      cases ht.symm.trans hinfo
    | some track =>
      dsimp only
      rw [members_touch]
      split_ifs with hself hmember hpublisher hmedia
      · refine .inl ⟨rfl, fun h => ?_⟩
        obtain ⟨info, hinfo, hne, -⟩ := h.2.2.2.1
        cases ht.symm.trans hinfo
        exact hne hself
      · exact .inr (.inl ⟨rfl, .inr hmember⟩)
      · refine .inr (.inl ⟨rfl, .inl fun h => ?_⟩)
        obtain ⟨info, hinfo, -, hfind⟩ := h.2.2.2.1
        cases ht.symm.trans hinfo
        exact hfind hpublisher
      · exact .inr (.inl ⟨rfl, .inl fun h => by cases hmedia.symm.trans h.2.2.2.2⟩)
      · exact .inr (.inr ⟨p, rfl, ⟨hempty.1, hempty.2, by simp [hs],
          ⟨track, ht, hself, hpublisher⟩, Bool.not_eq_false _ ▸ hmedia⟩, rfl⟩)

theorem subscribeTrackLocked_frame (w : World ρ) (media : Media) (s t : String) :
    Frame w (w.subscribeTrackLocked media s t).1 := by
  rcases subscribeTrackLocked_cases w media s t with ⟨h, -⟩ | ⟨h, -⟩ | ⟨p, -, -, h⟩ <;> rw [h]
  · exact Frame.refl w
  · exact ⟨rfl, fun _ => rfl, fun _ => rfl⟩
  · dsimp only
    refine Frame.modify p (fun x => ?_) (fun x => ?_) ⟨rfl, fun _ => rfl, fun _ => rfl⟩ <;>
      rw [Participant.subscribeTrack] <;>
      split_ifs <;>
      rfl

theorem mem_subscribeTrack {x : Participant} {t b : String} :
    b ∈ (x.subscribeTrack t).subscribedTrackIds ↔ b ∈ x.subscribedTrackIds ∨ b = t := by
  rw [Participant.subscribeTrack]
  split_ifs with h
  · exact ⟨.inl, fun hb => hb.elim id fun hb => hb ▸ h⟩
  · simp

theorem subscribeTrackLocked_agrees (h : Agrees idOf w R) (hnamed : Named idOf w) (media : Media)
    (s t : String) : Agrees idOf (w.subscribeTrackLocked media s t).1
      fun a b => R a b ∨ (a = s ∧ b = t) ∧ Allowed w media a b := by
  rcases subscribeTrackLocked_cases w media s t with
    ⟨hw, hno⟩ | ⟨hw, hno⟩ | ⟨p, hp, hallowed, hw⟩ <;> rw [hw]
  · refine h.congr fun a b => (or_iff_left ?_).symm
    rintro ⟨⟨rfl, rfl⟩, hallowed⟩
    exact hno hallowed
  · have hR : ∀ a b, R a b ↔ R a b ∨ (a = s ∧ b = t) ∧ Allowed w media a b := by
      refine fun a b => (or_iff_left_of_imp ?_).symm
      rintro ⟨⟨rfl, rfl⟩, hallowed⟩
      exact (h.byTrack a b).1 (hno.resolve_left (not_not.2 hallowed))
    refine Agrees.congr ⟨fun a b => ?_, h.byParticipant, h.reported⟩ hR
    rw [members_touch, h.byTrack]
  · have hR : ∀ a b, (R a b ∨ a = s ∧ b = t) ↔ R a b ∨ (a = s ∧ b = t) ∧ Allowed w media a b := by
      refine fun a b => or_congr_right ⟨fun hab => ⟨hab, ?_⟩, And.left⟩
      rw [hab.1, hab.2]
      exact hallowed
    refine Agrees.congr ⟨fun a b => ?_, fun a b => ?_, fun q b => ?_⟩ hR
    · rw [room_modify, mem_members_add, members_touch, h.byTrack, and_comm]
    · rw [room_modify, mem_members_add, h.byParticipant]
    · by_cases hq : q = p
      · subst hq
        rw [objects_modify_self, mem_subscribeTrack, h.reported, room_modify, hnamed s q hp]
        simp [hp]
      · rw [objects_modify_of_ne hq, room_modify, h.reported]
        refine and_congr_right fun hfind => (or_iff_left ?_).symm
        rintro ⟨hqs, -⟩
        rw [hqs, hp] at hfind
        exact hq (Option.some.inj hfind).symm

/-- An allowed subscription is refused only if it is there. -/
theorem subscribeTrackLocked_refused (h : Agrees idOf w R) {s t : String}
    (hrefused : (w.subscribeTrackLocked media s t).2 ≠ true) (hallowed : Allowed w media s t) :
    R s t := by
  rcases subscribeTrackLocked_cases w media s t with ⟨-, hno⟩ | ⟨-, hno⟩ | ⟨p, -, -, hw⟩
  · exact absurd hallowed hno
  · exact (h.byTrack s t).1 (hno.resolve_left (not_not.2 hallowed))
  · exact absurd (congrArg Prod.snd hw) hrefused

theorem subscribeAll_frame (w : World ρ) (media : Media) (pairs : List (String × String)) :
    Frame w (w.subscribeAll media pairs) := by
  induction pairs generalizing w with
  | nil => exact Frame.refl w
  | cons pair rest ih => exact (subscribeTrackLocked_frame w media pair.1 pair.2).trans (ih _)

theorem subscribeAll_agrees (hnamed : Named idOf w) (h : Agrees idOf w R) (media : Media)
    (pairs : List (String × String)) : Agrees idOf (w.subscribeAll media pairs)
      fun a b => R a b ∨ (a, b) ∈ pairs ∧ Allowed w media a b := by
  induction pairs generalizing w R with
  | nil => exact h.congr fun a b => (or_iff_left fun hab => not_mem_nil hab.1).symm
  | cons pair rest ih =>
    obtain ⟨s, t⟩ := pair
    have hframe := subscribeTrackLocked_frame w media s t
    have hagrees := ih (hnamed.frame hframe) (subscribeTrackLocked_agrees h hnamed media s t)
    refine hagrees.congr fun a b => ?_
    rw [Allowed.frame hframe, mem_cons, Prod.mk.injEq, or_and_right, or_assoc]

end Packetia.Room
