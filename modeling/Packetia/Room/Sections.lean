import Packetia.Room.Subscriptions

/-!
# What a call does under the lock of the room

Subscriptions aside, the section of a call under the lock of the room is one of a few changes: a
participant comes in (`World.enroll`) or goes (`World.dismiss`), a track comes (`World.announce`)
or goes (`World.withdraw`), or everything goes (`World.shut`). `Entered` has a case for each of
them, with what must hold for it and what is left to be done after it.
-/

namespace Packetia.Room

variable {ρ : Type*} {idOf : ρ → String} {w w' : World ρ} {media : Media}

namespace Frame

/-- A change of the room that neither reads nor writes the subscriptions. -/
theorem mapRoom (f : Room ρ → Room ρ) (hf : ∀ r subscribers subscriptions,
      f { r with trackSubscribers := subscribers, participantSubscriptions := subscriptions } =
        { f r with trackSubscribers := subscribers, participantSubscriptions := subscriptions })
    (h : Frame w w') : Frame { w with room := f w.room } { w' with room := f w'.room } where
  room := by
    rw [h.room, hf]
  state := h.state
  published := h.published

theorem updateStateLocked (h : Frame w w') : Frame w.updateStateLocked w'.updateStateLocked where
  room := by
    rw [World.updateStateLocked, World.updateStateLocked, h.room]
  state := h.state
  published := h.published

/-- A change of the subscriptions. -/
theorem mapSubscriptions (h : Frame w w') (subscribers subscriptions : Multimap String String) :
    Frame w { w' with room := { w'.room with
      trackSubscribers := subscribers, participantSubscriptions := subscriptions } } where
  room := congrArg (fun r : Room ρ => { r with
    trackSubscribers := subscribers, participantSubscriptions := subscriptions }) h.room
  state := h.state
  published := h.published

end Frame

variable [DecidableEq ρ] (w)

/-- A participant more, under `id`. -/
def World.seat (id : String) (p : ρ) : World ρ :=
  { w with room := { w.room with participants := w.room.participants.set id p } }

/-- A participant more. -/
def World.enroll (id : String) (p : ρ) : World ρ := (w.seat id p).updateStateLocked

/-- The participant and its tracks less. -/
def World.dismiss (id : String) : World ρ :=
  updateStateLocked { w with room := { w.room with
    publishedTracks := (w.tracksWhere fun info => info.publisherId = id).foldl Table.erase
      w.room.publishedTracks
    participants := w.room.participants.erase id } }

/-- A track more. -/
def World.announce (id : String) (p : ρ) (t : String) : World ρ :=
  World.modify { w with room := { w.room with
      nextPublicationId := w.room.nextPublicationId + 1
      publishedTracks := w.room.publishedTracks.set t
        { publicationId := w.room.nextPublicationId + 1, publisherId := id } } }
    p fun x => { x with publishedTracks := x.publishedTracks ++ [t] }

/-- A track less. -/
def World.withdraw (t : String) : World ρ :=
  { w with room := { w.room with publishedTracks := w.room.publishedTracks.erase t } }

/-- Nothing left. -/
def World.shut : World ρ :=
  { w with room := { w.room with
    state := .closed
    participants := .empty
    publishedTracks := .empty
    trackSubscribers := .empty
    participantSubscriptions := .empty
    participantCount := 0 } }

/-- The participants of the room. -/
def World.present : List ρ := w.room.participants.keys.filterMap w.room.participants.find

/-- The outcome of a call that enters the room in `w`. -/
inductive Entered (idOf : ρ → String) (w : World ρ) : Call ρ → Outcome ρ → Prop
  /-- The call is refused. -/
  | refused {call : Call ρ} : Entered idOf w call ⟨w, [], false⟩
  /-- The room is closed already. -/
  | closed : Entered idOf w .close ⟨w, [], true⟩
  | subscribeTrack {s t : String} {w' : World ρ} {result : Bool} (hframe : Frame w w') :
    Entered idOf w (.subscribeTrack s t) ⟨w', [], result⟩
  | unsubscribeTrack {s t : String} {w' : World ρ} {result : Bool} (hframe : Frame w w') :
    Entered idOf w (.unsubscribeTrack s t) ⟨w', [], result⟩
  | join {p : ρ} {w' : World ρ} (hjoin : CanJoinLocked idOf w p)
    (hframe : Frame (w.enroll (idOf p) p) w') : Entered idOf w (.join p) ⟨w', [.setJoined p], true⟩
  | leave {id : String} {p : ρ} {w' : World ρ} (hp : w.room.participants.find id = some p)
    (hframe : Frame (w.dismiss id) w') : Entered idOf w (.leave id) ⟨w', [.leave p], true⟩
  | publishTrack {id t : String} {p : ρ} {w' : World ρ} (ht : t ≠ "")
    (hp : w.room.participants.find id = some p) (hnew : w.room.publishedTracks.find t = none)
    (hreported : t ∉ (w.objects p).publishedTracks) (hframe : Frame (w.announce id p t) w') :
    Entered idOf w (.publishTrack id t) ⟨w', [], true⟩
  | unpublishTrack {t : String} {info : PublishedTrackInfo} {w' : World ρ}
    (hinfo : w.room.publishedTracks.find t = some info) (hframe : Frame (w.withdraw t) w') :
    Entered idOf w (.unpublishTrack t) ⟨w', (w.room.participants.find info.publisherId).toList.map
      fun p => .removePublishedTrack p t, true⟩
  | close (hopen : w.room.state ≠ .closed) :
    Entered idOf w .close ⟨w.shut, w.present.map .leave, true⟩

theorem retractTrack_frame (t : String) : Frame (w.withdraw t) (retractTrack w t) :=
  ((unsubscribeAll_frame w _).mapRoom (fun r =>
    { r with publishedTracks := r.publishedTracks.erase t }) fun _ _ _ => rfl).mapSubscriptions _ _

theorem retractTracks_frame (ts : List String) :
    Frame { w with room := { w.room with
      publishedTracks := ts.foldl Table.erase w.room.publishedTracks } }
      (ts.foldl retractTrack w) := by
  induction ts generalizing w with
  | nil => exact Frame.refl w
  | cons t ts ih =>
    refine Frame.trans ?_ (ih (retractTrack w t))
    exact (retractTrack_frame w t).mapRoom (fun r =>
      { r with publishedTracks := ts.foldl Table.erase r.publishedTracks }) fun _ _ _ => rfl

/-! ## The cases -/

variable (idOf)

theorem join_entered (w : World ρ) (media : Media) (p : ρ) :
    Entered idOf w (.join p) (join idOf media w p) := by
  rw [join]
  split_ifs with hjoin
  · exact .join hjoin (subscribeAll_frame _ media _).updateStateLocked
  · exact .refused

theorem leave_entered (w : World ρ) (id : String) : Entered idOf w (.leave id) (leave w id) := by
  rw [leave]
  cases hp : w.room.participants.find id with
  | none => exact .refused
  | some p =>
    refine .leave hp ?_
    have hframe := unsubscribeAll_frame w
      ((Multimap.members w.room.participantSubscriptions id).map fun t => (id, t))
    have hretract := retractTracks_frame (w.unsubscribeAll
        ((Multimap.members w.room.participantSubscriptions id).map fun t => (id, t)))
      (w.tracksWhere fun info => info.publisherId = id)
    have hremoved := (hframe.mapRoom (fun r => { r with
      publishedTracks := (w.tracksWhere fun info => info.publisherId = id).foldl Table.erase
        r.publishedTracks }) fun _ _ _ => rfl).trans hretract
    rw [World.tracksWhere, hframe.publishedTracks]
    exact (hremoved.mapRoom (fun r => { r with participants := r.participants.erase id })
      fun _ _ _ => rfl).updateStateLocked

/-- The subscriptions that `PublishTrack` asks for. -/
def publishPairs (id t : String) : List (String × String) :=
  (if w.room.autoSubscribe then w.room.participants.keys.filter fun s => s ≠ id else []).map
    fun s => (s, t)

theorem publishTrack_cases (media : Media) (id t : String) :
    publishTrack media w id t = ⟨w, [], false⟩ ∨
    ∃ p, t ≠ "" ∧ w.room.participants.find id = some p ∧ w.room.publishedTracks.find t = none ∧
      t ∉ (w.objects p).publishedTracks ∧ publishTrack media w id t =
        ⟨(w.announce id p t).subscribeAll media (publishPairs w id t), [], true⟩ := by
  rw [publishTrack]
  by_cases ht : t = ""
  · exact .inl (if_pos ht)
  rw [if_neg ht]
  cases hp : w.room.participants.find id with
  | none => exact .inl rfl
  | some p =>
    dsimp only
    by_cases hclosed : w.room.state = .closed
    · exact .inl (if_pos hclosed)
    rw [if_neg hclosed]
    by_cases hnew : w.room.publishedTracks.find t = none
    swap
    · exact .inl (if_pos hnew)
    rw [if_neg (not_not.2 hnew)]
    by_cases hmedia : media.publish = false
    · exact .inl (if_pos hmedia)
    rw [if_neg hmedia, Participant.addPublishedTrack]
    split_ifs with hreported
    · exact .inl rfl
    · exact .inr ⟨p, ht, rfl, hnew, hreported, rfl⟩

theorem publishTrack_entered (w : World ρ) (media : Media) (id t : String) :
    Entered idOf w (.publishTrack id t) (publishTrack media w id t) := by
  rcases publishTrack_cases w media id t with heq | ⟨p, ht, hp, hnew, hreported, heq⟩
  · rw [heq]
    exact .refused
  · rw [heq]
    exact .publishTrack ht hp hnew hreported (subscribeAll_frame _ media _)

theorem unpublishTrack_entered (w : World ρ) (t : String) :
    Entered idOf w (.unpublishTrack t) (unpublishTrack w t) := by
  rw [unpublishTrack]
  split_ifs
  · exact .refused
  · cases hinfo : w.room.publishedTracks.find t with
    | none => exact .refused
    | some info =>
      refine .unpublishTrack hinfo ?_
      exact (unsubscribeAll_frame w _).mapRoom (fun r =>
        { r with publishedTracks := r.publishedTracks.erase t }) fun _ _ _ => rfl

theorem enter_entered (w : World ρ) (media : Media) (call : Call ρ) :
    Entered idOf w call (call.enter idOf media w) := by
  cases call with
  | join p => exact join_entered idOf w media p
  | leave id => exact leave_entered idOf w id
  | publishTrack id t => exact publishTrack_entered idOf w media id t
  | unpublishTrack t => exact unpublishTrack_entered idOf w t
  | subscribeTrack s t => exact .subscribeTrack (subscribeTrackLocked_frame w media s t)
  | unsubscribeTrack s t => exact .unsubscribeTrack (unsubscribeTrackLocked_frame w s t)
  | close =>
    rw [Call.enter, close]
    split_ifs with hclosed
    · exact .closed
    · exact .close hclosed

end Packetia.Room
