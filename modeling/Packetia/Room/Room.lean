import Packetia.Lib.Multimap
import Packetia.Lib.Run

/-!
# Rooms

`Room` and `Participant` (`Room/Room.cpp`, `Room/Participant.cpp`). A room keeps who is in it, the
tracks they publish, and who is subscribed to which track, the latter twice: by track and by
participant. A participant is an object of its own, which keeps the tracks it publishes and those
it is subscribed to as well.

A call on a room does most of its work under the lock of the room (`Call.enter`). What it does to
a participant after that, under the lock of the participant, are its `Tail`s. A call that nobody
interferes with runs its tails at once (`step`).

`ρ` is the type of references to participants, and `idOf` the id of a participant, which never
changes. Media endpoints answer whether a track can be published or subscribed to (`Media`).
Events, callbacks and time stamps are not part of the model.
-/

namespace Packetia.Room

open Multimap

/-! ## Participants -/

inductive ParticipantState
  | joining
  | joined
  | active
  | disconnected
  | reconnecting
  deriving DecidableEq

/-- A participant, with the tracks it reports. -/
structure Participant where
  state : ParticipantState := .joining
  publishedTracks : List String := []
  subscribedTrackIds : List String := []

namespace Participant

variable (p : Participant)

def setState (state : ParticipantState) : Participant := { p with state }

variable (trackId : String)

/-- `AddPublishedTrack`: nothing, if the track is there. -/
def addPublishedTrack : Option Participant :=
  if trackId ∈ p.publishedTracks then none
  else some { p with publishedTracks := p.publishedTracks ++ [trackId] }

def removePublishedTrack : Participant :=
  { p with publishedTracks := p.publishedTracks.filter fun t => t ≠ trackId }

def subscribeTrack : Participant :=
  if trackId ∈ p.subscribedTrackIds then p
  else { p with subscribedTrackIds := p.subscribedTrackIds ++ [trackId] }

def unsubscribeTrack : Participant :=
  { p with subscribedTrackIds := p.subscribedTrackIds.filter fun t => t ≠ trackId }

def leave : Participant :=
  if p.state = .disconnected then p
  else { state := .disconnected, publishedTracks := [], subscribedTrackIds := [] }

end Participant

/-! ## Rooms -/

inductive RoomState
  | created
  | active
  | empty
  | closed
  deriving DecidableEq

structure PublishedTrackInfo where
  publicationId : ℕ
  publisherId : String

structure Room (ρ : Type*) where
  /-- No limit if it is zero. -/
  maxParticipants : ℕ
  autoSubscribe : Bool
  state : RoomState := .created
  participantCount : ℕ := 0
  nextPublicationId : ℕ := 0
  participants : Table String ρ := .empty
  publishedTracks : Table String PublishedTrackInfo := .empty
  trackSubscribers : Multimap String String := .empty
  participantSubscriptions : Multimap String String := .empty

/-- A room and all participants, in the room or not. -/
structure World (ρ : Type*) where
  room : Room ρ
  objects : ρ → Participant

/-- What the media endpoints answer during a call. Without endpoints they do not object. -/
structure Media where
  publish : Bool
  subscribe : (subscriberId trackId : String) → Bool

/-- What a call does after it has released the lock of the room. -/
inductive Tail (ρ : Type*)
  | setJoined (p : ρ)
  | leave (p : ρ)
  | removePublishedTrack (p : ρ) (trackId : String)
  deriving DecidableEq

variable {ρ : Type*} [DecidableEq ρ]

namespace World

variable (w : World ρ)

/-- A method of a participant, under its lock. -/
def modify (p : ρ) (f : Participant → Participant) : World ρ :=
  { w with objects := Function.update w.objects p (f (w.objects p)) }

/-- `UpdateStateLocked`. The count has 32 bits. -/
def updateStateLocked : World ρ :=
  { w with room := { w.room with
      participantCount := w.room.participants.size % 2 ^ 32
      state := if w.room.state = .closed then .closed
        else if w.room.participants.size = 0 then .empty else .active } }

def subscribeTrackLocked (media : Media) (subscriberId trackId : String) : World ρ × Bool :=
  if subscriberId = "" ∨ trackId = "" then (w, false)
  else
    match w.room.participants.find subscriberId, w.room.publishedTracks.find trackId with
    | some subscriber, some track =>
      if track.publisherId = subscriberId then (w, false)
      else
        let w := { w with room := { w.room with
          trackSubscribers := touch w.room.trackSubscribers trackId } }
        if subscriberId ∈ members w.room.trackSubscribers trackId then (w, false)
        else if w.room.participants.find track.publisherId = none then (w, false)
        else if media.subscribe subscriberId trackId = false then (w, false)
        else
          let w := { w with room := { w.room with
            trackSubscribers := add w.room.trackSubscribers trackId subscriberId
            participantSubscriptions := add w.room.participantSubscriptions subscriberId trackId } }
          (w.modify subscriber (·.subscribeTrack trackId), true)
    | _, _ => (w, false)

def unsubscribeTrackLocked (subscriberId trackId : String) : World ρ :=
  let w := { w with room := { w.room with
    trackSubscribers := remove w.room.trackSubscribers trackId subscriberId
    participantSubscriptions := remove w.room.participantSubscriptions subscriberId trackId } }
  match w.room.participants.find subscriberId with
  | none => w
  | some subscriber => w.modify subscriber (·.unsubscribeTrack trackId)

/-- A loop that subscribes to tracks. -/
def subscribeAll (media : Media) (pairs : List (String × String)) : World ρ :=
  pairs.foldl (fun w pair => (w.subscribeTrackLocked media pair.1 pair.2).1) w

/-- A loop that ends subscriptions. -/
def unsubscribeAll (pairs : List (String × String)) : World ρ :=
  pairs.foldl (fun w pair => w.unsubscribeTrackLocked pair.1 pair.2) w

/-- The tracks that pass a test, in the order of the table. -/
def tracksWhere (test : PublishedTrackInfo → Bool) : List String :=
  w.room.publishedTracks.keys.filter fun t => (w.room.publishedTracks.find t).any test

end World

/-! ## Calls -/

/-- What is left of a call after its section under the lock of the room. -/
structure Outcome (ρ : Type*) where
  world : World ρ
  tails : List (Tail ρ) := []
  result : Bool

section Calls

variable (idOf : ρ → String) (w : World ρ)

def CanJoinLocked (p : ρ) : Prop :=
  ¬w.room.state = .closed ∧ ¬(idOf p = "" ∨ w.room.participants.find (idOf p) ≠ none) ∧
    ¬(w.room.maxParticipants > 0 ∧ w.room.participants.size ≥ w.room.maxParticipants)
  deriving Decidable

/-- `Join`. -/
def join (media : Media) (w : World ρ) (p : ρ) : Outcome ρ :=
  if CanJoinLocked idOf w p then
    let id := idOf p
    let w := { w with room := { w.room with participants := w.room.participants.set id p } }
    let tracks := if w.room.autoSubscribe then w.tracksWhere fun info => info.publisherId ≠ id
      else []
    let w := w.subscribeAll media (tracks.map fun t => (id, t))
    { world := w.updateStateLocked, tails := [.setJoined p], result := true }
  else { world := w, result := false }

/-- A track of a participant that leaves. -/
def retractTrack (trackId : String) : World ρ :=
  let subscribers := members w.room.trackSubscribers trackId
  let w := w.unsubscribeAll (subscribers.map fun s => (s, trackId))
  { w with room := { w.room with
      publishedTracks := w.room.publishedTracks.erase trackId
      trackSubscribers := w.room.trackSubscribers.erase trackId
      participantSubscriptions := removeAll w.room.participantSubscriptions trackId } }

/-- `Leave`. -/
def leave (participantId : String) : Outcome ρ :=
  match w.room.participants.find participantId with
  | none => { world := w, result := false }
  | some p =>
    let tracks := members w.room.participantSubscriptions participantId
    let w := w.unsubscribeAll (tracks.map fun t => (participantId, t))
    let w := (w.tracksWhere fun info => info.publisherId = participantId).foldl retractTrack w
    let w := { w with room := { w.room with
      participants := w.room.participants.erase participantId } }
    { world := w.updateStateLocked, tails := [.leave p], result := true }

/-- `PublishTrack`. -/
def publishTrack (media : Media) (w : World ρ) (participantId trackId : String) : Outcome ρ :=
  let refused : Outcome ρ := { world := w, result := false }
  if trackId = "" then refused
  else
    match w.room.participants.find participantId with
    | none => refused
    | some publisher =>
      if w.room.state = .closed then refused
      else if w.room.publishedTracks.find trackId ≠ none then refused
      else if media.publish = false then refused
      else
        match (w.objects publisher).addPublishedTrack trackId with
        | none => refused
        | some participant =>
          let w := w.modify publisher fun _ => participant
          let w := { w with room := { w.room with
            nextPublicationId := w.room.nextPublicationId + 1
            publishedTracks := w.room.publishedTracks.set trackId
              { publicationId := w.room.nextPublicationId + 1, publisherId := participantId } } }
          let subscribers := if w.room.autoSubscribe then
            w.room.participants.keys.filter fun id => id ≠ participantId else []
          { world := w.subscribeAll media (subscribers.map fun s => (s, trackId)), result := true }

/-- `UnpublishTrack`. -/
def unpublishTrack (trackId : String) : Outcome ρ :=
  if trackId = "" then { world := w, result := false }
  else
    match w.room.publishedTracks.find trackId with
    | none => { world := w, result := false }
    | some info =>
      let publisher := w.room.participants.find info.publisherId
      let subscribers := members w.room.trackSubscribers trackId
      let w := w.unsubscribeAll (subscribers.map fun s => (s, trackId))
      let w := { w with room := { w.room with
        publishedTracks := w.room.publishedTracks.erase trackId } }
      { world := w
        tails := publisher.toList.map fun p => .removePublishedTrack p trackId
        result := true }

def subscribeTrack (media : Media) (w : World ρ) (subscriberId trackId : String) : Outcome ρ :=
  { world := (w.subscribeTrackLocked media subscriberId trackId).1
    result := (w.subscribeTrackLocked media subscriberId trackId).2 }

def unsubscribeTrack (subscriberId trackId : String) : Outcome ρ :=
  { world := w.unsubscribeTrackLocked subscriberId trackId
    result := trackId ∈ members w.room.participantSubscriptions subscriberId }

/-- `Close`, which returns nothing. -/
def close : Outcome ρ :=
  if w.room.state = .closed then { world := w, result := true }
  else {
    world := { w with room := { w.room with
      state := .closed
      participants := .empty
      publishedTracks := .empty
      trackSubscribers := .empty
      participantSubscriptions := .empty
      participantCount := 0 } }
    tails := (w.room.participants.keys.filterMap w.room.participants.find).map .leave
    result := true }

inductive Call (ρ : Type*)
  | join (p : ρ)
  | leave (participantId : String)
  | publishTrack (participantId trackId : String)
  | unpublishTrack (trackId : String)
  | subscribeTrack (subscriberId trackId : String)
  | unsubscribeTrack (subscriberId trackId : String)
  | close

/-- The section of a call under the lock of the room. -/
def Call.enter (media : Media) (w : World ρ) : Call ρ → Outcome ρ
  | .join p => Room.join idOf media w p
  | .leave participantId => Room.leave w participantId
  | .publishTrack participantId trackId => Room.publishTrack media w participantId trackId
  | .unpublishTrack trackId => Room.unpublishTrack w trackId
  | .subscribeTrack subscriberId trackId => Room.subscribeTrack media w subscriberId trackId
  | .unsubscribeTrack subscriberId trackId => Room.unsubscribeTrack w subscriberId trackId
  | .close => Room.close w

/-- A section of a call under the lock of a participant. -/
def Tail.run : Tail ρ → World ρ
  | .setJoined p => w.modify p (·.setState .joined)
  | .leave p => w.modify p (·.leave)
  | .removePublishedTrack p trackId => w.modify p (·.removePublishedTrack trackId)

/-- A call that runs to completion. -/
def step (call : Media × Call ρ) : World ρ :=
  let outcome := call.2.enter idOf call.1 w
  outcome.tails.foldl Tail.run outcome.world

end Calls

/-- A new room, and participants that have not been in a room. -/
def start (maxParticipants : ℕ) (autoSubscribe : Bool) : World ρ where
  room := { maxParticipants, autoSubscribe }
  objects _ := {}

/-- The room after the calls `calls`, each run to completion. -/
def after (idOf : ρ → String) (maxParticipants : ℕ) (autoSubscribe : Bool)
    (calls : List (Media × Call ρ)) : World ρ :=
  Packetia.run (step idOf) (start maxParticipants autoSubscribe) calls

end Packetia.Room
