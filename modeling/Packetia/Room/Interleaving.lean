import Packetia.Room.Roster

/-!
# Calls from several threads

A call is a section under the lock of the room, followed by sections under the locks of
participants. Calls from different threads interleave at these sections: a `Move` is a section of
one of them.

A call can overtake another one that way. If `Leave` comes in between `Join` and the end of
`Join`, the participant is told last that it is in (`leave_before_join_ends`). If nothing is
overtaken that matters (`Unhindered`), then the participants agree with the room as soon as all
calls have returned (`participants_agree_when_idle`). The server makes the changes of a room on one
thread, its owner (`RoomOwner.h`), so that the calls of the server meet this condition.
-/

namespace Packetia.Room

open List

variable {ρ : Type*} [DecidableEq ρ]

/-- The room, the participants, and for each call what is left of it. -/
structure Threads (ρ : Type*) where
  world : World ρ
  pending : List (List (Tail ρ)) := []

inductive Move (ρ : Type*)
  /-- A thread calls, and goes through the section under the lock of the room. -/
  | enter (media : Media) (call : Call ρ)
  /-- The `i`-th call goes on with its next section. -/
  | proceed (i : ℕ)

namespace Threads

/-- One section of one call. -/
def step (idOf : ρ → String) (s : Threads ρ) : Move ρ → Threads ρ
  | .enter media call =>
    let outcome := call.enter idOf media s.world
    { world := outcome.world, pending := s.pending ++ [outcome.tails] }
  | .proceed i =>
    match s.pending.getD i [] with
    | [] => s
    | tail :: rest => { world := tail.run s.world, pending := s.pending.set i rest }

/-- All calls have returned. -/
def Idle (s : Threads ρ) : Prop := ∀ tails ∈ s.pending, tails = []

/-- The threads after the moves `moves` on a new room. -/
def after (idOf : ρ → String) (maxParticipants : ℕ) (autoSubscribe : Bool)
    (moves : List (Move ρ)) : Threads ρ :=
  Packetia.run (step idOf) { world := start maxParticipants autoSubscribe } moves

/-- The moves with the states in which they are made. -/
def past (idOf : ρ → String) (maxParticipants : ℕ) (autoSubscribe : Bool)
    (moves : List (Move ρ)) : List (Threads ρ × Move ρ) :=
  history (step idOf) { world := start maxParticipants autoSubscribe } moves

/-- `p` has joined the room. -/
def Joined (idOf : ρ → String) (past : List (Threads ρ × Move ρ)) (p : ρ) : Prop :=
  ∃ s media, (s, .enter media (.join p)) ∈ past ∧ (join idOf media s.world p).result = true

/-- The move overtakes nothing that matters. -/
def Free (idOf : ρ → String) (s : Threads ρ) : Move ρ → Prop
  | .enter _ call => Unhindered idOf s.world s.pending.flatten call
  | .proceed _ => True

variable {idOf : ρ → String} {s : Threads ρ} {J : ρ → Prop}

/-- A section of a call under the lock of a participant: one tail less. -/
theorem step_proceed (idOf : ρ → String) (s : Threads ρ) (i : ℕ) : s.step idOf (.proceed i) = s ∨
    ∃ tail, (s.step idOf (.proceed i)).world = tail.run s.world ∧
      s.pending.flatten.Perm (tail :: (s.step idOf (.proceed i)).pending.flatten) := by
  rw [step]
  cases htails : s.pending.getD i [] with
  | nil => exact .inl rfl
  | cons tail rest =>
    refine .inr ⟨tail, rfl, ?_⟩
    have hi : i < s.pending.length := by
      by_contra hi
      rw [getD_eq_default _ _ (not_lt.1 hi)] at htails
      cases htails
    rw [getD_eq_getElem _ _ hi] at htails
    -- The list of the call stands between those of earlier and later ones.
    have hsplit : s.pending.flatten =
        (s.pending.take i).flatten ++ (tail :: rest ++ (s.pending.drop (i + 1)).flatten) := by
      rw [← flatten_cons, ← flatten_append, ← htails, cons_getElem_drop_succ, take_append_drop]
    dsimp only
    rw [hsplit, set_eq_take_append_cons_drop, if_pos hi, flatten_append, flatten_cons]
    exact perm_middle

theorem step_roster (hsound : Sound idOf s.world)
    (h : Roster idOf s.world s.pending.flatten J) (move : Move ρ) (hfree : Free idOf s move) :
    Sound idOf (s.step idOf move).world ∧
    Roster idOf (s.step idOf move).world (s.step idOf move).pending.flatten fun p => J p ∨
      ∃ media, move = .enter media (.join p) ∧ (join idOf media s.world p).result = true := by
  cases move with
  | enter media call =>
    have hentered := enter_entered idOf s.world media call
    refine ⟨hentered.sound hsound, ?_⟩
    have hroster := hentered.roster hsound h hfree
    rw [step, flatten_append, flatten_singleton]
    refine hroster.mono fun p hp => hp.imp_right ?_
    rintro ⟨media', hmove, hresult⟩
    cases hmove
    exact ⟨rfl, hresult⟩
  | proceed i =>
    have hJ : ∀ p, (J p ∨ ∃ media, Move.proceed i = .enter media (.join p) ∧
        (join idOf media s.world p).result = true) → J p := by
      rintro p (hp | ⟨media, hmove, -⟩)
      · exact hp
      · cases hmove
    rcases step_proceed idOf s i with hstep | ⟨tail, hworld, hperm⟩
    · rw [hstep]
      exact ⟨hsound, h.mono hJ⟩
    · rw [hworld]
      exact ⟨hsound.of_room_eq (Tail.room_run ..), ((h.perm hperm).run).mono hJ⟩

/-- The roster holds after any run of free moves. -/
theorem after_roster (maxParticipants : ℕ) (autoSubscribe : Bool) (moves : List (Move ρ))
    (hfree : ∀ s move, (s, move) ∈ past idOf maxParticipants autoSubscribe moves →
      Free idOf s move) :
    Sound idOf (after idOf maxParticipants autoSubscribe moves).world ∧
    Roster idOf (after idOf maxParticipants autoSubscribe moves).world
      (after idOf maxParticipants autoSubscribe moves).pending.flatten
      (Joined idOf (past idOf maxParticipants autoSubscribe moves)) := by
  induction moves using reverseRecOn with
  | nil =>
    refine ⟨start_sound .., (start_roster ..).mono ?_⟩
    rintro p ⟨s, media, hmem, -⟩
    cases hmem
  | append_singleton moves move ih =>
    have hpast : past idOf maxParticipants autoSubscribe (moves ++ [move]) =
        past idOf maxParticipants autoSubscribe moves ++
          [(after idOf maxParticipants autoSubscribe moves, move)] := history_concat moves move
    rw [hpast] at hfree ⊢
    rw [after, run_concat]
    obtain ⟨hsound, hroster⟩ := ih fun s m hm => hfree s m (mem_append_left _ hm)
    have hstep := step_roster hsound hroster move (hfree _ move mem_concat_self)
    refine ⟨hstep.1, hstep.2.mono ?_⟩
    rintro p ⟨s, media, hmem, hresult⟩
    rcases mem_append.1 hmem with hmem | hmem
    · exact .inl ⟨s, media, hmem, hresult⟩
    · cases mem_singleton.1 hmem
      exact .inr ⟨media, rfl, hresult⟩

/-- In a run of free moves, once all calls have returned, whoever has joined is disconnected
    exactly if it is not in the room, and reports the tracks that the room lists for it. -/
theorem participants_agree_when_idle (idOf : ρ → String) (maxParticipants : ℕ)
    (autoSubscribe : Bool) (moves : List (Move ρ))
    (hfree : ∀ s move, (s, move) ∈ past idOf maxParticipants autoSubscribe moves →
      Free idOf s move) (hidle : (after idOf maxParticipants autoSubscribe moves).Idle) (p : ρ)
    (hjoined : Joined idOf (past idOf maxParticipants autoSubscribe moves) p) :
    (((after idOf maxParticipants autoSubscribe moves).world.objects p).state = .disconnected ↔
      ¬InRoom idOf (after idOf maxParticipants autoSubscribe moves).world p) ∧
    ∀ t, t ∈ ((after idOf maxParticipants autoSubscribe moves).world.objects p).publishedTracks ↔
      InRoom idOf (after idOf maxParticipants autoSubscribe moves).world p ∧
      Lists idOf (after idOf maxParticipants autoSubscribe moves).world p t := by
  obtain ⟨-, hroster⟩ := after_roster maxParticipants autoSubscribe moves hfree
  have hnil : (after idOf maxParticipants autoSubscribe moves).pending.flatten = [] :=
    flatten_eq_nil_iff.2 hidle
  rw [hnil] at hroster
  exact (hroster.settled p).imp_left fun h => h hjoined

instance [Fintype ρ] (s : Threads ρ) (move : Move ρ) : Decidable (Free idOf s move) :=
  match move with
  | .enter _ (.join p) => inferInstanceAs (Decidable (CanJoinLocked idOf s.world p →
      ∀ tail ∈ s.pending.flatten, tail.participant ≠ p))
  | .enter _ (.leave id) => inferInstanceAs (Decidable (∀ p,
      s.world.room.participants.find id = some p → .setJoined p ∉ s.pending.flatten))
  | .enter _ .close => inferInstanceAs (Decidable (∀ p,
      s.world.room.participants.find (idOf p) = some p → .setJoined p ∉ s.pending.flatten))
  | .enter _ (.publishTrack ..) | .enter _ (.unpublishTrack _) | .enter _ (.subscribeTrack ..)
  | .enter _ (.unsubscribeTrack ..) | .proceed _ => .isTrue trivial

/-- Two participants. -/
def label : Bool → String
  | true => "p"
  | false => "q"

/-- `p` and `q` join at the same time. `p` publishes a track, and leaves while `UnpublishTrack` has
    not told `p` about it and while `q` leaves as well and joins again. -/
def overlapping : List (Move Bool) :=
  let enter := Move.enter (ρ := Bool) ⟨true, fun _ _ => true⟩
  [enter (.join true), enter (.join false), .proceed 1, .proceed 0,
    enter (.publishTrack "p" "t"), enter (.unpublishTrack "t"), enter (.leave "q"),
    enter (.leave "p"), .proceed 3, .proceed 4, enter (.join false), .proceed 5, .proceed 6]

theorem participants_agree_after_overlap :
    ((after label 0 true overlapping).world.objects true).state = .disconnected ∧
    ((after label 0 true overlapping).world.objects true).publishedTracks = [] ∧
    ((after label 0 true overlapping).world.objects false).state ≠ .disconnected := by
  have hfree : ∀ x ∈ past label 0 true overlapping, Free label x.1 x.2 := by decide +kernel
  have hidle : (after label 0 true overlapping).Idle := by
    rw [Idle]
    decide +kernel
  have hp := participants_agree_when_idle label 0 true overlapping (fun s m h => hfree (s, m) h)
    hidle true ⟨_, _, mem_cons_self, rfl⟩
  have hq := participants_agree_when_idle label 0 true overlapping (fun s m h => hfree (s, m) h)
    hidle false ⟨_, _, mem_cons_of_mem _ mem_cons_self, rfl⟩
  have hout : ¬InRoom label (after label 0 true overlapping).world true := nofun
  have hin : InRoom label (after label 0 true overlapping).world false := rfl
  refine ⟨hp.1.2 hout, eq_nil_iff_forall_not_mem.2 fun t ht => ?_, fun h => hq.1.1 h hin⟩
  exact hout ((hp.2 t).1 ht).1

/-- `Leave` comes in before `Join` ends, and ends before it. -/
def leaveDuringJoin : List (Move Unit) :=
  [.enter ⟨true, fun _ _ => true⟩ (.join ()), .enter ⟨true, fun _ _ => true⟩ (.leave "p"),
    .proceed 1, .proceed 0]

/-- The participant is told last that it is in: it is joined, but not in the room. -/
theorem leave_before_join_ends :
    (after (fun _ => "p") 0 false leaveDuringJoin).Idle ∧
    Joined (fun _ => "p") (past (fun _ => "p") 0 false leaveDuringJoin) () ∧
    ((after (fun _ => "p") 0 false leaveDuringJoin).world.objects ()).state = .joined ∧
    ¬InRoom (fun _ => "p") (after (fun _ => "p") 0 false leaveDuringJoin).world () := by
  refine ⟨?_, ⟨_, _, mem_cons_self, rfl⟩, rfl, nofun⟩
  intro tails htails
  rcases mem_cons.1 htails with htails | htails
  · exact htails
  · exact mem_singleton.1 htails

end Threads

end Packetia.Room
