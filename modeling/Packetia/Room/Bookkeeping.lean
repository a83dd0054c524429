import Packetia.Room.Roster

/-!
# The bookkeeping of a room

Calls that run to completion, one after the other, keep everything a room knows consistent
(`Inv`): the participants and their tracks are those of the roster, the subscriptions agree in the
three places that have them, and they are between a participant and a track of another one.

What a call does to the subscriptions is the same for all calls (`step_subscribed`): a subscription
stays as long as both sides of it stay, and a call adds those that it asks for (`Call.Wants`).
-/

namespace Packetia.Room

open Table World List Multimap

variable {ρ : Type*} {idOf : ρ → String} {w w' : World ρ} {R : String → String → Prop}
  {media : Media}

/-- `s` is in the room, and `t` is the track of another one. -/
def Present (w : World ρ) (s t : String) : Prop :=
  w.room.participants.find s ≠ none ∧
    ∃ info, w.room.publishedTracks.find t = some info ∧ info.publisherId ≠ s

/-- The subscriptions that a call makes, if they are allowed. -/
def Call.Wants (idOf : ρ → String) (autoSubscribe : Bool) : Call ρ → String → String → Prop
  | .join p, s, _ => autoSubscribe = true ∧ s = idOf p
  | .publishTrack _ t', _, t => autoSubscribe = true ∧ t = t'
  | .subscribeTrack s' t', s, t => s = s' ∧ t = t'
  | _, _, _ => False

/-- The subscriptions after a call that is let in with the outcome `o`. -/
def Next (idOf : ρ → String) (media : Media) (w : World ρ) (R : String → String → Prop)
    (call : Call ρ) (o : Outcome ρ) (s t : String) : Prop :=
  R s t ∧ Present o.world s t ∧ call ≠ .unsubscribeTrack s t ∨
    o.result = true ∧ call.Wants idOf w.room.autoSubscribe s t ∧ Allowed o.world media s t

variable {t : String} {s : String} {maxParticipants : ℕ} {call : Call ρ}

theorem Present.frame (hframe : Frame w w') : Present w' s t ↔ Present w s t := by
  rw [Present, Present, hframe.participants, hframe.publishedTracks]

/-- The subscriptions depend on the maps, the participants and what the objects report. -/
theorem Agrees.transfer (h : Agrees idOf w R)
    (hsubscribers : w'.room.trackSubscribers = w.room.trackSubscribers)
    (hsubscriptions : w'.room.participantSubscriptions = w.room.participantSubscriptions)
    (hreported : ∀ p t, t ∈ (w'.objects p).subscribedTrackIds ↔
      w'.room.participants.find (idOf p) = some p ∧ R (idOf p) t) : Agrees idOf w' R where
  byTrack s t := by rw [hsubscribers, h.byTrack]
  byParticipant s t := by rw [hsubscriptions, h.byParticipant]
  reported := hreported

theorem Agrees.updateStateLocked (h : Agrees idOf w R) : Agrees idOf w.updateStateLocked R :=
  ⟨h.byTrack, h.byParticipant, h.reported⟩

/-! ## Sections of calls -/

section Sections

variable (hsound : Sound idOf w) (h : Agrees idOf w R) (hR : ∀ s t, R s t → Present w s t)

include h hR

/-- A call that is refused. -/
theorem refused_agrees (hcall : ∀ s t, call ≠ .unsubscribeTrack s t) :
    Agrees idOf w (Next idOf media w R call ⟨w, [], false⟩) := by
  refine h.congr fun s t => ⟨fun hst => .inl ⟨hst, hR s t hst, hcall s t⟩, ?_⟩
  rintro (hst | hst)
  · exact hst.1
  · cases hst.1

/-- The subscriptions that `Join` asks for. -/
def joinPairs (w : World ρ) (id : String) : List (String × String) :=
  (if w.room.autoSubscribe then w.tracksWhere fun info => info.publisherId ≠ id else []).map
    fun t => (id, t)

omit h hR in
theorem mem_joinPairs {id s : String} : (s, t) ∈ joinPairs w id ↔
    (w.room.autoSubscribe = true ∧ s = id) ∧
      ∃ info, w.room.publishedTracks.find t = some info ∧ info.publisherId ≠ id := by
  rw [joinPairs, mem_map]
  split_ifs with hauto
  · constructor
    · rintro ⟨t', ht', heq⟩
      cases heq
      obtain ⟨info, hinfo, hne⟩ := mem_tracksWhere.1 ht'
      exact ⟨⟨hauto, rfl⟩, info, hinfo, of_decide_eq_true hne⟩
    · rintro ⟨⟨-, rfl⟩, info, hinfo, hne⟩
      exact ⟨t, mem_tracksWhere.2 ⟨info, hinfo, decide_eq_true hne⟩, rfl⟩
  · simp [hauto]

omit h hR in
theorem mem_publishPairs {id a b : String} : (a, b) ∈ publishPairs w id t ↔
    (w.room.autoSubscribe = true ∧ b = t) ∧ w.room.participants.find a ≠ none ∧ a ≠ id := by
  rw [publishPairs, mem_map]
  split_ifs with hauto
  · constructor
    · rintro ⟨s, hs, heq⟩
      cases heq
      rw [mem_filter, decide_eq_true_iff] at hs
      exact ⟨⟨hauto, rfl⟩, fun hnone => find_eq_none.1 hnone hs.1, hs.2⟩
    · rintro ⟨⟨-, rfl⟩, ha, hne⟩
      refine ⟨a, mem_filter.2 ⟨?_, decide_eq_true hne⟩, rfl⟩
      exact not_not.1 fun hnone => ha (find_eq_none.2 hnone)
  · simp [hauto]

omit hR in
/-- The subscribers of a track, as pairs. -/
theorem mem_subscriberPairs {a b : String} (hab : R a b) :
    (a, b) ∈ (members w.room.trackSubscribers t).map (fun s => (s, t)) ↔ b = t := by
  rw [mem_map]
  constructor
  · rintro ⟨s, -, heq⟩
    cases heq
    rfl
  · rintro rfl
    exact ⟨a, (h.byTrack a b).2 hab, rfl⟩

section

variable [DecidableEq ρ] (hnamed : Named idOf w)
include hnamed

omit h hR hnamed in
/-- A call that has changed the room to `v` subscribes those it asks for. -/
theorem subscribeAll_next {v : World ρ} {o : Outcome ρ} {pairs : List (String × String)}
    (hnamed : Named idOf v) (h : Agrees idOf v R) (hR : ∀ s t, R s t → Present v s t)
    (ho : o.result = true ∧ (∀ s t, Present o.world s t ↔ Present v s t) ∧
      ∀ s t, Allowed o.world media s t ↔ Allowed v media s t)
    (hcall : ∀ s t, call ≠ .unsubscribeTrack s t)
    (hpairs : ∀ s t, Allowed v media s t →
      ((s, t) ∈ pairs ↔ call.Wants idOf w.room.autoSubscribe s t)) :
    Agrees idOf (v.subscribeAll media pairs) (Next idOf media w R call o) := by
  refine (subscribeAll_agrees hnamed h media pairs).congr fun s t => or_congr ?_ ?_
  · exact ⟨fun hst => ⟨hst, (ho.2.1 s t).2 (hR s t hst), hcall s t⟩, And.left⟩
  · rw [ho.2.2, and_iff_right ho.1]
    exact and_congr_left (hpairs s t)

theorem join_agrees (p : ρ) : Agrees idOf (join idOf media w p).world
    (Next idOf media w R (.join p) (join idOf media w p)) := by
  rw [join]
  split_ifs with hjoin
  swap
  · exact refused_agrees h hR (by simp)
  -- The participant comes in without subscriptions.
  have hnone : ∀ t, ¬R (idOf p) t := fun t hst => (hR _ t hst).1 hjoin.fresh.2
  have hagrees : Agrees idOf (w.seat (idOf p) p) R := by
    refine h.transfer rfl rfl fun q t => (h.reported q t).trans ?_
    refine ⟨fun hq => ⟨(enroll_inRoom hjoin q).2 (.inr hq.1), hq.2⟩, ?_⟩
    rintro ⟨hq, hst⟩
    rcases (enroll_inRoom hjoin q).1 hq with rfl | hq
    · exact absurd hst (hnone t)
    · exact ⟨hq, hst⟩
  have hpresent : ∀ s t, R s t → Present (w.seat (idOf p) p) s t := fun s t hst =>
    have hs : s ≠ idOf p := fun hs => hnone t (hs ▸ hst)
    ⟨(find_set_of_ne hs).trans_ne (hR s t hst).1, (hR s t hst).2⟩
  have hframe := subscribeAll_frame (w.seat (idOf p) p) media (joinPairs w (idOf p))
  refine (subscribeAll_next (seat_named hnamed p) hagrees hpresent
    ⟨rfl, fun s t => (Present.frame hframe (s := s) (t := t) :),
      fun s t => (Allowed.frame hframe (s := s) (t := t) :)⟩ (by simp) fun s t hst =>
        ?_).updateStateLocked
  obtain ⟨info, hinfo, hne, -⟩ := hst.2.2.2.1
  exact mem_joinPairs.trans (and_iff_left_of_imp fun hwants => ⟨info, hinfo, hwants.2 ▸ hne⟩)

omit hR in
theorem retractTrack_agrees (t : String) :
    Agrees idOf (retractTrack w t) fun a b => R a b ∧ b ≠ t := by
  have hspec := unsubscribeAll_agrees hnamed h
    ((members w.room.trackSubscribers t).map fun s => (s, t))
  replace hspec := hspec.congr fun a b => and_congr_right fun hab =>
    not_congr (mem_subscriberPairs h hab)
  refine ⟨fun a b => ?_, fun a b => ?_, hspec.reported⟩
  · rw [retractTrack, members_erase]
    split_ifs with hb
    · exact iff_of_false not_mem_nil fun hab => hab.2 hb
    · exact hspec.byTrack a b
  · rw [retractTrack, mem_members_removeAll, hspec.byParticipant, and_assoc, and_self]

omit h hR in
theorem retractTracks_agrees (h : Agrees idOf w R) (ts : List String) :
    Agrees idOf (ts.foldl retractTrack w) fun a b => R a b ∧ b ∉ ts := by
  induction ts generalizing w R with
  | nil => exact h.congr fun a b => (and_iff_left not_mem_nil).symm
  | cons t ts ih =>
    have hnamed' : Named idOf (retractTrack w t) := by
      rw [Named, (retractTrack_frame w t).participants]
      exact hnamed
    refine (ih hnamed' (retractTrack_agrees h hnamed t)).congr fun a b => ?_
    rw [mem_cons, not_or, and_assoc]

theorem leave_agrees (id : String) : Agrees idOf (leave w id).world
    (Next idOf media w R (.leave id) (leave w id)) := by
  cases hp : w.room.participants.find id with
  | none =>
    rw [leave, hp]
    exact refused_agrees h hR (by simp)
  | some p =>
    obtain ⟨w₁, hw₁⟩ : ∃ w₁, w₁ = w.unsubscribeAll
      ((members w.room.participantSubscriptions id).map fun t => (id, t)) := ⟨_, rfl⟩
    obtain ⟨w₂, hw₂⟩ : ∃ w₂, w₂ =
      (w₁.tracksWhere fun info => info.publisherId = id).foldl retractTrack w₁ := ⟨_, rfl⟩
    have hframe₁ : Frame w w₁ := hw₁ ▸ unsubscribeAll_frame w _
    have hagrees₁ : Agrees idOf w₁ fun a b => R a b ∧ a ≠ id := by
      rw [hw₁]
      refine (unsubscribeAll_agrees hnamed h _).congr fun a b => ?_
      refine and_congr_right fun hab => not_congr ?_
      rw [mem_map]
      constructor
      · rintro ⟨t, -, heq⟩
        cases heq
        rfl
      · rintro rfl
        exact ⟨b, (h.byParticipant a b).2 hab, rfl⟩
    have hagrees₂ := retractTracks_agrees (hnamed.frame hframe₁) hagrees₁
      (w₁.tracksWhere fun info => info.publisherId = id)
    rw [← hw₂] at hagrees₂
    have heq : leave w id = ⟨World.updateStateLocked { w₂ with room := { w₂.room with
        participants := w₂.room.participants.erase id } }, [.leave p], true⟩ := by
      rw [leave, hp, hw₂, hw₁]
    have hframe : Frame (w.dismiss id) (leave w id).world := by
      have hentered := leave_entered idOf w id
      rw [heq] at hentered ⊢
      cases hentered with
      | leave _ hframe => exact hframe
    have hpresent : ∀ a b, R a b → (Present (leave w id).world a b ↔
        a ≠ id ∧ b ∉ w₁.tracksWhere fun info => info.publisherId = id) := by
      intro a b hab
      obtain ⟨ha, info, hinfo, hne⟩ := hR a b hab
      rw [Present.frame hframe, mem_tracksWhere, hframe₁.publishedTracks, Present]
      refine and_congr ?_ ?_
      · refine (congrArg (· ≠ none) (find_erase a)).to_iff.trans ?_
        split_ifs with haid <;> simp [haid, ha]
      · simp only [dismiss_find, hinfo, Option.some_inj]
        simp [hne]
    rw [heq] at hpresent ⊢
    -- The object that goes has no subscriptions left.
    have hagrees₃ : Agrees idOf { w₂ with room := { w₂.room with
        participants := w₂.room.participants.erase id } } fun a b => (R a b ∧ a ≠ id) ∧
          b ∉ w₁.tracksWhere fun info => info.publisherId = id := by
      refine hagrees₂.transfer rfl rfl fun q t => (hagrees₂.reported q t).trans ?_
      rw [find_erase]
      split_ifs with hid
      · exact iff_of_false (fun hq => hq.2.1.2 hid) fun hq => by cases hq.1
      · exact Iff.rfl
    refine hagrees₃.updateStateLocked.congr fun a b => ?_
    constructor
    · rintro ⟨⟨hab, ha⟩, hb⟩
      exact .inl ⟨hab, (hpresent a b hab).2 ⟨ha, hb⟩, by simp⟩
    · rintro (⟨hab, hin, -⟩ | ⟨-, hwants, -⟩)
      · have hboth := (hpresent a b hab).1 hin
        exact ⟨⟨hab, hboth.1⟩, hboth.2⟩
      · exact hwants.elim

theorem publishTrack_agrees (id t : String) :
    Agrees idOf (publishTrack media w id t).world
      (Next idOf media w R (.publishTrack id t) (publishTrack media w id t)) := by
  rcases publishTrack_cases w media id t with heq | ⟨p, -, hp, hnew, -, heq⟩ <;> rw [heq]
  · exact refused_agrees h hR (by simp)
  have hagrees : Agrees idOf (w.announce id p t) R := by
    refine h.transfer rfl rfl fun q t' => ?_
    have hobject : ((w.announce id p t).objects q).subscribedTrackIds =
        (w.objects q).subscribedTrackIds :=
      objects_modify_apply Participant.subscribedTrackIds (by exact fun _ => rfl) p q
    rw [hobject]
    exact h.reported q t'
  have hpresent : ∀ a b, R a b → Present (w.announce id p t) a b := fun a b hab => by
    obtain ⟨ha, info, hinfo, hne⟩ := hR a b hab
    have hbt : b ≠ t := fun hbt => by
      rw [hbt, hnew] at hinfo
      cases hinfo
    exact ⟨ha, info, (announce_find b).trans ((if_neg hbt).trans hinfo), hne⟩
  have hframe := subscribeAll_frame (w.announce id p t) media (publishPairs w id t)
  have hnamed' : Named idOf (w.announce id p t) := hnamed
  refine subscribeAll_next hnamed' hagrees hpresent ⟨rfl, fun _ _ => Present.frame hframe,
    fun _ _ => Allowed.frame hframe⟩ (by simp) fun a b hab =>
      mem_publishPairs.trans (and_iff_left_of_imp fun hwants => ?_)
  obtain ⟨info, hinfo, hne, -⟩ := hab.2.2.2.1
  rw [announce_find, if_pos hwants.2] at hinfo
  cases hinfo
  exact ⟨hab.2.2.1, hne.symm⟩

theorem unpublishTrack_agrees (t : String) :
    Agrees idOf (unpublishTrack w t).world
      (Next idOf media w R (.unpublishTrack t) (unpublishTrack w t)) := by
  rw [unpublishTrack]
  split_ifs with ht
  · exact refused_agrees h hR (by simp)
  cases hinfo : w.room.publishedTracks.find t with
  | none => exact refused_agrees h hR (by simp)
  | some info =>
    obtain ⟨w₁, hw₁⟩ : ∃ w₁, w₁ = w.unsubscribeAll
      ((members w.room.trackSubscribers t).map fun s => (s, t)) := ⟨_, rfl⟩
    have hframe : Frame w w₁ := hw₁ ▸ unsubscribeAll_frame w _
    have hspec : Agrees idOf w₁ fun a b => R a b ∧ b ≠ t := by
      rw [hw₁]
      exact (unsubscribeAll_agrees hnamed h _).congr fun a b => and_congr_right fun hab =>
        not_congr (mem_subscriberPairs h hab)
    dsimp only
    rw [← hw₁]
    refine Agrees.congr ⟨hspec.byTrack, hspec.byParticipant, hspec.reported⟩ fun a b => ?_
    have hfind : (w₁.room.publishedTracks.erase t).find b =
        if b = t then none else w.room.publishedTracks.find b := by
      rw [find_erase, hframe.publishedTracks]
    constructor
    · rintro ⟨hab, hb⟩
      obtain ⟨ha, info', hinfo', hne⟩ := hR a b hab
      refine .inl ⟨hab, ⟨?_, info', hfind.trans ((if_neg hb).trans hinfo'), hne⟩, by simp⟩
      exact (congrArg (fun table => table.find a) hframe.participants).trans_ne ha
    · rintro (⟨hab, ⟨-, info', hinfo', -⟩, -⟩ | ⟨-, hwants, -⟩)
      · refine ⟨hab, fun hb => ?_⟩
        cases (hfind.trans (if_pos hb)).symm.trans hinfo'
      · exact hwants.elim

theorem subscribeTrack_agrees (s t : String) :
    Agrees idOf (subscribeTrack media w s t).world
      (Next idOf media w R (.subscribeTrack s t) (subscribeTrack media w s t)) := by
  have hframe := subscribeTrackLocked_frame w media s t
  refine (subscribeTrackLocked_agrees h hnamed media s t).congr fun a b => ?_
  rw [Next, subscribeTrack, Present.frame hframe, Allowed.frame hframe]
  constructor
  · rintro (hab | ⟨⟨rfl, rfl⟩, hallowed⟩)
    · exact .inl ⟨hab, hR a b hab, nofun⟩
    · by_cases hresult : (w.subscribeTrackLocked media a b).2 = true
      · exact .inr ⟨hresult, ⟨rfl, rfl⟩, hallowed⟩
      · have hab := subscribeTrackLocked_refused h hresult hallowed
        exact .inl ⟨hab, hR a b hab, nofun⟩
  · rintro (hab | ⟨-, hwants, hallowed⟩)
    · exact .inl hab.1
    · exact .inr ⟨hwants, hallowed⟩

theorem unsubscribeTrack_agrees (s t : String) :
    Agrees idOf (unsubscribeTrack w s t).world
      (Next idOf media w R (.unsubscribeTrack s t) (unsubscribeTrack w s t)) := by
  have hframe := unsubscribeTrackLocked_frame w s t
  refine (unsubscribeTrackLocked_agrees h hnamed s t).congr fun a b => ?_
  rw [Next, unsubscribeTrack, Present.frame hframe]
  constructor
  · rintro ⟨hab, hne⟩
    refine .inl ⟨hab, hR a b hab, fun heq => hne ?_⟩
    cases heq
    exact ⟨rfl, rfl⟩
  · rintro (⟨hab, -, hne⟩ | ⟨-, hwants, -⟩)
    · refine ⟨hab, ?_⟩
      rintro ⟨rfl, rfl⟩
      exact hne rfl
    · exact hwants.elim

end

end Sections

/-! ## Whole calls -/

/-- The places agree, up to the participants that still have to leave. -/
structure Settling (idOf : ρ → String) (w : World ρ) (tails : List (Tail ρ))
    (R : String → String → Prop) : Prop where
  byTrack : ∀ s t, s ∈ members w.room.trackSubscribers t ↔ R s t
  byParticipant : ∀ s t, t ∈ members w.room.participantSubscriptions s ↔ R s t
  reported : ∀ p t, .leave p ∉ tails → (t ∈ (w.objects p).subscribedTrackIds ↔
    w.room.participants.find (idOf p) = some p ∧ R (idOf p) t)

theorem Agrees.settling (h : Agrees idOf w R) (tails : List (Tail ρ)) :
    Settling idOf w tails R := ⟨h.byTrack, h.byParticipant, fun p t _ => h.reported p t⟩

variable [DecidableEq ρ]

/-- Only `Leave` changes what a participant reports to be subscribed to. -/
theorem subscribedTrackIds_run {tail : Tail ρ} {p : ρ} (htail : tail ≠ .leave p) :
    ((tail.run w).objects p).subscribedTrackIds = (w.objects p).subscribedTrackIds := by
  cases tail with
  | setJoined q =>
    exact objects_modify_apply (f := (·.setState .joined)) Participant.subscribedTrackIds
      (fun _ => rfl) q p
  | leave q =>
    have hpq : p ≠ q := fun hpq => htail (by rw [hpq])
    rw [Tail.run, objects_modify_of_ne hpq]
  | removePublishedTrack q t =>
    exact objects_modify_apply (f := (·.removePublishedTrack t))
      Participant.subscribedTrackIds (fun _ => rfl) q p

/-- When everything has been done, the places agree. -/
theorem Settling.agrees {tails : List (Tail ρ)} {J : ρ → Prop} (h : Settling idOf w tails R)
    (hroster : Roster idOf w tails J) : Agrees idOf (tails.foldl Tail.run w) R ∧
      Roster idOf (tails.foldl Tail.run w) [] J ∧ (tails.foldl Tail.run w).room = w.room := by
  induction tails generalizing w with
  | nil => exact ⟨⟨h.byTrack, h.byParticipant, fun p t => h.reported p t not_mem_nil⟩,
      hroster, rfl⟩
  | cons tail tails ih =>
    have hroom : (tail.run w).room = w.room := Tail.room_run w tail
    have hnext : Settling idOf (tail.run w) tails R := by
      refine ⟨hroom ▸ h.byTrack, hroom ▸ h.byParticipant, fun p t hp => ?_⟩
      rw [hroom]
      by_cases htail : tail = .leave p
      · -- It was connected and not in the room, and now it reports nothing.
        subst htail
        obtain ⟨hout, hstate⟩ := hroster.leaving p mem_cons_self
        rw [Tail.run, objects_modify_self, Participant.leave, if_neg hstate]
        exact iff_of_false not_mem_nil fun hin => hout hin.1
      · rw [subscribedTrackIds_run htail]
        exact h.reported p t fun hmem =>
          (mem_cons.1 hmem).elim (fun heq => htail heq.symm) hp
    obtain ⟨hagrees, hroster', hroom'⟩ := ih hnext hroster.run
    exact ⟨hagrees, hroster', hroom'.trans hroom⟩

theorem enter_settling (hsound : Sound idOf w) (h : Agrees idOf w R)
    (hR : ∀ s t, R s t → Present w s t) (media : Media) (call : Call ρ) :
    Settling idOf (call.enter idOf media w).world (call.enter idOf media w).tails
      (Next idOf media w R call (call.enter idOf media w)) := by
  cases call with
  | join p => exact (join_agrees h hR hsound.named p).settling _
  | leave id => exact (leave_agrees h hR hsound.named id).settling _
  | publishTrack id t => exact (publishTrack_agrees h hR hsound.named id t).settling _
  | unpublishTrack t => exact (unpublishTrack_agrees h hR hsound.named t).settling _
  | subscribeTrack s t => exact (subscribeTrack_agrees h hR hsound.named s t).settling _
  | unsubscribeTrack s t => exact (unsubscribeTrack_agrees h hR hsound.named s t).settling _
  | close =>
    rw [Call.enter, close]
    split_ifs with hclosed
    · refine (h.congr fun s t => ?_).settling _
      exact ⟨fun hst => .inl ⟨hst, hR s t hst, by simp⟩,
        fun hst => hst.elim And.left fun hst => hst.2.1.elim⟩
    · -- Nothing is left in the room, and whoever was in it has to leave.
      have hnone : ∀ s t, ¬Next idOf media w R .close
          ⟨w.shut, w.present.map .leave, true⟩ s t := by
        rintro s t (⟨-, hin, -⟩ | ⟨-, hwants, -⟩)
        · exact hin.1 rfl
        · exact hwants
      refine ⟨fun s t => iff_of_false not_mem_nil (hnone s t),
        fun s t => iff_of_false not_mem_nil (hnone s t), fun p t hp => ?_⟩
      refine iff_of_false (fun ht => hp ?_) fun hin => hnone _ _ hin.2
      have hin : InRoom idOf w p := ((h.reported p t).1 ht).1
      exact mem_map_of_mem ((mem_present hsound.named p).2 hin)

/-- `s` is subscribed to `t`. -/
def Subscribed (w : World ρ) (s t : String) : Prop := s ∈ members w.room.trackSubscribers t

/-- The room is consistent. -/
structure Inv (idOf : ρ → String) (w : World ρ) : Prop where
  sound : Sound idOf w
  roster : Roster idOf w [] fun _ => False
  agrees : Agrees idOf w (Subscribed w)
  present : ∀ s t, Subscribed w s t → Present w s t

omit [DecidableEq ρ] in
theorem start_inv (maxParticipants : ℕ) (autoSubscribe : Bool) :
    Inv idOf (start maxParticipants autoSubscribe) where
  sound := start_sound ..
  roster := start_roster ..
  agrees := ⟨fun _ _ => Iff.rfl, fun _ _ => iff_of_false not_mem_nil not_mem_nil,
    fun _ _ => iff_of_false not_mem_nil fun h => not_mem_nil h.2⟩
  present := nofun

/-- A call that runs to completion: the room stays consistent, and the subscriptions are those
    that were there and can stay, and those that the call makes. -/
theorem step_inv (h : Inv idOf w) (media : Media) (call : Call ρ) :
    Inv idOf (step idOf w (media, call)) ∧
    (step idOf w (media, call)).room = (call.enter idOf media w).world.room ∧
    ∀ s t, Subscribed (step idOf w (media, call)) s t ↔
      Next idOf media w (Subscribed w) call (call.enter idOf media w) s t := by
  have hentered := enter_entered idOf w media call
  have hfree : Unhindered idOf w [] call := by
    cases call with
    | join p => exact nofun
    | leave id | close => exact fun _ _ => not_mem_nil
    | _ => trivial
  have hroster : Roster idOf (call.enter idOf media w).world (call.enter idOf media w).tails
      fun _ => False :=
    (hentered.roster h.sound h.roster hfree).mono fun _ => False.elim
  obtain ⟨hagrees, hroster', hroom⟩ :=
    (enter_settling h.sound h.agrees h.present media call).agrees hroster
  have hsubscribed : ∀ s t, Subscribed (step idOf w (media, call)) s t ↔
      Next idOf media w (Subscribed w) call (call.enter idOf media w) s t := hagrees.byTrack
  refine ⟨⟨(hentered.sound h.sound).of_room_eq hroom, hroster', ?_, ?_⟩, hroom, hsubscribed⟩
  · exact hagrees.congr fun s t => (hsubscribed s t).symm
  · intro s t hst
    rw [Present, step, hroom]
    rcases (hsubscribed s t).1 hst with hst | ⟨-, -, hallowed⟩
    · exact hst.2.1
    · obtain ⟨info, hinfo, hne, -⟩ := hallowed.2.2.2.1
      exact ⟨hallowed.2.2.1, info, hinfo, hne⟩

/-! ## What comes in -/

variable {info : PublishedTrackInfo} {P : RoomState → Prop}

section Changes

variable {call : Call ρ} {o : Outcome ρ} (hcall : Entered idOf w call o)

include hcall

theorem Entered.autoSubscribe : o.world.room.autoSubscribe = w.room.autoSubscribe := by
  cases hcall with
  | refused | closed | close => rfl
  | subscribeTrack hframe | unsubscribeTrack hframe | join _ hframe | leave _ hframe
  | publishTrack _ _ _ _ hframe | unpublishTrack _ hframe => exact hframe.autoSubscribe

/-- A closed room stays closed. -/
theorem Entered.state_closed (hclosed : w.room.state = .closed) : o.world.room.state = .closed := by
  cases hcall with
  | refused | closed => exact hclosed
  | close => rfl
  | subscribeTrack hframe | unsubscribeTrack hframe | publishTrack _ _ _ _ hframe
  | unpublishTrack _ hframe => exact hframe.roomState.trans hclosed
  | join hjoin => exact absurd hclosed hjoin.1
  | leave _ hframe => exact hframe.roomState.trans (if_pos hclosed)

omit hcall [DecidableEq ρ] in
theorem updateStateLocked_state_ne (w : World ρ) : w.updateStateLocked.room.state ≠ .created := by
  rw [World.updateStateLocked]
  split_ifs <;> simp

/-- A room in which somebody has been, or which is closed, does not become new again. -/
theorem Entered.state_ne_created (hstate : w.room.state ≠ .created) :
    o.world.room.state ≠ .created := by
  cases hcall with
  | refused | closed => exact hstate
  | close => simp [World.shut]
  | subscribeTrack hframe | unsubscribeTrack hframe | publishTrack _ _ _ _ hframe
  | unpublishTrack _ hframe => exact hframe.roomState.trans_ne hstate
  | join _ hframe | leave _ hframe =>
    exact hframe.roomState.trans_ne (updateStateLocked_state_ne _)

/-- Whoever is new in the room has just joined. -/
theorem Entered.participant_new {s : String} (hold : w.room.participants.find s = none)
    (hnew : o.world.room.participants.find s ≠ none) :
    o.result = true ∧ ∃ p, call = .join p ∧ s = idOf p := by
  cases hcall with
  | refused | closed => exact absurd hold hnew
  | close => exact absurd rfl hnew
  | subscribeTrack hframe | unsubscribeTrack hframe | publishTrack _ _ _ _ hframe
  | unpublishTrack _ hframe =>
    rw [hframe.participants] at hnew
    exact absurd hold hnew
  | @join p _ _ hframe =>
    refine ⟨rfl, p, rfl, by_contra fun hs => hnew ?_⟩
    rw [hframe.participants]
    exact (find_set_of_ne hs).trans hold
  | @leave id _ _ _ hframe =>
    rw [hframe.participants] at hnew
    refine absurd ((find_erase s).trans ?_) hnew
    rw [hold, ite_self]

/-- A publication that is new in the room has just been made. -/
theorem Entered.track_new (hold : w.room.publishedTracks.find t ≠ some info)
    (hnew : o.world.room.publishedTracks.find t = some info) :
    o.result = true ∧ ∃ id, call = .publishTrack id t := by
  cases hcall with
  | refused | closed => exact absurd hnew hold
  | close => cases hnew
  | subscribeTrack hframe | unsubscribeTrack hframe | join _ hframe =>
    rw [hframe.publishedTracks] at hnew
    exact absurd hnew hold
  | leave _ hframe =>
    rw [hframe.publishedTracks] at hnew
    exact absurd ((dismiss_find t info).1 hnew).1 hold
  | @publishTrack id t' _ _ _ _ _ _ hframe =>
    rw [hframe.publishedTracks, announce_find] at hnew
    split_ifs at hnew with ht
    · exact ⟨rfl, id, by rw [ht]⟩
    · exact absurd hnew hold
  | unpublishTrack _ hframe =>
    rw [hframe.publishedTracks] at hnew
    exact absurd (find_of_find_erase hnew) hold

end Changes

/-! ## Runs -/

variable {autoSubscribe : Bool}

theorem after_concat (calls : List (Media × Call ρ)) (call : Media × Call ρ) :
    after idOf maxParticipants autoSubscribe (calls ++ [call]) =
      step idOf (after idOf maxParticipants autoSubscribe calls) call := run_concat calls call

theorem after_inv (calls : List (Media × Call ρ)) :
    Inv idOf (after idOf maxParticipants autoSubscribe calls) ∧
      (after idOf maxParticipants autoSubscribe calls).room.autoSubscribe = autoSubscribe := by
  refine run_induction (P := fun _ (w : World ρ) =>
    Inv idOf w ∧ w.room.autoSubscribe = autoSubscribe) ⟨start_inv .., rfl⟩ ?_ calls
  rintro calls ⟨media, call⟩ ⟨hinv, hauto⟩
  obtain ⟨hinv', hroom, -⟩ := step_inv hinv media call
  refine ⟨hinv', ?_⟩
  rw [hroom]
  exact (enter_entered idOf _ media call).autoSubscribe.trans hauto

section

variable (hP : ∀ {w : World ρ} {call o}, Entered idOf w call o → P w.room.state →
  P o.world.room.state)
include hP

/-- What every call keeps of the state of the room stays. -/
theorem after_keeps_state (calls calls' : List (Media × Call ρ))
    (h : P (after idOf maxParticipants autoSubscribe calls).room.state) :
    P (after idOf maxParticipants autoSubscribe (calls ++ calls')).room.state := by
  induction calls' using reverseRecOn with
  | nil => rwa [append_nil]
  | append_singleton calls' call ih =>
    rw [← append_assoc, after_concat, (step_inv (after_inv _).1 call.1 call.2).2.1]
    exact hP (enter_entered ..) ih

/-- The state that a call leaves behind, after any further calls. -/
theorem after_call_keeps_state (pre post : List (Media × Call ρ)) (call : Call ρ)
    (h : P (call.enter idOf media
      (after idOf maxParticipants autoSubscribe pre)).world.room.state) :
    P (after idOf maxParticipants autoSubscribe (pre ++ (media, call) :: post)).room.state := by
  rw [append_cons]
  refine after_keeps_state hP _ post ?_
  rw [after_concat, (step_inv (after_inv pre).1 media call).2.1]
  exact h

end

/-- `Close` closes the room for good. -/
theorem after_close (pre post : List (Media × Call ρ)) :
    (after idOf maxParticipants autoSubscribe (pre ++ (media, .close) :: post)).room.state
      = .closed := by
  refine after_call_keeps_state (P := (· = .closed)) Entered.state_closed pre post .close ?_
  rw [Call.enter, close]
  split_ifs with hclosed
  · exact hclosed
  · rfl

/-- Once somebody has joined the room is not a new one. -/
theorem after_join (pre post : List (Media × Call ρ)) {p : ρ}
    (hjoin : CanJoinLocked idOf (after idOf maxParticipants autoSubscribe pre) p) :
    (after idOf maxParticipants autoSubscribe (pre ++ (media, .join p) :: post)).room.state
      ≠ .created := by
  refine after_call_keeps_state (P := (· ≠ .created)) Entered.state_ne_created pre post (.join p) ?_
  rw [Call.enter, join, if_pos hjoin]
  exact updateStateLocked_state_ne _

/-- `s` is in the room, which has the publication `info` of `t` by somebody else. -/
def Hears (w : World ρ) (s t : String) (info : PublishedTrackInfo) : Prop :=
  w.room.participants.find s ≠ none ∧ w.room.publishedTracks.find t = some info ∧
    info.publisherId ≠ s

/-- A participant that is not subscribed to a track in a room that subscribes everybody has
    been in the room with the track before, unless media endpoints object. -/
theorem step_auto (h : Inv idOf w) (hauto : w.room.autoSubscribe = true)
    (hmedia : ∀ s t, media.subscribe s t = true)
    (hhears : Hears (step idOf w (media, call)) s t info)
    (hnot : ¬Subscribed (step idOf w (media, call)) s t) :
    Hears w s t info ∧ (Subscribed w s t → call = .unsubscribeTrack s t) := by
  obtain ⟨hinv, hroom, hsubscribed⟩ := step_inv h media call
  have hentered := enter_entered idOf w media call
  obtain ⟨hs, ht, hne⟩ := hhears
  rw [hsubscribed] at hnot
  -- Whatever the call wants is allowed.
  have hallowed : Allowed (call.enter idOf media w).world media s t := by
    have hpublisher := hinv.sound.publisher t info ht
    refine ⟨?_, ?_, hroom ▸ hs, ⟨info, hroom ▸ ht, hne, hroom ▸ hpublisher⟩, hmedia s t⟩
    · rintro rfl
      exact hs hinv.sound.nonempty.1
    · rintro rfl
      cases hinv.sound.nonempty.2.symm.trans ht
  rw [hroom] at hs ht
  refine ⟨⟨fun hold => hnot ?_, by_contra fun hold => hnot ?_, hne⟩, fun hst => ?_⟩
  · obtain ⟨hresult, p, rfl, hp⟩ := hentered.participant_new hold hs
    exact .inr ⟨hresult, ⟨hauto, hp⟩, hallowed⟩
  · obtain ⟨hresult, id, rfl⟩ := hentered.track_new hold ht
    exact .inr ⟨hresult, ⟨hauto, rfl⟩, hallowed⟩
  · by_contra hcall
    exact hnot (.inl ⟨hst, ⟨hs, info, ht, hne⟩, hcall⟩)

/-- Whoever is not subscribed has ended the subscription, and both have been in the room since. -/
theorem after_auto (calls : List (Media × Call ρ))
    (hmedia : ∀ call ∈ calls, ∀ s t, call.1.subscribe s t = true)
    (hhears : Hears (after idOf maxParticipants true calls) s t info)
    (hnot : ¬Subscribed (after idOf maxParticipants true calls) s t) :
    ∃ pre media post, calls = pre ++ (media, .unsubscribeTrack s t) :: post ∧
      Subscribed (after idOf maxParticipants true pre) s t ∧
      ∀ post', post' <+: post → Hears (after idOf maxParticipants true
        (pre ++ (media, .unsubscribeTrack s t) :: post')) s t info := by
  induction calls using reverseRecOn with
  | nil => exact absurd rfl hhears.1
  | append_singleton calls call ih =>
    obtain ⟨media, call⟩ := call
    obtain ⟨hinv, hauto⟩ := after_inv calls
    have hhears' := hhears
    rw [after_concat] at hhears' hnot
    obtain ⟨hbefore, hunsubscribed⟩ := step_auto hinv hauto (hmedia _ mem_concat_self) hhears' hnot
    by_cases hst : Subscribed (after idOf maxParticipants true calls) s t
    · cases hunsubscribed hst
      refine ⟨calls, media, [], rfl, hst, fun post' hpost' => ?_⟩
      rw [prefix_nil.1 hpost']
      exact hhears
    · obtain ⟨pre, media', post, rfl, hsub, hpost⟩ :=
        ih (fun c hc => hmedia c (mem_append_left _ hc)) hbefore hst
      refine ⟨pre, media', post ++ [(media, call)], by simp, hsub, fun post' hpost' => ?_⟩
      rcases prefix_concat_iff.1 hpost' with rfl | hpost'
      · rw [append_assoc, cons_append] at hhears
        exact hhears
      · exact hpost post' hpost'

/-- What a room knows is consistent, at any time. -/
structure Consistent (idOf : ρ → String) (w : World ρ) : Prop where
  /-- The subscriptions by track are those by participant. -/
  subscriptions : ∀ s t, s ∈ members w.room.trackSubscribers t ↔
    t ∈ members w.room.participantSubscriptions s
  /-- They are those that the participants report, and nobody else reports any. -/
  reported : ∀ p t, t ∈ (w.objects p).subscribedTrackIds ↔
    w.room.participants.find (idOf p) = some p ∧ idOf p ∈ members w.room.trackSubscribers t
  /-- They are from a participant to a track of another one. -/
  subscribed : ∀ s t, s ∈ members w.room.trackSubscribers t →
    w.room.participants.find s ≠ none ∧ ∃ info, w.room.publishedTracks.find t = some info ∧
      info.publisherId ≠ s ∧ w.room.participants.find info.publisherId ≠ none
  /-- Every track is that of a participant. -/
  publisher : ∀ t info, w.room.publishedTracks.find t = some info →
    ∃ p, w.room.participants.find info.publisherId = some p ∧ idOf p = info.publisherId
  /-- The tracks are those that the participants report, and nobody else reports any. -/
  published : ∀ p t, t ∈ (w.objects p).publishedTracks ↔
    w.room.participants.find (idOf p) = some p ∧
      ∃ info, w.room.publishedTracks.find t = some info ∧ info.publisherId = idOf p
  /-- The count has 32 bits. -/
  count : w.room.participantCount = w.room.participants.size % 2 ^ 32
  active : w.room.state = .active ↔ w.room.participants.size ≠ 0
  closed : w.room.state = .closed → w.room.participants.size = 0

omit [DecidableEq ρ] in
theorem Inv.consistent (h : Inv idOf w) : Consistent idOf w where
  subscriptions s t := (h.agrees.byParticipant s t).symm
  reported := h.agrees.reported
  subscribed s t hst := by
    obtain ⟨hs, info, hinfo, hne⟩ := h.present s t hst
    exact ⟨hs, info, hinfo, hne, h.sound.publisher t info hinfo⟩
  publisher t info hinfo := by
    obtain ⟨p, hp⟩ := Option.ne_none_iff_exists'.1 (h.sound.publisher t info hinfo)
    exact ⟨p, hp, h.sound.named _ p hp⟩
  published p t := (h.roster.settled p).2 t
  count := h.sound.count
  active := h.sound.active
  closed hclosed := by
    by_contra hsize
    rw [h.sound.active.2 hsize] at hclosed
    cases hclosed

omit [DecidableEq ρ] in
/-- The state of a room that is neither new nor closed says whether somebody is in it. -/
theorem Consistent.empty_iff (h : Consistent idOf w) (hcreated : w.room.state ≠ .created)
    (hopen : w.room.state ≠ .closed) : w.room.state = .empty ↔ w.room.participants.size = 0 := by
  refine ⟨fun hempty => by_contra fun hsize => ?_, fun hsize => ?_⟩
  · cases hempty.symm.trans (h.active.2 hsize)
  · cases hstate : w.room.state with
    | created => exact absurd hstate hcreated
    | active => exact absurd hsize (h.active.1 hstate)
    | empty => rfl
    | closed => exact absurd hstate hopen

/-- After any calls the room is consistent, and if it is closed it stays closed and empty. `Close`
    closes it, and once a `Join` has been accepted a room that is open is `Empty` exactly if nobody
    is in it. In a room that subscribes everybody, and whose media endpoints never object, whoever
    is not subscribed to a track of another participant has ended the subscription itself, and has
    been in the room with the track since. -/
theorem calls_keep_room_consistent (idOf : ρ → String) (maxParticipants : ℕ)
    (autoSubscribe : Bool) (calls : List (Media × Call ρ)) :
    Consistent idOf (after idOf maxParticipants autoSubscribe calls) ∧
    ((after idOf maxParticipants autoSubscribe calls).room.state = .closed → ∀ calls',
      (after idOf maxParticipants autoSubscribe (calls ++ calls')).room.state = .closed ∧
      (after idOf maxParticipants autoSubscribe (calls ++ calls')).room.participants.size = 0) ∧
    (∀ pre media post, calls = pre ++ (media, .close) :: post →
      (after idOf maxParticipants autoSubscribe calls).room.state = .closed) ∧
    (∀ pre media p post, calls = pre ++ (media, .join p) :: post →
      CanJoinLocked idOf (after idOf maxParticipants autoSubscribe pre) p →
      (after idOf maxParticipants autoSubscribe calls).room.state ≠ .closed →
      ((after idOf maxParticipants autoSubscribe calls).room.state = .empty ↔
        (after idOf maxParticipants autoSubscribe calls).room.participants.size = 0)) ∧
    (autoSubscribe = true → (∀ call ∈ calls, ∀ s t, call.1.subscribe s t = true) →
      ∀ s t info, Hears (after idOf maxParticipants autoSubscribe calls) s t info →
        s ∈ members
          (after idOf maxParticipants autoSubscribe calls).room.trackSubscribers t ∨
        ∃ pre media post, calls = pre ++ (media, .unsubscribeTrack s t) :: post ∧
          s ∈ members
            (after idOf maxParticipants autoSubscribe pre).room.trackSubscribers t ∧
          ∀ post', post' <+: post → Hears (after idOf maxParticipants autoSubscribe
            (pre ++ (media, .unsubscribeTrack s t) :: post')) s t info) := by
  have hconsistent (calls : List (Media × Call ρ)) :
      Consistent idOf (after idOf maxParticipants autoSubscribe calls) :=
    (after_inv calls).1.consistent
  refine ⟨hconsistent calls, ?_, ?_, ?_, ?_⟩
  · intro hclosed calls'
    have hclosed' :=
      after_keeps_state (P := (· = .closed)) Entered.state_closed calls calls' hclosed
    exact ⟨hclosed', (hconsistent (calls ++ calls')).closed hclosed'⟩
  · rintro pre media post rfl
    exact after_close pre post
  · rintro pre media p post rfl hjoin
    exact (hconsistent _).empty_iff (after_join pre post hjoin)
  · rintro rfl hmedia s t info hhears
    exact or_iff_not_imp_left.2 fun hnot => after_auto calls hmedia hhears hnot

end Packetia.Room
