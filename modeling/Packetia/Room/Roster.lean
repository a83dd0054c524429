import Packetia.Room.Sections

/-!
# Participants and their tracks

What a room knows of its participants and their tracks, against what the participants report
(`Roster`), at any time between the sections of the calls: some calls still have something to do
to a participant. A section of a call keeps this if it does not overtake what would undo it
(`Unhindered`), and so does whatever a call does to a participant. When nothing is left to be
done, the room and the participants say the same.
-/

namespace Packetia.Room

open Table World List Option

variable {ρ : Type*} {idOf : ρ → String} {w w' : World ρ}
  {tails : List (Tail ρ)} {J : ρ → Prop} {call : Call ρ} {o : Outcome ρ} {p : ρ}

/-- `p` is in the room. -/
def InRoom (idOf : ρ → String) (w : World ρ) (p : ρ) : Prop :=
  w.room.participants.find (idOf p) = some p

/-- The room lists the track `t` for `p`. -/
def Lists (idOf : ρ → String) (w : World ρ) (p : ρ) (t : String) : Prop :=
  ∃ info, w.room.publishedTracks.find t = some info ∧ info.publisherId = idOf p

/-- Whom a call has something to do to. -/
def Tail.participant : Tail ρ → ρ
  | .setJoined p | .leave p | .removePublishedTrack p _ => p

/-- The room is consistent in itself. -/
structure Sound (idOf : ρ → String) (w : World ρ) : Prop where
  named : Named idOf w
  nonempty : w.room.participants.find "" = none ∧ w.room.publishedTracks.find "" = none
  publisher : ∀ t info, w.room.publishedTracks.find t = some info →
    w.room.participants.find info.publisherId ≠ none
  count : w.room.participantCount = w.room.participants.size % 2 ^ 32
  active : w.room.state = .active ↔ w.room.participants.size ≠ 0

/-- The participants are as the room has them, up to what is left to be done to them. `J` are
    those that have been in the room. -/
structure Roster (idOf : ρ → String) (w : World ρ) (tails : List (Tail ρ)) (J : ρ → Prop) :
    Prop where
  nodup : tails.Nodup
  joining : ∀ p, .setJoined p ∈ tails → InRoom idOf w p
  leaving : ∀ p, .leave p ∈ tails → ¬InRoom idOf w p ∧ (w.objects p).state ≠ .disconnected
  connected : ∀ p, InRoom idOf w p → .setJoined p ∈ tails ∨ (w.objects p).state ≠ .disconnected
  reported : ∀ p t, InRoom idOf w p → (t ∈ (w.objects p).publishedTracks ↔
    Lists idOf w p t ∨ .removePublishedTrack p t ∈ tails)
  exclusive : ∀ p t, InRoom idOf w p → Lists idOf w p t → .removePublishedTrack p t ∉ tails
  gone : ∀ p, ¬InRoom idOf w p → .leave p ∈ tails ∨
    (w.objects p).publishedTracks = [] ∧ (J p → (w.objects p).state = .disconnected)

theorem start_sound (maxParticipants : ℕ) (autoSubscribe : Bool) :
    Sound idOf (start maxParticipants autoSubscribe) where
  named := nofun
  nonempty := ⟨rfl, rfl⟩
  publisher := nofun
  count := rfl
  active := by simp [start]

theorem start_roster (maxParticipants : ℕ) (autoSubscribe : Bool) :
    Roster idOf (start maxParticipants autoSubscribe) [] fun _ => False where
  nodup := .nil
  joining := nofun
  leaving := nofun
  connected := nofun
  reported := nofun
  exclusive := nofun
  gone _ _ := .inr ⟨rfl, False.elim⟩

/-! ## What is in the room -/

theorem Sound.of_room_eq (h : Sound idOf w) (hroom : w'.room = w.room) : Sound idOf w' := by
  cases w'
  cases hroom
  exact { h with }

section

variable (hframe : Frame w w')
include hframe

theorem Frame.sound (h : Sound idOf w) : Sound idOf w' where
  named := h.named.frame hframe
  nonempty := by
    rw [hframe.participants, hframe.publishedTracks]
    exact h.nonempty
  publisher := by
    rw [hframe.participants, hframe.publishedTracks]
    exact h.publisher
  count := by
    rw [hframe.room]
    exact h.count
  active := by
    rw [hframe.room]
    exact h.active

theorem Frame.inRoom (p : ρ) : InRoom idOf w' p ↔ InRoom idOf w p := by
  rw [InRoom, InRoom, hframe.participants]

theorem Frame.lists (p : ρ) (t : String) : Lists idOf w' p t ↔ Lists idOf w p t := by
  rw [Lists, Lists, hframe.publishedTracks]

/-- Subscriptions do not matter. -/
theorem Frame.roster (h : Roster idOf w tails J) : Roster idOf w' tails J where
  nodup := h.nodup
  joining p hp := (hframe.inRoom p).2 (h.joining p hp)
  leaving p hp := by
    rw [hframe.inRoom, hframe.state]
    exact h.leaving p hp
  connected p hp := by
    rw [hframe.state]
    exact h.connected p ((hframe.inRoom p).1 hp)
  reported p t hp := by
    rw [hframe.published, hframe.lists]
    exact h.reported p t ((hframe.inRoom p).1 hp)
  exclusive p t hp ht := h.exclusive p t ((hframe.inRoom p).1 hp) ((hframe.lists p t).1 ht)
  gone p hp := by
    rw [hframe.published, hframe.state]
    exact h.gone p (mt (hframe.inRoom p).2 hp)

end

theorem mem_tracksWhere {test : PublishedTrackInfo → Bool} {t : String} :
    t ∈ w.tracksWhere test ↔
      ∃ info, w.room.publishedTracks.find t = some info ∧ test info = true := by
  rw [World.tracksWhere, mem_filter, Option.any_eq_true]
  refine and_iff_right_of_imp ?_
  rintro ⟨info, hinfo, -⟩
  exact mem_keys_of_find hinfo

theorem Named.inRoom {id : String} (h : Named idOf w)
    (hp : w.room.participants.find id = some p) : InRoom idOf w p := by
  rw [InRoom, h id p hp]
  exact hp

/-- Nobody else is in the room under an id. -/
theorem InRoom.eq {id : String} {p q : ρ} (h : InRoom idOf w q)
    (hp : w.room.participants.find id = some p) (hid : idOf q = id) : q = p := by
  rw [InRoom, hid, hp] at h
  exact (some.inj h).symm

theorem mem_append_of_ne {tail last : Tail ρ} (hne : tail ≠ last := by simp) :
    tail ∈ tails ++ [last] ↔ tail ∈ tails := by
  rw [mem_append, mem_singleton, or_iff_left hne]

/-! ## Sections of calls -/

theorem seat_named (hnamed : Named idOf w) (p : ρ) : Named idOf (w.seat (idOf p) p) :=
  forall_find_set (P := fun id q => idOf q = id) rfl hnamed

section Join

variable {p : ρ} (hjoin : CanJoinLocked idOf w p)

include hjoin

theorem CanJoinLocked.fresh : idOf p ≠ "" ∧ w.room.participants.find (idOf p) = none := by
  have hid := hjoin.2.1
  rwa [not_or, not_not] at hid

theorem enroll_inRoom (q : ρ) : InRoom idOf (w.enroll (idOf p) p) q ↔ q = p ∨ InRoom idOf w q := by
  have hfind : (w.enroll (idOf p) p).room.participants.find (idOf q) =
      if idOf q = idOf p then some p else w.room.participants.find (idOf q) := find_set ..
  rw [InRoom, hfind]
  split_ifs with hid
  · have hq : ¬InRoom idOf w q := by
      rw [InRoom, hid, hjoin.fresh.2]
      exact nofun
    rw [or_iff_left hq, some_inj, eq_comm]
  · refine (or_iff_right ?_).symm
    rintro rfl
    exact hid rfl

theorem enroll_sound (h : Sound idOf w) : Sound idOf (w.enroll (idOf p) p) where
  named := seat_named h.named p
  nonempty := ⟨(find_set_of_ne hjoin.fresh.1.symm).trans h.nonempty.1, h.nonempty.2⟩
  publisher t info ht := by
    have hne : info.publisherId ≠ idOf p := fun hid =>
      h.publisher t info ht (hid ▸ hjoin.fresh.2)
    exact (find_set_of_ne hne).trans_ne (h.publisher t info ht)
  count := rfl
  active := by
    have hsize : (w.room.participants.set (idOf p) p).size = w.room.participants.size + 1 :=
      size_set_of_none hjoin.fresh.2
    simp [World.enroll, World.seat, World.updateStateLocked, hjoin.1, hsize]

/-- A participant comes in after everything has been done to it. -/
theorem enroll_roster (hsound : Sound idOf w) (h : Roster idOf w tails J)
    (hquiet : ∀ tail ∈ tails, tail.participant ≠ p) :
    Roster idOf (w.enroll (idOf p) p) (tails ++ [.setJoined p]) fun q => J q ∨ q = p := by
  have hnot : ¬InRoom idOf w p := by
    rw [InRoom, hjoin.fresh.2]
    exact nofun
  have hunlisted : ∀ t, ¬Lists idOf w p t := fun t ⟨info, hinfo, hid⟩ =>
    hsound.publisher t info hinfo (hid ▸ hjoin.fresh.2)
  -- It has nothing to report: it was not in the room, and has left before if it ever was.
  have hreported : (w.objects p).publishedTracks = [] :=
    ((h.gone p hnot).resolve_left fun hleave => hquiet _ hleave rfl).1
  constructor
  · refine nodup_append_comm.1 (nodup_cons.2 ⟨fun hin => hquiet _ hin rfl, h.nodup⟩)
  · intro q hq
    rw [enroll_inRoom hjoin]
    rcases mem_append.1 hq with hq | hq
    · exact .inr (h.joining q hq)
    · cases mem_singleton.1 hq
      exact .inl rfl
  · intro q hq
    have hleave := (mem_append_of_ne).1 hq
    rw [enroll_inRoom hjoin, not_or]
    exact ⟨⟨hquiet _ hleave, (h.leaving q hleave).1⟩, (h.leaving q hleave).2⟩
  · intro q hq
    rcases (enroll_inRoom hjoin q).1 hq with rfl | hq
    · exact .inl mem_concat_self
    · exact (h.connected q hq).imp_left (mem_append_left _)
  · intro q t hq
    rw [mem_append_of_ne]
    rcases (enroll_inRoom hjoin q).1 hq with rfl | hq
    · refine iff_of_false ?_ (not_or.2 ⟨hunlisted t, fun hin => hquiet _ hin rfl⟩)
      exact fun hin => not_mem_nil (hreported ▸ hin)
    · exact h.reported q t hq
  · intro q t hq ht hin
    replace hin := (mem_append_of_ne).1 hin
    rcases (enroll_inRoom hjoin q).1 hq with rfl | hq
    · exact hquiet _ hin rfl
    · exact h.exclusive q t hq ht hin
  · intro q hq
    rw [enroll_inRoom hjoin, not_or] at hq
    refine (h.gone q hq.2).imp (mem_append_left _) fun hgone => ⟨hgone.1, fun hJ => ?_⟩
    exact hgone.2 (hJ.resolve_right hq.1)

end Join

section Leave

variable {id : String} {p : ρ} (hp : w.room.participants.find id = some p)

include hp

theorem dismiss_inRoom (hnamed : Named idOf w) (q : ρ) :
    InRoom idOf (w.dismiss id) q ↔ InRoom idOf w q ∧ q ≠ p := by
  have hfind : (w.dismiss id).room.participants.find (idOf q) =
      if idOf q = id then none else w.room.participants.find (idOf q) := find_erase ..
  rw [InRoom, hfind]
  split_ifs with hid
  · exact iff_of_false (fun h => by cases h) fun hq => hq.2 (hq.1.eq hp hid)
  · refine (and_iff_left ?_).symm
    rintro rfl
    exact hid (hnamed id q hp)

omit hp in
theorem dismiss_find (t : String) (info : PublishedTrackInfo) :
    (w.dismiss id).room.publishedTracks.find t = some info ↔
      w.room.publishedTracks.find t = some info ∧ info.publisherId ≠ id := by
  have hfind : (w.dismiss id).room.publishedTracks.find t =
      if t ∈ w.tracksWhere (fun info => info.publisherId = id) then none
      else w.room.publishedTracks.find t := find_foldl_erase ..
  rw [hfind]
  split_ifs with ht
  · obtain ⟨info', hinfo', hid⟩ := mem_tracksWhere.1 ht
    refine iff_of_false (fun h => by cases h) fun hinfo => hinfo.2 ?_
    cases hinfo'.symm.trans hinfo.1
    exact of_decide_eq_true hid
  · refine (and_iff_left_of_imp fun hinfo hid => ht ?_).symm
    exact mem_tracksWhere.2 ⟨info, hinfo, decide_eq_true hid⟩

omit hp in
theorem dismiss_lists (q : ρ) (t : String) :
    Lists idOf (w.dismiss id) q t ↔ Lists idOf w q t ∧ idOf q ≠ id := by
  constructor
  · rintro ⟨info, hinfo, hq⟩
    rw [dismiss_find] at hinfo
    exact ⟨⟨info, hinfo.1, hq⟩, hq ▸ hinfo.2⟩
  · rintro ⟨⟨info, hinfo, hq⟩, hne⟩
    exact ⟨info, (dismiss_find t info).2 ⟨hinfo, hq ▸ hne⟩, hq⟩

theorem dismiss_sound (h : Sound idOf w) : Sound idOf (w.dismiss id) where
  named id' q hq := h.named id' q (find_of_find_erase hq)
  nonempty := by
    have hid : "" ≠ id := fun hid => by
      rw [← hid, h.nonempty.1] at hp
      cases hp
    refine ⟨(find_erase_of_ne hid).trans h.nonempty.1, ?_⟩
    exact (find_foldl_erase ..).trans (by rw [h.nonempty.2, ite_self])
  publisher t info ht := by
    rw [dismiss_find] at ht
    exact (find_erase_of_ne ht.2).trans_ne (h.publisher t info ht.1)
  count := rfl
  active := by
    -- A room with a participant in it is not closed.
    have hsize : w.room.participants.size ≠ 0 :=
      fun hzero => ne_nil_of_mem (mem_keys_of_find hp) (length_eq_zero_iff.1 hzero)
    have hactive : w.room.state = .active := h.active.2 hsize
    simp only [World.dismiss, World.updateStateLocked, hactive]
    split_ifs with hempty <;> simp_all

/-- A participant goes after it has been told that it is in. -/
theorem dismiss_roster (hsound : Sound idOf w) (h : Roster idOf w tails J)
    (hquiet : .setJoined p ∉ tails) : Roster idOf (w.dismiss id) (tails ++ [.leave p]) J := by
  have hin : InRoom idOf w p := hsound.named.inRoom hp
  have hrest := dismiss_inRoom hp hsound.named
  constructor
  · refine nodup_append_comm.1 (nodup_cons.2 ⟨fun hleave => ?_, h.nodup⟩)
    exact (h.leaving p hleave).1 hin
  · intro q hq
    have hjoined := (mem_append_of_ne).1 hq
    rw [hrest]
    refine ⟨h.joining q hjoined, ?_⟩
    rintro rfl
    exact hquiet hjoined
  · intro q hq
    rw [hrest]
    rcases mem_append.1 hq with hq | hq
    · exact ⟨fun hq' => (h.leaving q hq).1 hq'.1, (h.leaving q hq).2⟩
    · cases mem_singleton.1 hq
      exact ⟨fun hq' => hq'.2 rfl, (h.connected p hin).resolve_left hquiet⟩
  · intro q hq
    rw [hrest] at hq
    exact (h.connected q hq.1).imp_left (mem_append_left _)
  · intro q t hq
    rw [hrest] at hq
    rw [mem_append_of_ne, dismiss_lists, and_iff_left fun hid => hq.2 (hq.1.eq hp hid)]
    exact h.reported q t hq.1
  · intro q t hq ht hin
    rw [hrest] at hq
    rw [dismiss_lists] at ht
    exact h.exclusive q t hq.1 ht.1 ((mem_append_of_ne).1 hin)
  · intro q hq
    rw [hrest, not_and_or, not_not] at hq
    by_cases hqp : q = p
    · rw [hqp]
      exact .inl mem_concat_self
    · exact (h.gone q (hq.resolve_right hqp)).imp_left (mem_append_left _)

end Leave

section Publish

variable [DecidableEq ρ] {id t : String} {p : ρ}
  (hp : w.room.participants.find id = some p)
  (hnew : w.room.publishedTracks.find t = none)

theorem announce_find (t' : String) : (w.announce id p t).room.publishedTracks.find t' =
    if t' = t then some ⟨w.room.nextPublicationId + 1, id⟩
    else w.room.publishedTracks.find t' := find_set ..

include hnew in
theorem announce_lists (q : ρ) (t' : String) :
    Lists idOf (w.announce id p t) q t' ↔ Lists idOf w q t' ∨ t' = t ∧ idOf q = id := by
  rw [Lists, announce_find]
  split_ifs with ht
  · have hnot : ¬Lists idOf w q t' := by
      rintro ⟨info, hinfo, -⟩
      rw [ht, hnew] at hinfo
      cases hinfo
    rw [or_iff_right hnot, and_iff_right ht]
    simp [eq_comm]
  · simp [Lists, ht]

include hp in
theorem announce_sound (h : Sound idOf w) (ht : t ≠ "") : Sound idOf (w.announce id p t) where
  named := h.named
  nonempty := ⟨h.nonempty.1, (announce_find "").trans (by rw [if_neg ht.symm, h.nonempty.2])⟩
  publisher := forall_find_set (hp.trans_ne (some_ne_none p)) h.publisher
  count := h.count
  active := h.active

theorem announce_state (q : ρ) : ((w.announce id p t).objects q).state = (w.objects q).state :=
  objects_modify_apply Participant.state (by exact fun _ => rfl) p q

include hp hnew in
/-- A participant publishes a track that it does not report. -/
theorem announce_roster (hsound : Sound idOf w) (h : Roster idOf w tails J)
    (hreported : t ∉ (w.objects p).publishedTracks) : Roster idOf (w.announce id p t) tails J := by
  have hid : idOf p = id := hsound.named id p hp
  have hin : InRoom idOf w p := hsound.named.inRoom hp
  have hother : ∀ q, q ≠ p →
      ((w.announce id p t).objects q).publishedTracks = (w.objects q).publishedTracks :=
    fun q hq => by rw [World.announce, objects_modify_of_ne hq]
  refine ⟨h.nodup, h.joining, ?_, ?_, ?_, ?_, ?_⟩
  · intro q hq
    rw [announce_state]
    exact h.leaving q hq
  · intro q hq
    rw [announce_state]
    exact h.connected q hq
  · intro q t' hq
    rw [announce_lists hnew]
    by_cases hqp : q = p
    · subst hqp
      have hself : ((w.announce id q t).objects q).publishedTracks =
          (w.objects q).publishedTracks ++ [t] := by
        rw [World.announce, objects_modify_self]
      rw [hself, mem_append, mem_singleton, h.reported q t' hin, or_right_comm, and_iff_left hid]
    · have hnot : ¬(t' = t ∧ idOf q = id) := fun hid => hqp (hq.eq hp hid.2)
      rw [hother q hqp, or_iff_left hnot]
      exact h.reported q t' hq
  · intro q t' hq ht' hremove
    rcases (announce_lists hnew q t').1 ht' with ht' | ⟨rfl, hqid⟩
    · exact h.exclusive q t' hq ht' hremove
    · cases hq.eq hp hqid
      exact hreported ((h.reported _ _ hq).2 (.inr hremove))
  · intro q hq
    have hqp : q ≠ p := fun hqp => hq (hqp ▸ hin)
    rw [hother q hqp, announce_state]
    exact h.gone q hq

end Publish

section Unpublish

variable {t : String} {info : PublishedTrackInfo}
  (hinfo : w.room.publishedTracks.find t = some info)

theorem withdraw_lists (q : ρ) (t' : String) :
    Lists idOf (w.withdraw t) q t' ↔ Lists idOf w q t' ∧ t' ≠ t := by
  have hfind : (w.withdraw t).room.publishedTracks.find t' =
      if t' = t then none else w.room.publishedTracks.find t' := find_erase ..
  rw [Lists, hfind]
  split_ifs with ht <;> simp [Lists, ht]

theorem withdraw_sound (h : Sound idOf w) : Sound idOf (w.withdraw t) where
  named := h.named
  nonempty := ⟨h.nonempty.1, (find_erase ..).trans (by rw [h.nonempty.2, ite_self])⟩
  publisher t' info hinfo := h.publisher t' info (find_of_find_erase hinfo)
  count := h.count
  active := h.active

include hinfo

/-- A track goes, and its publisher is to be told. -/
theorem withdraw_roster (hsound : Sound idOf w) (h : Roster idOf w tails J) :
    Roster idOf (w.withdraw t) (tails ++ (w.room.participants.find info.publisherId).toList.map
      fun p => .removePublishedTrack p t) J := by
  obtain ⟨p, hp⟩ := ne_none_iff_exists'.1 (hsound.publisher t info hinfo)
  have hin : InRoom idOf w p := hsound.named.inRoom hp
  have hlists : Lists idOf w p t := ⟨info, hinfo, (hsound.named _ p hp).symm⟩
  rw [hp, toList_some, map_singleton]
  refine ⟨?_, ?_, ?_, ?_, ?_, ?_, ?_⟩
  · exact nodup_append_comm.1
      (nodup_cons.2 ⟨h.exclusive p t hin hlists, h.nodup⟩)
  · exact fun q hq => h.joining q ((mem_append_of_ne).1 hq)
  · exact fun q hq => h.leaving q ((mem_append_of_ne).1 hq)
  · exact fun q hq => (h.connected q hq).imp_left (mem_append_left _)
  · intro q t' hq
    rw [withdraw_lists, mem_append, mem_singleton, Tail.removePublishedTrack.injEq]
    refine (h.reported q t' hq).trans ?_
    by_cases ht : t' = t
    · -- The track is the one that goes: the room lists it for its publisher alone.
      subst ht
      have honly : Lists idOf w q t' ↔ q = p := by
        refine ⟨?_, fun hq' => hq' ▸ hlists⟩
        rintro ⟨info', hinfo', hq'⟩
        cases hinfo.symm.trans hinfo'
        exact hq.eq hp hq'.symm
      simp [honly, or_comm]
    · simp [ht]
  · intro q t' hq ht' hremove
    rw [withdraw_lists] at ht'
    refine h.exclusive q t' hq ht'.1 ((mem_append_of_ne fun heq => ?_).1 hremove)
    cases heq
    exact ht'.2 rfl
  · exact fun q hq => (h.gone q hq).imp_left (mem_append_left _)

end Unpublish

section Close

theorem mem_present (hnamed : Named idOf w) (p : ρ) : p ∈ w.present ↔ InRoom idOf w p := by
  rw [World.present, mem_filterMap]
  constructor
  · rintro ⟨id, -, hid⟩
    exact hnamed.inRoom hid
  · exact fun hp => ⟨idOf p, mem_keys_of_find hp, hp⟩

theorem present_nodup (hnamed : Named idOf w) : w.present.Nodup := by
  refine List.Nodup.filterMap ?_ w.room.participants.nodup
  intro id id' p hp hp'
  rw [← hnamed id p hp, ← hnamed id' p hp']

theorem shut_sound (idOf : ρ → String) (w : World ρ) : Sound idOf w.shut where
  named := nofun
  nonempty := ⟨rfl, rfl⟩
  publisher := nofun
  count := rfl
  active := by simp [World.shut]

/-- Everybody goes after having been told to be in. -/
theorem shut_roster (hsound : Sound idOf w) (h : Roster idOf w tails J)
    (hquiet : ∀ p, InRoom idOf w p → .setJoined p ∉ tails) :
    Roster idOf w.shut (tails ++ w.present.map .leave) J := by
  have hempty : ∀ p, ¬InRoom idOf w.shut p := nofun
  have hleave : ∀ p, Tail.leave p ∈ w.present.map .leave ↔ InRoom idOf w p := fun p => by
    rw [← mem_present hsound.named]
    exact mem_map_of_injective fun _ _ h => Tail.leave.inj h
  refine ⟨?_, ?_, ?_, ?_, ?_, ?_, ?_⟩
  · refine h.nodup.append ((present_nodup hsound.named).map fun _ _ h => Tail.leave.inj h) ?_
    intro tail htail hmap
    obtain ⟨p, -, rfl⟩ := mem_map.1 hmap
    exact (h.leaving p htail).1 ((hleave p).1 hmap)
  · intro p hp
    rcases mem_append.1 hp with hp | hp
    · exact absurd hp (hquiet p (h.joining p hp))
    · obtain ⟨q, -, hq⟩ := mem_map.1 hp
      cases hq
  · intro p hp
    refine ⟨hempty p, ?_⟩
    rcases mem_append.1 hp with hp | hp
    · exact (h.leaving p hp).2
    · have hin := (hleave p).1 hp
      exact (h.connected p hin).resolve_left (hquiet p hin)
  · exact fun p hp => absurd hp (hempty p)
  · exact fun p t hp => absurd hp (hempty p)
  · exact fun p t hp => absurd hp (hempty p)
  · intro p _
    by_cases hin : InRoom idOf w p
    · exact .inl (mem_append_right _ ((hleave p).2 hin))
    · exact (h.gone p hin).imp_left (mem_append_left _)

end Close

variable [DecidableEq ρ] {tail : Tail ρ}

/-- The call does not overtake what is left to be done: nobody comes in of whom an earlier call
    still has something to do, and nobody goes who still has to be told to be in. -/
def Unhindered (idOf : ρ → String) (w : World ρ) (tails : List (Tail ρ)) : Call ρ → Prop
  | .join p => CanJoinLocked idOf w p → ∀ tail ∈ tails, tail.participant ≠ p
  | .leave id => ∀ p, w.room.participants.find id = some p → .setJoined p ∉ tails
  | .close => ∀ p, InRoom idOf w p → .setJoined p ∉ tails
  | _ => True

theorem Entered.sound (hcall : Entered idOf w call o) (h : Sound idOf w) : Sound idOf o.world := by
  cases hcall with
  | refused | closed => exact h
  | subscribeTrack hframe | unsubscribeTrack hframe => exact hframe.sound h
  | join hjoin hframe => exact hframe.sound (enroll_sound hjoin h)
  | leave hp hframe => exact hframe.sound (dismiss_sound hp h)
  | publishTrack ht hp _ _ hframe => exact hframe.sound (announce_sound hp h ht)
  | unpublishTrack _ hframe => exact hframe.sound (withdraw_sound h)
  | close => exact shut_sound idOf w

/-- The section of a call keeps the roster. -/
theorem Entered.roster (hcall : Entered idOf w call o) (hsound : Sound idOf w)
    (h : Roster idOf w tails J) (hfree : Unhindered idOf w tails call) :
    Roster idOf o.world (tails ++ o.tails) fun p => J p ∨ call = .join p ∧ o.result = true := by
  have hsame : ∀ {w' : World ρ} {tails' : List (Tail ρ)} {result : Bool},
      (∀ p, call ≠ .join p ∨ result = false) → Roster idOf w' tails' J →
      Roster idOf w' tails' fun p => J p ∨ call = .join p ∧ result = true := by
    intro w' tails' result hno h'
    have hJ : (fun p => J p ∨ call = .join p ∧ result = true) = J := by
      funext p
      refine propext (or_iff_left ?_)
      rintro ⟨hcall, rfl⟩
      exact (hno p).elim (fun h => h hcall) Bool.noConfusion
    rwa [hJ]
  cases hcall with
  | refused =>
    rw [append_nil]
    exact hsame (fun _ => .inr rfl) h
  | closed =>
    rw [append_nil]
    exact hsame (fun _ => .inl nofun) h
  | subscribeTrack hframe | unsubscribeTrack hframe =>
    rw [append_nil]
    exact hsame (fun _ => .inl nofun) (hframe.roster h)
  | @join p w' hjoin hframe =>
    have hroster := hframe.roster (enroll_roster hjoin hsound h (hfree hjoin))
    have hJ : (fun q => J q ∨ Call.join p = .join q ∧ true = true) = fun q => J q ∨ q = p := by
      funext q
      simp [eq_comm]
    rwa [hJ]
  | leave hp hframe =>
    exact hsame (fun _ => .inl nofun)
      (hframe.roster (dismiss_roster hp hsound h (hfree _ hp)))
  | publishTrack _ hp hnew hreported hframe =>
    rw [append_nil]
    exact hsame (fun _ => .inl nofun)
      (hframe.roster (announce_roster hp hnew hsound h hreported))
  | unpublishTrack hinfo hframe =>
    exact hsame (fun _ => .inl nofun)
      (hframe.roster (withdraw_roster hinfo hsound h))
  | close => exact hsame (fun _ => .inl nofun) (shut_roster hsound h hfree)

/-! ## What is done to a participant -/

theorem Tail.room_run (w : World ρ) (tail : Tail ρ) : (tail.run w).room = w.room := by
  cases tail <;> rfl

namespace Roster

omit [DecidableEq ρ] in
theorem perm {tails' : List (Tail ρ)} (h : Roster idOf w tails J) (hperm : tails.Perm tails') :
    Roster idOf w tails' J where
  nodup := hperm.nodup_iff.1 h.nodup
  joining p hp := h.joining p (hperm.mem_iff.2 hp)
  leaving p hp := h.leaving p (hperm.mem_iff.2 hp)
  connected p hp := (h.connected p hp).imp_left hperm.mem_iff.1
  reported p t hp := (h.reported p t hp).trans (or_congr_right hperm.mem_iff)
  exclusive p t hp ht hin := h.exclusive p t hp ht (hperm.mem_iff.2 hin)
  gone p hp := (h.gone p hp).imp_left hperm.mem_iff.1

omit [DecidableEq ρ] in
theorem mono {J' : ρ → Prop} (h : Roster idOf w tails J) (hJ : ∀ p, J' p → J p) :
    Roster idOf w tails J' :=
  { h with gone := fun p hp => (h.gone p hp).imp_right fun hgone =>
      ⟨hgone.1, fun hp => hgone.2 (hJ p hp)⟩ }

/-- Something is done to `p`: of the others nothing has to be seen to. -/
theorem modify (h : Roster idOf w (tail :: tails) J) (p : ρ)
    (f : Participant → Participant) (hp : tail.participant = p)
    (hleaving : .leave p ∈ tails → (f (w.objects p)).state ≠ .disconnected)
    (hconnected : InRoom idOf w p → .setJoined p ∈ tails ∨ (f (w.objects p)).state ≠ .disconnected)
    (hreported : InRoom idOf w p → ∀ t, t ∈ (f (w.objects p)).publishedTracks ↔
      Lists idOf w p t ∨ .removePublishedTrack p t ∈ tails)
    (hgone : ¬InRoom idOf w p → .leave p ∈ tails ∨ (f (w.objects p)).publishedTracks = [] ∧
      (J p → (f (w.objects p)).state = .disconnected)) : Roster idOf (w.modify p f) tails J := by
  have hskip : ∀ other : Tail ρ, other.participant ≠ p → (other ∈ tail :: tails ↔ other ∈ tails) :=
    fun other hother => mem_cons.trans (or_iff_right fun heq => hother (heq ▸ hp))
  refine ⟨h.nodup.of_cons, fun q hq => h.joining q (.tail _ hq), fun q hq => ?_, fun q hq => ?_,
    fun q t hq => ?_, fun q t hq ht hremove => h.exclusive q t hq ht (.tail _ hremove),
    fun q hq => ?_⟩
  all_goals obtain rfl | hqp := eq_or_ne q p
  · rw [objects_modify_self]
    exact ⟨(h.leaving q (.tail _ hq)).1, hleaving hq⟩
  · rw [objects_modify_of_ne hqp]
    exact h.leaving q (.tail _ hq)
  · rw [objects_modify_self]
    exact hconnected hq
  · rw [objects_modify_of_ne hqp]
    exact (h.connected q hq).imp_left (hskip (.setJoined q) hqp).1
  · rw [objects_modify_self]
    exact hreported hq t
  · rw [objects_modify_of_ne hqp]
    exact (h.reported q t hq).trans (or_congr_right (hskip _ hqp))
  · rw [objects_modify_self]
    exact hgone hq
  · rw [objects_modify_of_ne hqp]
    exact (h.gone q hq).imp_left (hskip (.leave q) hqp).1

theorem run_setJoined (h : Roster idOf w (.setJoined p :: tails) J) :
    Roster idOf (Tail.run w (.setJoined p)) tails J := by
  have hin : InRoom idOf w p := h.joining p mem_cons_self
  refine h.modify p (·.setState .joined) rfl (fun _ => nofun) (fun _ => .inr nofun)
    (fun _ t => ?_) (absurd hin)
  exact (h.reported p t hin).trans (or_congr_right (mem_cons.trans (or_iff_right nofun)))

theorem run_leave (h : Roster idOf w (.leave p :: tails) J) :
    Roster idOf (Tail.run w (.leave p)) tails J := by
  obtain ⟨hout, hstate⟩ := h.leaving p mem_cons_self
  -- It is still connected, so it forgets everything.
  have hself : (w.objects p).leave = ⟨.disconnected, [], []⟩ := if_neg hstate
  refine h.modify p _ rfl (fun hin => absurd hin (nodup_cons.1 h.nodup).1)
    (fun hin => absurd hin hout) (fun hin => absurd hin hout) fun _ => .inr ?_
  rw [hself]
  exact ⟨rfl, fun _ => rfl⟩

theorem run_removePublishedTrack {t : String}
    (h : Roster idOf w (.removePublishedTrack p t :: tails) J) :
    Roster idOf (Tail.run w (.removePublishedTrack p t)) tails J := by
  refine h.modify p (·.removePublishedTrack t) rfl (fun hleave => (h.leaving p (.tail _ hleave)).2)
    (fun hin => (h.connected p hin).imp_left (mem_of_ne_of_mem (by simp))) (fun hin t' => ?_)
    fun hout => (h.gone p hout).imp (mem_of_ne_of_mem (by simp)) fun hgone => ⟨?_, hgone.2⟩
  · have hfilter : t' ∈ ((w.objects p).removePublishedTrack t).publishedTracks ↔
        t' ∈ (w.objects p).publishedTracks ∧ t' ≠ t := by
      rw [Participant.removePublishedTrack]
      simp
    rw [hfilter, h.reported p t' hin, mem_cons, Tail.removePublishedTrack.injEq]
    by_cases ht : t' = t
    · -- The room does not list a track that is to be removed.
      subst ht
      refine iff_of_false (fun h => h.2 rfl) (not_or.2 ⟨fun ht => ?_, (nodup_cons.1 h.nodup).1⟩)
      exact h.exclusive p t' hin ht mem_cons_self
    · simp only [ht, and_false, false_or, ne_eq, not_false_eq_true, and_true]
  · rw [Participant.removePublishedTrack, hgone.1]
    rfl

theorem run (h : Roster idOf w (tail :: tails) J) : Roster idOf (tail.run w) tails J := by
  cases tail with
  | setJoined p => exact run_setJoined h
  | leave p => exact run_leave h
  | removePublishedTrack p t => exact run_removePublishedTrack h

omit [DecidableEq ρ] in
/-- Nothing is left to be done. -/
theorem settled (h : Roster idOf w [] J) (p : ρ) :
    (J p → ((w.objects p).state = .disconnected ↔ ¬InRoom idOf w p)) ∧
    ∀ t, t ∈ (w.objects p).publishedTracks ↔ InRoom idOf w p ∧ Lists idOf w p t := by
  by_cases hin : InRoom idOf w p
  · have hconnected := (h.connected p hin).resolve_left not_mem_nil
    refine ⟨fun _ => iff_of_false hconnected (not_not.2 hin), fun t => ?_⟩
    rw [h.reported p t hin, or_iff_left not_mem_nil, and_iff_right hin]
  · have hgone := (h.gone p hin).resolve_left not_mem_nil
    refine ⟨fun hJ => iff_of_true (hgone.2 hJ) hin, fun t => ?_⟩
    rw [hgone.1]
    exact iff_of_false not_mem_nil fun h => hin h.1

end Roster

end Packetia.Room
