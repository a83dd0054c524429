import Packetia.H264.Unwrapping
import Packetia.Twcc.Generator

/-!
# Three unwrappers

Two classes and a function extend a number of 16 bits to the extension closest to the largest one so
far. One adds the number to the base of the current turn, another a signed difference to the last
number; they return the same on every input. On a stream whose every number is less than half a
turn from the largest one before it, each returns the true number up to whole turns, the same for
the whole stream (`unwrappers_agree`): the largest number is always known up to them
(`mediaAfter_close`).
-/

namespace Packetia.Rtp

open List
open BitVec (ofInt toNat_ofInt)
open Twcc (Generator)

/-- `rtsp::RtpSequenceNumberUnwrapper`. -/
structure Unwrapper where
  initialized : Bool := false
  lastUnwrapped : ℤ := 0

/-- `delta` in `Unwrap`. -/
def deltaFrom (last : ℤ) (s : BitVec 16) : ℤ :=
  let delta := s.toNat - last % 65536
  if delta < -32768 then delta + 65536
  else if delta > 32768 then delta - 65536
  else delta

/-- `Unwrap`. -/
def Unwrapper.unwrap (u : Unwrapper) (s : BitVec 16) : ℤ × Unwrapper :=
  if u.initialized then
    let candidate := u.lastUnwrapped + deltaFrom u.lastUnwrapped s
    (candidate, if candidate > u.lastUnwrapped then { u with lastUnwrapped := candidate } else u)
  else (s.toNat, { initialized := true, lastUnwrapped := s.toNat })

/-- The same state of the other class. -/
def Unwrapper.toMedia (u : Unwrapper) : H264.Unwrapper := ⟨u.initialized, u.lastUnwrapped⟩

/-- The unwrapper of the media buffer after the numbers `ss`. -/
def mediaAfter (ss : List (BitVec 16)) : H264.Unwrapper := run (fun u s => (u.unwrap s).2) {} ss

/-- The unwrapper of the RTSP side after the numbers `ss`. -/
def rtspAfter (ss : List (BitVec 16)) : Unwrapper := run (fun u s => (u.unwrap s).2) {} ss

theorem toMedia_unwrap (u : Unwrapper) (s : BitVec 16) :
    u.toMedia.unwrap s = ((u.unwrap s).1, (u.unwrap s).2.toMedia) := by
  have hnear : H264.unwrapNear u.lastUnwrapped s =
      u.lastUnwrapped + deltaFrom u.lastUnwrapped s := by
    rw [H264.unwrapNear, deltaFrom]
    split_ifs <;> omega
  rw [Unwrapper.unwrap, H264.Unwrapper.unwrap]
  simp only [Unwrapper.toMedia, hnear]
  by_cases hinit : u.initialized = true
  · rw [if_pos hinit, if_pos hinit]
    split_ifs with hgt
    · rw [max_eq_right hgt.le]
    · rw [max_eq_left (not_lt.1 hgt)]
  · rw [if_neg hinit, if_neg hinit]

theorem rtspAfter_unwrap (ss : List (BitVec 16)) (s : BitVec 16) :
    ((rtspAfter ss).unwrap s).1 = ((mediaAfter ss).unwrap s).1 := by
  have hsame : (rtspAfter ss).toMedia = mediaAfter ss := by
    refine run_induction (P := fun ss (u : Unwrapper) => u.toMedia = mediaAfter ss) rfl
      (fun ss s ih => ?_) ss
    rw [mediaAfter, run_concat, ← mediaAfter, ← ih, toMedia_unwrap]
  rw [← hsame, toMedia_unwrap]

/-! ## The generator of transport feedback -/

/-- What the generator is given: packets by their true numbers, and requests for a report. -/
inductive Feed
  | packet (x arrivalTimeUs : ℤ)
  | report (senderSsrc mediaSsrc : BitVec 32) (nowUs : ℤ)

/-- The number that is unwrapped. A packet without an arrival time is refused before. -/
def Feed.number : Feed → Option ℤ
  | .packet x arrivalTimeUs => if arrivalTimeUs < 0 then none else some x
  | .report _ _ _ => none

def feed (cfg : Twcc.Config) (g : Generator) : Feed → Generator
  | .packet x t => (g.onPacket cfg (ofInt 16 x) t).2
  | .report senderSsrc mediaSsrc nowUs => (g.buildFeedback cfg senderSsrc mediaSsrc nowUs).2

variable {cfg : Twcc.Config} {g : Generator} {u : H264.Unwrapper} {xs : List ℤ}

/-- The generator has the state of an unwrapper, and keeps and reports nothing beyond it. -/
structure Follows (g : Generator) (u : H264.Unwrapper) : Prop where
  started : g.hasSequence = u.initialized
  highest : g.highestExtendedSequence = u.latestUnwrappedSeq
  next : g.nextFeedbackSequence ≤ u.latestUnwrappedSeq + 1
  kept : ∀ x ∈ g.arrivalsUs.keys, u.initialized = true ∧ x ≤ u.latestUnwrappedSeq

theorem Follows.unwrap (h : Follows g u) (s : BitVec 16) : g.unwrap s = (u.unwrap s).1 := by
  rw [Generator.unwrap, H264.Unwrapper.unwrap, h.started, h.highest, H264.unwrapNear]
  split_ifs <;> dsimp only <;> omega

theorem Follows.record (h : Follows g u) (hu : u.initialized = true) {z : ℤ}
    (hz : z ≤ u.latestUnwrappedSeq) (t : ℤ) : Follows (g.record cfg z t) u := by
  refine loop_inv (P := (Follows · u)) (fun g' _ h' => ?_) _ { h with kept := fun x hx => ?_ }
  · rw [Generator.discardOldest]
    cases hm : g'.arrivalsUs.head? with
    | none => exact h'
    | some m =>
      have hle := h'.kept _ (OrdMap.mem_keys_of_mem (OrdMap.mem_of_head? hm))
      refine { h' with next := max_le h'.next (by omega), kept := fun x hx => ?_ }
      obtain ⟨v, hv⟩ := OrdMap.mem_keys.1 hx
      exact h'.kept x (OrdMap.mem_keys_of_mem (OrdMap.mem_of_mem_tail hv))
  · rcases OrdMap.mem_keys_emplace.1 hx with rfl | hx
    · exact ⟨hu, hz⟩
    · exact h.kept x hx

theorem Follows.packet (h : Follows g u) (s : BitVec 16) {t : ℤ} (ht : ¬t < 0) :
    Follows (g.onPacket cfg s t).2 (u.unwrap s).2 := by
  have hz := h.unwrap s
  have hnext := h.next
  rw [Generator.onPacket, if_neg ht, h.started]
  rw [H264.Unwrapper.unwrap] at hz ⊢
  by_cases hinit : u.initialized = true
  · rw [if_pos hinit] at hz ⊢
    dsimp only at hz ⊢
    rw [if_neg (not_not.2 hinit), ← hz]
    by_cases hold : g.unwrap s < g.nextFeedbackSequence ∧ g.lastFeedbackTimeUs ≠ 0
    · -- A packet that is refused is not the highest one.
      rw [if_pos hold, max_eq_left (by omega)]
      exact h
    · rw [if_neg hold]
      refine Follows.record (g := g.extend _) (u := ⟨_, max u.latestUnwrappedSeq (g.unwrap s)⟩)
        ⟨h.started, ?_, ?_, fun x hx => ?_⟩ hinit (le_max_right _ _) t
      · rw [Generator.extend, h.highest]
      · rw [Generator.extend]
        dsimp only
        split_ifs <;> omega
      · exact (h.kept x hx).imp_right (le_max_of_le_left ·)
  · rw [if_neg hinit] at hz ⊢
    rw [if_pos hinit, hz]
    refine Follows.record (u := ⟨true, s.toNat⟩) ⟨rfl, rfl, (lt_add_one _).le, fun x hx => ?_⟩ rfl
      le_rfl t
    exact absurd (h.kept x hx).1 hinit

theorem Follows.report (h : Follows g u) (senderSsrc mediaSsrc : BitVec 32) (nowUs : ℤ) :
    Follows (g.buildFeedback cfg senderSsrc mediaSsrc nowUs).2 u := by
  rw [Generator.buildFeedback]
  split_ifs
  · refine { h with next := ?_, kept := fun x hx => ?_ }
    · rw [← h.highest]
      exact Int.add_le_add_right (min_le_left _ _) 1
    · obtain ⟨v, hv⟩ := OrdMap.mem_keys.1 hx
      exact h.kept x (OrdMap.mem_keys_of_mem (OrdMap.mem_eraseThrough.1 hv).1)
  · exact h

/-- The generator follows an unwrapper that is given the same packets. -/
theorem follows_run (cfg : Twcc.Config) (es : List Feed) :
    Follows (run (feed cfg) {} es) (mediaAfter ((es.filterMap Feed.number).map (.ofInt 16))) := by
  refine run_induction (P := fun es g =>
    Follows g (mediaAfter ((es.filterMap Feed.number).map (.ofInt 16))))
    ⟨rfl, rfl, by decide, fun x hx => absurd hx not_mem_nil⟩ (fun es e ih => ?_) es
  rw [filterMap_append, map_append]
  cases e with
  | packet x t =>
    by_cases ht : t < 0
    · have hnone : (Feed.packet x t).number = none := if_pos ht
      rw [filterMap_cons_none hnone, filterMap_nil, map_nil, append_nil, feed,
        Generator.onPacket, if_pos ht]
      exact ih
    · have hsome : (Feed.packet x t).number = some x := if_neg ht
      rw [filterMap_cons_some hsome, mediaAfter, run_append]
      exact ih.packet _ ht
  | report senderSsrc mediaSsrc nowUs =>
    rw [filterMap_cons_none rfl, filterMap_nil, map_nil, append_nil]
    exact ih.report _ _ _

/-! ## True numbers -/

/-- The number `x` is within `2 ^ 15 - 1` of the largest of `xs`. -/
def Close (xs : List ℤ) (x : ℤ) : Prop := ∀ m, IsGreatest {y | y ∈ xs} m → |x - m| ≤ 2 ^ 15 - 1

/-- The largest number tells the next one, up to whole turns. -/
theorem unwrapNear_close {c m x : ℤ} (hc : 65536 ∣ c) (hm : IsGreatest {y | y ∈ xs} m)
    (hx : Close xs x) : H264.unwrapNear (m - c) (ofInt 16 x) = x - c := by
  obtain ⟨hlo, hhi⟩ := abs_le.1 (hx m hm)
  have hword : ofInt 16 x = ofInt 16 (x - c) := by
    rw [← BitVec.toNat_inj, toNat_ofInt, toNat_ofInt]
    omega
  rw [hword]
  exact H264.unwrapNear_ofInt (by omega) (by omega)

/-- The unwrapper knows the largest number, up to the whole turns in the first one. -/
theorem mediaAfter_close (x : ℤ) (xs : List ℤ) (hclose : EachAfter Close (x :: xs)) :
    ∃ m, IsGreatest {y | y ∈ x :: xs} m ∧
      mediaAfter ((x :: xs).map (.ofInt 16)) = ⟨true, m - (x - x % 65536)⟩ := by
  induction xs using reverseRecOn with
  | nil =>
    refine ⟨x, by simp, ?_⟩
    have hword : ((ofInt 16 x).toNat : ℤ) = x - (x - x % 65536) := by
      rw [toNat_ofInt]
      omega
    rw [← hword]
    rfl
  | append_singleton xs y ih =>
    rw [← cons_append] at hclose ⊢
    obtain ⟨m, hm, hu⟩ := ih hclose.of_append
    refine ⟨max y m, ?_, ?_⟩
    · have hset : {z | z ∈ x :: xs ++ [y]} = insert y {z | z ∈ x :: xs} := by
        ext z
        simp only [Set.mem_ofPred_eq, Set.mem_insert_iff, mem_append, mem_singleton, or_comm]
      rw [hset]
      exact hm.insert y
    · have hnear := unwrapNear_close (c := x - x % 65536) (by omega) hm (hclose _ y [] rfl)
      rw [map_append, mediaAfter, run_append, ← mediaAfter, hu]
      simp only [map_cons, map_nil, run_cons, run_nil, H264.Unwrapper.unwrap, if_true, hnear]
      congr 1
      omega

theorem mediaAfter_true (hclose : EachAfter Close xs) :
    ∃ c, EachAfter (fun pre x =>
      ((mediaAfter (pre.map (.ofInt 16))).unwrap (.ofInt 16 x)).1 = x - c) xs := by
  refine ⟨xs.headD 0 - xs.headD 0 % 65536, fun pre x post hxs => ?_⟩
  subst hxs
  cases pre with
  | nil =>
    change ((ofInt 16 x).toNat : ℤ) = x - (x - x % 65536)
    rw [toNat_ofInt]
    omega
  | cons y pre =>
    obtain ⟨m, hm, hu⟩ := mediaAfter_close y pre hclose.of_append
    rw [hu]
    exact unwrapNear_close (Int.dvd_self_sub_emod) hm (hclose _ x post rfl)

/-- The two classes return the same on every input. On a stream whose every number is within
    `2 ^ 15 - 1` of the largest one before it, both return the true number minus a constant, and
    so does, with the same constant, the generator around its highest number, whatever it is
    asked to report in between. -/
theorem unwrappers_agree :
    (∀ ss s, ((rtspAfter ss).unwrap s).1 = ((mediaAfter ss).unwrap s).1) ∧
    ∀ xs, EachAfter Close xs → ∃ c,
      EachAfter (fun pre x =>
        ((mediaAfter (pre.map (.ofInt 16))).unwrap (.ofInt 16 x)).1 = x - c ∧
        ((rtspAfter (pre.map (.ofInt 16))).unwrap (.ofInt 16 x)).1 = x - c) xs ∧
      ∀ cfg es, es.filterMap Feed.number = xs → EachAfter (fun pre e =>
        ∀ x ∈ e.number, (run (feed cfg) {} pre).unwrap (.ofInt 16 x) = x - c) es := by
  refine ⟨rtspAfter_unwrap, fun xs hclose => ?_⟩
  obtain ⟨c, hc⟩ := mediaAfter_true hclose
  refine ⟨c, fun pre x post hxs => ⟨hc pre x post hxs, ?_⟩,
    fun cfg es hes pre e post hpre x hx => ?_⟩
  · rw [rtspAfter_unwrap]
    exact hc pre x post hxs
  · rw [(follows_run cfg pre).unwrap]
    refine hc _ x (post.filterMap Feed.number) ?_
    rw [← hes, hpre, filterMap_append, filterMap_cons_some hx]

end Packetia.Rtp
