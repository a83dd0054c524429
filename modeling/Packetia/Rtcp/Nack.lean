import Packetia.Rtcp.Receiver

/-!
# Lost numbers as pairs

A NACK lists lost sequence numbers as pairs of a number and a mask for the 16 numbers
after it. `packPairs` (`RtRtcpNack::PackPairs`) sorts the numbers, opens a pair at the
first one, takes those within 16 of it into the mask, and goes on behind them. The
numbers are sorted as plain integers: a run that wraps is cut at zero.

Expanding the pairs gives back the sorted numbers, each once (`expandPairs_packPairs`).
The pairs are at least 17 apart, so there are few of them (`length_packPairs`).
-/

namespace Packetia.Rtcp

open List Access
open BitVec (lt_def ofNat toNat toNat_add)

structure NackPair where
  pid : BitVec 16
  blp : BitVec 16

/-- `std::sort`, then `std::unique`. -/
def sortUnique (seqs : List (BitVec 16)) : List (BitVec 16) := (seqs.insertionSort (· ≤ ·)).dedup

/-- The number `s` in the mask of the pair opened at `pid`. -/
def addToMask (pid blp s : BitVec 16) : BitVec 16 :=
  if s - pid = 0 then blp else blp ||| (1 : BitVec 16) <<< ((s - pid).toNat - 1)

/-- The mask of the pair opened at `pid`, from the numbers after it: those up to the first
    one that is too far. -/
def windowMask (pid : BitVec 16) (seqs : List (BitVec 16)) : BitVec 16 :=
  (seqs.takeWhile fun s => ¬(s - pid > 16)).foldl (addToMask pid) 0

/-- The loop over the sorted numbers. A round takes one number at least, so
    `n ≥ seqs.length` is no limit. -/
def packFrom : ℕ → List (BitVec 16) → List NackPair
  | 0, _ => []
  | _, [] => []
  | n + 1, pid :: seqs =>
    ⟨pid, windowMask pid seqs⟩ ::
      packFrom n (seqs.dropWhile fun s => ¬(s - pid = 0 ∨ s - pid > 16))

variable (lostSeqs : List (BitVec 16))

/-- `PackPairs`. -/
def packPairs : List NackPair := packFrom (sortUnique lostSeqs).length (sortUnique lostSeqs)

/-- `ExpandPairs`, which expands each pair as `ExpandNackPair` does. -/
def expandPairs (pairs : List NackPair) : List (BitVec 16) :=
  pairs.flatMap fun pair => expandNackPair pair.pid pair.blp

/-! ## Sorting -/

variable {s : BitVec 16}

theorem mem_sortUnique {seqs : List (BitVec 16)} : s ∈ sortUnique seqs ↔ s ∈ seqs := by
  rw [sortUnique, mem_dedup, mem_insertionSort]

theorem sortUnique_sorted (seqs : List (BitVec 16)) : (sortUnique seqs).Pairwise (· < ·) := by
  have hle : (sortUnique seqs).Pairwise (· ≤ ·) :=
    (pairwise_insertionSort (· ≤ ·) seqs).sublist (dedup_sublist _)
  have hne : (sortUnique seqs).Pairwise (· ≠ ·) := nodup_dedup _
  exact (hle.and hne).imp fun h => BitVec.lt_of_le_ne h.1 h.2

/-! ## A pair -/

variable {pid : BitVec 16} {seqs : List (BitVec 16)} {n : ℕ}

theorem toNat_sub_of_lt (h : pid < s) : (s - pid).toNat = s.toNat - pid.toNat := by
  rw [lt_def] at h
  rw [BitVec.toNat_sub_of_le (BitVec.le_def.2 h.le)]

/-- The number `s`, after `pid`, is within reach of the mask. -/
def InReach (pid s : BitVec 16) : Prop := s.toNat ≤ pid.toNat + 16
  deriving Decidable

theorem inReach_iff (h : pid < s) : ¬(s - pid > 16) ↔ InReach pid s := by
  rw [gt_iff_lt, lt_def, toNat_sub_of_lt h, InReach]
  rw [lt_def] at h
  have h16 : (16 : BitVec 16).toNat = 16 := rfl
  omega

theorem sub_ne_zero_of_lt (h : pid < s) : s - pid ≠ 0 := by
  intro heq
  have hnat := congrArg toNat heq
  rw [toNat_sub_of_lt h] at hnat
  rw [lt_def] at h
  have h0 : (0 : BitVec 16).toNat = 0 := rfl
  omega

/-- The numbers of a sorted list are taken into the mask or left for the next pair. -/
theorem windows_of_sorted (hs : ∀ s ∈ seqs, pid < s) :
    (seqs.takeWhile fun s => ¬(s - pid > 16)) = seqs.takeWhile (InReach pid ·) ∧
      (seqs.dropWhile fun s => ¬(s - pid = 0 ∨ s - pid > 16)) = seqs.dropWhile (InReach pid ·) := by
  induction seqs with
  | nil => exact ⟨rfl, rfl⟩
  | cons s seqs ih =>
    obtain ⟨hlt, hrest⟩ := forall_mem_cons.1 hs
    obtain ⟨htake, hdrop⟩ := ih hrest
    have hzero := sub_ne_zero_of_lt hlt
    by_cases hr : InReach pid s
    · have hnear := (inReach_iff hlt).2 hr
      simp only [takeWhile_cons, dropWhile_cons, hnear, hzero, hr, or_self,
        not_false_eq_true, decide_true, if_true, htake, hdrop, and_self]
    · have hfar : s - pid > 16 := not_not.1 (mt (inReach_iff hlt).1 hr)
      simp only [takeWhile_cons, dropWhile_cons, hfar, hr, or_true, not_true_eq_false,
        decide_false, Bool.false_eq_true, if_false, and_self]

/-- The bits of the mask are the numbers that are in it. -/
theorem getLsbD_mask {l : List (BitVec 16)} {i : ℕ} (hi : i < 16)
    (hl : ∀ s ∈ l, pid < s ∧ InReach pid s) (blp : BitVec 16) :
    (l.foldl (addToMask pid) blp).getLsbD i = true ↔
      blp.getLsbD i = true ∨ ∃ s ∈ l, s.toNat = pid.toNat + (i + 1) := by
  induction l generalizing blp with
  | nil => simp
  | cons s l ih =>
    obtain ⟨⟨hlt, hreach⟩, hl⟩ := forall_mem_cons.1 hl
    rw [foldl_cons, ih hl, addToMask, if_neg (sub_ne_zero_of_lt hlt), BitVec.getLsbD_or,
      Bool.or_eq_true, or_assoc]
    have hbit : ((1 : BitVec 16) <<< ((s - pid).toNat - 1)).getLsbD i = true ↔
        s.toNat = pid.toNat + (i + 1) := by
      rw [toNat_sub_of_lt hlt]
      rw [lt_def] at hlt
      simp [hi]
      omega
    rw [hbit]
    simp

/-- A pair expands to the numbers it was made from. -/
theorem expandNackPair_windowMask (hsorted : (pid :: seqs).Pairwise (· < ·)) :
    expandNackPair pid (windowMask pid seqs) = pid :: seqs.takeWhile (InReach pid ·) := by
  obtain ⟨hpid, hseqs⟩ := pairwise_cons.1 hsorted
  have hwindow : ∀ s ∈ seqs.takeWhile (InReach pid ·), pid < s ∧ InReach pid s := fun s hs =>
    ⟨hpid s ((takeWhile_sublist _).subset hs), by simpa using mem_takeWhile_imp hs⟩
  have hbit : ∀ i < 16, windowMask pid seqs &&& (1 : BitVec 16) <<< i ≠ 0 ↔
      ∃ s ∈ seqs.takeWhile (InReach pid ·), s.toNat = pid.toNat + (i + 1) := by
    intro i hi
    refine (and_one_shiftLeft_ne_zero hi).trans ?_
    rw [windowMask, (windows_of_sorted hpid).1, getLsbD_mask hi hwindow]
    simp
  have hnumber : ∀ (i : ℕ) (s : BitVec 16), s.toNat = pid.toNat + (i + 1) →
      pid + ofNat 16 i + 1 = s := by
    intro i s h
    apply BitVec.eq_of_toNat_eq
    rw [toNat_add, toNat_add, BitVec.toNat_ofNat, h]
    have h1 : (1 : BitVec 16).toNat = 1 := rfl
    omega
  rw [expandNackPair, cons.injEq]
  refine ⟨rfl, List.Pairwise.eq_of_mem_iff ?_ (hseqs.sublist (takeWhile_sublist _)) ?_⟩
  · rw [pairwise_map]
    refine (pairwise_lt_range.filter _).imp_of_mem ?_
    intro i j hi hj hij
    simp only [mem_filter, mem_range, decide_eq_true_eq] at hi hj
    obtain ⟨s, -, hs⟩ := (hbit i hi.1).1 hi.2
    obtain ⟨t, -, ht⟩ := (hbit j hj.1).1 hj.2
    rw [hnumber i s hs, hnumber j t ht, lt_def]
    omega
  · intro s
    simp only [mem_map, mem_filter, mem_range, decide_eq_true_eq]
    constructor
    · rintro ⟨i, ⟨hi, hmask⟩, rfl⟩
      obtain ⟨s, hmem, hs⟩ := (hbit i hi).1 hmask
      rwa [hnumber i s hs]
    · intro hs
      obtain ⟨hlt, hreach⟩ := hwindow s hs
      rw [lt_def] at hlt
      rw [InReach] at hreach
      have hnat : s.toNat = pid.toNat + (s.toNat - pid.toNat - 1 + 1) := by omega
      exact ⟨s.toNat - pid.toNat - 1, ⟨by omega, (hbit _ (by omega)).2 ⟨s, hs, hnat⟩⟩,
        hnumber _ s hnat⟩

/-! ## All pairs -/

theorem expandPairs_packFrom (hsorted : seqs.Pairwise (· < ·)) (hn : seqs.length ≤ n) :
    expandPairs (packFrom n seqs) = seqs := by
  induction n generalizing seqs with
  | zero => rw [eq_nil_of_length_eq_zero (Nat.le_zero.1 hn)]; rfl
  | succ n ih =>
    cases seqs with
    | nil => rfl
    | cons pid seqs =>
      obtain ⟨hpid, hseqs⟩ := pairwise_cons.1 hsorted
      have hsublist := dropWhile_sublist (l := seqs) (InReach pid ·)
      have hrest := ih (hseqs.sublist hsublist)
        (hsublist.length_le.trans (Nat.le_of_succ_le_succ hn))
      rw [expandPairs] at hrest
      rw [packFrom, expandPairs, flatMap_cons, (windows_of_sorted hpid).2,
        expandNackPair_windowMask hsorted, hrest, cons_append, takeWhile_append_dropWhile]

/-- The pairs list the sorted numbers, each once. -/
theorem expandPairs_packPairs : expandPairs (packPairs lostSeqs) = sortUnique lostSeqs :=
  expandPairs_packFrom (sortUnique_sorted lostSeqs) le_rfl

/-- What is left for the next pair is out of reach. -/
theorem lt_of_mem_dropWhile (hsorted : seqs.Pairwise (· < ·))
    (hs : s ∈ seqs.dropWhile (InReach pid ·)) : pid.toNat + 17 ≤ s.toNat := by
  induction seqs with
  | nil => cases hs
  | cons t seqs ih =>
    obtain ⟨ht, hseqs⟩ := pairwise_cons.1 hsorted
    by_cases hr : InReach pid t
    · rw [dropWhile_cons_of_pos (by simpa using hr)] at hs
      exact ih hseqs hs
    · rw [dropWhile_cons_of_neg (by simpa using hr)] at hs
      rw [InReach] at hr
      rcases mem_cons.1 hs with rfl | hs
      · omega
      · have hlt := lt_def.1 (ht s hs)
        omega

theorem length_packFrom {b : ℕ} (hsorted : seqs.Pairwise (· < ·)) (hb : ∀ s ∈ seqs, b ≤ s.toNat)
    (hle : b ≤ 2 ^ 16 + 16) : 17 * (packFrom n seqs).length + b ≤ 2 ^ 16 + 16 := by
  induction n generalizing seqs b with
  | zero => simpa [packFrom] using hle
  | succ n ih =>
    cases seqs with
    | nil => simpa [packFrom] using hle
    | cons pid seqs =>
      obtain ⟨hpid, hseqs⟩ := pairwise_cons.1 hsorted
      have hsublist := dropWhile_sublist (l := seqs) (InReach pid ·)
      have hfirst := hb pid mem_cons_self
      have hrest := ih (hseqs.sublist hsublist)
        (fun s hs => lt_of_mem_dropWhile hseqs hs) (by omega)
      rw [packFrom, length_cons, (windows_of_sorted hpid).2]
      omega

/-- There are few pairs: they are 17 apart. -/
theorem length_packPairs : (packPairs lostSeqs).length ≤ 3856 := by
  have h := length_packFrom (n := (sortUnique lostSeqs).length)
    (sortUnique_sorted lostSeqs) (fun _ _ => Nat.zero_le _) (Nat.zero_le _)
  rw [packPairs]
  omega

theorem packPairs_ne_nil {lostSeqs : List (BitVec 16)} (h : lostSeqs ≠ []) :
    packPairs lostSeqs ≠ [] := by
  intro hnil
  have hexpand := expandPairs_packPairs lostSeqs
  obtain ⟨s, hs⟩ := exists_mem_of_ne_nil _ h
  have hmem := mem_sortUnique.2 hs
  rw [← hexpand, hnil] at hmem
  cases hmem

end Packetia.Rtcp
