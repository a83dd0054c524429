import Packetia.Rtcp.Receiver

/-!
# Transport feedback that is well formed

After 20 bytes a transport feedback packet has chunks of two bytes, which give the
statuses of the packets it reports, and then the deltas of the received ones.
`WellFormedFeedback` says so of a byte string, without a reader: there are just enough
chunks for the announced number of packets, no status is the reserved one, and the
deltas fit. `parseTransportFeedback` succeeds on exactly these strings
(`isSome_parseTransportFeedback`), and does not look past the end
(`below_parseTransportFeedback`).
-/

namespace Packetia.Rtcp

open List Access Twcc

variable {data content : List Byte} {len n off count : ℕ} {base : BitVec 16} {time i : ℕ}
  {delta : ℤ}

/-! ## What is read -/

theorem below_readStatuses (statuses : List Byte) :
    Below len (readStatuses len count n off statuses) data := by
  induction n generalizing off statuses with
  | zero => exact below_pure _
  | succ n ih =>
    rw [readStatuses]
    split_ifs with h
    · simp only [below_bind, below_u16]
      exact ⟨by omega, ih _⟩
    · exact below_pure _

theorem below_readDeltas (statuses : List Byte) :
    Below len (readDeltas len base time statuses i off delta) data := by
  induction statuses generalizing i off delta with
  | nil => exact below_pure _
  | cons status statuses ih =>
    rw [readDeltas]
    split_ifs
    all_goals simp only [below_bind, below_pure, below_byte, below_u16, ih, and_true]
    all_goals omega

/-- Nothing past the content is read. -/
theorem below_parseTransportFeedback : Below len (parseTransportFeedback len) data := by
  rw [parseTransportFeedback]
  split_ifs with h
  · exact below_pure _
  · simp only [below_bind, below_u32, below_u16, below_u24, below_byte, below_readStatuses,
      true_and]
    refine ⟨by omega, by omega, by omega, by omega, by omega, by omega, ?_⟩
    split_ifs
    · exact below_pure _
    · simp only [below_bind, below_readDeltas, below_pure, and_self]

/-! ## What is accepted -/

/-- The statuses in the first `n` chunks. -/
def symbols (content : List Byte) (n : ℕ) : List Byte :=
  (List.range n).flatMap fun k => chunkSymbols (u16At content (20 + 2 * k))

/-- The number of bytes of the delta of a packet with the status `s`. -/
def deltaSize (s : Byte) : ℕ := if s = 1 then 1 else if s = 2 then 2 else 0

/-- The number of packets that are reported. -/
def statusCount (content : List Byte) : ℕ := (u16At content 14).toNat

/-- The content of a transport feedback packet, with `n` chunks. -/
structure WellFormedFeedback (content : List Byte) (n : ℕ) : Prop where
  chunks_fit : 20 + 2 * n ≤ content.length
  enough : statusCount content ≤ (symbols content n).length
  /-- Every chunk is needed. -/
  needed : ∀ m < n, (symbols content m).length < statusCount content
  known : ∀ s ∈ (symbols content n).take (statusCount content), s = 0 ∨ s = 1 ∨ s = 2
  deltas_fit : 20 + 2 * n +
    (((symbols content n).take (statusCount content)).map deltaSize).sum ≤ content.length

theorem symbols_zero : symbols content 0 = [] := rfl

theorem symbols_succ (n : ℕ) :
    symbols content (n + 1) = symbols content n ++ chunkSymbols (u16At content (20 + 2 * n)) := by
  rw [symbols, range_succ, flatMap_append, flatMap_singleton, symbols]

/-- The loop over the chunks stops at the first one that is not needed, or at the end. -/
theorem value_readStatuses (content : List Byte) (count : ℕ) {k : ℕ} (hn : len ≤ 20 + 2 * k + n)
    (hk : ∀ m < k, (symbols content m).length < count ∧ 20 + 2 * m + 2 ≤ len) :
    ∃ K, (readStatuses len count n (20 + 2 * k) ((symbols content k).take count)).value content =
        ((symbols content K).take count, 20 + 2 * K) ∧
      (∀ m < K, (symbols content m).length < count ∧ 20 + 2 * m + 2 ≤ len) ∧
      (count ≤ (symbols content K).length ∨ len < 20 + 2 * K + 2) := by
  induction n generalizing k with
  | zero => exact ⟨k, rfl, hk, .inr (by omega)⟩
  | succ n ih =>
    rw [readStatuses]
    split_ifs with h
    · -- A chunk is read: the statuses so far are all those of the first `k` chunks.
      rw [length_take, min_lt_iff, or_iff_right (lt_irrefl _)] at h
      have hall : (symbols content k).take count = symbols content k := take_of_length_le h.1.le
      have hnext : symbols content k ++ (chunkSymbols (u16At content (20 + 2 * k))).take
          (count - (symbols content k).length) = (symbols content (k + 1)).take count := by
        rw [symbols_succ, take_append, hall]
      rw [value_bind, value_u16, hall, hnext]
      refine ih (k := k + 1) (by omega) fun m hm => ?_
      rcases Nat.lt_succ_iff_lt_or_eq.1 hm with hlt | rfl
      · exact hk m hlt
      · exact h
    · refine ⟨k, rfl, hk, ?_⟩
      rw [length_take] at h
      omega

/-- The deltas are read if the statuses are known and the content is long enough. -/
theorem isSome_readDeltas {statuses : List Byte} (hoff : off ≤ len) :
    ((readDeltas len base time statuses i off delta).value data).isSome ↔
      (∀ s ∈ statuses, s = 0 ∨ s = 1 ∨ s = 2) ∧ off + (statuses.map deltaSize).sum ≤ len := by
  induction statuses generalizing i off delta with
  | nil => simpa [readDeltas] using hoff
  | cons status statuses ih =>
    rw [readDeltas, forall_mem_cons, map_cons, sum_cons]
    by_cases h₀ : status = 0
    · have hsize : deltaSize status = 0 := by rw [h₀]; rfl
      rw [if_pos h₀, value_bind, value_pure, Option.isSome_map, ih hoff, hsize]
      simp only [h₀, true_or, true_and, Nat.zero_add]
    rw [if_neg h₀]
    by_cases h₁ : status = 1
    · have hsize : deltaSize status = 1 := by rw [h₁]; rfl
      rw [if_pos h₁, hsize]
      by_cases hfit : off + 1 ≤ len
      · simp only [if_neg (Nat.not_lt.2 hfit), value_bind, value_pure, Option.isSome_map, ih hfit,
          h₁, true_or, or_true, true_and, Nat.add_assoc]
      · rw [if_pos (Nat.not_le.1 hfit)]
        simp only [value_pure, Option.isSome_none, Bool.false_eq_true, false_iff]
        omega
    rw [if_neg h₁]
    by_cases h₂ : status = 2
    · have hsize : deltaSize status = 2 := by rw [h₂]; rfl
      rw [if_pos h₂, hsize]
      by_cases hfit : off + 2 ≤ len
      · simp only [if_neg (Nat.not_lt.2 hfit), value_bind, value_pure, Option.isSome_map, ih hfit,
          h₂, or_true, true_and, Nat.add_assoc]
      · rw [if_pos (Nat.not_le.1 hfit)]
        simp only [value_pure, Option.isSome_none, Bool.false_eq_true, false_iff]
        omega
    rw [if_neg h₂]
    simp only [value_pure, Option.isSome_none, h₀, h₁, h₂, Bool.false_eq_true, or_self, false_and]

/-- The reader accepts exactly the well formed packets. -/
theorem isSome_parseTransportFeedback :
    ((parseTransportFeedback content.length).value content).isSome ↔
      ∃ n, WellFormedFeedback content n := by
  by_cases hlen : content.length < 20
  · rw [parseTransportFeedback, if_pos hlen]
    simp only [value_pure, Option.isSome_none, Bool.false_eq_true, false_iff]
    rintro ⟨n, h⟩
    exact absurd h.chunks_fit (by omega)
  obtain ⟨K, hvalue, hread, hstop⟩ := value_readStatuses content (statusCount content) (k := 0)
    (n := content.length) (show content.length ≤ _ by omega) (by simp)
  have hfit : 20 + 2 * K ≤ content.length := by
    cases K with
    | zero => omega
    | succ K => have := (hread K K.lt_succ_self).2; omega
  rw [symbols_zero, take_nil, Nat.mul_zero, Nat.add_zero] at hvalue
  have hcount : (u16At content 14).toNat = statusCount content := rfl
  rw [parseTransportFeedback, if_neg hlen]
  simp only [value_bind, value_u32, value_u16, value_byte, hcount, hvalue]
  have huniq : ∀ n, WellFormedFeedback content n → n = K := by
    intro n h
    rcases lt_trichotomy n K with hlt | heq | hlt
    · exact absurd (hread n hlt).1 (Nat.not_lt.2 h.enough)
    · exact heq
    · have hneeded := h.needed K hlt
      have hchunks := h.chunks_fit
      omega
  by_cases henough : statusCount content ≤ (symbols content K).length
  · rw [if_neg (by rw [length_take, min_eq_left henough]; exact lt_irrefl _), value_bind,
      value_pure, Option.isSome_map, isSome_readDeltas hfit]
    constructor
    · rintro ⟨hknown, hdeltas⟩
      exact ⟨K, hfit, henough, fun m hm => (hread m hm).1, hknown, hdeltas⟩
    · rintro ⟨n, h⟩
      obtain rfl := huniq n h
      exact ⟨h.known, h.deltas_fit⟩
  · rw [if_pos (by rw [length_take]; omega)]
    simp only [value_pure, Option.isSome_none, Bool.false_eq_true, false_iff]
    rintro ⟨n, h⟩
    obtain rfl := huniq n h
    exact henough h.enough

end Packetia.Rtcp
