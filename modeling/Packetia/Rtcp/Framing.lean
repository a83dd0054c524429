import Packetia.Rtcp.Feedback

/-!
# Packets and their headers

An RTCP packet (`IsPacket`) has its size in its header, and its content is what is left
of it without the padding. `Parse` accepts exactly the strings with a packet at the front
(`parse_of_isPacket`, `isPacket_of_parse`), and reads the four bytes of the header and the
length of the padding, which is the last byte of the padding (`reads_parse`).

The readers of single packets get the size of the content and stay below it (`Below`),
so what they say about a packet depends on its content only (`IsPacket.value_content`).
-/

namespace Packetia.Rtcp

open List Access Twcc

variable {data p rest : List Byte} {observer : Bool} {len n off offset : ℕ} {i : ℕ} {fmt pt : Byte}
  {info : PacketInfo}

/-! ## Packets -/

variable (p)

/-- The padding bit of the header is set. -/
def Padded : Prop := byteAt p 0 &&& 0x20 ≠ 0
  deriving Decidable

/-- The size the header announces. -/
def sizeOf : ℕ := ((u16At p 2).toNat + 1) * 4

/-- The length of the padding, which is in its last byte. -/
def paddingOf : ℕ :=
  if Padded p then (byteAt p (sizeOf p - 1)).toNat else 0

/-- One whole RTCP packet. -/
structure IsPacket (p : List Byte) : Prop where
  version : byteAt p 0 >>> 6 = 2
  length_eq : p.length = sizeOf p
  padding_pos : Padded p → 0 < paddingOf p
  padding_le : paddingOf p + kHeaderSize ≤ sizeOf p

/-- The packet without its padding. -/
def content : List Byte := p.take (sizeOf p - paddingOf p)

/-- The four bytes of the header, read. -/
def rawHeader : Header := .read (byteAt p 0) (byteAt p 1) (u16At p 2)

/-- The header of a packet. -/
def headerOf : Header :=
  { rawHeader p with contentSize := sizeOf p - paddingOf p }

variable {p}

theorem version_rawHeader : (rawHeader p).version = byteAt p 0 >>> 6 := rfl

theorem packetSize_rawHeader : (rawHeader p).packetSize = sizeOf p := rfl

theorem padding_rawHeader : (rawHeader p).padding = decide (Padded p) := rfl

theorem four_le_sizeOf : 4 ≤ sizeOf p := by rw [sizeOf]; omega

theorem IsPacket.four_le_length (hp : IsPacket p) : 4 ≤ p.length := hp.length_eq ▸ four_le_sizeOf

theorem IsPacket.length_content (hp : IsPacket p) :
    (content p).length = (headerOf p).contentSize := by
  have hlength := hp.length_eq
  have hsize : (headerOf p).contentSize = sizeOf p - paddingOf p := rfl
  rw [content, length_take, hsize]
  omega

theorem IsPacket.contentSize_le (hp : IsPacket p) :
    kHeaderSize ≤ (content p).length ∧ (content p).length ≤ p.length := by
  have hlength := hp.length_eq
  have hle := hp.padding_le
  rw [content, length_take]
  omega

theorem u16At_append_left (h : i + 1 < p.length) : u16At (p ++ rest) i = u16At p i :=
  u16At_congr (byteAt_append_left (by omega)) (byteAt_append_left h)

section

variable (h : 4 ≤ p.length)
include h

theorem sizeOf_append : sizeOf (p ++ rest) = sizeOf p := by
  rw [sizeOf, sizeOf, u16At_append_left (by omega)]

theorem padded_append : Padded (p ++ rest) ↔ Padded p := by
  rw [Padded, Padded, byteAt_append_left (by omega)]

theorem paddingOf_append (hsize : sizeOf p ≤ p.length) : paddingOf (p ++ rest) = paddingOf p := by
  rw [paddingOf, paddingOf, sizeOf_append h, byteAt_append_left (by omega)]
  simp only [padded_append h]

theorem headerOf_append (hsize : sizeOf p ≤ p.length) : headerOf (p ++ rest) = headerOf p := by
  have h₀ : byteAt (p ++ rest) 0 = byteAt p 0 := byteAt_append_left (by omega)
  have h₁ : byteAt (p ++ rest) 1 = byteAt p 1 := byteAt_append_left (by omega)
  simp only [headerOf, rawHeader, sizeOf_append h, paddingOf_append h hsize, u16At_append_left h,
    h₀, h₁]

end

/-! ## Headers -/

/-- What `Parse` does, on a string with a whole header. -/
theorem value_parse (h : 4 ≤ data.length) : (Header.parse data.length).value data =
    if byteAt data 0 >>> 6 = 2 ∧ sizeOf data ≤ data.length ∧ (Padded data → 0 < paddingOf data) ∧
      paddingOf data + kHeaderSize ≤ sizeOf data then some (headerOf data) else none := by
  have hsize : ¬sizeOf data < kHeaderSize := Nat.not_lt.2 four_le_sizeOf
  have hread : Header.read (byteAt data 0) (byteAt data 1) (u16At data 2) = rawHeader data := rfl
  rw [Header.parse, if_neg (show ¬data.length < kHeaderSize from Nat.not_lt.2 h)]
  simp only [value_bind, value_byte, value_u16, hread, version_rawHeader, packetSize_rawHeader,
    padding_rawHeader, decide_eq_true_eq, if_neg hsize]
  by_cases hv : byteAt data 0 >>> 6 = 2
  · rw [if_neg (not_not.2 hv)]
    by_cases hle : sizeOf data ≤ data.length
    · rw [if_neg (Nat.not_lt.2 hle)]
      by_cases hp : Padded data
      · have hpad : (byteAt data (sizeOf data - 1)).toNat = paddingOf data := (if_pos hp).symm
        have hzero : byteAt data (sizeOf data - 1) = 0 ↔ paddingOf data = 0 := by
          rw [← hpad, BitVec.toNat_eq]; rfl
        rw [if_pos hp, value_bind, value_byte, hpad]
        by_cases h₀ : paddingOf data = 0
        · rw [if_pos (hzero.2 h₀), if_neg fun hc => (hc.2.2.1 hp).ne' h₀]
          rfl
        · rw [if_neg (mt hzero.1 h₀)]
          by_cases hfit : paddingOf data + kHeaderSize ≤ sizeOf data
          · rw [if_neg (by omega), if_neg (by omega),
              if_pos ⟨hv, hle, fun _ => Nat.pos_of_ne_zero h₀, hfit⟩]
            rfl
          · rw [if_neg (c := _ ∧ _) fun hc => hfit hc.2.2.2]
            split_ifs
            · rfl
            · rfl
            · omega
      · have hpad : paddingOf data = 0 := if_neg hp
        rw [if_neg hp, if_pos ⟨hv, hle, fun h => absurd h hp, by omega⟩, headerOf, hpad]
        rfl
    · rw [if_pos (Nat.not_le.1 hle), if_neg fun hc => hle hc.2.1]
      rfl
  · rw [if_pos hv, if_neg fun hc => hv hc.1]
    rfl

/-- `Parse` accepts a whole packet at the front. -/
theorem parse_of_isPacket (hp : IsPacket p) :
    (Header.parse (p ++ rest).length).value (p ++ rest) = some (headerOf p) := by
  have hfour := hp.four_le_length
  have hsize : sizeOf p ≤ p.length := hp.length_eq.ge
  rw [value_parse (by rw [length_append]; omega), if_pos, headerOf_append hfour hsize]
  rw [byteAt_append_left (by omega), sizeOf_append hfour, padded_append hfour,
    paddingOf_append hfour hsize, length_append]
  exact ⟨hp.version, by omega, hp.padding_pos, hp.padding_le⟩

/-- `Parse` accepts nothing else. -/
theorem isPacket_of_parse {header : Header}
    (h : (Header.parse data.length).value data = some header) :
    ∃ p rest, data = p ++ rest ∧ IsPacket p := by
  by_cases hfour : 4 ≤ data.length
  · rw [value_parse hfour] at h
    split_ifs at h with hc
    obtain ⟨hv, hle, hpos, hpad⟩ := hc
    obtain ⟨p, rest, rfl, hlength⟩ : ∃ p rest, data = p ++ rest ∧ p.length = sizeOf data :=
      ⟨_, _, (take_append_drop (sizeOf data) data).symm, length_take_of_le hle⟩
    have hfour' : 4 ≤ p.length := by rw [hlength]; exact four_le_sizeOf
    rw [sizeOf_append hfour'] at hlength hpad
    rw [paddingOf_append hfour' hlength.ge] at hpos hpad
    rw [padded_append hfour'] at hpos
    rw [byteAt_append_left (by omega)] at hv
    exact ⟨p, rest, rfl, hv, hlength, hpos, hpad⟩
  · rw [Header.parse, if_pos (show data.length < kHeaderSize from Nat.not_le.1 hfour)] at h
    cases h

/-- The bytes of a header: its four bytes, and the length of the padding. -/
def IsHeaderByte (data : List Byte) (i : ℕ) : Prop :=
  kHeaderSize ≤ data.length ∧
    (i < kHeaderSize ∨ Padded data ∧ sizeOf data ≤ data.length ∧ i = sizeOf data - 1)

/-- `Parse` reads the bytes of the header only. -/
theorem reads_parse (hi : i ∈ (Header.parse data.length).reads data) : IsHeaderByte data i := by
  have hread : Header.read (byteAt data 0) (byteAt data 1) (u16At data 2) = rawHeader data := rfl
  rw [Header.parse] at hi
  split_ifs at hi with hlen
  · cases hi
  refine ⟨Nat.not_lt.1 hlen, ?_⟩
  have hfront : ∀ j, j ∈ (u16 2).reads data → j < 4 := by simp [u16, byte, reads]
  simp only [reads_bind, value_byte, value_u16, hread, version_rawHeader, packetSize_rawHeader,
    padding_rawHeader, decide_eq_true_eq, mem_append] at hi
  rcases hi with hi | hi | hi | hi
  iterate 2
    · simp only [byte, reads, mem_singleton] at hi
      exact .inl (by rw [hi, kHeaderSize]; omega)
  · exact .inl (hfront i hi)
  · split_ifs at hi with _ _ hle hp
    · cases hi
    · cases hi
    · cases hi
    · rw [reads_bind, mem_append] at hi
      rcases hi with hi | hi
      · simp only [byte, reads, mem_singleton] at hi
        exact .inr ⟨hp, Nat.not_lt.1 hle, hi⟩
      · split_ifs at hi <;> cases hi
    · cases hi

/-! ## The handlers of single packets -/

theorem below_reportBlock {ssrc : BitVec 32} (h : off + 24 ≤ len) :
    Below len (reportBlock ssrc off) data := by
  simp only [reportBlock, int24, below_bind, below_u32, below_byte, below_u24, below_pure, and_true]
  omega

theorem below_entries {size : ℕ} {entry : ℕ → Access Event}
    (hentry : ∀ off, off + size ≤ len → Below len (entry off) data) :
    Below len (entries size entry len n off) data := by
  induction n generalizing off with
  | zero => exact below_pure _
  | succ n ih =>
    rw [entries]
    split_ifs with h
    · simp only [below_bind, hentry off h, ih, below_pure, and_self]
    · exact below_pure _

theorem below_readNackPairs : Below len (readNackPairs len n off) data := by
  induction n generalizing off with
  | zero => exact below_pure _
  | succ n ih =>
    rw [readNackPairs]
    split_ifs with h
    · simp only [below_bind, below_u16, ih, below_pure, and_true]
      omega
    · exact below_pure _

/-- Nothing past the content is read. -/
theorem below_handleSingleRtcpPacket :
    Below len (handleSingleRtcpPacket observer len fmt pt) data := by
  have hreport : ∀ ssrc off, off + 24 ≤ len → Below len (reportBlock ssrc off) data :=
    fun _ _ h => below_reportBlock h
  have hbye : ∀ off, off + 4 ≤ len → Below len (byeEntry off) data := by
    intro off h
    simp [byeEntry]; omega
  have hfir : ∀ s m off, off + 8 ≤ len → Below len (firEntry s m off) data := by
    intro s m off h
    simp [firEntry]; omega
  rw [handleSingleRtcpPacket]
  split_ifs
  all_goals
    simp only [below_bind, below_pure, below_u32, below_u64, below_entries (hreport _),
      below_entries hbye, below_entries (hfir _ _), below_readNackPairs,
      below_parseTransportFeedback, and_true]
  all_goals omega

theorem below_inspectSender : Below len (inspectSender len pt info) data := by
  rw [inspectSender]
  split_ifs
  all_goals simp only [below_bind, below_pure, below_u32, and_true]
  omega

theorem below_inspectMedia : Below len (inspectMedia len fmt pt info) data := by
  rw [inspectMedia]
  split_ifs
  · simp only [below_bind, below_u32]
    refine ⟨by omega, ?_⟩
    split_ifs
    all_goals simp only [below_bind, below_pure, below_u32, and_true]
    omega
  all_goals simp only [below_bind, below_pure, below_u32, and_true]
  all_goals omega

/-- A reader that stays in the content of a packet sees the content only. -/
theorem IsPacket.value_content {α : Type} {x : ℕ → Access α} (hp : IsPacket p)
    (hx : ∀ len data, Below len (x len) data) :
    (x (headerOf p).contentSize).value (p ++ rest) = (x (content p).length).value (content p) := by
  have hle := hp.contentSize_le.2
  have htake : (p ++ rest).take (content p).length = content p := by
    rw [take_append_of_le_length hle, content, length_take]
    congr 1
    have := hp.length_eq
    omega
  have h := value_take (hx (content p).length (p ++ rest))
  rw [htake] at h
  rw [← hp.length_content, h]

end Packetia.Rtcp
