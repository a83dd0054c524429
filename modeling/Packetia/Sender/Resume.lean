import Packetia.Sender.Numbering

/-!
# Resuming after a discontinuity

When packets have been held back on purpose, the next source packet that is sent
resumes the stream: its number follows the furthest one sent, padding included.
Until the next discontinuity the track refuses the source packets that are older
than it. RTP timestamps have 32 bits, so in a long call the comparison needs the
true, unwrapped timestamps. The track unwraps each timestamp around the newest one
it has sent since it resumed.

Here the packets of a run come with their true timestamps, which the track does
not see. While each is less than half a turn ahead of the newest one sent, and not
more than half a turn behind it, the unwrapped timestamps keep a constant distance
from the true ones (`Floor`), and the floor refuses exactly the older packets
(`resumes_after_discontinuity`), in a call of any length.
-/

namespace Packetia.Sender.Track

open List Rtp
open BitVec (ofInt ofInt_add)

variable {cfg : Config} {t : Track} {h : Header}

/-- A call, and the true timestamp of its source packet. -/
abbrev Stamped := ℤ × Call

/-- The timestamp in the packet is what is left of the true one. -/
def Truthful : Stamped → Prop
  | (τ, .inputRtpPacket _ data) =>
    ∀ h, parseRtpHeader data = some h → h.timestamp = ofInt 32 τ
  | _ => True

/-- The true timestamp is within half a turn of the newest one, `newest`. -/
def Near (τ newest : ℤ) : Prop := -2 ^ 31 ≤ τ - newest ∧ τ - newest < 2 ^ 31

/-- The call has sent a source packet. -/
def SendsMedia (cfg : Config) (t : Track) : Call → Prop
  | .inputRtpPacket env data => (t.inputRtpPacket cfg env data).1 = true
  | _ => False

instance (cfg : Config) (t : Track) : DecidablePred (SendsMedia cfg t)
  | .inputRtpPacket env data =>
    inferInstanceAs (Decidable ((t.inputRtpPacket cfg env data).1 = true))
  | .sendPadding _ _ | .beginDiscontinuity | .onRtcpNack _ _ | .allocateElsewhere => .isFalse id

/-- A track with the newest true timestamp it has sent. -/
def watch (cfg : Config) (x : Track × ℤ) (c : Stamped) : Track × ℤ :=
  (x.1.step cfg c.2, if SendsMedia cfg x.1 c.2 then max x.2 c.1 else x.2)

/-- The calls before the next discontinuity, with true timestamps that stay near. -/
structure Continues (cfg : Config) (x : Track × ℤ) (calls : List Stamped) : Prop where
  truthful : ∀ c ∈ calls, Truthful c
  near : ∀ y ∈ history (watch cfg) x calls, ∀ env data,
    y.2.2 = .inputRtpPacket env data → Near y.2.1 y.1.2
  unbroken : ∀ c ∈ calls, c.2 ≠ .beginDiscontinuity

/-! ## The floor -/

/-- The stream has resumed with the packet `seq` of the true timestamp `origin`, and
    `newest` is the newest true timestamp sent since. -/
structure Floor (t : Track) (seq : BitVec 16) (origin newest : ℤ) : Prop where
  resumed : t.hasResumeFloor = true
  settled : t.rebasePending = false
  seq : t.resumeFloorSeq = seq
  floor : ofInt 32 t.resumeFloorTimestamp = ofInt 32 origin
  latest : t.latestSourceTimestamp - t.resumeFloorTimestamp = newest - origin

variable {seq : BitVec 16} {origin newest τ : ℤ}

section

variable (hf : Floor t seq origin newest)
include hf

/-- The unwrapped timestamp is as far from the floor as the true ones are apart. -/
theorem Floor.sourceTimestamp (hτ : h.timestamp = ofInt 32 τ) (hnear : Near τ newest) :
    t.sourceTimestamp h - t.resumeFloorTimestamp = τ - origin := by
  have hlatest : ofInt 32 t.latestSourceTimestamp = ofInt 32 newest := by
    have heq : t.latestSourceTimestamp = t.resumeFloorTimestamp + (newest - origin) := by
      linarith [hf.latest]
    rw [heq, ofInt_add, hf.floor, ← ofInt_add, add_sub_cancel]
  have hnearest : nearest newest (ofInt 32 τ) = τ :=
    nearest_ofInt (by linarith [hnear.1]) (by linarith [hnear.2])
  have hdelta : (ofInt 32 τ - ofInt 32 newest).toInt = τ - newest := by
    rw [nearest] at hnearest
    linarith
  rw [Track.sourceTimestamp, if_pos ⟨hf.resumed, by simp [hf.settled]⟩, nearest, hτ, hlatest,
    hdelta]
  linarith [hf.latest]

/-- The floor refuses exactly the older packets. -/
theorem Floor.not_belowFloor (hτ : h.timestamp = ofInt 32 τ) (hnear : Near τ newest) :
    ¬t.BelowFloor h ↔ origin < τ ∨ (τ = origin ∧ (h.seq - seq).toNat < 0x8000) := by
  have hdist := hf.sourceTimestamp hτ hnear
  have hon : t.hasResumeFloor = true ∧ ¬t.rebasePending = true := ⟨hf.resumed, by simp [hf.settled]⟩
  rw [BelowFloor, and_iff_right hon, hf.seq]
  omega

end

/-- The fields of the floor are the same. -/
def SameFloor (t t' : Track) : Prop :=
  t'.hasResumeFloor = t.hasResumeFloor ∧ t'.rebasePending = t.rebasePending ∧
    t'.resumeFloorSeq = t.resumeFloorSeq ∧ t'.resumeFloorTimestamp = t.resumeFloorTimestamp ∧
    t'.latestSourceTimestamp = t.latestSourceTimestamp

section

variable (hf : Floor t seq origin newest)
include hf

theorem Floor.frame {t' : Track} (hsame : SameFloor t t') : Floor t' seq origin newest := by
  obtain ⟨h₁, h₂, h₃, h₄, h₅⟩ := hsame
  exact ⟨h₁ ▸ hf.resumed, h₂ ▸ hf.settled, h₃ ▸ hf.seq, h₄ ▸ hf.floor, by
    rw [h₄, h₅]; exact hf.latest⟩

omit hf in
/-- Without a discontinuity, accepting a packet leaves the floor. -/
theorem sameFloor_accept (hr : t.rebasePending = false) (h : Header) :
    SameFloor t (t.accept h) := by
  rw [Track.accept, startTimestamp, startSeq, rebase]
  simp only [hr, Bool.false_eq_true, if_false]
  split_ifs <;> exact ⟨rfl, by simp [hr], rfl, rfl, rfl⟩

theorem Floor.input (env : Env) (data : List Byte) (htrue : Truthful (τ, .inputRtpPacket env data))
    (hnear : Near τ newest) :
    Floor (t.inputRtpPacket cfg env data).2 seq origin
      (if (t.inputRtpPacket cfg env data).1 = true then max newest τ else newest) := by
  rcases inputRtpPacket_cases cfg env data t with heq | ⟨h, hparse, -, -, hcases⟩
  · rw [heq]
    exact hf
  have hsame := sameFloor_accept hf.settled h
  have hf' := hf.frame hsame
  rcases hcases with ⟨n, heq⟩ | ⟨n, s, order, cache, packets, octets, -, -, -, heq⟩
  · rw [heq]
    exact hf'.frame ⟨rfl, rfl, rfl, rfl, rfl⟩
  · rw [heq]
    have hdist := hf.sourceTimestamp (htrue h hparse) hnear
    refine ⟨hf'.resumed, rfl, hf'.seq, hf'.floor, ?_⟩
    obtain ⟨-, -, -, hfloor, hlatest⟩ := hsame
    simp only [recordOut, if_pos hf'.resumed, if_true, hfloor, hlatest]
    have := hf.latest
    omega

theorem Floor.step {c : Stamped} (htrue : Truthful c)
    (hnear : ∀ env data, c.2 = .inputRtpPacket env data → Near c.1 newest)
    (hc : c.2 ≠ .beginDiscontinuity) :
    Floor (watch cfg (t, newest) c).1 seq origin (watch cfg (t, newest) c).2 := by
  obtain ⟨τ, c⟩ := c
  cases c with
  | beginDiscontinuity => exact absurd rfl hc
  | inputRtpPacket env data => exact hf.input env data htrue (hnear env data rfl)
  | sendPadding env paddingBytes =>
    refine hf.frame ?_
    simp only [watch, Track.step]
    rcases sendPadding_cases cfg env paddingBytes t with ⟨n, heq⟩ | ⟨n, s, -, -, -, heq⟩ <;>
      rw [heq] <;>
      exact ⟨rfl, rfl, rfl, rfl, rfl⟩
  | onRtcpNack env lost =>
    obtain ⟨n, cache, sent, heq⟩ := (echoes_onRtcpNack cfg env lost t).same
    refine hf.frame ?_
    simp only [watch, Track.step]
    rw [heq]
    exact ⟨rfl, rfl, rfl, rfl, rfl⟩
  | allocateElsewhere => exact hf.frame ⟨rfl, rfl, rfl, rfl, rfl⟩

theorem Floor.run {calls : List Stamped} (hcalls : Continues cfg (t, newest) calls) :
    Floor (run (watch cfg) (t, newest) calls).1 seq origin
      (run (watch cfg) (t, newest) calls).2 := by
  induction calls generalizing t newest with
  | nil => exact hf
  | cons c calls ih =>
    have hstep : Floor (watch cfg (t, newest) c).1 seq origin (watch cfg (t, newest) c).2 :=
      hf.step (hcalls.truthful c mem_cons_self) (hcalls.near _ mem_cons_self)
        (hcalls.unbroken c mem_cons_self)
    exact ih hstep ⟨fun c' hc' => hcalls.truthful c' (mem_cons_of_mem _ hc'),
      fun y hy => hcalls.near y (mem_cons_of_mem _ hy),
      fun c' hc' => hcalls.unbroken c' (mem_cons_of_mem _ hc')⟩

end

/-! ## The discontinuity -/

/-- None of the calls sends a source packet. -/
def Silent (cfg : Config) (t : Track) (calls : List Call) : Prop :=
  ∀ y ∈ history (step cfg) t calls, ¬SendsMedia cfg y.1 y.2

section

variable (hr : t.rebasePending = true)
include hr

/-- A discontinuity waits for the next source packet. -/
theorem rebasePending_step {c : Call} (hc : ¬SendsMedia cfg t c) :
    (t.step cfg c).rebasePending = true := by
  cases c with
  | beginDiscontinuity => rfl
  | allocateElsewhere => exact hr
  | sendPadding env paddingBytes =>
    rw [Track.step]
    rcases sendPadding_cases cfg env paddingBytes t with ⟨n, heq⟩ | ⟨n, s, -, -, -, heq⟩ <;>
      rw [heq] <;>
      exact hr
  | onRtcpNack env lost =>
    obtain ⟨n, cache, sent, heq⟩ := (echoes_onRtcpNack cfg env lost t).same
    rw [Track.step, heq]
    exact hr
  | inputRtpPacket env data =>
    rw [Track.step]
    rcases inputRtpPacket_cases cfg env data t with heq | ⟨h, -, -, -, hcases⟩
    · rw [heq]
      exact hr
    rcases hcases with ⟨n, heq⟩ | ⟨n, s, order, cache, packets, octets, -, -, -, heq⟩
    · rw [heq]
      exact accept_rebasePending.trans hr
    · exact absurd (by rw [SendsMedia, heq]) hc

theorem rebasePending_run {calls : List Call}
    (hcalls : Silent cfg t calls) : (Packetia.run (step cfg) t calls).rebasePending = true := by
  induction calls generalizing t with
  | nil => exact hr
  | cons c calls ih =>
    exact ih (rebasePending_step hr (hcalls (t, c) mem_cons_self))
      fun y hy => hcalls y (mem_cons_of_mem _ hy)

/-- The source packet that is sent after a discontinuity sets the floor. -/
theorem floor_of_resume {env : Env} {data : List Byte}
    (hok : (t.inputRtpPacket cfg env data).1 = true) (hparse : parseRtpHeader data = some h)
    (hτ : h.timestamp = ofInt 32 origin) :
    Floor (t.inputRtpPacket cfg env data).2 h.seq origin origin ∧
      ∃ s, (t.inputRtpPacket cfg env data).2.primary = t.primary ++ [s] ∧
        s.content = .media h.seq true ∧ s.number = t.nextOutSeq h.seq := by
  rcases inputRtpPacket_cases cfg env data t with heq | ⟨h', hparse', -, -, hcases⟩
  · rw [heq] at hok
    cases hok
  obtain rfl := Option.some.inj (hparse.symm.trans hparse')
  rcases hcases with ⟨n, heq⟩ | ⟨n, s, order, cache, packets, octets, hcontent, hagain, hs, heq⟩
  · rw [heq] at hok
    cases hok
  have hsource : t.sourceTimestamp h = h.timestamp.toNat := by
    rw [Track.sourceTimestamp, if_neg fun hon => hon.2 hr]
  have hfields : (t.accept h).hasResumeFloor = true ∧ (t.accept h).resumeFloorSeq = h.seq ∧
      (t.accept h).resumeFloorTimestamp = h.timestamp.toNat ∧
      (t.accept h).latestSourceTimestamp = t.sourceTimestamp h := by
    simp only [Track.accept, startTimestamp, startSeq, rebase, hr, if_true]
    split_ifs <;> simp_all
  obtain ⟨hres, hseq, hfloor, hlatest⟩ := hfields
  rw [heq]
  refine ⟨⟨hres, rfl, hseq, ?_, ?_⟩, s, ?_, ?_, ?_⟩
  · change ofInt 32 (t.accept h).resumeFloorTimestamp = _
    rw [hfloor, BitVec.ofInt_natCast, BitVec.ofNat_toNat, BitVec.setWidth_eq, hτ]
  · simp only [recordOut, if_pos hres, hlatest, hfloor, hsource, max_self, sub_self]
  · rw [primary, primary, accept_sent, filter_append]
    simp [hagain]
  · rw [hcontent, accept_rebasePending, hr]
  · rw [hs, accept_mapSeq_of_rebase hr]

end

/-- After a discontinuity the first source packet that is sent has the number after
    the furthest one sent, padding included. From then on, until the next
    discontinuity, a source packet passes the floor exactly when its true timestamp
    is greater than that of the first one, or equal to it with a sequence number that
    is not behind, as long as true timestamps stay near the newest one sent. -/
theorem resumes_after_discontinuity (cfg : Config) (before silent : List Call)
    (hsilent : Silent cfg (after cfg (before ++ [.beginDiscontinuity])) silent) (env : Env)
    (data : List Byte) (h : Header) (hparse : parseRtpHeader data = some h) (origin : ℤ)
    (hτ : h.timestamp = ofInt 32 origin) :
    let t := after cfg (before ++ .beginDiscontinuity :: silent)
    (t.inputRtpPacket cfg env data).1 = true →
    (∃ s, (t.inputRtpPacket cfg env data).2.primary = t.primary ++ [s] ∧
      s.content = .media h.seq true ∧
      ∀ l ∈ ledger t.primary, s.number = ofInt 16 (l.far + 1)) ∧
    ∀ calls, Continues cfg ((t.inputRtpPacket cfg env data).2, origin) calls →
      ∀ (h' : Header) (τ : ℤ), h'.timestamp = ofInt 32 τ →
        Near τ (Packetia.run (watch cfg) ((t.inputRtpPacket cfg env data).2, origin) calls).2 →
        (¬BelowFloor h'
            (Packetia.run (watch cfg) ((t.inputRtpPacket cfg env data).2, origin) calls).1 ↔
          origin < τ ∨ (τ = origin ∧ (h'.seq - h.seq).toNat < 0x8000)) := by
  intro t hok
  have ht : t = Packetia.run (step cfg) (after cfg (before ++ [.beginDiscontinuity])) silent := by
    rw [after, ← run_append, append_assoc]
    rfl
  have hpending : (after cfg (before ++ [.beginDiscontinuity])).rebasePending = true := by
    rw [after, run_concat]
    rfl
  have hr : t.rebasePending = true := ht ▸ rebasePending_run hpending hsilent
  obtain ⟨hfloor, s, hprimary, hcontent, hs⟩ := floor_of_resume hr hok hparse hτ
  refine ⟨⟨s, hprimary, hcontent, fun l hl => ?_⟩, fun calls hcalls h' τ hτ' hnear => ?_⟩
  · rw [hs]
    exact (after_books cfg _).nextOutSeq h.seq l hl
  · exact (hfloor.run hcalls).not_belowFloor hτ' hnear

/-- A stream resumes after padding. Two packets of the source, each almost half a
    turn newer than the one before, pass the floor, though the timestamp of the last
    one has wrapped. -/
theorem resumes_after_discontinuity_wrap :
    let t := after stampedConfig
      ([.inputRtpPacket {} (sourcePacket 10 0)] ++ .beginDiscontinuity :: [.sendPadding {} 1])
    let resumed := (t.inputRtpPacket stampedConfig {} (sourcePacket 20 90000)).2
    let calls : List Stamped :=
      [(90000 + 0x7FFFFFFF, .inputRtpPacket {} (sourcePacket 21 0x80015F8F))]
    (∃ s, resumed.primary = t.primary ++ [s] ∧ s.number = 12) ∧
      ¬BelowFloor (.read (sourcePacket 22 0x15F8E))
        (Packetia.run (watch stampedConfig) (resumed, 90000) calls).1 := by
  intro t resumed calls
  have hsilent : Silent stampedConfig
      (after stampedConfig ([.inputRtpPacket {} (sourcePacket 10 0)] ++ [.beginDiscontinuity]))
      [.sendPadding {} 1] := by
    intro y hy
    obtain rfl := mem_singleton.1 hy
    exact id
  obtain ⟨⟨s, hs, -, hnumber⟩, hfloor⟩ := resumes_after_discontinuity stampedConfig
    [.inputRtpPacket {} (sourcePacket 10 0)] [.sendPadding {} 1] hsilent {}
    (sourcePacket 20 90000) (.read (sourcePacket 20 90000)) (by decide +kernel) 90000
    (by decide +kernel) (by decide +kernel)
  have hcalls : Continues stampedConfig (resumed, 90000) calls := by
    refine ⟨fun c hc => ?_, fun y hy _ _ _ => ?_, fun c hc => ?_⟩
    · obtain rfl := mem_singleton.1 hc
      have hparse : parseRtpHeader (sourcePacket 21 0x80015F8F) =
          some (.read (sourcePacket 21 0x80015F8F)) := by decide +kernel
      intro h hh
      obtain rfl := Option.some.inj (hparse.symm.trans hh)
      decide +kernel
    · obtain rfl := mem_singleton.1 hy
      constructor <;> norm_num
    · obtain rfl := mem_singleton.1 hc
      exact nofun
  have hnewest : (Packetia.run (watch stampedConfig) (resumed, 90000) calls).2 = 2147573647 := by
    decide +kernel
  have hledger : ledger t.primary = some ⟨11, 11⟩ := by decide +kernel
  refine ⟨⟨s, hs, (hnumber ⟨11, 11⟩ hledger).trans (by decide)⟩, ?_⟩
  refine (hfloor calls hcalls _ 4295057294 (by decide +kernel) ?_).2 (.inl (by norm_num))
  rw [Near, hnewest]
  constructor <;> norm_num

/-- The literal reading fails. After a late packet the stream resumes behind the
    furthest number, not behind the last one sent. A packet exactly half a turn newer
    than the newest one sent counts as older. -/
theorem resumes_behind_furthest :
    ((after {} [.inputRtpPacket {} (sourcePacket 10 0), .inputRtpPacket {} (sourcePacket 12 0),
      .inputRtpPacket {} (sourcePacket 11 0), .beginDiscontinuity,
      .inputRtpPacket {} (sourcePacket 20 90000)]).primary.map (fun s => (s.content, s.number)) =
        [(.media 10 false, 10), (.media 12 false, 12), (.media 11 false, 11),
          (.media 20 true, 13)]) ∧
    BelowFloor (.read (sourcePacket 21 0x80000000))
      (after {} [.beginDiscontinuity, .inputRtpPacket {} (sourcePacket 20 0)]) := by
  constructor <;> decide +kernel

end Packetia.Sender.Track
