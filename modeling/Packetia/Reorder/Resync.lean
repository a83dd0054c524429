import Packetia.Reorder.Invariant

/-!
# Following a jump of the source

A packet `maxGap` or more ahead is out of the window. The queue jumps to it only
when it completes a run: `consecutivePackets` packets out of the window with
consecutive numbers, within the probation time, while nothing else happens and
nothing has been handed over for the stalled time. The run is not stored; it is
followed by a small automaton (`resyncCount`, `resyncLast`, `resyncStarted`)
that normal traffic, an ambiguous packet, any output and a reset clear.

Here the automaton is related to the history of the calls: when it has counted
`k` packets, these are in the history (`Observing`). So a jump is always
preceded by a whole run (`jump_of_run`), and late packets never take part in one.
-/

namespace Packetia.Reorder.Queue

open List Option
open BitVec (ofNat)

variable {α : Type*} {cfg : Config} {now : ℤ} {q q' : Queue α} {q'' : Queue α} {f : BitVec 16}
  {k : ℕ}

/-! ## What a flush does to the observation -/

/-- A step at the time `now` that follows no jump: what it hands over clears the
    observation, and it only restarts the stall when it hands something over. -/
structure Settles (now : ℤ) (q q' : Queue α) : Prop where
  resyncs : q'.stats.resyncs = q.stats.resyncs
  live : q'.started = q.started
  cleared : q.resyncCount = 0 → q'.resyncCount = 0
  moves : (q.sorted.length < q'.sorted.length ∧ q'.lastProgress = now ∧ q'.resyncCount = 0) ∨
    (q'.sorted.length = q.sorted.length ∧ q'.lastProgress = q.lastProgress)

theorem Settles.refl (now : ℤ) (q : Queue α) : Settles now q q := ⟨rfl, rfl, id, .inr ⟨rfl, rfl⟩⟩

/-- What is handed over stays handed over. -/
theorem Settles.length_le (h : Settles now q q') : q.sorted.length ≤ q'.sorted.length := by
  rcases h.moves with ⟨hlt, -⟩ | ⟨hlen, -⟩
  · exact hlt.le
  · exact hlen.ge

theorem Settles.trans (h : Settles now q q') (h' : Settles now q' q'') : Settles now q q'' := by
  refine ⟨h'.resyncs.trans h.resyncs, h'.live.trans h.live, h'.cleared ∘ h.cleared, ?_⟩
  rcases h'.moves with ⟨hlt, hp, hc⟩ | ⟨hlen, hp⟩
  · exact .inl ⟨h.length_le.trans_lt hlt, hp, hc⟩
  · rw [hlen, hp]
    rcases h.moves with ⟨hlt', hp', hc'⟩ | hsame
    · exact .inl ⟨hlt', hp', h'.cleared hc'⟩
    · exact .inr hsame

theorem Settles.emitted_of (h : Settles now q q') (hne : q'.sorted.length ≠ q.sorted.length) :
    q.sorted.length < q'.sorted.length ∧ q'.lastProgress = now ∧ q'.resyncCount = 0 :=
  h.moves.resolve_right fun hsame => hne hsame.1

theorem settles_emit (now : ℤ) (extended : ℤ) (packet : α) (q : Queue α) :
    Settles now q (emit extended packet now q) :=
  ⟨rfl, rfl, fun _ => rfl, .inl ⟨by simp [emit], rfl, rfl⟩⟩

theorem settles_clearResync (now : ℤ) (q : Queue α) : Settles now q q.clearResync :=
  ⟨rfl, rfl, fun _ => rfl, .inr ⟨rfl, rfl⟩⟩

/-- No part of a flush follows a jump. -/
theorem settles (now : ℤ) : Flushing now (Settles (α := α) now) where
  refl := .refl now
  trans := .trans
  count _ _ _ hresyncs := ⟨hresyncs, rfl, id, .inr ⟨rfl, rfl⟩⟩
  clearResync := settles_clearResync now
  emitFirst q := by
    rw [emitFirst]
    cases q.buffer.head? with
    | none => exact .refl now q
    | some e => exact ⟨rfl, rfl, fun _ => rfl, .inl ⟨by simp [emit], rfl, rfl⟩⟩

theorem settles_inputAhead (cfg : Config) (now : ℤ) (seq : BitVec 16) (packet : α) (q : Queue α) :
    Settles now q (q.inputAhead cfg seq packet now) := by
  rw [inputAhead]
  split_ifs
  · exact ⟨rfl, rfl, id, .inr ⟨rfl, rfl⟩⟩
  · have hhold : Settles now q
        { q with buffer := q.buffer.emplace (q.next + ahead q.next seq) ⟨packet, now⟩ } :=
      ⟨rfl, rfl, id, .inr ⟨rfl, rfl⟩⟩
    exact hhold.trans (((settles now).makeRoom _ cfg).trans ((settles now).flushExpired _ cfg))

/-- Skipping a gap hands something over. -/
theorem skipGap_emits (hw : q.Waiting) : q.sorted.length < (q.skipGap now).sorted.length := by
  obtain ⟨k, b, hb⟩ := exists_head_of_waiting hw
  have hskip : q.skipToFirst.buffer = q.buffer ∧ q.skipToFirst.next = k ∧
      q.skipToFirst.sorted = q.sorted := by
    rw [skipToFirst, hb]; exact ⟨rfl, rfl, rfl⟩
  have hready : q.skipToFirst.Ready := by
    rw [ready_iff, hskip.1, hskip.2.1]; exact ⟨b, hb⟩
  obtain ⟨n, hn⟩ := Nat.exists_eq_succ_of_ne_zero hw
  rw [skipGap, flushBuffered, hskip.1, hn, loop_succ_of_guard hready]
  have hemit : q.sorted.length < (q.skipToFirst.emitFirst now).sorted.length := by
    rw [emitFirst, hskip.1, hb]; simp [emit, hskip.2.2]
  exact hemit.trans_le (loop_inv
    (P := Settles now (q.skipToFirst.emitFirst now))
    (fun q' _ h => h.trans ((settles now).emitFirst q')) n (.refl now _)).length_le

theorem expireGap_emits (now : ℤ) (hw : q.Waiting) :
    q.sorted.length < (q.expireGap now).sorted.length :=
  skipGap_emits (q := { q with stats := { q.stats with timeouts := q.stats.timeouts + 1 } }) hw

@[simp] theorem endProbation_sorted (now : ℤ) : (q.endProbation cfg now).sorted = q.sorted := by
  rw [endProbation]; split_ifs <;> rfl

variable (cfg)

/-- A flush of what is overdue hands something over, or only ends an observation
    that has taken too long. -/
theorem flushExpired_cases (now : ℤ) (q : Queue α) :
    q.flushExpired cfg now = q.endProbation cfg now ∨
      q.sorted.length < (q.flushExpired cfg now).sorted.length := by
  by_cases hov : (q.endProbation cfg now).Overdue cfg now
  · refine .inr ?_
    obtain ⟨n, hn⟩ := Nat.exists_eq_succ_of_ne_zero hov.1
    rw [endProbation_buffer] at hn
    rw [flushExpired, hn, loop_succ_of_guard hov]
    have hemit := expireGap_emits now hov.1
    rw [endProbation_sorted] at hemit
    exact hemit.trans_le (loop_inv
      (P := Settles now ((q.endProbation cfg now).expireGap now))
      (fun q' _ h => h.trans ((settles now).expireGap q')) n (.refl now _)).length_le
  · exact .inl (loop_of_not_guard hov _)

/-! ## The history of a queue -/

/-- The calls on a queue, over all its epochs. -/
inductive Op (α : Type*)
  | call (c : Call α)
  | reset

def step (q : Queue α) : Op α → Queue α
  | .call c => q.call cfg c
  | .reset => q.reset

variable (ops : List (Op α))

/-- The queue after the calls `ops` on a new one. -/
def afterOps : Queue α := run (step cfg) {} ops

/-- The calls `ops` on a new queue, each with the queue it is made on. -/
def past : List (Queue α × Op α) := history (step cfg) {} ops

def Call.time : Call α → ℤ
  | .inputPacket _ _ now => now
  | .flushBuffered now => now
  | .flushExpired now => now
  | .flushTimeout now => now

/-- The distance of an input from the awaited number, after what is overdue. -/
def distance (q : Queue α) (seq : BitVec 16) (now : ℤ) : ℕ :=
  ahead (q.flushExpired cfg now).next seq

/-- A call that hands something over. -/
def Emits (x : Queue α × Op α) : Prop :=
  x.1.sorted.length < (step cfg x.1 x.2).sorted.length
  deriving Decidable

/-- The number of an input forward out of the window. -/
def probe : Queue α × Op α → List (BitVec 16)
  | (q, .call (.inputPacket seq _ now)) =>
    if q.started ∧ cfg.maxGap ≤ distance cfg q seq now ∧ distance cfg q seq now < 0x8000 then [seq]
    else []
  | _ => []

/-- No packet in the window or half a cycle away, no output and no reset. -/
def Quiet : Queue α × Op α → Prop
  | (_, .reset) => False
  | (q, .call c) => ¬Emits cfg (q, .call c) ∧
    match c with
    | .inputPacket seq _ now =>
      ¬(distance cfg q seq now < cfg.maxGap) ∧ distance cfg q seq now ≠ 0x8000
    | _ => True

variable (xs : List (Queue α × Op α))

/-- The numbers forward out of the window, in order. -/
def probes : List (BitVec 16) := xs.flatMap (probe cfg)

/-- A list without the repeats of the element just before. -/
def collapse {β : Type*} [DecidableEq β] (l : List β) : List β :=
  l.foldl (fun acc a => if acc.getLast? = some a then acc else acc ++ [a]) []

/-- The time of a call that hands something over. -/
def emissionTime : Queue α × Op α → Option ℤ
  | (q, .call c) => if Emits cfg (q, .call c) then some c.time else none
  | (_, .reset) => none

/-- The time of the last output. -/
def lastEmission : Option ℤ := (xs.filterMap (emissionTime cfg)).getLast?

variable {cfg}

/-- The numbers `f, f + 1, …`, up to `k` of them. -/
def runFrom (f : BitVec 16) (k : ℕ) : List (BitVec 16) := (List.range k).map fun i => f + ofNat 16 i

section Collapse

variable {β : Type*} [DecidableEq β] {l : List β} {a : β}

theorem collapse_concat : collapse (l ++ [a]) =
    if (collapse l).getLast? = some a then collapse l else collapse l ++ [a] := by
  rw [collapse, foldl_append]
  rfl

end Collapse

theorem getLast?_runFrom (hk : k ≠ 0) : (runFrom f k).getLast? = some (f + ofNat 16 (k - 1)) := by
  obtain ⟨k, rfl⟩ := Nat.exists_eq_succ_of_ne_zero hk
  simp [runFrom, range_succ]

theorem runFrom_succ (f : BitVec 16) (k : ℕ) :
    runFrom f (k + 1) = runFrom f k ++ [f + ofNat 16 k] := by
  simp [runFrom, range_succ]

@[simp] theorem past_concat (op : Op α) :
    past cfg (ops ++ [op]) = past cfg ops ++ [(afterOps cfg ops, op)] := history_concat ops op

@[simp] theorem afterOps_concat (op : Op α) :
    afterOps cfg (ops ++ [op]) = step cfg (afterOps cfg ops) op := run_concat ops op

@[simp] theorem probes_append (xs ys : List (Queue α × Op α)) :
    probes cfg (xs ++ ys) = probes cfg xs ++ probes cfg ys := flatMap_append

theorem probes_singleton (x : Queue α × Op α) : probes cfg [x] = probe cfg x := by simp [probes]

/-! ## What a call does to the observation -/

/-- What a call can do to the observation. Only the last case follows a jump. -/
inductive Watch (cfg : Config) (q : Queue α) : Op α → Queue α → Prop
  | cleared {op : Op α} {q' : Queue α} : q'.resyncCount = 0 →
      q'.stats.resyncs ≤ q.stats.resyncs → Watch cfg q op q'
  | kept {op : Op α} {q' : Queue α} : Quiet cfg (q, op) →
      probe cfg (q, op) = [] ∨ q.resyncCount ≠ 0 ∧ probe cfg (q, op) = [q.resyncLast] →
      q'.resyncCount = q.resyncCount → q'.resyncLast = q.resyncLast →
      q'.resyncStarted = q.resyncStarted → q'.stats.resyncs = q.stats.resyncs → Watch cfg q op q'
  | begun {seq : BitVec 16} {packet : α} {now : ℤ} {q' : Queue α} :
      Quiet cfg (q, .call (.inputPacket seq packet now)) →
      probe cfg (q, .call (.inputPacket seq packet now)) = [seq] →
      1 < cfg.resync.consecutivePackets →
      q'.resyncCount = 1 → q'.resyncLast = seq → q'.resyncStarted = now →
      q'.stats.resyncs = q.stats.resyncs → Watch cfg q (.call (.inputPacket seq packet now)) q'
  | extended {op : Op α} {q' : Queue α} : Quiet cfg (q, op) → q.resyncCount ≠ 0 →
      probe cfg (q, op) = [q.resyncLast + 1] → q'.resyncCount = q.resyncCount + 1 →
      q.resyncCount + 1 < cfg.resync.consecutivePackets →
      q'.resyncLast = q.resyncLast + 1 → q'.resyncStarted = q.resyncStarted →
      q'.stats.resyncs = q.stats.resyncs → Watch cfg q op q'
  | jumped {packet : α} {now : ℤ} {q' : Queue α} : q.started = true → q.resyncCount ≠ 0 →
      cfg.resync.consecutivePackets ≤ q.resyncCount + 1 →
      cfg.maxGap ≤ ahead q.next (q.resyncLast + 1) → ahead q.next (q.resyncLast + 1) < 0x8000 →
      q.Stalled cfg now → ¬q.ProbationOver cfg now → q'.resyncCount = 0 →
      q'.next = q.next + ahead q.next (q.resyncLast + 1) + 1 →
      Watch cfg q (.call (.inputPacket (q.resyncLast + 1) packet now)) q'

/-- After a cleared observation, a step that follows no jump leaves it cleared. -/
theorem Settles.watch {op : Op α} (h : Settles now q q') (hc : q'.resyncCount = 0) :
    Watch cfg q op q' := .cleared hc h.resyncs.le

theorem inputBeyond_of_not_stalled (hst : ¬q.Stalled cfg now) (seq : BitVec 16) (packet : α) :
    q.inputBeyond cfg seq packet now = q.clearResync.countOutOfWindow := by
  rw [inputBeyond, confirmForwardResync, if_pos hst]

/-- A queue that has just handed something over is not stalled. -/
theorem not_stalled_of_progress (h : q.lastProgress = now) : ¬q.Stalled cfg now := by
  rintro ⟨hon, -, hno⟩
  have hpos : 0 < cfg.resync.stalledMs := (cfg.resync_ok hon).2.2.1
  refine hno (.inr ?_)
  rw [h, ms]
  omega

/-- An input in the window, or half a cycle away, clears the observation. -/
theorem inputNext_cleared (cfg : Config) (now : ℤ) (seq : BitVec 16) (packet : α)
    (hd : ahead q.next seq = 0x8000 ∨ ahead q.next seq < cfg.maxGap) :
    Settles now q (q.inputNext cfg seq packet now) ∧
      (q.inputNext cfg seq packet now).resyncCount = 0 := by
  have hwin := cfg.window.2.1
  rw [inputNext]
  split_ifs with hhalf hlate hbeyond hzero
  · exact ⟨⟨rfl, rfl, fun _ => rfl, .inr ⟨rfl, rfl⟩⟩, rfl⟩
  · omega
  · omega
  · have h := (settles_emit now q.next packet q.clearResync).trans
      ((settles now).flushBuffered _)
    exact ⟨(settles_clearResync now q).trans h, h.cleared rfl⟩
  · have h := settles_inputAhead cfg now seq packet q.clearResync
    exact ⟨(settles_clearResync now q).trans h, h.cleared rfl⟩

variable (seq : BitVec 16) (packet : α) {xs : List (Queue α × Op α)} {y : Queue α × Op α}

/-- Where an input is: in the window or half a cycle away, forward out of the window, or late. -/
theorem inputNext_cases (cfg : Config) (now : ℤ) (q : Queue α) :
    (Settles now q (q.inputNext cfg seq packet now) ∧
      (q.inputNext cfg seq packet now).resyncCount = 0) ∨
    (cfg.maxGap ≤ ahead q.next seq ∧ ahead q.next seq < 0x8000) ∨ 0x8000 < ahead q.next seq := by
  by_cases hd : ahead q.next seq = 0x8000 ∨ ahead q.next seq < cfg.maxGap
  · exact .inl (inputNext_cleared cfg now seq packet hd)
  · exact .inr (by omega)

theorem inputNext_late (hd : 0x8000 < ahead q.next seq) :
    q.inputNext cfg seq packet now = q.countLate := by
  rw [inputNext, if_neg (by omega), if_pos hd]

theorem inputNext_beyond (hlo : cfg.maxGap ≤ ahead q.next seq) (hhi : ahead q.next seq < 0x8000) :
    q.inputNext cfg seq packet now = q.inputBeyond cfg seq packet now := by
  rw [inputNext, if_neg (by omega), if_neg (by omega), if_pos hlo]

/-- An input clears the observation when flushing has handed something over. -/
theorem watch_of_emits (hs : q.started = true) (seq : BitVec 16) (packet : α)
    (hem : q.sorted.length < (q.flushExpired cfg now).sorted.length) :
    Watch cfg q (.call (.inputPacket seq packet now)) (q.inputPacket cfg seq packet now) := by
  have hflush := (settles now).flushExpired q cfg
  obtain ⟨-, hp, hc⟩ := hflush.emitted_of hem.ne'
  rw [inputPacket, if_pos hs]
  rcases inputNext_cases seq packet cfg now (q.flushExpired cfg now) with ⟨h, hc'⟩ | ⟨hlo, hhi⟩ | hd
  · exact (hflush.trans h).watch hc'
  · rw [inputNext_beyond seq packet hlo hhi,
      inputBeyond_of_not_stalled (not_stalled_of_progress hp)]
    exact .cleared rfl hflush.resyncs.le
  · rw [inputNext_late seq packet hd]
    exact .cleared hc hflush.resyncs.le

/-- An input of which nothing is handed over is quiet when it is late or forward
    out of the window. -/
theorem quiet_input {seq : BitVec 16} {packet : α}
    (hem : (q.inputPacket cfg seq packet now).sorted = q.sorted)
    (hd : cfg.maxGap ≤ distance cfg q seq now) (hhalf : distance cfg q seq now ≠ 0x8000) :
    Quiet cfg (q, .call (.inputPacket seq packet now)) := by
  refine ⟨?_, not_lt.2 hd, hhalf⟩
  change ¬q.sorted.length < (q.inputPacket cfg seq packet now).sorted.length
  rw [hem]
  exact lt_irrefl _

theorem watch_late (hs : q.started = true) (seq : BitVec 16) (packet : α)
    (heq : q.flushExpired cfg now = q.endProbation cfg now) (hd : 0x8000 < distance cfg q seq now) :
    Watch cfg q (.call (.inputPacket seq packet now)) (q.inputPacket cfg seq packet now) := by
  have hwin := cfg.window.2.1
  have hstep : q.inputPacket cfg seq packet now = (q.endProbation cfg now).countLate := by
    rw [inputPacket, if_pos hs, inputNext_late seq packet hd, heq]
  have hquiet : Quiet cfg (q, .call (.inputPacket seq packet now)) :=
    quiet_input (by rw [hstep]; exact endProbation_sorted now) (by omega) (by omega)
  rw [hstep, endProbation]
  split_ifs with hp
  · exact .cleared rfl le_rfl
  · refine .kept hquiet (.inl ?_) rfl rfl rfl rfl
    rw [probe, if_neg (by omega)]

theorem watch_beyond (hs : q.started = true) (seq : BitVec 16) (packet : α)
    (heq : q.flushExpired cfg now = q.endProbation cfg now)
    (hlo : cfg.maxGap ≤ distance cfg q seq now) (hhi : distance cfg q seq now < 0x8000) :
    Watch cfg q (.call (.inputPacket seq packet now)) (q.inputPacket cfg seq packet now) := by
  have hprobe : probe cfg (q, .call (.inputPacket seq packet now)) = [seq] := by
    rw [probe, if_pos ⟨hs, hlo, hhi⟩]
  have hstep : q.inputPacket cfg seq packet now =
      (q.endProbation cfg now).inputBeyond cfg seq packet now := by
    rw [inputPacket, if_pos hs, inputNext_beyond seq packet hlo hhi, heq]
  have hquiet (h : (q.inputPacket cfg seq packet now).sorted = q.sorted) := quiet_input h hlo hhi.ne
  have hsorted : (q.endProbation cfg now).sorted = q.sorted := endProbation_sorted now
  have hresyncs := ((settles now).endProbation q cfg).resyncs
  generalize hp : q.endProbation cfg now = p at *
  by_cases hst : p.Stalled cfg now
  swap
  · rw [hstep, inputBeyond_of_not_stalled hst]
    exact .cleared rfl hresyncs.le
  by_cases hrun : p.resyncCount = 0 ∨ seq ≠ p.resyncLast ∧ seq ≠ p.resyncLast + 1
  · -- The packet begins a run, which takes at least two.
    have htwo := (cfg.resync_ok hst.1).1
    have hrep : ¬(p.resyncCount ≠ 0 ∧ seq = p.resyncLast) := by
      rintro ⟨h₁, h₂⟩
      rcases hrun with h | h
      · exact h₁ h
      · exact h.1 h₂
    have hobs : p.observe seq now = { p with
        resyncCount := 1
        resyncStarted := now
        resyncLast := seq
        stats := { p.stats with resyncAttempts := p.stats.resyncAttempts + 1 } } := by
      rw [observe, if_pos (hrun.imp_right And.right)]
    have hres : q.inputPacket cfg seq packet now = (p.observe seq now).countOutOfWindow := by
      rw [hstep, inputBeyond, confirmForwardResync, if_neg (not_not_intro hst), if_neg hrep,
        decide_eq_false (by rw [hobs]; exact not_le.2 htwo)]
    rw [hobs] at hres
    have hsame : (q.inputPacket cfg seq packet now).sorted = q.sorted := by rw [hres]; exact hsorted
    rw [hres]
    exact .begun (hquiet hsame) hprobe htwo rfl rfl rfl hresyncs
  · -- The packet belongs to the run, whose probation goes on.
    push Not at hrun
    obtain ⟨hcount, hseq⟩ := hrun
    have hover : ¬q.ProbationOver cfg now := by
      intro h
      rw [← hp, endProbation, if_pos h] at hcount
      exact hcount rfl
    obtain rfl : q = p := by rw [← hp, endProbation, if_neg hover]
    by_cases hrep : seq = q.resyncLast
    · have hres : q.inputPacket cfg seq packet now = q.countOutOfWindow := by
        rw [hstep, inputBeyond, confirmForwardResync, if_neg (not_not_intro hst),
          if_pos ⟨hcount, hrep⟩]
      have hsame : (q.inputPacket cfg seq packet now).sorted = q.sorted := by rw [hres]; rfl
      rw [hres]
      exact .kept (hquiet hsame) (.inr ⟨hcount, hrep ▸ hprobe⟩) rfl rfl rfl rfl
    · obtain rfl := hseq hrep
      have hobs : q.observe (q.resyncLast + 1) now = { q with
          resyncCount := q.resyncCount + 1, resyncLast := q.resyncLast + 1 } := by
        rw [observe, if_neg (by simp [hcount])]
      have hres := hstep
      rw [inputBeyond, confirmForwardResync, if_neg (not_not_intro hst),
        if_neg (fun h => hrep h.2), hobs] at hres
      by_cases hfull : cfg.resync.consecutivePackets ≤ q.resyncCount + 1
      · simp only [hfull, decide_true] at hres
        rw [distance, heq] at hlo hhi
        rw [hres]
        exact .jumped hs hcount hfull hlo hhi hst hover rfl rfl
      · simp only [hfull, decide_false] at hres
        have hsame : (q.inputPacket cfg (q.resyncLast + 1) packet now).sorted = q.sorted := by
          rw [hres]; rfl
        rw [hres]
        exact .extended (hquiet hsame) hcount hprobe rfl (not_le.1 hfull) rfl rfl rfl

theorem watch_input (now : ℤ) (q : Queue α) :
    Watch cfg q (.call (.inputPacket seq packet now)) (q.inputPacket cfg seq packet now) := by
  cases hs : q.started with
  | false =>
    rw [inputPacket, if_neg (by simp [hs])]
    exact .cleared rfl le_rfl
  | true =>
    rcases flushExpired_cases cfg now q with heq | hem
    · rcases inputNext_cases seq packet cfg now (q.flushExpired cfg now) with
        ⟨h, hc⟩ | ⟨hlo, hhi⟩ | hd
      · rw [inputPacket, if_pos hs]
        exact (((settles now).flushExpired q cfg).trans h).watch hc
      · exact watch_beyond hs seq packet heq hlo hhi
      · exact watch_late hs seq packet heq hd
    · exact watch_of_emits hs seq packet hem

theorem flushBuffered_cases (now : ℤ) (q : Queue α) : q.flushBuffered now = q ∨
    q.sorted.length < (q.flushBuffered now).sorted.length := by
  by_cases hr : q.Ready
  · obtain ⟨b, hb⟩ := ready_iff.1 hr
    have hemit : q.sorted.length < (q.emitFirst now).sorted.length := by
      rw [emitFirst, hb]; simp [emit]
    rw [flushBuffered, ← size_emitFirst hr now, loop_succ_of_guard hr]
    exact .inr (hemit.trans_le ((settles now).flushBuffered _).length_le)
  · exact .inl (loop_of_not_guard hr _)

/-- Every call is one of these. -/
theorem step_watch (cfg : Config) (q : Queue α) (op : Op α) : Watch cfg q op (step cfg q op) := by
  cases op with
  | reset => exact .cleared rfl (Nat.zero_le _)
  | call c =>
    cases c with
    | inputPacket seq packet now => exact watch_input seq packet now q
    | flushTimeout now =>
      refine ((settles now).flushTimeout q).watch ?_
      exact (loop_inv (P := Settles now q.clearResync)
        (fun q' _ h => h.trans ((settles now).skipGap q')) _ (.refl now _)).cleared rfl
    | flushBuffered now =>
      have h := (settles now).flushBuffered q
      rcases flushBuffered_cases now q with heq | hem
      · have hstep : step cfg q (.call (.flushBuffered now)) = q := heq
        have hquiet : Quiet cfg (q, .call (.flushBuffered now)) := by
          refine ⟨?_, trivial⟩
          rw [Emits, hstep]
          exact lt_irrefl _
        rw [hstep]
        exact .kept hquiet (.inl rfl) rfl rfl rfl rfl
      · exact h.watch (h.emitted_of hem.ne').2.2
    | flushExpired now =>
      have h := (settles now).flushExpired q cfg
      rcases flushExpired_cases cfg now q with heq | hem
      · have hstep : step cfg q (.call (.flushExpired now)) = q.endProbation cfg now := heq
        have hquiet : Quiet cfg (q, .call (.flushExpired now)) := by
          refine ⟨?_, trivial⟩
          rw [Emits, hstep, endProbation_sorted]
          exact lt_irrefl _
        rw [hstep, endProbation]
        split_ifs
        · exact .cleared rfl le_rfl
        · exact .kept hquiet (.inl rfl) rfl rfl rfl rfl
      · exact h.watch (h.emitted_of hem.ne').2.2

/-! ## The run behind the observation -/

/-- The packets counted by the observation are in the history `xs`: from the
    first of them on nothing else has happened, and without repeats the packets
    forward out of the window are consecutive. -/
def Observing (cfg : Config) (xs : List (Queue α × Op α)) (q : Queue α) : Prop :=
  ∃ pre x mid f packet, xs = pre ++ x :: mid ∧
    x.2 = .call (.inputPacket f packet q.resyncStarted) ∧ probe cfg x = [f] ∧
    (∀ y ∈ x :: mid, Quiet cfg y) ∧
    collapse (probes cfg (x :: mid)) = runFrom f q.resyncCount ∧
    q.resyncLast = f + ofNat 16 (q.resyncCount - 1)

theorem ofNat_pred_add_one (hk : k ≠ 0) (f : BitVec 16) :
    f + ofNat 16 (k - 1) + 1 = f + ofNat 16 k := by
  obtain ⟨k, rfl⟩ := Nat.exists_eq_succ_of_ne_zero hk
  rw [Nat.succ_sub_one, BitVec.add_assoc, Nat.succ_eq_add_one, BitVec.ofNat_add]
  rfl

theorem collapse_next {l : List (BitVec 16)} (hl : collapse l = runFrom f k) (hk : k ≠ 0) :
    collapse (l ++ [f + ofNat 16 k]) = runFrom f (k + 1) := by
  rw [collapse_concat, hl, runFrom_succ, getLast?_runFrom hk, if_neg]
  rw [← ofNat_pred_add_one hk]
  intro h
  exact absurd (some.inj h) (by bv_omega)

section

variable (h : Observing cfg xs q) (hy : Quiet cfg y) (hstarted : q'.resyncStarted = q.resyncStarted)
include h hy hstarted

/-- A quiet call, with what it does to the run. -/
theorem Observing.concat
    (hrun : ∀ f l, collapse l = runFrom f q.resyncCount →
      q.resyncLast = f + ofNat 16 (q.resyncCount - 1) →
      collapse (l ++ probe cfg y) = runFrom f q'.resyncCount ∧
        q'.resyncLast = f + ofNat 16 (q'.resyncCount - 1)) : Observing cfg (xs ++ [y]) q' := by
  obtain ⟨pre, x, mid, f, packet, rfl, hx, hf, hquiet, hl, hq⟩ := h
  refine ⟨pre, x, mid ++ [y], f, packet, by simp, by rw [hx, hstarted], hf, ?_, ?_⟩
  · rw [← cons_append, forall_mem_append]
    exact ⟨hquiet, by simpa using hy⟩
  · rw [← cons_append, probes_append, probes_singleton]
    exact hrun f _ hl hq

/-- A quiet call that adds no number to the run. -/
theorem Observing.kept (hc : q.resyncCount ≠ 0)
    (hprobe : probe cfg y = [] ∨ q.resyncCount ≠ 0 ∧ probe cfg y = [q.resyncLast])
    (hcount : q'.resyncCount = q.resyncCount) (hlast : q'.resyncLast = q.resyncLast) :
    Observing cfg (xs ++ [y]) q' := by
  refine h.concat hy hstarted fun f l hl hq => ⟨?_, by rw [hlast, hq, hcount]⟩
  rw [hcount]
  rcases hprobe with hnil | ⟨-, hone⟩
  · rw [hnil, append_nil, hl]
  · rw [hone, collapse_concat, hl, getLast?_runFrom hc, hq, if_pos rfl]

/-- A quiet call that adds the next number to the run. -/
theorem Observing.extended (hc : q.resyncCount ≠ 0) (hprobe : probe cfg y = [q.resyncLast + 1])
    (hcount : q'.resyncCount = q.resyncCount + 1) (hlast : q'.resyncLast = q.resyncLast + 1) :
    Observing cfg (xs ++ [y]) q' := by
  refine h.concat hy hstarted fun f l hl hq => ⟨?_, ?_⟩
  · rw [hprobe, hq, ofNat_pred_add_one hc, collapse_next hl hc, hcount]
  · rw [hlast, hq, hcount, ofNat_pred_add_one hc, Nat.add_sub_cancel]

end

/-- The automaton, and the time of the last output, read back from the history. -/
structure Tracked (cfg : Config) (ops : List (Op α)) (q : Queue α) : Prop where
  short : q.resyncCount ≠ 0 → q.resyncCount < cfg.resync.consecutivePackets
  observing : q.resyncCount ≠ 0 → Observing cfg (past cfg ops) q
  progress : q.started = true → lastEmission cfg (past cfg ops) = some q.lastProgress

theorem lastEmission_concat (x : Queue α × Op α) :
    lastEmission cfg (xs ++ [x]) = (emissionTime cfg x).or (lastEmission cfg xs) := by
  rw [lastEmission, lastEmission, filterMap_append, getLast?_append]
  cases h : emissionTime cfg x <;> simp [h]

/-- A step at the time `now`: it restarts the stall exactly when it hands
    something over. -/
def Moves (now : ℤ) (q q' : Queue α) : Prop :=
  (q.sorted.length < q'.sorted.length ∧ q'.lastProgress = now) ∨
    (q'.sorted.length = q.sorted.length ∧ q'.lastProgress = q.lastProgress ∧ q'.started = q.started)

theorem Settles.toMoves (h : Settles now q q') : Moves now q q' := by
  rcases h.moves with ⟨hlt, hp, -⟩ | ⟨hlen, hp⟩
  · exact .inl ⟨hlt, hp⟩
  · exact .inr ⟨hlen, hp, h.live⟩

theorem Settles.trans_moves (h : Settles now q q') (h' : Moves now q' q'') : Moves now q q'' := by
  rcases h' with ⟨hlt, hp⟩ | ⟨hlen, hp, hs⟩
  · exact .inl ⟨h.length_le.trans_lt hlt, hp⟩
  · rw [Moves, hlen, hp, hs]
    exact h.toMoves

/-- An input forward out of the window that moves the queue is a counted jump. -/
theorem inputBeyond_spec (q : Queue α) : Moves now q (q.inputBeyond cfg seq packet now) ∧
    ((q.inputBeyond cfg seq packet now).next = q.next ∨
      q.stats.resyncs < (q.inputBeyond cfg seq packet now).stats.resyncs) := by
  obtain ⟨count, started, last, attempts, heq, -⟩ :=
    confirmForwardResync_frame cfg seq now q
  rw [inputBeyond, heq]
  cases (q.confirmForwardResync cfg seq now).1 with
  | true => exact ⟨.inl ⟨by simp [emit], rfl⟩, .inr (Nat.lt_succ_self _)⟩
  | false => exact ⟨.inr ⟨rfl, rfl, rfl⟩, .inl rfl⟩

theorem moves_inputNext (q : Queue α) : Moves now q (q.inputNext cfg seq packet now) := by
  rcases inputNext_cases seq packet cfg now q with h | ⟨hlo, hhi⟩ | hd
  · exact h.1.toMoves
  · rw [inputNext_beyond seq packet hlo hhi]
    exact (inputBeyond_spec seq packet q).1
  · rw [inputNext_late seq packet hd]
    exact .inr ⟨rfl, rfl, rfl⟩

theorem moves_call (cfg : Config) (q : Queue α) (c : Call α) : Moves c.time q (q.call cfg c) := by
  cases c with
  | flushBuffered now => exact ((settles now).flushBuffered q).toMoves
  | flushExpired now => exact ((settles now).flushExpired q cfg).toMoves
  | flushTimeout now => exact ((settles now).flushTimeout q).toMoves
  | inputPacket seq packet now =>
    change Moves now q (q.inputPacket cfg seq packet now)
    rw [inputPacket]
    split_ifs
    · exact ((settles now).flushExpired q cfg).trans_moves (moves_inputNext seq packet _)
    · exact .inl ⟨by simp [emit], rfl⟩

/-- The history tells the state of the automaton along every run. -/
theorem tracked (cfg : Config) (ops : List (Op α)) : Tracked cfg ops (afterOps cfg ops) := by
  refine run_induction
    ⟨absurd rfl, absurd rfl, fun h => absurd h Bool.false_ne_true⟩
    (fun ops op ih => ?_) ops
  change Tracked cfg (ops ++ [op]) (step cfg (afterOps cfg ops) op)
  have hprogress : (step cfg (afterOps cfg ops) op).started = true →
      lastEmission cfg (past cfg (ops ++ [op])) =
        some (step cfg (afterOps cfg ops) op).lastProgress := by
    rw [past_concat, lastEmission_concat]
    cases op with
    | reset => exact fun h => absurd h Bool.false_ne_true
    | call c =>
      intro hs
      rw [emissionTime]
      rcases moves_call cfg (afterOps cfg ops) c with ⟨hlt, hp⟩ | ⟨hlen, hp, hs'⟩
      · have hem : Emits cfg (afterOps cfg ops, .call c) := hlt
        rw [if_pos hem, some_or]
        exact congrArg some hp.symm
      · have hem : ¬Emits cfg (afterOps cfg ops, .call c) := fun h => absurd hlen (Nat.ne_of_gt h)
        rw [if_neg hem, none_or, ih.progress (hs'.symm.trans hs)]
        exact congrArg some hp.symm
  generalize hq' : step cfg (afterOps cfg ops) op = q' at hprogress ⊢
  have hw := hq' ▸ step_watch cfg (afterOps cfg ops) op
  cases hw with
  | cleared hc _ => exact ⟨fun h => absurd hc h, fun h => absurd hc h, hprogress⟩
  | kept hquiet hprobe hcount hlast hstarted _ =>
    refine ⟨fun h => ?_, fun h => ?_, hprogress⟩
    · rw [hcount] at h ⊢
      exact ih.short h
    · rw [hcount] at h
      rw [past_concat]
      exact (ih.observing h).kept hquiet hstarted h hprobe hcount hlast
  | @begun seq packet now _ hquiet hprobe hlt hcount hlast hstarted _ =>
    refine ⟨fun _ => by rwa [hcount], fun _ => ?_, hprogress⟩
    rw [past_concat]
    refine ⟨past cfg ops, _, [], seq, packet, rfl, by rw [hstarted], hprobe, ?_, ?_, ?_⟩
    · simpa using hquiet
    · rw [probes_singleton, hprobe, hcount]
      simp [collapse, runFrom]
    · rw [hlast, hcount]
      exact (BitVec.add_zero seq).symm
  | extended hquiet hc hprobe hcount hlt hlast hstarted _ =>
    refine ⟨fun _ => by rw [hcount]; exact hlt, fun _ => ?_, hprogress⟩
    rw [past_concat]
    exact (ih.observing hc).extended hquiet hstarted hc hprobe hcount hlast
  | jumped _ _ _ _ _ _ _ hc _ =>
    exact ⟨fun h => absurd hc h, fun h => absurd hc h, hprogress⟩

theorem flushExpired_observation (q : Queue α) : (q.flushExpired cfg now).resyncCount = 0 ∨
    (q.flushExpired cfg now).resyncCount = q.resyncCount ∧
      (q.flushExpired cfg now).resyncLast = q.resyncLast ∧
      (q.flushExpired cfg now).resyncStarted = q.resyncStarted := by
  rcases flushExpired_cases cfg now q with heq | hem
  · rw [heq, endProbation]
    split_ifs
    · exact .inl rfl
    · exact .inr ⟨rfl, rfl, rfl⟩
  · exact .inl (((settles now).flushExpired q cfg).emitted_of hem.ne').2.2

/-- The queue `q` follows a jump with the input `op`, after the history `xs`:
    the packet completes a run. -/
def CompletesRun (cfg : Config) (xs : List (Queue α × Op α)) (q : Queue α) (op : Op α) : Prop :=
  2 ≤ cfg.resync.consecutivePackets ∧ ∃ seq packet now, op = .call (.inputPacket seq packet now) ∧
    cfg.maxGap ≤ ahead q.next seq ∧ ahead q.next seq < 0x8000 ∧
    (step cfg q op).next = q.next + ahead q.next seq + 1 ∧
    q.buffer.size = 0 ∧
    (∃ last, lastEmission cfg xs = some last ∧ last ≤ now ∧ ms cfg.resync.stalledMs ≤ now - last) ∧
    ∃ pre x mid f packet₀ t₀, xs = pre ++ x :: mid ∧
      x.2 = .call (.inputPacket f packet₀ t₀) ∧ probe cfg x = [f] ∧
      t₀ ≤ now ∧ now - t₀ < ms cfg.resync.probationMs ∧
      (∀ y ∈ x :: mid, Quiet cfg y) ∧
      collapse (probes cfg (x :: mid) ++ [seq]) = runFrom f cfg.resync.consecutivePackets

/-- A counted jump completes a run. -/
theorem completesRun_of_jump (op : Op α)
    (hjump : (afterOps cfg ops).stats.resyncs < (step cfg (afterOps cfg ops) op).stats.resyncs) :
    CompletesRun cfg (past cfg ops) (afterOps cfg ops) op := by
  have ht := tracked cfg ops
  generalize hq : afterOps cfg ops = q at hjump ht
  have hw := step_watch cfg q op
  generalize hq' : step cfg q op = q' at hjump hw
  cases hw with
  | cleared _ hle => exact absurd hjump (not_lt.2 hle)
  | kept _ _ _ _ _ heq | begun _ _ _ _ _ _ heq | extended _ _ _ _ _ _ _ heq =>
    exact absurd hjump heq.not_gt
  | @jumped packet now _ hs hc hfull hlo hhi hst hover _ hnext =>
    obtain ⟨pre, x, mid, f, packet₀, hpast, hx, hf, hquiet, hrun, hlast⟩ := ht.observing hc
    have hcount : q.resyncCount + 1 = cfg.resync.consecutivePackets :=
      le_antisymm (ht.short hc) hfull
    have htime : q.resyncStarted ≤ now ∧ now - q.resyncStarted < ms cfg.resync.probationMs := by
      simp only [ProbationOver, not_and_or, not_or, not_lt, not_le, ge_iff_le] at hover
      exact hover.resolve_left (not_not_intro hc)
    obtain ⟨hon, hempty, hstall⟩ := hst
    simp only [not_or, not_lt] at hstall
    refine ⟨(cfg.resync_ok hon).1, _, packet, now, rfl, hlo, hhi, hq' ▸ hnext, hempty,
      ⟨q.lastProgress, ht.progress hs, hstall⟩, pre, x, mid, f, packet₀, q.resyncStarted, hpast, hx,
      hf, htime.1, htime.2, hquiet, ?_⟩
    rw [hlast, ofNat_pred_add_one hc, collapse_next hrun hc, hcount]

/-- In every run of a queue, over all its epochs: an input forward out of the
    window moves the queue only when a jump is counted, a jump is only counted
    when it completes a run of `consecutivePackets` packets, never with
    `consecutivePackets = 0`, and a late packet neither counts a jump nor changes
    the observation, except that its time may end it. -/
theorem jump_of_run (cfg : Config) (ops : List (Op α)) (op : Op α) :
    let q := afterOps cfg ops
    (q.stats.resyncs < (step cfg q op).stats.resyncs → CompletesRun cfg (past cfg ops) q op) ∧
    ∀ seq packet now, op = .call (.inputPacket seq packet now) → q.started = true →
      (cfg.maxGap ≤ distance cfg q seq now → distance cfg q seq now < 0x8000 →
        (step cfg q op).next = (q.flushExpired cfg now).next ∨
          q.stats.resyncs < (step cfg q op).stats.resyncs) ∧
      (0x8000 < distance cfg q seq now →
        (step cfg q op).stats.resyncs = q.stats.resyncs ∧
        ((step cfg q op).resyncCount = 0 ∨
          (step cfg q op).resyncCount = q.resyncCount ∧
          (step cfg q op).resyncLast = q.resyncLast ∧
          (step cfg q op).resyncStarted = q.resyncStarted)) := by
  intro q
  refine ⟨completesRun_of_jump ops op, fun seq packet now hop hs => ?_⟩
  have hstep : step cfg q op = (q.flushExpired cfg now).inputNext cfg seq packet now := by
    rw [hop]
    change q.inputPacket cfg seq packet now = _
    rw [inputPacket, if_pos hs]
  have hresyncs := ((settles now).flushExpired q cfg).resyncs
  refine ⟨fun hlo hhi => ?_, fun hlate => ?_⟩
  · rw [hstep, inputNext_beyond seq packet hlo hhi, ← hresyncs]
    exact (inputBeyond_spec seq packet _).2
  · rw [hstep, inputNext_late seq packet hlate]
    exact ⟨hresyncs, flushExpired_observation q⟩

/-- Three packets in a row after a stall of more than a second are followed, the
    second of them moves nothing, and a late packet between them is only counted. -/
theorem jump_of_run_restart :
    let ops : List (Op Unit) := [.call (.inputPacket 799 () 0),
      .call (.inputPacket 2000 () 1200000000), .call (.inputPacket 2001 () 1201000000)]
    let op : Op Unit := .call (.inputPacket 2002 () 1202000000)
    let late : Op Unit := .call (.inputPacket 700 () 1202000000)
    ((afterOps .default ops).stats.resyncs <
        (step .default (afterOps .default ops) op).stats.resyncs ∧
      CompletesRun .default (past .default ops) (afterOps .default ops) op) ∧
    (step .default (afterOps .default ops) late).stats.resyncs =
      (afterOps .default ops).stats.resyncs ∧
    ((step .default (afterOps .default ops) op).next =
        ((afterOps .default ops).flushExpired .default 1202000000).next ∨
      (afterOps .default ops).stats.resyncs <
        (step .default (afterOps .default ops) op).stats.resyncs) := by
  intro ops op late
  have hjump : (afterOps .default ops).stats.resyncs <
      (step .default (afterOps .default ops) op).stats.resyncs := by decide
  have hop := (jump_of_run .default ops op).2 2002 () 1202000000 rfl (by decide)
  have hlate := (jump_of_run .default ops late).2 700 () 1202000000 rfl (by decide)
  exact ⟨⟨hjump, (jump_of_run .default ops op).1 hjump⟩, (hlate.2 (by decide)).1,
    hop.1 (by decide) (by decide)⟩

end Packetia.Reorder.Queue
