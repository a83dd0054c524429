import Packetia.Reorder.Resync

/-!
# How long a packet waits

A packet leaves the buffer when it is handed over only, and its time of arrival is never written
again (`Hands`). When what is overdue has been flushed, no packet in the buffer has waited for the
timeout, whichever of them is the oldest (`InTime`); an input flushes before it looks at the packet,
and once more when it has buffered it. So a packet is handed over by the first call that comes
when its time is over (`waits_at_most`).
-/

namespace Packetia.Reorder.Queue

open List

variable {α : Type*} {cfg : Config} {now : ℤ} {q q' : Queue α} {new : Buffered α → Prop}
  {seq : BitVec 16}

/-- What is new in the buffer satisfies `new`, and what is gone from it has been handed over. -/
structure Hands (new : Buffered α → Prop) (q q' : Queue α) : Prop where
  fresh : ∀ e ∈ q'.buffer.entries, e ∈ q.buffer.entries ∨ new e.2
  kept : ∀ e ∈ q.buffer.entries, e ∈ q'.buffer.entries ∨ (e.1, e.2.packet) ∈ q'.sorted
  sorted : q.sorted ⊆ q'.sorted
  idle : q'.started = false → q.started = false

theorem Hands.of_eq (hbuffer : q'.buffer = q.buffer) (hsorted : q.sorted ⊆ q'.sorted := by
    first | exact Subset.refl _ | exact subset_append_left _ _)
    (hidle : q'.started = false → q.started = false := by exact id) : Hands new q q' :=
  ⟨fun _ he => .inl (hbuffer ▸ he), fun _ he => .inl (hbuffer ▸ he), hsorted, hidle⟩

theorem Hands.trans {q'' : Queue α} (h : Hands new q q') (h' : Hands new q' q'') :
    Hands new q q'' := by
  refine ⟨fun e he => ?_, fun e he => ?_, Subset.trans h.sorted h'.sorted, h.idle ∘ h'.idle⟩
  · rcases h'.fresh e he with he | hnew
    · exact h.fresh e he
    · exact .inr hnew
  · rcases h.kept e he with he | hsorted
    · exact h'.kept e he
    · exact .inr (h'.sorted hsorted)

theorem hands_flushing (now : ℤ) : Flushing now (Hands (α := α) new) where
  refl _ := .of_eq rfl
  trans := .trans
  count _ _ _ _ := .of_eq rfl
  clearResync _ := .of_eq rfl
  emitFirst q := by
    rw [emitFirst]
    cases hb : q.buffer.head? with
    | none => exact .of_eq rfl
    | some head =>
      refine ⟨fun e he => .inl (OrdMap.mem_of_mem_tail he), fun e he => ?_,
        subset_append_left _ _, id⟩
      rw [OrdMap.entries_of_head? hb] at he
      rcases mem_cons.1 he with rfl | he
      · exact .inr mem_concat_self
      · exact .inl he

theorem hands_inputAhead {packet : α} (hnew : new ⟨packet, now⟩) :
    Hands new q (q.inputAhead cfg seq packet now) := by
  have hflushing : Flushing now (Hands new) := hands_flushing now
  rw [inputAhead]
  split_ifs with hkey
  · exact .of_eq rfl
  · refine Hands.trans ?_ ((hflushing.makeRoom _ cfg).trans (hflushing.flushExpired _ cfg))
    refine ⟨fun e he => ?_, fun e he => .inl ?_, Subset.refl _, id⟩
    · rcases (OrdMap.mem_emplace hkey).1 he with rfl | he
      · exact .inr hnew
      · exact .inl he
    · exact (OrdMap.mem_emplace hkey).2 (.inr he)

/-- Only a packet ahead in the window is buffered. -/
theorem hands_inputNext {packet : α}
    (hnew : 0 < ahead q.next seq → ahead q.next seq < cfg.maxGap → new ⟨packet, now⟩) :
    Hands new q (q.inputNext cfg seq packet now) := by
  rw [inputNext]
  split_ifs with hhalf hlate hbeyond hzero
  · exact .of_eq rfl
  · exact .of_eq rfl
  · obtain ⟨count, started, last, attempts, heq, -⟩ := confirmForwardResync_frame cfg seq now q
    rw [inputBeyond, heq]
    cases (q.confirmForwardResync cfg seq now).1 with
    | true | false => exact .of_eq rfl
  · refine Hands.trans ?_ ((hands_flushing now).flushBuffered _)
    exact .of_eq rfl
  · refine Hands.trans ?_ (hands_inputAhead (hnew (Nat.pos_of_ne_zero hzero) (not_le.1 hbeyond)))
    exact .of_eq rfl

/-- What a call buffers arrives at its time. -/
theorem hands_call (cfg : Config) (q : Queue α) (c : Call α) :
    Hands (fun b => b.arrived = c.time) q (q.call cfg c) := by
  cases c with
  | flushBuffered now => exact (hands_flushing now).flushBuffered q
  | flushExpired now => exact (hands_flushing now).flushExpired q cfg
  | flushTimeout now => exact (hands_flushing now).flushTimeout q
  | inputPacket seq packet now =>
    rw [call, inputPacket]
    split_ifs
    · exact ((hands_flushing now).flushExpired q cfg).trans (hands_inputNext fun _ _ => rfl)
    · exact .of_eq rfl (subset_append_left _ _) (by simp [emit])

/-! ## What is overdue -/

/-- A flush takes out of the buffer what it hands over. -/
theorem total_flushing (now : ℤ) : Flushing now fun q q' : Queue α =>
    q'.sorted.length + q'.buffer.size = q.sorted.length + q.buffer.size where
  refl _ := rfl
  trans h h' := h'.trans h
  count _ _ _ _ := rfl
  clearResync _ := rfl
  emitFirst q := by
    rw [emitFirst]
    cases hb : q.buffer.head? with
    | none => rfl
    | some head =>
      rw [OrdMap.size, OrdMap.size, OrdMap.entries_of_head? hb]
      simp only [emit, length_append, length_cons, length_nil]
      omega

/-- Each gap that is skipped takes a packet out, so the flush ends with nothing overdue. -/
theorem not_overdue_flushExpired (q : Queue α) : ¬(q.flushExpired cfg now).Overdue cfg now := by
  refine (loop_spec (P := fun _ => True)
    (m := fun q' => q'.buffer.size) (fun q' hov _ => ⟨trivial, ?_⟩) trivial (le_of_eq ?_)).2
  · have htotal := (total_flushing now).expireGap q'
    have hemits := expireGap_emits now hov.1
    omega
  · rw [endProbation_buffer]

/-- No packet in the buffer has waited for the timeout. -/
def InTime (cfg : Config) (now : ℤ) (q : Queue α) : Prop :=
  ∀ e ∈ q.buffer.entries, now < e.2.arrived + ms cfg.timeoutMs

theorem inTime_flushExpired (q : Queue α) : InTime cfg now (q.flushExpired cfg now) := by
  intro e he
  have hwaiting : (q.flushExpired cfg now).Waiting := by
    rw [Waiting, OrdMap.size, ne_eq, length_eq_zero_iff]
    exact ne_nil_of_mem he
  have hle := (oldest_spec hwaiting).2 e he
  have hms : 0 ≤ ms cfg.timeoutMs := by rw [ms]; positivity
  rcases not_not.1 fun hno => not_overdue_flushExpired q ⟨hwaiting, hno⟩ with hlt | hlt
  · omega
  · omega

theorem Hands.inTime (h : Hands (fun _ => False) q q') (hq : InTime cfg now q) :
    InTime cfg now q' :=
  fun e he => hq e ((h.fresh e he).resolve_right id)

theorem inTime_inputNext (htime : InTime cfg now q) (seq : BitVec 16) (packet : α) :
    InTime cfg now (q.inputNext cfg seq packet now) := by
  by_cases hwin : 0 < ahead q.next seq ∧ ahead q.next seq < cfg.maxGap
  · have hhalf := cfg.window.2.1
    rw [inputNext, if_neg (by omega), if_neg (by omega), if_neg (by omega), if_neg (by omega),
      inputAhead]
    split_ifs
    · exact htime
    · exact inTime_flushExpired _
  · exact (hands_inputNext fun hpos hlt => hwin ⟨hpos, hlt⟩).inTime htime

/-- A call that flushes what is overdue. -/
def Call.Expires : Call α → Prop
  | .inputPacket _ _ _ | .flushExpired _ => True
  | .flushBuffered _ | .flushTimeout _ => False

/-- Before the first packet of an epoch nothing is buffered. -/
theorem empty_of_idle (cfg : Config) (ops : List (Op α)) :
    (afterOps cfg ops).started = false → (afterOps cfg ops).buffer.entries = [] := by
  refine run_induction (P := fun _ (q : Queue α) => q.started = false → q.buffer.entries = [])
    (fun _ => rfl) (fun ops op ih => ?_) ops
  have hflush : ∀ {q'}, Hands (fun _ => False) (run (step cfg) {} ops) q' →
      q'.started = false → q'.buffer.entries = [] := fun hands hidle =>
    eq_nil_iff_forall_not_mem.2 fun e he =>
      not_mem_nil (ih (hands.idle hidle) ▸ (hands.fresh e he).resolve_right id)
  cases op with
  | reset => exact fun _ => rfl
  | call c =>
    cases c with
    | flushBuffered now => exact hflush ((hands_flushing now).flushBuffered _)
    | flushExpired now => exact hflush ((hands_flushing now).flushExpired _ cfg)
    | flushTimeout now => exact hflush ((hands_flushing now).flushTimeout _)
    | inputPacket seq packet now =>
      intro hidle
      have hq := (hands_call cfg _ _).idle hidle
      rw [step, call, inputPacket, if_neg (by rw [hq]; simp)] at hidle
      cases hidle

theorem inTime_call {c : Call α} (hc : c.Expires) (ops : List (Op α)) :
    InTime cfg c.time (afterOps cfg (ops ++ [.call c])) := by
  rw [afterOps_concat]
  cases c with
  | flushBuffered now | flushTimeout now => exact hc.elim
  | flushExpired now => exact inTime_flushExpired _
  | inputPacket seq packet now =>
    rw [step, call, inputPacket]
    split_ifs with hs
    · exact inTime_inputNext (inTime_flushExpired _) seq packet
    · have hempty := empty_of_idle cfg ops (by simpa using hs)
      exact fun e he => absurd (hempty ▸ he) not_mem_nil

theorem hands_run (cfg : Config) {e : ℤ × Buffered α} (cs : List (Call α)) (ops : List (Op α))
    (he : e ∈ (afterOps cfg ops).buffer.entries ∨ (e.1, e.2.packet) ∈ (afterOps cfg ops).sorted) :
    e ∈ (afterOps cfg (ops ++ cs.map .call)).buffer.entries ∨
      (e.1, e.2.packet) ∈ (afterOps cfg (ops ++ cs.map .call)).sorted := by
  induction cs generalizing ops with
  | nil => rwa [map_nil, append_nil]
  | cons c cs ih =>
    have hands := hands_call cfg (afterOps cfg ops) c
    rw [map_cons, append_cons]
    refine ih _ ?_
    rw [afterOps_concat]
    exact he.elim (hands.kept e) fun hsorted => .inr (hands.sorted hsorted)

/-- Along every run, after a call that flushes what is overdue nothing in the buffer has waited for
    the timeout. A packet that a call buffers, at the time of that call, has been handed over by
    the end of any such call from then on in the epoch, whatever calls are made in between. -/
theorem waits_at_most (cfg : Config) (ops : List (Op α)) (c : Call α) :
    (c.Expires → ∀ e ∈ (afterOps cfg (ops ++ [.call c])).buffer.entries,
      c.time < e.2.arrived + ms cfg.timeoutMs) ∧
    ∀ e ∈ (afterOps cfg (ops ++ [.call c])).buffer.entries, e ∉ (afterOps cfg ops).buffer.entries →
      e.2.arrived = c.time ∧ ∀ later c', Call.Expires c' → c.time + ms cfg.timeoutMs ≤ c'.time →
        (e.1, e.2.packet) ∈
          (afterOps cfg (ops ++ [.call c] ++ map .call later ++ [.call c'])).sorted := by
  refine ⟨fun hc => inTime_call hc ops, fun e he hne => ?_⟩
  have harrived : e.2.arrived = c.time :=
    ((hands_call cfg _ c).fresh e (by rwa [afterOps_concat] at he)).resolve_left hne
  refine ⟨harrived, fun later c' hc' hdue => ?_⟩
  have hrun := hands_run cfg (later ++ [c']) _ (.inl he)
  rw [map_append, ← append_assoc] at hrun
  refine hrun.resolve_left fun hstill => ?_
  have hlt := inTime_call hc' _ e hstill
  omega

end Packetia.Reorder.Queue
