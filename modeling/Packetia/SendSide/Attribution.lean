import Packetia.Lib.Word
import Packetia.SendSide.Controller

/-!
# Feedback is about the right packet

The history has the packets of the current epoch under their own extended numbers, and none
whose feedback has been passed on (`Inv`). An entry of a report is taken for an extended number
with the same low bits, so it finds a packet that has been sent with the number that is
reported, if any (`ofInt_extendedOf`). The entries of a report are distinct, the packets
found are removed, and later packets have larger numbers: no packet is passed on twice.

An older packet has the same 16-bit number as a packet of the current epoch only if at least
`2 ^ 16` numbers have been allocated since (`feedback_attributed`).
-/

namespace Packetia.SendSide

open List Option Function Twcc
open BitVec (ofInt)

variable {h : PacketHistory} {k : ℤ} {p packet : PacketSendInfo} {f : PacketFeedback}

/-! ## The history -/

namespace PacketHistory

/-- A 16-bit number is taken for an extended number that it is the low bits of. -/
theorem ofInt_extendedOf (latestSequence : ℤ) (sequence : BitVec 16) :
    ofInt 16 (extendedOf latestSequence sequence) = sequence := by
  have hmod : extendedOf latestSequence sequence % 65536 = sequence.toNat := by
    rw [extendedOf]
    split_ifs <;> omega
  refine BitVec.eq_of_toNat_eq ?_
  rw [BitVec.toNat_ofInt]
  push_cast
  rw [hmod, Int.toNat_natCast]

theorem update_none_eq_some {f : ℤ → Option PacketSendInfo} {key : ℤ}
    (hp : update f key none k = some p) : f k = some p ∧ k ≠ key := by
  rw [update_apply] at hp
  split_ifs at hp with hk
  exact ⟨hp, hk⟩

theorem packets_evict {order : List ℤ} (hp : (h.evict order).packets k = some p) :
    h.packets k = some p := by
  induction order generalizing h with
  | nil => exact hp
  | cons key order ih =>
    rw [evict] at hp
    split_ifs at hp
    · exact (update_none_eq_some (ih hp)).1
    · exact hp

theorem packets_addPacket (hp : (h.addPacket packet).packets k = some p) :
    k = packet.transportSequence ∧ p = packet ∨ h.packets k = some p := by
  rw [addPacket] at hp
  split_ifs at hp
  · exact .inr hp
  · have hupdate : update h.packets packet.transportSequence (some packet) k = some p :=
      packets_evict hp
    rw [update_apply] at hupdate
    split_ifs at hupdate with hk
    · exact .inl ⟨hk, (some.inj hupdate).symm⟩
    · exact .inr hupdate

theorem packets_removeExpired {nowMs maxAgeMs : ℕ}
    (hp : (h.removeExpired nowMs maxAgeMs).packets k = some p) : h.packets k = some p :=
  (filter_eq_some_iff.1 hp).1

/-- The packets of some feedback are removed. -/
theorem packets_removeAll {feedbacks : List PacketFeedback}
    (hp : (feedbacks.foldl (fun history packet =>
      history.removePacket packet.sentPacket.transportSequence) h).packets k = some p) :
    h.packets k = some p ∧ k ∉ feedbacks.map fun f => f.sentPacket.transportSequence := by
  induction feedbacks generalizing h with
  | nil => exact ⟨hp, not_mem_nil⟩
  | cons f feedbacks ih =>
    obtain ⟨hremoved, hrest⟩ := ih hp
    obtain ⟨hkept, hk⟩ := update_none_eq_some hremoved
    rw [map_cons, mem_cons]
    exact ⟨hkept, not_or.2 ⟨hk, hrest⟩⟩

end PacketHistory

open PacketHistory SendSideController

/-- The packet of an entry is the one of an extended number with its low bits. -/
theorem feedbackOf_eq_some {item : FeedbackPacket} (hf : feedbackOf h item = some f) :
    (∃ k, h.packets k = some f.sentPacket ∧ ofInt 16 k = item.transportSequence) ∧
      f.received = item.received ∧ f.receiveTimeMs = item.receiveTimeMs := by
  obtain ⟨packet, hpacket, rfl⟩ := map_eq_some_iff.1 hf
  rw [getPacketByWireSequence] at hpacket
  split_ifs at hpacket
  exact ⟨⟨_, hpacket, ofInt_extendedOf _ _⟩, rfl, rfl⟩

/-! ## A call -/

/-- The number of the packet. -/
def PacketFeedback.key (f : PacketFeedback) : ℤ := f.sentPacket.transportSequence

/-- The state, given the packets that have been sent, each with its epoch, and the numbers of
    those whose feedback has been passed on. -/
structure Inv (log : List (ℕ × PacketSendInfo)) (done : List ℤ) (s : SendSideController) :
    Prop where
  keyed : ∀ k p, s.history.packets k = some p →
    p.transportSequence = k ∧ (s.pathEpoch, p) ∈ log ∧ k ∉ done
  done_sent : ∀ k ∈ done, ∃ e ∈ log, e.2.transportSequence = k
  done_nodup : done.Nodup
  epoch_le : ∀ e ∈ log, e.1 ≤ s.pathEpoch
  epochs : log.Pairwise fun a b => a.1 ≤ b.1
  allocated : ∀ e ∈ log, e.2.transportSequence < s.nextExtendedSequence

/-- The feedback `f` is about a packet of the epoch, with the number and the result that one of
    the reports has. -/
structure Attributed (log : List (ℕ × PacketSendInfo)) (epoch : ℕ) (reports : List FeedbackReport)
    (f : PacketFeedback) : Prop where
  sent : (epoch, f.sentPacket) ∈ log
  reported : ∃ report ∈ reports, ∃ item ∈ report.packets,
    item.transportSequence = ofInt 16 f.sentPacket.transportSequence ∧
      f.received = item.received ∧ f.receiveTimeMs = item.receiveTimeMs

variable {log : List (ℕ × PacketSendInfo)} {done : List ℤ} {s s' : SendSideController}
  {report : FeedbackReport} {reports : List FeedbackReport} {receiveTimeMs nowMs : ℕ}

/-- Packets may go from the history. -/
theorem Inv.thin (hs : Inv log done s) (hepoch : s'.pathEpoch = s.pathEpoch)
    (hnext : s.nextExtendedSequence ≤ s'.nextExtendedSequence)
    (hthin : ∀ k p, s'.history.packets k = some p → s.history.packets k = some p) :
    Inv log done s' := by
  refine ⟨fun k p hp => ?_, hs.done_sent, hs.done_nodup, ?_, hs.epochs, fun e he => ?_⟩
  · rw [hepoch]
    exact hs.keyed k p (hthin k p hp)
  · rw [hepoch]
    exact hs.epoch_le
  · exact (hs.allocated e he).trans_le hnext

theorem Inv.processIntervalLocked (hs : Inv log done s) (nowMs : ℕ) :
    Inv log done (s.processIntervalLocked nowMs) := by
  refine hs.thin ?_ ?_ fun k p hp => ?_
  · rw [SendSideController.processIntervalLocked]
    split_ifs <;> rfl
  · rw [SendSideController.processIntervalLocked]
    split_ifs <;> exact le_rfl
  · rw [SendSideController.processIntervalLocked] at hp
    split_ifs at hp <;> exact packets_removeExpired hp

/-- What is found for the entries of a report. -/
theorem Inv.build (hs : Inv log done s) (receiveTimeMs : ℕ)
    (hreport : (report.packets.map FeedbackPacket.transportSequence).Nodup) :
    (∀ f ∈ (build report s.history receiveTimeMs).packetFeedbacks,
      f.key ∉ done ∧ Attributed log s.pathEpoch [report] f) ∧
    ((build report s.history receiveTimeMs).packetFeedbacks.map PacketFeedback.key).Nodup := by
  have hfound : ∀ item f, feedbackOf s.history item = some f →
      s.history.packets f.key = some f.sentPacket ∧ ofInt 16 f.key = item.transportSequence := by
    intro item f hf
    obtain ⟨⟨k, hp, hk⟩, -, -⟩ := feedbackOf_eq_some hf
    obtain rfl : f.key = k := (hs.keyed k _ hp).1
    exact ⟨hp, hk⟩
  constructor
  · intro f hf
    obtain ⟨item, hitem, hf⟩ := mem_filterMap.1 hf
    obtain ⟨hp, hk⟩ := hfound item f hf
    obtain ⟨-, hsent, hdone⟩ := hs.keyed _ _ hp
    obtain ⟨-, hreceived, htime⟩ := feedbackOf_eq_some hf
    exact ⟨hdone, hsent, report, mem_singleton_self _, item, hitem, hk.symm, hreceived, htime⟩
  · -- Distinct entries find packets with distinct low bits.
    refine List.Nodup.of_map (ofInt 16) (hreport.sublist ?_)
    rw [List.map_map]
    change ((report.packets.filterMap (feedbackOf s.history)).map _).Sublist _
    generalize report.packets = packets
    induction packets with
    | nil => exact .slnil
    | cons item packets ih =>
      rw [filterMap_cons]
      cases hf : feedbackOf s.history item with
      | none => exact ih.cons _
      | some f =>
        simp only [map_cons, comp_apply, (hfound item f hf).2]
        exact ih.cons_cons _

/-- The numbers of the packets in some feedback. -/
def keysOf (passed : List TransportFeedback) : List ℤ :=
  (passed.flatMap TransportFeedback.packetFeedbacks).map PacketFeedback.key

theorem Attributed.mono {reports' : List FeedbackReport} {epoch : ℕ}
    (hf : Attributed log epoch reports f) (hsub : reports ⊆ reports') :
    Attributed log epoch reports' f := by
  obtain ⟨report, hreport, hitem⟩ := hf.reported
  exact ⟨hf.sent, report, hsub hreport, hitem⟩

/-- After more feedback has been passed on. -/
structure Passes (log : List (ℕ × PacketSendInfo)) (done : List ℤ) (reports : List FeedbackReport)
    (s : SendSideController) (result : List TransportFeedback × SendSideController) : Prop where
  inv : Inv log (done ++ keysOf result.1) result.2
  epoch_eq : result.2.pathEpoch = s.pathEpoch
  attributed : ∀ feedback ∈ result.1, ∀ f ∈ feedback.packetFeedbacks,
    Attributed log s.pathEpoch reports f

theorem Inv.onReport (hs : Inv log done s) (receiveTimeMs : ℕ)
    (hreport : (report.packets.map FeedbackPacket.transportSequence).Nodup) :
    Passes log done [report] s (s.onReport receiveTimeMs report) := by
  obtain ⟨hfound, hnodup⟩ := hs.build receiveTimeMs hreport
  rw [SendSideController.onReport]
  split_ifs with hempty
  · refine ⟨?_, rfl, nofun⟩
    rw [keysOf, flatMap_nil, map_nil, append_nil]
    exact hs
  · have hkeys : keysOf [SendSide.build report s.history receiveTimeMs] =
        (SendSide.build report s.history receiveTimeMs).packetFeedbacks.map PacketFeedback.key := by
      rw [keysOf, flatMap_singleton]
    refine ⟨⟨fun k p hp => ?_, fun k hk => ?_, ?_, hs.epoch_le, hs.epochs, hs.allocated⟩, rfl, ?_⟩
    · obtain ⟨hold, hremoved⟩ := packets_removeAll hp
      obtain ⟨hkey, hsent, hdone⟩ := hs.keyed k p hold
      refine ⟨hkey, hsent, fun hk => ?_⟩
      rcases mem_append.1 hk with hk | hk
      · exact hdone hk
      · rw [hkeys] at hk
        exact hremoved hk
    · rcases mem_append.1 hk with hk | hk
      · exact hs.done_sent k hk
      · rw [hkeys] at hk
        obtain ⟨f, hf, rfl⟩ := mem_map.1 hk
        exact ⟨_, (hfound f hf).2.sent, rfl⟩
    · rw [hkeys, nodup_append]
      refine ⟨hs.done_nodup, hnodup, fun a ha b hb hab => ?_⟩
      obtain ⟨f, hf, rfl⟩ := mem_map.1 hb
      exact (hfound f hf).1 (hab ▸ ha)
    · intro feedback hfeedback f hf
      rw [mem_singleton.1 hfeedback] at hf
      exact (hfound f hf).2

theorem Inv.onReports (hs : Inv log done s) (receiveTimeMs : ℕ)
    (hreports : ∀ report ∈ reports, (report.packets.map FeedbackPacket.transportSequence).Nodup) :
    Passes log done reports s (onReports receiveTimeMs s reports) := by
  induction reports generalizing s done with
  | nil =>
    refine ⟨?_, rfl, nofun⟩
    rw [onReports, keysOf, flatMap_nil, map_nil, append_nil]
    exact hs
  | cons report reports ih =>
    obtain ⟨hreport, hreports⟩ := forall_mem_cons.1 hreports
    have hfirst := hs.onReport receiveTimeMs hreport
    have hrest := ih hfirst.inv hreports
    rw [onReports]
    refine ⟨?_, hrest.epoch_eq.trans hfirst.epoch_eq, fun feedback hfeedback f hf => ?_⟩
    · rw [keysOf, flatMap_append, map_append, ← append_assoc]
      exact hrest.inv
    · rcases mem_append.1 hfeedback with hmem | hmem
      · refine (hfirst.attributed feedback hmem f hf).mono ?_
        exact cons_subset_cons _ (nil_subset _)
      · have hattributed := hrest.attributed feedback hmem f hf
        rw [hfirst.epoch_eq] at hattributed
        exact hattributed.mono (subset_cons_self _ _)

/-- The reports in an RTCP packet. -/
def reportsOf : Call → List FeedbackReport
  | .rtcpPacket data _ => reportsIn ((Rtcp.onRtcpPacket true data.length).value data).2
  | _ => []

theorem nodup_of_mem_reportsOf {c : Call} (hreport : report ∈ reportsOf c) :
    (report.packets.map FeedbackPacket.transportSequence).Nodup := by
  cases c with
  | rtcpPacket data receiveTimeMs =>
    obtain ⟨event, hevent, heq⟩ := mem_filterMap.1 hreport
    cases event with
    | transportFeedback report' =>
      obtain rfl := some.inj heq
      exact Rtcp.nodup_of_transportFeedback hevent
    | _ => cases heq
  | _ => cases hreport

theorem Inv.onRtcpPacket {data : List Byte} (hs : Inv log done s) :
    Passes log done (reportsOf (.rtcpPacket data receiveTimeMs)) s
      (s.onRtcpPacket data receiveTimeMs).2 := by
  have hnone : Passes log done (reportsOf (.rtcpPacket data receiveTimeMs)) s ([], s) := by
    refine ⟨?_, rfl, nofun⟩
    rw [keysOf, flatMap_nil, map_nil, append_nil]
    exact hs
  simp only [SendSideController.onRtcpPacket]
  by_cases hok : ((Rtcp.onRtcpPacket true data.length).value data).1 = true
  · by_cases havailable : s.available = true
    · have hlocked := hs.processIntervalLocked receiveTimeMs
      have hpassed := hlocked.onReports receiveTimeMs fun report hreport =>
        nodup_of_mem_reportsOf (c := .rtcpPacket data receiveTimeMs) hreport
      have hepoch : (s.processIntervalLocked receiveTimeMs).pathEpoch = s.pathEpoch := by
        rw [SendSideController.processIntervalLocked]
        split_ifs <;> rfl
      rw [if_neg (not_not.2 hok), if_neg (not_not.2 havailable)]
      exact ⟨hpassed.inv, hpassed.epoch_eq.trans hepoch, hepoch ▸ hpassed.attributed⟩
    · rw [if_neg (not_not.2 hok), if_pos havailable]
      exact hnone
  · rw [if_pos hok]
    exact hnone

/-! ## Runs -/

/-- The packet of a call of `OnPacketSent`. -/
def Call.packet? : Call → Option PacketSendInfo
  | .packetSent packet => some packet
  | _ => none

variable (s)

/-- What a call adds to the log of the packets that have been sent. -/
def logOf (c : Call) : List (ℕ × PacketSendInfo) :=
  (c.packet?.map fun packet => (s.pathEpoch, packet)).toList

/-- The packets that have been sent in a run, each with the epoch it was sent on. -/
def sentLog (calls : List Call) : List (ℕ × PacketSendInfo) :=
  (Packetia.history step s calls).flatMap fun e => logOf e.1 e.2

/-- What has been passed to the congestion controller in a run. -/
def passedLog (calls : List Call) : List TransportFeedback :=
  (Packetia.history step s calls).flatMap fun e => e.1.passed e.2

variable {s}

/-- The numbers of the packets are taken from the allocator, in increasing order. -/
structure Numbered (s : SendSideController) (calls : List Call) : Prop where
  increasing : (sentLog s calls).Pairwise fun a b => a.2.transportSequence < b.2.transportSequence
  allocated : ∀ e ∈ Packetia.history step s calls, ∀ packet ∈ e.2.packet?,
    0 ≤ packet.transportSequence ∧ packet.transportSequence < e.1.nextExtendedSequence

/-- The controller before the first call. -/
def start (feedbackTimeoutMs : ℕ) (available : Bool) : SendSideController :=
  { feedbackTimeoutMs, available }

theorem keysOf_append (passed passed' : List TransportFeedback) :
    keysOf (passed ++ passed') = keysOf passed ++ keysOf passed' := by
  rw [keysOf, flatMap_append, map_append, keysOf, keysOf]

theorem Inv.beginEpoch (hs : Inv log done s) (available : Bool) :
    Inv log done (s.beginEpoch available) where
  keyed := nofun
  done_sent := hs.done_sent
  done_nodup := hs.done_nodup
  epoch_le e he := (hs.epoch_le e he).trans (Nat.le_succ _)
  epochs := hs.epochs
  allocated := hs.allocated

/-- A packet with a new number. -/
theorem Inv.onPacketSent (hs : Inv log done s)
    (hnew : ∀ e ∈ log, e.2.transportSequence < packet.transportSequence)
    (hnext : packet.transportSequence < s.nextExtendedSequence) :
    Inv (log ++ [(s.pathEpoch, packet)]) done (s.onPacketSent packet) := by
  have hlog : Inv (log ++ [(s.pathEpoch, packet)]) done s := by
    refine ⟨fun k p hp => ?_, fun k hk => ?_, hs.done_nodup, ?_, ?_, ?_⟩
    · obtain ⟨hkey, hsent, hdone⟩ := hs.keyed k p hp
      exact ⟨hkey, mem_append_left _ hsent, hdone⟩
    · obtain ⟨e, he, hk⟩ := hs.done_sent k hk
      exact ⟨e, mem_append_left _ he, hk⟩
    · exact forall_mem_concat.2 ⟨hs.epoch_le, le_rfl⟩
    · exact pairwise_concat.2 ⟨hs.epochs, hs.epoch_le⟩
    · exact forall_mem_concat.2 ⟨hs.allocated, hnext⟩
  rw [SendSideController.onPacketSent]
  split_ifs
  · refine ⟨fun k p hp => ?_, hlog.done_sent, hlog.done_nodup, hlog.epoch_le, hlog.epochs,
      hlog.allocated⟩
    rcases packets_addPacket hp with ⟨rfl, rfl⟩ | hold
    · refine ⟨rfl, mem_concat_self, fun hdone => ?_⟩
      obtain ⟨e, he, hk⟩ := hs.done_sent _ hdone
      have hlt := hnew e he
      omega
    · exact hlog.keyed k p hold
  · exact hlog

/-- A call, given that a packet has a new number. -/
theorem Inv.step (hs : Inv log done s) (c : Call)
    (hnew : ∀ packet ∈ c.packet?, (∀ e ∈ log, e.2.transportSequence < packet.transportSequence) ∧
      packet.transportSequence < s.nextExtendedSequence) :
    Inv (log ++ logOf s c) (done ++ keysOf (s.passed c)) (s.step c) := by
  -- The calls that neither send a packet nor pass feedback on.
  have hquiet : ∀ {s' : SendSideController}, Inv log done s' → Inv (log ++ []) (done ++ []) s' := by
    intro s' hs'
    rwa [append_nil, append_nil]
  cases c with
  | allocate => exact hquiet (hs.thin rfl (Int.le_add_one le_rfl) fun _ _ hp => hp)
  | packetSent packet =>
    obtain ⟨hlt, hnext⟩ := hnew packet rfl
    change Inv _ (done ++ []) _
    rw [append_nil]
    exact hs.onPacketSent hlt hnext
  | rtcpPacket data receiveTimeMs =>
    change Inv (log ++ []) _ _
    rw [append_nil]
    exact hs.onRtcpPacket.inv
  | processInterval nowMs =>
    refine hquiet ?_
    rw [SendSideController.step, SendSideController.onProcessInterval]
    split_ifs
    · exact hs.processIntervalLocked nowMs
    · exact hs
  | setNetworkAvailable available =>
    refine hquiet ?_
    rw [SendSideController.step, SendSideController.setNetworkAvailable]
    split_ifs
    · exact hs
    · exact hs.beginEpoch available
  | networkRouteChanged => exact hquiet (hs.beginEpoch true)

theorem Numbered.of_append {s : SendSideController} {calls rest : List Call}
    (h : Numbered s (calls ++ rest)) : Numbered s calls := by
  obtain ⟨hincreasing, hallocated⟩ := h
  rw [sentLog, history_append, flatMap_append] at hincreasing
  rw [history_append] at hallocated
  exact ⟨(pairwise_append.1 hincreasing).1, fun e he => hallocated e (mem_append_left _ he)⟩

theorem inv_run (timeoutMs : ℕ) (available : Bool) {calls : List Call}
    (hcalls : Numbered (start timeoutMs available) calls) :
    Inv (sentLog (start timeoutMs available) calls)
      (keysOf (passedLog (start timeoutMs available) calls))
      (run step (start timeoutMs available) calls) := by
  induction calls using reverseRecOn with
  | nil =>
    refine ⟨fun k p hp => ?_, ?_, nodup_nil, ?_, .nil, ?_⟩
    · cases hp
    all_goals exact nofun
  | append_singleton calls c ih =>
    have hs := ih hcalls.of_append
    obtain ⟨hincreasing, hallocated⟩ := hcalls
    rw [sentLog, history_concat, flatMap_append, flatMap_singleton] at hincreasing ⊢
    rw [passedLog, history_concat, flatMap_append, flatMap_singleton, keysOf_append, run_concat]
    rw [history_concat] at hallocated
    refine hs.step c fun packet hpacket => ⟨fun e he => ?_, ?_⟩
    · have hmem : (_, packet) ∈
          logOf (run step (start timeoutMs available) calls) c :=
        mem_toList.2 (mem_map_of_mem _ hpacket)
      exact (pairwise_append.1 hincreasing).2.2 e he _ hmem
    · exact (hallocated _ mem_concat_self packet hpacket).2

/-- Packets of an earlier epoch have smaller numbers. -/
theorem Inv.lt_of_epoch_lt (hs : Inv log done s)
    (hincreasing : log.Pairwise fun a b => a.2.transportSequence < b.2.transportSequence)
    {a b : ℕ × PacketSendInfo} (ha : a ∈ log) (hb : b ∈ log) (hlt : a.1 < b.1) :
    a.2.transportSequence < b.2.transportSequence := by
  obtain ⟨i, hi, rfl⟩ := getElem_of_mem ha
  obtain ⟨j, hj, rfl⟩ := getElem_of_mem hb
  rcases lt_trichotomy i j with hij | rfl | hji
  · exact pairwise_iff_getElem.1 hincreasing i j hi hj hij
  · exact absurd hlt (lt_irrefl _)
  · exact absurd hlt (not_lt.2 (pairwise_iff_getElem.1 hs.epochs j i hj hi hji))

/-- Feedback that is passed on is about a packet of the current epoch that was sent with the
    number that is reported, and never about a packet again. If fewer than `2 ^ 16` numbers
    have been allocated since a packet of an earlier epoch, the feedback is not what a report
    has about that packet. -/
theorem feedback_attributed (timeoutMs : ℕ) (available : Bool) (calls : List Call)
    (hcalls : Numbered (start timeoutMs available) calls) :
    (∀ pre c post, calls = pre ++ c :: post →
      let s := run step (start timeoutMs available) pre
      ∀ feedback ∈ s.passed c, ∀ f ∈ feedback.packetFeedbacks,
        (s.pathEpoch, f.sentPacket) ∈ sentLog (start timeoutMs available) pre ∧
        (∃ report ∈ reportsOf c, ∃ item ∈ report.packets,
          item.transportSequence = ofInt 16 f.sentPacket.transportSequence ∧
          f.received = item.received ∧ f.receiveTimeMs = item.receiveTimeMs) ∧
        ∀ epoch packet, (epoch, packet) ∈ sentLog (start timeoutMs available) pre →
          epoch ≠ s.pathEpoch →
          s.nextExtendedSequence - 1 - packet.transportSequence < 2 ^ 16 →
          ofInt 16 f.sentPacket.transportSequence ≠
            ofInt 16 packet.transportSequence) ∧
    (((passedLog (start timeoutMs available) calls).flatMap
      TransportFeedback.packetFeedbacks).map fun f => f.sentPacket.transportSequence).Nodup := by
  refine ⟨?_, (inv_run timeoutMs available hcalls).done_nodup⟩
  rintro pre c post rfl s feedback hfeedback f hf
  have hpre := hcalls.of_append
  have hs := inv_run timeoutMs available hpre
  cases c with
  | rtcpPacket data receiveTimeMs =>
    obtain ⟨hsent, hreported⟩ := hs.onRtcpPacket.attributed feedback hfeedback f hf
    refine ⟨hsent, hreported, fun epoch packet hpacket hepoch hnear => ?_⟩
    have hlt := hs.lt_of_epoch_lt hpre.increasing hpacket hsent
      (lt_of_le_of_ne (hs.epoch_le _ hpacket) hepoch)
    have hallocated : f.sentPacket.transportSequence < s.nextExtendedSequence :=
      hs.allocated _ hsent
    refine (ofInt_ne_of_lt hlt ?_).symm
    simp only at hlt ⊢
    omega
  | _ => cases hfeedback

/-- Two packets are sent, the route changes between them, and both are reported. -/
def routeChange : List Call :=
  [.allocate, .packetSent { transportSequence := 0 }, .networkRouteChanged, .allocate,
    .packetSent { transportSequence := 1, sendTimeMs := 10 },
    .rtcpPacket [0x8F, 205, 0, 5, 0, 0, 0, 1, 0, 0, 0, 2, 0, 0, 0, 2, 0, 0, 1, 0, 0xB0, 0, 4, 4] 50]

theorem feedback_attributed_routeChange :
    passedLog (start 5000 true) routeChange =
      [{ feedbackTimeMs := 50, packetFeedbacks := [{
          sentPacket := { transportSequence := 1, sendTimeMs := 10 }
          received := true, receiveTimeMs := 66 }] }] ∧
    (((passedLog (start 5000 true) routeChange).flatMap
      TransportFeedback.packetFeedbacks).map fun f => f.sentPacket.transportSequence).Nodup :=
  ⟨by decide +kernel, (feedback_attributed 5000 true routeChange ⟨by decide, by decide⟩).2⟩

end Packetia.SendSide
