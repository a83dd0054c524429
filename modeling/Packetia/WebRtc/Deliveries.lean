import Packetia.WebRtc.Bindings

/-!
# Deliveries

Every datagram that is handed to a transport was looked up, when it came in, in the session that
had the transport then (`Origin`), and is handed over once (`Numbered`). A delivery whose session
is gone is dead: its flag is cleared, for good, and so it never hands over its datagram (`Dead`).
-/

namespace Packetia.WebRtc.Mux

open List Option Net

variable {m m' : Mux}

/-! ## Numbers of datagrams -/

structure Numbered (m : Mux) : Prop where
  nodup : (m.pending.map Delivery.number).Nodup
  pending : ∀ d ∈ m.pending, d.number < m.datagrams
  handed : ∀ h ∈ m.handed, h.number < m.datagrams
  apart : ∀ d ∈ m.pending, ∀ h ∈ m.handed, h.number ≠ d.number

theorem Kept.numbered (hkept : Kept m m') (h : Numbered m) : Numbered m' where
  nodup := by
    rw [hkept.pending]
    exact h.nodup
  pending := by
    rw [hkept.pending, hkept.datagrams]
    exact h.pending
  handed := by
    rw [hkept.handed, hkept.datagrams]
    exact h.handed
  apart := by
    rw [hkept.pending, hkept.handed]
    exact h.apart

variable {source : SocketAddr} {data : List Byte} {d : Delivery} {call : Call}

/-- The delivery of a datagram has the datagram's number. -/
theorem lookup_number (hd : m.lookup source data = some d) : d.number = m.datagrams := by
  obtain ⟨e, -, -, heq⟩ := Inv.lookup_spec hd
  rw [heq]

theorem Numbered.onDatagram (h : Numbered m) (source : SocketAddr) (data : List Byte) :
    Numbered (m.onDatagram source data) where
  nodup := by
    rw [Mux.onDatagram, map_append, nodup_append]
    refine ⟨h.nodup, ?_, ?_⟩
    · cases m.lookup source data <;> simp
    · intro n hn n' hn'
      obtain ⟨d, hd, rfl⟩ := mem_map.1 hn
      obtain ⟨d', hd', rfl⟩ := mem_map.1 hn'
      rw [lookup_number (mem_toList.1 hd')]
      exact (h.pending d hd).ne
  pending d hd := by
    obtain hd | hd := Inv.mem_onDatagram.1 hd
    · exact (h.pending d hd).trans (Nat.lt_succ_self _)
    · rw [lookup_number hd]
      exact Nat.lt_succ_self _
  handed g hg := (h.handed g hg).trans (Nat.lt_succ_self _)
  apart d hd g hg := by
    obtain hd | hd := Inv.mem_onDatagram.1 hd
    · exact h.apart d hd g hg
    · rw [lookup_number hd]
      exact (h.handed g hg).ne

theorem Numbered.deliver (h : Numbered m) (i : ℕ) : Numbered (m.deliver i) := by
  obtain heq | ⟨d, hd, heq⟩ := deliver_cases i
  · rwa [heq]
  rw [heq]
  obtain ⟨hi, hget⟩ := List.getElem?_eq_some_iff.1 hd
  have hperm : (d :: m.pending.eraseIdx i).Perm m.pending := by
    rw [← hget]
    exact getElem_cons_eraseIdx_perm hi
  have hnodup := (hperm.map Delivery.number).nodup_iff.2 h.nodup
  rw [map_cons, nodup_cons] at hnodup
  have hold : ∀ d' ∈ m.pending.eraseIdx i, d' ∈ m.pending := fun d' => mem_of_mem_eraseIdx
  constructor
  case nodup => exact hnodup.2
  case pending => exact fun d' hd' => h.pending d' (hold d' hd')
  case handed =>
    intro g hg
    obtain hg | ⟨-, rfl⟩ := mem_handed hg
    · exact h.handed g hg
    · exact h.pending d (mem_of_getElem? hd)
  case apart =>
    intro d' hd' g hg
    obtain hg | ⟨-, rfl⟩ := mem_handed hg
    · exact h.apart d' (hold d' hd') g hg
    · exact fun hnumber => hnodup.1 (mem_map.2 ⟨d', hd', hnumber.symm⟩)

/-- A property of what is on its way and has been handed over is kept by every call if it is by
    those that receive and deliver a datagram. -/
theorem step_induction {P : Mux → Prop} (hkept : ∀ m', Kept m m' → P m')
    (honDatagram : ∀ source data, P (m.onDatagram source data))
    (hdeliver : ∀ i, P (m.deliver i)) (call : Call) : P (m.step call) := by
  cases call with
  | onDatagram source data => exact honDatagram source data
  | deliver i => exact hdeliver i
  | _ => exact hkept _ (step_kept _ nofun nofun)

theorem after_numbered (calls : List Call) : Numbered (after calls) := by
  refine run_induction (P := fun _ m => Numbered m) ?_ (fun _ call h => ?_) calls
  · exact ⟨nodup_nil, nofun, nofun, nofun⟩
  · exact step_induction (fun m' hkept => hkept.numbered h) h.onDatagram h.deliver call

/-! ## Where a datagram comes from -/

/-- The datagram number `n` came in during the calls `calls` and was looked up under `ufrag`, which
    had the transport then. -/
def Origin (calls : List Call) (n transport : ℕ) (source : SocketAddr) (packet : List Byte)
    (ufrag : Ufrag) : Prop :=
  ∃ before rest e, calls = before ++ .onDatagram source packet :: rest ∧
    (after before).datagrams = n ∧ (after before).route source packet = some ufrag ∧
    (after before).sessions.find ufrag = some e ∧ e.transport = transport

variable {calls : List Call} {ufrag : Ufrag}

theorem Origin.concat {n transport : ℕ} {packet : List Byte}
    (h : Origin calls n transport source packet ufrag) (call : Call) :
    Origin (calls ++ [call]) n transport source packet ufrag := by
  obtain ⟨before, rest, e, rfl, hn, hroute, he, htransport⟩ := h
  refine ⟨before, rest ++ [call], e, ?_, hn, hroute, he, htransport⟩
  rw [append_assoc, cons_append]

/-- Anything but STUN goes by its source. -/
theorem peers_of_route (h : m.route source data = some ufrag) (hstun : classify data ≠ .stun) :
    m.peers.find source = some ufrag := by
  rw [route] at h
  cases hclass : classify data with
  | stun => exact absurd hclass hstun
  | unknown =>
    rw [hclass] at h
    cases h
  | _ =>
    rw [hclass] at h
    exact h

/-- Everything on its way or handed over has an origin. -/
structure Traced (calls : List Call) (m : Mux) : Prop where
  pending : ∀ d ∈ m.pending, Origin calls d.number d.transport d.source d.packet d.ufrag
  handed : ∀ h ∈ m.handed, ∃ ufrag, Origin calls h.number h.transport h.source h.packet ufrag

theorem Traced.concat (h : Traced calls m) (call : Call) : Traced (calls ++ [call]) m where
  pending d hd := (h.pending d hd).concat call
  handed g hg := by
    obtain ⟨ufrag, horigin⟩ := h.handed g hg
    exact ⟨ufrag, horigin.concat call⟩

theorem Traced.kept (h : Traced calls m) (hkept : Kept m m') : Traced calls m' where
  pending := by
    rw [hkept.pending]
    exact h.pending
  handed := by
    rw [hkept.handed]
    exact h.handed

theorem Traced.deliver (h : Traced calls m) (i : ℕ) : Traced calls (m.deliver i) := by
  obtain heq | ⟨d, hd, heq⟩ := deliver_cases i
  · rwa [heq]
  rw [heq]
  refine ⟨fun d' hd' => h.pending d' (mem_of_mem_eraseIdx hd'), fun g hg => ?_⟩
  obtain hg | ⟨-, rfl⟩ := mem_handed hg
  · exact h.handed g hg
  · exact ⟨d.ufrag, h.pending d (mem_of_getElem? hd)⟩

theorem after_traced (calls : List Call) : Traced calls (after calls) := by
  refine run_induction ?_ (fun calls call h => ?_) calls
  · exact ⟨nofun, nofun⟩
  have hconcat := h.concat call
  cases call with
  | onDatagram source data =>
    refine ⟨fun d hd => ?_, hconcat.handed⟩
    obtain hd | hd := Inv.mem_onDatagram.1 hd
    · exact hconcat.pending d hd
    · obtain ⟨e, hroute, he, heq⟩ := Inv.lookup_spec hd
      rw [heq]
      exact ⟨calls, [], e, rfl, rfl, hroute, he, rfl⟩
  | deliver i => exact hconcat.deliver i
  | _ => exact hconcat.kept (step_kept _ nofun nofun)

/-! ## Dead deliveries -/

/-- The datagram number `n` has not been handed over, and all that could do so is a delivery with
    the flag `f`, which is cleared. -/
structure Dead (n f : ℕ) (m : Mux) : Prop where
  known : f < m.entries
  cleared : m.flags f = false
  received : n < m.datagrams
  pending : ∀ d ∈ m.pending, d.number = n → d.active = f
  handed : ∀ h ∈ m.handed, h.number ≠ n

namespace Dead

variable {n f : ℕ}

theorem kept (h : Dead n f m) (hkept : Kept m m') : Dead n f m' where
  known := h.known.trans_le hkept.entries
  cleared := by
    by_contra hset
    have hset' := hkept.flags f h.known (eq_true_of_ne_false hset)
    rw [h.cleared] at hset'
    cases hset'
  received := by
    rw [hkept.datagrams]
    exact h.received
  pending := by
    rw [hkept.pending]
    exact h.pending
  handed := by
    rw [hkept.handed]
    exact h.handed

theorem onDatagram (h : Dead n f m) (source : SocketAddr) (data : List Byte) :
    Dead n f (m.onDatagram source data) where
  known := h.known
  cleared := h.cleared
  received := h.received.trans (Nat.lt_succ_self _)
  pending d hd hn := by
    obtain hd | hd := Inv.mem_onDatagram.1 hd
    · exact h.pending d hd hn
    · -- A datagram that comes in has a new number.
      rw [lookup_number hd] at hn
      exact absurd hn h.received.ne'
  handed := h.handed

theorem deliver (h : Dead n f m) (i : ℕ) : Dead n f (m.deliver i) := by
  obtain heq | ⟨d, hd, heq⟩ := deliver_cases i
  · rwa [heq]
  rw [heq]
  refine ⟨h.known, h.cleared, h.received,
    fun d' hd' => h.pending d' (mem_of_mem_eraseIdx hd'), fun g hg => ?_⟩
  obtain hg | ⟨hset, rfl⟩ := mem_handed hg
  · exact h.handed g hg
  · intro hn
    rw [h.pending d (mem_of_getElem? hd) hn, h.cleared] at hset
    cases hset

/-- A delivery that is dead stays dead. -/
theorem run (h : Dead n f m) (calls : List Call) : Dead n f (Packetia.run step m calls) :=
  run_induction (P := fun _ m => Dead n f m) h
    (fun _ call h => step_induction (fun _ => h.kept) h.onDatagram h.deliver call) calls

end Dead

/-! ## Calls that retire a session -/

/-- The call `call`, made in `m`, ends what was under `ufrag`. -/
def Retires (m : Mux) : Call → Ufrag → Prop
  | .unregister ufrag', ufrag => ufrag = ufrag'
  | .restart server old new, ufrag => ufrag = old ∧ (m.restart server old new).2 = true
  | .close, _ => True
  | _, _ => False

theorem find_of_retires (h : Inv m) (hcall : Retires m call ufrag) :
    (m.step call).sessions.find ufrag = none := by
  cases call with
  | unregister ufrag' =>
    obtain rfl : ufrag = ufrag' := hcall
    rw [step]
    cases he : m.sessions.find ufrag with
    | none =>
      rw [unregister, he]
      exact he
    | some e =>
      rw [unregister_eq he]
      exact Table.find_erase_self
  | restart server old new =>
    obtain ⟨rfl, hok⟩ := hcall
    rw [step]
    obtain heq | ⟨e, -, -, -, heq⟩ := restart_cases server ufrag new
    · rw [heq] at hok
      cases hok
    · rw [heq]
      exact Table.find_erase_self
  | close =>
    rw [step, close]
    split_ifs with hclosed
    · exact h.shut hclosed ufrag
    · rfl
  | _ => exact hcall.elim

theorem kept_of_retires (hcall : Retires m call ufrag) : Kept m (m.step call) := by
  refine step_kept call (fun source data h => ?_) fun i h => ?_ <;> subst h <;> exact hcall

/-- What was looked up under a user fragment that is retired is dead. -/
theorem dead_of_retires (h : Inv m) (hnumbered : Numbered m) (hd : d ∈ m.pending)
    (hcall : Retires m call d.ufrag) : Dead d.number d.active (m.step call) := by
  have hkept := kept_of_retires hcall
  have hinv := step_inv call h
  have hd' : d ∈ (m.step call).pending := by rwa [hkept.pending]
  constructor
  case known => exact hinv.known d hd'
  case cleared =>
    by_contra hset
    obtain ⟨e, he, -⟩ := hinv.current d hd' (eq_true_of_ne_false hset)
    rw [find_of_retires h hcall] at he
    cases he
  case received => exact (hkept.numbered hnumbered).pending d hd'
  case pending =>
    intro d₁ hd₁ hn
    rw [hkept.pending] at hd₁
    rw [inj_on_of_nodup_map hnumbered.nodup hd₁ hd hn]
  case handed => exact (hkept.numbered hnumbered).apart d hd'

/-! ## Routing -/

/-- What the calls `calls` leave, and what a further call does. -/
structure RoutesByBindings (calls : List Call) : Prop where
  /-- The two maps are inverse to each other. -/
  inverse : ∀ peer ufrag, (after calls).peers.find peer = some ufrag ↔
    peer ≠ .none ∧ ∃ e, (after calls).sessions.find ufrag = some e ∧ e.peer = peer
  /-- An address belongs to one session. -/
  unique : ∀ ufrag ufrag' e e', (after calls).sessions.find ufrag = some e →
    (after calls).sessions.find ufrag' = some e' → e.peer = e'.peer → e.peer ≠ .none →
      ufrag = ufrag'
  /-- A datagram other than STUN has been handed to the transport of the session that had its
      source when it came in. -/
  bound : ∀ h ∈ (after calls).handed, classify h.packet ≠ .stun →
    ∃ before rest ufrag e, calls = before ++ .onDatagram h.source h.packet :: rest ∧
      (after before).datagrams = h.number ∧
      (after before).peers.find h.source = some ufrag ∧
      (after before).sessions.find ufrag = some e ∧ e.peer = h.source ∧
      e.transport = h.transport
  /-- No address is taken from a session that can use it. -/
  bindPeer_other : ∀ server ufrag peer ufrag' e, ufrag' ≠ ufrag →
    (after calls).sessions.find ufrag' = some e →
    (after calls).isWritable server e.transport = true →
    ((after calls).bindPeer server ufrag peer).1.sessions.find ufrag' = some e ∧
      (e.peer ≠ .none →
        ((after calls).bindPeer server ufrag peer).1.peers.find e.peer = some ufrag')
  bindPeer_refused : ∀ server ufrag peer,
    ((after calls).bindPeer server ufrag peer).2 = false →
      ((after calls).bindPeer server ufrag peer).1 = after calls
  /-- The transport stays with the session, and stays open; the address is free. -/
  restart : ∀ server old new, ((after calls).restart server old new).2 = true →
    ∃ e e', (after calls).sessions.find old = some e ∧
      ((after calls).restart server old new).1.sessions.find old = none ∧
      ((after calls).restart server old new).1.sessions.find new = some e' ∧
      e'.transport = e.transport ∧ e'.peer = .none ∧
      ((after calls).restart server old new).1.closedTransports = (after calls).closedTransports ∧
      ((after calls).restart server old new).1.peers.find e.peer = none
  /-- What was on its way under a user fragment that is retired is never handed over. -/
  retired : ∀ call rest, ∀ d ∈ (after calls).pending, Retires (after calls) call d.ufrag →
    ∀ h ∈ (after (calls ++ call :: rest)).handed, h.number ≠ d.number

theorem bindPeer_keeps_other {server : Server} {ufrag' : Ufrag} {e : Entry} (peer : SocketAddr)
    (hne : ufrag' ≠ ufrag) (he : m.sessions.find ufrag' = some e)
    (hwritable : m.isWritable server e.transport = true) :
    (m.bindPeer server ufrag peer).1.sessions.find ufrag' = some e := by
  obtain heq | ⟨e₀, -, he₀, -, howner, heq⟩ := bindPeer_cases server ufrag peer
  · rw [heq]
    exact he
  rw [heq, rebind_sessions he₀, if_neg hne]
  split_ifs with hpeer
  · -- The other session would have had the address, and the call would have been refused.
    rw [ownerWritable, otherOwner_eq_some.2 ⟨hpeer, hne⟩, bind_some, he, any_some,
      hwritable] at howner
    cases howner
  · exact he

theorem routes_by_live_bindings (calls : List Call) : RoutesByBindings calls := by
  have hinv := after_inv calls
  constructor
  case inverse => exact hinv.inverse
  case unique =>
    intro ufrag ufrag' e e' he he' hpeer hnone
    exact (hinv.unique he he' hnone hpeer.symm).symm
  case bound =>
    intro h hh hstun
    obtain ⟨ufrag, before, rest, e, hcalls, hn, hroute, he, htransport⟩ :=
      (after_traced calls).handed h hh
    have hpeer := peers_of_route hroute hstun
    obtain ⟨-, e', he', hpeer'⟩ := ((after_inv before).inverse _ _).1 hpeer
    rw [he] at he'
    cases he'
    exact ⟨before, rest, ufrag, e, hcalls, hn, hpeer, he, hpeer', htransport⟩
  case bindPeer_other =>
    intro server ufrag peer ufrag' e hne he hwritable
    have hkeep := bindPeer_keeps_other peer hne he hwritable
    have hinv' := step_inv (.bindPeer server ufrag peer) hinv
    exact ⟨hkeep, fun hnone => (hinv'.inverse _ _).2 ⟨hnone, e, hkeep, rfl⟩⟩
  case bindPeer_refused =>
    intro server ufrag peer hrefused
    obtain heq | ⟨e, -, -, -, -, heq⟩ := bindPeer_cases (m := after calls) server ufrag peer
    · rw [heq]
    · rw [heq] at hrefused
      cases hrefused
  case restart =>
    intro server old new hok
    obtain heq | ⟨e, -, he, hfree, heq⟩ := restart_cases (m := after calls) server old new
    · rw [heq] at hok
      cases hok
    have hne : new ≠ old := by
      rintro rfl
      rw [hfree] at he
      cases he
    rw [heq]
    refine ⟨e, { transport := e.transport, active := (after calls).entries }, he,
      Table.find_erase_self, ?_, rfl, rfl, rfl, ?_⟩
    · exact (Table.find_erase_of_ne hne).trans Table.find_set_self
    · have hnone : ((after calls).emplace new e.transport).peers.find .none = none := hinv.peer_none
      exact (find_freePeer hnone e.peer e.peer).trans (if_pos rfl)
  case retired =>
    intro call rest d hd hcall
    have hdead := (dead_of_retires hinv (after_numbered calls) hd hcall).run rest
    have hrun : after (calls ++ call :: rest) =
        Packetia.run step ((after calls).step call) rest := by
      rw [after, run_append, run_cons]
      rfl
    rw [hrun]
    exact hdead.handed

end Packetia.WebRtc.Mux
