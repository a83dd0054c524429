import Packetia.WebRtc.UdpMux

/-!
# Bindings of addresses

What holds whatever calls are made on the mux, in whatever order: `peers` and the addresses of the
sessions are inverse to each other, and a flag that is set is that of a session (`Inv`). A
delivery whose session is gone finds its flag cleared, and a flag is never set again
(`Kept.flags`), so the delivery hands over nothing however late it runs (`Dead`).
-/

namespace Packetia.WebRtc.Mux

open Table List Option Function Net

variable {m m' : Mux} {ufrag : Ufrag} {e : Entry} (server : Server) {ufrag' : Ufrag}

/-! ## Steps -/

/-- The entry `e` of `ufrag` is gone, and its address is free. -/
def retire (m : Mux) (ufrag : Ufrag) (e : Entry) : Mux :=
  { (m.freePeer e.peer).deactivate e.active with sessions := m.sessions.erase ufrag }

/-- The session `e` of `ufrag` has the address `peer`, and no other session has it. -/
def rebind (m : Mux) (ufrag : Ufrag) (e : Entry) (peer : SocketAddr) : Mux :=
  let owner := m.otherOwner ufrag peer
  let m := { m with peers := m.peers.set peer ufrag }
  let m := match owner with
    | none => m
    | some owner => m.setPeer owner .none
  let m := if e.peer ≠ peer then m.freePeer e.peer else m
  m.setPeer ufrag peer

theorem find_freePeer (hnone : m.peers.find .none = none) (peer a : SocketAddr) :
    (m.freePeer peer).peers.find a = if a = peer then none else m.peers.find a := by
  by_cases hpeer : peer = .none
  · by_cases ha : a = .none <;> simp [freePeer, hpeer, ha, hnone]
  · simp [freePeer, hpeer, find_erase]

theorem emplace_flags_of_lt {transport f : ℕ} (hf : f < m.entries) :
    (m.emplace ufrag transport).flags f = m.flags f := update_of_ne hf.ne ..

/-- A new entry leaves the others alone. -/
theorem emplace_find_of_find {transport : ℕ}
    (hfree : m.sessions.find ufrag = none) (he : m.sessions.find ufrag' = some e) :
    (m.emplace ufrag transport).sessions.find ufrag' = some e := by
  have hne : ufrag' ≠ ufrag := by
    rintro rfl
    rw [hfree] at he
    cases he
  rw [emplace, find_set_of_ne hne, he]

theorem unregister_eq (h : m.sessions.find ufrag = some e) :
    m.unregister ufrag = (m.retire ufrag e).closeTransport e.transport := by
  rw [unregister, h]
  rfl

theorem register_cases (id : BitVec 64) (ufrag : Ufrag) :
    m.register server id ufrag = (m, none) ∨
      m.closed = false ∧ m.sessions.find ufrag = none ∧ m.register server id ufrag =
        ({ m.emplace ufrag m.transports with transports := m.transports + 1 },
          some m.transports) := by
  rw [register]
  split_ifs with h
  · exact .inl rfl
  · push Not at h
    exact .inr ⟨by simpa using h.1, by simpa using h.2.2.2.1, rfl⟩

theorem restart_cases (old new : Ufrag) :
    m.restart server old new = (m, false) ∨
      ∃ e, m.closed = false ∧ m.sessions.find old = some e ∧ m.sessions.find new = none ∧
        m.restart server old new = ((m.emplace new e.transport).retire old e, true) := by
  rw [restart]
  cases hold : m.sessions.find old with
  | none => exact .inl rfl
  | some e =>
    dsimp only
    split_ifs with h
    · exact .inl rfl
    · push Not at h
      exact .inr ⟨e, by simpa using h.1, rfl, by simpa using h.2.2.1, rfl⟩

theorem bindPeer_cases (ufrag : Ufrag) (peer : SocketAddr) :
    m.bindPeer server ufrag peer = (m, false) ∨
      ∃ e, m.closed = false ∧ m.sessions.find ufrag = some e ∧ peer ≠ .none ∧
        m.ownerWritable server ufrag peer = false ∧
        m.bindPeer server ufrag peer = (m.rebind ufrag e peer, true) := by
  rw [bindPeer]
  cases hufrag : m.sessions.find ufrag with
  | none => exact .inl rfl
  | some e =>
    dsimp only
    by_cases h : m.closed ∨ m.isWritable server e.transport = false ∨ peer.isValid = false ∨
        peer.port = 0
    · exact .inl (if_pos h)
    by_cases howner : m.ownerWritable server ufrag peer = true
    · exact .inl (by rw [if_neg h, if_pos howner])
    rw [if_neg h, if_neg howner]
    push Not at h
    refine .inr ⟨e, by simpa using h.1, rfl, ?_, by simpa using howner, rfl⟩
    rintro rfl
    exact h.2.2.1 rfl

theorem foldl_close (l : List Entry) :
    l.foldl (fun m e => (m.deactivate e.active).closeTransport e.transport) m =
      { m with
        flags := fun f => m.flags f && !l.any fun e => e.active = f
        closedTransports := fun t => m.closedTransports t || l.any fun e => e.transport = t } := by
  induction l generalizing m with
  | nil => simp
  | cons e l ih =>
    rw [foldl_cons, ih, deactivate, closeTransport]
    congr 1
    · funext f
      obtain rfl | hf := eq_or_ne e.active f
      · simp
      · simp [update_of_ne hf.symm, hf]
    · funext t
      obtain rfl | ht := eq_or_ne e.transport t
      · simp
      · simp [update_of_ne ht.symm, ht]

/-! ## What is kept -/

/-- No datagram comes in or is handed over, and no flag of an entry is set again. -/
structure Kept (m m' : Mux) : Prop where
  pending : m'.pending = m.pending
  handed : m'.handed = m.handed
  datagrams : m'.datagrams = m.datagrams
  entries : m.entries ≤ m'.entries
  flags : ∀ f < m.entries, m'.flags f = true → m.flags f = true

theorem Kept.refl (m : Mux) : Kept m m := ⟨rfl, rfl, rfl, le_rfl, fun _ _ h => h⟩

theorem Kept.trans {m'' : Mux} (h : Kept m m') (h' : Kept m' m'') : Kept m m'' where
  pending := h'.pending.trans h.pending
  handed := h'.handed.trans h.handed
  datagrams := h'.datagrams.trans h.datagrams
  entries := h.entries.trans h'.entries
  flags f hf hset := h.flags f hf (h'.flags f (hf.trans_le h.entries) hset)

theorem emplace_kept (m : Mux) (ufrag : Ufrag) (transport : ℕ) :
    Kept m (m.emplace ufrag transport) where
  pending := rfl
  handed := rfl
  datagrams := rfl
  entries := Nat.le_succ _
  flags f hf hset := by rwa [emplace_flags_of_lt hf] at hset

theorem retire_kept (m : Mux) (ufrag : Ufrag) (e : Entry) : Kept m (m.retire ufrag e) where
  pending := rfl
  handed := rfl
  datagrams := rfl
  entries := le_rfl
  flags f _ hset := by
    by_cases hf : f = e.active
    · subst hf
      simp [retire, deactivate] at hset
    · simpa [retire, deactivate, freePeer, update_of_ne hf] using hset

theorem rebind_eq (m : Mux) (ufrag : Ufrag) (e : Entry) (peer : SocketAddr) :
    m.rebind ufrag e peer = { m with
      sessions := (m.rebind ufrag e peer).sessions
      peers := (m.rebind ufrag e peer).peers } := by
  rw [rebind]
  cases m.otherOwner ufrag peer <;> dsimp only <;> split_ifs <;> rfl

theorem rebind_kept (m : Mux) (ufrag : Ufrag) (e : Entry) (peer : SocketAddr) :
    Kept m (m.rebind ufrag e peer) := by
  rw [rebind_eq]
  exact ⟨rfl, rfl, rfl, le_rfl, fun _ _ h => h⟩

theorem closeTransport_kept (m : Mux) (transport : ℕ) : Kept m (m.closeTransport transport) :=
  ⟨rfl, rfl, rfl, le_rfl, fun _ _ h => h⟩

theorem close_kept (m : Mux) : Kept m m.close := by
  rw [close]
  split_ifs
  · exact .refl m
  · dsimp only
    rw [foldl_close]
    exact ⟨rfl, rfl, rfl, le_rfl, fun f _ h => (Bool.and_eq_true_iff.1 h).1⟩

/-- Datagrams apart, every call keeps what is on its way. -/
theorem step_kept (call : Call) (hrecv : ∀ source data, call ≠ .onDatagram source data)
    (hdeliver : ∀ i, call ≠ .deliver i) : Kept m (m.step call) := by
  cases call with
  | register server id ufrag =>
    rw [step]
    obtain h | ⟨-, -, h⟩ := register_cases server id ufrag <;> rw [h]
    · exact .refl m
    · have hkept := emplace_kept m ufrag m.transports
      exact { hkept with }
  | unregister ufrag =>
    rw [step]
    cases h : m.sessions.find ufrag with
    | none =>
      rw [unregister, h]
      exact .refl m
    | some e =>
      rw [unregister_eq h]
      exact (retire_kept m ufrag e).trans (closeTransport_kept ..)
  | restart server old new =>
    rw [step]
    obtain h | ⟨e, -, -, -, h⟩ := restart_cases server old new <;> rw [h]
    · exact .refl m
    · exact (emplace_kept ..).trans (retire_kept ..)
  | bindPeer server ufrag peer =>
    rw [step]
    obtain h | ⟨e, -, -, -, -, h⟩ := bindPeer_cases server ufrag peer <;> rw [h]
    · exact .refl m
    · exact rebind_kept ..
  | close => exact close_kept m
  | onDatagram source data => exact absurd rfl (hrecv source data)
  | deliver i => exact absurd rfl (hdeliver i)
  | closeTransport transport => exact closeTransport_kept m transport

/-! ## Invariant -/

structure Inv (m : Mux) : Prop where
  inverse : ∀ peer ufrag, m.peers.find peer = some ufrag ↔
    peer ≠ .none ∧ ∃ e, m.sessions.find ufrag = some e ∧ e.peer = peer
  active : ∀ ufrag e, m.sessions.find ufrag = some e → m.flags e.active = true
  own : ∀ ufrag ufrag' e e', m.sessions.find ufrag = some e → m.sessions.find ufrag' = some e' →
    e.active = e'.active → ufrag = ufrag'
  issued : ∀ ufrag e, m.sessions.find ufrag = some e → e.active < m.entries
  current : ∀ d ∈ m.pending, m.flags d.active = true →
    ∃ e, m.sessions.find d.ufrag = some e ∧ e.active = d.active
  known : ∀ d ∈ m.pending, d.active < m.entries
  shut : m.closed = true → ∀ ufrag, m.sessions.find ufrag = none

namespace Inv

theorem peer_none (h : Inv m) : m.peers.find .none = none := by
  cases hpeer : m.peers.find .none with
  | none => rfl
  | some ufrag => exact absurd rfl ((h.inverse .none ufrag).1 hpeer).1

/-- An address belongs to one session. -/
theorem unique {e' : Entry} (h : Inv m) (he : m.sessions.find ufrag = some e)
    (he' : m.sessions.find ufrag' = some e') (hnone : e.peer ≠ .none) (hpeer : e'.peer = e.peer) :
    ufrag' = ufrag := by
  have hfind := (h.inverse e.peer ufrag).2 ⟨hnone, e, he, rfl⟩
  have hfind' := (h.inverse e.peer ufrag').2 ⟨hnone, e', he', hpeer⟩
  exact some.inj (hfind'.symm.trans hfind)

theorem emplace (h : Inv m) (hopen : m.closed = false) (hfree : m.sessions.find ufrag = none)
    (transport : ℕ) : Inv (m.emplace ufrag transport) := by
  have hfind : ∀ v e, (m.emplace ufrag transport).sessions.find v = some e →
      v = ufrag ∧ e = { transport, active := m.entries } ∨
        v ≠ ufrag ∧ m.sessions.find v = some e := by
    intro v e hv
    rw [Mux.emplace, find_set] at hv
    split_ifs at hv with hvu
    · exact .inl ⟨hvu, (some.inj hv).symm⟩
    · exact .inr ⟨hvu, hv⟩
  constructor
  case inverse =>
    intro peer v
    refine (h.inverse peer v).trans (and_congr_right fun hpeer => ?_)
    constructor
    · rintro ⟨e, he, rfl⟩
      exact ⟨e, emplace_find_of_find hfree he, rfl⟩
    · rintro ⟨e, he, rfl⟩
      obtain ⟨-, rfl⟩ | ⟨-, he⟩ := hfind v e he
      · exact absurd rfl hpeer
      · exact ⟨e, he, rfl⟩
  case active =>
    intro v e he
    obtain ⟨-, rfl⟩ | ⟨-, he⟩ := hfind v e he
    · exact update_self ..
    · rw [emplace_flags_of_lt (h.issued v e he)]
      exact h.active v e he
  case own =>
    intro v v' e e' he he' heq
    obtain ⟨hv, rfl⟩ | ⟨-, hm⟩ := hfind v e he <;> obtain ⟨hv', rfl⟩ | ⟨-, hm'⟩ := hfind v' e' he'
    · rw [hv, hv']
    · exact absurd heq (h.issued v' e' hm').ne'
    · exact absurd heq (h.issued v e hm).ne
    · exact h.own v v' e e' hm hm' heq
  case issued =>
    intro v e he
    obtain ⟨-, rfl⟩ | ⟨-, he⟩ := hfind v e he
    · exact Nat.lt_succ_self _
    · exact (h.issued v e he).trans (Nat.lt_succ_self _)
  case current =>
    intro d hd hset
    rw [emplace_flags_of_lt (h.known d hd)] at hset
    obtain ⟨e, he, hactive⟩ := h.current d hd hset
    exact ⟨e, emplace_find_of_find hfree he, hactive⟩
  case known => exact fun d hd => (h.known d hd).trans (Nat.lt_succ_self _)
  case shut => exact fun hclosed => absurd (hopen.symm.trans hclosed) (by decide)

theorem retire (h : Inv m) (he : m.sessions.find ufrag = some e) : Inv (m.retire ufrag e) := by
  have hfind : ∀ v e', (m.retire ufrag e).sessions.find v = some e' ↔
      v ≠ ufrag ∧ m.sessions.find v = some e' := by
    intro v e'
    rw [Mux.retire, find_erase]
    split_ifs with hv <;> simp [hv]
  have hflags : ∀ f, (m.retire ufrag e).flags f = true ↔ f ≠ e.active ∧ m.flags f = true := by
    intro f
    by_cases hf : f = e.active <;> simp [Mux.retire, deactivate, freePeer, hf]
  have hpeers : ∀ peer, (m.retire ufrag e).peers.find peer =
      if peer = e.peer then none else m.peers.find peer := by
    exact find_freePeer h.peer_none e.peer
  constructor
  case inverse =>
    intro peer v
    rw [hpeers]
    by_cases hpeer : peer = e.peer
    · -- Nobody else has had the address that is freed.
      subst hpeer
      simp only [if_true, reduceCtorEq, false_iff, not_and]
      rintro hnone ⟨e', he', heq⟩
      obtain ⟨hv, he'⟩ := (hfind v e').1 he'
      exact hv (h.unique he he' hnone heq)
    · rw [if_neg hpeer, h.inverse]
      refine and_congr_right fun _ => ⟨?_, ?_⟩
      · rintro ⟨e', he', rfl⟩
        refine ⟨e', (hfind v e').2 ⟨?_, he'⟩, rfl⟩
        rintro rfl
        rw [he] at he'
        cases he'
        exact hpeer rfl
      · rintro ⟨e', he', rfl⟩
        exact ⟨e', ((hfind v e').1 he').2, rfl⟩
  case active =>
    intro v e' he'
    obtain ⟨hv, he'⟩ := (hfind v e').1 he'
    exact (hflags _).2 ⟨fun heq => hv (h.own v ufrag e' e he' he heq), h.active v e' he'⟩
  case own =>
    intro v v' e₁ e₂ h₁ h₂ heq
    exact h.own v v' e₁ e₂ ((hfind v e₁).1 h₁).2 ((hfind v' e₂).1 h₂).2 heq
  case issued => exact fun v e' he' => h.issued v e' ((hfind v e').1 he').2
  case current =>
    intro d hd hset
    obtain ⟨hne, hset⟩ := (hflags _).1 hset
    obtain ⟨e', he', hactive⟩ := h.current d hd hset
    refine ⟨e', (hfind _ e').2 ⟨?_, he'⟩, hactive⟩
    intro heq
    rw [heq, he] at he'
    cases he'
    exact hne hactive.symm
  case known => exact h.known
  case shut =>
    intro hclosed v
    rw [Mux.retire, find_erase, h.shut hclosed, ite_self]

end Inv

/-! ### Binding an address -/

theorem find_setPeer (m : Mux) (ufrag : Ufrag) (peer : SocketAddr) (v : Ufrag) :
    (m.setPeer ufrag peer).sessions.find v =
      if v = ufrag then (m.sessions.find ufrag).map fun e => { e with peer }
      else m.sessions.find v := by
  rw [setPeer]
  cases h : m.sessions.find ufrag with
  | none =>
    split_ifs with hv
    · rw [hv]
      exact h
    · rfl
  | some e => exact find_set v

variable {peer : SocketAddr}

theorem otherOwner_eq_some {owner : Ufrag} :
    m.otherOwner ufrag peer = some owner ↔ m.peers.find peer = some owner ∧ owner ≠ ufrag := by
  rw [otherOwner, filter_eq_some_iff, decide_eq_true_eq]

/-- The sessions after an address is bound: another session that has had it has none. -/
theorem rebind_sessions (he : m.sessions.find ufrag = some e) (peer : SocketAddr) (v : Ufrag) :
    (m.rebind ufrag e peer).sessions.find v =
      if v = ufrag then some { e with peer }
      else if m.peers.find peer = some v then
        (m.sessions.find v).map fun e => { e with peer := .none }
      else m.sessions.find v := by
  have hfree : ∀ (c : Prop) [Decidable c] (m : Mux),
      (if c then m.freePeer e.peer else m).sessions = m.sessions := by
    intro c _ m
    split_ifs <;> rfl
  rw [rebind]
  cases howner : m.otherOwner ufrag peer with
  | none =>
    rw [find_setPeer, hfree, he]
    by_cases hv : v = ufrag
    · rw [if_pos hv, if_pos hv, map_some]
    · have hpeer : m.peers.find peer ≠ some v := fun h =>
        absurd (otherOwner_eq_some.2 ⟨h, hv⟩) (by rw [howner]; exact nofun)
      rw [if_neg hv, if_neg hv, if_neg hpeer]
  | some owner =>
    obtain ⟨hpeer, hne⟩ := otherOwner_eq_some.1 howner
    rw [find_setPeer, hfree, find_setPeer, find_setPeer, if_neg hne.symm, he, hpeer]
    refine if_congr Iff.rfl rfl ?_
    by_cases hv : v = owner
    · rw [hv, if_pos rfl, if_pos rfl]
    · rw [if_neg hv, if_neg fun h => hv (some.inj h).symm]

theorem rebind_peers (h : Inv m) (hpeer : peer ≠ .none) (a : SocketAddr) :
    (m.rebind ufrag e peer).peers.find a =
      if a = peer then some ufrag else if a = e.peer then none else m.peers.find a := by
  have hpeers : (m.rebind ufrag e peer).peers = (if e.peer ≠ peer then
      { m with peers := m.peers.set peer ufrag }.freePeer e.peer
      else { m with peers := m.peers.set peer ufrag }).peers := by
    rw [rebind]
    cases m.otherOwner ufrag peer <;> dsimp only <;> split_ifs <;> rfl
  have hnone : (m.peers.set peer ufrag).find .none = none := by
    rw [find_set_of_ne hpeer.symm, h.peer_none]
  rw [hpeers]
  by_cases heq : e.peer = peer
  · rw [if_neg (not_not.2 heq), heq, find_set]
    by_cases ha : a = peer <;> simp [ha]
  · rw [if_pos heq, find_freePeer hnone, find_set]
    by_cases ha : a = peer
    · rw [if_pos ha, if_pos ha, if_neg (by rw [ha]; exact Ne.symm heq)]
    · rw [if_neg ha, if_neg ha]

namespace Inv

/-- Another session has an address afterwards if it had it and the address is not the one bound. -/
theorem rebind_other (h : Inv m) (he : m.sessions.find ufrag = some e) {a : SocketAddr} {v : Ufrag}
    (ha : a ≠ .none) (hv : v ≠ ufrag) :
    (∃ e', (m.rebind ufrag e peer).sessions.find v = some e' ∧ e'.peer = a) ↔
      a ≠ peer ∧ m.peers.find a = some v := by
  rw [rebind_sessions he, if_neg hv]
  split_ifs with howner
  · constructor
    · rintro ⟨e', he', rfl⟩
      obtain ⟨e₀, -, rfl⟩ := map_eq_some_iff.1 he'
      exact absurd rfl ha
    · rintro ⟨hne, hfind⟩
      -- It has had `peer`, so it has not had `a` as well.
      obtain ⟨-, e₀, he₀, rfl⟩ := (h.inverse a v).1 hfind
      obtain ⟨-, e₁, he₁, rfl⟩ := (h.inverse peer v).1 howner
      rw [he₀] at he₁
      cases he₁
      exact absurd rfl hne
  · rw [h.inverse]
    constructor
    · rintro ⟨e', he', rfl⟩
      refine ⟨?_, ha, e', he', rfl⟩
      rintro rfl
      exact howner ((h.inverse _ v).2 ⟨ha, e', he', rfl⟩)
    · exact fun hand => hand.2.2

theorem rebind (h : Inv m) (he : m.sessions.find ufrag = some e) (hpeer : peer ≠ .none) :
    Inv (m.rebind ufrag e peer) := by
  -- An entry keeps its flag and may lose or change its address only.
  have hkept : ∀ v, ((m.rebind ufrag e peer).sessions.find v).map Entry.active =
      (m.sessions.find v).map Entry.active := by
    intro v
    rw [rebind_sessions he]
    split_ifs with hv
    · rw [hv, he]
      rfl
    · rw [Option.map_map]
      rfl
    · rfl
  have hfind : ∀ v e', (m.rebind ufrag e peer).sessions.find v = some e' →
      ∃ e₀, m.sessions.find v = some e₀ ∧ e₀.active = e'.active := fun v e' he' =>
    map_eq_some_iff.1 (by rw [← hkept, he', map_some])
  rw [rebind_eq]
  constructor
  case inverse =>
    intro a v
    dsimp only
    rw [rebind_peers h hpeer]
    by_cases hv : v = ufrag
    · subst hv
      have hown : m.peers.find a = some v → a = e.peer := by
        intro hfind
        obtain ⟨-, e₀, he₀, rfl⟩ := (h.inverse a v).1 hfind
        rw [he] at he₀
        cases he₀
        rfl
      rw [rebind_sessions he, if_pos rfl]
      constructor
      · intro hfind
        split_ifs at hfind with ha hae
        · exact ⟨ha ▸ hpeer, _, rfl, ha.symm⟩
        · exact absurd (hown hfind) hae
      · rintro ⟨-, e', he', rfl⟩
        cases he'
        exact if_pos rfl
    · by_cases ha : a = .none
      · rw [ha, if_neg hpeer.symm, h.peer_none, ite_self]
        simp
      rw [and_iff_right ha, h.rebind_other he ha hv]
      constructor
      · intro hfind
        split_ifs at hfind with hap hae
        · exact absurd (some.inj hfind).symm hv
        · exact ⟨hap, hfind⟩
      · rintro ⟨hap, hfind⟩
        obtain ⟨-, e₀, he₀, rfl⟩ := (h.inverse a v).1 hfind
        have hae : e₀.peer ≠ e.peer := fun heq => hv (h.unique he he₀ (heq ▸ ha) heq)
        rw [if_neg hap, if_neg hae, hfind]
  case active =>
    intro v e' he'
    obtain ⟨e₀, he₀, hactive⟩ := hfind v e' he'
    rw [← hactive]
    exact h.active v e₀ he₀
  case own =>
    intro v v' e₁ e₂ h₁ h₂ heq
    obtain ⟨e₁', h₁', hactive₁⟩ := hfind v e₁ h₁
    obtain ⟨e₂', h₂', hactive₂⟩ := hfind v' e₂ h₂
    exact h.own v v' e₁' e₂' h₁' h₂' (by rw [hactive₁, heq, hactive₂])
  case issued =>
    intro v e' he'
    obtain ⟨e₀, he₀, hactive⟩ := hfind v e' he'
    rw [← hactive]
    exact h.issued v e₀ he₀
  case current =>
    intro d hd hset
    obtain ⟨e₀, he₀, hactive⟩ := h.current d hd hset
    exact map_eq_some_iff.1 (by rw [hkept, he₀, map_some, hactive])
  case known => exact h.known
  case shut =>
    intro hshut
    rw [h.shut hshut] at he
    cases he

/-! ### The other calls -/

/-- A mux without sessions, which nothing on its way can get past. -/
theorem of_empty (hsessions : m.sessions = .empty) (hpeers : m.peers = .empty)
    (hcleared : ∀ d ∈ m.pending, m.flags d.active = false)
    (hknown : ∀ d ∈ m.pending, d.active < m.entries) : Inv m := by
  have hfind : ∀ ufrag, m.sessions.find ufrag = none := fun ufrag => by
    rw [hsessions, find_empty]
  constructor
  case inverse =>
    intro peer ufrag
    simp [hpeers, hfind]
  case active => exact fun ufrag e he => by rw [hfind] at he; cases he
  case own => exact fun ufrag _ _ _ he => by rw [hfind] at he; cases he
  case issued => exact fun ufrag e he => by rw [hfind] at he; cases he
  case current => exact fun d hd hset => by rw [hcleared d hd] at hset; cases hset
  case known => exact hknown
  case shut => exact fun _ => hfind

theorem closeTransport (h : Inv m) (transport : ℕ) : Inv (m.closeTransport transport) :=
  { h with }

theorem close (h : Inv m) : Inv m.close := by
  rw [Mux.close]
  split_ifs with hclosed
  · exact h
  dsimp only
  rw [foldl_close]
  refine of_empty rfl rfl (fun d hd => ?_) h.known
  -- A flag that was set is that of an entry, so it has been cleared.
  by_contra hset
  obtain ⟨hset, hkept⟩ := Bool.and_eq_true_iff.1 (eq_true_of_ne_false hset)
  obtain ⟨e, he, hactive⟩ := h.current d hd hset
  have hmem : e ∈ m.sessions.keys.filterMap m.sessions.find :=
    mem_filterMap.2 ⟨_, mem_keys_of_find he, he⟩
  rw [Bool.not_eq_true', List.any_eq_false] at hkept
  exact hkept e hmem (decide_eq_true hactive)

/-- What a delivery is left with. -/
theorem lookup_spec {source : SocketAddr} {data : List Byte} {d : Delivery}
    (hd : m.lookup source data = some d) :
    ∃ e, m.route source data = some d.ufrag ∧ m.sessions.find d.ufrag = some e ∧
      d = { number := m.datagrams, transport := e.transport, active := e.active, source,
            packet := data, ufrag := d.ufrag } := by
  rw [lookup] at hd
  split_ifs at hd
  obtain ⟨ufrag, hroute, hd⟩ := bind_eq_some_iff.1 hd
  obtain ⟨e, he, hd⟩ := bind_eq_some_iff.1 hd
  cases hd
  exact ⟨e, hroute, he, rfl⟩

theorem mem_onDatagram {source : SocketAddr} {data : List Byte} {d : Delivery} :
    d ∈ (m.onDatagram source data).pending ↔ d ∈ m.pending ∨ m.lookup source data = some d := by
  rw [Mux.onDatagram, mem_append, mem_toList]

theorem onDatagram (h : Inv m) (source : SocketAddr) (data : List Byte) :
    Inv (m.onDatagram source data) := by
  refine { h with current := fun d hd hset => ?_, known := fun d hd => ?_ }
  · obtain hd | hd := mem_onDatagram.1 hd
    · exact h.current d hd hset
    · obtain ⟨e, -, he, heq⟩ := lookup_spec hd
      exact ⟨e, he, by rw [heq]⟩
  · obtain hd | hd := mem_onDatagram.1 hd
    · exact h.known d hd
    · obtain ⟨e, -, he, heq⟩ := lookup_spec hd
      rw [heq]
      exact h.issued _ e he

end Inv

/-- A delivery that runs: it is no longer on its way, and it is handed over if its flag is set. -/
theorem deliver_cases (i : ℕ) : m.deliver i = m ∨
    ∃ d, m.pending[i]? = some d ∧
      m.deliver i = { m with
        pending := m.pending.eraseIdx i
        handed := m.handed ++
          if m.flags d.active then [⟨d.number, d.transport, d.source, d.packet⟩] else [] } := by
  rw [deliver]
  cases hd : m.pending[i]? with
  | none => exact .inl rfl
  | some d =>
    refine .inr ⟨d, rfl, ?_⟩
    dsimp only
    split_ifs
    · rfl
    · rw [append_nil]

theorem mem_handed {d : Delivery} {g : Handed} (hg : g ∈ m.handed ++
      if m.flags d.active then [⟨d.number, d.transport, d.source, d.packet⟩] else []) :
    g ∈ m.handed ∨ m.flags d.active = true ∧ g = ⟨d.number, d.transport, d.source, d.packet⟩ := by
  simpa using hg

theorem Inv.deliver (h : Inv m) (i : ℕ) : Inv (m.deliver i) := by
  obtain heq | ⟨d, -, heq⟩ := deliver_cases i
  · rwa [heq]
  · rw [heq]
    exact { h with
      current := fun d hd => h.current d (mem_of_mem_eraseIdx hd)
      known := fun d hd => h.known d (mem_of_mem_eraseIdx hd) }

theorem step_inv (call : Call) (h : Inv m) : Inv (m.step call) := by
  cases call with
  | register server id ufrag =>
    rw [step]
    obtain heq | ⟨hopen, hfree, heq⟩ := register_cases server id ufrag
    · rwa [heq]
    · rw [heq]
      have hinv := h.emplace hopen hfree m.transports
      exact { hinv with }
  | unregister ufrag =>
    rw [step]
    cases he : m.sessions.find ufrag with
    | none =>
      rw [unregister, he]
      exact h
    | some e =>
      rw [unregister_eq he]
      exact (h.retire he).closeTransport _
  | restart server old new =>
    rw [step]
    obtain heq | ⟨e, hopen, he, hfree, heq⟩ := restart_cases server old new
    · rwa [heq]
    · rw [heq]
      exact (h.emplace hopen hfree _).retire (emplace_find_of_find hfree he)
  | bindPeer server ufrag peer =>
    rw [step]
    obtain heq | ⟨e, -, he, hpeer, -, heq⟩ := bindPeer_cases server ufrag peer
    · rwa [heq]
    · rw [heq]
      exact h.rebind he hpeer
  | close => exact h.close
  | onDatagram source data => exact h.onDatagram source data
  | deliver i => exact h.deliver i
  | closeTransport transport => exact h.closeTransport transport

theorem after_inv (calls : List Call) : Inv (after calls) := by
  refine run_induction ?_ (fun _ call h => step_inv call h) calls
  exact .of_empty rfl rfl nofun nofun

end Packetia.WebRtc.Mux
