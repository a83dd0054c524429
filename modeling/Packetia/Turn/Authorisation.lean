import Packetia.Turn.Steps

/-!
# What the TURN server relays

Everything in an allocation goes back to requests of its client that were authorised for its
user (`Backed`): an Allocate that made it (`Allocates`), for every permission a request that named
the IP address (`Permits`), and for every channel a ChannelBind of just this channel and peer
(`Binds`). Each entry expires within the lifetime counted from that request, so what is relayed
has been authorised recently.
-/

namespace Packetia.Turn

open List Option Stun Net StunMethod

variable {hmac : Hmac} {md5 : List Byte → Octets 16}
  {opts : TurnServerOptions} {env : Env} {sv : Server} {client : SocketAddr} {a : Allocation}
  {msg : StunMessageInfo} {peer : SocketAddr}

/-! ## Peers -/

theorem isV6_peerIp (peer : SocketAddr) : (peerIp peer).isV6 = peer.isV6 := by
  cases peer <;> rfl

theorem decodePeer_spec {attr : AttrView} (h : decodePeer env msg attr a = .ok peer) :
    peer.isV6 = a.advertised.isV6 ∧
      peerAllowed env peer (msg.method ≠ createPermission) = true := by
  rw [decodePeer] at h
  split at h
  · cases h
  · rename_i decoded _
    generalize hout : (if decoded.isIpv6 = true then
      SocketAddr.v6 decoded.ip decoded.port 0
      else SocketAddr.v4 (octetsAt decoded.ip.1 0 4) decoded.port) = out at h
    dsimp only at h
    split_ifs at h with hfamily hallowed
    obtain rfl := Except.ok.inj h
    refine ⟨?_, hallowed⟩
    rw [← not_not.1 hfamily, ← hout]
    cases decoded.isIpv6 <;> rfl

/-- The request names the peer. -/
def Names (env : Env) (msg : StunMessageInfo) (a : Allocation) (peer : SocketAddr) : Prop :=
  ∃ attr ∈ peerAttrs msg.attrs, decodePeer env msg attr a = .ok peer

variable {peers : List SocketAddr} {attrs : List AttrView}

/-- The peers of a request are those of its attributes, one for each. -/
theorem decodePeers_forall₂ (h : decodePeers env msg a attrs = .ok peers) :
    List.Forall₂ (fun attr peer => decodePeer env msg attr a = .ok peer) attrs peers := by
  induction attrs generalizing peers with
  | nil =>
    obtain rfl := Except.ok.inj h
    exact .nil
  | cons attr attrs ih =>
    rw [decodePeers] at h
    split at h
    · cases h
    · rename_i p hp
      cases hrest : decodePeers env msg a attrs <;> rw [hrest] at h
      · cases h
      · obtain rfl := Except.ok.inj h
        exact .cons hp (ih hrest)

theorem decodePeers_spec (h : decodePeers env msg a attrs = .ok peers) (hpeer : peer ∈ peers) :
    ∃ attr ∈ attrs, decodePeer env msg attr a = .ok peer :=
  exists_of_forall₂ (decodePeers_forall₂ h) hpeer

/-- A permission is one of before, or is for a peer of the request. -/
theorem find_addPermissions {t : Table SocketAddr ℕ} {ip : SocketAddr} {expires : ℕ}
    (h : (addPermissions env t peers).find ip = some expires) :
    t.find ip = some expires ∨
      ∃ peer ∈ peers, peerIp peer = ip ∧ expires = deadline env.handleMs kPermissionMs := by
  induction peers generalizing t with
  | nil => exact .inl h
  | cons peer peers ih =>
    rcases ih h with hset | ⟨p, hp, heq⟩
    · rw [Table.find_set] at hset
      split_ifs at hset with hip
      · exact .inr ⟨peer, mem_cons_self, hip.symm, (some.inj hset).symm⟩
      · exact .inl hset
    · exact .inr ⟨p, mem_cons_of_mem _ hp, heq⟩

/-! ## Requests in the past -/

variable (hmac md5 opts) in
/-- The event is an authorised Allocate of the client that made the allocation `a`, under a
    generation that was not used before. -/
def Allocates (x : Server × Event) (client : SocketAddr) (a : Allocation) : Prop :=
  ∃ env data msg session, Succeeds hmac md5 opts x client env data msg session a.username ∧
    msg.method = allocate ∧
    (∃ a', (step hmac md5 opts x.1 x.2).allocationOf client = some a' ∧
      a'.generation = a.generation ∧ a'.advertised = a.advertised) ∧
    x.1.generation < a.generation ∧ a.generation ≤ (step hmac md5 opts x.1 x.2).generation

variable (hmac md5 opts) in
/-- The event is a CreatePermission or ChannelBind of the client for the allocation `a`, authorised
    for the user of `a`, that names a peer with the address `ip`. It is handled at `atMs`. -/
def Permits (x : Server × Event) (client : SocketAddr) (a : Allocation) (ip : SocketAddr)
    (atMs : ℕ) : Prop :=
  ∃ env data msg session a₀ peer,
    Succeeds hmac md5 opts x client env data msg session a.username ∧
    (msg.method = createPermission ∨ msg.method = channelBind) ∧
    session.allocation = some a₀ ∧ a₀.generation = a.generation ∧
    Names env msg a₀ peer ∧ peerIp peer = ip ∧ env.handleMs = atMs

variable (hmac md5 opts) in
/-- The event is a ChannelBind of the client for the allocation `a`, authorised for the user of
    `a`, of the channel to the peer. It is handled at `atMs`. -/
def Binds (x : Server × Event) (client : SocketAddr) (a : Allocation) (channel : BitVec 16)
    (peer : SocketAddr) (atMs : ℕ) : Prop :=
  ∃ env data msg session a₀,
    Succeeds hmac md5 opts x client env data msg session a.username ∧
    msg.method = channelBind ∧ decodeChannelNumber msg = some channel ∧
    session.allocation = some a₀ ∧ a₀.generation = a.generation ∧
    Names env msg a₀ peer ∧ env.handleMs = atMs

variable (hmac md5 opts) in
/-- Everything in the allocation of a client goes back to one of the events. -/
structure Backed (events : List (Server × Event)) (client : SocketAddr) (a : Allocation) :
    Prop where
  created : ∃ x ∈ events, Allocates hmac md5 opts x client a
  permissions : ∀ ip expires, a.permissions.find ip = some expires →
    ip.isV6 = a.advertised.isV6 ∧
      ∃ x ∈ events, ∃ atMs, Permits hmac md5 opts x client a ip atMs ∧
        expires ≤ atMs + kPermissionMs
  channels : ∀ channel c, a.channels.find channel = some c →
    c.peer.isV6 = a.advertised.isV6 ∧
      ∃ x ∈ events, ∃ atMs, Binds hmac md5 opts x client a channel c.peer atMs ∧
        c.expires ≤ atMs + kChannelMs

variable {events : List (Server × Event)} {x : Server × Event}

theorem Backed.concat (h : Backed hmac md5 opts events client a) :
    Backed hmac md5 opts (events ++ [x]) client a where
  created := by
    obtain ⟨y, hy, hcreated⟩ := h.created
    exact ⟨y, mem_append_left _ hy, hcreated⟩
  permissions ip expires hfind := by
    obtain ⟨hfamily, y, hy, atMs, hpermits⟩ := h.permissions ip expires hfind
    exact ⟨hfamily, y, mem_append_left _ hy, atMs, hpermits⟩
  channels channel c hfind := by
    obtain ⟨hfamily, y, hy, atMs, hbinds⟩ := h.channels channel c hfind
    exact ⟨hfamily, y, mem_append_left _ hy, atMs, hbinds⟩

theorem Backed.prune (h : Backed hmac md5 opts events client a) (now : ℕ) :
    Backed hmac md5 opts events client (a.prune now) where
  created := h.created
  permissions ip expires hfind :=
    h.permissions ip expires (Allocation.find_permissions_prune.1 hfind).1
  channels channel c hfind := h.channels channel c (Allocation.find_channels_prune.1 hfind).1

variable {session : Session} {data : List Byte} {username : List Byte}

/-- The permissions of a request are backed by it. -/
theorem Backed.addPermissions (h : Backed hmac md5 opts (events ++ [x]) client a)
    (hx : Succeeds hmac md5 opts x client env data msg session a.username)
    (hmethod : msg.method = createPermission ∨ msg.method = channelBind)
    (hsession : session.allocation = some a)
    (hnamed : decodePeers env msg a (peerAttrs msg.attrs) = .ok peers) :
    Backed hmac md5 opts (events ++ [x]) client
      { a with permissions := Turn.addPermissions env a.permissions peers } where
  created := h.created
  permissions ip expires hfind := by
    rcases find_addPermissions hfind with hold | ⟨peer, hpeer, rfl, rfl⟩
    · exact h.permissions ip expires hold
    · obtain ⟨attr, hattr, hok⟩ := decodePeers_spec hnamed hpeer
      refine ⟨(isV6_peerIp peer).trans (decodePeer_spec hok).1, x,
        mem_concat_self, env.handleMs, ?_, deadline_le _ _⟩
      exact ⟨env, data, msg, session, a, peer, hx, hmethod, hsession, rfl, ⟨attr, hattr, hok⟩, rfl,
        rfl⟩
  channels := h.channels

theorem checkChannel_spec {channel : BitVec 16} (h : checkChannel msg a peer = .ok channel) :
    decodeChannelNumber msg = some channel ∧
      ∀ ch c, a.channels.find ch = some c → c.peer = peer → peer ≠ .none → ch = channel := by
  rw [checkChannel] at h
  split_ifs at h
  split at h
  · cases h
  · rename_i hnumber
    split_ifs at h with hother hdouble
    obtain rfl := Except.ok.inj h
    refine ⟨hnumber, fun ch c hfind hpeer hne => ?_⟩
    by_contra hch
    refine hdouble (Table.any_eq_true.2 ⟨ch, c, hfind, decide_eq_true ⟨hch, ?_⟩⟩)
    rw [SocketAddr.same_iff, hpeer]
    exact ⟨hne, rfl⟩

/-- A change that a request makes is backed by it. -/
theorem Backed.change {before later : Option Allocation}
    (h : ∀ a, before = some a → Backed hmac md5 opts events client a)
    (hx : Succeeds hmac md5 opts x client env data msg session username)
    (hsession : session.allocation = before) (huser : ∀ a, before = some a → a.username = username)
    (hchange : Change opts env (x.1.prune env.pruneMs) msg username before later)
    (hstep : (step hmac md5 opts x.1 x.2).allocationOf client = later)
    (hgeneration : before = none → (step hmac md5 opts x.1 x.2).generation = x.1.generation + 1)
    (ha : later = some a) : Backed hmac md5 opts (events ++ [x]) client a := by
  have hsupported := hx.request.supported.2
  cases hchange with
  | refresh a₀ expires method =>
    obtain rfl := some.inj ha
    exact { (h a₀ rfl).concat with }
  | delete a₀ method => cases ha
  | create a₀ method user generation permissions channels total own =>
    obtain rfl := some.inj ha
    refine ⟨⟨x, mem_concat_self, env, data, msg, session,
      user ▸ hx, method, ⟨a₀, hstep, rfl, rfl⟩, ?_, ?_⟩, ?_, ?_⟩
    · rw [generation]
      exact Nat.lt_succ_self _
    · rw [hgeneration rfl, generation]
      exact le_rfl
    · intro ip expires hfind
      rw [permissions] at hfind
      cases hfind
    · intro channel c hfind
      rw [channels] at hfind
      cases hfind
  | permit a₀ peers method named room =>
    obtain rfl := some.inj ha
    have hmethod : msg.method = createPermission := by tauto
    exact ((h a₀ rfl).concat).addPermissions (huser a₀ rfl ▸ hx) (.inl hmethod) hsession named
  | bind a₀ peer channel method named room free space =>
    obtain rfl := some.inj ha
    have hx' : Succeeds hmac md5 opts x client env data msg session a₀.username := huser a₀ rfl ▸ hx
    have hback := ((h a₀ rfl).concat).addPermissions hx' (.inr method) hsession named
    refine ⟨hback.created, hback.permissions, fun ch c hfind => ?_⟩
    rw [Table.find_set] at hfind
    split_ifs at hfind with hch
    · obtain rfl := some.inj hfind
      obtain ⟨attr, hattr, hok⟩ := decodePeers_spec named (mem_singleton.2 rfl)
      refine ⟨(decodePeer_spec hok).1, x, mem_concat_self,
        env.handleMs, ?_, deadline_le _ _⟩
      rw [hch]
      exact ⟨env, data, msg, session, a₀, hx', method, (checkChannel_spec free).1, hsession, rfl,
        ⟨attr, hattr, hok⟩, rfl⟩
    · exact hback.channels ch c hfind

/-! ## Runs -/

variable (hmac md5 opts) in
/-- The events of a run, each with the server that it finds. -/
def past (events : List Event) : List (Server × Event) := history (step hmac md5 opts) {} events

theorem after_backed (events : List Event) :
    ∀ client a, (after hmac md5 opts events).allocationOf client = some a →
      Backed hmac md5 opts (past hmac md5 opts events) client a := by
  refine run_induction (P := fun events (sv : Server) => ∀ client a,
    sv.allocationOf client = some a → Backed hmac md5 opts (past hmac md5 opts events) client a)
    ?_ ?_ events
  · intro client a ha
    cases ha
  · intro events e h client a ha
    rw [past, history_concat]
    rcases step_allocationOf hmac md5 opts (run (step hmac md5 opts) {} events) e client with
      hsame | ⟨now, hpruned⟩ | ⟨env, data, msg, session, username, hx, huser, hchange, hgeneration⟩
    · exact (h client a (hsame ▸ ha)).concat
    · rw [hpruned] at ha
      obtain ⟨a₀, ha₀, -, rfl⟩ := Server.allocationOf_prune_eq_some.1 ha
      exact ((h client a₀ ha₀).prune now).concat
    · refine Backed.change (fun a₀ ha₀ => ?_) hx rfl huser hchange rfl hgeneration ha
      rw [← hx.request.allocationOf_prune] at ha₀
      obtain ⟨a₁, ha₁, -, rfl⟩ := Server.allocationOf_prune_eq_some.1 ha₀
      exact (h client a₁ ha₁).prune _

theorem generation_le_history {sv : Server} {events : List Event} {y : Server × Event}
    (hy : y ∈ history (step hmac md5 opts) sv events) : sv.generation ≤ y.1.generation := by
  induction events generalizing sv with
  | nil => cases hy
  | cons e events ih =>
    rcases mem_cons.1 hy with rfl | hy
    · exact le_rfl
    · exact (generation_le_step hmac md5 opts sv e).trans (ih hy)

/-- Of two allocations that are made in a run the later one has the greater generation. -/
theorem history_generations (sv : Server) (events : List Event) :
    (history (step hmac md5 opts) sv events).Pairwise fun x y => ∀ client a client' a',
      Allocates hmac md5 opts x client a → Allocates hmac md5 opts y client' a' →
      a.generation < a'.generation := by
  induction events generalizing sv with
  | nil => exact .nil
  | cons e events ih =>
    refine pairwise_cons.2 ⟨fun y hy client a client' a' hx hy' => ?_, ih _⟩
    obtain ⟨-, -, -, -, -, -, -, -, hle⟩ := hx
    obtain ⟨-, -, -, -, -, -, -, hlt, -⟩ := hy'
    exact hle.trans_lt ((generation_le_history hy).trans_lt hlt)

/-! ## What is relayed -/

variable {output : Output}

/-- Channel data goes to the peer of the channel. -/
theorem mem_onChannelData {d : TurnChannelData} (h : output ∈ onChannelData env sv client d) :
    ∃ a c, sv.allocationOf client = some a ∧
        a.channels.find d.channel = some c ∧ peerAllowed env c.peer true = true ∧
        output = .toPeer client a.generation c.peer d.data := by
  rw [onChannelData] at h
  split at h
  · cases h
  · rename_i a ha
    split at h
    · cases h
    · rename_i c hc
      split_ifs at h with hallowed
      · exact ⟨a, c, ha, hc, hallowed, mem_singleton.1 h⟩
      · cases h

theorem hasPermission_spec (h : hasPermission env a peer = true) :
    ∃ expires, a.permissions.find (peerIp peer) = some expires ∧ env.handleMs < expires := by
  obtain ⟨expires, hfind, hlt⟩ := (Option.any_eq_true ..).1 h
  exact ⟨expires, hfind, of_decide_eq_true hlt⟩

/-- A Send indication goes to a peer that the client has a permission for. -/
theorem mem_onSend {output : Output} (hmethod : msg.method = send)
    (h : output ∈ onSend env sv client msg) : ∃ a peer payload, sv.allocationOf client = some a ∧
      peer.isV6 = a.advertised.isV6 ∧ peerAllowed env peer true = true ∧
      hasPermission env a peer = true ∧ output = .toPeer client a.generation peer payload := by
  rw [onSend] at h
  split at h
  · rename_i a attr payload ha hattr hpayload
    split_ifs at h
    · cases h
    · split at h
      · cases h
      · rename_i peer hp
        split_ifs at h with hpermission
        · obtain ⟨hfamily, hallowed⟩ := decodePeer_spec hp
          rw [hmethod] at hallowed
          exact ⟨a, peer, _, ha, hfamily, hallowed, hpermission, mem_singleton.1 h⟩
        · cases h
  · cases h

theorem mem_onRelay {id : ℕ} (h : output ∈ (onRelay hmac env sv client id peer data).2) :
    ∃ a packet, (sv.prune env.pruneMs).allocationOf client = some a ∧ a.generation = id ∧
      peerAllowed env peer true = true ∧ hasPermission env a peer = true ∧
      output = .toClient client id peer packet := by
  rw [onRelay] at h
  split_ifs at h with hallowed
  · cases h
  dsimp only at h
  split at h
  · cases h
  · rename_i a ha
    split_ifs at h with hopen
    · cases h
    obtain ⟨hid, hpermission⟩ := not_or.1 hopen
    split at h
    · cases h
    · exact ⟨a, _, ha, not_not.1 hid, Bool.eq_true_of_not_eq_false hallowed,
        Bool.eq_true_of_not_eq_false hpermission, mem_singleton.1 h⟩

variable (hmac md5 opts) in
/-- The client has an allocation that has not expired, made by an Allocate of its own, the peer is
    of its family and allowed now. -/
structure Relaying (events : List Event) (env : Env) (client : SocketAddr) (a : Allocation)
    (peer : SocketAddr) : Prop where
  allocation :
    ((after hmac md5 opts events).prune env.pruneMs).allocationOf client = some a
  unexpired : env.pruneMs < a.expires
  created : ∃ x ∈ past hmac md5 opts events, Allocates hmac md5 opts x client a
  family : peer.isV6 = a.advertised.isV6
  allowed : peerAllowed env peer true = true

variable (hmac md5 opts) in
/-- An authorised request for the allocation named the address of the peer less than the lifetime
    of a permission ago. -/
def Permitted (events : List Event) (env : Env) (client : SocketAddr) (a : Allocation)
    (peer : SocketAddr) : Prop :=
  ∃ x ∈ past hmac md5 opts events, ∃ atMs, Permits hmac md5 opts x client a (peerIp peer) atMs ∧
    env.handleMs < atMs + kPermissionMs

variable (hmac md5 opts) in
/-- An authorised request for the allocation bound the channel to the peer less than the lifetime
    of a channel ago. -/
def Bound (events : List Event) (env : Env) (client : SocketAddr) (a : Allocation)
    (channel : BitVec 16) (peer : SocketAddr) : Prop :=
  ∃ x ∈ past hmac md5 opts events, ∃ atMs, Binds hmac md5 opts x client a channel peer atMs ∧
    env.pruneMs < atMs + kChannelMs

variable {events : List Event}

/-- An allocation that is left by `Prune` is backed and has not expired. -/
theorem backed_of_prune {now : ℕ}
    (ha : ((after hmac md5 opts events).prune now).allocationOf client = some a) :
    Backed hmac md5 opts (past hmac md5 opts events) client a ∧ now < a.expires := by
  obtain ⟨a₀, ha₀, hlt, rfl⟩ := Server.allocationOf_prune_eq_some.1 ha
  exact ⟨(after_backed events client a₀ ha₀).prune now, hlt⟩

/-- A permission is behind what is sent with it. -/
theorem Backed.permitted (h : Backed hmac md5 opts (past hmac md5 opts events) client a)
    (hpermission : hasPermission env a peer = true) :
    peer.isV6 = a.advertised.isV6 ∧ Permitted hmac md5 opts events env client a peer := by
  obtain ⟨expires, hfind, hlt⟩ := hasPermission_spec hpermission
  obtain ⟨hfamily, x, hx, atMs, hpermits, hle⟩ := h.permissions _ _ hfind
  exact ⟨(isV6_peerIp peer).symm.trans hfamily, x, hx, atMs, hpermits, hlt.trans_le hle⟩

/-- Data for a peer comes out of channel data or a Send indication of a client. -/
theorem mem_onControl
    (hanswer : ∀ message unauthorized, output ≠ .response client message unauthorized)
    (hbinding : ∀ message, output ≠ .binding client message)
    (h : output ∈ (onControl hmac md5 opts env sv client data).2) :
    (∃ d, parseChannelDataDatagram data = some d ∧
      output ∈ onChannelData env (sv.prune env.pruneMs) client d) ∨
    ∃ msg, msg.method = send ∧ output ∈ onSend env (sv.prune env.pruneMs) client msg := by
  rcases onControl_cases hmac md5 opts env sv client data with hnone | ⟨-, hout⟩ |
    ⟨msg, session, hrequest, hserve⟩
  · rw [hnone] at h
    cases h
  · rcases hout output h with ⟨message, rfl⟩ | hrest
    · exact absurd rfl (hbinding message)
    · exact hrest
  · obtain ⟨session', generation, outputs, heq, hserved⟩ :=
      serve_spec hmac md5 opts env msg data hrequest.allocationOf_prune
    rw [hserve, heq] at h
    obtain ⟨message, unauthorized, rfl⟩ := hserved.outputs_response output h
    exact absurd rfl (hanswer message unauthorized)

variable (hmac md5 opts) in
/-- In every run the server relays only what was authorised. Data for a peer is from a client with
    an allocation, for a peer with a permission, or over a channel that is bound to the peer. Data
    for a client came to the relay socket of its present allocation, from a peer with a permission.
    The sockets of other allocations deliver nothing to it, as generations are not used again. -/
theorem relays_only_authorised (events : List Event) (e : Event) :
    (∀ client generation peer payload,
      .toPeer client generation peer payload ∈
        (react hmac md5 opts (after hmac md5 opts events) e).2 →
      ∃ env data a, e = .control env client data ∧ a.generation = generation ∧
        Relaying hmac md5 opts events env client a peer ∧
        (Permitted hmac md5 opts events env client a peer ∨
          ∃ d, parseChannelDataDatagram data = some d ∧
            Bound hmac md5 opts events env client a d.channel peer)) ∧
    (∀ client generation peer packet,
      .toClient client generation peer packet ∈
        (react hmac md5 opts (after hmac md5 opts events) e).2 →
      ∃ env data a, e = .relay env client generation peer data ∧ a.generation = generation ∧
        Relaying hmac md5 opts events env client a peer ∧
        Permitted hmac md5 opts events env client a peer) ∧
    (past hmac md5 opts events).Pairwise fun x y => ∀ client a client' a',
      Allocates hmac md5 opts x client a → Allocates hmac md5 opts y client' a' →
      a.generation < a'.generation := by
  refine ⟨fun client generation peer payload h => ?_, fun client generation peer packet h => ?_,
    history_generations _ _⟩
  · cases e with
    | prune now => cases h
    | relay env c id p data =>
      obtain ⟨a, packet, -, -, -, -, hout⟩ := mem_onRelay h
      cases hout
    | control env c data =>
      rcases mem_onControl (by simp) (by simp) h with ⟨d, hd, hout⟩ | ⟨msg, hmethod, hout⟩
      · obtain ⟨a, binding, ha, hbinding, hallowed, heq⟩ := mem_onChannelData hout
        cases heq
        obtain ⟨hback, hlt⟩ := backed_of_prune ha
        obtain ⟨hfamily, x, hx, atMs, hbinds, hle⟩ := hback.channels _ _ hbinding
        -- `Prune` has left the channel, so it has not expired either.
        obtain ⟨a₀, -, -, rfl⟩ := Server.allocationOf_prune_eq_some.1 ha
        have hchannel : env.pruneMs < binding.expires :=
          (Allocation.find_channels_prune.1 hbinding).2
        exact ⟨env, data, _, rfl, rfl, ⟨ha, hlt, hback.created, hfamily, hallowed⟩,
          .inr ⟨d, hd, x, hx, atMs, hbinds, hchannel.trans_le hle⟩⟩
      · obtain ⟨a, p, payload', ha, hfamily, hallowed, hpermission, heq⟩ := mem_onSend hmethod hout
        cases heq
        obtain ⟨hback, hlt⟩ := backed_of_prune ha
        exact ⟨env, data, a, rfl, rfl, ⟨ha, hlt, hback.created, hfamily, hallowed⟩,
          .inl (hback.permitted hpermission).2⟩
  · cases e with
    | prune now => cases h
    | relay env c id p data =>
      obtain ⟨a, packet', ha, hid, hallowed, hpermission, heq⟩ := mem_onRelay h
      cases heq
      obtain ⟨hback, hlt⟩ := backed_of_prune ha
      obtain ⟨hfamily, hpermitted⟩ := hback.permitted hpermission
      exact ⟨env, data, a, rfl, hid, ⟨ha, hlt, hback.created, hfamily, hallowed⟩, hpermitted⟩
    | control env c data =>
      rcases mem_onControl (by simp) (by simp) h with ⟨d, hd, hout⟩ | ⟨msg, hmethod, hout⟩
      · obtain ⟨a, binding, -, -, -, heq⟩ := mem_onChannelData hout
        cases heq
      · obtain ⟨a, p, payload', -, -, -, -, heq⟩ := mem_onSend hmethod hout
        cases heq

end Packetia.Turn
