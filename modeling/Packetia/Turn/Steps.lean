import Packetia.Stun.Frames
import Packetia.Turn.Server

/-!
# The steps of the TURN server

What a datagram can do to the table of sessions, said once: `Prune` drops what has expired, and
an authorised request makes one of the changes of `Change` to the allocation of its client, and
is then answered with a success response. Everything else leaves the allocations alone.
-/

namespace Packetia.Turn

open List Option Stun Net StunMethod

variable {hmac : Hmac} {md5 : List Byte → Octets 16} {s : Session}
  {now lifetime : ℕ} {attributes : List StunAttribute}

/-! ## Expiry -/

theorem Session.prune_allocation (s : Session) (now : ℕ) : (s.prune now).bind Session.allocation =
    (s.allocation.filter fun a => ¬now ≥ a.expires).map (·.prune now) := by
  rw [Session.prune]
  split_ifs with hnone
  · exact (isNone_iff_eq_none.1 hnone.1).symm
  · rfl

/-- After `Prune` the allocations are those that have not expired, without what has expired in
    them. -/
theorem Server.allocationOf_prune (sv : Server) (now : ℕ) (client : SocketAddr) :
    (sv.prune now).allocationOf client =
      ((sv.allocationOf client).filter fun a => ¬now ≥ a.expires).map (·.prune now) := by
  rw [allocationOf, allocationOf, prune, Table.find_filterMap]
  cases hs : sv.sessions.find client with
  | none => rfl
  | some s => exact Session.prune_allocation s now

variable {a : Allocation} {client : SocketAddr}

theorem Server.allocationOf_prune_eq_some {sv : Server} :
    (sv.prune now).allocationOf client = some a ↔
        ∃ a₀, sv.allocationOf client = some a₀ ∧ now < a₀.expires ∧ a = a₀.prune now := by
  rw [allocationOf_prune, map_eq_some_iff]
  constructor
  · rintro ⟨a₀, h, rfl⟩
    obtain ⟨ha₀, hlt⟩ := filter_eq_some_iff.1 h
    exact ⟨a₀, ha₀, not_le.1 (of_decide_eq_true hlt), rfl⟩
  · rintro ⟨a₀, ha₀, hlt, rfl⟩
    exact ⟨a₀, filter_eq_some_iff.2 ⟨ha₀, decide_eq_true (not_le.2 hlt)⟩, rfl⟩

theorem Allocation.find_permissions_prune {expires : ℕ} {ip : SocketAddr} :
    (a.prune now).permissions.find ip = some expires ↔
      a.permissions.find ip = some expires ∧ now < expires := by
  rw [← not_le]
  exact Table.find_filterMap_unless (now ≥ ·)

theorem Allocation.find_channels_prune {ch : BitVec 16} {c : Channel} :
    (a.prune now).channels.find ch = some c ↔ a.channels.find ch = some c ∧ now < c.expires := by
  rw [← not_le]
  exact Table.find_filterMap_unless fun c : Channel => now ≥ c.expires

theorem deadline_le (now duration : ℕ) : deadline now duration ≤ now + duration := by
  rw [deadline]
  split_ifs <;> omega

/-! ## Requests -/

/-- What a request that succeeds does to the allocation of its client. -/
inductive Change (opts : TurnServerOptions) (env : Env) (sv : Server) (msg : StunMessageInfo)
    (username : List Byte) : Option Allocation → Option Allocation → Prop
  | refresh (a : Allocation) (expires : ℕ) (method : msg.method = refresh) :
    Change opts env sv msg username (some a) (some { a with expires })
  | delete (a : Allocation) (method : msg.method = refresh) :
    Change opts env sv msg username (some a) none
  | create (a : Allocation) (method : msg.method = allocate)
    (user : a.username = username) (generation : a.generation = sv.generation + 1)
    (permissions : a.permissions = .empty) (channels : a.channels = .empty)
    (total : sv.allocationCount [] < opts.maxAllocations)
    (own : sv.allocationCount username < opts.maxAllocationsPerUser) :
    Change opts env sv msg username none (some a)
  | permit (a : Allocation) (peers : List SocketAddr)
    (method : msg.method ≠ allocate ∧ msg.method ≠ refresh ∧ msg.method ≠ channelBind)
    (named : decodePeers env msg a (peerAttrs msg.attrs) = .ok peers)
    (room : (addPermissions env a.permissions peers).size ≤ opts.maxPermissions) :
    Change opts env sv msg username (some a)
      (some { a with permissions := addPermissions env a.permissions peers })
  | bind (a : Allocation) (peer : SocketAddr) (channel : BitVec 16)
    (method : msg.method = channelBind)
    (named : decodePeers env msg a (peerAttrs msg.attrs) = .ok [peer])
    (room : (addPermissions env a.permissions [peer]).size ≤ opts.maxPermissions)
    (free : checkChannel msg a peer = .ok channel)
    (space : (a.channels.set channel
      { peer, expires := deadline env.handleMs kChannelMs }).size ≤ opts.maxChannels) :
    Change opts env sv msg username (some a) (some { a with
      permissions := addPermissions env a.permissions [peer]
      channels := a.channels.set channel
        { peer, expires := deadline env.handleMs kChannelMs } })

variable {opts : TurnServerOptions} {env : Env} {sv : Server} {client : SocketAddr}
  {allocation : Option Allocation} {msg : StunMessageInfo} {authenticated : TurnAuthResult}
  {data : List Byte} {o : Outcome}

variable (hmac) in
/-- A request either leaves the allocation alone, or makes a change and is answered with a success
    response. -/
structure Answered (opts : TurnServerOptions) (env : Env) (sv : Server) (msg : StunMessageInfo)
    (authenticated : TurnAuthResult) (allocation : Option Allocation) (o : Outcome) : Prop where
  generation : sv.generation ≤ o.generation
  cases : o.allocation = allocation ∨
    (Change opts env sv msg authenticated.username allocation o.allocation ∧ o.response ≠ [] ∧
      (∃ attributes, o.response = success hmac msg authenticated.integrityKey attributes) ∧
      (allocation = none → o.generation = sv.generation + 1))

variable {key : List Byte}

theorem handleRefresh_spec (hkey : key = authenticated.integrityKey)
    (hmethod : msg.method = refresh)
    (h : handleRefresh hmac env sv.generation allocation msg key lifetime = .ok o) :
    Answered hmac opts env sv msg authenticated allocation o := by
  subst hkey
  cases allocation with
  | none => cases h
  | some a =>
    rw [handleRefresh] at h
    generalize (if lifetime ≠ 0 then clampLifetime lifetime else lifetime) = given at h
    obtain rfl := Except.ok.inj h
    refine ⟨le_rfl, ?_⟩
    split_ifs with hempty hzero
    · exact .inl rfl
    · exact .inr ⟨.delete a hmethod, hempty, ⟨_, rfl⟩, nofun⟩
    · exact .inr ⟨.refresh a _ hmethod, hempty, ⟨_, rfl⟩, nofun⟩

theorem allocateResponse_eq (h : allocateResponse hmac client a msg key lifetime ≠ []) :
    ∃ attributes, allocateResponse hmac client a msg key lifetime =
      success hmac msg key attributes := by
  rw [allocateResponse] at h ⊢
  split at h
  · exact ⟨_, rfl⟩
  · exact absurd rfl h

theorem handleAllocate_spec {lifetime : ℕ} (hmethod : msg.method = allocate)
    (h : handleAllocate hmac opts env sv client allocation msg authenticated data lifetime =
      .ok o) : Answered hmac opts env sv msg authenticated allocation o := by
  rw [handleAllocate] at h
  split at h
  · cases h
  · cases allocation with
    | some a =>
      dsimp only at h
      split_ifs at h
      obtain rfl := Except.ok.inj h
      exact ⟨le_rfl, .inl rfl⟩
    | none =>
      dsimp only at h
      split_ifs at h with hquota
      obtain ⟨htotal, hown⟩ := not_or.1 hquota
      split at h
      · cases h
      · obtain rfl := Except.ok.inj h
        refine ⟨Nat.le_succ _, ?_⟩
        split_ifs with hempty
        · exact .inl rfl
        · exact .inr ⟨.create _ hmethod rfl rfl rfl rfl (not_le.1 htotal) (not_le.1 hown), hempty,
            allocateResponse_eq hempty, fun _ => rfl⟩

theorem handlePeers_spec (hkey : key = authenticated.integrityKey)
    (hmethod : msg.method ≠ allocate ∧ msg.method ≠ refresh)
    (h : handlePeers hmac opts env sv.generation allocation msg key = .ok o) :
    Answered hmac opts env sv msg authenticated allocation o := by
  subst hkey
  cases allocation with
  | none => cases h
  | some a =>
    rw [handlePeers] at h
    dsimp only at h
    split at h
    · cases h
    · cases h
    · rename_i peer peers hpeers
      split_ifs at h with hmany hroom hbind hempty hempty
      · split at h
        · cases h
        · split_ifs at h
          obtain rfl := Except.ok.inj h
          exact ⟨le_rfl, .inl rfl⟩
      · obtain rfl : peers = [] := not_not.1 fun hne => hmany ⟨hbind, hne⟩
        split at h
        · cases h
        · rename_i channel hchannel
          split_ifs at h with hspace
          obtain rfl := Except.ok.inj h
          exact ⟨le_rfl, .inr ⟨.bind a peer channel hbind hpeers (not_lt.1 hroom) hchannel
            (not_lt.1 hspace), hempty, ⟨_, rfl⟩, nofun⟩⟩
      · obtain rfl := Except.ok.inj h
        exact ⟨le_rfl, .inl rfl⟩
      · obtain rfl := Except.ok.inj h
        exact ⟨le_rfl, .inr ⟨.permit a (peer :: peers) ⟨hmethod.1, hmethod.2, hbind⟩ hpeers
          (not_lt.1 hroom), hempty, ⟨_, rfl⟩, nofun⟩⟩

theorem handleMethod_spec
    (h : handleMethod hmac opts env sv client allocation msg authenticated data = .ok o) :
    Answered hmac opts env sv msg authenticated allocation o := by
  rw [handleMethod] at h
  split_ifs at h with hlife hrefresh
  · split at h
    · cases h
    · exact handleRefresh_spec rfl hrefresh h
  · split at h
    · cases h
    · exact handleAllocate_spec (hlife.resolve_right hrefresh) h
  · exact handlePeers_spec rfl (not_or.1 hlife) h

variable (hmac opts env sv client allocation msg authenticated data) in
/-- A request changes the allocation of its own user only. -/
theorem handleRequest_spec :
    Answered hmac opts env sv msg authenticated allocation
      (handleRequest hmac opts env sv client allocation msg authenticated data) ∧
    ((handleRequest hmac opts env sv client allocation msg authenticated data).allocation ≠
      allocation → ∀ a, allocation = some a → a.username = authenticated.username) := by
  rw [handleRequest]
  split_ifs with huser
  iterate 3 exact ⟨⟨le_rfl, .inl rfl⟩, absurd rfl⟩
  · split
    · exact ⟨⟨le_rfl, .inl rfl⟩, absurd rfl⟩
    · refine ⟨handleMethod_spec ‹_›, ?_⟩
      rintro - a rfl
      simpa using huser

/-! ## Success responses -/

/-- The class of a message. -/
def classOf (message : List Byte) : StunClass := decodeClass (u16At message 0)

theorem classOf_buildMessage {method : StunMethod} {klass : StunClass} {txid : TxId}
    {message : List Byte} {addFingerprint : Bool}
    (h : buildMessage hmac method klass txid attributes key addFingerprint = some message) :
    classOf message = klass := by
  obtain ⟨-, -, _, -, -, rfl⟩ := buildMessage_eq h
  have htype : ∀ (type len : BitVec 16) (body : List Byte),
      u16At (frame type len txid body) 0 = type :=
    fun type _ _ => extractLsb_append type
  rw [classOf, htype, decodeClass_encodeType]

theorem classOf_success {key : List Byte} (h : success hmac msg key attributes ≠ []) :
    classOf (success hmac msg key attributes) = .successResponse := by
  rw [success] at h ⊢
  cases hbuilt : buildMessage hmac msg.method .successResponse msg.txid attributes key true with
  | none =>
    rw [hbuilt] at h
    exact absurd rfl h
  | some message => exact classOf_buildMessage hbuilt

/-! ## Sessions -/

theorem Server.allocationOf_set (sv : Server) (generation : ℕ) (client c : SocketAddr)
    (s : Session) : Server.allocationOf { sessions := sv.sessions.set client s, generation } c =
      if c = client then s.allocation else sv.allocationOf c := by
  rw [allocationOf, allocationOf, Table.find_set]
  split_ifs <;> rfl

/-- Storing a session counts its allocation in place of the one before. -/
theorem count_set_session (sv : Server) (client : SocketAddr) (s : Session)
    (p : Allocation → Bool) :
    ((sv.sessions.set client s).count fun _ s => s.allocation.any p) +
        ((sv.allocationOf client).any p).toNat =
      (sv.sessions.count fun _ s => s.allocation.any p) + (s.allocation.any p).toNat := by
  have hcount := Table.count_set (t := sv.sessions) (k := client) (v := s)
    (p := fun _ s => s.allocation.any p)
  have hold : ((sv.sessions.find client).any fun s => s.allocation.any p) =
      (sv.allocationOf client).any p := by
    rw [Server.allocationOf]
    cases sv.sessions.find client <;> rfl
  rw [hold] at hcount
  exact hcount

/-- A session that keeps its allocation counts as before. -/
theorem count_set_same (hs : sv.allocationOf client = s.allocation) (p : Allocation → Bool) :
    ((sv.sessions.set client s).count fun _ s => s.allocation.any p) =
      sv.sessions.count fun _ s => s.allocation.any p := by
  have hset := count_set_session sv client s p
  rw [hs] at hset
  exact Nat.add_right_cancel hset

/-- A change depends on the counts and the generation of the server only. -/
theorem Change.of_set {username : List Byte} {s : Session}
    {before later : Option Allocation} (hs : sv.allocationOf client = s.allocation)
    (h : Change opts env { sv with sessions := sv.sessions.set client s } msg username before
      later) : Change opts env sv msg username before later := by
  cases h with
  | create a method user generation permissions channels total own =>
    have hcount : ∀ name, Server.allocationCount { sv with
        sessions := sv.sessions.set client s } name = sv.allocationCount name :=
      fun _ => count_set_same hs _
    rw [hcount] at total own
    exact .create a method user generation permissions channels total own
  | _ => constructor <;> assumption

variable {session : Session}

variable (hmac md5) in
/-- The request is authorised for `username`. -/
def AuthorisedFor (opts : TurnServerOptions) (env : Env) (session : Session) (data : List Byte)
    (username : List Byte) : Prop :=
  (opts.auth.authenticate hmac md5 data session.auth env.auth).1.status = .authorized ∧
    (opts.auth.authenticate hmac md5 data session.auth env.auth).1.username = username

variable (hmac md5) in
/-- What a request of the session `session` leads to: it leaves the allocation of its client
    alone, or it is authorised, changes the allocation and is answered with a success response. -/
structure Served (opts : TurnServerOptions) (env : Env) (sv : Server) (client : SocketAddr)
    (session : Session) (msg : StunMessageInfo) (data : List Byte) (session' : Session)
    (generation : ℕ) (outputs : List Output) : Prop where
  generation_le : sv.generation ≤ generation
  outputs_response : ∀ output ∈ outputs, ∃ message unauthorized,
    output = .response client message unauthorized
  cases : session'.allocation = session.allocation ∨
    ∃ username message, AuthorisedFor hmac md5 opts env session data username ∧
      Change opts env sv msg username session.allocation session'.allocation ∧
      (∀ a, session.allocation = some a → a.username = username) ∧
      outputs = [.response client message false] ∧ classOf message = .successResponse ∧
      (session.allocation = none → generation = sv.generation + 1)

variable (hmac md5 opts env msg data) in
theorem serve_spec (hsession : sv.allocationOf client = session.allocation) :
    ∃ session' generation outputs, serve hmac md5 opts env sv client session msg data =
        ({ sessions := sv.sessions.set client session', generation }, outputs) ∧
      Served hmac md5 opts env sv client session msg data session' generation outputs := by
  rw [serve]
  cases hcache : session.cache.find? fun c => c.transaction = msg.txid with
  | some cached =>
    refine ⟨_, _, _, rfl, le_rfl, ?_, .inl rfl⟩
    intro output houtput
    split_ifs at houtput
    · exact ⟨_, _, mem_singleton.1 houtput⟩
    · cases houtput
  | none =>
    generalize hr : opts.auth.authenticate hmac md5 data session.auth env.auth = r
    obtain ⟨authenticated, context⟩ := r
    simp only [Table.set_set]
    by_cases hstatus : authenticated.status = .authorized
    · rw [if_pos hstatus]
      -- The session is in the table already when `HandleRequest` counts allocations.
      obtain ⟨hanswered, huser⟩ := handleRequest_spec hmac opts env
        { sv with sessions := sv.sessions.set client { session with lastActivity := env.pruneMs } }
        client session.allocation msg authenticated data
      generalize handleRequest hmac opts env _ client _ msg authenticated data = o
        at hanswered huser ⊢
      have hauthorised : AuthorisedFor hmac md5 opts env session data authenticated.username := by
        rw [AuthorisedFor, hr]
        exact ⟨hstatus, rfl⟩
      have hlabel : decide (authenticated.status = .response ∧
          authenticated.errorCode = kErrorUnauthorized) = false := by
        rw [hstatus]
        rfl
      rw [hlabel]
      split_ifs with hempty
      · refine ⟨_, _, _, rfl, hanswered.generation, by simp, .inl ?_⟩
        rcases hanswered.cases with hsame | ⟨-, hne, -⟩
        · exact hsame
        · exact absurd hempty hne
      · refine ⟨_, _, _, rfl, hanswered.generation, ?_, ?_⟩
        · intro output houtput
          exact ⟨_, _, mem_singleton.1 houtput⟩
        · by_cases hsame : o.allocation = session.allocation
          · exact .inl hsame
          · obtain ⟨hchange, hne, ⟨attributes, hresponse⟩, hgeneration⟩ :=
              hanswered.cases.resolve_left hsame
            have hclass : classOf o.response = .successResponse := by
              rw [hresponse] at hne ⊢
              exact classOf_success hne
            exact .inr ⟨_, _, hauthorised, hchange.of_set (by exact hsession), huser hsame, rfl,
              hclass, hgeneration⟩
    · generalize (if authenticated.status = .response then authenticated.response else []) = answer
      split_ifs
      · exact ⟨_, _, _, rfl, le_rfl, by simp, .inl rfl⟩
      · refine ⟨_, _, _, rfl, le_rfl, ?_, .inl rfl⟩
        intro output houtput
        exact ⟨_, _, mem_singleton.1 houtput⟩

/-! ## Datagrams -/

/-- A datagram of a client is one of its requests, as `msg` and of the session `session`, which is
    new if the client has none. -/
structure Requests (opts : TurnServerOptions) (env : Env) (sv : Server) (client : SocketAddr)
    (data : List Byte) (msg : StunMessageInfo) (session : Session) : Prop where
  parsed : parseStunDatagram data = some msg
  supported : SupportedRequest msg
  session : (sv.prune env.pruneMs).sessions.find client = some session ∨
    ((sv.prune env.pruneMs).sessions.find client = none ∧ session = {} ∧
      (sv.prune env.pruneMs).sessions.size < opts.maxSessions)

variable (hmac md5 opts env sv client data) in
/-- A datagram of a client is ignored, is answered or relayed from the table after `Prune`, or is
    a request. -/
theorem onControl_cases :
    onControl hmac md5 opts env sv client data = (sv, []) ∨
    ((onControl hmac md5 opts env sv client data).1 = sv.prune env.pruneMs ∧
      ∀ output ∈ (onControl hmac md5 opts env sv client data).2,
        (∃ message, output = .binding client message) ∨
        (∃ d, parseChannelDataDatagram data = some d ∧
          output ∈ onChannelData env (sv.prune env.pruneMs) client d) ∨
        ∃ msg, msg.method = send ∧ output ∈ onSend env (sv.prune env.pruneMs) client msg) ∨
    ∃ msg session, Requests opts env sv client data msg session ∧
      onControl hmac md5 opts env sv client data =
        serve hmac md5 opts env (sv.prune env.pruneMs) client session msg data := by
  rw [onControl]
  split_ifs with hshape
  · exact .inl rfl
  right
  cases hchannel : parseChannelDataDatagram data with
  | some d => exact .inl ⟨rfl, fun output houtput => .inr (.inl ⟨d, rfl, houtput⟩)⟩
  | none =>
    cases hparsed : parseStunDatagram data with
    | none => exact .inl ⟨rfl, by simp⟩
    | some msg =>
      dsimp only
      split_ifs with hfingerprint hbinding _ _ hsend hrequest hfull
      · exact .inl ⟨rfl, by simp⟩
      · exact .inl ⟨rfl, by simp⟩
      · exact .inl ⟨rfl, fun output houtput => .inl ⟨_, mem_singleton.1 houtput⟩⟩
      · exact .inl ⟨rfl, fun output houtput => .inr (.inr ⟨msg, hsend.1, houtput⟩)⟩
      · exact .inl ⟨rfl, by simp⟩
      · cases hsession : (sv.prune env.pruneMs).sessions.find client with
        | none => exact .inl ⟨rfl, by simp⟩
        | some session =>
          exact .inr ⟨msg, session, ⟨hparsed, not_not.1 (not_or.1 hrequest).1, .inl hsession⟩, rfl⟩
      · have hsupported : SupportedRequest msg := not_not.1 (not_or.1 hrequest).1
        cases hsession : (sv.prune env.pruneMs).sessions.find client with
        | none =>
          exact .inr ⟨msg, {}, ⟨hparsed, hsupported, .inr ⟨hsession, rfl, not_le.1 hfull⟩⟩, rfl⟩
        | some session => exact .inr ⟨msg, session, ⟨hparsed, hsupported, .inl hsession⟩, rfl⟩
      · exact .inl ⟨rfl, by simp⟩

theorem Requests.allocationOf_prune (h : Requests opts env sv client data msg session) :
    (sv.prune env.pruneMs).allocationOf client = session.allocation := by
  rw [Server.allocationOf]
  rcases h.session with hsome | ⟨hnone, rfl, -⟩
  · rw [hsome]
    rfl
  · rw [hnone]
    rfl

variable (hmac md5) in
/-- The event `x.2`, in the server `x.1`, is a request of the client that is authorised for
    `username` and answered with a success response. -/
structure Succeeds (opts : TurnServerOptions) (x : Server × Event) (client : SocketAddr) (env : Env)
    (data : List Byte) (msg : StunMessageInfo) (session : Session) (username : List Byte) :
    Prop where
  event : x.2 = .control env client data
  request : Requests opts env x.1 client data msg session
  authorised : AuthorisedFor hmac md5 opts env session data username
  answered : ∃ message, (react hmac md5 opts x.1 x.2).2 = [.response client message false] ∧
    classOf message = .successResponse

variable (hmac env sv client) in
/-- A datagram of a peer only makes the server prune its table. -/
theorem onRelay_server (id : ℕ) (peer : SocketAddr) :
    (onRelay hmac env sv client id peer data).1 = sv ∨
      (onRelay hmac env sv client id peer data).1 = sv.prune env.pruneMs := by
  rw [onRelay]
  split_ifs
  · exact .inl rfl
  · right
    dsimp only
    split
    · rfl
    · split_ifs
      · rfl
      · split <;> rfl

variable (hmac md5 opts sv) in
/-- An event leaves the server as it is, makes it prune its table, or is a request. -/
theorem step_cases (e : Event) :
    step hmac md5 opts sv e = sv ∨
    (∃ now, step hmac md5 opts sv e = sv.prune now) ∨
    ∃ env client data msg session session' generation outputs, e = .control env client data ∧
      Requests opts env sv client data msg session ∧
      react hmac md5 opts sv e =
        ({ sessions := (sv.prune env.pruneMs).sessions.set client session', generation }, outputs) ∧
      Served hmac md5 opts env (sv.prune env.pruneMs) client session msg data session' generation
        outputs := by
  cases e with
  | prune now => exact .inr (.inl ⟨now, rfl⟩)
  | relay env client id peer data =>
    rcases onRelay_server hmac env sv client id peer with h | h
    · exact .inl (by rw [step, react, h])
    · exact .inr (.inl ⟨env.pruneMs, by rw [step, react, h]⟩)
  | control env client data =>
    rcases onControl_cases hmac md5 opts env sv client data with h | ⟨h, -⟩ |
      ⟨msg, session, hrequest, h⟩
    · exact .inl (by rw [step, react, h])
    · exact .inr (.inl ⟨env.pruneMs, by rw [step, react, h]⟩)
    · obtain ⟨session', generation, outputs, hserve, hserved⟩ :=
        serve_spec hmac md5 opts env msg data hrequest.allocationOf_prune
      exact .inr (.inr ⟨env, client, data, msg, session, session', generation, outputs, rfl,
        hrequest, h.trans hserve, hserved⟩)

variable (hmac md5 opts sv) in
/-- What an event does to the allocation of a client: nothing, unless it expires, or the client
    makes a request that succeeds. -/
theorem step_allocationOf (e : Event) (c : SocketAddr) :
    (step hmac md5 opts sv e).allocationOf c = sv.allocationOf c ∨
    (∃ now, (step hmac md5 opts sv e).allocationOf c = (sv.prune now).allocationOf c) ∨
    ∃ env data msg session username,
      Succeeds hmac md5 opts (sv, e) c env data msg session username ∧
      (∀ a, session.allocation = some a → a.username = username) ∧
      Change opts env (sv.prune env.pruneMs) msg username session.allocation
        ((step hmac md5 opts sv e).allocationOf c) ∧
      (session.allocation = none → (step hmac md5 opts sv e).generation = sv.generation + 1) := by
  rcases step_cases hmac md5 opts sv e with h | ⟨now, h⟩ | ⟨env, client, data, msg, session,
    session', generation, outputs, rfl, hrequest, h, hserved⟩
  · exact .inl (by rw [h])
  · exact .inr (.inl ⟨now, by rw [h]⟩)
  · have hstep : (step hmac md5 opts sv (.control env client data)).allocationOf c =
        if c = client then session'.allocation else (sv.prune env.pruneMs).allocationOf c := by
      rw [step, h, Server.allocationOf_set]
    rw [hstep]
    split_ifs with hc
    · subst hc
      rcases hserved.cases with hsame | ⟨username, message, hauthorised, hchange, huser, hout,
        hclass, hgeneration⟩
      · refine .inr (.inl ⟨env.pruneMs, ?_⟩)
        rw [hsame, hrequest.allocationOf_prune]
      · refine .inr (.inr ⟨env, data, msg, session, username, ⟨rfl, hrequest, hauthorised,
          message, ?_, hclass⟩, huser, hchange, fun hnone => ?_⟩)
        · rw [h, hout]
        · rw [step, h]
          exact hgeneration hnone
    · exact .inr (.inl ⟨env.pruneMs, rfl⟩)

variable (hmac md5 opts sv) in
/-- Generations are counted up. -/
theorem generation_le_step (e : Event) : sv.generation ≤ (step hmac md5 opts sv e).generation := by
  rcases step_cases hmac md5 opts sv e with h | ⟨now, h⟩ | ⟨env, client, data, msg, session,
    session', generation, outputs, rfl, hrequest, h, hserved⟩
  · rw [h]
  · rw [h]
    exact le_rfl
  · rw [step, h]
    exact hserved.generation_le

end Packetia.Turn
