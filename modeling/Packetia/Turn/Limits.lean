import Packetia.Turn.Authorisation

/-!
# The tables of the TURN server

The tables stay within the limits of the options (`Limits`): every request checks them on copies
before anything is stored. A request that does not succeed stores nothing, and one that names
several peers gets a permission for all of them or for none.
-/

namespace Packetia.Turn

open Table List Option Stun Net

variable {hmac : Hmac} {md5 : List Byte → Octets 16}
  {opts : TurnServerOptions} {env : Env} {sv : Server} {client : SocketAddr} {a : Allocation}
  {msg : StunMessageInfo} {peer : SocketAddr}

/-! ## Allocations -/

/-- The allocation is within the limits, and its channels are of different peers. -/
structure Allocation.Within (opts : TurnServerOptions) (a : Allocation) : Prop where
  permissions : a.permissions.size ≤ opts.maxPermissions
  channels : a.channels.size ≤ opts.maxChannels
  injective : ∀ ch ch' c c', a.channels.find ch = some c → a.channels.find ch' = some c' →
    c.peer = c'.peer → ch = ch'

theorem Allocation.Within.prune (h : a.Within opts) (now : ℕ) : (a.prune now).Within opts where
  permissions := (size_filterMap_le _).trans h.permissions
  channels := (size_filterMap_le _).trans h.channels
  injective ch ch' c c' hc hc' := h.injective ch ch' c c' (find_channels_prune.1 hc).1
    (find_channels_prune.1 hc').1

theorem ne_none_of_allowed {requirePort : Bool} (h : peerAllowed env peer requirePort = true) :
    peer ≠ .none := by
  rintro rfl
  exact Bool.false_ne_true (of_decide_eq_true h).1

variable {username : List Byte} {before later : Option Allocation} {s s' : Session}
  {p : Allocation → Bool}

theorem Change.within (hchange : Change opts env sv msg username before later)
    (h : ∀ a, before = some a → a.Within opts) (ha : later = some a) : a.Within opts := by
  cases hchange with
  | refresh a₀ expires method =>
    obtain rfl := some.inj ha
    exact { h a₀ rfl with }
  | delete a₀ method => cases ha
  | create a₀ method user generation permissions channels total own =>
    obtain rfl := some.inj ha
    refine ⟨permissions ▸ Nat.zero_le _, channels ▸ Nat.zero_le _, fun ch ch' c c' hc => ?_⟩
    rw [channels] at hc
    cases hc
  | permit a₀ peers method named room =>
    obtain rfl := some.inj ha
    exact { h a₀ rfl with permissions := room }
  | bind a₀ peer channel method named room free space =>
    obtain rfl := some.inj ha
    refine ⟨room, space, fun ch ch' c c' hc hc' heq => ?_⟩
    -- The channel is new for its peer: no other channel is bound to it.
    obtain ⟨attr, -, hok⟩ := decodePeers_spec named (mem_singleton.2 rfl)
    have hpeer : peer ≠ .none := ne_none_of_allowed (decodePeer_spec hok).2
    have honly := (checkChannel_spec free).2
    rw [find_set] at hc hc'
    split_ifs at hc hc' with hch hch' hch'
    · rw [hch, hch']
    · obtain rfl := some.inj hc
      rw [hch, honly ch' c' hc' heq.symm hpeer]
    · obtain rfl := some.inj hc'
      rw [hch', honly ch c hc heq hpeer]
    · exact (h a₀ rfl).injective ch ch' c c' hc hc' heq

/-! ## Sessions -/

/-- The number of allocations of a user. -/
def Server.userCount (sv : Server) (username : List Byte) : ℕ :=
  sv.sessions.count fun _ s => s.allocation.any fun a => a.username = username

/-- The server is within the limits, and its allocations have different generations. -/
structure Limits (opts : TurnServerOptions) (sv : Server) : Prop where
  sessions : sv.sessions.size ≤ opts.maxSessions
  allocations : sv.allocationCount [] ≤ opts.maxAllocations
  perUser : ∀ username, sv.userCount username ≤ opts.maxAllocationsPerUser
  within : ∀ client a, sv.allocationOf client = some a → a.Within opts
  generation : ∀ client a, sv.allocationOf client = some a → a.generation ≤ sv.generation
  distinct : ∀ client client' a a', sv.allocationOf client = some a →
    sv.allocationOf client' = some a' → a.generation = a'.generation → client = client'

/-- What `Prune` leaves of a session has its allocation from before. -/
theorem Session.any_prune {now : ℕ} (hp : ∀ a, p (a.prune now) = p a) (h : s.prune now = some s')
    (hany : s'.allocation.any p = true) : s.allocation.any p = true := by
  have hallocation := Session.prune_allocation s now
  rw [h, bind_some] at hallocation
  rw [hallocation] at hany
  obtain ⟨a', ha', hpa'⟩ := (Option.any_eq_true ..).1 hany
  obtain ⟨a, ha, rfl⟩ := map_eq_some_iff.1 ha'
  exact (Option.any_eq_true ..).2 ⟨a, (filter_eq_some_iff.1 ha).1, hp a ▸ hpa'⟩

theorem Limits.prune (h : Limits opts sv) (now : ℕ) : Limits opts (sv.prune now) where
  sessions := (size_filterMap_le _).trans h.sessions
  allocations := (count_filterMap_le fun _ _ _ _ hs hany =>
    Session.any_prune (fun _ => rfl) hs hany).trans h.allocations
  perUser username := (count_filterMap_le fun _ _ _ _ hs hany =>
    Session.any_prune (fun _ => rfl) hs hany).trans (h.perUser username)
  within client a ha := by
    obtain ⟨a₀, ha₀, -, rfl⟩ := Server.allocationOf_prune_eq_some.1 ha
    exact (h.within client a₀ ha₀).prune now
  generation client a ha := by
    obtain ⟨a₀, ha₀, -, rfl⟩ := Server.allocationOf_prune_eq_some.1 ha
    exact h.generation client a₀ ha₀
  distinct client client' a a' ha ha' heq := by
    obtain ⟨a₀, ha₀, -, rfl⟩ := Server.allocationOf_prune_eq_some.1 ha
    obtain ⟨a₁, ha₁, -, rfl⟩ := Server.allocationOf_prune_eq_some.1 ha'
    exact h.distinct client client' a₀ a₁ ha₀ ha₁ heq

/-- A change drops an allocation, keeps what it is known by, or makes a new one when there is room
    for it. -/
theorem Change.identity (h : Change opts env sv msg username before later) :
    later = none ∨
    (∃ a a', before = some a ∧ later = some a' ∧ a'.username = a.username ∧
      a'.generation = a.generation) ∨
    ∃ a, before = none ∧ later = some a ∧ a.username = username ∧
      a.generation = sv.generation + 1 ∧ sv.allocationCount [] < opts.maxAllocations ∧
      sv.allocationCount username < opts.maxAllocationsPerUser := by
  cases h with
  | refresh a expires method | permit a peers method named room =>
    exact .inr (.inl ⟨a, _, rfl, rfl, rfl, rfl⟩)
  | delete a method => exact .inl rfl
  | create a method user generation permissions channels total own =>
    exact .inr (.inr ⟨a, rfl, rfl, user, generation, total, own⟩)
  | bind a peer channel method named room free space =>
    exact .inr (.inl ⟨a, _, rfl, rfl, rfl, rfl⟩)

/-- A change keeps the number of allocations of a kind below a limit that is checked when one is
    made. -/
theorem Change.count_le (hchange : Change opts env sv msg username s.allocation s'.allocation)
    (hs : sv.allocationOf client = s.allocation) {limit : ℕ}
    (hcongr : ∀ a b : Allocation, a.username = b.username → p a = p b)
    (hcount : (sv.sessions.count fun _ s => s.allocation.any p) ≤ limit)
    (hroom : ∀ a, a.username = username → p a = true →
      sv.allocationCount [] < opts.maxAllocations →
      sv.allocationCount username < opts.maxAllocationsPerUser →
      (sv.sessions.count fun _ s => s.allocation.any p) < limit) :
    ((sv.sessions.set client s').count fun _ s => s.allocation.any p) ≤ limit := by
  have hset := count_set_session sv client s' p
  rw [hs] at hset
  rcases hchange.identity with hnone | ⟨a, a', hbefore, hlater, huser, -⟩ |
    ⟨a, hbefore, hlater, huser, -, htotal, hown⟩
  · rw [hnone, any_none, Bool.toNat_false] at hset
    omega
  · rw [hbefore, hlater, any_some, any_some, hcongr a' a huser] at hset
    omega
  · rw [hbefore, hlater, any_none, any_some, Bool.toNat_false] at hset
    cases hp : p a with
    | false =>
      rw [hp, Bool.toNat_false] at hset
      omega
    | true =>
      have hlt := hroom a huser hp htotal hown
      rw [hp, Bool.toNat_true] at hset
      omega

/-- The allocations of a user are among those that `AllocationCount` counts. -/
theorem userCount_le (sv : Server) (username : List Byte) :
    sv.userCount username ≤ sv.allocationCount username := by
  refine countP_mono_left fun client _ h => ?_
  obtain ⟨s, hs, hany⟩ := (Option.any_eq_true ..).1 h
  obtain ⟨a, ha, hname⟩ := (Option.any_eq_true ..).1 hany
  refine (Option.any_eq_true ..).2 ⟨s, hs, (Option.any_eq_true ..).2 ⟨a, ha, ?_⟩⟩
  exact decide_eq_true (.inr (of_decide_eq_true hname))

variable {session session' : Session} {data : List Byte} {generation : ℕ} {outputs : List Output}

/-- A request keeps the limits. -/
theorem Limits.served (h : Limits opts sv) (hs : sv.allocationOf client = session.allocation)
    (hsize : (sv.sessions.set client session').size ≤ opts.maxSessions)
    (hserved : Served hmac md5 opts env sv client session msg data session' generation outputs) :
    Limits opts { sessions := sv.sessions.set client session', generation } := by
  have hfind := fun c => Server.allocationOf_set sv generation client c session'
  rcases hserved.cases with hsame | ⟨username, message, -, hchange, -, -, -, hgeneration⟩
  · have hall : ∀ c, Server.allocationOf { sessions := sv.sessions.set client session', generation }
        c = sv.allocationOf c := by
      intro c
      rw [hfind]
      split_ifs with hc
      · rw [hc, hs, hsame]
      · rfl
    have hs' : sv.allocationOf client = session'.allocation := hs.trans hsame.symm
    exact {
      sessions := hsize
      allocations := (count_set_same hs' _).le.trans h.allocations
      perUser := fun username => (count_set_same hs' _).le.trans (h.perUser username)
      within := fun c a ha => h.within c a (hall c ▸ ha)
      generation := fun c a ha => (h.generation c a (hall c ▸ ha)).trans hserved.generation_le
      distinct := fun c c' a a' ha ha' => h.distinct c c' a a' (hall c ▸ ha) (hall c' ▸ ha') }
  · have hwithin : ∀ a, session'.allocation = some a → a.Within opts := fun a ha =>
      hchange.within (fun a₀ ha₀ => h.within client a₀ (hs.trans ha₀)) ha
    -- The generation of another client's allocation is older than that of a new one.
    have hother : ∀ a, session'.allocation = some a → a.generation ≤ generation ∧
        ∀ c b, c ≠ client → sv.allocationOf c = some b → b.generation ≠ a.generation := by
      intro a ha
      rcases hchange.identity with hnone | ⟨a₀, a', hbefore, hlater, -, hsame⟩ |
        ⟨a', hbefore, hlater, -, hnew, -⟩
      · rw [hnone] at ha
        cases ha
      · obtain rfl := some.inj (hlater.symm.trans ha)
        have hold := hs.trans hbefore
        rw [hsame]
        exact ⟨(h.generation client a₀ hold).trans hserved.generation_le,
          fun c b hc hb heq => hc (h.distinct c client b a₀ hb hold heq)⟩
      · obtain rfl := some.inj (hlater.symm.trans ha)
        rw [hnew]
        exact ⟨(hgeneration hbefore).ge, fun c b _ hb =>
          (Nat.lt_succ_of_le (h.generation c b hb)).ne⟩
    refine ⟨hsize, ?_, fun username' => ?_, fun c a ha => ?_, fun c a ha => ?_,
      fun c c' a a' ha ha' heq => ?_⟩
    · exact hchange.count_le hs (fun _ _ _ => by simp) h.allocations fun _ _ _ ht _ => ht
    · refine hchange.count_le hs (fun a b hab => by rw [hab]) (h.perUser username') ?_
      intro a huser hp _ hown
      obtain rfl : a.username = username' := of_decide_eq_true hp
      rw [← huser] at hown
      exact (userCount_le sv a.username).trans_lt hown
    · rw [hfind] at ha
      split_ifs at ha
      · exact hwithin a ha
      · exact h.within c a ha
    · rw [hfind] at ha
      split_ifs at ha
      · exact (hother a ha).1
      · exact (h.generation c a ha).trans hserved.generation_le
    · rw [hfind] at ha ha'
      split_ifs at ha ha' with hc hc' hc'
      · rw [hc, hc']
      · exact absurd heq.symm ((hother a ha).2 c' a' hc' ha')
      · exact absurd heq ((hother a' ha').2 c a hc ha)
      · exact h.distinct c c' a a' ha ha' heq

theorem after_limits (events : List Event) : Limits opts (after hmac md5 opts events) := by
  refine run_induction (P := fun _ sv => Limits opts sv) ?_ ?_ events
  · exact ⟨Nat.zero_le _, Nat.zero_le _, fun _ => Nat.zero_le _, nofun, nofun, nofun⟩
  · intro events e h
    rcases step_cases hmac md5 opts (run (step hmac md5 opts) {} events) e with hs | ⟨now, hs⟩ |
      ⟨env, client, data, msg, session, session', generation, outputs, rfl, hrequest, hreact,
        hserved⟩
    · rw [hs]
      exact h
    · rw [hs]
      exact h.prune now
    · rw [step, hreact]
      refine (h.prune env.pruneMs).served hrequest.allocationOf_prune ?_ hserved
      rcases hrequest.session with hsome | ⟨hnone, -, hroom⟩
      · rw [size_set_of_find hsome]
        exact (h.prune env.pruneMs).sessions
      · rw [size_set_of_none hnone]
        exact hroom

/-! ## Requests that fail -/

variable {allocation : Option Allocation} {authenticated : TurnAuthResult}

theorem find_addPermissions_of_mem {t : Table SocketAddr ℕ} {peers : List SocketAddr}
    (h : peer ∈ peers) :
    (addPermissions env t peers).find (peerIp peer) =
      some (deadline env.handleMs kPermissionMs) := by
  have hkeep : ∀ (peers : List SocketAddr) (t : Table SocketAddr ℕ),
      t.find (peerIp peer) = some (deadline env.handleMs kPermissionMs) →
      (addPermissions env t peers).find (peerIp peer) =
        some (deadline env.handleMs kPermissionMs) := by
    intro peers
    induction peers with
    | nil => exact fun t ht => ht
    | cons p peers ih =>
      refine fun t ht => ih _ ?_
      rw [find_set]
      split_ifs
      · rfl
      · exact ht
  induction peers generalizing t with
  | nil => cases h
  | cons p peers ih =>
    rcases mem_cons.1 h with rfl | hmem
    · exact hkeep peers _ find_set_self
    · exact ih hmem

variable {o : Outcome}

section

variable (h : Answered hmac opts env sv msg authenticated allocation o)
include h

/-- A request that is refused changes nothing. -/
theorem Answered.refused (hrefused : o.response = [] ∨ classOf o.response = .errorResponse) :
    o.allocation = allocation := by
  rcases h.cases with hsame | ⟨-, hne, ⟨attributes, hresponse⟩, -⟩
  · exact hsame
  · rcases hrefused with hempty | herror
    · exact absurd hempty hne
    · rw [hresponse] at hne herror
      rw [classOf_success hne] at herror
      cases herror

/-- A CreatePermission installs all the peers that it names, or none. -/
theorem Answered.permissions
    (hmethod : msg.method = StunMethod.createPermission) : o.allocation = allocation ∨
      ∃ a peers, allocation = some a ∧
        List.Forall₂ (fun attr peer => decodePeer env msg attr a = .ok peer) (peerAttrs msg.attrs)
          peers ∧
        o.allocation = some { a with permissions := addPermissions env a.permissions peers } ∧
        ∀ peer ∈ peers, (addPermissions env a.permissions peers).find (peerIp peer) =
          some (deadline env.handleMs kPermissionMs) := by
  rcases h.cases with hsame | ⟨hchange, -⟩
  · exact .inl hsame
  · right
    generalize o.allocation = later at hchange ⊢
    cases hchange with
    | refresh a expires method | delete a method | create a method | bind a peer channel method =>
      exact absurd (hmethod.symm.trans method) (by decide)
    | permit a peers method named room =>
      exact ⟨a, peers, rfl, decodePeers_forall₂ named, rfl,
        fun peer hpeer => find_addPermissions_of_mem hpeer⟩

end

/-- A datagram without a success response only lets entries expire. -/
theorem onControl_refused
    (h : ∀ message unauthorized, .response client message unauthorized ∈
      (onControl hmac md5 opts env sv client data).2 → classOf message ≠ .successResponse) :
    (∀ c, (onControl hmac md5 opts env sv client data).1.allocationOf c = sv.allocationOf c) ∨
    ∀ c, (onControl hmac md5 opts env sv client data).1.allocationOf c =
      (sv.prune env.pruneMs).allocationOf c := by
  rcases onControl_cases hmac md5 opts env sv client data with hnone | ⟨hpruned, -⟩ |
    ⟨msg, session, hrequest, hserve⟩
  · exact .inl fun c => by rw [hnone]
  · exact .inr fun c => by rw [hpruned]
  · obtain ⟨session', generation, outputs, heq, hserved⟩ :=
      serve_spec hmac md5 opts env msg data hrequest.allocationOf_prune
    rw [hserve, heq] at h ⊢
    rcases hserved.cases with hsame | ⟨username, message, -, -, -, hout, hclass, -⟩
    · refine .inr fun c => ?_
      rw [Server.allocationOf_set]
      split_ifs with hc
      · rw [hsame, hc, hrequest.allocationOf_prune]
      · rfl
    · exact absurd hclass (h message false (by rw [hout]; exact mem_singleton.2 rfl))

variable (hmac md5 opts) in
/-- In every run the tables stay within the limits, the channels of an allocation are of different
    peers, the peers of an allocation are of its family, and no generation is used twice. A request
    that is not answered with a success response leaves the allocations as `Prune` leaves them, and
    a CreatePermission installs all the peers that it names, or none. -/
theorem tables_stay_within_limits (events : List Event) :
    Limits opts (after hmac md5 opts events) ∧
    (∀ client a, (after hmac md5 opts events).allocationOf client = some a →
      (∃ x ∈ past hmac md5 opts events, Allocates hmac md5 opts x client a) ∧
      (∀ ip expires, a.permissions.find ip = some expires → ip.isV6 = a.advertised.isV6) ∧
      ∀ channel c, a.channels.find channel = some c → c.peer.isV6 = a.advertised.isV6) ∧
    ((past hmac md5 opts events).Pairwise fun x y => ∀ client a client' a',
      Allocates hmac md5 opts x client a → Allocates hmac md5 opts y client' a' →
      a.generation < a'.generation) ∧
    (∀ env client data,
      (∀ message unauthorized, .response client message unauthorized ∈
        (react hmac md5 opts (after hmac md5 opts events) (.control env client data)).2 →
        classOf message ≠ .successResponse) →
      (∀ c, (step hmac md5 opts (after hmac md5 opts events)
          (.control env client data)).allocationOf c =
        (after hmac md5 opts events).allocationOf c) ∨
      ∀ c, (step hmac md5 opts (after hmac md5 opts events)
          (.control env client data)).allocationOf c =
        ((after hmac md5 opts events).prune env.pruneMs).allocationOf c) ∧
    ∀ env sv client allocation msg authenticated data,
      ((handleRequest hmac opts env sv client allocation msg authenticated data).response = [] ∨
        classOf (handleRequest hmac opts env sv client allocation msg authenticated
          data).response = .errorResponse →
        (handleRequest hmac opts env sv client allocation msg authenticated data).allocation =
          allocation) ∧
      (msg.method = StunMethod.createPermission →
        (handleRequest hmac opts env sv client allocation msg authenticated data).allocation =
          allocation ∨
        ∃ a peers, allocation = some a ∧
          List.Forall₂ (fun attr peer => decodePeer env msg attr a = .ok peer)
            (peerAttrs msg.attrs) peers ∧
          (handleRequest hmac opts env sv client allocation msg authenticated data).allocation =
            some { a with permissions := addPermissions env a.permissions peers } ∧
          ∀ peer ∈ peers, (addPermissions env a.permissions peers).find (peerIp peer) =
            some (deadline env.handleMs kPermissionMs)) := by
  refine ⟨after_limits events, fun client a ha => ?_, history_generations _ _,
    fun env client data h => onControl_refused h,
    fun env sv client allocation msg authenticated data => ?_⟩
  · have hback := after_backed events client a ha
    exact ⟨hback.created, fun ip expires hfind => (hback.permissions ip expires hfind).1,
      fun channel c hfind => (hback.channels channel c hfind).1⟩
  · have h := (handleRequest_spec hmac opts env sv client allocation msg authenticated data).1
    exact ⟨h.refused, h.permissions⟩

end Packetia.Turn
