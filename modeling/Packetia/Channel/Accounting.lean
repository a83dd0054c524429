import Packetia.Channel.Invariant

/-!
# The accounts of channels and their budget

The counters of a channel are those of the messages it holds: in the queue, put aside, or not yet
finished by the consumer. Those of the budget are the sums over the channels. As the counters are
exact, they never wrap around.

`Accounts` is about one channel, and gives what the others hold to the budget. Every step keeps it
(`Scope.step_accounts`), and leaves the others alone.
-/

namespace Packetia.Channel

open List Function Channel Multiset

variable {α : Type*}

variable (c : Channel α)

/-- The bytes of messages. -/
def sizes (items : Multiset (Item α)) : ℕ := (items.map fun item => item.bytes.toNat).sum

@[simp] theorem sizes_add (items items' : Multiset (Item α)) :
    sizes (items + items') = sizes items + sizes items' := by
  simp [sizes]

@[simp] theorem sizes_singleton (item : Item α) : sizes {item} = item.bytes.toNat := by
  simp [sizes]

/-- The messages that a channel holds. -/
def Channel.held : Multiset (Item α) := (c.queue : Multiset (Item α)) + c.deferred + c.busy

theorem Channel.held_push (t : Task α) : (c.push t).held = t.items + c.held := by
  rw [held, busy_push, held, push]
  abel

/-- The limits of a channel and of the budget. -/
def Scope.limits (s : Scope α) : (Size × Size) × Size × Size :=
  ((s.channel.maxBytes, s.channel.maxMessages), s.budget.maxBytes, s.budget.maxMessages)

/-- The counters of a channel that holds `held`, and of the budget, of which other channels have
    `others` bytes and messages. -/
structure Accounts (limits : (Size × Size) × Size × Size) (s : Scope α)
    (held : Multiset (Item α)) (others : ℕ × ℕ) : Prop where
  limits_eq : s.limits = limits
  bytes : s.channel.bytes.toNat = sizes held
  messages : s.channel.messages.toNat = held.card
  bytes_le : sizes held ≤ s.channel.maxBytes.toNat
  messages_le : held.card ≤ s.channel.maxMessages.toNat
  budgetBytes : s.budget.bytes.toNat = sizes held + others.1
  budgetMessages : s.budget.messages.toNat = held.card + others.2
  budgetBytes_le : sizes held + others.1 ≤ s.budget.maxBytes.toNat
  budgetMessages_le : held.card + others.2 ≤ s.budget.maxMessages.toNat

namespace Accounts

variable {limits : (Size × Size) × Size × Size} {s s' : Scope α} {held : Multiset (Item α)}
  {others : ℕ × ℕ} {item : Item α}

/-- Only the counters matter. -/
theorem congr (h : Accounts limits s held others) (hbudget : s'.budget = s.budget := by rfl)
    (hbytes : s'.channel.bytes = s.channel.bytes := by rfl)
    (hmessages : s'.channel.messages = s.channel.messages := by rfl)
    (hmaxBytes : s'.channel.maxBytes = s.channel.maxBytes := by rfl)
    (hmaxMessages : s'.channel.maxMessages = s.channel.maxMessages := by rfl) :
    Accounts limits s' held others := by
  constructor
  · rw [← h.limits_eq, Scope.limits, Scope.limits, hbudget, hmaxBytes, hmaxMessages]
  · rw [hbytes]
    exact h.bytes
  · rw [hmessages]
    exact h.messages
  · rw [hmaxBytes]
    exact h.bytes_le
  · rw [hmaxMessages]
    exact h.messages_le
  · rw [hbudget]
    exact h.budgetBytes
  · rw [hbudget]
    exact h.budgetMessages
  · rw [hbudget]
    exact h.budgetBytes_le
  · rw [hbudget]
    exact h.budgetMessages_le

theorem toNat_sub_add {x y : Size} {n : ℕ} (h : x.toNat = y.toNat + n) : (x - y).toNat = n := by
  rw [BitVec.toNat_sub_of_le (by rw [BitVec.le_def]; omega), h, Nat.add_sub_cancel_left]

/-- The checks of `Send` and `Reserve`, of bytes and of messages. -/
theorem toNat_add_of_room {x n limit : Size} (hx : x.toNat ≤ limit.toNat)
    (h : ¬n > limit - x) : (x + n).toNat = x.toNat + n.toNat ∧ (x + n).toNat ≤ limit.toNat := by
  rw [gt_iff_lt, BitVec.lt_def, BitVec.toNat_sub_of_le (by rw [BitVec.le_def]; exact hx)] at h
  have hadd : (x + n).toNat = x.toNat + n.toNat := by
    rw [BitVec.toNat_add, Nat.mod_eq_of_lt (by omega)]
  exact ⟨hadd, by omega⟩

theorem toNat_add_one_of_room {x limit : Size} (h : ¬x ≥ limit) :
    (x + 1).toNat = x.toNat + 1 ∧ (x + 1).toNat ≤ limit.toNat := by
  rw [ge_iff_le, BitVec.le_def] at h
  have hadd : (x + 1).toNat = x.toNat + 1 := by
    rw [BitVec.toNat_add, show (1 : Size).toNat = 1 from rfl, Nat.mod_eq_of_lt (by omega)]
  exact ⟨hadd, by omega⟩

/-- A message leaves. -/
theorem release (h : Accounts limits s ({item} + held) others) :
    Accounts limits (s.release item) held others := by
  obtain ⟨h₀, h₁, h₂, h₃, h₄, h₅, h₆, h₇, h₈⟩ := h
  rw [sizes_add, sizes_singleton] at h₁ h₃ h₅ h₇
  rw [card_add, card_singleton] at h₂ h₄ h₆ h₈
  rw [Nat.add_assoc] at h₅ h₆
  refine ⟨h₀, toNat_sub_add h₁, toNat_sub_add h₂, ?_, ?_, toNat_sub_add h₅, toNat_sub_add h₆, ?_,
    ?_⟩
  · exact le_trans (Nat.le_add_left ..) h₃
  · exact le_trans (Nat.le_add_left ..) h₄
  · exact le_trans (Nat.add_le_add_right (Nat.le_add_left ..) _) h₇
  · exact le_trans (Nat.add_le_add_right (Nat.le_add_left ..) _) h₈

theorem foldl_release {l : List (Item α)} (h : Accounts limits s (↑l + held) others) :
    Accounts limits (l.foldl Scope.release s) held others := by
  induction l generalizing s with
  | nil => simpa using h
  | cons item rest ih =>
    refine ih (release ?_)
    rwa [← cons_coe, ← singleton_add, add_assoc] at h

/-- A message that the limits leave room for comes in. -/
theorem enqueue (h : Accounts limits s held others) {budget : ChannelBudget} {channel : Channel α}
    (hlimits : ¬(s.channel.messages ≥ s.channel.maxMessages ∨
      item.bytes > s.channel.maxBytes - s.channel.bytes))
    (hreserve : s.budget.reserve item.bytes = some budget)
    (hbytes : channel.bytes = s.channel.bytes + item.bytes)
    (hmessages : channel.messages = s.channel.messages + 1)
    (hmaxBytes : channel.maxBytes = s.channel.maxBytes)
    (hmaxMessages : channel.maxMessages = s.channel.maxMessages) :
    Accounts limits { budget, channel } (held + {item}) others := by
  obtain ⟨h₀, h₁, h₂, h₃, h₄, h₅, h₆, h₇, h₈⟩ := h
  rw [ChannelBudget.reserve] at hreserve
  split_ifs at hreserve with hroom
  cases hreserve
  rw [not_or] at hlimits hroom
  obtain ⟨hm, hm'⟩ := toNat_add_one_of_room hlimits.1
  obtain ⟨hb, hb'⟩ := toNat_add_of_room (by omega) hlimits.2
  obtain ⟨hM, hM'⟩ := toNat_add_one_of_room hroom.1
  obtain ⟨hB, hB'⟩ := toNat_add_of_room (by omega) hroom.2
  have hsizes : sizes (held + {item}) = sizes held + item.bytes.toNat := by
    rw [sizes_add, sizes_singleton]
  have hcard : (held + {item}).card = held.card + 1 := by
    rw [card_add, card_singleton]
  constructor
  · rw [← h₀, Scope.limits, Scope.limits, hmaxBytes, hmaxMessages]
  · rw [hbytes]
    omega
  · rw [hmessages]
    omega
  · rw [hmaxBytes]
    omega
  · rw [hmaxMessages]
    omega
  all_goals
    dsimp only
    omega

end Accounts

/-- A message that could not be stored is given back. -/
theorem ChannelBudget.release_reserve {b b' : ChannelBudget} {bytes : Size}
    (h : b.reserve bytes = some b') : b'.release bytes = b := by
  rw [reserve] at h
  split_ifs at h
  cases h
  rw [release]
  simp

namespace Scope

variable {limits : (Size × Size) × Size × Size} {s : Scope α} {others : ℕ × ℕ}

section

variable (h : Accounts limits s s.channel.held others)
include h

theorem stop_accounts (status : ChannelResult) :
    Accounts limits (s.stop status) (s.stop status).channel.held others := by
  rw [stop]
  split_ifs
  · exact h
  · obtain ⟨bytes, messages, heq⟩ := foldl_release_channel
      (s.channel.queue ++ s.channel.deferred) { s with channel := { s.channel with status } }
    have hstart : Accounts limits { s with channel := { s.channel with status } }
        (↑(s.channel.queue ++ s.channel.deferred) + s.channel.busy) others := by
      rw [← coe_add]
      exact h.congr
    have hheld : held (note { ((s.channel.queue ++ s.channel.deferred).foldl release
        { s with channel := { s.channel with status } }).channel with
          queue := [], deferred := [] } .stopped) = s.channel.busy := by
      rw [heq]
      exact (congrArg (· + _) (add_zero _)).trans (zero_add _)
    rw [hheld]
    exact hstart.foldl_release.congr

omit h in
theorem enqueue_held (item : Item α) (delivery : ChannelDelivery) :
    (c.enqueue item delivery).held = c.held + {item} := by
  obtain ⟨queue, deferred, ready, heq, hitems⟩ := enqueue_spec c item delivery
  rw [heq, held, held]
  rw [hitems, add_right_comm]
  rfl

omit h in
theorem wake_held : c.wake.held = c.held := by
  rw [wake]
  split_ifs
  · rw [held_push, Task.items, zero_add]
    rfl
  · rfl

omit h in
theorem wake_counters : c.wake.bytes = c.bytes ∧ c.wake.messages = c.messages ∧
    c.wake.maxBytes = c.maxBytes ∧ c.wake.maxMessages = c.maxMessages := by
  rw [wake]
  split_ifs <;> exact ⟨rfl, rfl, rfl, rfl⟩

theorem send_accounts (message : α) (bytes : Size) (delivery : ChannelDelivery) (stored : Bool) :
    Accounts limits (s.send message bytes delivery stored)
      (s.send message bytes delivery stored).channel.held others := by
  rw [send]
  split
  · exact h.congr
  split
  · exact h.congr
  rename_i hlimits
  cases hreserve : s.budget.reserve bytes with
  | none => exact h.congr
  | some budget =>
    cases stored with
    | false => exact h.congr (ChannelBudget.release_reserve hreserve)
    | true =>
      obtain ⟨item, hitem⟩ : ∃ item : Item α, item = { message, bytes } := ⟨_, rfl⟩
      obtain ⟨queue, deferred, ready, heq, -⟩ := enqueue_spec s.channel item delivery
      obtain ⟨hb, hm, hB, hM⟩ := wake_counters (s.channel.enqueue item delivery)
      rw [heq] at hb hm hB hM
      dsimp only
      rw [if_neg (by decide), ← hitem, wake_held, enqueue_held]
      subst hitem
      exact h.enqueue hlimits hreserve (by rw [heq, hb]) (by rw [heq, hm]) (by rw [heq, hB])
        (by rw [heq, hM])

/-- A message that is taken out of the queue is still held. -/
theorem take_accounts (batch : ℕ) :
    Accounts limits (s.take batch) (s.take batch).channel.held others := by
  rw [take]
  split_ifs
  · exact h.congr
  cases hqueue : s.channel.queue with
  | nil =>
    dsimp only
    rw [← hqueue]
    exact h.congr
  | cons item rest =>
    have hheld : s.channel.held = (rest : Multiset (Item α)) + s.channel.deferred +
        (s.channel.busy + {item}) := by
      rw [held, hqueue, ← cons_coe, ← singleton_add]
      abel
    rw [hheld] at h
    dsimp only
    split_ifs
    · refine Accounts.congr (s := s) ?_
      rw [held_push, Task.items, zero_add]
      convert h using 1
      exact congrArg (_ + ·) (busy_closure _ item)
    · refine Accounts.congr (s := s) ?_
      rw [held_push, Task.items]
      convert h using 1
      rw [← add_assoc]
      exact add_comm ({item} : Multiset (Item α)) _

omit h in
theorem finish_accounts {batch : ℕ} {item : Item α}
    (h : Accounts limits s (s.channel.push (.consume batch item)).held others) (ok : Bool) :
    Accounts limits (s.finish batch item ok) (s.finish batch item ok).channel.held others := by
  rw [held_push, Task.items] at h
  have hheld : ∀ t : Task α, t.items = 0 →
      (((s.release item).channel.note (.finished item)).push t).held = s.channel.held := by
    intro t ht
    rw [held_push, ht, zero_add]
    rfl
  rw [finish]
  split_ifs
  all_goals
    rw [hheld _ rfl]
    exact h.release.congr

theorem complete_accounts (k : ℕ) :
    Accounts limits (s.complete k) (s.complete k).channel.held others := by
  rw [complete]
  cases hclosure : s.channel.closures[k]? with
  | none => exact h
  | some closure =>
    dsimp only
    by_cases hcompleted : closure.completed = true
    · rw [if_pos hcompleted]
      exact h
    rw [if_neg hcompleted]
    have hheld : s.channel.held = {closure.item} + held { s.channel with
        closures := s.channel.closures.set k { closure with completed := true } } := by
      rw [held, held, busy, busy, sum_items_complete hclosure hcompleted]
      abel
    rw [hheld] at h
    split_ifs
    · rw [held_push, Task.items, zero_add]
      exact h.release.congr
    · exact h.release.congr

omit h in
theorem advance_accounts {t : Task α} (h : Accounts limits s (s.channel.push t).held others)
    (ok : Bool) : Accounts limits (s.advance ok t) (s.advance ok t).channel.held others := by
  have hpush : ∀ t' : Task α, t'.items = t.items →
      Accounts limits { s with channel := s.channel.push t' } (s.channel.push t').held others := by
    intro t' ht'
    rw [held_push, ht', ← held_push]
    exact h.congr
  have hdrop : t.items = 0 → Accounts limits s s.channel.held others := by
    intro ht
    rwa [held_push, ht, zero_add] at h
  cases t with
  | post sending =>
    cases ok with
    | false => exact hpush _ rfl
    | true =>
      cases sending with
      | false => exact hpush .posted rfl
      | true => exact (hpush .posted rfl).congr
  | stop sending =>
    have hstop := stop_accounts (hdrop rfl) .cancelled
    cases sending with
    | false => exact hstop
    | true => exact hstop.congr
  | unwind k =>
    have hstop := stop_accounts (hdrop rfl) .cancelled
    rw [advance, held_push, Task.items, zero_add]
    exact hstop.congr
  | complete k => exact complete_accounts (hdrop rfl) k
  | posted => exact hpush _ rfl
  | pump batch => exact take_accounts (hdrop rfl) batch
  | consume batch item => exact finish_accounts h ok
  | async k =>
    cases ok with
    | false => exact hpush _ rfl
    | true => exact hdrop rfl

theorem step_accounts (e : Step α) : Accounts limits (s.step e) (s.step e).channel.held others := by
  cases e with
  | send message bytes delivery stored => exact send_accounts h message bytes delivery stored
  | close => exact stop_accounts h .closed
  | cancel => exact stop_accounts h .cancelled
  | resetGate => exact h.congr
  | complete k => exact complete_accounts h k
  | resume i ok =>
    rw [step, resume]
    cases ht : s.channel.tasks[i]? with
    | none => exact h
    | some t =>
      have hheld : (push { s.channel with tasks := s.channel.tasks.eraseIdx i } t).held =
          s.channel.held := by
        rw [held_push, held, held, busy, busy, sum_map_eraseIdx _ ht]
        abel
      have herase : Accounts limits { s with
          channel := { s.channel with tasks := s.channel.tasks.eraseIdx i } }
          (push { s.channel with tasks := s.channel.tasks.eraseIdx i } t).held others := by
        rw [hheld]
        exact h.congr
      exact advance_accounts herase ok

end

end Scope

/-! ## Runs -/

namespace System

variable {ι : Type*} {maxBytes maxMessages : Size} {cfg : ι → Config}

/-- A new channel is empty. -/
theorem start_inv (i : ι) : Inv ((start (α := α) maxBytes maxMessages cfg).channels i) where
  tokens_le := Nat.zero_le 1
  unscheduled _ := rfl
  carried := nofun
  queued _ hne := absurd rfl hne
  consumed := rfl
  accepted := le_rfl
  running _ := not_mem_nil
  inTurn := eachAfter_nil

variable [DecidableEq ι] {s : System ι α}

theorem step_inv (h : ∀ i, Inv (s.channels i)) (e : ι × Step α) :
    ∀ i, Inv ((s.step e).channels i) := by
  rw [step]
  exact (forall_update_iff _ fun _ c => Inv c).2 ⟨Scope.step_inv (h e.1) e.2, fun j _ => h j⟩

theorem after_inv (steps : List (ι × Step α)) (i : ι) :
    Inv ((after maxBytes maxMessages cfg steps).channels i) :=
  run_induction (P := fun _ (s : System ι α) => ∀ i, Inv (s.channels i)) start_inv
    (fun _ e h => step_inv h e) steps i

variable [Fintype ι]

/-- The counters of the channels and of the budget are exact and within their limits, which stay
    as they are. -/
structure Balanced (maxBytes maxMessages : Size) (cfg : ι → Config) (s : System ι α) : Prop where
  limits : ∀ i, (s.channels i).maxBytes = (cfg i).maxBytes ∧
    (s.channels i).maxMessages = (cfg i).maxMessages
  bytes : ∀ i, (s.channels i).bytes.toNat = sizes (s.channels i).held
  messages : ∀ i, (s.channels i).messages.toNat = (s.channels i).held.card
  bytes_le : ∀ i, (s.channels i).bytes.toNat ≤ (cfg i).maxBytes.toNat
  messages_le : ∀ i, (s.channels i).messages.toNat ≤ (cfg i).maxMessages.toNat
  budgetLimits : s.budget.maxBytes = maxBytes ∧ s.budget.maxMessages = maxMessages
  budgetBytes : s.budget.bytes.toNat = ∑ i, (s.channels i).bytes.toNat
  budgetMessages : s.budget.messages.toNat = ∑ i, (s.channels i).messages.toNat
  budgetBytes_le : s.budget.bytes.toNat ≤ maxBytes.toNat
  budgetMessages_le : s.budget.messages.toNat ≤ maxMessages.toNat

omit [DecidableEq ι] in
/-- Nothing is held at the start. -/
theorem start_balanced :
    Balanced maxBytes maxMessages cfg (start (α := α) maxBytes maxMessages cfg) where
  limits _ := ⟨rfl, rfl⟩
  bytes _ := rfl
  messages _ := rfl
  bytes_le _ := Nat.zero_le _
  messages_le _ := Nat.zero_le _
  budgetLimits := ⟨rfl, rfl⟩
  budgetBytes := by simp [start, Config.channel]
  budgetMessages := by simp [start, Config.channel]
  budgetBytes_le := Nat.zero_le _
  budgetMessages_le := Nat.zero_le _

/-- What the channels other than `i` hold. -/
def others (s : System ι α) (i : ι) : ℕ × ℕ :=
  (∑ j ∈ Finset.univ.erase i, (s.channels j).bytes.toNat,
    ∑ j ∈ Finset.univ.erase i, (s.channels j).messages.toNat)

theorem sum_channels (f : Channel α → ℕ) (channels : ι → Channel α) (i : ι) (c : Channel α) :
    ∑ j, f (update channels i c j) = f c + ∑ j ∈ Finset.univ.erase i, f (channels j) := by
  rw [← Finset.add_sum_erase Finset.univ _ (Finset.mem_univ i), update_self]
  refine congrArg (f c + ·) (Finset.sum_congr rfl fun j hj => ?_)
  rw [update_of_ne (Finset.ne_of_mem_erase hj)]

theorem Balanced.accounts (h : Balanced maxBytes maxMessages cfg s) (i : ι) :
    Accounts (((cfg i).maxBytes, (cfg i).maxMessages), maxBytes, maxMessages)
      { budget := s.budget, channel := s.channels i } (s.channels i).held (s.others i) := by
  have hsum (f : Channel α → ℕ) := sum_channels f s.channels i (s.channels i)
  simp only [update_eq_self] at hsum
  have hbytes := h.budgetBytes
  have hmessages := h.budgetMessages
  rw [hsum fun c => c.bytes.toNat, h.bytes i] at hbytes
  rw [hsum fun c => c.messages.toNat, h.messages i] at hmessages
  refine ⟨?_, h.bytes i, h.messages i, ?_, ?_, hbytes, hmessages, ?_, ?_⟩
  · rw [Scope.limits, (h.limits i).1, (h.limits i).2, h.budgetLimits.1, h.budgetLimits.2]
  · rw [← h.bytes i, (h.limits i).1]
    exact h.bytes_le i
  · rw [← h.messages i, (h.limits i).2]
    exact h.messages_le i
  · rw [h.budgetLimits.1]
    exact hbytes ▸ h.budgetBytes_le
  · rw [h.budgetLimits.2]
    exact hmessages ▸ h.budgetMessages_le

theorem step_balanced (h : Balanced maxBytes maxMessages cfg s)
    (e : ι × Step α) : Balanced maxBytes maxMessages cfg (s.step e) := by
  obtain ⟨i, e⟩ := e
  have hnew := Scope.step_accounts (h.accounts i) e
  rw [step]
  generalize Scope.step { budget := s.budget, channel := s.channels i } e = scope at hnew ⊢
  have hlimits := hnew.limits_eq
  rw [Scope.limits, Prod.mk.injEq, Prod.mk.injEq, Prod.mk.injEq] at hlimits
  obtain ⟨⟨hB, hM⟩, hbB, hbM⟩ := hlimits
  -- What holds of the new channel and of all others holds of all channels.
  have hall (P : ι → Channel α → Prop) (hi : P i scope.channel) (hj : ∀ j, P j (s.channels j)) :
      ∀ j, P j (update s.channels i scope.channel j) :=
    (forall_update_iff _ P).2 ⟨hi, fun j _ => hj j⟩
  exact {
    limits := hall (fun j c => c.maxBytes = (cfg j).maxBytes ∧ c.maxMessages = (cfg j).maxMessages)
      ⟨hB, hM⟩ h.limits
    bytes := hall (fun _ c => c.bytes.toNat = sizes c.held) hnew.bytes h.bytes
    messages := hall (fun _ c => c.messages.toNat = c.held.card) hnew.messages h.messages
    bytes_le := hall (fun j c => c.bytes.toNat ≤ (cfg j).maxBytes.toNat)
      (hnew.bytes ▸ hB ▸ hnew.bytes_le) h.bytes_le
    messages_le := hall (fun j c => c.messages.toNat ≤ (cfg j).maxMessages.toNat)
      (hnew.messages ▸ hM ▸ hnew.messages_le) h.messages_le
    budgetLimits := ⟨hbB, hbM⟩
    budgetBytes := by
      rw [sum_channels fun c => c.bytes.toNat, hnew.bytes]
      exact hnew.budgetBytes
    budgetMessages := by
      rw [sum_channels fun c => c.messages.toNat, hnew.messages]
      exact hnew.budgetMessages
    budgetBytes_le := hnew.budgetBytes ▸ hbB ▸ hnew.budgetBytes_le
    budgetMessages_le := hnew.budgetMessages ▸ hbM ▸ hnew.budgetMessages_le }

theorem after_balanced (steps : List (ι × Step α)) :
    Balanced maxBytes maxMessages cfg (after maxBytes maxMessages cfg steps) :=
  run_induction (P := fun _ s => Balanced maxBytes maxMessages cfg s) start_balanced
    (fun _ e h => step_balanced h e) steps

end System

/-! ## Wake-ups -/

/-- A pump has been posted or is running, or a completion is outstanding. -/
def Channel.Pumping : Prop :=
  (∃ t ∈ c.tasks,
    t = .posted ∨ (∃ batch, t = .pump batch) ∨ ∃ batch item, t = .consume batch item) ∨
    ∃ closure ∈ c.closures, closure.completed = false

/-- Something keeps the channel going. -/
theorem Channel.pumping_of_tokens {c : Channel α} (h : c.tokens = 1) :
    c.Pumping ∨ ∃ sending, Task.post sending ∈ c.tasks := by
  by_contra hno
  rw [not_or, Pumping, not_or] at hno
  obtain ⟨⟨htasks, hclosures⟩, hpost⟩ := hno
  have htoken : (c.tasks.map Task.token).sum = 0 := by
    refine sum_eq_zero fun n hn => ?_
    obtain ⟨t, ht, rfl⟩ := mem_map.1 hn
    cases t with
    | post sending => exact absurd ⟨sending, ht⟩ hpost
    | posted => exact absurd ⟨_, ht, .inl rfl⟩ htasks
    | pump batch => exact absurd ⟨_, ht, .inr (.inl ⟨batch, rfl⟩)⟩ htasks
    | consume batch item => exact absurd ⟨_, ht, .inr (.inr ⟨batch, item, rfl⟩)⟩ htasks
    | stop sending | unwind k | complete k | async k => rfl
  have hitems : (c.closures.map Closure.items).sum = 0 := by
    refine sum_eq_zero fun items hitems => ?_
    obtain ⟨closure, hmem, rfl⟩ := mem_map.1 hitems
    rw [Closure.items, if_pos]
    by_contra hc
    exact hclosures ⟨closure, hmem, Bool.eq_false_iff.2 hc⟩
  rw [tokens, htoken, hitems, card_zero] at h
  omega

namespace System

variable {ι : Type*} [DecidableEq ι] [Fintype ι]

/-- The accounts are exact, messages are consumed in turn, none of them twice and none after the
    channel was stopped, and a channel that has something in its queue is looked after: by a pump,
    a completion, or a call that is about to post a pump or to stop the channel. -/
theorem channels_account_exactly (maxBytes maxMessages : Size) (cfg : ι → Config)
    (steps : List (ι × Step α)) :
    Balanced maxBytes maxMessages cfg (after maxBytes maxMessages cfg steps) ∧
    ∀ i, consumedIn ((after maxBytes maxMessages cfg steps).channels i).log ≤
        acceptedIn ((after maxBytes maxMessages cfg steps).channels i).log ∧
      EachAfter InTurn ((after maxBytes maxMessages cfg steps).channels i).log ∧
      (((after maxBytes maxMessages cfg steps).channels i).status = .accepted →
        ((after maxBytes maxMessages cfg steps).channels i).queue ≠ [] →
        ((after maxBytes maxMessages cfg steps).channels i).Pumping ∨
          ∃ sending, .post sending ∈ ((after maxBytes maxMessages cfg steps).channels i).tasks ∨
            .stop sending ∈ ((after maxBytes maxMessages cfg steps).channels i).tasks) := by
  refine ⟨after_balanced steps, fun i => ?_⟩
  have hinv : Inv ((after maxBytes maxMessages cfg steps).channels i) := after_inv steps i
  refine ⟨(le_add_right _ _).trans hinv.accepted, hinv.inTurn, fun hstatus hqueue => ?_⟩
  rcases hinv.carried hstatus (hinv.queued hstatus hqueue) with htokens | ⟨sending, hstop⟩
  · rcases pumping_of_tokens htokens with hpumping | ⟨sending, hpost⟩
    · exact .inl hpumping
    · exact .inr ⟨sending, .inl hpost⟩
  · exact .inr ⟨sending, .inr hstop⟩

/-- Between the locked section of `Send` and its post nothing is under way yet. -/
theorem sent_before_post :
    ∃ (cfg : Unit → Config) (steps : List (Unit × Step ℕ)),
      ((after 1 1 cfg steps).channels ()).status = .accepted ∧
      ((after 1 1 cfg steps).channels ()).queue ≠ [] ∧
      ¬((after 1 1 cfg steps).channels ()).Pumping ∧
      ∀ k, .async k ∉ ((after 1 1 cfg steps).channels ()).tasks := by
  refine ⟨fun _ => ⟨false, 1, 1, false⟩, [((), .send 0 0 .ready true)], rfl, cons_ne_nil _ _,
    ?_, ?_⟩
  · have htasks : ((after 1 1 (fun _ => ⟨false, 1, 1, false⟩)
        [((), Step.send 0 0 .ready true)]).channels ()).tasks = [Task.post true] := rfl
    have hclosures : ((after 1 1 (fun _ => ⟨false, 1, 1, false⟩)
        [((), Step.send 0 0 .ready true)]).channels ()).closures = [] := rfl
    rw [Channel.Pumping, htasks, hclosures]
    simp
  · intro k hk
    cases hk with
    | tail _ hk => cases hk

end System

end Packetia.Channel
