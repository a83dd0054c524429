import Packetia.Channel.Bounded

/-!
# One pump at a time

`Schedule` is called by the one that sets `scheduled`. From then on there is one task that keeps
the channel going, the token: it posts, waits in the executor, runs, or waits for a completion,
until a pump finds nothing to do and takes `scheduled` back. `Inv` says so, and what follows for
the messages: they are handed to the consumer one after the other, none of them twice, and none
once the channel has been stopped.

The tasks and the completions of a channel are counted by sums over their lists, so that it does
not matter in which order they stand.
-/

namespace Packetia.Channel

open List Channel Event Task
open Multiset (card_add card_eq_zero coe_add coe_nil coe_singleton zero_le)

variable {α : Type*}

/-! ## Counting -/

variable (log : List (Event α)) (e : Event α)

section Sums

variable {β M : Type*} [AddCommMonoid M] {l : List β} {x : β} {i : ℕ}

theorem sum_map_eraseIdx (f : β → M) (h : l[i]? = some x) :
    (l.map f).sum = f x + ((l.eraseIdx i).map f).sum := by
  obtain ⟨hi, rfl⟩ := List.getElem?_eq_some_iff.1 h
  exact ((getElem_cons_eraseIdx_perm hi).map f).sum_eq.symm

theorem sum_map_set (f : β → M) (h : l[i]? = some x) (y : β) :
    ((l.set i y).map f).sum = f y + ((l.eraseIdx i).map f).sum := by
  obtain ⟨hi, -⟩ := List.getElem?_eq_some_iff.1 h
  exact ((set_perm_cons_eraseIdx hi y).map f).sum_eq

end Sums

/-- Whether the task keeps the channel going. -/
def Task.token : Task α → ℕ
  | .post _ | .posted | .pump _ | .consume _ _ => 1
  | .stop _ | .unwind _ | .complete _ | .async _ => 0

/-- The message that a pump waits for. -/
def Task.items : Task α → Multiset (Item α)
  | .consume _ item => {item}
  | .post _ | .posted | .pump _ | .stop _ | .unwind _ | .complete _ | .async _ => 0

theorem Task.card_items_le (t : Task α) : t.items.card ≤ t.token := by
  cases t <;> simp [items, token]

theorem Task.items_eq_zero {t : Task α} (h : t.token = 0) : t.items = 0 :=
  card_eq_zero.1 (Nat.le_zero.1 (h ▸ t.card_items_le))

/-- The message that has not been completed. -/
def Closure.items (closure : Closure α) : Multiset (Item α) :=
  if closure.completed then 0 else {closure.item}

namespace Channel

variable (c : Channel α)

/-- The messages that the consumer has not finished. -/
def busy : Multiset (Item α) := (c.tasks.map items).sum + (c.closures.map Closure.items).sum

/-- The number of tasks and completions that keep the channel going. -/
def tokens : ℕ := (c.tasks.map token).sum + (c.closures.map Closure.items).sum.card

/-- A call is about to stop the channel. -/
def Stopping : Prop := ∃ sending, stop sending ∈ c.tasks

theorem tokens_push (t : Task α) : (c.push t).tokens = t.token + c.tokens := by
  simp only [tokens, push, map_cons, sum_cons, Nat.add_assoc]

theorem busy_push (t : Task α) : (c.push t).busy = t.items + c.busy := by
  simp only [busy, push, map_cons, sum_cons, add_assoc]

theorem stopping_push {t : Task α} (h : c.Stopping) : (c.push t).Stopping := by
  obtain ⟨sending, hmem⟩ := h
  exact ⟨sending, mem_cons_of_mem _ hmem⟩

/-- A message is handed to an asynchronous consumer. -/
theorem tokens_closure (item : Item α) : tokens { c with
    closures := c.closures ++ [{ item, completed := false }] } = c.tokens + 1 := by
  simp [tokens, Closure.items, Nat.add_assoc]

theorem busy_closure (item : Item α) : busy { c with
    closures := c.closures ++ [{ item, completed := false }] } = c.busy + {item} := by
  simp [busy, Closure.items, add_assoc]

theorem card_busy_le : c.busy.card ≤ c.tokens := by
  have htasks : ((c.tasks.map items).sum).card ≤ (c.tasks.map token).sum := by
    induction c.tasks with
    | nil => simp
    | cons t rest ih =>
      have ht := t.card_items_le
      rw [map_cons, sum_cons, map_cons, sum_cons, card_add]
      omega
  rw [busy, tokens, card_add]
  omega

theorem busy_eq_zero {c : Channel α} (h : c.tokens = 0) : c.busy = 0 :=
  card_eq_zero.1 (Nat.le_zero.1 (h ▸ c.card_busy_le))

end Channel

/-! ## The log -/

def Event.acceptedItem : Event α → Multiset (Item α)
  | .accepted item => {item}
  | .returned _ | .consumed _ | .finished _ | .stopped => 0

def Event.consumedItem : Event α → Multiset (Item α)
  | .consumed item => {item}
  | .accepted _ | .returned _ | .finished _ | .stopped => 0

def Event.finishedItem : Event α → Multiset (Item α)
  | .finished item => {item}
  | .accepted _ | .returned _ | .consumed _ | .stopped => 0

/-- The messages that have been accepted, handed to the consumer, and finished. -/
def acceptedIn : Multiset (Item α) := (log.map acceptedItem).sum

def consumedIn : Multiset (Item α) := (log.map consumedItem).sum

def finishedIn : Multiset (Item α) := (log.map finishedItem).sum

@[simp] theorem acceptedIn_concat : acceptedIn (log ++ [e]) = acceptedIn log + e.acceptedItem := by
  simp [acceptedIn]

@[simp] theorem consumedIn_concat : consumedIn (log ++ [e]) = consumedIn log + e.consumedItem := by
  simp [consumedIn]

@[simp] theorem finishedIn_concat : finishedIn (log ++ [e]) = finishedIn log + e.finishedItem := by
  simp [finishedIn]

/-- A message is handed to the consumer when all before it have been finished and the channel has
    not been stopped. -/
def InTurn : Prop := ∀ item, e = .consumed item → finishedIn log = consumedIn log ∧ stopped ∉ log

/-! ## The invariant -/

structure Inv (c : Channel α) : Prop where
  tokens_le : c.tokens ≤ 1
  unscheduled : c.scheduled = false → c.tokens = 0
  carried : c.status = .accepted → c.scheduled = true → c.tokens = 1 ∨ c.Stopping
  queued : c.status = .accepted → c.queue ≠ [] → c.scheduled = true
  consumed : consumedIn c.log = finishedIn c.log + c.busy
  accepted : consumedIn c.log + (↑c.queue + ↑c.deferred) ≤ acceptedIn c.log
  running : c.status = .accepted → stopped ∉ c.log
  inTurn : EachAfter InTurn c.log

namespace Inv

variable {c c' : Channel α} {t t' : Task α}

/-- What the invariant depends on. -/
theorem transfer (h : Inv c) (htokens : c'.tokens = c.tokens) (hbusy : c'.busy = c.busy)
    (hstopping : c.Stopping → c'.Stopping) (hscheduled : c'.scheduled = c.scheduled := by rfl)
    (hstatus : c'.status = c.status := by rfl) (hqueue : c'.queue = c.queue := by rfl)
    (hdeferred : c'.deferred = c.deferred := by rfl) (hlog : c'.log = c.log := by rfl) :
    Inv c' := by
  constructor
  · rw [htokens]
    exact h.tokens_le
  · rw [htokens, hscheduled]
    exact h.unscheduled
  · rw [htokens, hscheduled, hstatus]
    exact fun hs hsched => (h.carried hs hsched).imp_right hstopping
  · rw [hstatus, hqueue, hscheduled]
    exact h.queued
  · rw [hlog, hbusy]
    exact h.consumed
  · rw [hlog, hqueue, hdeferred]
    exact h.accepted
  · rw [hlog, hstatus]
    exact h.running
  · rw [hlog]
    exact h.inTurn

/-- The order of the tasks does not matter. -/
theorem of_eraseIdx {i : ℕ} (h : Inv c) (ht : c.tasks[i]? = some t) :
    Inv (push { c with tasks := c.tasks.eraseIdx i } t) := by
  refine h.transfer ?_ ?_ ?_
  · rw [tokens_push, tokens, tokens, sum_map_eraseIdx _ ht, Nat.add_assoc]
  · rw [busy_push, busy, busy, sum_map_eraseIdx _ ht, add_assoc]
  · rintro ⟨sending, hmem⟩
    obtain ⟨hi, rfl⟩ := List.getElem?_eq_some_iff.1 ht
    exact ⟨sending, (getElem_cons_eraseIdx_perm hi).mem_iff.2 hmem⟩

/-- A task becomes another one, which keeps the channel going if it did. -/
theorem replace (h : Inv (c.push t)) (htoken : t'.token = t.token) (hitems : t'.items = t.items)
    (hstop : ∀ sending, t ≠ .stop sending) : Inv (c.push t') := by
  refine h.transfer ?_ ?_ ?_
  · rw [tokens_push, htoken, tokens_push]
  · rw [busy_push, hitems, busy_push]
  · rintro ⟨sending, hmem⟩
    exact c.stopping_push ⟨sending, (mem_cons.1 hmem).resolve_left (hstop sending).symm⟩

/-- A task that does not keep the channel going ends. -/
theorem drop (h : Inv (c.push t)) (htoken : t.token = 0)
    (hstop : ∀ sending, t ≠ .stop sending) : Inv c := by
  refine h.transfer ?_ ?_ ?_
  · rw [tokens_push, htoken, Nat.zero_add]
  · rw [busy_push, items_eq_zero htoken, zero_add]
  · rintro ⟨sending, hmem⟩
    exact ⟨sending, (mem_cons.1 hmem).resolve_left (hstop sending).symm⟩

/-- A new task that does not keep the channel going. -/
theorem spawn (h : Inv c) (htoken : t.token = 0) : Inv (c.push t) := by
  refine h.transfer ?_ ?_ c.stopping_push
  · rw [tokens_push, htoken, Nat.zero_add]
  · rw [busy_push, items_eq_zero htoken, zero_add]

/-- An event that is not about a message. -/
theorem returned (h : Inv c) (r : ChannelResult) : Inv (c.note (.returned r)) :=
  { h with
    consumed := by
      rw [note, consumedIn_concat, finishedIn_concat, h.consumed]
      simp [consumedItem, finishedItem, busy]
    accepted := by
      rw [note, consumedIn_concat, acceptedIn_concat]
      simpa [consumedItem, acceptedItem] using h.accepted
    running := fun hstatus => by simpa [note] using h.running hstatus
    inTurn := h.inTurn.concat fun item he => by cases he }

/-- Refused by the executor, or by the consumer: the channel is to be stopped. -/
theorem give_up (h : Inv (c.push t)) (hitems : t.items = 0) (sending : Bool) :
    Inv (c.push (.stop sending)) where
  tokens_le := by
    have htokens := h.tokens_le
    rw [tokens_push] at htokens ⊢
    rw [token]
    omega
  unscheduled hs := by
    have htokens := h.unscheduled hs
    rw [tokens_push] at htokens ⊢
    rw [token]
    omega
  carried _ _ := .inr ⟨sending, mem_cons_self⟩
  queued := h.queued
  consumed := by
    have hconsumed := h.consumed
    rw [busy_push, hitems] at hconsumed
    rwa [busy_push]
  accepted := h.accepted
  running := h.running
  inTurn := h.inTurn

/-- A channel that has been stopped needs nothing to keep it going. -/
theorem stopped (h : Inv (c.push t)) (htoken : t.token = 0) (htasks : c'.tasks = c.tasks)
    (hclosures : c'.closures = c.closures) (hscheduled : c'.scheduled = c.scheduled)
    (hstatus : c'.status ≠ .accepted)
    (hqueue : (c'.queue : Multiset (Item α)) + c'.deferred ≤ c.queue + c.deferred)
    (hlog : c'.log = c.log ∨ c'.log = c.log ++ [.stopped]) : Inv c' := by
  have htokens : c'.tokens = (c.push t).tokens := by
    rw [tokens_push, htoken, Nat.zero_add, tokens, tokens, htasks, hclosures]
  have hbusy : c'.busy = (c.push t).busy := by
    rw [busy_push, items_eq_zero htoken, zero_add, busy, busy, htasks, hclosures]
  have hinTurn : EachAfter InTurn c.log := h.inTurn
  have hconsumed : consumedIn c'.log = consumedIn c.log := by
    rcases hlog with hlog | hlog <;> simp [hlog, consumedItem]
  have hfinished : finishedIn c'.log = finishedIn c.log := by
    rcases hlog with hlog | hlog <;> simp [hlog, finishedItem]
  have haccepted : acceptedIn c'.log = acceptedIn c.log := by
    rcases hlog with hlog | hlog <;> simp [hlog, acceptedItem]
  constructor
  · rw [htokens]
    exact h.tokens_le
  · rw [htokens, hscheduled]
    exact h.unscheduled
  · exact fun hs => absurd hs hstatus
  · exact fun hs => absurd hs hstatus
  · rw [hconsumed, hfinished, hbusy]
    exact h.consumed
  · rw [hconsumed, haccepted]
    exact (add_le_add_right hqueue _).trans h.accepted
  · exact fun hs => absurd hs hstatus
  · rcases hlog with hlog | hlog
    · rw [hlog]
      exact hinTurn
    · rw [hlog]
      exact hinTurn.concat nofun

/-- Nothing is left to do, and `scheduled` is taken back. -/
theorem rest (h : Inv (c.push t)) (htoken : t.token = 1)
    (hqueue : c.status = .accepted → c.queue = []) (hitems : t.items = 0) :
    Inv { c with scheduled := false } := by
  have htokens : c.tokens = 0 := by
    have hle := h.tokens_le
    rw [tokens_push, htoken] at hle
    omega
  have hconsumed := h.consumed
  rw [busy_push, hitems, zero_add] at hconsumed
  exact { h with
    tokens_le := htokens.le.trans (Nat.zero_le 1)
    unscheduled := fun _ => htokens
    carried := nofun
    queued := fun hstatus hne => absurd (hqueue hstatus) hne
    consumed := hconsumed }

end Inv

/-! ## Steps -/

namespace Scope

variable {s : Scope α} {t : Task α} {c : Channel α} {batch : ℕ} {item : Item α}

/-- Releasing messages changes counters only. -/
theorem foldl_release_channel (l : List (Item α)) (s : Scope α) : ∃ bytes messages,
    (l.foldl release s).channel = { s.channel with bytes, messages } := by
  induction l generalizing s with
  | nil => exact ⟨_, _, rfl⟩
  | cons item rest ih =>
    obtain ⟨bytes, messages, h⟩ := ih (s.release item)
    exact ⟨bytes, messages, h⟩

/-- `Stop`, called by a task or from outside. -/
theorem stop_inv {status : ChannelResult} (h : Inv (s.channel.push t)) (htoken : t.token = 0)
    (hstatus : status ≠ .accepted) : Inv (s.stop status).channel := by
  rw [stop]
  split_ifs with hrunning
  · exact h.stopped htoken rfl rfl rfl hrunning le_rfl (.inl rfl)
  · obtain ⟨bytes, messages, heq⟩ := foldl_release_channel
      (s.channel.queue ++ s.channel.deferred) { s with channel := { s.channel with status } }
    dsimp only
    rw [heq]
    refine h.stopped htoken rfl rfl rfl hstatus ?_ (.inr rfl)
    exact zero_le _

theorem enqueue_spec (c : Channel α) (item : Item α) (delivery : ChannelDelivery) :
    ∃ queue deferred ready, c.enqueue item delivery = { c with
        queue, deferred, ready, bytes := c.bytes + item.bytes, messages := c.messages + 1,
        log := c.log ++ [.accepted item] } ∧
      (queue : Multiset (Item α)) + deferred = c.queue + c.deferred + {item} := by
  rw [enqueue]
  by_cases hdeferred : delivery = .deferred ∧ c.ready = false
  · have hopen : delivery ≠ .openGate := by rw [hdeferred.1]; decide
    refine ⟨c.queue, c.deferred ++ [item], c.ready, ?_, ?_⟩
    · rw [if_pos hdeferred, if_neg hopen]
      rfl
    · simp only [← coe_add, coe_singleton, add_assoc]
  · rw [if_neg hdeferred]
    by_cases hopen : delivery = .openGate
    · refine ⟨c.queue ++ [item] ++ c.deferred, [], true, ?_, ?_⟩
      · rw [if_pos hopen]
        rfl
      · simp only [← coe_add, coe_singleton, coe_nil]
        abel
    · refine ⟨c.queue ++ [item], c.deferred, c.ready, ?_, ?_⟩
      · rw [if_neg hopen]
        rfl
      · simp only [← coe_add, coe_singleton]
        abel

/-- A message has been put into its place. -/
theorem enqueue_wake_inv (h : Inv c) (item : Item α) (delivery : ChannelDelivery) :
    Inv (c.enqueue item delivery).wake := by
  obtain ⟨queue, deferred, ready, heq, hitems⟩ := enqueue_spec c item delivery
  have hconsumed : consumedIn (c.log ++ [.accepted item]) =
      finishedIn (c.log ++ [.accepted item]) + c.busy := by
    rw [consumedIn_concat, finishedIn_concat, h.consumed]
    simp [consumedItem, finishedItem]
  have haccepted : consumedIn (c.log ++ [.accepted item]) +
      ((queue : Multiset (Item α)) + (deferred : Multiset (Item α))) ≤
        acceptedIn (c.log ++ [.accepted item]) := by
    rw [consumedIn_concat, acceptedIn_concat, hitems, ← add_assoc]
    simpa [consumedItem, acceptedItem] using h.accepted
  have hrunning : c.status = .accepted → stopped ∉ c.log ++ [.accepted item] := by
    intro hstatus
    simpa using h.running hstatus
  have hinTurn : EachAfter InTurn (c.log ++ [.accepted item]) := h.inTurn.concat nofun
  rw [heq, wake]
  split_ifs with hschedule
  · have htokens : c.tokens = 0 := h.unscheduled hschedule.1
    exact {
      tokens_le := by
        rw [tokens_push]
        exact (congrArg (1 + ·) htokens).le
      unscheduled := nofun
      carried := fun _ _ => .inl <| by
        rw [tokens_push]
        exact congrArg (1 + ·) htokens
      queued := fun _ _ => rfl
      consumed := by
        rw [busy_push, items, zero_add]
        exact hconsumed
      accepted := haccepted
      running := hrunning
      inTurn := hinTurn }
  · refine Inv.returned ?_ _
    exact { h with
      queued := fun _ hqueue => by
        by_contra hs
        exact hschedule ⟨Bool.eq_false_iff.2 hs, hqueue⟩
      consumed := hconsumed
      accepted := haccepted
      running := hrunning
      inTurn := hinTurn }

theorem send_inv (h : Inv s.channel) (message : α) (bytes : Size) (delivery : ChannelDelivery)
    (stored : Bool) : Inv (s.send message bytes delivery stored).channel := by
  rw [send]
  split
  · exact h.returned _
  split
  · exact h.returned _
  cases s.budget.reserve bytes with
  | none => exact h.returned _
  | some budget =>
    cases stored with
    | false => exact h
    | true => exact enqueue_wake_inv h _ delivery

/-- A pump takes the next message, or ends. -/
theorem take_inv (h : Inv (s.channel.push (.pump batch))) : Inv (s.take batch).channel := by
  have htokens : s.channel.tokens = 0 := by
    have hle := h.tokens_le
    rw [tokens_push, token] at hle
    omega
  have hbusy := busy_eq_zero htokens
  have hconsumed : consumedIn s.channel.log = finishedIn s.channel.log := by
    have hconsumed := h.consumed
    rw [busy_push, hbusy, items, add_zero, add_zero] at hconsumed
    exact hconsumed
  rw [take]
  split_ifs with hstatus
  · exact h.rest rfl (fun hs => absurd hs hstatus) rfl
  have hstatus' : s.channel.status = .accepted := not_not.1 hstatus
  cases hqueue : s.channel.queue with
  | nil =>
    dsimp only
    rw [← hqueue]
    exact h.rest rfl (fun _ => hqueue) rfl
  | cons item rest =>
    have hscheduled : s.channel.scheduled = true := h.queued hstatus' (by
      rw [push, hqueue]
      exact cons_ne_nil _ _)
    have hlog : consumedIn (s.channel.log ++ [.consumed item]) =
        finishedIn (s.channel.log ++ [.consumed item]) + {item} := by
      rw [consumedIn_concat, finishedIn_concat, hconsumed]
      simp [consumedItem, finishedItem]
    have haccepted : consumedIn (s.channel.log ++ [.consumed item]) +
        ((rest : Multiset (Item α)) + (s.channel.deferred : Multiset (Item α))) ≤
          acceptedIn (s.channel.log ++ [.consumed item]) := by
      have haccepted := h.accepted
      rw [push, hqueue] at haccepted
      rw [consumedIn_concat, acceptedIn_concat]
      simpa [consumedItem, acceptedItem, ← Multiset.cons_coe, add_assoc]
        using haccepted
    have hrunning : stopped ∉ s.channel.log := h.running hstatus'
    have hnext : ∀ c : Channel α, c.tokens = 1 → c.busy = {item} →
        c.scheduled = s.channel.scheduled → c.status = s.channel.status → c.queue = rest →
        c.deferred = s.channel.deferred → c.log = s.channel.log ++ [.consumed item] → Inv c :=
      fun c htokens hbusy hs hst hq hd hl => {
        tokens_le := htokens.le
        unscheduled := fun hs' => by rw [hs, hscheduled] at hs'; cases hs'
        carried := fun _ _ => .inl htokens
        queued := fun _ _ => hs.trans hscheduled
        consumed := by rw [hl, hbusy, hlog]
        accepted := by rw [hl, hq, hd]; exact haccepted
        running := fun _ => by
          rw [hl]
          simpa using hrunning
        inTurn := by
          rw [hl]
          exact h.inTurn.concat fun _ _ => ⟨hconsumed.symm, hrunning⟩ }
    dsimp only
    split_ifs
    · refine hnext _ ?_ ?_ rfl rfl rfl rfl rfl
      · rw [tokens_push, token, Nat.zero_add]
        exact (tokens_closure _ item).trans (congrArg (· + 1) htokens)
      · rw [busy_push, items, zero_add]
        exact (busy_closure _ item).trans (congrArg (· + {item}) hbusy)
    · refine hnext _ ?_ ?_ rfl rfl rfl rfl rfl
      · rw [tokens_push, token]
        exact congrArg (1 + ·) htokens
      · rw [busy_push, items]
        exact congrArg ({item} + ·) hbusy

/-- The consumer has finished a message. What kept the channel going is done, and something else
    has to. -/
theorem finished_inv {c' : Channel α} (h : Inv c) (htokens : c.tokens = c'.tokens + 1)
    (hbusy : c.busy = {item} + c'.busy) (hlog : c'.log = c.log ++ [.finished item])
    (hscheduled : c'.scheduled = c.scheduled) (hstatus : c'.status = c.status)
    (hqueue : c'.queue = c.queue) (hdeferred : c'.deferred = c.deferred) :
    Inv (c'.push .posted) := by
  have hle := h.tokens_le
  have hpushed : (c'.push .posted).tokens = 1 := by
    rw [tokens_push, token]
    omega
  have hsched : c'.scheduled = true := by
    by_contra hs
    have := h.unscheduled (hscheduled ▸ Bool.eq_false_iff.2 hs)
    omega
  constructor
  · exact hpushed.le
  · intro hs
    cases hsched.symm.trans hs
  · exact fun _ _ => .inl hpushed
  · exact fun _ _ => hsched
  · rw [busy_push, items, zero_add, push]
    rw [hlog, consumedIn_concat, finishedIn_concat, h.consumed, hbusy]
    simp [consumedItem, finishedItem, add_assoc]
  · rw [push]
    rw [hlog, hqueue, hdeferred, consumedIn_concat, acceptedIn_concat]
    simpa [consumedItem, acceptedItem] using h.accepted
  · intro hs
    rw [push]
    rw [hlog]
    simpa using h.running (hstatus ▸ hs)
  · rw [push]
    rw [hlog]
    exact h.inTurn.concat nofun

theorem finish_inv (h : Inv (s.channel.push (.consume batch item))) (ok : Bool) :
    Inv (s.finish batch item ok).channel := by
  have hnext : Inv (push ((s.release item).channel.note (.finished item)) .posted) := by
    refine finished_inv h ?_ ?_ rfl rfl rfl rfl rfl
    · rw [tokens_push]
      exact Nat.add_comm _ _
    · rw [busy_push]
      rfl
  rw [finish]
  split_ifs
  · exact hnext.give_up rfl false
  · exact hnext.replace rfl rfl (by simp)
  · exact hnext.replace rfl rfl (by simp)

/-- A completion that is called has one message less to wait for. -/
theorem sum_items_complete {closures : List (Closure α)} {k : ℕ} {closure : Closure α}
    (hclosure : closures[k]? = some closure) (hcompleted : ¬closure.completed = true) :
    (closures.map Closure.items).sum = {closure.item} +
      ((closures.set k { closure with completed := true }).map Closure.items).sum := by
  rw [sum_map_eraseIdx _ hclosure, sum_map_set _ hclosure]
  simp [Closure.items, hcompleted]

theorem complete_inv (h : Inv s.channel) (k : ℕ) : Inv (s.complete k).channel := by
  rw [complete]
  cases hclosure : s.channel.closures[k]? with
  | none => exact h
  | some closure =>
    dsimp only
    by_cases hcompleted : closure.completed = true
    · rw [if_pos hcompleted]
      exact h
    rw [if_neg hcompleted]
    have hitems := sum_items_complete hclosure hcompleted
    have hnext : Inv (push ((Scope.release { s with channel := { s.channel with
        closures := s.channel.closures.set k { closure with completed := true } } }
        closure.item).channel.note (.finished closure.item)) .posted) := by
      refine finished_inv h ?_ ?_ rfl rfl rfl rfl rfl
      · rw [tokens, hitems, card_add]
        exact (Nat.add_left_comm ..).trans (Nat.add_comm ..)
      · rw [busy, hitems]
        exact add_left_comm ..
    split_ifs with hstatus
    · exact hnext.replace rfl rfl (by simp)
    · exact hnext.rest rfl (fun hs => absurd hs hstatus) rfl

/-- A task that is not waiting for the consumer goes on. -/
theorem advance_inv (h : Inv (s.channel.push t)) (ok : Bool) : Inv (s.advance ok t).channel := by
  cases t with
  | post sending =>
    cases ok with
    | false => exact h.give_up rfl sending
    | true =>
      have hposted : Inv (s.channel.push .posted) := h.replace rfl rfl (by simp)
      cases sending with
      | false => exact hposted
      | true => exact hposted.returned _
  | stop sending =>
    have hstopped : Inv (s.stop .cancelled).channel := stop_inv h rfl (by decide)
    cases sending with
    | false => exact hstopped
    | true => exact hstopped.returned _
  | unwind k => exact (stop_inv h rfl (by decide)).spawn rfl
  | complete k => exact complete_inv (h.drop rfl (by simp)) k
  | posted => exact h.replace rfl rfl (by simp)
  | pump batch => exact take_inv h
  | consume batch item => exact finish_inv h ok
  | async k =>
    cases ok with
    | false => exact h.replace rfl rfl (by simp)
    | true => exact h.drop rfl (by simp)

theorem step_inv (h : Inv s.channel) (e : Step α) : Inv (s.step e).channel := by
  cases e with
  | send message bytes delivery stored => exact send_inv h message bytes delivery stored
  | close | cancel => exact stop_inv (h.spawn (t := .async 0) rfl) rfl (by decide)
  | resetGate => exact h.transfer rfl rfl id
  | complete k => exact complete_inv h k
  | resume i ok =>
    rw [step, resume]
    cases ht : s.channel.tasks[i]? with
    | none => exact h
    | some t => exact advance_inv (h.of_eraseIdx ht) ok

end Scope

end Packetia.Channel
