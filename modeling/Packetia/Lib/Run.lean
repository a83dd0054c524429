import Mathlib

/-!
# Loops and runs

The code under verification is sequential: a `while` loop inside a call, and a
sequence of calls on an object.

* `loop guard body n s` is the loop, cut off after `n` rounds. A measure that
  every round decreases makes a large enough `n` irrelevant: the loop then ends
  because its guard fails (`loop_spec`).
* `run step s ops` is the state after the calls `ops`; what holds initially and
  is kept by every call holds along every run (`run_induction`). Its `history`
  keeps, with every call, the state it was made in.
* `EachAfter P l` says that `P` holds of each element of a log `l`, given what
  is before it.
-/

namespace Packetia

open List

variable {σ ι : Type*}

/-- `while (guard s) s = body s;`, cut off after `n` rounds. -/
def loop (guard : σ → Prop) [DecidablePred guard] (body : σ → σ) : ℕ → σ → σ
  | 0, s => s
  | n + 1, s => if guard s then loop guard body n (body s) else s

section Loop

variable {g : σ → Prop} [DecidablePred g] {b : σ → σ} {P : σ → Prop}

/-- A loop whose guard fails does nothing. -/
theorem loop_of_not_guard {s : σ} (hs : ¬g s) (n : ℕ) : loop g b n s = s := by
  cases n with
  | zero => rfl
  | succ n => rw [loop, if_neg hs]

theorem loop_succ_of_guard {s : σ} (hs : g s) (n : ℕ) : loop g b (n + 1) s = loop g b n (b s) := by
  rw [loop, if_pos hs]

/-- What a round keeps, the loop keeps. -/
theorem loop_inv (hbody : ∀ s, g s → P s → P (b s)) : ∀ (n : ℕ) {s : σ}, P s → P (loop g b n s)
  | 0, _, hs => hs
  | n + 1, s, hs => by
    rw [loop]
    split_ifs with hg
    · exact loop_inv hbody n (hbody s hg hs)
    · exact hs

/-- A loop whose rounds keep `P` and decrease the measure `m` ends, in a state
    where `P` holds and the guard does not. -/
theorem loop_spec {m : σ → ℕ} (hbody : ∀ s, g s → P s → P (b s) ∧ m (b s) < m s) :
    ∀ {n : ℕ} {s : σ}, P s → m s ≤ n → P (loop g b n s) ∧ ¬g (loop g b n s)
  | 0, s, hs, hn => ⟨hs, fun hg => absurd (hbody s hg hs).2 (by omega)⟩
  | n + 1, s, hs, hn => by
    rw [loop]
    split_ifs with hg
    · obtain ⟨hs', hlt⟩ := hbody s hg hs
      exact loop_spec hbody hs' (by omega)
    · exact ⟨hs, hg⟩

end Loop

/-- The state after the calls `ops`, each a `step`, from the state `s`. -/
def run (step : σ → ι → σ) (s : σ) (ops : List ι) : σ := ops.foldl step s

section Run

variable {step : σ → ι → σ} {s : σ}

@[simp] theorem run_nil : run step s [] = s := rfl

@[simp] theorem run_cons (op : ι) (ops : List ι) :
    run step s (op :: ops) = run step (step s op) ops := rfl

theorem run_append (ops ops' : List ι) :
    run step s (ops ++ ops') = run step (run step s ops) ops' := foldl_append

theorem run_concat (ops : List ι) (op : ι) :
    run step s (ops ++ [op]) = step (run step s ops) op := by
  rw [run_append, run_cons, run_nil]

/-- What holds initially and is kept by every call holds along every run. The
    property may speak of the calls made so far. -/
theorem run_induction {P : List ι → σ → Prop} (init : P [] s)
    (call : ∀ ops op, P ops (run step s ops) → P (ops ++ [op]) (step (run step s ops) op))
    (ops : List ι) : P ops (run step s ops) := by
  induction ops using reverseRecOn with
  | nil => exact init
  | append_singleton ops op ih =>
    rw [run_concat]
    exact call ops op ih

/-- The calls of a run, each with the state it is made in. -/
def history (step : σ → ι → σ) : σ → List ι → List (σ × ι)
  | _, [] => []
  | s, op :: ops => (s, op) :: history step (step s op) ops

theorem history_append (ops ops' : List ι) : history step s (ops ++ ops') =
    history step s ops ++ history step (run step s ops) ops' := by
  induction ops generalizing s with
  | nil => rfl
  | cons o ops ih => rw [cons_append, history, ih, history, run_cons, cons_append]

theorem history_concat (ops : List ι) (op : ι) :
    history step s (ops ++ [op]) = history step s ops ++ [(run step s ops, op)] :=
  history_append ops [op]

end Run

section Concat

variable {l : List ι} {a : ι}

theorem forall_mem_concat {P : ι → Prop} : (∀ x ∈ l ++ [a], P x) ↔ (∀ x ∈ l, P x) ∧ P a := by
  rw [forall_mem_append, forall_mem_singleton]

theorem pairwise_concat {R : ι → ι → Prop} :
    (l ++ [a]).Pairwise R ↔ l.Pairwise R ∧ ∀ x ∈ l, R x a := by
  simp [pairwise_append]

end Concat

/-- Every element of `l` satisfies `P`, given the elements before it. -/
def EachAfter (P : List ι → ι → Prop) (l : List ι) : Prop :=
  ∀ pre a post, l = pre ++ a :: post → P pre a

section EachAfter

variable {P : List ι → ι → Prop} {l : List ι} {a : ι}

theorem eachAfter_nil : EachAfter P [] := fun pre a post h => by simp at h

theorem EachAfter.concat (hl : EachAfter P l) (ha : P l a) : EachAfter P (l ++ [a]) := by
  intro pre b post h
  rcases eq_nil_or_concat post with rfl | ⟨post, c, rfl⟩
  · obtain ⟨rfl, hab⟩ := append_inj' h rfl
    obtain rfl : a = b := head_eq_of_cons_eq hab
    exact ha
  · rw [concat_eq_append, ← cons_append, ← append_assoc] at h
    exact hl pre b post (append_inj' h rfl).1

theorem EachAfter.of_append {l' : List ι} (h : EachAfter P (l ++ l')) : EachAfter P l := by
  intro pre a post heq
  exact h pre a (post ++ l') (by rw [heq, append_assoc, cons_append])

end EachAfter

end Packetia
