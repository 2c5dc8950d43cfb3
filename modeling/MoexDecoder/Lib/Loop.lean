import Mathlib.Tactic
import Mathlib.Computability.StateTransition

/-!
# While loops as step functions

A loop over states `σ` is its pass `step : σ → Option σ`: `none` where the loop is
left, `some s'` where one more pass leads to `s'`. Its runs are those of
`StateTransition`: `Reaches step s t` when the loop started at `s` comes through its
head at `t`, and `t ∈ eval step s` when it is left at `t`.

* `Reaches.inv`: what every pass preserves holds at every state of the run.
* `forall_reaches_some`, `forall_reaches_none`: the states of a run, one pass at a time.
* `exits_of_rank`: a loop whose rank falls at every pass is left.
* `not_dom`: a loop caught in a set of states where it is never left runs forever.
* `run`: the executable loop of a step with a rank. It stops at the exit
  (`run_mem_eval`), and a pass does not change its result (`run_some`).
-/

namespace Loop

open StateTransition

variable {σ : Type*} {step : σ → Option σ} {s t u : σ}

theorem Reaches.next (h : Reaches step s t) (ht : step t = some u) : Reaches step s u :=
  Relation.ReflTransGen.tail h ht

/-- **The invariant rule.** -/
theorem Reaches.inv {P : σ → Prop} (hP : ∀ s s', P s → step s = some s' → P s')
    (h : Reaches step s t) (hs : P s) : P t := by
  induction h with
  | refl => exact hs
  | tail _ hst ih => exact hP _ _ ih hst

/-- The exit of a loop, from any state it comes through. -/
theorem Reaches.mem_eval (h : Reaches step s t) : u ∈ eval step t ↔ u ∈ eval step s := by
  rw [reaches_eval h]

/-- What holds at every state of the run: at its start, and behind the first pass. -/
theorem forall_reaches_some {P : σ → Prop} (hs : step s = some t) :
    (∀ u, Reaches step s u → P u) ↔ P s ∧ ∀ u, Reaches step t u → P u := by
  constructor
  · exact fun h => ⟨h s .refl, fun u hu => h u (Relation.ReflTransGen.head hs hu)⟩
  · rintro ⟨h0, h⟩ u hu
    rcases Relation.ReflTransGen.cases_head hu with rfl | ⟨t', ht', hu⟩
    · exact h0
    · rw [Option.mem_unique hs ht'] at h; exact h u hu

/-- A run that is over consists of its only state. -/
theorem forall_reaches_none {P : σ → Prop} (hs : step s = none) :
    (∀ u, Reaches step s u → P u) ↔ P s := by
  constructor
  · exact fun h => h s .refl
  · intro h0 u hu
    rcases Relation.ReflTransGen.cases_head hu with rfl | ⟨t', ht', -⟩
    · exact h0
    · rw [Option.mem_def, hs] at ht'; cases ht'

/-- What every pass preserves holds at the exit. -/
theorem inv_of_mem_eval {P : σ → Prop} (hP : ∀ s s', P s → step s = some s' → P s')
    (h : t ∈ eval step s) (hs : P s) : P t :=
  Reaches.inv hP (StateTransition.mem_eval.1 h).1 hs

/-- **Termination.** A rank that falls at every pass from a state with `P`, which
passes preserve, brings the loop to its exit. -/
theorem exits_of_rank {P : σ → Prop} (rank : σ → ℕ)
    (hP : ∀ s s', P s → step s = some s' → P s' ∧ rank s' < rank s) (hs : P s) :
    ∃ t ∈ eval step s, P t := by
  induction hn : rank s using Nat.strong_induction_on generalizing s with
  | _ n ih =>
    cases hst : step s with
    | none => exact ⟨s, StateTransition.mem_eval.2 ⟨.refl, hst⟩, hs⟩
    | some s' =>
      obtain ⟨hs', hlt⟩ := hP s s' hs hst
      obtain ⟨t, ht, hPt⟩ := ih (rank s') (by omega) hs' rfl
      exact ⟨t, (Reaches.mem_eval (Relation.ReflTransGen.single hst)).1 ht, hPt⟩

/-- **Divergence.** A loop that comes into a set of states where it always makes one
more pass, and stays in the set, is never left. -/
theorem not_dom {P : σ → Prop} (hP : ∀ s, P s → ∃ s', step s = some s' ∧ P s')
    (h : Reaches step s t) (ht : P t) : ¬ (eval step s).Dom := by
  intro hd
  obtain ⟨u, hu⟩ := Part.dom_iff_mem.1 hd
  have hPu : P u := by
    refine inv_of_mem_eval (fun a b ha hab => ?_) ((Reaches.mem_eval h).2 hu) ht
    obtain ⟨b', hb', hPb⟩ := hP a ha
    rw [hab] at hb'; cases hb'; exact hPb
  obtain ⟨u', hu', -⟩ := hP u hPu
  rw [(StateTransition.mem_eval.1 hu).2] at hu'; cases hu'

/-! ## Executable loops -/

/-- At most `n` passes of a loop. -/
def runFor (step : σ → Option σ) : ℕ → σ → σ
  | 0, s => s
  | n + 1, s => match step s with
    | none => s
    | some s' => runFor step n s'

/-- The loop of a step with a rank. -/
def run (step : σ → Option σ) (rank : σ → ℕ) (s : σ) : σ := runFor step (rank s) s

/-- The rank falls at every pass. -/
def Falls (step : σ → Option σ) (rank : σ → ℕ) : Prop :=
  ∀ s s', step s = some s' → rank s' < rank s

variable {rank : σ → ℕ}

theorem runFor_mem_eval (hf : Falls step rank) (n : ℕ) :
    ∀ s, rank s ≤ n → runFor step n s ∈ eval step s := by
  induction n with
  | zero =>
    intro s hs
    refine StateTransition.mem_eval.2 ⟨.refl, ?_⟩
    cases hst : step s with
    | none => exact hst
    | some s' => have := hf s s' hst; omega
  | succ n ih =>
    intro s hs
    simp only [runFor]
    cases hst : step s with
    | none => exact StateTransition.mem_eval.2 ⟨.refl, hst⟩
    | some s' =>
      have := hf s s' hst
      exact (Reaches.mem_eval (Relation.ReflTransGen.single hst)).1 (ih s' (by omega))

/-- **`run` is the loop.** -/
theorem run_mem_eval (hf : Falls step rank) (s : σ) : run step rank s ∈ eval step s :=
  runFor_mem_eval hf _ s le_rfl

theorem run_none (hs : step s = none) : run step rank s = s := by
  unfold run
  cases rank s with
  | zero => rfl
  | succ n => simp only [runFor, hs]

theorem run_some (hf : Falls step rank) (hs : step s = some t) : run step rank s = run step rank t :=
  Part.mem_unique (run_mem_eval hf s)
    ((Reaches.mem_eval (Relation.ReflTransGen.single hs)).1 (run_mem_eval hf t))

theorem run_reaches (hf : Falls step rank) (s : σ) : Reaches step s (run step rank s) :=
  (StateTransition.mem_eval.1 (run_mem_eval hf s)).1

end Loop
