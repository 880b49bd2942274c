import IoBoard.Lib.Runs
import Mathlib.Order.Nat
import Mathlib.Tactic.Common

/-!
# Infinite Runs

An execution is a run that goes on forever: a sequence of states, each with the action that leads
to the next. What holds of every run holds in each of its states; what must happen at some time
depends on which actions the execution may leave out, which is its fairness.

## Fairness

Fairness is a property of an execution and a set of actions, given as a predicate `A`. It is the
strong form: if an action of the set is enabled again and again, not necessarily all the time, one
of them is taken. An action is enabled when the step function has a result for it; no separate
guard has to be given.

## Proving progress

Two rules cover the arguments about executions of a system. `forall_or_exists` splits on
whether a property is ever left, and by `exists_of_stronglyFair` it is left if an action that
leaves it is enabled again and again. `exists_of_rank` puts such arguments one after the other:
a natural number that every one of them makes smaller. What is reached is a later state, with no
bound on how much later.

## Main definitions

* `Execution step s`: an infinite run from `s`.
* `Execution.StronglyFair A`: what is enabled again and again is done.

## Main results

* `Execution.forall_or_exists`: a property that can only be left for another one.
* `Execution.exists_of_stronglyFair`: **what can be done again and again is done**.
* `Execution.exists_of_rank`: **progress by a measure** that decreases until the goal is reached.
-/

namespace Runs

variable {σ α : Type*} {step : σ → α → Option σ} {s t : σ}

/-- Some action that meets `A` is enabled. -/
def Enabled (step : σ → α → Option σ) (A : α → Prop) (s : σ) : Prop :=
  ∃ a, A a ∧ (step s a).isSome

/-- A run that goes on forever from `s`. Every one of its steps is possible. -/
structure Execution (step : σ → α → Option σ) (s : σ) where
  state : ℕ → σ
  action : ℕ → α
  start : state 0 = s
  next : ∀ n, step (state n) (action n) = some (state (n + 1))

namespace Execution

/-- The execution that begins with one more step. Its fairness is that of the execution behind
it. -/
def cons {a : α} (h : step s a = some t) (ρ : Execution step t) : Execution step s where
  state
    | 0 => s
    | n + 1 => ρ.state n
  action
    | 0 => a
    | n + 1 => ρ.action n
  start := rfl
  next
    | 0 => h.trans (congrArg some ρ.start.symm)
    | n + 1 => ρ.next n

variable (ρ : Execution step s)

/-- Every state of an execution is reached. -/
theorem reaches (n : ℕ) : Reaches step Any s (ρ.state n) := by
  induction n with
  | zero =>
      rw [ρ.start]
      exact Reaches.refl s
  | succ n ih => exact ih.tail trivial (ρ.next n)

/-- **Strong fairness**: if from some time on an action that meets `A` is enabled again and
again, one is taken. -/
def StronglyFair (A : α → Prop) : Prop :=
  ∀ n, (∀ m ≥ n, ∃ k ≥ m, Enabled step A (ρ.state k)) → ∃ m ≥ n, A (ρ.action m)

variable {ρ} {P : ℕ → Prop} {n : ℕ}

/-- A property that holds now holds forever, or is left for the first time at some step. -/
theorem forall_or_exists (hn : P n) :
    (∀ m ≥ n, P m) ∨ ∃ m ≥ n, (∀ k, n ≤ k → k ≤ m → P k) ∧ ¬ P (m + 1) := by
  by_cases h : ∃ m ≥ n, (∀ k, n ≤ k → k ≤ m → P k) ∧ ¬ P (m + 1)
  · exact .inr h
  · push Not at h
    have upto : ∀ m ≥ n, ∀ k, n ≤ k → k ≤ m → P k := by
      intro m hm
      induction m, hm using Nat.le_induction with
      | base =>
          intro k hk hkn
          rwa [Nat.le_antisymm hkn hk]
      | succ m hm ih =>
          intro k hk hkm
          rcases Nat.le_succ_iff.mp hkm with hle | rfl
          · exact ih k hk hle
          · exact h m hm ih
    exact .inl fun m hm => upto m hm m hm le_rfl

/-- **What can be done again and again is done**, unless what it depends on is left before.
Either way `P` is left. -/
theorem exists_of_stronglyFair {A : α → Prop} (hfair : ρ.StronglyFair A) (hn : P n)
    (henabled : (∀ m ≥ n, P m) → ∀ m ≥ n, ∃ k ≥ m, Enabled step A (ρ.state k)) :
    ∃ m ≥ n, (∀ k, n ≤ k → k ≤ m → P k) ∧ (A (ρ.action m) ∨ ¬ P (m + 1)) := by
  rcases forall_or_exists hn with hall | ⟨m, hm, hupto, hleft⟩
  · obtain ⟨m, hm, ha⟩ := hfair n (henabled hall)
    exact ⟨m, hm, fun k hk _ => hall k hk, .inl ha⟩
  · exact ⟨m, hm, hupto, .inr hleft⟩

/-- **Progress by a measure.** If `P` leads to the goal, or to `P` again with a smaller measure,
it leads to the goal. -/
theorem exists_of_rank {Q : ℕ → Prop} (rank : ℕ → ℕ)
    (h : ∀ m, P m → ∃ k ≥ m, Q k ∨ P k ∧ rank k < rank m) (hn : P n) : ∃ m ≥ n, Q m := by
  induction hr : rank n using Nat.strong_induction_on generalizing n with
  | _ r ih =>
      obtain ⟨k, hk, hQ | ⟨hP, hlt⟩⟩ := h n hn
      · exact ⟨k, hk, hQ⟩
      · obtain ⟨m, hm, hQ⟩ := ih (rank k) (hr ▸ hlt) hP rfl
        exact ⟨m, Nat.le_trans hk hm, hQ⟩

end Execution

end Runs
