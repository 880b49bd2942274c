import Mathlib.Logic.Relation

/-!
# Runs of a Labelled Step Function

A system is a partial step function `step : σ → α → Option σ`: the action `a` is
enabled in the state `s` exactly when `step s a` is `some` state. `runFrom` executes a
list of actions; `Reaches` is the relation it computes, restricted to steps that meet a
condition `C` on the state they leave and the action they take.

## Two uses of the condition

* An assumption on the environment ("no frame arrives late", "the clock does not run
  backwards within an attempt") is a condition on the steps of a run. It is stated on
  the state *before* the step, so that it can speak of what the action finds there.
* The empty assumption is `Any`. A result about every reachable state is about
  `Reaches step Any`, and it carries over to no smaller class of runs by accident:
  `Reaches.mono` is the only way to weaken a condition.

Interleaving needs no notion of its own: the actions of all parties are actions of the
one system, and a run is an arbitrary order of those that are enabled.

## Main results

* `reaches_of_runFrom`: an execution of `runFrom` is a run, and with a decidable
  condition `reaches_of_runIn`; this is how a concrete run is exhibited.
* `Reaches.induct`: induction on a run, and its special case
* `Reaches.invariant`: **the invariant rule** — what holds initially and is kept by
  every allowed step holds in every state reached.
* `Reaches.mono`: a run under a condition is a run under every weaker one.
-/

namespace Runs

variable {σ α : Type*}

/-- One allowed step: some action meeting `C` takes `s` to `s'`. The action is forgotten;
what a result needs of it has to be kept in the state. -/
def StepIn (step : σ → α → Option σ) (C : σ → α → Prop) (s s' : σ) : Prop :=
  ∃ a, C s a ∧ step s a = some s'

/-- `s'` is reached from `s` by finitely many steps, each meeting `C`: the reflexive and
transitive closure of `StepIn`, extended at its end. -/
def Reaches (step : σ → α → Option σ) (C : σ → α → Prop) : σ → σ → Prop :=
  Relation.ReflTransGen (StepIn step C)

/-- The condition that allows every step, for the results without an assumption on the
environment. -/
def Any (_ : σ) (_ : α) : Prop := True

/-- Executes a list of actions from left to right; `none` when one is not enabled. It is
structurally recursive, so a concrete run can be evaluated. -/
def runFrom (step : σ → α → Option σ) : σ → List α → Option σ
  | s, [] => some s
  | s, a :: as => (step s a).bind fun s' => runFrom step s' as

variable {step : σ → α → Option σ} {C D : σ → α → Prop} {s s' s'' : σ}

/-- Every state reaches itself. -/
theorem Reaches.refl (s : σ) : Reaches step C s s :=
  Relation.ReflTransGen.refl

/-- Runs compose. -/
theorem Reaches.trans (h : Reaches step C s s') (h' : Reaches step C s' s'') :
    Reaches step C s s'' :=
  Relation.ReflTransGen.trans h h'

/-- A run extended by one allowed step. -/
theorem Reaches.tail {a : α} (h : Reaches step C s s') (hC : C s' a)
    (ha : step s' a = some s'') : Reaches step C s s'' :=
  Relation.ReflTransGen.tail h ⟨a, hC, ha⟩

/-- One allowed step is a run. -/
theorem Reaches.single (a : α) (hC : C s a) (ha : step s a = some s') : Reaches step C s s' :=
  Relation.ReflTransGen.single ⟨a, hC, ha⟩

/-- A run under a condition is a run under every condition it implies. -/
theorem Reaches.mono (hCD : ∀ s a, C s a → D s a) (h : Reaches step C s s') :
    Reaches step D s s' :=
  Relation.ReflTransGen.mono (fun _ _ ⟨a, hC, ha⟩ => ⟨a, hCD _ a hC, ha⟩) _ _ h

/-- **Induction on a run.** The step may use that its start is reached, and so every
invariant that has already been established. Invariants that build on each other are
proved one after the other this way, and not as one conjunction. -/
theorem Reaches.induct {P : σ → Prop} (h : Reaches step C s s') (h₀ : P s)
    (hstep : ∀ t a t', Reaches step C s t → P t → C t a → step t a = some t' → P t') :
    P s' := by
  induction h with
  | refl => exact h₀
  | tail hrun hlast ih =>
      obtain ⟨a, hC, ha⟩ := hlast
      exact hstep _ a _ hrun ih hC ha

/-- **The invariant rule.** What holds at the start and is kept by every allowed step
holds in every state reached. -/
theorem Reaches.invariant {P : σ → Prop} (h : Reaches step C s s') (h₀ : P s)
    (hstep : ∀ s a s', P s → C s a → step s a = some s' → P s') : P s' :=
  h.induct h₀ fun t a t' _ => hstep t a t'

/-- **Soundness of execution.** An execution whose actions are all allowed is a run. -/
theorem reaches_of_runFrom {as : List α} (h : runFrom step s as = some s') :
    Reaches step Any s s' := by
  induction as generalizing s with
  | nil =>
      obtain rfl : s = s' := Option.some.inj h
      exact Reaches.refl s
  | cons a as ih =>
      obtain ⟨t, ht, hrest⟩ := Option.bind_eq_some_iff.mp h
      exact Relation.ReflTransGen.head ⟨a, trivial, ht⟩ (ih hrest)

/-- The state an execution ends in is reached. -/
theorem reaches_get {as : List α} (h : (runFrom step s as).isSome) :
    Reaches step Any s ((runFrom step s as).get h) :=
  reaches_of_runFrom (Option.some_get h).symm

/-- Executes a list of actions, each of which has to meet `C`; `none` when one does not, or
is not enabled. -/
def runIn (step : σ → α → Option σ) (C : σ → α → Prop) [∀ s a, Decidable (C s a)] :
    σ → List α → Option σ
  | s, [] => some s
  | s, a :: as => if C s a then (step s a).bind fun s' => runIn step C s' as else none

/-- **Soundness of execution** under a condition. -/
theorem reaches_of_runIn [∀ s a, Decidable (C s a)] {as : List α}
    (h : runIn step C s as = some s') : Reaches step C s s' := by
  induction as generalizing s with
  | nil =>
      obtain rfl : s = s' := Option.some.inj h
      exact Reaches.refl s
  | cons a as ih =>
      rw [runIn, Option.ite_none_right_eq_some] at h
      obtain ⟨hC, h⟩ := h
      obtain ⟨t, ht, hrest⟩ := Option.bind_eq_some_iff.mp h
      exact Relation.ReflTransGen.head ⟨a, hC, ht⟩ (ih hrest)

/-- The state an execution under a condition ends in is reached. -/
theorem reaches_get_in [∀ s a, Decidable (C s a)] {as : List α}
    (h : (runIn step C s as).isSome) : Reaches step C s ((runIn step C s as).get h) :=
  reaches_of_runIn (Option.some_get h).symm

end Runs
