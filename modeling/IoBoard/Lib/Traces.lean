import IoBoard.Lib.Runs

/-!
# Traces of Runs

What an observer notes down while a system runs: each step shows a list of observations, which
depends on the states before and after it, and the trace of a run is all of them in order. The
observed system has the runs of the system, each with its trace.

The trace is not a part of the state, so the system can be defined without it; it is paired with
the state only for the induction. A step of the observed system is one of the system, and the
converse is `Reaches.exists_observed`, so an invariant of the observed system, which may relate
the state with the trace, is one about the runs of the system. Conditions on steps carry over, as
conditions that do not look at the trace.

## Main definitions

* `observed step observe`: the step function on states with a trace.

## Main results

* `observed_eq_some_iff`: a step of the observed system.
* `Reaches.exists_observed`: **every run has a trace**.
-/

namespace Runs

variable {σ α ω : Type*} {step : σ → α → Option σ} {observe : σ → σ → List ω}
  {C : σ → α → Prop} {s s' : σ} {trace trace' : List ω}

/-- One step with what it shows. -/
def observed (step : σ → α → Option σ) (observe : σ → σ → List ω) (p : σ × List ω) (a : α) :
    Option (σ × List ω) :=
  (step p.1 a).map fun s' => (s', p.2 ++ observe p.1 s')

theorem observed_eq_some_iff {p p' : σ × List ω} {a : α} :
    observed step observe p a = some p' ↔
      step p.1 a = some p'.1 ∧ p'.2 = p.2 ++ observe p.1 p'.1 := by
  rw [observed, Option.map_eq_some_iff]
  constructor
  · rintro ⟨s', hs, rfl⟩
    exact ⟨hs, rfl⟩
  · rintro ⟨hs, htrace⟩
    exact ⟨p'.1, hs, Prod.ext rfl htrace.symm⟩

/-- The condition of a step, which does not depend on the trace. -/
def OnState (C : σ → α → Prop) (p : σ × List ω) : α → Prop :=
  C p.1

/-- **Every run has a trace**, whatever the observer looks at. -/
theorem Reaches.exists_observed (h : Reaches step C s s') (observe : σ → σ → List ω)
    (trace : List ω) :
    ∃ trace', Reaches (observed step observe) (OnState C) (s, trace) (s', trace') := by
  induction h with
  | refl => exact ⟨trace, Reaches.refl _⟩
  | @tail t t' _ hlast ih =>
      obtain ⟨before, hrun⟩ := ih
      obtain ⟨a, hC, ha⟩ := hlast
      exact ⟨before ++ observe t t', hrun.tail hC (observed_eq_some_iff.mpr ⟨ha, rfl⟩)⟩

end Runs
