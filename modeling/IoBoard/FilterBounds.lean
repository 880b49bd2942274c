import IoBoard.StepResponse

/-!
# Bounds of the Filtered Values

The filters on any sequence of readings, in exact arithmetic. Each filtered value is a step from
the previous one towards the reading, by a gain between zero and one, so it stays between the
readings that the filter has seen; the gain of the Kalman filter comes from its covariance, which
stays between zero and the larger of its first value and the measurement noise. A reading that
is no number leaves the filter as it was.

## Conventions

Numbers are rationals here. The filters are those of the model, at the number type `ℚ`, so what
the source computes is the same expression, without the rounding of floats; what the rounding does
is the subject of other modules. Parameters are any numbers: the constructors clamp them, and the
invariant starts from what they leave.

A filter is followed through a list of calls, of `filter` and of `reset`. The readings that count
are those since the last reset, and the first of them is taken as it is. "Between" means between
the smallest and the largest of a list of readings (`Between`).

## Contraction

A step maps the distance of the kept value to the reading to a part of it: exactly `1 - alpha` for
the exponential filter, and at most `r / (q + r)` for the Kalman filter, whose gain is least when
nothing is left of the covariance but the process noise.

## Main results

* `LoadcellFilter.bounded_createFilter`: filtered values lie between the readings since the
  filter was created or reset.
* `LoadcellFilter.ignoresErrors`: error readings may be left out.
* `LoadcellFilter.filters_bounded`: **the filters are bounded, contracting and never divide by
  zero**.
-/

open PyNumber hiding max min
open Relaxation

namespace IoBoard

/-! ### Calls of a filter -/

/-- A call of a filter: a reading, which is any text, or a reset. -/
inductive FilterCall
  | filter (value : Str)
  | reset
  deriving DecidableEq

/-- A reading that is no number, such as an error marker of the board. -/
def FilterCall.isError : FilterCall → Bool
  | filter value => (parseValue value : Option ℚ).isNone
  | reset => false

/-- The numeric readings since the filter was created or reset, with one more call: a reading
that is a number is added, a reset forgets them. -/
def noteCall (readings : List ℚ) : FilterCall → List ℚ
  | .filter value => readings ++ (parseValue value : Option ℚ).toList
  | .reset => []

/-- The numeric readings of some calls since the last reset among them. -/
def numericReadings (calls : List FilterCall) : List ℚ :=
  calls.foldl noteCall []

namespace LoadcellFilter

/-- The filter after a call. -/
def call (f : LoadcellFilter ℚ) : FilterCall → LoadcellFilter ℚ
  | .filter value => (f.filter value).1
  | .reset => f.reset

/-- The filter after some calls. -/
def run (f : LoadcellFilter ℚ) (calls : List FilterCall) : LoadcellFilter ℚ :=
  calls.foldl call f

/-- The readings of some calls, each with what `filter` returns on it, or raises. -/
def outputs (f : LoadcellFilter ℚ) : List FilterCall → List (Str × Except PyExc (Str × Option ℚ))
  | [] => []
  | .filter value :: calls => (value, (f.filter value).2) :: outputs (f.filter value).1 calls
  | .reset :: calls => outputs f.reset calls

/-- The value that the filter keeps, if it has been initialized. Without a filter nothing is
kept. -/
def value : LoadcellFilter ℚ → Option ℚ
  | noFilter => none
  | exponential f => f.previous
  | kalman f => f.x

@[simp] theorem run_append_singleton (f : LoadcellFilter ℚ) (calls : List FilterCall)
    (c : FilterCall) : f.run (calls ++ [c]) = (f.run calls).call c := by
  rw [run, List.foldl_append]
  rfl

variable {f : LoadcellFilter ℚ}

theorem holds_of_value {x : ℚ} (h : f.value = some x) : f.Holds x := by
  cases f with
  | noFilter => cases h
  | exponential f | kalman f => exact h

/-- The first reading is taken as it is, also after a reset. -/
theorem next_of_value_eq_none (h : f.value = none) (z : ℚ) : (f.next z).2 = z := by
  cases f with
  | noFilter => rfl
  | exponential f =>
      have hx : f.previous = none := h
      rw [next, ExponentialSmoothingFilter.next, hx]
  | kalman f =>
      have hx : f.x = none := h
      rw [next, KalmanFilter.next, hx]
      rfl

/-- A filter keeps what it returns, so the next step starts from there. -/
theorem value_next {z x : ℚ} (h : (f.next z).1.value = some x) : x = (f.next z).2 := by
  have hholds := f.holds_next z
  cases hf : (f.next z).1 with
  | noFilter =>
      rw [hf] at h
      cases h
  | exponential g | kalman g =>
      rw [hf] at h hholds
      exact Option.some.inj (h.symm.trans hholds)

@[simp] theorem value_reset (f : LoadcellFilter ℚ) : f.reset.value = none := by
  cases f <;> rfl

/-! ### Filtered values lie between the readings -/

/-- What holds of a filter with the readings since its last reset: its parameters are those that the
constructors leave, and its value lies between the readings. -/
structure Smooths (readings : List ℚ) (f : LoadcellFilter ℚ) : Prop where
  tuned : f.Tuned
  between : ∀ x, f.value = some x → Between readings x

/-- The next filtered value lies between the readings and the new one. -/
theorem Smooths.between_next {readings : List ℚ} (h : f.Smooths readings) (z : ℚ) :
    Between (readings ++ [z]) (f.next z).2 := by
  have hz : z ∈ readings ++ [z] := List.mem_append_right _ (List.mem_singleton_self z)
  cases hx : f.value with
  | none =>
      rw [next_of_value_eq_none hx]
      exact Between.of_mem hz
  | some x =>
      obtain ⟨h0, h1⟩ := h.tuned.gain_mem
      rw [next_eq (holds_of_value hx)]
      exact ((h.between x hx).mono (List.subset_append_left _ _)).towards hz h0 h1

theorem Smooths.call {readings : List ℚ} (h : f.Smooths readings) (c : FilterCall) :
    (f.call c).Smooths (noteCall readings c) := by
  cases c with
  | reset => exact ⟨h.tuned.reset, fun x hx => by cases (value_reset f).symm.trans hx⟩
  | filter text =>
      rw [LoadcellFilter.call, noteCall]
      cases hz : (parseValue text : Option ℚ) with
      | none =>
          rw [filter_of_parseValue_eq_none hz, Option.toList_none, List.append_nil]
          exact h
      | some z =>
          obtain ⟨_, hfilter⟩ := f.exists_filter hz
          rw [hfilter, Option.toList_some]
          refine ⟨h.tuned.next z, fun x hx => ?_⟩
          rw [value_next hx]
          exact h.between_next z

theorem smooths_run (method : FilterMethod) (alpha q r : ℚ) (calls : List FilterCall) :
    ((createFilter method alpha q r).run calls).Smooths (numericReadings calls) := by
  induction calls using List.reverseRecOn with
  | nil =>
      refine ⟨tuned_createFilter method alpha q r, fun x hx => ?_⟩
      have hnone : (createFilter method alpha q r).value = none := by
        rw [← reset_createFilter, value_reset]
      cases hnone.symm.trans hx
  | append_singleton calls c ih =>
      rw [run_append_singleton, numericReadings, List.foldl_append]
      exact ih.call c

/-- Each filtered value lies between the smallest and the largest numeric reading since the
filter was created or reset, the present one included. -/
def Bounded (f : LoadcellFilter ℚ) : Prop :=
  ∀ (calls : List FilterCall) (value : Str) (z : ℚ), parseValue value = some z →
    ∃ text v, ((f.run calls).filter value).2 = .ok (text, some v) ∧
      Between (numericReadings (calls ++ [.filter value])) v

theorem bounded_createFilter (method : FilterMethod) (alpha q r : ℚ) :
    (createFilter method alpha q r).Bounded := by
  intro calls value z hz
  obtain ⟨text, hfilter⟩ := ((createFilter method alpha q r).run calls).exists_filter hz
  refine ⟨text, _, by rw [hfilter], ?_⟩
  rw [numericReadings, List.foldl_append]
  have hnote : List.foldl noteCall (calls.foldl noteCall []) [.filter value] =
      numericReadings calls ++ [z] := by
    rw [List.foldl_cons, List.foldl_nil, noteCall, hz]
    rfl
  rw [hnote]
  exact (smooths_run method alpha q r calls).between_next z

/-! ### Error readings -/

/-- An error reading changes no state and is returned as it is, and without the error readings
the other outputs are the same. -/
def IgnoresErrors (f : LoadcellFilter ℚ) : Prop :=
  ∀ calls : List FilterCall,
    (∀ value, (parseValue value : Option ℚ) = none →
      (f.run calls).filter value = (f.run calls, .ok (value, none))) ∧
    f.outputs (calls.filter (!·.isError)) =
      (f.outputs calls).filter fun (value, _) => (parseValue value : Option ℚ).isSome

theorem ignoresErrors (f : LoadcellFilter ℚ) : f.IgnoresErrors := by
  intro calls
  refine ⟨fun value h => filter_of_parseValue_eq_none h _, ?_⟩
  induction calls generalizing f with
  | nil => rfl
  | cons c calls ih =>
      cases c with
      | reset => exact ih f.reset
      | filter value =>
          cases hz : (parseValue value : Option ℚ) with
          | none =>
              have herror : FilterCall.isError (.filter value) = true := by
                rw [FilterCall.isError, hz]
                rfl
              rw [List.filter_cons_of_neg (by simp [herror]), outputs,
                List.filter_cons_of_neg (by simp [hz]), filter_of_parseValue_eq_none hz]
              exact ih f
          | some z =>
              have herror : FilterCall.isError (.filter value) = false := by
                rw [FilterCall.isError, hz]
                rfl
              rw [List.filter_cons_of_pos (by simp [herror]), outputs, outputs,
                List.filter_cons_of_pos (by simp [hz]), ih]

/-! ### Steps -/

/-- A step on a numeric reading, from the value that the filter keeps. -/
theorem exists_step {x z : ℚ} {text : Str} (h : f.Tuned) (hx : f.value = some x)
    (hz : parseValue text = some z) : ∃ out v, (f.filter text).2 = .ok (out, some v) ∧
      |v - z| = (1 - f.gain) * |x - z| := by
  obtain ⟨out, hfilter⟩ := f.exists_filter hz
  refine ⟨out, _, by rw [hfilter], ?_⟩
  rw [next_eq (holds_of_value hx), abs_towards_sub h.gain_mem.2]

/-- The calls of a filter leave its smoothing factor as it is, and its kind. -/
theorem exists_run_exponential (f : ExponentialSmoothingFilter ℚ) (calls : List FilterCall) :
    ∃ previous, (exponential f).run calls = exponential { f with previous } := by
  induction calls using List.reverseRecOn with
  | nil => exact ⟨f.previous, rfl⟩
  | append_singleton calls c ih =>
      obtain ⟨previous, ih⟩ := ih
      rw [run_append_singleton, ih]
      cases c with
      | reset => exact ⟨none, rfl⟩
      | filter text =>
          cases hz : (parseValue text : Option ℚ) with
          | none => exact ⟨previous, congrArg Prod.fst (filter_of_parseValue_eq_none hz _)⟩
          | some z =>
              obtain ⟨_, hfilter⟩ := (exponential { f with previous }).exists_filter hz
              exact ⟨_, congrArg Prod.fst hfilter⟩

/-- The covariances of a Kalman filter: those of the noise stay what they are, and that of the
estimate between zero and the larger of one and the measurement noise. -/
structure Covariances (q r : ℚ) (f : KalmanFilter ℚ) : Prop where
  q_eq : f.q = q
  r_eq : f.r = r
  p_pos : 0 < f.p
  p_le : f.p ≤ max 1 r

section Covariances

variable {q r : ℚ} {f : KalmanFilter ℚ}

theorem Covariances.tuned (h : Covariances q r f) (hq : 0 < q) (hr : 0 < r) :
    (kalman f).Tuned :=
  ⟨h.q_eq ▸ hq, h.r_eq ▸ hr, h.p_pos.le⟩

/-- One step of the covariance recursion, which keeps the bounds. -/
theorem Covariances.next (h : Covariances q r f) (hq : 0 < q) (hr : 0 < r) (z : ℚ) :
    Covariances q r (f.next z) := by
  cases hx : f.x with
  | none =>
      have hnext : f.next z = { f with x := some z, p := 1 } := by
        rw [KalmanFilter.next, hx]
        rfl
      rw [hnext]
      exact ⟨h.q_eq, h.r_eq, zero_lt_one, le_max_left _ _⟩
  | some x =>
      have htuned := h.tuned hq hr
      have hp := kalman_next_p htuned hx z
      obtain ⟨hpos, hlt⟩ := htuned.kalman_gain
      have hqr : (f.next z).q = f.q ∧ (f.next z).r = f.r := by
        rw [KalmanFilter.next, hx]
        exact ⟨rfl, rfl⟩
      rw [h.r_eq] at hp
      refine ⟨hqr.1.trans h.q_eq, hqr.2.trans h.r_eq, ?_, ?_⟩
      · rw [hp]
        exact mul_pos hr hpos
      · rw [hp]
        exact (mul_le_of_le_one_right hr.le hlt.le).trans (le_max_right _ _)

theorem exists_run_kalman (h : Covariances q r f) (hq : 0 < q) (hr : 0 < r)
    (calls : List FilterCall) :
    ∃ g, (kalman f).run calls = kalman g ∧ Covariances q r g := by
  induction calls using List.reverseRecOn with
  | nil => exact ⟨f, rfl, h⟩
  | append_singleton calls c ih =>
      obtain ⟨g, hg, ih⟩ := ih
      rw [run_append_singleton, hg]
      cases c with
      | reset => exact ⟨_, rfl, ih.q_eq, ih.r_eq, zero_lt_one, le_max_left _ _⟩
      | filter text =>
          cases hz : (parseValue text : Option ℚ) with
          | none => exact ⟨g, congrArg Prod.fst (filter_of_parseValue_eq_none hz _), ih⟩
          | some z =>
              obtain ⟨_, hfilter⟩ := (kalman g).exists_filter hz
              exact ⟨_, congrArg Prod.fst hfilter, ih.next hq hr z⟩

/-- What is left of a distance is at most what the predicted covariance leaves at least. -/
theorem Covariances.one_sub_gain_le (h : Covariances q r f) (hq : 0 < q) (hr : 0 < r) :
    1 - (kalman f).gain ≤ r / (q + r) := by
  have hp := h.p_pos
  have hgain : 1 - (kalman f).gain = r / (f.p + q + r) := by
    rw [gain, h.q_eq, h.r_eq]
    field_simp
    ring
  rw [hgain]
  exact div_le_div_of_nonneg_left hr.le (by linarith) (by linarith)

end Covariances

/-! ### The two filters -/

/-- Each step on a reading `z` maps the distance to `z` to a `1 - alpha` part of it, after any
calls. -/
def ExponentialSteps (alpha : ℚ) (f : LoadcellFilter ℚ) : Prop :=
  ∀ (calls : List FilterCall) (value : Str) (x z : ℚ), (f.run calls).value = some x →
    parseValue value = some z → ∃ text v,
      ((f.run calls).filter value).2 = .ok (text, some v) ∧ |v - z| = (1 - alpha) * |x - z|

/-- After any calls the filter is a Kalman filter with a positive covariance of at most `1` or
`r`, a positive denominator and a gain between zero and one, and each step on a reading `z` maps
the distance to `z` to at most an `r / (q + r)` part of it. -/
def KalmanSteps (q r : ℚ) (f : LoadcellFilter ℚ) : Prop :=
  ∀ calls : List FilterCall, ∃ g : KalmanFilter ℚ, f.run calls = kalman g ∧
    0 < g.p ∧ g.p ≤ max 1 r ∧ 0 < g.p + g.q + g.r ∧
    0 < (g.p + g.q) / (g.p + g.q + g.r) ∧ (g.p + g.q) / (g.p + g.q + g.r) < 1 ∧
    ∀ (value : Str) (x z : ℚ), g.x = some x → parseValue value = some z → ∃ text v,
      ((kalman g).filter value).2 = .ok (text, some v) ∧ |v - z| ≤ r / (q + r) * |x - z|

theorem exponentialSteps (alpha q r : ℚ) :
    (createFilter .exponential alpha q r).ExponentialSteps (max 0 (min 1 alpha)) := by
  intro calls value x z hx hz
  have htuned := (smooths_run .exponential alpha q r calls).tuned
  obtain ⟨text, v, hfilter, hstep⟩ := exists_step htuned hx hz
  obtain ⟨previous, hrun⟩ := exists_run_exponential (.new alpha) calls
  have hgain : ((createFilter .exponential alpha q r).run calls).gain =
      max 0 (min 1 alpha) := by
    rw [createFilter, hrun, gain, ExponentialSmoothingFilter.new, max_rat, min_rat, ofRat_rat,
      ofRat_rat]
  rw [hgain] at hstep
  exact ⟨text, v, hfilter, hstep⟩

theorem kalmanSteps (alpha q r : ℚ) : (createFilter .kalman alpha q r).KalmanSteps
    (max (1 / 10000) q) (max (1 / 10000) r) := by
  intro calls
  have hpos (x : ℚ) : 0 < max (1 / 10000) x := lt_max_of_lt_left (by norm_num)
  have hnew : Covariances (max (1 / 10000) q) (max (1 / 10000) r) (.new q r) :=
    ⟨max_rat _ _, max_rat _ _, zero_lt_one, le_max_left _ _⟩
  obtain ⟨g, hrun, hg⟩ := exists_run_kalman hnew (hpos q) (hpos r) calls
  have htuned := hg.tuned (hpos q) (hpos r)
  obtain ⟨hgain, hlt⟩ := htuned.kalman_gain
  have hden : 0 < g.p + g.q + g.r := by
    have := hg.p_pos
    linarith [htuned.1, htuned.2.1]
  refine ⟨g, hrun, hg.p_pos, hg.p_le, hden, hgain, hlt, fun value x z hx hz => ?_⟩
  obtain ⟨text, v, hfilter, hstep⟩ := exists_step htuned (x := x) hx hz
  refine ⟨text, v, hfilter, ?_⟩
  rw [hstep]
  exact mul_le_mul_of_nonneg_right (hg.one_sub_gain_le (hpos q) (hpos r)) (abs_nonneg _)

/-- **The filters are bounded, contracting and never divide by zero**, with any parameters after
the clamping of the constructors, and on any readings, errors and resets. -/
theorem filters_bounded (alpha q r : ℚ) :
    ((createFilter .exponential alpha q r).Bounded ∧
      (createFilter .exponential alpha q r).IgnoresErrors ∧
      (createFilter .exponential alpha q r).ExponentialSteps (max 0 (min 1 alpha))) ∧
    ((createFilter .kalman alpha q r).Bounded ∧
      (createFilter .kalman alpha q r).IgnoresErrors ∧
      (createFilter .kalman alpha q r).KalmanSteps (max (1 / 10000) q) (max (1 / 10000) r)) :=
  ⟨⟨bounded_createFilter .exponential alpha q r, ignoresErrors _, exponentialSteps alpha q r⟩,
    bounded_createFilter .kalman alpha q r, ignoresErrors _, kalmanSteps alpha q r⟩

end LoadcellFilter

end IoBoard
