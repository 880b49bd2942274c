import IoBoard.StepResponse
import IoBoard.Lib.RoundedRelaxation

/-!
# Filters on Floats

What the filters do on binary64 floats, where every operation rounds and may overflow. A
reading of the device has at most five digits and is far from the limits of the format, but
`float()` accepts larger ones, and the client that opens a stream sets the parameters.

## Filters that do not overflow

`Contained e` is the invariant: the parameters are as the constructors set them, and every value
that is kept is at most `2 ^ e` in magnitude, with `e` at most 1000. A reading within the same
bound is filtered to a value within it. For the Kalman filter the noise covariances have to be
bounded as well (`BoundedNoise`); the lower bound is the constructor's own clamp, which NaN
passes too, as NaN is not above it.

## Floats against exact arithmetic

`exact` is the filter with the same numbers, to go on without rounding. Over a constant reading
the values of the two part, but what a single frame moves differs by less than `margin`, in
every frame: `2 ^ e / 2 ^ 49` with smoothing and `2 ^ e / 2 ^ 28` with the Kalman filter, whose
gain is off too. Without a filter there is no difference.

## Main results

* `LoadcellFilter.Contained.next`: **a bounded reading keeps the filter**, and is filtered to a
  bounded value.
* `LoadcellFilter.steady_contained`: such filters take all bounded readings.
* `LoadcellFilter.Contained.exists_values`: **the values on the way** move by the shares of the
  same filter in exact arithmetic, except for less than the margin.
-/

namespace IoBoard

open Binary64 Relaxation PyFloat

/-- A finite float of magnitude at most `2 ^ e`. -/
def BoundedFloat (e : ℕ) (x : PyFloat) : Prop :=
  ∃ v : {q : ℚ // IsDouble q}, x = fin v ∧ |(v : ℚ)| ≤ 2 ^ e

/-- A noise covariance that is not too large for the filter. The comparison is Python's, and so
NaN is none that is too large: the constructor replaces it by its lower bound. -/
def BoundedNoise (x : PyFloat) : Prop :=
  ltB (ofRat (2 ^ 1000)) x = false

instance (x : PyFloat) : Decidable (BoundedNoise x) :=
  inferInstanceAs (Decidable (_ = _))

variable {e : ℕ}

/-- A bounded value can be rendered. -/
theorem BoundedFloat.exists_formatValue (he : e ≤ 1000) {x : PyFloat} (h : BoundedFloat e x) :
    ∃ text, formatValue x = .ok text := by
  obtain ⟨v, rfl, hv⟩ := h
  have hpow : (1 : ℚ) ≤ 2 ^ e := one_le_pow₀ one_le_two
  obtain ⟨d, hd⟩ : ∃ d, PyNumber.round1 (PyNumber.abs (fin v)) = fin d := by
    have hround := abs_roundEven_sub_le (10 * |(v : ℚ)|)
    obtain ⟨d, hd, -⟩ := exists_ofRat_of_le (q := roundEven (10 * |(v : ℚ)|) / 10)
      (k := e + 1) (by omega) (by
        rw [pow_succ 2 e]
        have hpos : (0 : ℚ) ≤ 2 ^ e * 2 / 2 ^ 53 := by positivity
        rw [abs_le] at hround ⊢
        constructor <;> linarith [abs_nonneg (v : ℚ)])
    exact ⟨d, hd⟩
  obtain ⟨n, hn⟩ : ∃ n, PyNumber.int? (fin d) = some n := ⟨_, rfl⟩
  rw [formatValue]
  dsimp only
  rw [hd, hn]
  split_ifs <;> exact ⟨_, rfl⟩

/-! ### One reading -/

variable {a b x : {q : ℚ // IsDouble q}}

theorem isDouble_one : IsDouble 1 := by
  simpa using isDouble_intCast (k := 1) (by norm_num)

/-- The weight that the value before keeps. It is rounded once, and not below zero. -/
theorem exists_one_sub {k : {q : ℚ // IsDouble q}} (h0 : 0 ≤ (k : ℚ)) (h1 : (k : ℚ) ≤ 1) :
    ∃ c : {q : ℚ // IsDouble q}, PyNumber.sub (PyNumber.ofRat 1) (fin k) = fin c ∧
      (c : ℚ) = nearest (1 - k) := by
  obtain ⟨c, hc, hnear, -⟩ := exists_ofRat_eq_fin (q := 1 - (k : ℚ)) isDouble_one
    (abs_le.mpr ⟨by linarith, by linarith⟩)
  have hone : (PyNumber.ofRat 1 : PyFloat) = fin ⟨1, isDouble_one⟩ := ofRat_of_isDouble _
  refine ⟨c, ?_, hnear⟩
  rw [hone]
  exact sub_fin.trans hc

/-- **A smoothed reading** is the rounded mean, and it is finite. -/
theorem exists_next_exponential (he : e ≤ 1000) {k : {q : ℚ // IsDouble q}} (h0 : 0 ≤ (k : ℚ))
    (h1 : (k : ℚ) ≤ 1) (hb : |(b : ℚ)| ≤ 2 ^ e) (hx : |(x : ℚ)| ≤ 2 ^ e) :
    ∃ y : {q : ℚ // IsDouble q},
      ExponentialSmoothingFilter.next ⟨fin k, some (fin x)⟩ (fin b) = fin y ∧
      (y : ℚ) = roundedMean k b x := by
  have hpow := isDouble_two_pow (k := e) (by omega)
  obtain ⟨c, hc, hcnear⟩ := exists_one_sub h0 h1
  obtain ⟨hc0, hc1, -⟩ := nearest_one_sub_mem h0 h1
  obtain ⟨s, hs, hsnear, -⟩ := exists_ofRat_eq_fin hpow (abs_mul_le_two_pow h0 h1 hb)
  obtain ⟨t, ht, htnear, -⟩ := exists_ofRat_eq_fin (q := c * x) hpow (by
    rw [hcnear]
    exact abs_mul_le_two_pow hc0 hc1 hx)
  obtain ⟨y, hy, hynear, -⟩ := exists_ofRat_of_le (q := s + t) (k := e) (by omega) (by
    rw [hsnear, htnear, hcnear]
    exact abs_mean_le k.2.1 h0 h1 hb hx)
  refine ⟨y, ?_, ?_⟩
  · calc
      ExponentialSmoothingFilter.next ⟨fin k, some (fin x)⟩ (fin b) =
          add (ofRat (k * b)) (mul (PyNumber.sub (PyNumber.ofRat 1) (fin k)) (fin x)) := rfl
      _ = add (ofRat (k * b)) (ofRat (c * x)) := by rw [hc, mul_fin]
      _ = fin y := by rw [hs, ht, add_fin, hy]
  · rw [hynear, hsnear, htnear, hcnear, roundedMean]

/-- **A reading of the Kalman filter** is a rounded step, with the rounded gain and
covariance. -/
theorem exists_next_kalman (he : e ≤ 1000) {q r p : {q : ℚ // IsDouble q}}
    (h : Moderate q r) (hp : InRange (q : ℚ) r p) (hb : |(b : ℚ)| ≤ 2 ^ e)
    (hx : |(x : ℚ)| ≤ 2 ^ e) :
    ∃ y p' : {q : ℚ // IsDouble q},
      KalmanFilter.next ⟨fin q, fin r, some (fin x), fin p⟩ (fin b) =
        ⟨fin q, fin r, some (fin y), fin p'⟩ ∧
      (y : ℚ) = roundedStep (roundedGain r (nearest (p + q))) b x ∧
      (p' : ℚ) = roundedCovariance r (nearest (p + q)) := by
  have hpred := hp.predicted h
  have hr : 0 < (r : ℚ) := lt_of_lt_of_le (by positivity) h.r_low
  have hq : 0 < (q : ℚ) := lt_of_lt_of_le (by positivity) h.q_low
  have hpos : 0 < nearest ((p : ℚ) + q) := lt_of_lt_of_le (by positivity) hpred.low
  have hhigh := h.le_two_pow hpred.high
  obtain ⟨hp0, hp1⟩ := hp
  obtain ⟨hk0, hk1⟩ := roundedGain_mem hpred.rounded hpos hr.le
  -- the gain
  obtain ⟨pp, hpp, hppnear, -⟩ := exists_ofRat_eq_fin (q := (p : ℚ) + q)
    (isDouble_two_pow (k := 1003) (by norm_num)) (by
      rw [abs_of_nonneg (by linarith)]
      exact h.le_two_pow (by linarith))
  rw [← hppnear] at hpred hpos hhigh hk0 hk1
  obtain ⟨s, hs, hsnear, -⟩ := exists_ofRat_eq_fin (q := (pp : ℚ) + r)
    (isDouble_two_pow (k := 1004) (by norm_num)) (by
      rw [abs_of_pos (by linarith), pow_succ 2 1003]
      have hrhigh := h.r_high
      have hle : (2 : ℚ) ^ 1000 ≤ 2 ^ 1003 := pow_le_pow_right₀ one_le_two (by norm_num)
      generalize (2 : ℚ) ^ 1003 = top at hhigh hle ⊢
      generalize (2 : ℚ) ^ 1000 = most at hrhigh hle
      linarith)
  obtain ⟨k, hk, hknear, -⟩ := exists_ofRat_eq_fin (q := (pp : ℚ) / s) isDouble_one (by
    obtain ⟨hlow, hle⟩ := div_nearest_add_mem hpred.rounded hpos hr.le
    rw [hsnear, abs_of_nonneg hlow]
    exact hle)
  -- the value
  obtain ⟨d, hd, hdnear, hdle⟩ := exists_ofRat_eq_fin (q := (b : ℚ) - x)
    (isDouble_two_pow (k := e + 1) (by omega)) (by
      rw [abs_le] at hb hx ⊢
      rw [pow_succ 2 e]
      constructor <;> linarith)
  have hkgain : (k : ℚ) = roundedGain r pp := by rw [hknear, hsnear, roundedGain]
  rw [← hkgain] at hk0 hk1
  obtain ⟨m, hm, hmnear, -⟩ := exists_ofRat_eq_fin (isDouble_two_pow (k := e + 1) (by omega))
    (abs_mul_le_two_pow hk0 hk1 hdle)
  obtain ⟨y, hy, hynear, -⟩ := exists_ofRat_of_le (q := x + m) (k := e) (by omega) (by
    rw [hmnear, hdnear]
    exact abs_step_le hk0 hk1 hb hx)
  -- the covariance
  obtain ⟨c, hc, hcnear⟩ := exists_one_sub hk0 hk1
  obtain ⟨hc0, hc1, -⟩ := nearest_one_sub_mem hk0 hk1
  obtain ⟨p', hp', hp'near, -⟩ := exists_ofRat_eq_fin (q := c * pp) pp.2 (by
    rw [hcnear, abs_of_nonneg (mul_nonneg hc0 hpos.le)]
    exact mul_le_of_le_one_left hpos.le hc1)
  refine ⟨y, p', ?_, ?_, ?_⟩
  · have hgain : PyNumber.div (PyNumber.add (fin p) (fin q))
        (PyNumber.add (PyNumber.add (fin p) (fin q)) (fin r)) = fin k := by
      calc
        PyNumber.div (PyNumber.add (fin p) (fin q))
            (PyNumber.add (PyNumber.add (fin p) (fin q)) (fin r)) =
            div (ofRat (p + q)) (add (ofRat (p + q)) (fin r)) := rfl
        _ = fin k := by rw [hpp, add_fin, hs, div_fin, hk]
    have hvalue : PyNumber.add (fin x) (PyNumber.mul (fin k) (PyNumber.sub (fin b) (fin x))) =
        fin y := by
      calc
        PyNumber.add (fin x) (PyNumber.mul (fin k) (PyNumber.sub (fin b) (fin x))) =
            add (fin x) (mul (fin k) (sub (fin b) (fin x))) := rfl
        _ = fin y := by rw [sub_fin, hd, mul_fin, hm, add_fin, hy]
    have hcovariance : PyNumber.mul (PyNumber.sub (PyNumber.ofRat 1) (fin k))
        (PyNumber.add (fin p) (fin q)) = fin p' := by
      calc
        PyNumber.mul (PyNumber.sub (PyNumber.ofRat 1) (fin k)) (PyNumber.add (fin p) (fin q)) =
            mul (PyNumber.sub (PyNumber.ofRat 1) (fin k)) (ofRat (p + q)) := rfl
        _ = fin p' := by rw [hc, hpp, mul_fin, hp']
    rw [KalmanFilter.next]
    dsimp only
    rw [hgain, hvalue, hcovariance]
  · rw [hynear, hmnear, hdnear, hkgain, hppnear, roundedStep]
  · rw [hp'near, hcnear, hkgain, hppnear, roundedCovariance]

namespace LoadcellFilter

/-! ### Filters that do not overflow -/

/-- Parameters as the constructors set them, and values of magnitude at most `2 ^ e`. The
covariance of a Kalman filter is in its range. -/
def Contained (e : ℕ) : LoadcellFilter PyFloat → Prop
  | noFilter => True
  | exponential f => (∃ k : {q : ℚ // IsDouble q}, f.alpha = fin k ∧ 0 ≤ (k : ℚ) ∧ (k : ℚ) ≤ 1) ∧
      ∀ x, f.previous = some x → BoundedFloat e x
  | kalman f => (∃ q r p : {q : ℚ // IsDouble q}, f.q = fin q ∧ f.r = fin r ∧ f.p = fin p ∧
      Moderate q r ∧ InRange (q : ℚ) r p) ∧ ∀ x, f.x = some x → BoundedFloat e x

/-- A noise covariance as the constructor sets it: at least the float of a ten-thousandth, which is
above `2 ^ -14`. -/
theorem exists_max_noise {x : PyFloat} (h : BoundedNoise x) : ∃ v : {q : ℚ // IsDouble q},
    PyNumber.max (PyNumber.ofRat (1 / 10000)) x = fin v ∧ 1 / 2 ^ 14 ≤ (v : ℚ) ∧
      (v : ℚ) ≤ 2 ^ 1000 := by
  obtain ⟨v, hv, hlow, hhigh⟩ : ∃ v : {q : ℚ // IsDouble q},
      (PyNumber.ofRat (1 / 10000) : PyFloat) = fin v ∧ 1 / 2 ^ 14 ≤ (v : ℚ) ∧ (v : ℚ) ≤ 1 := by
    have hround : 1 / 2 ^ 14 ≤ nearest (1 / 10000) ∧ nearest (1 / 10000) ≤ 1 := by decide +kernel
    obtain ⟨v, hv, hnear, -⟩ := exists_ofRat_eq_fin (q := 1 / 10000) isDouble_one
      (by norm_num [abs_of_pos])
    exact ⟨v, hv, hnear ▸ hround.1, hnear ▸ hround.2⟩
  have hone : (1 : ℚ) ≤ 2 ^ 1000 := one_le_pow₀ one_le_two
  have hleast : ∃ u : {q : ℚ // IsDouble q}, fin v = fin u ∧ 1 / 2 ^ 14 ≤ (u : ℚ) ∧
      (u : ℚ) ≤ 2 ^ 1000 := ⟨v, rfl, hlow, hhigh.trans hone⟩
  rw [BoundedNoise, ofRat_of_isDouble (isDouble_two_pow (by norm_num))] at h
  rw [PyNumber.max, hv]
  split_ifs with hlt
  · cases x with
    | nan => cases hlt
    | inf s =>
        cases s
        · cases h
        · cases hlt
    | fin a =>
        have hlt' : (v : ℚ) < a := of_decide_eq_true hlt
        rw [ltB_fin, decide_eq_false_iff_not, not_lt] at h
        exact ⟨a, rfl, hlow.trans hlt'.le, h⟩
  · exact hleast

/-- The smoothing factor as the constructor sets it. -/
theorem exists_clamp_alpha (alpha : PyFloat) : ∃ k : {q : ℚ // IsDouble q},
    PyNumber.max (PyNumber.ofRat 0) (PyNumber.min (PyNumber.ofRat 1) alpha) = fin k ∧
      0 ≤ (k : ℚ) ∧ (k : ℚ) ≤ 1 := by
  have hzero : (PyNumber.ofRat 0 : PyFloat) = fin ⟨0, isDouble_zero⟩ := ofRat_of_isDouble _
  have hone : (PyNumber.ofRat 1 : PyFloat) = fin ⟨1, isDouble_one⟩ := ofRat_of_isDouble _
  -- what is not above one is capped at zero, whatever it is
  have hcap (x : PyFloat) (hx : ∀ a : {q : ℚ // IsDouble q}, x = fin a → (a : ℚ) ≤ 1)
      (hinf : x ≠ inf false) : ∃ k : {q : ℚ // IsDouble q},
      PyNumber.max (fin ⟨0, isDouble_zero⟩) x = fin k ∧ 0 ≤ (k : ℚ) ∧ (k : ℚ) ≤ 1 := by
    rw [PyNumber.max]
    split_ifs with hlt
    · cases x with
      | nan => cases hlt
      | inf s =>
          cases s
          · exact absurd rfl hinf
          · cases hlt
      | fin a => exact ⟨a, rfl, (of_decide_eq_true hlt).le, hx a rfl⟩
    · exact ⟨_, rfl, le_rfl, zero_le_one⟩
  rw [hzero, hone, PyNumber.min]
  split_ifs with hlt
  · refine hcap alpha ?_ ?_
    · rintro a rfl
      exact (of_decide_eq_true hlt).le
    · rintro rfl
      cases hlt
  · refine hcap _ ?_ (by simp)
    intro a ha
    obtain rfl := fin.inj ha
    exact le_rfl

theorem contained_createFilter (method : FilterMethod) (alpha : PyFloat) {q r : PyFloat}
    (hq : BoundedNoise q) (hr : BoundedNoise r) :
    (createFilter method alpha q r).Contained e := by
  cases method with
  | none => trivial
  | exponential => exact ⟨exists_clamp_alpha alpha, fun _ hx => nomatch hx⟩
  | kalman =>
      obtain ⟨u, hu, hu0, hu1⟩ := exists_max_noise hq
      obtain ⟨v, hv, hv0, hv1⟩ := exists_max_noise hr
      have hmoderate : Moderate (u : ℚ) v := ⟨hu0, hu1, hv0, hv1⟩
      exact ⟨⟨u, v, ⟨1, isDouble_one⟩, hu, hv, ofRat_of_isDouble _, hmoderate,
        hmoderate.inRange_one⟩, fun _ hx => nomatch hx⟩

theorem Contained.reset {f : LoadcellFilter PyFloat} (h : f.Contained e) :
    f.reset.Contained e := by
  cases f with
  | noFilter => trivial
  | exponential f => exact ⟨h.1, fun _ hx => nomatch hx⟩
  | kalman f =>
      obtain ⟨⟨q, r, -, hq, hr, -, hmoderate, -⟩, -⟩ := h
      exact ⟨⟨q, r, ⟨1, isDouble_one⟩, hq, hr, ofRat_of_isDouble _, hmoderate,
        hmoderate.inRange_one⟩, fun _ hx => nomatch hx⟩

/-- **A bounded reading keeps the filter**, and is filtered to a bounded value. There is no
overflow on the way. -/
theorem Contained.next (he : e ≤ 1000) {f : LoadcellFilter PyFloat} (h : f.Contained e)
    {b : PyFloat} (hb : BoundedFloat e b) :
    BoundedFloat e (f.next b).2 ∧ (f.next b).1.Contained e := by
  cases f with
  | noFilter => exact ⟨hb, trivial⟩
  | exponential f =>
      obtain ⟨alpha, previous⟩ := f
      obtain ⟨⟨k, hk, h0, h1⟩, hprevious⟩ := h
      have hbounded : BoundedFloat e (ExponentialSmoothingFilter.next ⟨alpha, previous⟩ b) := by
        cases previous with
        | none => exact hb
        | some x =>
            obtain ⟨v, rfl, hv⟩ := hprevious x rfl
            obtain ⟨w, rfl, hw⟩ := hb
            obtain rfl : alpha = fin k := hk
            obtain ⟨y, hy, hvalue⟩ := exists_next_exponential he h0 h1 hw hv
            exact ⟨y, hy, hvalue ▸ abs_roundedMean_le k.2.1 h0 h1 hw hv⟩
      refine ⟨hbounded, ⟨k, hk, h0, h1⟩, fun x hx => ?_⟩
      obtain rfl := Option.some.inj hx
      exact hbounded
  | kalman f =>
      obtain ⟨q', r', x', p'⟩ := f
      obtain ⟨⟨q, r, p, hq, hr, hp, hmoderate, hrange⟩, hx⟩ := h
      obtain rfl : q' = fin q := hq
      obtain rfl : r' = fin r := hr
      obtain rfl : p' = fin p := hp
      cases x' with
      | none =>
          refine ⟨hb, ⟨q, r, ⟨1, isDouble_one⟩, rfl, rfl, ofRat_of_isDouble _, hmoderate,
            hmoderate.inRange_one⟩, fun x hx => ?_⟩
          obtain rfl := Option.some.inj hx
          exact hb
      | some x =>
          obtain ⟨v, rfl, hv⟩ := hx x rfl
          obtain ⟨w, rfl, hw⟩ := hb
          obtain ⟨y, p', hnext, hvalue, hcovariance⟩ := exists_next_kalman he hmoderate hrange hw hv
          have hpred := hrange.predicted hmoderate
          obtain ⟨hk0, hk1⟩ := roundedGain_mem hpred.rounded
            (lt_of_lt_of_le (by positivity) hpred.low) (le_trans (by positivity) hmoderate.r_low)
          have hbounded : BoundedFloat e (fin y) :=
            ⟨y, rfl, hvalue ▸ abs_roundedStep_le hk0 hk1 hw hv⟩
          rw [LoadcellFilter.next, hnext]
          refine ⟨hbounded, ⟨q, r, p', rfl, rfl, rfl, hmoderate, ?_⟩, fun x hx => ?_⟩
          · rw [hcovariance]
            exact hpred.inRange hmoderate
          · obtain rfl := Option.some.inj hx
            exact hbounded

/-- Filters that do not overflow take all bounded readings. -/
theorem steady_contained (he : e ≤ 1000) : Steady (Contained e) (BoundedFloat e) where
  format := fun _ _ h hb => (h.next he hb).1.exists_formatValue he
  next := fun _ _ h hb => (h.next he hb).2
  reset := fun _ h => h.reset

/-! ### The values on the way -/

/-- The filter with its numbers as they are, to go on in exact arithmetic. Its parameters are
those that the constructor has rounded. -/
def exact : LoadcellFilter PyFloat → LoadcellFilter ℚ
  | noFilter => noFilter
  | exponential f => exponential ⟨f.alpha.toRat, f.previous.map toRat⟩
  | kalman f => kalman ⟨f.q.toRat, f.r.toRat, f.x.map toRat, f.p.toRat⟩

/-- How far what a frame compares on floats may be from what it compares in exact arithmetic. For
readings of the device `e` is 17, and the margin is far below a tenth of a gram. -/
def margin (e : ℕ) : LoadcellFilter PyFloat → ℚ
  | noFilter => 0
  | exponential _ => 2 ^ e / 2 ^ 49
  | kalman _ => 2 ^ e / 2 ^ 28

theorem Contained.tuned_exact {f : LoadcellFilter PyFloat} (h : f.Contained e) :
    f.exact.Tuned := by
  cases f with
  | noFilter => trivial
  | exponential f =>
      obtain ⟨⟨k, hk, h0, h1⟩, -⟩ := h
      rw [exact, hk]
      exact ⟨h0, h1⟩
  | kalman f =>
      obtain ⟨⟨q, r, p, hq, hr, hp, hmoderate, hrange⟩, -⟩ := h
      rw [exact, hq, hr, hp]
      exact ⟨lt_of_lt_of_le (by positivity) hmoderate.q_low,
        lt_of_lt_of_le (by positivity) hmoderate.r_low, hrange.1⟩

theorem holds_exact {f : LoadcellFilter PyFloat} (h : f.Holds (fin a)) : f.exact.Holds (a : ℚ) := by
  cases f with
  | noFilter => trivial
  | exponential f => exact congrArg (Option.map toRat) h
  | kalman f => exact congrArg (Option.map toRat) h

/-- Smoothed values move by the shares of the smoothing factor. -/
theorem exists_values_exponential (he : e ≤ 1000) {k : {q : ℚ // IsDouble q}} (h0 : 0 ≤ (k : ℚ))
    (h1 : (k : ℚ) ≤ 1) (hb : |(b : ℚ)| ≤ 2 ^ e) (ha : |(a : ℚ)| ≤ 2 ^ e) :
    ∃ x : ℕ → {q : ℚ // IsDouble q}, (∀ n, |(x n : ℚ)| ≤ 2 ^ e ∧
      (exponential ⟨fin k, some (fin a)⟩).values (fin a) (fin b) n = fin (x n)) ∧
      ∀ n, |(x (n + 1) : ℚ) - x n - share (fun _ => (k : ℚ)) n * (b - a)| ≤ 2 ^ e / 2 ^ 50 := by
  have hway (n : ℕ) : ∃ v : {q : ℚ // IsDouble q}, |(v : ℚ)| ≤ 2 ^ e ∧
      (exponential ⟨fin k, some (fin a)⟩).values (fin a) (fin b) n = fin v ∧
      (exponential ⟨fin k, some (fin a)⟩).after (fin b) n =
        exponential ⟨fin k, some (fin v)⟩ := by
    induction n with
    | zero => exact ⟨a, ha, rfl, rfl⟩
    | succ n ih =>
        obtain ⟨v, hv, -, hafter⟩ := ih
        obtain ⟨y, hy, hvalue⟩ := exists_next_exponential he h0 h1 hb hv
        refine ⟨y, hvalue ▸ abs_roundedMean_le k.2.1 h0 h1 hb hv, ?_, ?_⟩
        · rw [values, hafter, LoadcellFilter.next, hy]
        · rw [after, hafter, LoadcellFilter.next, hy]
  choose x hx hvalues hafter using hway
  have hzero : x 0 = a := (fin.inj (hvalues 0)).symm
  have hstep : ∀ n, (x (n + 1) : ℚ) = roundedMean k b (x n) := by
    intro n
    obtain ⟨y, hy, hvalue⟩ := exists_next_exponential he h0 h1 hb (hx n)
    have hnext := hvalues (n + 1)
    rw [values, hafter, LoadcellFilter.next, hy] at hnext
    rw [← fin.inj hnext, hvalue]
  refine ⟨x, fun n => ⟨hx n, hvalues n⟩, fun n => ?_⟩
  have hmoves := abs_roundedMean_sub_share_le (x := fun n => (x n : ℚ)) k.2.1 h0 h1 hb (hx 0)
    hstep n
  rwa [hzero] at hmoves

/-- The values of a Kalman filter move by the shares of its gains. -/
theorem exists_values_kalman (he : e ≤ 1000) {q r p : {q : ℚ // IsDouble q}} (h : Moderate q r)
    (hp : InRange (q : ℚ) r p) (hb : |(b : ℚ)| ≤ 2 ^ e) (ha : |(a : ℚ)| ≤ 2 ^ e) :
    ∃ x : ℕ → {q : ℚ // IsDouble q}, (∀ n, |(x n : ℚ)| ≤ 2 ^ e ∧
      (kalman ⟨fin q, fin r, some (fin a), fin p⟩).values (fin a) (fin b) n = fin (x n)) ∧
      ∀ n, |(x (n + 1) : ℚ) - x n -
        share (gains (q : ℚ) r ((p + q) / (p + q + r))) n * (b - a)| ≤
          2 ^ e / 2 ^ 29 + 2 ^ e / 2 ^ 50 := by
  have hway (n : ℕ) : ∃ v c : {q : ℚ // IsDouble q}, |(v : ℚ)| ≤ 2 ^ e ∧
      (kalman ⟨fin q, fin r, some (fin a), fin p⟩).values (fin a) (fin b) n = fin v ∧
      (kalman ⟨fin q, fin r, some (fin a), fin p⟩).after (fin b) n =
        kalman ⟨fin q, fin r, some (fin v), fin c⟩ ∧
      (c : ℚ) = roundedCovariances q r p n := by
    induction n with
    | zero => exact ⟨a, p, ha, rfl, rfl, rfl⟩
    | succ n ih =>
        obtain ⟨v, c, hv, -, hafter, hc⟩ := ih
        have hrange := hp.covariances h n
        rw [← hc] at hrange
        obtain ⟨y, c', hnext, hvalue, hc'⟩ := exists_next_kalman he h hrange hb hv
        obtain ⟨hk0, hk1⟩ := hp.gains_mem h n
        rw [roundedGains, ← hc] at hk0 hk1
        refine ⟨y, c', hvalue ▸ abs_roundedStep_le hk0 hk1 hb hv, ?_, ?_, ?_⟩
        · rw [values, hafter, LoadcellFilter.next, hnext]
          rfl
        · rw [after, hafter, LoadcellFilter.next, hnext]
        · rw [hc', hc, roundedCovariances]
  choose x c hx hvalues hafter hc using hway
  have hzero : x 0 = a := (fin.inj (hvalues 0)).symm
  have hstep : ∀ n, (x (n + 1) : ℚ) = roundedStep (roundedGains q r p n) b (x n) := by
    intro n
    have hrange := hp.covariances h n
    rw [← hc] at hrange
    obtain ⟨y, c', hnext, hvalue, -⟩ := exists_next_kalman he h hrange hb (hx n)
    have hnext' := hvalues (n + 1)
    rw [values, hafter, LoadcellFilter.next, hnext] at hnext'
    rw [← fin.inj hnext', hvalue, roundedGains, hc]
  refine ⟨x, fun n => ⟨hx n, hvalues n⟩, fun n => ?_⟩
  have hmoves := hp.abs_roundedStep_sub_share_le (x := fun n => (x n : ℚ)) h hb (hx 0) hstep n
  rwa [hzero] at hmoves

/-- **The values on the way**: they move by the shares of the same filter in exact arithmetic,
except for less than the margin. -/
theorem Contained.exists_values (he : e ≤ 1000) {f : LoadcellFilter PyFloat} (h : f.Contained e)
    (hf : f ≠ noFilter) (ha : f.Holds (fin a)) (hb : |(b : ℚ)| ≤ 2 ^ e) :
    ∃ x : ℕ → {q : ℚ // IsDouble q},
      (∀ n, |(x n : ℚ)| ≤ 2 ^ e ∧ f.values (fin a) (fin b) n = fin (x n)) ∧
      ∀ n, |(x (n + 1) : ℚ) - x n - share (f.exact.gainSeq b) n * (b - a)| + 2 ^ e / 2 ^ 53 ≤
        f.margin e := by
  have hpow : (0 : ℚ) < 2 ^ e := by positivity
  have htuned := h.tuned_exact
  cases f with
  | noFilter => exact absurd rfl hf
  | exponential f =>
      obtain ⟨alpha, previous⟩ := f
      obtain ⟨⟨k, hk, h0, h1⟩, hprevious⟩ := h
      obtain rfl : alpha = fin k := hk
      obtain rfl : previous = some (fin a) := ha
      obtain ⟨v, hv, hle⟩ := hprevious _ rfl
      obtain rfl := fin.inj hv
      obtain ⟨x, hx, hmoves⟩ := exists_values_exponential he h0 h1 hb hle
      refine ⟨x, hx, fun n => ?_⟩
      rw [exact, gainSeq_exponential, margin]
      have := hmoves n
      dsimp only [toRat]
      linarith
  | kalman f =>
      obtain ⟨q', r', x', p'⟩ := f
      obtain ⟨⟨q, r, p, hq, hr, hp, hmoderate, hrange⟩, hvalue⟩ := h
      obtain rfl : q' = fin q := hq
      obtain rfl : r' = fin r := hr
      obtain rfl : p' = fin p := hp
      obtain rfl : x' = some (fin a) := ha
      obtain ⟨v, hv, hle⟩ := hvalue _ rfl
      obtain rfl := fin.inj hv
      obtain ⟨x, hx, hmoves⟩ := exists_values_kalman he hmoderate hrange hb hle
      refine ⟨x, hx, fun n => ?_⟩
      rw [exact] at htuned ⊢
      rw [gainSeq_kalman htuned rfl, gain, margin]
      have := hmoves n
      dsimp only [toRat]
      linarith

end LoadcellFilter

end IoBoard
