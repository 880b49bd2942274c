import IoBoard.Lib.Relaxation
import IoBoard.Lib.RoundingErrors

/-!
# Relaxation in Binary64

The steps of `IoBoard.Lib.Relaxation` as a program takes them on floats, every operation
rounded: a weighted mean of the value and its target, a step towards the target by a gain, and
the gain of a scalar Kalman filter with the covariance that it is computed from.

## What is bounded

Values and targets are between `-2 ^ e` and `2 ^ e`. In exact arithmetic a step stays there,
being a mean; a rounded step may step over the bound by what is rounded off, and is rounded back
to it, since a power of two is a number of the format with room above it
(`Binary64.abs_nearest_le_two_pow`). So the bound is an invariant of the run, with no slack that
grows with the number of steps.

Within the bound each operation errs by at most half of a spacing, and a step is off by some of
these, which `Relaxation.abs_sub_share_le` turns into a bound for the whole run.

## The Kalman filter

The gain is not given but computed, from a covariance that is computed from the gain before.
The recursion contracts relative errors, so the gains stay within a part of themselves of the
exact ones (`InRange.abs_gains_sub_le`), however many steps there are. That needs a covariance
that neither vanishes nor overflows: the noise covariances are between `2 ^ -14` and `2 ^ 1000`
(`Moderate`), which the lower clamp of a program and a condition on its parameters give.

## Main results

* `abs_roundedMean_sub_share_le`: **rounded means move by the shares of a constant gain**, except
  for some roundings.
* `InRange.abs_gains_sub_le`: **the rounded gains stay near the gains of the recursion**.
* `InRange.abs_roundedStep_sub_share_le`: rounded steps move by the shares of these.
-/

open Binary64

namespace Relaxation

/-! ### One step -/

/-- The weighted mean of the target `b` and the value `x`, rounded at every operation: two products,
the second weight and the sum. -/
def roundedMean (k b x : ℚ) : ℚ :=
  nearest (nearest (k * b) + nearest (nearest (1 - k) * x))

/-- The value `x` after a step towards `b`, rounded at every operation: the distance, the
product with the gain and the sum. -/
def roundedStep (k b x : ℚ) : ℚ :=
  nearest (x + nearest (k * nearest (b - x)))

section Step

variable {k b x : ℚ} {e : ℕ}

/-- The weight that the value keeps. -/
theorem nearest_one_sub_mem (h0 : 0 ≤ k) (h1 : k ≤ 1) :
    0 ≤ nearest (1 - k) ∧ nearest (1 - k) ≤ 1 ∧ |nearest (1 - k) - (1 - k)| ≤ 1 / 2 ^ 54 := by
  have hone : nearest 1 = 1 := by simpa using nearest_two_pow 0
  refine ⟨nearest_nonneg (by linarith), ?_, ?_⟩
  · rw [← hone]
    exact nearest_mono (by rw [hone]; linarith)
  · simpa using abs_nearest_sub_le_two_pow (q := 1 - k) (k := 0)
      (abs_le.mpr ⟨by rw [pow_zero]; linarith, by rw [pow_zero]; linarith⟩)

theorem abs_mul_le_two_pow (h0 : 0 ≤ k) (h1 : k ≤ 1) (hx : |x| ≤ 2 ^ e) : |k * x| ≤ 2 ^ e := by
  rw [abs_mul, abs_of_nonneg h0]
  exact (mul_le_of_le_one_left (abs_nonneg x) h1).trans hx

/-- A multiple by a number of the format is rounded to no more than that multiple of the
bound. -/
theorem abs_nearest_mul_le (hk : nearest k = k) (h0 : 0 ≤ k) (hx : |x| ≤ 2 ^ e) :
    |nearest (k * x)| ≤ k * 2 ^ e := by
  refine abs_nearest_le_of_le (nearest_mul_two_pow hk e) ?_
  rw [abs_mul, abs_of_nonneg h0]
  exact mul_le_mul_of_nonneg_left hx h0

/-- The mean does not step over the bound by more than is rounded off, so that rounding it leads
back within the bound. -/
theorem abs_mean_le (hk : nearest k = k) (h0 : 0 ≤ k) (h1 : k ≤ 1) (hb : |b| ≤ 2 ^ e)
    (hx : |x| ≤ 2 ^ e) :
    |nearest (k * b) + nearest (nearest (1 - k) * x)| ≤ 2 ^ e + 2 ^ e / 2 ^ 53 := by
  obtain ⟨hc0, -, hc⟩ := nearest_one_sub_mem h0 h1
  have hweights : k + nearest (1 - k) ≤ 1 + 1 / 2 ^ 54 := by
    have := (abs_le.mp hc).2
    linarith
  calc
    |nearest (k * b) + nearest (nearest (1 - k) * x)| ≤
        |nearest (k * b)| + |nearest (nearest (1 - k) * x)| := abs_add_le _ _
    _ ≤ k * 2 ^ e + nearest (1 - k) * 2 ^ e :=
      add_le_add (abs_nearest_mul_le hk h0 hb) (abs_nearest_mul_le (nearest_nearest _) hc0 hx)
    _ = (k + nearest (1 - k)) * 2 ^ e := by ring
    _ ≤ (1 + 1 / 2 ^ 54) * 2 ^ e := by gcongr
    _ ≤ 2 ^ e + 2 ^ e / 2 ^ 53 := by
      have : (0 : ℚ) < 2 ^ e := by positivity
      linarith

theorem abs_roundedMean_le (hk : nearest k = k) (h0 : 0 ≤ k) (h1 : k ≤ 1) (hb : |b| ≤ 2 ^ e)
    (hx : |x| ≤ 2 ^ e) : |roundedMean k b x| ≤ 2 ^ e :=
  abs_nearest_le_two_pow (abs_mean_le hk h0 h1 hb hx)

/-- **The rounded mean is a step by the weight of the target**, except for some roundings. -/
theorem abs_roundedMean_sub_le (hk : nearest k = k) (h0 : 0 ≤ k) (h1 : k ≤ 1) (hb : |b| ≤ 2 ^ e)
    (hx : |x| ≤ 2 ^ e) : |roundedMean k b x - (x + k * (b - x))| ≤ 2 ^ e / 2 ^ 51 := by
  obtain ⟨hc0, hc1, hc⟩ := nearest_one_sub_mem h0 h1
  have hpow : (0 : ℚ) < 2 ^ e := by positivity
  have hsum : |nearest (k * b) + nearest (nearest (1 - k) * x)| ≤ 2 ^ (e + 1) := by
    refine (abs_mean_le hk h0 h1 hb hx).trans ?_
    rw [pow_succ 2 e]
    linarith
  have hmean := abs_nearest_sub_le_two_pow hsum
  have hleft := abs_nearest_sub_le_two_pow (abs_mul_le_two_pow h0 h1 hb)
  have hright := abs_nearest_sub_le_two_pow (abs_mul_le_two_pow hc0 hc1 hx)
  have hweight : |(nearest (1 - k) - (1 - k)) * x| ≤ 1 / 2 ^ 54 * 2 ^ e := by
    rw [abs_mul]
    exact mul_le_mul hc hx (abs_nonneg x) (by positivity)
  have hsplit : roundedMean k b x - (x + k * (b - x)) =
      (roundedMean k b x - (nearest (k * b) + nearest (nearest (1 - k) * x))) +
        (nearest (k * b) - k * b) + (nearest (nearest (1 - k) * x) - nearest (1 - k) * x) +
        (nearest (1 - k) - (1 - k)) * x := by ring
  rw [pow_succ 2 e] at hmean
  rw [hsplit, roundedMean]
  rw [abs_le] at hmean hleft hright hweight ⊢
  constructor <;> linarith

/-- What is added to the value lies between nothing and the rounded distance. -/
theorem abs_step_le (h0 : 0 ≤ k) (h1 : k ≤ 1) (hb : |b| ≤ 2 ^ e) (hx : |x| ≤ 2 ^ e) :
    |x + nearest (k * nearest (b - x))| ≤ 2 ^ e + 2 ^ e / 2 ^ 53 := by
  wlog hle : x ≤ b generalizing b x
  · have hneg := this (b := -b) (x := -x) (by rwa [abs_neg]) (by rwa [abs_neg]) (by linarith)
    rwa [show -b - -x = -(b - x) by ring, nearest_neg, mul_neg, nearest_neg, ← neg_add,
      abs_neg] at hneg
  obtain ⟨hb0, hb1⟩ := abs_le.mp hb
  obtain ⟨hx0, hx1⟩ := abs_le.mp hx
  have hdist : 0 ≤ nearest (b - x) := nearest_nonneg (by linarith)
  have hlow : 0 ≤ nearest (k * nearest (b - x)) := nearest_nonneg (mul_nonneg h0 hdist)
  have hhigh : nearest (k * nearest (b - x)) ≤ nearest (b - x) := by
    conv_rhs => rw [← nearest_nearest]
    exact nearest_mono (mul_le_of_le_one_left hdist h1)
  have hround := abs_nearest_sub_le_two_pow (q := b - x) (k := e + 1) (by
    rw [abs_le, pow_succ 2 e]
    constructor <;> linarith)
  have hround' := (abs_le.mp hround).2
  rw [pow_succ 2 e] at hround'
  have hpow : (0 : ℚ) < 2 ^ e := by positivity
  exact abs_le.mpr ⟨by linarith, by linarith⟩

theorem abs_roundedStep_le (h0 : 0 ≤ k) (h1 : k ≤ 1) (hb : |b| ≤ 2 ^ e) (hx : |x| ≤ 2 ^ e) :
    |roundedStep k b x| ≤ 2 ^ e :=
  abs_nearest_le_two_pow (abs_step_le h0 h1 hb hx)

/-- **The rounded step is a step by its gain**, except for some roundings. -/
theorem abs_roundedStep_sub_le (h0 : 0 ≤ k) (h1 : k ≤ 1) (hb : |b| ≤ 2 ^ e) (hx : |x| ≤ 2 ^ e) :
    |roundedStep k b x - (x + k * (b - x))| ≤ 2 ^ e / 2 ^ 51 := by
  have hpow : (0 : ℚ) < 2 ^ e := by positivity
  have hsum : |x + nearest (k * nearest (b - x))| ≤ 2 ^ (e + 1) := by
    refine (abs_step_le h0 h1 hb hx).trans ?_
    rw [pow_succ 2 e]
    linarith
  have hdist : |b - x| ≤ 2 ^ (e + 1) := by
    rw [abs_le] at hb hx ⊢
    rw [pow_succ 2 e]
    constructor <;> linarith
  have hdist' : |nearest (b - x)| ≤ 2 ^ (e + 1) :=
    abs_nearest_le_of_le (nearest_two_pow (e + 1)) hdist
  have hstep := abs_nearest_sub_le_two_pow hsum
  have hpart := abs_nearest_sub_le_two_pow (abs_mul_le_two_pow h0 h1 hdist')
  have hgain : |k * (nearest (b - x) - (b - x))| ≤ 2 ^ (e + 1) / 2 ^ 54 := by
    rw [abs_mul, abs_of_nonneg h0]
    exact (mul_le_of_le_one_left (abs_nonneg _) h1).trans (abs_nearest_sub_le_two_pow hdist)
  have hsplit : roundedStep k b x - (x + k * (b - x)) =
      (roundedStep k b x - (x + nearest (k * nearest (b - x)))) +
        (nearest (k * nearest (b - x)) - k * nearest (b - x)) +
        k * (nearest (b - x) - (b - x)) := by ring
  rw [pow_succ 2 e] at hstep hpart hgain
  rw [hsplit, roundedStep]
  rw [abs_le] at hstep hpart hgain ⊢
  constructor <;> linarith

end Step

/-! ### The gain of a scalar Kalman filter -/

/-- Quotients of numbers that are off by a part of themselves: the parts add up, and a little
more. -/
theorem abs_div_sub_div_le {u v y z c : ℚ} (hy : 0 ≤ y) (hz : 0 < z) (hc : c ≤ 1 / 3)
    (hu : |u - y| ≤ c * y) (hv : |v - z| ≤ c * z) : |u / v - y / z| ≤ 3 * c * (y / z) := by
  have hlow : 2 / 3 * z ≤ v := by
    have := (abs_le.mp hv).1
    have := mul_le_mul_of_nonneg_right hc hz.le
    linarith
  have hpos : 0 < v := lt_of_lt_of_le (by positivity) hlow
  have hsplit : u / v - y / z = ((u - y) * z - y * (v - z)) / (v * z) := by
    field_simp
    ring
  have hnum : |(u - y) * z - y * (v - z)| ≤ 2 * c * y * z := by
    calc
      |(u - y) * z - y * (v - z)| ≤ |(u - y) * z| + |y * (v - z)| := abs_sub _ _
      _ = |u - y| * z + y * |v - z| := by
        rw [abs_mul, abs_mul, abs_of_pos hz, abs_of_nonneg hy]
      _ ≤ c * y * z + y * (c * z) := by gcongr
      _ = 2 * c * y * z := by ring
  rw [hsplit, abs_div, abs_of_pos (mul_pos hpos hz), div_le_iff₀ (mul_pos hpos hz)]
  have hpart : 0 ≤ c * y := (abs_nonneg _).trans hu
  calc
    |(u - y) * z - y * (v - z)| ≤ 2 * c * y * z := hnum
    _ = 3 * (c * y) * (2 / 3 * z) := by ring
    _ ≤ 3 * (c * y) * v := by gcongr
    _ = 3 * c * (y / z) * (v * z) := by
      field_simp

/-- The gain that a predicted covariance gives, rounded at every operation. The predicted covariance
itself has been rounded before. -/
def roundedGain (r p : ℚ) : ℚ :=
  nearest (p / nearest (p + r))

/-- The covariance after the step with that gain, rounded at every operation. -/
def roundedCovariance (r p : ℚ) : ℚ :=
  nearest (nearest (1 - roundedGain r p) * p)

/-- The covariance before the `n`-th step, from `p` on. -/
def roundedCovariances (q r p : ℚ) : ℕ → ℚ
  | 0 => p
  | n + 1 => roundedCovariance r (nearest (roundedCovariances q r p n + q))

/-- The gain of the `n`-th step. -/
def roundedGains (q r p : ℚ) (n : ℕ) : ℚ :=
  roundedGain r (nearest (roundedCovariances q r p n + q))

/-- Noise covariances that neither vanish beside a covariance of one nor overflow with it. -/
structure Moderate (q r : ℚ) : Prop where
  q_low : 1 / 2 ^ 14 ≤ q
  q_high : q ≤ 2 ^ 1000
  r_low : 1 / 2 ^ 14 ≤ r
  r_high : r ≤ 2 ^ 1000

/-- A normal number is rounded by a part of itself. -/
theorem abs_nearest_sub_le_of_normal {x : ℚ} (h : 1 / 2 ^ 1022 ≤ x) :
    |nearest x - x| ≤ x / 2 ^ 53 := by
  have hpos : 0 < x := lt_of_lt_of_le (by positivity) h
  have hnormal : (2 : ℚ) ^ (-1022 : ℤ) ≤ |x| := by
    rw [abs_of_pos hpos, zpow_neg, show (2 : ℚ) ^ (1022 : ℤ) = 2 ^ 1022 from zpow_natCast 2 1022,
      ← one_div]
    exact h
  have hround := abs_nearest_sub_le_mul hnormal
  rwa [abs_of_pos hpos] at hround

section Gain

variable {q r p a y c : ℚ}

/-- The quotient that the gain is rounded from. -/
theorem div_nearest_add_mem (hp : nearest p = p) (h0 : 0 < p) (hr : 0 ≤ r) :
    0 ≤ p / nearest (p + r) ∧ p / nearest (p + r) ≤ 1 := by
  have hsum : p ≤ nearest (p + r) := by
    conv_lhs => rw [← hp]
    exact nearest_mono (by linarith)
  exact ⟨div_nonneg h0.le (h0.le.trans hsum), (div_le_one (h0.trans_le hsum)).mpr hsum⟩

theorem roundedGain_mem (hp : nearest p = p) (h0 : 0 < p) (hr : 0 ≤ r) :
    0 ≤ roundedGain r p ∧ roundedGain r p ≤ 1 := by
  obtain ⟨hlow, hhigh⟩ := div_nearest_add_mem hp h0 hr
  have hone : nearest 1 = 1 := by simpa using nearest_two_pow 0
  refine ⟨nearest_nonneg hlow, ?_⟩
  calc
    roundedGain r p ≤ nearest 1 := nearest_mono hhigh
    _ = 1 := hone

/-- **The rounded gain**, of a predicted covariance that is off by the part `c` of itself. -/
theorem abs_roundedGain_sub_le (h : Moderate q r) (hlow : 1 / 2 ^ 14 ≤ y) (hhigh : y ≤ 2 ^ 1003)
    (hc : c ≤ 1 / 2 ^ 30) (ha : |a - y| ≤ c * y) :
    |roundedGain r (nearest a) - y / (y + r)| ≤ (3 * c + 1 / 2 ^ 49) * (y / (y + r)) := by
  have hy : 0 < y := lt_of_lt_of_le (by positivity) hlow
  have hr : 0 < r := lt_of_lt_of_le (by positivity) h.r_low
  have hc0 : 0 ≤ c := nonneg_of_mul_nonneg_left ((abs_nonneg _).trans ha) hy
  have hcy : c * y ≤ 1 / 2 ^ 30 * y := mul_le_mul_of_nonneg_right hc hy.le
  have hsmall : (1 : ℚ) / 2 ^ 1022 ≤ 1 / 2 ^ 15 :=
    one_div_le_one_div_of_le (by positivity) (pow_le_pow_right₀ one_le_two (by norm_num))
  obtain ⟨ha0, ha1⟩ := abs_le.mp ha
  -- the predicted covariance
  have hround := abs_nearest_sub_le_of_normal (x := a) (hsmall.trans (by linarith))
  have hp : |nearest a - y| ≤ (c + 1 / 2 ^ 52) * y := by
    rw [abs_le] at hround ⊢
    constructor <;> linarith
  obtain ⟨hp0, hp1⟩ := abs_le.mp hp
  generalize nearest a = p at hp hp0 hp1
  -- the divisor
  have hround' := abs_nearest_sub_le_of_normal (x := p + r) (hsmall.trans (by linarith))
  have hs : |nearest (p + r) - (y + r)| ≤ (c + 1 / 2 ^ 51) * (y + r) := by
    have hcr : 0 ≤ c * r := mul_nonneg hc0 hr.le
    rw [abs_le] at hround' ⊢
    constructor <;> linarith
  obtain ⟨hs0, hs1⟩ := abs_le.mp hs
  -- the quotient
  have hquot : |p / nearest (p + r) - y / (y + r)| ≤ 3 * (c + 1 / 2 ^ 51) * (y / (y + r)) := by
    refine abs_div_sub_div_le hy.le (by linarith) (by linarith) (hp.trans ?_) hs
    exact mul_le_mul_of_nonneg_right (by linarith) hy.le
  have hgain : 0 < y / (y + r) := div_pos hy (by linarith)
  have hcg : c * (y / (y + r)) ≤ 1 / 2 ^ 30 * (y / (y + r)) :=
    mul_le_mul_of_nonneg_right hc hgain.le
  have hnormal : 1 / 2 ^ 1022 ≤ p / nearest (p + r) := by
    have hpos : 0 < nearest (p + r) := by
      have := mul_le_mul_of_nonneg_right hc (by linarith : 0 ≤ y + r)
      linarith
    have hle : nearest (p + r) ≤ 2 ^ 1005 := by
      have := mul_le_mul_of_nonneg_right hc (by linarith : 0 ≤ y + r)
      have hrhigh := h.r_high
      rw [show (2 : ℚ) ^ 1003 = 2 ^ 3 * 2 ^ 1000 from pow_add 2 3 1000] at hhigh
      rw [show (2 : ℚ) ^ 1005 = 2 ^ 5 * 2 ^ 1000 from pow_add 2 5 1000]
      generalize (2 : ℚ) ^ 1000 = top at hhigh hrhigh ⊢
      linarith
    rw [le_div_iff₀ hpos]
    calc
      1 / 2 ^ 1022 * nearest (p + r) ≤ 1 / 2 ^ 1022 * 2 ^ 1005 := by gcongr
      _ = 1 / 2 ^ 17 := by
        rw [show (2 : ℚ) ^ 1022 = 2 ^ 1005 * 2 ^ 17 from pow_add 2 1005 17]
        field_simp
      _ ≤ p := by linarith
  have hround'' := abs_nearest_sub_le_of_normal hnormal
  rw [roundedGain]
  generalize p / nearest (p + r) = k at hquot hround''
  generalize y / (y + r) = g at *
  rw [abs_le] at hquot hround'' ⊢
  constructor <;> linarith

/-- The covariance that a filter with these noise covariances can have, from the first one on. -/
def InRange (q r p : ℚ) : Prop :=
  0 ≤ p ∧ p ≤ 1 + 2 * r + q

/-- A covariance of one, as a filter starts with. -/
theorem Moderate.inRange_one (h : Moderate q r) : InRange q r 1 := by
  have hq := h.q_low
  have hr := h.r_low
  have hpos : (0 : ℚ) < 1 / 2 ^ 14 := by positivity
  exact ⟨zero_le_one, by linarith⟩

/-- A predicted covariance: a number of the format, within the bounds that a covariance in range and
the process noise give it. -/
structure Predicted (q r p : ℚ) : Prop where
  rounded : nearest p = p
  low : 1 / 2 ^ 14 ≤ p
  high : p ≤ (1 + 1 / 2 ^ 53) * (1 + 2 * r + 2 * q)

theorem InRange.predicted (h : Moderate q r) (hp : InRange q r p) :
    Predicted q r (nearest (p + q)) := by
  have hlow : nearest (1 / 2 ^ 14) = 1 / 2 ^ 14 := by
    have := nearest_two_zpow (e := -14) (by norm_num)
    norm_num at this ⊢
    exact this
  have hq := h.q_low
  obtain ⟨hp0, hp1⟩ := hp
  refine ⟨nearest_nearest _, ?_, ?_⟩
  · rw [← hlow]
    exact nearest_mono (by linarith)
  · have hsmall : (1 : ℚ) / 2 ^ 1022 ≤ 1 / 2 ^ 14 :=
      one_div_le_one_div_of_le (by positivity) (pow_le_pow_right₀ one_le_two (by norm_num))
    have hround := (abs_le.mp (abs_nearest_sub_le_of_normal (x := p + q)
      (hsmall.trans (by linarith)))).2
    linarith

theorem Moderate.le_two_pow (h : Moderate q r)
    (hy : y ≤ (1 + 1 / 2 ^ 53) * (1 + 2 * r + 2 * q)) : y ≤ 2 ^ 1003 := by
  have hq := h.q_high
  have hr := h.r_high
  have hone : (1 : ℚ) ≤ 2 ^ 1000 := one_le_pow₀ one_le_two
  rw [show (2 : ℚ) ^ 1003 = 2 ^ 3 * 2 ^ 1000 from pow_add 2 3 1000]
  generalize (2 : ℚ) ^ 1000 = top at hq hr hone ⊢
  linarith

/-- The gain of a predicted covariance, except for some roundings. -/
theorem Predicted.abs_gain_sub_le (h : Moderate q r) (hp : Predicted q r p) :
    |roundedGain r p - p / (p + r)| ≤ 1 / 2 ^ 49 * (p / (p + r)) := by
  have hgain := abs_roundedGain_sub_le (a := p) (c := 0) h hp.low
    (h.le_two_pow hp.high) (by norm_num) (by simp)
  rwa [hp.rounded, mul_zero, zero_add] at hgain

/-- **The rounded covariance is the measurement's part of the gain**, except for some
roundings. -/
theorem Predicted.abs_covariance_sub_le (h : Moderate q r) (hp : Predicted q r p) :
    |roundedCovariance r p - r * roundedGain r p| ≤ p / 2 ^ 48 := by
  have hr : 0 < r := lt_of_lt_of_le (by positivity) h.r_low
  have hpos : 0 < p := lt_of_lt_of_le (by positivity) hp.low
  obtain ⟨hk0, hk1⟩ := roundedGain_mem hp.rounded hpos hr.le
  have hgain := hp.abs_gain_sub_le h
  have hround := abs_nearest_sub_le_add (nearest (1 - roundedGain r p) * p)
  obtain ⟨hc0, hc1, hc⟩ := nearest_one_sub_mem hk0 hk1
  rw [roundedCovariance]
  generalize roundedGain r p = k at *
  -- the last product is rounded by a part of the covariance
  have hleast : (2 : ℚ) ^ (-1075 : ℤ) ≤ p / 2 ^ 53 := by
    calc
      (2 : ℚ) ^ (-1075 : ℤ) ≤ 2 ^ (-67 : ℤ) := zpow_le_zpow_right₀ one_le_two (by norm_num)
      _ = 1 / 2 ^ 14 / 2 ^ 53 := by norm_num
      _ ≤ p / 2 ^ 53 := by gcongr; exact hp.low
  have hproduct : |nearest (1 - k) * p| ≤ p := by
    rw [abs_of_nonneg (mul_nonneg hc0 hpos.le)]
    exact mul_le_of_le_one_left hpos.le hc1
  have hlast : |nearest (nearest (1 - k) * p) - nearest (1 - k) * p| ≤ p / 2 ^ 52 := by
    refine hround.trans ?_
    linarith
  -- the factor is off by little
  have hfactor : |(nearest (1 - k) - (1 - k)) * p| ≤ 1 / 2 ^ 54 * p := by
    rw [abs_mul, abs_of_pos hpos]
    gcongr
  -- and so is the gain
  have hbalance : |(p + r) * (k - p / (p + r))| ≤ p / 2 ^ 49 := by
    have hsum : 0 < p + r := by linarith
    rw [abs_mul, abs_of_pos hsum]
    calc
      (p + r) * |k - p / (p + r)| ≤ (p + r) * (1 / 2 ^ 49 * (p / (p + r))) := by gcongr
      _ = p / 2 ^ 49 := by field_simp
  have hsplit : nearest (nearest (1 - k) * p) - r * k =
      (nearest (nearest (1 - k) * p) - nearest (1 - k) * p) +
        (nearest (1 - k) - (1 - k)) * p - (p + r) * (k - p / (p + r)) := by
    field_simp
    ring
  rw [hsplit]
  rw [abs_le] at hlast hfactor hbalance ⊢
  constructor <;> linarith

/-- The predicted covariance is not much above the next one. -/
theorem Predicted.le_mul (h : Moderate q r) (hp : Predicted q r p) :
    p ≤ 2 ^ 15 * (r * roundedGain r p + q) := by
  have hq := h.q_low
  have hr : 0 < r := lt_of_lt_of_le (by positivity) h.r_low
  have hpos : 0 < p := lt_of_lt_of_le (by positivity) hp.low
  have hhigh := hp.high
  have hgain := (abs_le.mp (hp.abs_gain_sub_le h)).1
  have hsum : 0 < p + r := by linarith
  have hpart : r * (p / (p + r)) / 2 ≤ r * roundedGain r p := by
    have hquot : 0 < p / (p + r) := div_pos hpos hsum
    have hhalf : p / (p + r) / 2 ≤ roundedGain r p := by linarith
    calc
      r * (p / (p + r)) / 2 = r * (p / (p + r) / 2) := by ring
      _ ≤ r * roundedGain r p := by gcongr
  rcases le_or_gt p r with hle | hlt
  · have hhalf : p / 2 ≤ r * (p / (p + r)) := by
      rw [mul_div_assoc', le_div_iff₀ hsum]
      have := mul_nonneg hpos.le (sub_nonneg.mpr hle)
      linarith
    linarith
  · have hhalf : r / 2 ≤ r * (p / (p + r)) := by
      rw [mul_div_assoc', le_div_iff₀ hsum]
      have := mul_nonneg hr.le (sub_nonneg.mpr hlt.le)
      linarith
    linarith

theorem Predicted.inRange (h : Moderate q r) (hp : Predicted q r p) :
    InRange q r (roundedCovariance r p) := by
  have hr : 0 < r := lt_of_lt_of_le (by positivity) h.r_low
  have hq : 0 < q := lt_of_lt_of_le (by positivity) h.q_low
  have hpos : 0 < p := lt_of_lt_of_le (by positivity) hp.low
  obtain ⟨hk0, hk1⟩ := roundedGain_mem hp.rounded hpos hr.le
  refine ⟨nearest_nonneg (mul_nonneg (nearest_one_sub_mem hk0 hk1).1 hpos.le), ?_⟩
  have hcov := (abs_le.mp (hp.abs_covariance_sub_le h)).2
  have hhigh := hp.high
  have hmul : r * roundedGain r p ≤ r := mul_le_of_le_one_right hr.le hk1
  linarith

theorem InRange.covariances (h : Moderate q r) (hp : InRange q r p) (n : ℕ) :
    InRange q r (roundedCovariances q r p n) := by
  induction n with
  | zero => exact hp
  | succ n ih => exact (ih.predicted h).inRange h

theorem InRange.gains_mem (h : Moderate q r) (hp : InRange q r p) (n : ℕ) :
    0 ≤ roundedGains q r p n ∧ roundedGains q r p n ≤ 1 := by
  have hpred := (hp.covariances h n).predicted h
  exact roundedGain_mem hpred.rounded (lt_of_lt_of_le (by positivity) hpred.low)
    (le_trans (by positivity) h.r_low)

/-- **The rounded gains stay near the gains of the recursion**, in every step and by the same
part of themselves. -/
theorem InRange.abs_gains_sub_le (h : Moderate q r) (hp : InRange q r p) (n : ℕ) :
    |roundedGains q r p n - gains q r ((p + q) / (p + q + r)) n| ≤ 1 / 2 ^ 31 := by
  have hr : 0 < r := lt_of_lt_of_le (by positivity) h.r_low
  have hq : 0 < q := lt_of_lt_of_le (by positivity) h.q_low
  obtain ⟨hp0, hp1⟩ := id hp
  have hpos : 0 < (p + q) / (p + q + r) := div_pos (by linarith) (by linarith)
  have hlt : (p + q) / (p + q + r) < 1 := (div_lt_one (by linarith)).mpr (by linarith)
  have hqlow := h.q_low
  refine Relaxation.abs_gains_sub_le hq hr hpos hlt (fun n => (hp.gains_mem h n).1) ?_
    (fun n => ?_) n
  · have hfirst := abs_roundedGain_sub_le (a := p + q) (y := p + q) (c := 0) h (by linarith)
      (h.le_two_pow (by linarith)) (by norm_num) (by simp)
    refine hfirst.trans ?_
    linarith
  · -- the covariance of the last step is off by a part of what it and the noise add up to
    have hpred := (hp.covariances h n).predicted h
    obtain ⟨hk0, hk1⟩ := hp.gains_mem h n
    have hcov := hpred.abs_covariance_sub_le h
    have hpart := hpred.le_mul h
    have hrk0 := mul_nonneg hr.le hk0
    have hrk1 := mul_le_of_le_one_right hr.le hk1
    have hnext := abs_roundedGain_sub_le (a := roundedCovariances q r p (n + 1) + q)
      (y := r * roundedGains q r p n + q) (c := 1 / 2 ^ 33) h (by linarith)
      (h.le_two_pow (by linarith)) (by norm_num) (by
        rw [add_sub_add_right_eq_sub]
        refine hcov.trans ?_
        rw [roundedGains]
        linarith)
    refine hnext.trans ?_
    rw [nextGain]
    gcongr
    norm_num

/-! ### Runs -/

variable {b : ℚ} {e : ℕ} {x : ℕ → ℚ}

/-- A value that moves by rounded means stays within the bound. -/
theorem abs_le_of_roundedMean {k : ℚ} (hk : nearest k = k) (h0 : 0 ≤ k) (h1 : k ≤ 1)
    (hb : |b| ≤ 2 ^ e) (hx0 : |x 0| ≤ 2 ^ e) (hx : ∀ n, x (n + 1) = roundedMean k b (x n)) (n : ℕ) :
    |x n| ≤ 2 ^ e := by
  induction n with
  | zero => exact hx0
  | succ n ih =>
      rw [hx]
      exact abs_roundedMean_le hk h0 h1 hb ih

/-- **Rounded means move by the shares of a constant gain**, except for some roundings. -/
theorem abs_roundedMean_sub_share_le {k : ℚ} (hk : nearest k = k) (h0 : 0 ≤ k) (h1 : k ≤ 1)
    (hb : |b| ≤ 2 ^ e) (hx0 : |x 0| ≤ 2 ^ e) (hx : ∀ n, x (n + 1) = roundedMean k b (x n)) (n : ℕ) :
    |x (n + 1) - x n - share (fun _ => k) n * (b - x 0)| ≤ 2 ^ e / 2 ^ 50 := by
  have hstep : ∀ n, |x (n + 1) - (x n + k * (b - x n))| ≤ 2 ^ e / 2 ^ 51 := by
    intro n
    rw [hx]
    exact abs_roundedMean_sub_le hk h0 h1 hb (abs_le_of_roundedMean hk h0 h1 hb hx0 hx n)
  have hshare := abs_sub_share_le (fun _ => ⟨h0, h1⟩) (isDamped_const h0 h1) hstep n
  linarith

/-- A value that moves by rounded steps stays within the bound. -/
theorem InRange.abs_le_of_roundedStep (h : Moderate q r) (hp : InRange q r p) (hb : |b| ≤ 2 ^ e)
    (hx0 : |x 0| ≤ 2 ^ e) (hx : ∀ n, x (n + 1) = roundedStep (roundedGains q r p n) b (x n))
    (n : ℕ) : |x n| ≤ 2 ^ e := by
  induction n with
  | zero => exact hx0
  | succ n ih =>
      obtain ⟨hk0, hk1⟩ := hp.gains_mem h n
      rw [hx]
      exact abs_roundedStep_le hk0 hk1 hb ih

/-- **Rounded steps move by the shares of the gains of the recursion**, except for some
roundings and for what the gains are off. -/
theorem InRange.abs_roundedStep_sub_share_le (h : Moderate q r) (hp : InRange q r p)
    (hb : |b| ≤ 2 ^ e) (hx0 : |x 0| ≤ 2 ^ e)
    (hx : ∀ n, x (n + 1) = roundedStep (roundedGains q r p n) b (x n)) (n : ℕ) :
    |x (n + 1) - x n - share (gains q r ((p + q) / (p + q + r))) n * (b - x 0)| ≤
      2 ^ e / 2 ^ 29 + 2 ^ e / 2 ^ 50 := by
  have hr : 0 < r := lt_of_lt_of_le (by positivity) h.r_low
  have hq : 0 < q := lt_of_lt_of_le (by positivity) h.q_low
  have hpos : 0 < (p + q) / (p + q + r) := div_pos (by linarith [hp.1]) (by linarith [hp.1])
  have hlt : (p + q) / (p + q + r) < 1 := (div_lt_one (by linarith [hp.1])).mpr (by linarith [hp.1])
  have hpow : (0 : ℚ) < 2 ^ e := by positivity
  have hstep : ∀ n, |x (n + 1) - (x n + gains q r ((p + q) / (p + q + r)) n * (b - x n))| ≤
      2 ^ e / 2 ^ 30 + 2 ^ e / 2 ^ 51 := by
    intro n
    obtain ⟨hk0, hk1⟩ := hp.gains_mem h n
    have hxn := hp.abs_le_of_roundedStep h hb hx0 hx n
    have hround := abs_roundedStep_sub_le hk0 hk1 hb hxn
    have hgain : |(roundedGains q r p n - gains q r ((p + q) / (p + q + r)) n) * (b - x n)| ≤
        1 / 2 ^ 31 * (2 * 2 ^ e) := by
      rw [abs_mul]
      refine mul_le_mul (hp.abs_gains_sub_le h n) ?_ (abs_nonneg _) (by positivity)
      rw [abs_le] at hb hxn ⊢
      constructor <;> linarith
    rw [← hx] at hround
    rw [abs_le] at hround hgain ⊢
    constructor <;> linarith
  have hshare := abs_sub_share_le (isGain_gains hq hr hpos hlt) (isDamped_gains hq hr hpos hlt)
    hstep n
  linarith

end Gain

end Relaxation
