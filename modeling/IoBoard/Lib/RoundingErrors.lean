import IoBoard.Lib.PyFloat

/-!
# Rounding Errors

How far a rounded number is from the exact one. Below a power of two the error is a part of
that power, above the least normal number it is a part of the number itself, and near zero it
is at most half of the least spacing.

A program that keeps its values between `-2 ^ k` and `2 ^ k` in exact arithmetic may step over
the bound when it rounds. Up to half of a spacing above the bound the nearest number of the
format is the bound itself, so a step that is off by no more stays within it.

## Conventions

Bounds are powers of two with natural exponents, since the values of programs are rarely all
below one; the errors that go with them are `2 ^ k / 2 ^ 54`, half of the spacing just below
`2 ^ k`. The lemmas about `nearest` have no upper bound on `k`, as the exponent of the format
is unbounded there. Only `PyFloat.exists_ofRat_of_le` has, and it is the one that says that a
float operation does not overflow.

## Main results

* `Binary64.abs_nearest_sub_le_two_pow`: the absolute error.
* `Binary64.abs_nearest_sub_le_mul`, `Binary64.abs_nearest_sub_le_add`: the relative error, and
  a bound for all numbers.
* `Binary64.nearest_mul_two_pow`: the format is closed under doubling.
* `Binary64.abs_nearest_le_two_pow`: **values that step over a power of two by at most half of
  a spacing are rounded to it**.
* `PyFloat.exists_ofRat_of_le`: the same of floats, which are finite then.
-/

namespace Binary64

/-- What is not rounded is an integer of 53 bits, scaled by a power of two that is not below the
least one. -/
theorem exists_eq_mul_of_nearest {q : ℚ} (h : nearest q = q) :
    ∃ m e : ℤ, q = m * 2 ^ e ∧ |m| < 2 ^ 53 ∧ -1074 ≤ e := by
  refine ⟨roundEven (q / 2 ^ exponent q), exponent q, h.symm, ?_, le_max_right _ _⟩
  have hpos := two_zpow_pos (exponent q)
  have habs : |(roundEven (q / 2 ^ exponent q) : ℚ)| * 2 ^ exponent q = |q| := by
    rw [← abs_of_pos hpos, ← abs_mul, abs_of_pos hpos]
    exact congrArg abs h
  have hlt := abs_lt_two_zpow q
  rw [← habs, zpow_add₀ two_ne_zero, mul_comm] at hlt
  exact_mod_cast lt_of_mul_lt_mul_left hlt hpos.le

/-- A number of the format stays one when it is doubled. -/
theorem nearest_mul_two_pow {q : ℚ} (h : nearest q = q) (k : ℕ) :
    nearest (q * 2 ^ k) = q * 2 ^ k := by
  obtain ⟨m, e, hq, hm, he⟩ := exists_eq_mul_of_nearest h
  refine nearest_eq_self (m := m) (e := e + k) ?_ hm (by omega)
  rw [hq, zpow_add₀ two_ne_zero, zpow_natCast, mul_assoc]

/-- Powers of two are not rounded. -/
theorem nearest_two_pow (k : ℕ) : nearest (2 ^ k) = 2 ^ k := by
  rw [← zpow_natCast]
  exact nearest_two_zpow (by omega)

/-! ### Errors -/

/-- Up to a power of two the error is at most half of the spacing below it. -/
theorem abs_nearest_sub_le_two_pow {q : ℚ} {k : ℕ} (h : |q| ≤ 2 ^ k) :
    |nearest q - q| ≤ 2 ^ k / 2 ^ 54 := by
  rcases h.eq_or_lt with heq | hlt
  · have hexact : nearest q = q := by
      rcases eq_or_eq_neg_of_abs_eq heq with rfl | rfl
      · exact nearest_two_pow k
      · rw [nearest_neg, nearest_two_pow]
    rw [hexact, sub_self, abs_zero]
    positivity
  · have hround := abs_nearest_sub_le (q := q) (e := k - 53) (by omega) (by
      rw [sub_add_cancel, zpow_natCast]
      exact hlt)
    refine hround.trans_eq ?_
    rw [zpow_sub₀ two_ne_zero, zpow_natCast, div_div, ← zpow_add_one₀ two_ne_zero]
    norm_num

/-- A normal number is rounded by a part of itself. -/
theorem abs_nearest_sub_le_mul {q : ℚ} (h : 2 ^ (-1022 : ℤ) ≤ |q|) :
    |nearest q - q| ≤ |q| / 2 ^ 53 := by
  have hpos : 0 < |q| := (two_zpow_pos _).trans_le h
  have hlog : -1022 ≤ Int.log 2 |q| :=
    (Int.zpow_le_iff_le_log one_lt_two hpos).mp (by exact_mod_cast h)
  have hlow := Int.zpow_log_le_self (b := 2) one_lt_two hpos
  have hhigh := Int.lt_zpow_succ_log_self (b := 2) one_lt_two |q|
  push_cast at hlow hhigh
  have hround := abs_nearest_sub_le (q := q) (e := Int.log 2 |q| - 52) (by omega) (by
    rwa [show Int.log 2 |q| - 52 + 53 = Int.log 2 |q| + 1 by ring])
  calc
    |nearest q - q| ≤ 2 ^ (Int.log 2 |q| - 52) / 2 := hround
    _ = 2 ^ Int.log 2 |q| / 2 ^ 53 := by
      rw [zpow_sub₀ two_ne_zero, div_div]
      norm_num
    _ ≤ |q| / 2 ^ 53 := by gcongr

/-- A number is rounded by a part of itself, and at most half of the least spacing more: the first
for normal numbers, the second for the others. -/
theorem abs_nearest_sub_le_add (q : ℚ) : |nearest q - q| ≤ |q| / 2 ^ 53 + 2 ^ (-1075 : ℤ) := by
  rcases le_or_gt (2 ^ (-1022 : ℤ)) |q| with hle | hlt
  · exact (abs_nearest_sub_le_mul hle).trans (le_add_of_nonneg_right (two_zpow_pos _).le)
  · have hround := abs_nearest_sub_le (q := q) (e := -1074) le_rfl
      (hlt.trans_le (zpow_le_zpow_right₀ one_le_two (by norm_num)))
    have hhalf : (2 : ℚ) ^ (-1074 : ℤ) / 2 = 2 ^ (-1075 : ℤ) := by
      rw [div_eq_iff two_ne_zero, ← zpow_add_one₀ two_ne_zero]
      norm_num
    rw [hhalf] at hround
    exact hround.trans (le_add_of_nonneg_left (by positivity))

/-! ### Values that step over a power of two -/

/-- Halfway to the next number above a power of two the tie goes to the power. -/
theorem nearest_two_pow_add_half (k : ℕ) : nearest (2 ^ k + 2 ^ k / 2 ^ 53) = 2 ^ k := by
  have hpos : (0 : ℚ) < 2 ^ k := by positivity
  have hsum : (0 : ℚ) < 2 ^ k + 2 ^ k / 2 ^ 53 := by positivity
  have hlog : Int.log 2 ((2 : ℚ) ^ k + 2 ^ k / 2 ^ 53) = k := by
    have hlow := (Int.zpow_le_iff_le_log (b := 2) (x := k) one_lt_two hsum).mp (by
      rw [Nat.cast_ofNat, zpow_natCast]
      exact le_add_of_nonneg_right (by positivity))
    have hhigh := (Int.lt_zpow_iff_log_lt (b := 2) (x := k + 1) one_lt_two hsum).mp (by
      rw [Nat.cast_ofNat, zpow_add_one₀ two_ne_zero, zpow_natCast]
      linarith)
    omega
  have hexp : exponent (2 ^ k + 2 ^ k / 2 ^ 53) = k - 52 := by
    rw [exponent, abs_of_pos hsum, hlog]
    omega
  have hspace : (2 : ℚ) ^ ((k : ℤ) - 52) = 2 ^ k / 2 ^ 52 := by
    rw [zpow_sub₀ two_ne_zero, zpow_natCast]
    norm_num
  have hdiv : ((2 : ℚ) ^ k + 2 ^ k / 2 ^ 53) / (2 ^ k / 2 ^ 52) = 2 ^ 52 + 1 / 2 := by
    field_simp
  have hround : roundEven ((2 : ℚ) ^ 52 + 1 / 2) = 2 ^ 52 := by decide +kernel
  rw [nearest, hexp, hspace, hdiv, hround]
  push_cast
  field_simp
  norm_num

/-- **Values that step over a power of two by at most half of a spacing are rounded to it.** -/
theorem abs_nearest_le_two_pow {q : ℚ} {k : ℕ} (h : |q| ≤ 2 ^ k + 2 ^ k / 2 ^ 53) :
    |nearest q| ≤ 2 ^ k := by
  obtain ⟨hlo, hhi⟩ := abs_le.mp h
  have hlo' := nearest_mono hlo
  have hhi' := nearest_mono hhi
  rw [nearest_neg, nearest_two_pow_add_half] at hlo'
  rw [nearest_two_pow_add_half] at hhi'
  exact abs_le.mpr ⟨hlo', hhi'⟩

end Binary64

namespace PyFloat

open Binary64

theorem isDouble_two_pow {k : ℕ} (hk : k < 1024) : IsDouble (2 ^ k) := by
  refine ⟨nearest_two_pow k, ?_⟩
  rw [abs_of_pos (by positivity)]
  exact pow_lt_pow_right₀ one_lt_two hk

/-- A value that steps over a power of two by at most half of a spacing is finite when rounded,
and within it. -/
theorem exists_ofRat_of_le {q : ℚ} {k : ℕ} (hk : k < 1024) (h : |q| ≤ 2 ^ k + 2 ^ k / 2 ^ 53) :
    ∃ d : {q // IsDouble q}, ofRat q = fin d ∧ (d : ℚ) = nearest q ∧ |(d : ℚ)| ≤ 2 ^ k := by
  have hle := abs_nearest_le_two_pow h
  have hlt : |nearest q| < 2 ^ 1024 := hle.trans_lt (pow_lt_pow_right₀ one_lt_two hk)
  exact ⟨⟨nearest q, nearest_nearest q, hlt⟩, by rw [ofRat, dif_pos hlt], rfl, hle⟩

end PyFloat
