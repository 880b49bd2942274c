import Mathlib.Data.Int.Log
import Mathlib.Data.Rat.Floor
import Mathlib.Algebra.Order.Field.Power
import Mathlib.Tactic.Linarith
import Mathlib.Tactic.NormNum
import Mathlib.Tactic.FieldSimp

/-!
# Rounding to Binary64

Round-to-nearest-even of a rational to the numbers of the IEEE 754 format with 53 bits of
precision and a least exponent of -1074, with the exponent unbounded above. The function
computes; what proofs use of it is that it is monotone, odd, and the identity on the numbers
of the format.

## How it is built

The spacing of the format around a number is a power of two, `2 ^ exponent q`; `nearest`
rounds the quotient by the spacing to an integer, with ties to even, and multiplies back. So
a fact about `nearest` is a fact about rounding integers and one about the spacing:

* within one spacing rounding is monotone because `roundEven` is;
* across two spacings it is because a power of two lies between them and is not rounded.

Below the normal range the exponent is the least one, and the same definition gives the
subnormal numbers. Above it there is no overflow: `nearest` has no largest value, and the
floats of `IoBoard.Lib.PyFloat` cut it off.

## Main results

* `nearest_mono`, `nearest_neg`: rounding is monotone and odd.
* `nearest_eq_self`: **numbers `m * 2 ^ e` of the format are not rounded**.
* `nearest_nearest`: every rounded number is of the format.
* `abs_nearest_sub_le`, `abs_nearest_le_of_le`: the rounding error, and bounds that survive.
-/

namespace Binary64

/-! ### Integers -/

/-- `x` rounded to the nearest integer, ties to even. -/
def roundEven (x : ℚ) : ℤ :=
  if x - ⌊x⌋ < 1 / 2 then ⌊x⌋
  else if 1 / 2 < x - ⌊x⌋ then ⌊x⌋ + 1
  else ⌊x⌋ + ⌊x⌋ % 2

/-- Rounding picks one of the two neighbours. -/
theorem roundEven_bounds (x : ℚ) : ⌊x⌋ ≤ roundEven x ∧ roundEven x ≤ ⌊x⌋ + 1 := by
  unfold roundEven
  split_ifs <;> omega

@[simp] theorem roundEven_intCast (k : ℤ) : roundEven k = k := by
  simp [roundEven]

/-- The rounding error is at most one half. -/
theorem abs_roundEven_sub_le (x : ℚ) : |(roundEven x : ℚ) - x| ≤ 1 / 2 := by
  have hlo := Int.floor_le x
  have hhi := Int.lt_floor_add_one x
  unfold roundEven
  split_ifs with hbelow habove
  · rw [abs_le]
    constructor <;> linarith
  · push_cast
    rw [abs_le]
    constructor <;> linarith
  · -- halfway, both neighbours are as near
    have hparity : ((⌊x⌋ % 2 : ℤ) : ℚ) = 0 ∨ ((⌊x⌋ % 2 : ℤ) : ℚ) = 1 := by
      rcases Int.emod_two_eq ⌊x⌋ with h | h <;> simp [h]
    push_cast
    rw [abs_le]
    rcases hparity with h | h <;> rw [h] <;> constructor <;> linarith

theorem roundEven_mono {x y : ℚ} (h : x ≤ y) : roundEven x ≤ roundEven y := by
  rcases (Int.floor_mono h).lt_or_eq with hlt | heq
  · calc
      roundEven x ≤ ⌊x⌋ + 1 := (roundEven_bounds x).2
      _ ≤ ⌊y⌋ := hlt
      _ ≤ roundEven y := (roundEven_bounds y).1
  · have hfract : x - ⌊x⌋ ≤ y - ⌊y⌋ := by rw [heq]; linarith
    unfold roundEven
    rw [heq] at hfract ⊢
    split_ifs
    all_goals first
      | omega
      | (exfalso; linarith)

theorem roundEven_neg (x : ℚ) : roundEven (-x) = -roundEven x := by
  have hfloor : (⌊x⌋ : ℚ) ≤ x := Int.floor_le x
  rcases hfloor.eq_or_lt with heq | hlt
  · rw [← heq, ← Int.cast_neg, roundEven_intCast, roundEven_intCast]
  · have hneg : ⌊-x⌋ = -⌊x⌋ - 1 := by
      rw [Int.floor_eq_iff]
      have := Int.lt_floor_add_one x
      push_cast
      constructor <;> linarith
    unfold roundEven
    rw [hneg]
    push_cast
    split_ifs
    all_goals first
      | omega
      | (exfalso; linarith)

/-- Integer bounds survive rounding. -/
theorem roundEven_le {x : ℚ} {k : ℤ} (h : x ≤ k) : roundEven x ≤ k := by
  simpa using roundEven_mono h

theorem le_roundEven {x : ℚ} {k : ℤ} (h : (k : ℚ) ≤ x) : k ≤ roundEven x := by
  simpa using roundEven_mono h

/-! ### Numbers of the format -/

/-- The exponent of the spacing of the format around `q`: 52 places below the leading one, and not
below the least exponent. -/
def exponent (q : ℚ) : ℤ :=
  max (Int.log 2 |q| - 52) (-1074)

/-- `q` rounded to the format. -/
def nearest (q : ℚ) : ℚ :=
  roundEven (q / 2 ^ exponent q) * 2 ^ exponent q

theorem two_zpow_pos (e : ℤ) : (0 : ℚ) < 2 ^ e :=
  zpow_pos two_pos e

@[simp] theorem exponent_neg (q : ℚ) : exponent (-q) = exponent q := by
  rw [exponent, abs_neg, exponent]

@[simp] theorem nearest_neg (q : ℚ) : nearest (-q) = -nearest q := by
  rw [nearest, exponent_neg, neg_div, roundEven_neg, Int.cast_neg, neg_mul, nearest]

/-- Below the next power of two. -/
theorem abs_lt_two_zpow (q : ℚ) : |q| < 2 ^ (exponent q + 53) := by
  have hlog := Int.lt_zpow_succ_log_self (b := 2) one_lt_two |q|
  refine lt_of_lt_of_le (by exact_mod_cast hlog) (zpow_le_zpow_right₀ one_le_two ?_)
  have := le_max_left (Int.log 2 |q| - 52) (-1074)
  rw [exponent]
  omega

/-- Numbers with at most 53 bits above the least exponent are not rounded. The exponent of the
decomposition may be smaller than that of the spacing; the bits are then divisible. -/
theorem nearest_eq_self {q : ℚ} {m e : ℤ} (hq : q = m * 2 ^ e) (hm : |m| < 2 ^ 53)
    (he : -1074 ≤ e) : nearest q = q := by
  have hexp : q ≠ 0 → exponent q ≤ e := by
    intro h0
    have habs : |q| < 2 ^ (53 + e) := by
      rw [hq, abs_mul, abs_of_pos (two_zpow_pos e), zpow_add₀ two_ne_zero]
      refine mul_lt_mul_of_pos_right ?_ (two_zpow_pos e)
      exact_mod_cast hm
    have hlog := (Int.lt_zpow_iff_log_lt (b := 2) one_lt_two (abs_pos.mpr h0)).mp
      (by exact_mod_cast habs)
    exact max_le (by omega) he
  by_cases h0 : q = 0
  · rw [h0, nearest, zero_div]
    have := roundEven_intCast 0
    rw [Int.cast_zero] at this
    rw [this, Int.cast_zero, zero_mul]
  · obtain ⟨k, hk⟩ := Int.eq_ofNat_of_zero_le (sub_nonneg.mpr (hexp h0))
    have hpow : (2 : ℚ) ^ e = 2 ^ k * 2 ^ exponent q := by
      rw [← zpow_natCast, ← zpow_add₀ two_ne_zero, ← hk, sub_add_cancel]
    have hdiv : q / 2 ^ exponent q = ((m * 2 ^ k : ℤ) : ℚ) := by
      rw [div_eq_iff (two_zpow_pos _).ne', Int.cast_mul, Int.cast_pow, Int.cast_ofNat, mul_assoc,
        ← hpow, ← hq]
    rw [nearest, hdiv, roundEven_intCast, ← hdiv, div_mul_cancel₀ _ (two_zpow_pos _).ne']

@[simp] theorem nearest_zero : nearest 0 = 0 :=
  nearest_eq_self (m := 0) (e := 0) (by norm_num) (by norm_num) (by norm_num)

/-- The rounding error of a number below `2 ^ (e + 53)` is at most half of `2 ^ e`. -/
theorem abs_nearest_sub_le {q : ℚ} {e : ℤ} (he : -1074 ≤ e) (hq : |q| < 2 ^ (e + 53)) :
    |nearest q - q| ≤ 2 ^ e / 2 := by
  by_cases h0 : q = 0
  · rw [h0, nearest_zero, sub_zero, abs_zero]
    exact (half_pos (two_zpow_pos e)).le
  have hexp : exponent q ≤ e := by
    have hlog := (Int.lt_zpow_iff_log_lt (b := 2) one_lt_two (abs_pos.mpr h0)).mp
      (by exact_mod_cast hq)
    exact max_le (by omega) he
  have hpos := two_zpow_pos (exponent q)
  have hscale : q = q / 2 ^ exponent q * 2 ^ exponent q := (div_mul_cancel₀ _ hpos.ne').symm
  calc
    |nearest q - q| = |(roundEven (q / 2 ^ exponent q) - q / 2 ^ exponent q) * 2 ^ exponent q| := by
      rw [sub_mul, ← hscale, nearest]
    _ = |(roundEven (q / 2 ^ exponent q) : ℚ) - q / 2 ^ exponent q| * 2 ^ exponent q := by
      rw [abs_mul, abs_of_pos hpos]
    _ ≤ 1 / 2 * 2 ^ exponent q := by
      gcongr
      exact abs_roundEven_sub_le _
    _ ≤ 1 / 2 * 2 ^ e := by
      gcongr
      exact one_le_two
    _ = 2 ^ e / 2 := by ring

/-- Integers of at most 53 bits are not rounded. -/
theorem nearest_intCast {k : ℤ} (hk : |k| < 2 ^ 53) : nearest k = k :=
  nearest_eq_self (m := k) (e := 0) (by norm_num) hk (by norm_num)

/-- Powers of two above the least exponent are not rounded. -/
theorem nearest_two_zpow {e : ℤ} (he : -1074 ≤ e) : nearest (2 ^ e) = 2 ^ e :=
  nearest_eq_self (m := 1) (e := e) (by norm_num) (by norm_num) he

/-- **Every rounded number is of the format**, so rounding it once more changes nothing. -/
theorem nearest_nearest (q : ℚ) : nearest (nearest q) = nearest q := by
  have hbound : |q / 2 ^ exponent q| < 2 ^ 53 := by
    rw [abs_div, abs_of_pos (two_zpow_pos _), div_lt_iff₀ (two_zpow_pos _)]
    have := abs_lt_two_zpow q
    rw [zpow_add₀ two_ne_zero, mul_comm] at this
    exact_mod_cast this
  obtain ⟨hlo, hhi⟩ := abs_lt.mp hbound
  have hle : roundEven (q / 2 ^ exponent q) ≤ 2 ^ 53 := roundEven_le (by exact_mod_cast hhi.le)
  have hge : -2 ^ 53 ≤ roundEven (q / 2 ^ exponent q) := le_roundEven (by exact_mod_cast hlo.le)
  have hmin : -1074 ≤ exponent q := le_max_right _ _
  rcases lt_or_eq_of_le (abs_le.mpr ⟨hge, hle⟩) with hlt | heq
  · exact nearest_eq_self rfl hlt hmin
  · -- the rounding reached the next power of two, which needs one bit only
    obtain ⟨j, hj⟩ : ∃ j : ℤ, roundEven (q / 2 ^ exponent q) = j * 2 ^ 53 ∧ |j| < 2 ^ 53 := by
      rcases eq_or_eq_neg_of_abs_eq heq with h | h
      · exact ⟨1, by omega, by norm_num⟩
      · exact ⟨-1, by omega, by norm_num⟩
    refine nearest_eq_self (m := j) (e := exponent q + 53) ?_ hj.2 (by omega)
    rw [nearest, hj.1, zpow_add₀ two_ne_zero]
    push_cast
    ring

/-! ### Monotonicity -/

theorem nearest_nonneg {q : ℚ} (h : 0 ≤ q) : 0 ≤ nearest q := by
  refine mul_nonneg ?_ (two_zpow_pos _).le
  have : 0 ≤ roundEven (q / 2 ^ exponent q) :=
    le_roundEven (by simpa using div_nonneg h (two_zpow_pos _).le)
  exact_mod_cast this

/-- The spacing grows with the magnitude. -/
theorem exponent_mono {p q : ℚ} (hp : 0 < p) (h : p ≤ q) : exponent p ≤ exponent q := by
  have hlog : Int.log 2 |p| ≤ Int.log 2 |q| := by
    rw [abs_of_pos hp, abs_of_pos (hp.trans_le h)]
    exact Int.log_mono_right hp h
  exact max_le_max_right _ (by omega)

/-- Rounding is monotone on the positive numbers: within one spacing because it is on
integers, and across spacings because a power of two lies between. -/
theorem nearest_mono_of_pos {p q : ℚ} (hp : 0 < p) (h : p ≤ q) : nearest p ≤ nearest q := by
  rcases (exponent_mono hp h).eq_or_lt with heq | hlt
  · rw [nearest, nearest, heq]
    refine mul_le_mul_of_nonneg_right ?_ (two_zpow_pos _).le
    exact_mod_cast roundEven_mono (div_le_div_of_nonneg_right h (two_zpow_pos _).le)
  · have hq : 0 < q := hp.trans_le h
    have hlog : exponent q = Int.log 2 q - 52 := by
      have hmin : -1074 ≤ exponent p := le_max_right _ _
      have hdef : exponent q = max (Int.log 2 q - 52) (-1074) := by rw [exponent, abs_of_pos hq]
      omega
    have hlow : nearest p ≤ 2 ^ (exponent p + 53) := by
      rw [nearest, zpow_add₀ two_ne_zero, mul_comm (2 ^ exponent p)]
      refine mul_le_mul_of_nonneg_right ?_ (two_zpow_pos _).le
      have : roundEven (p / 2 ^ exponent p) ≤ 2 ^ 53 := by
        refine roundEven_le ?_
        rw [div_le_iff₀ (two_zpow_pos _)]
        have := abs_lt_two_zpow p
        rw [abs_of_pos hp, zpow_add₀ two_ne_zero, mul_comm] at this
        exact_mod_cast this.le
      exact_mod_cast this
    have hhigh : 2 ^ (exponent q + 52) ≤ nearest q := by
      rw [nearest, zpow_add₀ two_ne_zero, mul_comm (2 ^ exponent q)]
      refine mul_le_mul_of_nonneg_right ?_ (two_zpow_pos _).le
      have : 2 ^ 52 ≤ roundEven (q / 2 ^ exponent q) := by
        refine le_roundEven ?_
        rw [le_div_iff₀ (two_zpow_pos _)]
        have := Int.zpow_log_le_self (b := 2) one_lt_two hq
        rw [show Int.log 2 q = 52 + exponent q by omega, zpow_add₀ (by norm_num)] at this
        exact_mod_cast this
      exact_mod_cast this
    calc
      nearest p ≤ 2 ^ (exponent p + 53) := hlow
      _ ≤ 2 ^ (exponent q + 52) := zpow_le_zpow_right₀ one_le_two (by omega)
      _ ≤ nearest q := hhigh

/-- **Rounding is monotone**, across the powers of two as well, where the spacing changes. -/
theorem nearest_mono {p q : ℚ} (h : p ≤ q) : nearest p ≤ nearest q := by
  rcases lt_or_ge 0 p with hp | hp
  · exact nearest_mono_of_pos hp h
  · rcases lt_or_ge 0 q with hq | hq
    · calc
        nearest p ≤ 0 := by simpa using nearest_nonneg (neg_nonneg.mpr hp)
        _ ≤ nearest q := nearest_nonneg hq.le
    · rcases hq.eq_or_lt with rfl | hq
      · simpa using nearest_nonneg (neg_nonneg.mpr hp)
      · simpa using nearest_mono_of_pos (neg_pos.mpr hq) (neg_le_neg h)

/-- What lies between a number of the format and its negative stays there. -/
theorem abs_nearest_le_of_le {q b : ℚ} (hb : nearest b = b) (h : |q| ≤ b) : |nearest q| ≤ b := by
  obtain ⟨hlo, hhi⟩ := abs_le.mp h
  refine abs_le.mpr ⟨?_, ?_⟩
  · calc
      -b = nearest (-b) := by rw [nearest_neg, hb]
      _ ≤ nearest q := nearest_mono hlo
  · calc
      nearest q ≤ nearest b := nearest_mono hhi
      _ = b := hb

/-- Rounding at most doubles a number, or takes it to one. -/
theorem abs_nearest_le (q : ℚ) : |nearest q| ≤ 2 * |q| + 1 := by
  wlog hq : 0 ≤ q generalizing q
  · have hneg := this (-q) (by linarith)
    rwa [nearest_neg, abs_neg, abs_neg] at hneg
  rw [abs_of_nonneg (nearest_nonneg hq), abs_of_nonneg hq]
  rcases le_or_gt q 1 with hle | hgt
  · have hone := nearest_two_zpow (e := 0) (by norm_num)
    rw [zpow_zero] at hone
    linarith [nearest_mono hle]
  · have hq0 : 0 < q := by linarith
    have hlog : 0 ≤ Int.log 2 q :=
      (Int.zpow_le_iff_le_log one_lt_two hq0).mp (by simpa using hgt.le)
    have hlow := Int.zpow_log_le_self (b := 2) one_lt_two hq0
    have hhigh := Int.lt_zpow_succ_log_self (b := 2) one_lt_two q
    push_cast at hlow hhigh
    calc
      nearest q ≤ nearest (2 ^ (Int.log 2 q + 1)) := nearest_mono hhigh.le
      _ = 2 ^ (Int.log 2 q + 1) := nearest_two_zpow (by omega)
      _ = 2 * 2 ^ Int.log 2 q := by rw [zpow_add_one₀ two_ne_zero, mul_comm]
      _ ≤ 2 * q + 1 := by linarith

end Binary64
