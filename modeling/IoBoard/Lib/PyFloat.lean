import IoBoard.Lib.Binary64
import Mathlib.Algebra.Order.Ring.Abs

/-!
# Python Floats

A Python `float`: a finite binary64 number, an infinity or a NaN. The operations round the
exact result to nearest even and overflow to an infinity. The zero carries no sign, since no
comparison of Python distinguishes `-0.0` from `0.0`.

## Conventions

* A finite float is a rational with a proof that it is of the format, so equality of floats
  is equality of numbers, and a computation on floats can be evaluated. The price is that the
  two zeros are one: a program that renders the sign of a zero, or divides by one, needs more
  than this.
* Comparisons are Boolean functions rather than an order, since NaN compares false with
  everything; on finite values they are the order of `ℚ`. `x == y` is `eqB`, which differs
  from equality at NaN and only there.
* `div` is for a divisor other than zero: Python raises on zero, and the caller has to show
  that this does not happen.
* A conversion to an integer is an `Option`, `none` where Python raises.

Facts about a computation on floats come in two kinds. Where nothing rounds, because the exact
results are numbers of the format, `ofRat_of_isDouble` turns the computation into one on
rationals. Where something rounds, the bounds of `exists_ofRat_eq_fin` and the monotonicity of
`not_ofRat_ltB` say how far the result may be off and what it cannot cross.

## Main results

* `ofRat_of_isDouble`: a number of the format is not rounded.
* `exists_ofRat_eq_fin`: what lies between a float and its negative is finite when rounded.
* `HasSign.not_mul_neg`: **two values of one strict sign never have a negative product**.
-/

open Binary64

/-- A finite number of the binary64 format: it is not rounded, and it does not overflow. -/
def IsDouble (q : ℚ) : Prop :=
  nearest q = q ∧ |q| < 2 ^ 1024

instance (q : ℚ) : Decidable (IsDouble q) :=
  inferInstanceAs (Decidable (nearest q = q ∧ |q| < 2 ^ 1024))

theorem IsDouble.neg {q : ℚ} (h : IsDouble q) : IsDouble (-q) :=
  ⟨by rw [nearest_neg, h.1], by rw [abs_neg]; exact h.2⟩

theorem IsDouble.abs {q : ℚ} (h : IsDouble q) : IsDouble |q| := by
  rcases abs_choice q with hq | hq <;> rw [hq]
  · exact h
  · exact h.neg

/-- The largest number of the format. -/
theorem IsDouble.abs_le {q : ℚ} (h : IsDouble q) : |q| ≤ (2 ^ 53 - 1) * 2 ^ 971 := by
  wlog hq : 0 ≤ q generalizing q
  · have hneg := this h.neg (by linarith)
    rwa [abs_neg] at hneg
  obtain ⟨hnear, hlt⟩ := h
  have hpos : (0 : ℚ) < 2 ^ 971 := by positivity
  have hmin : (2 : ℚ) ^ (1023 : ℤ) = 2 ^ 52 * 2 ^ 971 :=
    (zpow_ofNat (2 : ℚ) 1023).trans (pow_add 2 52 971)
  have hmax : (2 : ℚ) ^ 1024 = 2 ^ 53 * 2 ^ 971 := pow_add 2 53 971
  have hspace : (2 : ℚ) ^ (971 : ℤ) = 2 ^ 971 := zpow_ofNat 2 971
  rw [abs_of_nonneg hq, hmax] at hlt
  rw [abs_of_nonneg hq]
  by_contra hgt
  rw [not_le] at hgt
  have hq0 : 0 < q := lt_trans (mul_pos (by norm_num) hpos) hgt
  have hexp : exponent q = 971 := by
    have hlow := (Int.zpow_le_iff_le_log (b := 2) (x := 1023) one_lt_two hq0).mp (by
      rw [Nat.cast_ofNat, hmin]
      exact (mul_le_mul_of_nonneg_right (by norm_num) hpos.le).trans hgt.le)
    have hhigh := (Int.lt_zpow_iff_log_lt (b := 2) (x := 1024) one_lt_two hq0).mp (by
      rw [Nat.cast_ofNat, show (2 : ℚ) ^ (1024 : ℤ) = 2 ^ 1024 from zpow_ofNat 2 1024, hmax]
      exact hlt)
    rw [exponent, abs_of_pos hq0]
    omega
  rw [nearest, hexp, hspace] at hnear
  rw [← hnear] at hgt hlt
  have hr1 := lt_of_mul_lt_mul_right hgt hpos.le
  have hr2 := lt_of_mul_lt_mul_right hlt hpos.le
  have hr1' : 2 ^ 53 - 1 < roundEven (q / 2 ^ 971) := by exact_mod_cast hr1
  have hr2' : roundEven (q / 2 ^ 971) < 2 ^ 53 := by exact_mod_cast hr2
  omega

theorem isDouble_intCast {k : ℤ} (hk : |k| < 2 ^ 53) : IsDouble k := by
  refine ⟨nearest_intCast hk, ?_⟩
  calc
    |(k : ℚ)| < 2 ^ 53 := by exact_mod_cast hk
    _ ≤ 2 ^ 1024 := pow_le_pow_right₀ one_le_two (by norm_num)

theorem isDouble_zero : IsDouble 0 := by
  simpa using isDouble_intCast (k := 0) (by norm_num)

/-- A Python `float`. A NaN has no payload and no sign. -/
inductive PyFloat
  | fin (q : {q : ℚ // IsDouble q})
  | inf (negative : Bool)
  | nan
  deriving DecidableEq

namespace PyFloat

/-- The float nearest to a rational: every operation on finite floats is the exact one and then
this. What rounds to the overflow limit or beyond is an infinity. -/
def ofRat (q : ℚ) : PyFloat :=
  if h : |nearest q| < 2 ^ 1024 then fin ⟨nearest q, nearest_nearest q, h⟩ else inf (decide (q < 0))

/-- Integer literals. -/
instance (n : ℕ) : OfNat PyFloat n := ⟨ofRat n⟩

/-- The number of a finite float, and zero otherwise. -/
def toRat : PyFloat → ℚ
  | fin q => q
  | _ => 0

/-- `-x`. -/
def neg : PyFloat → PyFloat
  | fin q => fin ⟨-q, q.2.neg⟩
  | inf s => inf (!s)
  | nan => nan

/-- `abs(x)`. -/
def abs : PyFloat → PyFloat
  | fin q => fin ⟨|(q : ℚ)|, q.2.abs⟩
  | inf _ => inf false
  | nan => nan

/-- `x + y`. -/
def add : PyFloat → PyFloat → PyFloat
  | fin a, fin b => ofRat (a + b)
  | fin _, inf s => inf s
  | inf s, fin _ => inf s
  | inf s, inf t => if s = t then inf s else nan
  | _, _ => nan

/-- `x - y`. -/
def sub (x y : PyFloat) : PyFloat :=
  x.add y.neg

/-- `x * y`. Zero times an infinity is NaN. -/
def mul : PyFloat → PyFloat → PyFloat
  | fin a, fin b => ofRat (a * b)
  | fin a, inf s => if (a : ℚ) = 0 then nan else inf (s != decide ((a : ℚ) < 0))
  | inf s, fin b => if (b : ℚ) = 0 then nan else inf (s != decide ((b : ℚ) < 0))
  | inf s, inf t => inf (s != t)
  | _, _ => nan

/-- `x / y` for a divisor other than zero. The quotient by an infinity is zero. -/
def div : PyFloat → PyFloat → PyFloat
  | fin a, fin b => ofRat (a / b)
  | fin _, inf _ => ofRat 0
  | inf s, fin b => inf (s != decide ((b : ℚ) < 0))
  | _, _ => nan

/-- `x < y`: false as soon as one of them is NaN. -/
def ltB : PyFloat → PyFloat → Bool
  | fin a, fin b => decide ((a : ℚ) < b)
  | fin _, inf s => !s
  | inf s, fin _ => s
  | inf s, inf t => s && !t
  | _, _ => false

/-- `x == y`: false of NaN and itself. -/
def eqB : PyFloat → PyFloat → Bool
  | fin a, fin b => decide ((a : ℚ) = b)
  | inf s, inf t => s == t
  | _, _ => false

/-- `x <= y`. -/
def leB (x y : PyFloat) : Bool :=
  ltB x y || eqB x y

/-- `math.floor(x)`: `none` where Python raises (`OverflowError` on an infinity,
`ValueError` on NaN). -/
def floor? : PyFloat → Option ℤ
  | fin q => some ⌊(q : ℚ)⌋
  | _ => none

/-- `int(x)`, which truncates towards zero: `none` where Python raises. -/
def int? : PyFloat → Option ℤ
  | fin q => some (if 0 ≤ (q : ℚ) then ⌊(q : ℚ)⌋ else -⌊-(q : ℚ)⌋)
  | _ => none

/-! ### Finite values -/

/-- A number of the format is not rounded. -/
theorem ofRat_of_isDouble {q : ℚ} (h : IsDouble q) : ofRat q = fin ⟨q, h⟩ := by
  have hlt : |nearest q| < 2 ^ 1024 := h.1.symm ▸ h.2
  rw [ofRat, dif_pos hlt]
  congr 2
  exact h.1

theorem zero_eq : (0 : PyFloat) = fin ⟨0, isDouble_zero⟩ := by
  have h : (0 : PyFloat) = ofRat 0 := congrArg ofRat Nat.cast_zero
  rw [h, ofRat_of_isDouble isDouble_zero]

variable {a b : {q : ℚ // IsDouble q}}

@[simp] theorem neg_fin : (fin a).neg = fin ⟨-a, a.2.neg⟩ := rfl
@[simp] theorem add_fin : (fin a).add (fin b) = ofRat (a + b) := rfl
theorem sub_fin : (fin a).sub (fin b) = ofRat (a - b) :=
  congrArg ofRat (sub_eq_add_neg _ _).symm
@[simp] theorem mul_fin : (fin a).mul (fin b) = ofRat (a * b) := rfl
@[simp] theorem div_fin : (fin a).div (fin b) = ofRat (a / b) := rfl

@[simp] theorem ltB_fin : ltB (fin a) (fin b) = decide ((a : ℚ) < b) := rfl
@[simp] theorem eqB_fin : eqB (fin a) (fin b) = decide ((a : ℚ) = b) := rfl
@[simp] theorem leB_fin : leB (fin a) (fin b) = decide ((a : ℚ) ≤ b) := by
  simp only [leB, ltB_fin, eqB_fin, ← Bool.decide_or, le_iff_lt_or_eq]

@[simp] theorem ltB_zero : ltB (fin a) 0 = decide ((a : ℚ) < 0) := by
  rw [zero_eq, ltB_fin]
@[simp] theorem zero_ltB : ltB 0 (fin a) = decide (0 < (a : ℚ)) := by
  rw [zero_eq, ltB_fin]

/-- Floats that compare equal are the same, as the zero has no sign here. -/
theorem eq_of_eqB {x y : PyFloat} (h : eqB x y = true) : x = y := by
  cases x with
  | fin a =>
      cases y with
      | fin b => exact congrArg fin (Subtype.ext (of_decide_eq_true h))
      | inf | nan => cases h
  | inf s =>
      cases y with
      | inf t => exact congrArg inf (beq_iff_eq.mp h)
      | fin | nan => cases h
  | nan => cases h

/-- A number is equal to itself. -/
theorem eqB_self {x : PyFloat} (h : x ≠ nan) : eqB x x = true := by
  cases x with
  | fin a => exact decide_eq_true rfl
  | inf s => exact beq_self_eq_true s
  | nan => exact absurd rfl h

@[simp] theorem neg_neg (x : PyFloat) : x.neg.neg = x := by
  cases x <;> simp [neg]

@[simp] theorem abs_neg (x : PyFloat) : x.neg.abs = x.abs := by
  cases x <;> simp [neg, abs]

/-! ### Rounded values -/

/-- What lies between a float and its negative is finite when rounded, and stays there. -/
theorem exists_ofRat_eq_fin {q b : ℚ} (hb : IsDouble b) (h : |q| ≤ b) :
    ∃ d : {q // IsDouble q}, ofRat q = fin d ∧ (d : ℚ) = nearest q ∧ |(d : ℚ)| ≤ b := by
  have hle := abs_nearest_le_of_le hb.1 h
  have hlt : |nearest q| < 2 ^ 1024 := hle.trans_lt ((le_abs_self b).trans_lt hb.2)
  exact ⟨⟨nearest q, nearest_nearest q, hlt⟩, by rw [ofRat, dif_pos hlt], rfl, hle⟩

/-- What is within one of a float is finite when rounded. -/
theorem exists_ofRat_near {d : {q // IsDouble q}} {q : ℚ} (h : |q - d| ≤ 1) :
    ∃ y : {q // IsDouble q}, ofRat q = fin y ∧ |(y : ℚ)| ≤ 2 * |(d : ℚ)| + 3 := by
  have hmax : nearest ((2 ^ 53 - 1) * 2 ^ 971 + 1) = (2 ^ 53 - 1) * 2 ^ 971 := by
    decide +kernel
  have hfinite : ((2 : ℚ) ^ 53 - 1) * 2 ^ 971 < 2 ^ 1024 := by decide +kernel
  obtain ⟨hlo, hhi⟩ := abs_le.mp d.2.abs_le
  obtain ⟨hq1, hq2⟩ := abs_le.mp h
  generalize ((2 : ℚ) ^ 53 - 1) * 2 ^ 971 = m at hmax hfinite hlo hhi
  have hle : |nearest q| ≤ m := by
    refine abs_le.mpr ⟨?_, ?_⟩
    · have hmono := nearest_mono (show -(m + 1) ≤ q by linarith)
      rwa [nearest_neg, hmax] at hmono
    · have hmono := nearest_mono (show q ≤ m + 1 by linarith)
      rwa [hmax] at hmono
  have hlt := hle.trans_lt hfinite
  refine ⟨⟨_, nearest_nearest _, hlt⟩, by rw [ofRat, dif_pos hlt], ?_⟩
  have hdist := (abs_sub_abs_le_abs_sub q d).trans h
  exact (abs_nearest_le q).trans (by linarith)

/-- Rounding is the same for both signs. -/
theorem neg_ofRat (q : ℚ) : (ofRat q).neg = ofRat (-q) := by
  have habs : |nearest (-q)| = |nearest q| := by simp
  by_cases h : |nearest q| < 2 ^ 1024
  · rw [ofRat, dif_pos h, ofRat, dif_pos (habs ▸ h), neg_fin]
    exact congrArg fin (Subtype.ext (nearest_neg q).symm)
  · have h0 : q ≠ 0 := by
      rintro rfl
      rw [nearest_zero, abs_zero] at h
      exact h (by positivity)
    rw [ofRat, dif_neg h, ofRat, dif_neg (habs ▸ h), neg]
    congr 1
    rcases lt_or_gt_of_ne h0 with hlt | hgt
    · simp [hlt, hlt.le]
    · simp [hgt, hgt.le]

/-- A finite result is the rounded exact one. -/
theorem eq_nearest_of_ofRat {q : ℚ} {d : {q // IsDouble q}} (h : ofRat q = fin d) :
    (d : ℚ) = nearest q := by
  unfold ofRat at h
  split_ifs at h
  rw [← fin.inj h]

/-- A rounded value is negative when it is below a power of two of the format. -/
theorem ofRat_ltB_zero {q : ℚ} {e : ℤ} (he : -1074 ≤ e) (h : q ≤ -2 ^ e) :
    ltB (ofRat q) 0 = true := by
  have hround : nearest q ≤ -2 ^ e := by
    rw [← nearest_two_zpow he, ← nearest_neg]
    exact nearest_mono h
  have hpos := two_zpow_pos e
  unfold ofRat
  split_ifs with hfin
  · rw [ltB_zero, decide_eq_true_eq]
    exact hround.trans_lt (neg_neg_of_pos hpos)
  · rw [zero_eq]
    simpa [ltB] using h.trans_lt (neg_neg_of_pos hpos)

/-- Rounding does not make a value negative. -/
theorem not_ofRat_ltB_zero {q : ℚ} (h : 0 ≤ q) : ltB (ofRat q) 0 = false := by
  unfold ofRat
  split_ifs with hfin
  · simpa using nearest_nonneg h
  · rw [zero_eq]
    simpa [ltB] using h

/-- Rounding keeps the order of two numbers. -/
theorem not_ofRat_ltB {p q : ℚ} (h : p ≤ q) : ltB (ofRat q) (ofRat p) = false := by
  have hround := nearest_mono h
  unfold ofRat
  split_ifs with hq hp hp
  · simpa [ltB] using hround
  · -- only the smaller one overflows, so it does so downwards
    have hneg : p < 0 := by
      by_contra hpos
      rw [abs_of_nonneg (nearest_nonneg (not_lt.mp hpos))] at hp
      exact hp (hround.trans_lt ((le_abs_self _).trans_lt hq))
    simp [ltB, hneg]
  · have hpos : 0 ≤ q := by
      by_contra hneg
      have hq0 := nearest_nonneg (neg_nonneg.mpr (not_le.mp hneg).le)
      rw [nearest_neg] at hq0
      rw [abs_of_nonpos (by linarith)] at hq
      exact hq ((neg_le_neg hround).trans_lt ((neg_le_abs _).trans_lt hp))
    simp [ltB, hpos]
  · simp only [ltB, Bool.and_eq_false_imp, decide_eq_true_eq, Bool.not_eq_false']
    exact fun hneg => h.trans_lt hneg

/-- Nothing is above a positive infinity. -/
theorem not_inf_ltB (x : PyFloat) : ltB (inf false) x = false := by
  cases x <;> rfl

/-- Nothing is below a negative infinity. -/
theorem not_ltB_neg_inf (x : PyFloat) : ltB x (inf true) = false := by
  cases x <;> simp [ltB]

/-! ### The order of the numbers -/

/-- No float is below itself. -/
theorem ltB_self (x : PyFloat) : x.ltB x = false := by
  cases x with
  | fin a => simp
  | inf s => cases s <;> rfl
  | nan => rfl

/-- Of two floats at most one is below the other. -/
theorem ltB_asymm {x y : PyFloat} (h : x.ltB y = true) : y.ltB x = false := by
  cases x with
  | nan => cases h
  | fin a =>
      cases y with
      | nan => cases h
      | fin b => simpa using (of_decide_eq_true h).le
      | inf s => simpa [ltB] using h
  | inf s =>
      cases y with
      | nan => cases h
      | fin b => simpa [ltB] using h
      | inf t =>
          simp only [ltB, Bool.and_eq_true, Bool.not_eq_true'] at h
          simp [ltB, h.1, h.2]

/-- Two different numbers are comparable. -/
theorem ltB_or_ltB {x y : PyFloat} (hx : x ≠ nan) (hy : y ≠ nan) (hne : x ≠ y) :
    x.ltB y = true ∨ y.ltB x = true := by
  cases x with
  | nan => exact absurd rfl hx
  | fin a =>
      cases y with
      | nan => exact absurd rfl hy
      | fin b =>
          have hab : (a : ℚ) ≠ b := fun h => hne (congrArg fin (Subtype.ext h))
          simpa using lt_or_gt_of_ne hab
      | inf s => cases s <;> simp [ltB]
  | inf s =>
      cases y with
      | nan => exact absurd rfl hy
      | fin b => cases s <;> simp [ltB]
      | inf t => cases s <;> cases t <;> simp [ltB] at hne ⊢

/-! ### Strict signs -/

/-- `x` is of the strict sign `s` (`true` for negative). Neither a zero nor NaN is of any. -/
def HasSign (s : Bool) (x : PyFloat) : Prop :=
  if s then ltB x 0 = true else ltB 0 x = true

instance (s : Bool) (x : PyFloat) : Decidable (HasSign s x) :=
  inferInstanceAs (Decidable (if s then ltB x 0 = true else ltB 0 x = true))

/-- On finite values the strict sign is that of `ℚ`. -/
@[simp] theorem hasSign_fin {s : Bool} :
    HasSign s (fin a) ↔ if s then (a : ℚ) < 0 else 0 < (a : ℚ) := by
  cases s <;> simp [HasSign]

/-- An infinity is of its own strict sign. -/
@[simp] theorem hasSign_inf {s t : Bool} : HasSign s (inf t) ↔ t = s := by
  cases s <;> cases t <;> simp [HasSign, ltB, zero_eq]

/-- NaN has no sign. -/
@[simp] theorem not_hasSign_nan {s : Bool} : ¬ HasSign s nan := by
  cases s <;> simp [HasSign, ltB, zero_eq]

/-- **Two values of one strict sign never have a negative product**, infinities
included. -/
theorem HasSign.not_mul_neg {s : Bool} {x y : PyFloat} (hx : HasSign s x)
    (hy : HasSign s y) : ltB (x.mul y) 0 = false := by
  cases x with
  | nan => exact absurd hx not_hasSign_nan
  | fin a =>
      cases y with
      | nan => exact absurd hy not_hasSign_nan
      | fin b =>
          rw [hasSign_fin] at hx hy
          refine not_ofRat_ltB_zero ?_
          cases s
          · exact (mul_pos hx hy).le
          · exact (mul_pos_of_neg_of_neg hx hy).le
      | inf t =>
          rw [hasSign_fin] at hx
          rw [hasSign_inf] at hy
          subst hy
          cases t
          · have hx' : 0 < (a : ℚ) := by simpa using hx
            simp [mul, ltB, zero_eq, hx'.ne', hx'.le]
          · have hx' : (a : ℚ) < 0 := by simpa using hx
            simp [mul, ltB, zero_eq, hx', hx'.ne]
  | inf t =>
      rw [hasSign_inf] at hx
      subst hx
      cases y with
      | nan => exact absurd hy not_hasSign_nan
      | fin b =>
          rw [hasSign_fin] at hy
          cases t
          · have hy' : 0 < (b : ℚ) := by simpa using hy
            simp [mul, ltB, zero_eq, hy'.ne', hy'.le]
          · have hy' : (b : ℚ) < 0 := by simpa using hy
            simp [mul, ltB, zero_eq, hy', hy'.ne]
      | inf u =>
          rw [hasSign_inf] at hy
          subst hy
          simp [mul, ltB, zero_eq]

end PyFloat
