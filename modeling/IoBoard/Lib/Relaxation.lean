import Mathlib.Algebra.Order.Archimedean.Basic
import Mathlib.Analysis.Convex.Basic
import Mathlib.Algebra.BigOperators.Ring.Finset
import Mathlib.Algebra.Order.BigOperators.Group.Finset
import Mathlib.Tactic.FieldSimp
import Mathlib.Tactic.Linarith
import Mathlib.Tactic.LinearCombination

/-!
# Relaxation to a Constant

A value that moves towards a constant target by some fraction, its gain, of the distance left,
step after step, as a first-order filter does whose input stays at a constant. Each step covers
its share of the first distance; the shares of all steps add up to at most one.

With a constant gain the first step is the largest. The gain of a scalar Kalman filter follows
a recursion of its own, along which the shares first grow and then shrink.

Towards targets that change a value stays between the least and the greatest of them, and each
step leaves `1 - gain` of the distance to its target.

A program computes these steps with rounding errors, in the value and, for a Kalman filter, in
the gain. The errors do not add up: a step takes its gain off all errors before it, so what a
step moves on their account is bounded by the error of one step (`IsDamped`). With a constant
gain this is a geometric series. With the gains of a Kalman filter the errors may pile up while
the gain is small, but then it has not grown yet, or grows no more.

## Main results

* `abs_approach_sub`: **a step moves by its share of the first distance**.
* `sum_share_le_one`: the shares add up to at most one.
* `share_const_le`: with a constant gain the first step is the largest.
* `Between.towards`: **a value stays between the targets**.
* `IsPeak.share_le`: **with the gain of a Kalman filter the first step from which on the shares
  fall is the largest**, and there is one.
* `abs_sub_share_le`: **a value whose steps are off by a little moves by its shares except for
  twice as much**, however many steps there are, with a constant gain and with the gains of a
  Kalman filter.
* `abs_gains_sub_le`: **gains that are off by a part of themselves in every step stay as near**.
-/

namespace Relaxation

variable {K : Type*} [Field K]

/-- The value after `n` steps from `a` to `b`, when the `n`-th step covers the part `gain n` of what
is left. -/
def approach (gain : ℕ → K) (a b : K) : ℕ → K
  | 0 => a
  | n + 1 => approach gain a b n + gain n * (b - approach gain a b n)

/-- The part of the first distance that is left after `n` steps. -/
def rest (gain : ℕ → K) : ℕ → K
  | 0 => 1
  | n + 1 => (1 - gain n) * rest gain n

/-- The part of the first distance that the `n`-th step covers. Of what is left before the step it
covers the gain. -/
def share (gain : ℕ → K) (n : ℕ) : K :=
  gain n * rest gain n

@[simp] theorem approach_zero (gain : ℕ → K) (a b : K) : approach gain a b 0 = a := rfl

@[simp] theorem rest_zero (gain : ℕ → K) : rest gain 0 = 1 := rfl

@[simp] theorem share_zero (gain : ℕ → K) : share gain 0 = gain 0 := mul_one _

theorem sub_approach (gain : ℕ → K) (a b : K) (n : ℕ) :
    b - approach gain a b n = rest gain n * (b - a) := by
  induction n with
  | zero => simp
  | succ n ih =>
      calc
        b - approach gain a b (n + 1) = (1 - gain n) * (b - approach gain a b n) := by
          rw [approach]
          ring
        _ = rest gain (n + 1) * (b - a) := by rw [ih, rest, mul_assoc]

theorem approach_succ_sub (gain : ℕ → K) (a b : K) (n : ℕ) :
    approach gain a b (n + 1) - approach gain a b n = share gain n * (b - a) := by
  rw [approach, add_sub_cancel_left, sub_approach, share, mul_assoc]

theorem rest_succ (gain : ℕ → K) (n : ℕ) : rest gain (n + 1) = rest gain n - share gain n := by
  rw [rest, share]
  ring

/-- What the steps cover and what they leave is the whole distance. -/
theorem sum_share (gain : ℕ → K) (n : ℕ) :
    ∑ j ∈ Finset.range n, share gain j = 1 - rest gain n := by
  induction n with
  | zero => simp
  | succ n ih =>
      rw [Finset.sum_range_succ, ih, rest_succ]
      ring

section Order

variable [LinearOrder K] [IsStrictOrderedRing K] {gain : ℕ → K}

/-- Every gain is a part of the whole, so no step goes back or beyond the target. -/
def IsGain (gain : ℕ → K) : Prop :=
  ∀ n, 0 ≤ gain n ∧ gain n ≤ 1

theorem rest_nonneg (h : IsGain gain) (n : ℕ) : 0 ≤ rest gain n := by
  induction n with
  | zero => exact zero_le_one
  | succ n ih => exact mul_nonneg (sub_nonneg.mpr (h n).2) ih

theorem share_nonneg (h : IsGain gain) (n : ℕ) : 0 ≤ share gain n :=
  mul_nonneg (h n).1 (rest_nonneg h n)

/-- **A step moves by its share of the first distance**, whatever the distance and its sign. -/
theorem abs_approach_sub (h : IsGain gain) (a b : K) (n : ℕ) :
    |approach gain a b (n + 1) - approach gain a b n| = share gain n * |b - a| := by
  rw [approach_succ_sub, abs_mul, abs_of_nonneg (share_nonneg h n)]

/-- The shares add up to at most one. -/
theorem sum_share_le_one (h : IsGain gain) (n : ℕ) :
    ∑ j ∈ Finset.range n, share gain j ≤ 1 := by
  have := rest_nonneg h n
  rw [sum_share]
  linarith

/-- Shares that never shrink are nothing at all. -/
theorem share_zero_nonpos [Archimedean K] (h : IsGain gain)
    (hmono : ∀ n, share gain 0 ≤ share gain n) : share gain 0 ≤ 0 := by
  by_contra! hpos
  obtain ⟨n, hn⟩ := Archimedean.arch 2 hpos
  have hsum : n • share gain 0 ≤ ∑ j ∈ Finset.range n, share gain j := by
    simpa using Finset.card_nsmul_le_sum (Finset.range n) (share gain) _ fun j _ => hmono j
  have hle := sum_share_le_one h n
  linarith

/-- With a constant gain the first step is the largest. -/
theorem share_const_le {k : K} (h0 : 0 ≤ k) (h1 : k ≤ 1) (n : ℕ) : share (fun _ => k) n ≤ k := by
  have hgain : IsGain fun _ : ℕ => k := fun _ => ⟨h0, h1⟩
  have hrest : rest (fun _ => k) n ≤ 1 := by
    have hsum := sum_share (fun _ => k) n
    have hnonneg := Finset.sum_nonneg fun j (_ : j ∈ Finset.range n) => share_nonneg hgain j
    linarith
  exact mul_le_of_le_one_right h0 hrest

/-! ### Changing targets -/

/-- Between the least and the greatest of some values. The list is not empty then. -/
def Between (values : List K) (x : K) : Prop :=
  ∃ lo ∈ values, ∃ hi ∈ values, lo ≤ x ∧ x ≤ hi

omit [Field K] [IsStrictOrderedRing K] in
theorem Between.of_mem {values : List K} {x : K} (h : x ∈ values) : Between values x :=
  ⟨x, h, x, h, le_rfl, le_rfl⟩

omit [Field K] [IsStrictOrderedRing K] in
theorem Between.mono {values values' : List K} {x : K} (h : Between values x)
    (hsub : values ⊆ values') : Between values' x := by
  obtain ⟨lo, hlo, hi, hhi, hle⟩ := h
  exact ⟨lo, hsub hlo, hi, hsub hhi, hle⟩

/-- Two values that are far apart lie between targets that are as far apart. -/
theorem Between.exists_lt_sub {values : List K} {x y T : K} (hx : Between values x)
    (hy : Between values y) (h : T < |x - y|) : ∃ a ∈ values, ∃ b ∈ values, T < b - a := by
  obtain ⟨lo, hlo, hi, hhi, hlox, hxhi⟩ := hx
  obtain ⟨lo', hlo', hi', hhi', hloy, hyhi⟩ := hy
  rcases lt_abs.mp h with hlt | hlt
  · exact ⟨lo', hlo', hi, hhi, by linarith⟩
  · exact ⟨lo, hlo, hi', hhi', by linarith⟩

/-- **A value stays between the targets.** -/
theorem Between.towards {values : List K} {x z k : K} (hx : Between values x)
    (hz : z ∈ values) (h0 : 0 ≤ k) (h1 : k ≤ 1) : Between values (x + k * (z - x)) := by
  obtain ⟨lo, hlo, hi, hhi, hlox, hxhi⟩ := hx
  rcases le_total x z with hle | hle
  · have hmem := (convex_Icc x z).add_smul_sub_mem (Set.left_mem_Icc.mpr hle)
      (Set.right_mem_Icc.mpr hle) ⟨h0, h1⟩
    exact ⟨lo, hlo, z, hz, hlox.trans hmem.1, hmem.2⟩
  · have hmem := (convex_Icc z x).add_smul_sub_mem (Set.right_mem_Icc.mpr hle)
      (Set.left_mem_Icc.mpr hle) ⟨h0, h1⟩
    exact ⟨z, hz, hi, hhi, hmem.1, hmem.2.trans hxhi⟩

/-- A step leaves `1 - k` of the distance to its target. -/
theorem abs_towards_sub {k : K} (h1 : k ≤ 1) (x z : K) :
    |x + k * (z - x) - z| = (1 - k) * |x - z| := by
  have hsplit : x + k * (z - x) - z = (1 - k) * (x - z) := by ring
  rw [hsplit, abs_mul, abs_of_nonneg (sub_nonneg.mpr h1)]

/-! ### The gain of a scalar Kalman filter -/

/-- The gain after the gain `k`, with the noise covariances `q` of the process and `r` of the
measurement. Only their ratio matters. -/
def nextGain (q r k : K) : K :=
  (r * k + q) / (r * k + q + r)

/-- The literal `2` of the next definition. -/
local instance atLeastTwo : Nat.AtLeastTwo 2 := ⟨le_rfl⟩

/-- From this gain on the shares shrink: the next gain covers less of what is left than the present
one covers. The inequality is free of division. -/
def Falling (q r k : K) : Prop :=
  q ≤ 2 * r * k ^ 2 + 2 * q * k

instance (q r k : K) : Decidable (Falling q r k) :=
  inferInstanceAs (Decidable (_ ≤ _))

variable {q r : K}

theorem nextGain_pos (hq : 0 < q) (hr : 0 < r) {k : K} (hk : 0 ≤ k) : 0 < nextGain q r k := by
  have := mul_nonneg hr.le hk
  exact div_pos (by linarith) (by linarith)

theorem nextGain_lt_one (hq : 0 < q) (hr : 0 < r) {k : K} (hk : 0 ≤ k) : nextGain q r k < 1 := by
  have := mul_nonneg hr.le hk
  rw [nextGain, div_lt_one (by linarith)]
  linarith

/-- The next step covers at most as much as the present one exactly from there on. -/
theorem nextGain_mul_le_iff (hq : 0 < q) (hr : 0 < r) {k : K} (hk : 0 ≤ k) :
    nextGain q r k * (1 - k) ≤ k ↔ Falling q r k := by
  have hpos : 0 < r * k + q + r := by
    have := mul_nonneg hr.le hk
    linarith
  rw [nextGain, div_mul_eq_mul_div, div_le_iff₀ hpos, Falling]
  constructor <;> intro h <;> linarith

/-- Once the shares shrink they go on doing so. -/
theorem Falling.next (hq : 0 < q) (hr : 0 < r) {k : K} (hk : 0 ≤ k) (h : Falling q r k) :
    Falling q r (nextGain q r k) := by
  have hpos : 0 < r * k + q + r := by
    have := mul_nonneg hr.le hk
    linarith
  have heq : nextGain q r k * (r * k + q + r) = r * k + q := div_mul_cancel₀ _ hpos.ne'
  have hnext := nextGain_pos hq hr hk
  rcases le_or_gt k (nextGain q r k) with hle | hlt
  · -- the gain grows, and with it the bound
    have hsq : k ^ 2 ≤ nextGain q r k ^ 2 := pow_le_pow_left₀ hk hle 2
    have h1 := mul_le_mul_of_nonneg_left hsq hr.le
    have h2 := mul_le_mul_of_nonneg_left hle hq.le
    unfold Falling at h ⊢
    linarith
  · -- the gain falls towards its fixed point, where the bound is twice what is needed
    have h1 := mul_nonneg hr.le (mul_nonneg (sub_nonneg.mpr (nextGain_lt_one hq hr hk).le)
      (sub_nonneg.mpr hlt.le))
    have h2 := mul_pos hq hnext
    have h3 := mul_pos hr (pow_pos hnext 2)
    generalize nextGain q r k = k' at *
    calc
      q = r * k' ^ 2 + q * k' - r * ((1 - k') * (k - k')) := by linear_combination -heq
      _ ≤ 2 * r * k' ^ 2 + 2 * q * k' := by linarith

/-- The gains from `k` on. -/
def gains (q r k : K) : ℕ → K
  | 0 => k
  | n + 1 => nextGain q r (gains q r k n)

/-- The gains of a filter that starts with a gain between zero and one. -/
theorem gains_mem (hq : 0 < q) (hr : 0 < r) {k : K} (h0 : 0 < k) (h1 : k < 1) (n : ℕ) :
    0 < gains q r k n ∧ gains q r k n < 1 := by
  induction n with
  | zero => exact ⟨h0, h1⟩
  | succ n ih => exact ⟨nextGain_pos hq hr ih.1.le, nextGain_lt_one hq hr ih.1.le⟩

theorem isGain_gains (hq : 0 < q) (hr : 0 < r) {k : K} (h0 : 0 < k) (h1 : k < 1) :
    IsGain (gains q r k) :=
  fun n => ⟨(gains_mem hq hr h0 h1 n).1.le, (gains_mem hq hr h0 h1 n).2.le⟩

theorem rest_gains_pos (hq : 0 < q) (hr : 0 < r) {k : K} (h0 : 0 < k) (h1 : k < 1) (n : ℕ) :
    0 < rest (gains q r k) n := by
  induction n with
  | zero => exact zero_lt_one
  | succ n ih => exact mul_pos (sub_pos.mpr (gains_mem hq hr h0 h1 n).2) ih

/-- A step covers at most as much as the step before it exactly where the shares fall. -/
theorem share_succ_le_iff (hq : 0 < q) (hr : 0 < r) {k : K} (h0 : 0 < k) (h1 : k < 1) (n : ℕ) :
    share (gains q r k) (n + 1) ≤ share (gains q r k) n ↔ Falling q r (gains q r k n) := by
  rw [← nextGain_mul_le_iff hq hr (gains_mem hq hr h0 h1 n).1.le, share, share, rest, ← mul_assoc,
    mul_le_mul_iff_left₀ (rest_gains_pos hq hr h0 h1 n), gains]

/-- The shares fall at last, since all of them together are at most one: shares that never shrink
would add up to more. -/
theorem exists_falling [Archimedean K] (hq : 0 < q) (hr : 0 < r) {k : K} (h0 : 0 < k)
    (h1 : k < 1) : ∃ n, Falling q r (gains q r k n) := by
  by_contra! hnever
  have hstep : ∀ n, share (gains q r k) n ≤ share (gains q r k) (n + 1) := fun n =>
    (not_le.mp fun hle => hnever n ((share_succ_le_iff hq hr h0 h1 n).mp hle)).le
  have hmono := monotone_nat_of_le_succ hstep
  have hzero := share_zero_nonpos (isGain_gains hq hr h0 h1) fun n => hmono (Nat.zero_le n)
  rw [share_zero, gains] at hzero
  exact absurd h0 hzero.not_gt

theorem falling_of_le (hq : 0 < q) (hr : 0 < r) {k : K} (h0 : 0 < k) (h1 : k < 1) {m n : ℕ}
    (hmn : m ≤ n) (h : Falling q r (gains q r k m)) : Falling q r (gains q r k n) := by
  induction n, hmn using Nat.le_induction with
  | base => exact h
  | succ n _ ih => exact ih.next hq hr (gains_mem hq hr h0 h1 n).1.le

/-- The first step from which on the shares fall. Before it they grow, so it is the largest. -/
structure IsPeak (q r k : K) (N : ℕ) : Prop where
  falling : Falling q r (gains q r k N)
  rising : ∀ n < N, ¬ Falling q r (gains q r k n)

/-- **The first step from which on the shares fall is the largest.** -/
theorem IsPeak.share_le (hq : 0 < q) (hr : 0 < r) {k : K} (h0 : 0 < k) (h1 : k < 1) {N : ℕ}
    (h : IsPeak q r k N) (n : ℕ) : share (gains q r k) n ≤ share (gains q r k) N := by
  rcases le_total N n with hle | hle
  · induction n, hle using Nat.le_induction with
    | base => exact le_rfl
    | succ n hn ih =>
        exact ((share_succ_le_iff hq hr h0 h1 n).mpr
          (falling_of_le hq hr h0 h1 hn h.falling)).trans ih
  · induction hle using Nat.decreasingInduction with
    | self => exact le_rfl
    | of_succ m hm ih =>
        have hlt := mt (share_succ_le_iff hq hr h0 h1 m).mp (h.rising m hm)
        exact (not_le.mp hlt).le.trans ih

theorem exists_isPeak [Archimedean K] (hq : 0 < q) (hr : 0 < r) {k : K} (h0 : 0 < k)
    (h1 : k < 1) : ∃ N, IsPeak q r k N := by
  have h := exists_falling hq hr h0 h1
  exact ⟨Nat.find h, Nat.find_spec h, fun n hn => Nat.find_min h hn⟩

/-! ### Steps that are off -/

/-- What errors of one in every step have become after `n` steps: each step takes its gain off what
is there and adds its own. -/
def weight (gain : ℕ → K) : ℕ → K
  | 0 => 0
  | n + 1 => (1 - gain n) * weight gain n + 1

/-- No step moves by more than one on account of the errors before it. -/
def IsDamped (gain : ℕ → K) : Prop :=
  ∀ n, gain n * weight gain n ≤ 1

theorem weight_nonneg {gain : ℕ → K} (h : IsGain gain) (n : ℕ) : 0 ≤ weight gain n := by
  induction n with
  | zero => exact le_rfl
  | succ n ih =>
      have := mul_nonneg (sub_nonneg.mpr (h n).2) ih
      rw [weight]
      linarith

/-- The next step moves no more on account of the errors when its gain is no larger. -/
theorem gain_mul_weight_succ_le {gain : ℕ → K} (h : IsGain gain) {n : ℕ}
    (hle : gain (n + 1) ≤ gain n) (hn : gain n * weight gain n ≤ 1) :
    gain (n + 1) * weight gain (n + 1) ≤ 1 := by
  have hrest : 0 ≤ (1 - gain n) * weight gain n :=
    mul_nonneg (sub_nonneg.mpr (h n).2) (weight_nonneg h n)
  calc
    gain (n + 1) * weight gain (n + 1) ≤ gain n * ((1 - gain n) * weight gain n + 1) := by
      rw [weight]
      exact mul_le_mul_of_nonneg_right hle (by linarith)
    _ = (1 - gain n) * (gain n * weight gain n) + gain n := by ring
    _ ≤ (1 - gain n) * 1 + gain n := by
      gcongr
      exact sub_nonneg.mpr (h n).2
    _ = 1 := by ring

theorem isDamped_const {k : K} (h0 : 0 ≤ k) (h1 : k ≤ 1) : IsDamped fun _ => k := by
  have hgain : IsGain fun _ : ℕ => k := fun _ => ⟨h0, h1⟩
  intro n
  induction n with
  | zero => simp [weight]
  | succ n ih => exact gain_mul_weight_succ_le hgain le_rfl ih

/-- **Steps that are off.** A value that moves by its gain towards the target, except for an
error of at most `η` in each step, moves in every step by its share of the first distance,
except for an error of at most `2 * η`. -/
theorem abs_sub_share_le {gain : ℕ → K} (h : IsGain gain) (hd : IsDamped gain) {x : ℕ → K}
    {b η : K} (hx : ∀ n, |x (n + 1) - (x n + gain n * (b - x n))| ≤ η) (n : ℕ) :
    |x (n + 1) - x n - share gain n * (b - x 0)| ≤ 2 * η := by
  have hη : 0 ≤ η := (abs_nonneg _).trans (hx 0)
  have herror : ∀ n, |b - x n - rest gain n * (b - x 0)| ≤ η * weight gain n := by
    intro n
    induction n with
    | zero => simp [weight]
    | succ n ih =>
        have hsplit : b - x (n + 1) - rest gain (n + 1) * (b - x 0) =
            (1 - gain n) * (b - x n - rest gain n * (b - x 0)) -
              (x (n + 1) - (x n + gain n * (b - x n))) := by
          rw [rest]
          ring
        calc
          |b - x (n + 1) - rest gain (n + 1) * (b - x 0)| ≤
              |(1 - gain n) * (b - x n - rest gain n * (b - x 0))| +
                |x (n + 1) - (x n + gain n * (b - x n))| := by
            rw [hsplit]
            exact abs_sub _ _
          _ ≤ (1 - gain n) * (η * weight gain n) + η := by
            rw [abs_mul, abs_of_nonneg (sub_nonneg.mpr (h n).2)]
            exact add_le_add (mul_le_mul_of_nonneg_left ih (sub_nonneg.mpr (h n).2)) (hx n)
          _ = η * weight gain (n + 1) := by
            rw [weight]
            ring
  have hsplit : x (n + 1) - x n - share gain n * (b - x 0) =
      gain n * (b - x n - rest gain n * (b - x 0)) +
        (x (n + 1) - (x n + gain n * (b - x n))) := by
    rw [share]
    ring
  calc
    |x (n + 1) - x n - share gain n * (b - x 0)| ≤
        |gain n * (b - x n - rest gain n * (b - x 0))| +
          |x (n + 1) - (x n + gain n * (b - x n))| := by
      rw [hsplit]
      exact abs_add_le _ _
    _ ≤ gain n * (η * weight gain n) + η := by
      rw [abs_mul, abs_of_nonneg (h n).1]
      exact add_le_add (mul_le_mul_of_nonneg_left (herror n) (h n).1) (hx n)
    _ = η * (gain n * weight gain n) + η := by ring
    _ ≤ η * 1 + η := by
      gcongr
      exact hd n
    _ = 2 * η := by ring

/-! ### The gain of a scalar Kalman filter that is off -/

theorem one_sub_nextGain (hq : 0 < q) (hr : 0 < r) {k : K} (hk : 0 ≤ k) :
    1 - nextGain q r k = r / (r * k + q + r) := by
  have hpos : 0 < r * k + q + r := by
    have := mul_nonneg hr.le hk
    linarith
  rw [nextGain, eq_div_iff hpos.ne', sub_mul, div_mul_cancel₀ _ hpos.ne']
  ring

/-- The gain grows with the one before it. -/
theorem nextGain_mono (hq : 0 < q) (hr : 0 < r) {k k' : K} (hk : 0 ≤ k) (h : k ≤ k') :
    nextGain q r k ≤ nextGain q r k' := by
  have hmul := mul_le_mul_of_nonneg_left h hr.le
  have hpos := mul_nonneg hr.le hk
  have hle : r / (r * k' + q + r) ≤ r / (r * k + q + r) :=
    div_le_div_of_nonneg_left hr.le (by linarith) (by linarith)
  rw [← one_sub_nextGain hq hr hk, ← one_sub_nextGain hq hr (hk.trans h)] at hle
  linarith

/-- A gain that grows is one of few errors. -/
theorem mul_weight_gains_le (hq : 0 < q) (hr : 0 < r) {k : K} (h0 : 0 < k) (h1 : k < 1) (n : ℕ) :
    q * (1 - gains q r k n) * weight (gains q r k) n ≤ r * gains q r k n := by
  induction n with
  | zero =>
      rw [weight, mul_zero]
      exact mul_nonneg hr.le h0.le
  | succ n ih =>
      have hgain := gains_mem hq hr h0 h1 n
      have hnext := nextGain_lt_one hq hr hgain.1.le
      have hpos : 0 < r * gains q r k n + q + r := by
        have := mul_pos hr hgain.1
        linarith
      have hbalance : r * nextGain q r (gains q r k n) =
          (1 - nextGain q r (gains q r k n)) * (r * gains q r k n + q) := by
        rw [one_sub_nextGain hq hr hgain.1.le, nextGain]
        field_simp
      rw [gains, weight, hbalance]
      calc
        q * (1 - nextGain q r (gains q r k n)) *
            ((1 - gains q r k n) * weight (gains q r k) n + 1) =
            (1 - nextGain q r (gains q r k n)) *
              (q * (1 - gains q r k n) * weight (gains q r k) n + q) := by ring
        _ ≤ (1 - nextGain q r (gains q r k n)) * (r * gains q r k n + q) := by
          gcongr

/-- While the gain grows, the errors are few; once it falls, it goes on falling, and each step takes
off at least what it moves. -/
theorem isDamped_gains (hq : 0 < q) (hr : 0 < r) {k : K} (h0 : 0 < k) (h1 : k < 1) :
    IsDamped (gains q r k) := by
  have hgain := gains_mem hq hr h0 h1
  have hgrowing : ∀ n, gains q r k n ≤ gains q r k (n + 1) →
      gains q r k n * weight (gains q r k) n ≤ 1 := by
    intro n hle
    obtain ⟨hpos, hlt⟩ := hgain n
    have hdenom : 0 < r * gains q r k n + q + r := by
      have := mul_pos hr hpos
      linarith
    rw [gains, nextGain, le_div_iff₀ hdenom] at hle
    have hfew : r * gains q r k n ^ 2 ≤ q * (1 - gains q r k n) := by linarith
    have hweight := mul_le_mul_of_nonneg_left (mul_weight_gains_le hq hr h0 h1 n) hpos.le
    have hroom : 0 < q * (1 - gains q r k n) := mul_pos hq (by linarith)
    refine le_of_mul_le_mul_left ?_ hroom
    linarith
  intro n
  induction n with
  | zero => simp [weight]
  | succ n ih =>
      rcases le_total (gains q r k n) (gains q r k (n + 1)) with hle | hle
      · exact hgrowing (n + 1) (nextGain_mono hq hr (hgain n).1.le hle)
      · exact gain_mul_weight_succ_le (isGain_gains hq hr h0 h1) hle ih

/-- Two gains come closer in one step, by more than the larger the next one is: the recursion is a
contraction, and relative errors shrink with it. -/
theorem abs_nextGain_sub_le (hq : 0 < q) (hr : 0 < r) {k k' : K} (hk : 0 ≤ k) (hk' : 0 ≤ k') :
    |nextGain q r k - nextGain q r k'| ≤ (1 - nextGain q r k) * |k - k'| := by
  have h1 := (nextGain_lt_one hq hr hk).le
  have h1' := nextGain_pos hq hr hk'
  have hle := (nextGain_lt_one hq hr hk').le
  have hdiff : nextGain q r k - nextGain q r k' =
      (1 - nextGain q r k) * (1 - nextGain q r k') * (k - k') := by
    have hpos : r * k + q + r ≠ 0 := by
      have := mul_nonneg hr.le hk
      linarith
    have hpos' : r * k' + q + r ≠ 0 := by
      have := mul_nonneg hr.le hk'
      linarith
    rw [one_sub_nextGain hq hr hk, one_sub_nextGain hq hr hk', nextGain, nextGain]
    field_simp
    ring
  rw [hdiff, abs_mul, abs_mul, abs_of_nonneg (sub_nonneg.mpr h1),
    abs_of_nonneg (sub_nonneg.mpr hle)]
  gcongr
  exact mul_le_of_le_one_right (sub_nonneg.mpr h1) (by linarith)

/-- **Gains that are off.** Gains that follow the recursion except for an error of at most the
part `γ` of each of them, from a first one within `γ`, stay within `γ`. -/
theorem abs_gains_sub_le (hq : 0 < q) (hr : 0 < r) {k γ : K} (h0 : 0 < k) (h1 : k < 1)
    {κ : ℕ → K} (hκ : ∀ n, 0 ≤ κ n) (hfirst : |κ 0 - k| ≤ γ)
    (hstep : ∀ n, |κ (n + 1) - nextGain q r (κ n)| ≤ γ * nextGain q r (κ n)) (n : ℕ) :
    |κ n - gains q r k n| ≤ γ := by
  induction n with
  | zero => exact hfirst
  | succ n ih =>
      have hle := (nextGain_lt_one hq hr (hκ n)).le
      calc
        |κ (n + 1) - gains q r k (n + 1)| ≤ |κ (n + 1) - nextGain q r (κ n)| +
            |nextGain q r (κ n) - nextGain q r (gains q r k n)| := abs_sub_le _ _ _
        _ ≤ γ * nextGain q r (κ n) + (1 - nextGain q r (κ n)) * γ := by
          refine add_le_add (hstep n) ((abs_nextGain_sub_le hq hr (hκ n)
            (gains_mem hq hr h0 h1 n).1.le).trans ?_)
          exact mul_le_mul_of_nonneg_left ih (sub_nonneg.mpr hle)
        _ = γ := by ring

end Order

end Relaxation
