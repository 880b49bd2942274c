import Mathlib.Algebra.Order.Floor.Ring
import Mathlib.Algebra.Order.Field.Basic
import Mathlib.Tactic.Linarith
import Mathlib.Tactic.FieldSimp
import Mathlib.Tactic.Ring

/-!
# Rounding with Hysteresis

An output is held while the input stays within a radius of it, and is replaced by the rounded
input when the input leaves. When the radius exceeds the rounding error by some slack, an
output that has just changed holds for every input within the slack of the one that changed
it, so an input that moves little changes the output at most once.

## The two halves

The first half is about any rounding function on an ordered group, given by its error bound:
`|y - round y| + slack ≤ radius`. Nothing is assumed of the values it takes. That a new output
is stable is then one triangle inequality: the new output is within the rounding error of the
input that changed it, and the next input is within the slack of that.

The second half is the rounding that quantizers use: to the multiples of a step, with ties
upwards, as `⌊x / s + 1 / 2⌋ * s`. It is characterised without the floor (`IsNearestUp`): the
result is a multiple, no multiple is nearer, and of two nearest ones it is the upper.

Inputs are sequences, not lists: "the output before the `t`-th input" is then a function of
`t`, and no result has to mention an end.

## Main results

* `abs_sub_output_le`: the output is within the radius of the input.
* `output_of_changes`: **a new output is the rounded input**.
* `Changes.stable`, `Changes.unique`: **an output does not flap**.
* `isNearestUp_halfUp`: `⌊x / s + 1 / 2⌋ * s` is the nearest multiple, the upper one on a tie.
-/

namespace Hysteresis

/-! ### Holding an output -/

section Hold

variable {G : Type*} [AddCommGroup G] [LinearOrder G]
variable (round : G → G) (radius : G)

/-- The output for an input, from the one that is held: that one if the input is within the radius
of it, the bounds included. -/
def hold (held : Option G) (x : G) : G :=
  match held.filter fun y => |x - y| ≤ radius with
  | some y => y
  | none => round x

/-- The output held before the `t`-th input. Before the first input there is none. -/
def held (x : ℕ → G) : ℕ → Option G
  | 0 => none
  | t + 1 => some (hold round radius (held x t) (x t))

/-- The output for the `t`-th input. -/
def output (x : ℕ → G) (t : ℕ) : G :=
  hold round radius (held round radius x t) (x t)

/-- The `t`-th input changes what is held. The first input always does. -/
def Changes (x : ℕ → G) (t : ℕ) : Prop :=
  held round radius x (t + 1) ≠ held round radius x t

variable {round radius} {x : ℕ → G} {t : ℕ}

theorem held_succ (x : ℕ → G) (t : ℕ) :
    held round radius x (t + 1) = some (output round radius x t) := rfl

/-- What is held is the output before. -/
theorem changes_succ : Changes round radius x (t + 1) ↔
    output round radius x (t + 1) ≠ output round radius x t := by
  rw [Changes, held_succ, held_succ, ne_eq, Option.some.injEq]

/-- An output is held, near the input, or the rounded input. -/
theorem hold_cases (round : G → G) (radius : G) (h : Option G) (y : G) :
    (∃ z, h = some z ∧ |y - z| ≤ radius ∧ hold round radius h y = z) ∨
      (∀ z, h = some z → radius < |y - z|) ∧ hold round radius h y = round y := by
  unfold hold
  cases hfilter : h.filter fun z => |y - z| ≤ radius with
  | some z =>
      obtain ⟨hz, hnear⟩ := Option.filter_eq_some_iff.mp hfilter
      exact .inl ⟨z, hz, of_decide_eq_true hnear, rfl⟩
  | none =>
      refine .inr ⟨fun z hz => ?_, rfl⟩
      subst hz
      simpa using hfilter

/-- The output is within the radius of the input. -/
theorem abs_sub_output_le (hround : ∀ y, |y - round y| ≤ radius) (x : ℕ → G) (t : ℕ) :
    |x t - output round radius x t| ≤ radius := by
  rcases hold_cases round radius (held round radius x t) (x t) with
    ⟨y, -, hnear, hy⟩ | ⟨-, hy⟩
  · rwa [output, hy]
  · rw [output, hy]
    exact hround _

/-- **A new output is the rounded input**, not the one that was held. -/
theorem output_of_changes (h : Changes round radius x t) :
    output round radius x t = round (x t) := by
  rcases hold_cases round radius (held round radius x t) (x t) with
    ⟨y, hheld, -, hy⟩ | ⟨-, hy⟩
  · rw [Changes, held_succ, output, hy, hheld] at h
    exact absurd rfl h
  · exact hy

/-- An output that is near the next input is held. -/
theorem not_changes (h : |x (t + 1) - output round radius x t| ≤ radius) :
    ¬ Changes round radius x (t + 1) := by
  rw [changes_succ, not_not]
  rcases hold_cases round radius (held round radius x (t + 1)) (x (t + 1)) with
    ⟨y, hheld, -, hy⟩ | ⟨hfar, -⟩
  · rw [held_succ, Option.some.injEq] at hheld
    rw [output, hy, hheld]
  · exact absurd h (not_le.mpr (hfar _ (held_succ x t)))

variable [IsOrderedAddMonoid G] {slack : G}

/-- **A new output is stable**: it holds as long as the inputs stay within the slack of the one that
changed it. -/
theorem Changes.stable (hround : ∀ y, |y - round y| + slack ≤ radius)
    (h : Changes round radius x t) {u : ℕ} (hnear : ∀ j, t < j → j ≤ u → |x j - x t| ≤ slack)
    {j : ℕ} (htj : t ≤ j) (hju : j ≤ u) :
    output round radius x j = output round radius x t ∧
      (t < j → ¬ Changes round radius x j) := by
  induction j, htj using Nat.le_induction with
  | base => exact ⟨rfl, fun hlt => absurd hlt (lt_irrefl t)⟩
  | succ j htj ih =>
      obtain ⟨hout, -⟩ := ih (Nat.le_of_succ_le hju)
      have hheld : |x (j + 1) - output round radius x j| ≤ radius := by
        rw [hout, output_of_changes h]
        calc
          |x (j + 1) - round (x t)| ≤ |x (j + 1) - x t| + |x t - round (x t)| :=
            abs_sub_le _ _ _
          _ ≤ slack + |x t - round (x t)| := by
            gcongr
            exact hnear _ (Nat.lt_succ_of_le htj) hju
          _ ≤ radius := by
            rw [add_comm]
            exact hround _
      have hkept := not_changes hheld
      rw [changes_succ, not_not] at hkept
      exact ⟨hkept.trans hout, fun _ => not_changes hheld⟩

/-- **Inputs in an interval as wide as the slack change the output at most once**, since all of them
are within the slack of each other. -/
theorem Changes.unique (hround : ∀ y, |y - round y| + slack ≤ radius) {m n : ℕ} {lo : G}
    (hin : ∀ j, m ≤ j → j < n → lo ≤ x j ∧ x j ≤ lo + slack) {a b : ℕ}
    (ha : Changes round radius x a) (hb : Changes round radius x b)
    (hma : m ≤ a) (han : a < n) (hmb : m ≤ b) (hbn : b < n) : a = b := by
  wlog hab : a < b generalizing a b
  · rcases (not_lt.mp hab).eq_or_lt with heq | hlt
    · exact heq.symm
    · exact (this hb ha hmb hbn hma han hlt).symm
  have hnear (j : ℕ) (haj : a < j) (hjb : j ≤ b) : |x j - x a| ≤ slack := by
    obtain ⟨hlo, hhi⟩ := hin a hma han
    obtain ⟨hlo', hhi'⟩ := hin j (hma.trans haj.le) (hjb.trans_lt hbn)
    refine abs_sub_le_iff.mpr ⟨?_, ?_⟩
    · exact sub_le_iff_le_add'.mpr (hhi'.trans (by gcongr))
    · exact sub_le_iff_le_add'.mpr (hhi.trans (by gcongr))
  exact absurd hb ((ha.stable hround hnear hab.le le_rfl).2 hab)

end Hold

/-! ### Rounding to a step -/

section Round

variable {K : Type*} [Field K] [LinearOrder K] [IsStrictOrderedRing K]

/-- `y` is the multiple of `s` nearest to `x`, the upper one on a tie. There is exactly one. -/
structure IsNearestUp (s x y : K) : Prop where
  multiple : ∃ n : ℤ, y = n * s
  nearest : ∀ n : ℤ, |x - y| ≤ |x - n * s|
  tie : ∀ n : ℤ, |x - n * s| = |x - y| → n * s ≤ y

variable [FloorRing K]

/-- The literal `2` of the next definition. -/
local instance atLeastTwo : Nat.AtLeastTwo 2 := ⟨le_rfl⟩

/-- `x` rounded half up to a multiple of `s`. -/
def halfUp (s x : K) : K :=
  ⌊x / s + 1 / 2⌋ * s

variable {s : K}

/-- A rounded number is at most half a step above, and less than half a step below. -/
theorem halfUp_bounds (hs : 0 < s) (x : K) :
    halfUp s x - s / 2 ≤ x ∧ x < halfUp s x + s / 2 := by
  have hlo := Int.floor_le (x / s + 1 / 2)
  have hhi := Int.lt_floor_add_one (x / s + 1 / 2)
  unfold halfUp
  generalize ⌊x / s + 1 / 2⌋ = n at hlo hhi
  have hx : x = x / s * s := by field_simp
  have hlo' := mul_le_mul_of_nonneg_right hlo hs.le
  have hhi' := mul_lt_mul_of_pos_right hhi hs
  rw [add_mul, ← hx] at hlo' hhi'
  constructor <;> linarith

theorem abs_sub_halfUp_le (hs : 0 < s) (x : K) : |x - halfUp s x| ≤ s / 2 := by
  obtain ⟨hlo, hhi⟩ := halfUp_bounds hs x
  exact abs_sub_le_iff.mpr ⟨by linarith, by linarith⟩

/-- Two multiples are a step apart. -/
theorem step_le_of_mul_lt (hs : 0 < s) {m n : ℤ} (h : (m : K) * s < n * s) :
    (m : K) * s + s ≤ n * s := by
  have hlt : m < n := by exact_mod_cast lt_of_mul_lt_mul_right h hs.le
  have hle : (m : K) + 1 ≤ n := by exact_mod_cast hlt
  calc
    (m : K) * s + s = (m + 1) * s := by ring
    _ ≤ n * s := by gcongr

/-- **The rounded number is the nearest multiple, the upper one on a tie.** -/
theorem isNearestUp_halfUp (hs : 0 < s) (x : K) : IsNearestUp s x (halfUp s x) := by
  obtain ⟨hlo, hhi⟩ := halfUp_bounds hs x
  have hself : halfUp s x = (⌊x / s + 1 / 2⌋ : K) * s := rfl
  -- a multiple below is a step below, and so more than half a step from `x`
  have hbelow (n : ℤ) (h : (n : K) * s < halfUp s x) : s / 2 ≤ x - n * s := by
    have := step_le_of_mul_lt hs (h.trans_eq hself)
    linarith
  have habove (n : ℤ) (h : halfUp s x < (n : K) * s) : s / 2 < n * s - x := by
    have := step_le_of_mul_lt hs (hself.symm.trans_lt h)
    linarith
  refine ⟨⟨_, rfl⟩, fun n => ?_, fun n htie => ?_⟩
  · rcases lt_trichotomy ((n : K) * s) (halfUp s x) with h | h | h
    · exact (abs_sub_halfUp_le hs x).trans ((hbelow n h).trans (le_abs_self _))
    · rw [h]
    · rw [abs_sub_comm x (n * s)]
      exact (abs_sub_halfUp_le hs x).trans ((habove n h).le.trans (le_abs_self _))
  · by_contra hlt
    have hgt := habove n (not_le.mp hlt)
    have hle := abs_sub_halfUp_le hs x
    rw [← htie, abs_sub_comm] at hle
    linarith [le_abs_self (n * s - x)]

end Round

end Hysteresis
