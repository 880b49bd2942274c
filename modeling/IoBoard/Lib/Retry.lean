import Mathlib.Algebra.Group.Basic
import Mathlib.Algebra.Group.Nat.Even
import Mathlib.Data.List.Induction
import Mathlib.Tactic.Common

/-!
# Retry Loops with Backoff

A loop that makes one attempt after the other until one succeeds or their number is exhausted.
After a failed attempt it sleeps, longer from attempt to attempt by a constant factor; after the
last one it does not sleep, but cleans up and raises the error of that attempt.

The outcomes of the attempts are a sequence given in advance, of which the loop sees as many as
it makes attempts. A `verdict` says which outcomes are successes.

## The effects

The loop is a function to its effects and its result: what it sends, how long it sleeps, and
whether it cleans up, in order. So a statement about the loop is an equation, and a program
that implements it has to show the same effects. Delays are elements of any monoid; that they
grow, or are positive, is not needed for any of the results.

The recursion is on the number of attempts that are left, and the number of the present one is
carried along for the sequence of outcomes. The two results are by induction on the attempts
left, one for each way in which the loop can end.

## Main definitions

* `loop`: the effects and the result, from some attempt on.
* `backoffs`: failed attempts with the sleeps after them, as a closed form.

## Main results

* `loop_of_success`: **a success within the attempts** is the result.
* `loop_of_failures`: **without one, the last outcome decides** about the error.
-/

namespace Retry

/-- What a retry loop does that can be observed from outside: an attempt, a pause, and the
cleaning up. -/
inductive Effect (K : Type*)
  | send
  | sleep (d : K)
  | close
  deriving DecidableEq

variable {K O R E : Type*} [Monoid K]

/-- The loop from its attempt `k` on, with `n` more attempts after it and the delay `d` before
the next one: its effects and its result. -/
def loop (verdict : O → Except E R) (factor : K) (outcome : ℕ → O) (k : ℕ) (d : K) :
    ℕ → List (Effect K) × Except E R
  | 0 =>
      match verdict (outcome k) with
      | .ok r => ([.send], .ok r)
      | .error e => ([.send, .close], .error e)
  | n + 1 =>
      match verdict (outcome k) with
      | .ok r => ([.send], .ok r)
      | .error _ =>
          let rest := loop verdict factor outcome (k + 1) (d * factor) n
          (.send :: .sleep d :: rest.1, rest.2)

/-- Failed attempts with the sleeps after them: `n` of them, with delays in a geometric sequence. -/
def backoffs (factor d : K) (n : ℕ) : List (Effect K) :=
  (List.range n).flatMap fun i => [.send, .sleep (d * factor ^ i)]

/-- The first failed attempt, and the others with a longer delay. -/
theorem backoffs_succ (factor d : K) (n : ℕ) :
    backoffs factor d (n + 1) = .send :: .sleep d :: backoffs factor (d * factor) n := by
  rw [backoffs, List.range_succ_eq_map, List.flatMap_cons, List.flatMap_map, pow_zero, mul_one,
    backoffs]
  simp only [Nat.succ_eq_add_one, pow_succ', mul_assoc]
  rfl

variable {verdict : O → Except E R} {factor d : K} {outcome : ℕ → O} {k n : ℕ}

theorem loop_of_ok {r : R} (h : verdict (outcome k) = .ok r) :
    loop verdict factor outcome k d n = ([.send], .ok r) := by
  cases n with
  | zero => rw [loop, h]
  | succ n => rw [loop, h]

theorem loop_zero_of_error {e : E} (h : verdict (outcome k) = .error e) :
    loop verdict factor outcome k d 0 = ([.send, .close], .error e) := by
  rw [loop, h]

theorem loop_succ_of_error {e : E} (h : verdict (outcome k) = .error e) :
    loop verdict factor outcome k d (n + 1) =
      (.send :: .sleep d :: (loop verdict factor outcome (k + 1) (d * factor) n).1,
        (loop verdict factor outcome (k + 1) (d * factor) n).2) := by
  rw [loop, h]

/-- Every loop begins with an attempt. -/
theorem exists_loop_eq_send (verdict : O → Except E R) (factor : K) (outcome : ℕ → O) (k : ℕ)
    (d : K) (n : ℕ) : ∃ rest, (loop verdict factor outcome k d n).1 = .send :: rest := by
  cases h : verdict (outcome k) with
  | ok r => exact ⟨[], by rw [loop_of_ok h]⟩
  | error e =>
      cases n with
      | zero => exact ⟨_, by rw [loop_zero_of_error h]⟩
      | succ n => exact ⟨_, by rw [loop_succ_of_error h]⟩

/-- **The first success within the attempts is the result**, after a transmission and a sleep
for each failure before it. -/
theorem loop_of_success {j : ℕ} {r : R} (hk : k ≤ j) (hj : j ≤ k + n)
    (hok : verdict (outcome j) = .ok r)
    (hfail : ∀ i, k ≤ i → i < j → ∃ e, verdict (outcome i) = .error e) :
    loop verdict factor outcome k d n = (backoffs factor d (j - k) ++ [.send], .ok r) := by
  induction n generalizing k d with
  | zero =>
      obtain rfl : k = j := by omega
      rw [loop_of_ok hok, Nat.sub_self]
      rfl
  | succ n ih =>
      rcases Nat.eq_or_lt_of_le hk with rfl | hlt
      · rw [loop_of_ok hok, Nat.sub_self]
        rfl
      · obtain ⟨e, he⟩ := hfail k le_rfl hlt
        have hrest := @ih (d * factor) (k + 1) hlt (by omega) fun i hi => hfail i (by omega)
        have hsub : j - k = j - (k + 1) + 1 := by omega
        rw [loop_succ_of_error he, hrest, hsub, backoffs_succ]
        rfl

/-- **Without a success the last outcome is the error**, and nothing is slept after it. The loop
cleans up. -/
theorem loop_of_failures {e : E} (hlast : verdict (outcome (k + n)) = .error e)
    (hfail : ∀ i, k ≤ i → i < k + n → ∃ e, verdict (outcome i) = .error e) :
    loop verdict factor outcome k d n = (backoffs factor d n ++ [.send, .close], .error e) := by
  induction n generalizing k d with
  | zero =>
      rw [loop_zero_of_error (k := k) hlast]
      rfl
  | succ n ih =>
      obtain ⟨e', he'⟩ := hfail k le_rfl (by omega)
      have hnext : k + 1 + n = k + (n + 1) := by omega
      have hrest := @ih (d * factor) (k + 1) (by rw [hnext, hlast]) fun i hi hlt =>
        hfail i (by omega) (by omega)
      rw [loop_succ_of_error he', hrest, backoffs_succ]
      rfl

end Retry
