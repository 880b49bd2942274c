import IoBoard.Config
import IoBoard.Exceptions
import IoBoard.Lib.Literal

/-!
# The Health Check

The loadcell verdict of `get_health` in `api/v1/routers/machine.py`. Readings are ASCII, so
the `\d` of the pattern is the ten digits.

The verdict looks at the frame that `get_loadcells` returns, hence at what the sanitizer has
made of the device's readings. The pattern comes first: a text that does not match it is not
read as a number at all. An error marker does not match, and so a frame with one is
unhealthy.

An exception counts as unhealthy, whatever it is; a cancellation passes, since the clause is
`except Exception`. The verdicts on the door and on the deadbolt, and the whole answer, are in
`IoBoard.HealthHistory`.

## Main results

* `loadcellsStatus_healthy_iff`: which frames are healthy.
* `exists_of_unhealthy`: an unhealthy frame has a reading that is the reason.
-/

namespace IoBoard

/-- The two verdicts of `HealthResponse`, a string enumeration in the source. -/
inductive HealthStatus
  | healthy
  | unhealthy
  deriving DecidableEq, Repr

/-- `LOADCELL_PATTERN.fullmatch`: a sign and five digits, and nothing else around them. -/
def matchesLoadcellPattern : Str → Bool
  | sign :: digits => (sign = '+' || sign = '-') && digits.length = 5 && digits.all Char.isDigit
  | [] => false

/-- Whether a reading is within the configured range, the bounds included. A reading that matches
the pattern is an integer, so the second case does not occur behind it. -/
def inLoadcellRange (cfg : HealthModel) (x : Str) : Bool :=
  match Literal.toInt x with
  | some n => cfg.loadcellMinGrams ≤ n ∧ n ≤ cfg.loadcellMaxGrams
  | none => false

/-- The loadcell verdict on what `get_loadcells` returned or raised. Cancellation is not
caught. -/
def loadcellsStatus (cfg : HealthModel) : Except PyExc (List Str) → Except PyExc HealthStatus
  | .ok loadcells =>
      if loadcells.all matchesLoadcellPattern = false then .ok .unhealthy
      else if loadcells.all (inLoadcellRange cfg) = false then .ok .unhealthy
      else .ok .healthy
  | .error e => if e.isException then .ok .unhealthy else .error e

/-- A frame is healthy when all its readings match the pattern and are within the range. -/
theorem loadcellsStatus_healthy_iff {cfg : HealthModel} {loadcells : List Str} :
    loadcellsStatus cfg (.ok loadcells) = .ok .healthy ↔
      ∀ x ∈ loadcells, matchesLoadcellPattern x = true ∧ inLoadcellRange cfg x = true := by
  rw [loadcellsStatus]
  split_ifs with hpattern hrange
  · simp only [Except.ok.injEq, reduceCtorEq, false_iff]
    intro h
    rw [List.all_eq_true.mpr fun x hx => (h x hx).1] at hpattern
    cases hpattern
  · simp only [Except.ok.injEq, reduceCtorEq, false_iff]
    intro h
    rw [List.all_eq_true.mpr fun x hx => (h x hx).2] at hrange
    cases hrange
  · simp only [Bool.not_eq_false, List.all_eq_true] at hpattern hrange
    simp only [true_iff]
    exact fun x hx => ⟨hpattern x hx, hrange x hx⟩

/-- An unhealthy frame has a reading that does not match, or one that is out of range. -/
theorem exists_of_unhealthy {cfg : HealthModel} {loadcells : List Str}
    (h : loadcellsStatus cfg (.ok loadcells) = .ok .unhealthy) :
    ∃ x ∈ loadcells, matchesLoadcellPattern x = true → inLoadcellRange cfg x = false := by
  by_contra hnone
  have hall : ∀ x ∈ loadcells, matchesLoadcellPattern x = true ∧ inLoadcellRange cfg x = true := by
    intro x hx
    by_contra hbad
    refine hnone ⟨x, hx, fun hmatch => ?_⟩
    rw [← Bool.not_eq_true]
    exact fun hrange => hbad ⟨hmatch, hrange⟩
  rw [loadcellsStatus_healthy_iff.mpr hall] at h
  cases h

end IoBoard
