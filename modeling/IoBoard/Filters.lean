import IoBoard.Exceptions
import IoBoard.Lib.PyNumber

/-!
# Loadcell Filters

`io_board/filters.py`: no filter, exponential smoothing and the one-dimensional Kalman
filter. A filter is initialized by its first numeric reading, so `_initialized` is whether
its previous value is there.

## Conventions

* The filters are written over any number type (`PyNumber`). The program runs them on
  `PyFloat`; what a filter is for is stated over the rationals, and `IoBoard.FloatFilters`
  bounds the difference.
* The three classes are one type, `LoadcellFilter`, for nothing dispatches on them but the
  methods that are modelled. The values kept by a filter are optional: `none` is the state
  before the first reading.
* A filter updates its state before it renders the value, and rendering raises on an
  infinity and on NaN: `filter` returns the new state beside the exception.
* The value that `filter` returns beside the text is the unrounded one. The detector
  compares these values, and only the text is rounded to a tenth.

The last part is for proofs about a constant reading: `after` and `values` are the filter and
its results while one value is fed again and again, and `Steady` names classes of filters and
readings for which nothing raises on the way.

## Main results

* `LoadcellFilter.filter_of_parseValue_eq_none`: an error reading passes through and leaves
  the filter as it was.
* `LoadcellFilter.reset_filter`: **resetting forgets** every reading.
-/

namespace IoBoard

open PyNumber

/-- `FilterMethod`, the three values of the query parameter. -/
inductive FilterMethod
  | none
  | exponential
  | kalman
  deriving DecidableEq, Repr

/-- `FilterMethod.value`. -/
def FilterMethod.value : FilterMethod → String
  | .none => "none"
  | .exponential => "exponential"
  | .kalman => "kalman"

/-- `ThresholdScope`: whether thresholds are on raw or on filtered values. -/
inductive ThresholdScope
  | raw
  | filtered
  deriving DecidableEq, Repr

/-- `ThresholdScope.value`. -/
def ThresholdScope.value : ThresholdScope → String
  | .raw => "raw"
  | .filtered => "filtered"

section Values

variable {F : Type*} [PyNumber F]

/-- `_parse_value`: the error markers are no numbers, and neither is what `float` refuses. -/
def parseValue (value : Str) : Option F :=
  if value = "EEEEEE".toList ∨ value = "VVVVVV".toList then none else ofText value

/-- `_format_value`: one decimal below 1000, five digits from there on. The comparison is with the
value that has been rounded to a tenth, so 999.96 has no decimal. Rendering an infinity or NaN
raises. -/
def formatValue (numeric : F) : Except PyExc Str :=
  let sign := if leB (ofRat 0) numeric then '+' else '-'
  let absVal := round1 (abs numeric)
  if ltB absVal (ofRat 1000) then
    let tenths := ((tenths? absVal).getD 0).natAbs
    .ok (sign :: Literal.decimal 3 (tenths / 10) ++ '.' :: Literal.decimal 1 tenths)
  else
    match int? absVal with
    | some n => .ok (sign :: Literal.decimal 5 (min n.natAbs 99999))
    | none => .error (if eqB absVal absVal then .overflowError else .valueError)

end Values

/-! ### The filters -/

/-- `ExponentialSmoothingFilter`: the smoothing factor and the last value. -/
structure ExponentialSmoothingFilter (F : Type*) where
  alpha : F
  previous : Option F := none

/-- `KalmanFilter`: the noise covariances, the estimate and its covariance. Before the first
reading there is no estimate, and the covariance is one. -/
structure KalmanFilter (F : Type*) where
  q : F
  r : F
  x : Option F := none
  p : F

/-- `LoadcellFilter`: one of the three. The classes of the source have a common interface of two
methods. -/
inductive LoadcellFilter (F : Type*)
  | noFilter
  | exponential (f : ExponentialSmoothingFilter F)
  | kalman (f : KalmanFilter F)

variable {F : Type*} [PyNumber F]

/-- `ExponentialSmoothingFilter.__init__`: the factor is clamped to the unit interval. -/
def ExponentialSmoothingFilter.new (alpha : F) : ExponentialSmoothingFilter F where
  alpha := PyNumber.max (ofRat 0) (PyNumber.min (ofRat 1) alpha)

/-- The value that the filter makes of a numeric reading: the first reading as it is, and then the
mean of the reading and the last value. -/
def ExponentialSmoothingFilter.next (f : ExponentialSmoothingFilter F) (numeric : F) : F :=
  match f.previous with
  | none => numeric
  | some previous =>
      add (mul f.alpha numeric) (mul (sub (ofRat 1) f.alpha) previous)

/-- `KalmanFilter.__init__`: the covariances are at least a ten-thousandth, so that the gain has a
positive denominator. -/
def KalmanFilter.new (q r : F) : KalmanFilter F where
  q := PyNumber.max (ofRat (1 / 10000)) q
  r := PyNumber.max (ofRat (1 / 10000)) r
  p := ofRat 1

/-- The Kalman filter after a numeric reading: prediction, gain and update, in the order of the
source. The first reading is the estimate. -/
def KalmanFilter.next (f : KalmanFilter F) (numeric : F) : KalmanFilter F :=
  match f.x with
  | none => { f with x := some numeric, p := ofRat 1 }
  | some x =>
      let pPredicted := add f.p f.q
      let k := div pPredicted (add pPredicted f.r)
      { f with
        x := some (add x (mul k (sub numeric x)))
        p := mul (sub (ofRat 1) k) pPredicted }

/-- `create_filter`, which passes each constructor the parameters that it takes. -/
def createFilter (method : FilterMethod) (alpha q r : F) : LoadcellFilter F :=
  match method with
  | .none => .noFilter
  | .exponential => .exponential (.new alpha)
  | .kalman => .kalman (.new q r)

namespace LoadcellFilter

/-- A numeric reading: the filter after it, and the filtered value. -/
def next (f : LoadcellFilter F) (numeric : F) : LoadcellFilter F × F :=
  match f with
  | noFilter => (noFilter, numeric)
  | exponential f => (exponential { f with previous := some (f.next numeric) }, f.next numeric)
  | kalman f => (kalman (f.next numeric), ((f.next numeric).x).getD numeric)

/-- `filter`: the filter after a reading, and the text and the value it returns. Without a
filter the text is the reading's own. -/
def filter (f : LoadcellFilter F) (value : Str) :
    LoadcellFilter F × Except PyExc (Str × Option F) :=
  match parseValue value with
  | none => (f, .ok (value, none))
  | some numeric =>
      match f with
      | noFilter => (noFilter, .ok (value, some numeric))
      | f =>
          let filtered := (f.next numeric).2
          ((f.next numeric).1, (formatValue filtered).map fun text => (text, some filtered))

/-- `reset`: the parameters stay, and the next reading initializes the filter. -/
def reset : LoadcellFilter F → LoadcellFilter F
  | noFilter => noFilter
  | exponential f => exponential { f with previous := none }
  | kalman f => kalman { f with x := none, p := ofRat 1 }

/-! ### Numeric readings -/

/-- The last value of the filter, where it keeps one, is `x`. Without a filter there is nothing to
keep. -/
def Holds (x : F) : LoadcellFilter F → Prop
  | noFilter => True
  | exponential f => f.previous = some x
  | kalman f => f.x = some x

/-- A filter keeps the value that it returns. -/
theorem holds_next (f : LoadcellFilter F) (b : F) : (f.next b).1.Holds (f.next b).2 := by
  cases f with
  | noFilter => trivial
  | exponential f => rfl
  | kalman f =>
      obtain ⟨q, r, x, p⟩ := f
      cases x <;> rfl

/-- A numeric reading whose filtered value can be rendered. -/
theorem exists_filter_of_formatValue (f : LoadcellFilter F) {raw : Str} {b : F}
    (hb : parseValue raw = some b) (hformat : ∃ text, formatValue (f.next b).2 = .ok text) :
    ∃ text, f.filter raw = ((f.next b).1, .ok (text, some (f.next b).2)) := by
  obtain ⟨text, htext⟩ := hformat
  rw [filter, hb]
  cases f with
  | noFilter => exact ⟨raw, rfl⟩
  | exponential f | kalman f =>
      refine ⟨text, ?_⟩
      dsimp only
      rw [htext]
      rfl

/-- The filter after `n` readings of `b`. -/
def after (f : LoadcellFilter F) (b : F) : ℕ → LoadcellFilter F
  | 0 => f
  | n + 1 => ((f.after b n).next b).1

/-- The filtered values from `a` on, while the reading is `b`; the first is what was held before. -/
def values (f : LoadcellFilter F) (a b : F) : ℕ → F
  | 0 => a
  | n + 1 => ((f.after b n).next b).2

/-- The filter keeps the values on its way. -/
theorem holds_values {f : LoadcellFilter F} {a : F} (h : f.Holds a) (b : F) (n : ℕ) :
    (f.after b n).Holds (f.values a b n) := by
  cases n with
  | zero => exact h
  | succ n => exact (f.after b n).holds_next b

/-- Readings leave the smoothing factor as it is. -/
theorem exists_after_exponential (f : ExponentialSmoothingFilter F) (b : F) (n : ℕ) :
    ∃ previous, (exponential f).after b n = exponential { f with previous } := by
  induction n with
  | zero => exact ⟨f.previous, rfl⟩
  | succ n ih =>
      obtain ⟨previous, ih⟩ := ih
      exact ⟨_, by rw [after, ih, next]⟩

/-- Filters that readings neither make raise nor lead to others: each of `readings` can be filtered
and rendered by each of `filters`, and leaves one of them. -/
structure Steady (filters : LoadcellFilter F → Prop) (readings : F → Prop) : Prop where
  format : ∀ f b, filters f → readings b → ∃ text, formatValue (f.next b).2 = .ok text
  next : ∀ f b, filters f → readings b → filters (f.next b).1
  reset : ∀ f, filters f → filters f.reset

/-! ### Error readings and resets -/

/-- An error reading passes through and leaves the filter as it was. -/
theorem filter_of_parseValue_eq_none {value : Str} (h : (parseValue value : Option F) = none)
    (f : LoadcellFilter F) : f.filter value = (f, .ok (value, none)) := by
  rw [filter, h]

@[simp] theorem reset_reset (f : LoadcellFilter F) : f.reset.reset = f.reset := by
  cases f <;> rfl

@[simp] theorem reset_next (f : LoadcellFilter F) (numeric : F) :
    (f.next numeric).1.reset = f.reset := by
  cases f with
  | noFilter => rfl
  | exponential f => rfl
  | kalman f =>
      obtain ⟨q, r, x, p⟩ := f
      cases x <;> rfl

/-- **Resetting forgets** every reading: what a filter does after a reset does not depend on what it
did before. -/
@[simp] theorem reset_filter (f : LoadcellFilter F) (value : Str) :
    (f.filter value).1.reset = f.reset := by
  rw [filter]
  split
  · rfl
  · split
    · rfl
    · exact reset_next f _

/-- A filter starts as a reset leaves it. -/
@[simp] theorem reset_createFilter (method : FilterMethod) (alpha q r : F) :
    (createFilter method alpha q r).reset = createFilter method alpha q r := by
  cases method <;> rfl

end LoadcellFilter

end IoBoard
