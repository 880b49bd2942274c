import IoBoard.Lib.Literal

/-!
# Number Types of a Program

The operations that a program uses on Python's `float`, as a class: a program written
against it runs on binary64 floats, and on rationals where a property is about exact
arithmetic. `max` and `min` are Python's, which keep their first argument on a tie and
where NaN compares with nothing.

## Three instances

* `PyFloat`: the arithmetic of the program.
* `ℚ`: no operation rounds. Texts are read as floats, so a reading has the value it has in
  the program, and only the computation on it is exact. The infinities and NaN are not read.
* `exactText`: no operation rounds, and neither does reading: a text is the number that it
  stands for. It is no instance, as it differs from the second one in reading only, and is
  named where it is used.

A property of the program that does not depend on rounding is proved once, over any number
type with the operations; one that does is proved for an instance, and the statement shows
for which.

## Main definitions

* `PyNumber`: the operations, without laws. A law that a proof needs is a hypothesis there.
* `round1`: `round(x, 1)`, by the number of tenths that Python rounds to.
-/

/-- The operations of Python's `float` on a type of numbers. -/
class PyNumber (F : Type*) where
  /-- A literal. -/
  ofRat : ℚ → F
  /-- `float(text)`: `none` where it raises `ValueError`. -/
  ofText : List Char → Option F
  add : F → F → F
  sub : F → F → F
  mul : F → F → F
  /-- `x / y` for a divisor other than zero. -/
  div : F → F → F
  abs : F → F
  ltB : F → F → Bool
  eqB : F → F → Bool
  /-- The number of tenths nearest to a finite number, ties to even. -/
  tenths? : F → Option ℤ
  /-- `int(x)`: `none` where it raises. -/
  int? : F → Option ℤ

namespace PyNumber

variable {F : Type*} [PyNumber F]

/-- `x <= y`. -/
def leB (x y : F) : Bool :=
  ltB x y || eqB x y

/-- `max(x, y)`: the first argument unless the second is above it. -/
def max (x y : F) : F :=
  if ltB x y then y else x

/-- `min(x, y)`: the first argument unless the second is below it. -/
def min (x y : F) : F :=
  if ltB y x then y else x

/-- `round(x, 1)`, which returns an infinity and NaN as they are. -/
def round1 (x : F) : F :=
  match tenths? x with
  | some k => ofRat (k / 10)
  | none => x

instance : PyNumber PyFloat where
  ofRat := PyFloat.ofRat
  ofText := Literal.toFloat
  add := PyFloat.add
  sub := PyFloat.sub
  mul := PyFloat.mul
  div := PyFloat.div
  abs := PyFloat.abs
  ltB := PyFloat.ltB
  eqB := PyFloat.eqB
  tenths?
    | .fin q => some (Binary64.roundEven (10 * q))
    | _ => none
  int? := PyFloat.int?

/-! ### Exact arithmetic -/

/-- The numbers without rounding: texts are read as floats, and the infinities and NaN among
them are not read at all. -/
instance : PyNumber ℚ where
  ofRat := id
  ofText text := match Literal.toFloat text with
    | some (.fin q) => some q
    | _ => none
  add := (· + ·)
  sub := (· - ·)
  mul := (· * ·)
  div := (· / ·)
  abs := (|·|)
  ltB x y := decide (x < y)
  eqB x y := decide (x = y)
  tenths? x := some (Binary64.roundEven (10 * x))
  int? x := some (if 0 ≤ x then ⌊x⌋ else -⌊-x⌋)

section Exact

variable (x y : ℚ)

@[simp] theorem ofRat_rat : ofRat x = x := rfl

@[simp] theorem add_rat : add x y = x + y := rfl

@[simp] theorem sub_rat : sub x y = x - y := rfl

@[simp] theorem mul_rat : mul x y = x * y := rfl

@[simp] theorem div_rat : div x y = x / y := rfl

@[simp] theorem abs_rat : abs x = |x| := rfl

@[simp] theorem ltB_rat : ltB x y = true ↔ x < y := decide_eq_true_iff

@[simp] theorem leB_rat : leB x y = true ↔ x ≤ y := by
  rw [leB, Bool.or_eq_true, ltB_rat, le_iff_lt_or_eq]
  exact or_congr_right decide_eq_true_iff

@[simp] theorem max_rat : PyNumber.max x y = Max.max x y := by
  rw [PyNumber.max]
  split_ifs with h
  · exact (max_eq_right ((ltB_rat x y).mp h).le).symm
  · exact (max_eq_left (not_lt.mp (mt (ltB_rat x y).mpr h))).symm

@[simp] theorem min_rat : PyNumber.min x y = Min.min x y := by
  rw [PyNumber.min]
  split_ifs with h
  · exact (min_eq_right ((ltB_rat y x).mp h).le).symm
  · exact (min_eq_left (not_lt.mp (mt (ltB_rat y x).mpr h))).symm

end Exact

/-- The numbers without any rounding: texts are read as the numbers that they stand for. -/
abbrev exactText : PyNumber ℚ :=
  { (inferInstance : PyNumber ℚ) with ofText := Literal.exact }

end PyNumber
