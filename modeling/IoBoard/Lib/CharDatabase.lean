import IoBoard.Lib.Literal

/-!
# Text Beyond ASCII

What Python's `str` methods and `float` know of a character comes from the Unicode database of
the interpreter, which grows with every version. `CharDatabase` is any such database: it is
fixed on ASCII, and its decimal digits have the values of digits.

A program that is verified against every database is right in every version of the interpreter.
What it may rely on are the fields of the structure: which characters are white space,
alphanumeric and digits among those of ASCII, and that a decimal digit beyond ASCII has a value
below ten. White space is not only the blank: the separators U+001C to U+001F belong to it.

`float` first turns the decimal digits and the white space of a text into those of ASCII;
what is neither becomes a character that no number contains. After that it is the grammar of
ASCII literals, underscores, infinities and NaN included.

A test needs a database that computes; `latin1` is one, for texts without characters from U+0100
on, which are the same in every version.

## Main definitions

* `CharDatabase.strip`, `CharDatabase.toFloat`: `str.strip` and `float` on any text.
* `CharDatabase.isAlnumText`: `str.isalnum`.
* `CharDatabase.latin1`: the characters up to U+00FF, which are the same in every version.
-/

/-- The character database of an interpreter, as far as the methods below look into it. -/
structure CharDatabase where
  /-- `str.isspace` of a character. -/
  isSpace : Char → Bool
  /-- `str.isalnum` of a character. -/
  isAlnum : Char → Bool
  /-- `unicodedata.decimal`. -/
  decimal : Char → Option ℕ
  isSpace_ascii : ∀ c : Char, c.toNat < 128 →
    isSpace c = decide ((9 ≤ c.toNat ∧ c.toNat ≤ 13) ∨ (28 ≤ c.toNat ∧ c.toNat ≤ 32))
  isAlnum_ascii : ∀ c : Char, c.toNat < 128 → isAlnum c = c.isAlphanum
  decimal_ascii : ∀ c : Char, c.toNat < 128 →
    decimal c = if c.isDigit then some (Literal.digitValue c) else none
  decimal_lt : ∀ c n, decimal c = some n → n < 10

namespace CharDatabase

variable (u : CharDatabase)

/-- `str.strip()`, which takes away the white space at both ends. -/
def strip (s : List Char) : List Char :=
  ((s.dropWhile u.isSpace).reverse.dropWhile u.isSpace).reverse

/-- A character as `float` reads it. -/
def toAscii (c : Char) : Char :=
  if c.toNat < 128 then c
  else if u.isSpace c then ' '
  else match u.decimal c with
    | some n => Literal.digit n
    | none => '?'

/-- `float(text)`: `none` where it raises `ValueError`. -/
def toFloat (text : List Char) : Option PyFloat :=
  Literal.toFloat (text.map u.toAscii)

/-- `text.isalnum()`, which is false for the empty text. -/
def isAlnumText (text : List Char) : Bool :=
  !text.isEmpty && text.all u.isAlnum

/-- The empty text is no number. -/
@[simp] theorem toFloat_nil : u.toFloat [] = none := by
  rw [toFloat, List.map_nil]
  decide

/-- The database of a text without characters beyond U+00FF. -/
def latin1 : CharDatabase where
  isSpace c := (9 ≤ c.toNat ∧ c.toNat ≤ 13) ∨ (28 ≤ c.toNat ∧ c.toNat ≤ 32) ∨
    c.toNat = 133 ∨ c.toNat = 160
  isAlnum c := c.isAlphanum || decide (c.toNat ∈ [170, 178, 179, 181, 185, 186, 188, 189, 190] ∨
    (192 ≤ c.toNat ∧ c.toNat ≤ 255 ∧ c.toNat ≠ 215 ∧ c.toNat ≠ 247))
  decimal c := if c.isDigit then some (Literal.digitValue c) else none
  isSpace_ascii c hc := by
    rw [decide_eq_decide]
    omega
  isAlnum_ascii c hc := by
    rw [decide_eq_false, Bool.or_false]
    simp only [List.mem_cons, List.not_mem_nil, or_false]
    omega
  decimal_ascii _ _ := rfl
  decimal_lt c n h := by
    rw [Option.ite_none_right_eq_some, Option.some.injEq] at h
    obtain ⟨hdigit, rfl⟩ := h
    have h9 : c.toNat ≤ '9'.toNat := by
      rw [Char.isDigit, Bool.and_eq_true, decide_eq_true_eq, decide_eq_true_eq] at hdigit
      exact hdigit.2
    rw [Literal.digitValue]
    have : '9'.toNat = 57 ∧ '0'.toNat = 48 := by decide
    omega

end CharDatabase
