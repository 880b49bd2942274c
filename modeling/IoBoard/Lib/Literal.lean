import IoBoard.Lib.PyFloat

/-!
# Number Literals

`float(text)` and `int(text)` of Python on ASCII text: surrounding white space, a sign,
digits with single underscores between them, a decimal point, an exponent, and the names of
the infinities and of NaN. `decimal` is the other direction, the zero-padded digits of a
number.

## Exact reading first

A literal stands for a rational number, exactly; `float` then rounds it, once. So the reader
is split: `exact` computes the number that a text stands for, `toFloat` rounds it, and
`toFloat_of_exact` says that there is nothing more to it. A result about a device's readings
is proved in exact arithmetic and rounded at the end.

The sign is put on after the rounding. A text with a minus and the value zero is therefore
the negative zero, which exact arithmetic does not know.

## Rendering

`decimal w n` are the last `w` digits of `n`. It is total: a number with more digits loses
the leading ones, and a caller that cares bounds the number by `10 ^ w`. Under this bound
reading undoes rendering (`digitTail_decimal`), whatever follows.

## Main results

* `digitTail_decimal`: **reading undoes rendering**, digit by digit.
* `exact_integer`, `exact_tenths`: the value of a sign with digits, and of a sign with digits,
  a point and one more digit.
* `toFloat_of_exact`: **`float` rounds the number that the text stands for**.
* `toFloat_integer`, `toFloat_tenths`, `toInt_integer`: both together.
-/

namespace Literal

/-! ### Reading -/

/-- The white space that `float` and `int` skip in ASCII text. Other characters count as white
space outside ASCII. -/
def isSpace (c : Char) : Bool :=
  (9 ≤ c.toNat ∧ c.toNat ≤ 13) ∨ c.toNat = 32

/-- A text without the white space around it. -/
def strip (s : List Char) : List Char :=
  ((s.dropWhile isSpace).reverse.dropWhile isSpace).reverse

/-- An optional sign: whether it is a minus, and the rest. -/
def takeSign : List Char → Bool × List Char
  | '-' :: s => (true, s)
  | '+' :: s => (false, s)
  | s => (false, s)

/-- The value of a digit. -/
def digitValue (c : Char) : ℕ := c.toNat - '0'.toNat

/-- The digits that continue a number with the value `v` of `n` digits: the value, the number of
digits and the rest. An underscore may stand between two digits, and is read only together with
the digit behind it. -/
def digitTail (v n : ℕ) : List Char → ℕ × ℕ × List Char
  | [] => (v, n, [])
  | '_' :: c :: s =>
      if c.isDigit then digitTail (10 * v + digitValue c) (n + 1) s else (v, n, '_' :: c :: s)
  | c :: s => if c.isDigit then digitTail (10 * v + digitValue c) (n + 1) s else (v, n, c :: s)

/-- One or more digits. Without a first digit there is no number. -/
def digitPart : List Char → Option (ℕ × ℕ × List Char)
  | c :: s => if c.isDigit then some (digitTail (digitValue c) 1 s) else none
  | [] => none

/-- Digits with an optional point and fraction, or a point and a fraction. A point alone is no
number. -/
def mantissa (s : List Char) : Option (ℚ × List Char) :=
  match digitPart s with
  | some (v, _, '.' :: rest) =>
      match digitPart rest with
      | some (f, k, rest') => some (v + f / 10 ^ k, rest')
      | none => some (v, rest)
  | some (v, _, rest) => some (v, rest)
  | none =>
      match s with
      | '.' :: rest => (digitPart rest).map fun (f, k, rest') => (f / 10 ^ k, rest')
      | _ => none

/-- A finite number without its sign: a mantissa and possibly an exponent, and nothing behind it. -/
def magnitude (s : List Char) : Option ℚ :=
  match mantissa s with
  | some (q, []) => some q
  | some (q, c :: rest) =>
      if c.toLower = 'e' then
        match takeSign rest with
        | (negative, ds) =>
            match digitPart ds with
            | some (k, _, []) => some (if negative then q / 10 ^ k else q * 10 ^ k)
            | _ => none
      else none
  | none => none

/-- `float(text)`: `none` where it raises `ValueError`. The names of the infinities and of NaN are
read in any case, and with a sign. -/
def toFloat (text : List Char) : Option PyFloat :=
  match takeSign (strip text) with
  | (negative, s) =>
      let lower := s.map Char.toLower
      let x :=
        if lower = "inf".toList ∨ lower = "infinity".toList then some (.inf false)
        else if lower = "nan".toList then some .nan
        else (magnitude s).map PyFloat.ofRat
      x.map fun x => if negative then x.neg else x

/-- The number that a text stands for before it is rounded: `none` also for the names of the
infinities and of NaN. -/
def exact (text : List Char) : Option ℚ :=
  match takeSign (strip text) with
  | (negative, s) => (magnitude s).map fun q => if negative then -q else q

/-- `int(text)`: `none` where it raises `ValueError`. There is no point and no exponent. -/
def toInt (text : List Char) : Option ℤ :=
  match takeSign (strip text) with
  | (negative, s) =>
      match digitPart s with
      | some (n, _, []) => some (if negative then -n else n)
      | _ => none

/-! ### Rendering -/

/-- A decimal digit: that of the remainder modulo ten. -/
def digit (n : ℕ) : Char := Char.ofNat ('0'.toNat + n % 10)

/-- The last `w` decimal digits of `n`, with leading zeros. -/
def decimal : ℕ → ℕ → List Char
  | 0, _ => []
  | w + 1, n => decimal w (n / 10) ++ [digit n]

@[simp] theorem length_decimal (w n : ℕ) : (decimal w n).length = w := by
  induction w generalizing n with
  | zero => rfl
  | succ w ih => rw [decimal, List.length_append, ih, List.length_singleton]

/-- There are ten digits. -/
theorem exists_digit (n : ℕ) : ∃ d : Fin 10, digit n = digit d ∧ n % 10 = d :=
  ⟨⟨n % 10, Nat.mod_lt _ (by norm_num)⟩, by simp [digit], rfl⟩

@[simp] theorem isDigit_digit (n : ℕ) : (digit n).isDigit = true := by
  obtain ⟨d, hd, -⟩ := exists_digit n
  rw [hd]
  clear hd
  decide +revert

@[simp] theorem digitValue_digit (n : ℕ) : digitValue (digit n) = n % 10 := by
  obtain ⟨d, hd, hn⟩ := exists_digit n
  rw [hd, hn]
  clear hd hn
  decide +revert

/-- A rendered number is made of digits. -/
theorem isDigit_of_mem_decimal {w n : ℕ} {c : Char} (h : c ∈ decimal w n) : c.isDigit = true := by
  induction w generalizing n with
  | zero => cases h
  | succ w ih =>
      rcases List.mem_append.mp h with h | h
      · exact ih h
      · rw [List.mem_singleton.mp h, isDigit_digit]

theorem digit_ne_of_not_isDigit {c : Char} (h : c.isDigit = false) (n : ℕ) : digit n ≠ c := by
  rintro rfl
  rw [isDigit_digit] at h
  cases h

/-- A digit is read. -/
theorem digitTail_digit (v n k : ℕ) (rest : List Char) :
    digitTail v n (digit k :: rest) = digitTail (10 * v + k % 10) (n + 1) rest := by
  have hne : digit k ≠ '_' := digit_ne_of_not_isDigit (by decide) k
  rw [digitTail.eq_3 _ _ _ _ fun _ _ h _ => hne h, if_pos (isDigit_digit k), digitValue_digit]

/-- Anything else ends the digits. -/
theorem digitTail_of_not_isDigit {c : Char} (hc : c.isDigit = false) (hne : c ≠ '_') (v n : ℕ)
    (rest : List Char) : digitTail v n (c :: rest) = (v, n, c :: rest) := by
  rw [digitTail.eq_3 _ _ _ _ fun _ _ h _ => hne h, hc, if_neg Bool.false_ne_true]

/-- **Reading undoes rendering.** The digits are read as the number they were rendered from, behind
any digits before them, and the reader stops where they end. -/
theorem digitTail_decimal {w k : ℕ} (hk : k < 10 ^ w) (v n : ℕ) (rest : List Char) :
    digitTail v n (decimal w k ++ rest) = digitTail (v * 10 ^ w + k) (n + w) rest := by
  induction w generalizing k rest with
  | zero =>
      obtain rfl : k = 0 := by omega
      simp [decimal]
  | succ w ih =>
      have hdiv : k / 10 < 10 ^ w := by
        rw [Nat.div_lt_iff_lt_mul (by norm_num)]
        rwa [pow_succ] at hk
      rw [decimal, List.append_assoc, List.singleton_append, ih hdiv, digitTail_digit]
      congr 1
      have := Nat.div_add_mod k 10
      rw [pow_succ]
      linarith

/-- A rendered number starts with a digit. -/
theorem exists_decimal_eq_cons (w k : ℕ) : ∃ d s, decimal (w + 1) k = digit d :: s := by
  induction w generalizing k with
  | zero => exact ⟨k, [], rfl⟩
  | succ w ih =>
      obtain ⟨d, s, h⟩ := ih (k / 10)
      exact ⟨d, s ++ [digit k], by rw [decimal, h, List.cons_append]⟩

/-- A rendered number is a digit part. -/
theorem digitPart_decimal {w k : ℕ} (hk : k < 10 ^ (w + 1)) (rest : List Char) :
    digitPart (decimal (w + 1) k ++ rest) = some (digitTail k (w + 1) rest) := by
  obtain ⟨d, s, h⟩ := exists_decimal_eq_cons w k
  have htail := digitTail_decimal hk 0 0 rest
  rw [h, List.cons_append, digitTail_digit] at htail
  rw [h, List.cons_append, digitPart, if_pos (isDigit_digit d), digitValue_digit]
  simpa using htail

/-! ### Signed numbers -/

/-- The character of a sign. -/
def signChar (negative : Bool) : Char := if negative then '-' else '+'

@[simp] theorem takeSign_signChar (negative : Bool) (s : List Char) :
    takeSign (signChar negative :: s) = (negative, s) := by
  cases negative <;> rfl

/-- Nothing is stripped from a text that starts and ends with something else than space. -/
theorem strip_eq_self {a b : Char} {s : List Char} (ha : isSpace a = false)
    (hb : isSpace b = false) : strip (a :: (s ++ [b])) = a :: (s ++ [b]) := by
  have hrev : (a :: (s ++ [b])).reverse = b :: (s.reverse ++ [a]) := by simp
  rw [strip, List.dropWhile_cons_of_neg (by simp [ha]), hrev,
    List.dropWhile_cons_of_neg (by simp [hb]), ← hrev, List.reverse_reverse]

theorem isSpace_digit (n : ℕ) : isSpace (digit n) = false := by
  obtain ⟨d, hd, -⟩ := exists_digit n
  rw [hd]
  clear hd
  decide +revert

theorem isSpace_signChar (negative : Bool) : isSpace (signChar negative) = false := by
  cases negative <;> decide

/-- Digits are lower case. -/
theorem toLower_of_isDigit {c : Char} (h : c.isDigit = true) : c.toLower = c := by
  have h9 : c.val ≤ '9'.val := by
    rw [Char.isDigit, Bool.and_eq_true, decide_eq_true_eq, decide_eq_true_eq] at h
    exact h.2
  refine dif_neg ?_
  rintro ⟨hA, -⟩
  exact absurd (UInt32.le_trans hA h9) (by decide)

/-- A number starts with a digit or a point. -/
theorem exists_cons_of_magnitude {s : List Char} {q : ℚ} (h : magnitude s = some q) :
    ∃ c t, s = c :: t ∧ (c.isDigit = true ∨ c = '.') := by
  cases s with
  | nil => cases h
  | cons c t =>
      refine ⟨c, t, rfl, ?_⟩
      by_contra hnot
      obtain ⟨hdigit, hpoint⟩ := not_or.mp hnot
      have hpart : digitPart (c :: t) = none := by
        rw [digitPart, if_neg hdigit]
      have hmantissa : mantissa (c :: t) = none := by
        rw [mantissa, hpart]
        simp [hpoint]
      rw [magnitude, hmantissa] at h
      cases h

/-- A number is not the name of an infinity or of NaN. -/
theorem not_name_of_magnitude {s : List Char} {q : ℚ} (h : magnitude s = some q) :
    ¬ (s.map Char.toLower = "inf".toList ∨ s.map Char.toLower = "infinity".toList) ∧
      s.map Char.toLower ≠ "nan".toList := by
  obtain ⟨c, t, rfl, hc⟩ := exists_cons_of_magnitude h
  have hlower : c.toLower ≠ 'i' ∧ c.toLower ≠ 'n' := by
    rcases hc with hc | rfl
    · rw [toLower_of_isDigit hc]
      constructor <;> (rintro rfl; cases hc)
    · decide
  simp [hlower.1, hlower.2]

/-- **`float` rounds the number that the text stands for.** The names are no such texts, and the
negative zero is the one case in which the sign is not part of the number. -/
theorem toFloat_of_exact {text : List Char} {q : ℚ} (h : exact text = some q) :
    toFloat text = some (PyFloat.ofRat q) := by
  unfold exact at h
  unfold toFloat
  generalize takeSign (strip text) = parts at *
  obtain ⟨negative, s⟩ := parts
  dsimp only at h ⊢
  obtain ⟨m, hm, rfl⟩ := Option.map_eq_some_iff.mp h
  obtain ⟨hinf, hnan⟩ := not_name_of_magnitude hm
  rw [if_neg hinf, if_neg hnan, hm, Option.map_some, Option.map_some]
  cases negative with
  | false => rfl
  | true => exact congrArg some (PyFloat.neg_ofRat m)

/-- A signed number whose text ends in a digit is its magnitude with the sign: there is no white
space to strip at either end. -/
theorem exact_signed {w k : ℕ} {s : List Char} {d : ℕ} {q : ℚ} (negative : Bool)
    (hs : ∃ t, decimal (w + 1) k ++ s = t ++ [digit d])
    (hq : magnitude (decimal (w + 1) k ++ s) = some q) :
    exact (signChar negative :: (decimal (w + 1) k ++ s)) =
      some (if negative then -q else q) := by
  obtain ⟨t, ht⟩ := hs
  have hstrip : strip (signChar negative :: (decimal (w + 1) k ++ s)) =
      signChar negative :: (decimal (w + 1) k ++ s) := by
    rw [ht, strip_eq_self (isSpace_signChar negative) (isSpace_digit d)]
  rw [exact, hstrip, takeSign_signChar]
  simp only [hq, Option.map_some]

/-- A sign with `w + 1` digits. -/
theorem exact_integer {w k : ℕ} (hk : k < 10 ^ (w + 1)) (negative : Bool) :
    exact (signChar negative :: decimal (w + 1) k) =
      some (if negative then -(k : ℚ) else k) := by
  have hq : magnitude (decimal (w + 1) k ++ []) = some (k : ℚ) := by
    unfold magnitude mantissa
    rw [digitPart_decimal hk]
    rfl
  have := exact_signed negative ⟨decimal w (k / 10), by rw [List.append_nil, decimal]⟩ hq
  rwa [List.append_nil] at this

/-- A sign with `w + 1` digits, a point and one more digit. -/
theorem exact_tenths {w k : ℕ} (hk : k < 10 ^ (w + 1)) (t : Fin 10) (negative : Bool) :
    exact (signChar negative :: (decimal (w + 1) k ++ ['.', digit t])) =
      some (if negative then -((k : ℚ) + t / 10) else k + t / 10) := by
  have hfrac : digitPart [digit t] = some ((t : ℕ), 1, []) := by
    rw [digitPart, if_pos (isDigit_digit _), digitValue_digit, Nat.mod_eq_of_lt t.2]
    rfl
  have hq : magnitude (decimal (w + 1) k ++ ['.', digit t]) = some ((k : ℚ) + (t : ℕ) / 10) := by
    unfold magnitude mantissa
    rw [digitPart_decimal hk, digitTail_of_not_isDigit (by decide) (by decide)]
    simp only [hfrac, pow_one]
  exact exact_signed (d := t) negative ⟨decimal (w + 1) k ++ ['.'], by simp⟩ hq

/-- Rounding the number of a signed text rounds its magnitude. -/
theorem ofRat_signed (negative : Bool) (q : ℚ) :
    PyFloat.ofRat (if negative then -q else q) =
      if negative then (PyFloat.ofRat q).neg else PyFloat.ofRat q := by
  cases negative with
  | false => rfl
  | true => exact (PyFloat.neg_ofRat q).symm

/-- The float of a sign with `w + 1` digits. -/
theorem toFloat_integer {w k : ℕ} (hk : k < 10 ^ (w + 1)) (negative : Bool) :
    toFloat (signChar negative :: decimal (w + 1) k) =
      some (if negative then (PyFloat.ofRat k).neg else PyFloat.ofRat k) := by
  rw [toFloat_of_exact (exact_integer hk negative), ofRat_signed]

/-- The float of a sign with `w + 1` digits, a point and one more digit. -/
theorem toFloat_tenths {w k : ℕ} (hk : k < 10 ^ (w + 1)) (t : Fin 10) (negative : Bool) :
    toFloat (signChar negative :: (decimal (w + 1) k ++ ['.', digit t])) =
      some (if negative then (PyFloat.ofRat (k + t / 10)).neg else PyFloat.ofRat (k + t / 10)) := by
  rw [toFloat_of_exact (exact_tenths hk t negative), ofRat_signed]

/-- A sign with digits, as an integer. -/
theorem toInt_integer {w k : ℕ} (hk : k < 10 ^ (w + 1)) (negative : Bool) :
    toInt (signChar negative :: decimal (w + 1) k) = some (if negative then -(k : ℤ) else k) := by
  have hstrip : strip (signChar negative :: decimal (w + 1) k) =
      signChar negative :: decimal (w + 1) k := by
    rw [decimal, strip_eq_self (isSpace_signChar negative) (isSpace_digit k)]
  have hpart := digitPart_decimal hk []
  rw [List.append_nil] at hpart
  rw [toInt, hstrip, takeSign_signChar]
  simp only [hpart]
  rfl

end Literal
