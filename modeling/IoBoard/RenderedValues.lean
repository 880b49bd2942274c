import IoBoard.Filters
import IoBoard.Sanitizer

/-!
# Rendered Values

What `_format_value` makes of a number in exact arithmetic, and what `_parse_value` makes of
that. The number is rounded to tenths first; below 1000 the tenths are kept, from 1000 on they
are cut off, and from 99999 on the text stays the same. The error and the order are those of the
rounded magnitude, mirrored at zero.

## How it is proved

Everything depends on one natural number, the tenths of the magnitude (`absTenths`): the text is a
reading of the device made from it, and what is read back is a function of it
(`renderedMagnitude`). Rounding to tenths is monotone, and so is that function, across the
change of the format at 1000 and beyond the largest value; the order of the numbers follows. The
error is that of the rounding, half a tenth, and from 1000 on that of the truncation as well.

The rounding is that of Python's `round(x, 1)` without the representation error of a float: to
the nearest tenth, ties to even. A number that rounds up to 1000 is already rendered without its
tenth. The sign is that of the number itself, so a small negative number is rendered as minus zero,
which is read back as zero.

## Main results

* `formatValue_eq`: a rendered number is a reading of the device.
* `renderedMagnitude_mono`: the magnitude that is read back grows with the number.
* `formatValue_roundTrip`: **six characters in a format of the device, the error of reading them
  back, and its monotonicity**.
-/

open Binary64
open PyNumber hiding abs max min

namespace IoBoard

/-! ### Readings, read exactly -/

namespace DeviceReading

/-- The number that a reading of the device stands for, with its sign. -/
def number (r : DeviceReading) : ℚ :=
  if r.negative then -r.magnitude else r.magnitude

/-- A reading has six characters. -/
@[simp] theorem length_text (r : DeviceReading) : r.text.length = 6 := by
  cases r with
  | integer => simp [text]
  | tenths => simp [text]

/-- **A reading is read back** as the number that it stands for. -/
@[simp] theorem parseValue_text (r : DeviceReading) :
    @parseValue ℚ exactText r.text = some r.number := by
  have herror : ¬ (r.text = "EEEEEE".toList ∨ r.text = "VVVVVV".toList) := by
    have := r.text_not_mem_errorValues
    rwa [errorValues, List.mem_pair] at this
  unfold parseValue
  rw [if_neg herror]
  cases r with
  | integer negative grams => exact Literal.exact_integer (w := 4) grams.2 negative
  | tenths negative grams tenth => exact Literal.exact_tenths (w := 2) grams.2 tenth negative

end DeviceReading

/-! ### The rendered reading -/

/-- The tenths of the magnitude of a number, rounded with ties to even. -/
def absTenths (x : ℚ) : ℕ :=
  (roundEven (10 * |x|)).natAbs

/-- The reading that a number is rendered as, by its tenths. -/
def renderTenths (negative : Bool) (t : ℕ) : DeviceReading :=
  if h : t < 10000 then
    .tenths negative ⟨t / 10, by omega⟩ ⟨t % 10, by omega⟩
  else .integer negative ⟨min (t / 10) 99999, by omega⟩

/-- The magnitude of that reading: the tenths, or the whole part, up to 99999. -/
def renderedMagnitude (t : ℕ) : ℚ :=
  if t < 10000 then t / 10 else (min (t / 10) 99999 : ℕ)

/-- The tenths are the rounded magnitude. -/
theorem cast_absTenths (x : ℚ) : (absTenths x : ℚ) = roundEven (10 * |x|) := by
  have h : 0 ≤ roundEven (10 * |x|) := le_roundEven (by simp)
  rw [absTenths, ← Int.cast_natCast, Int.natAbs_of_nonneg h]

theorem round1_abs (x : ℚ) : round1 |x| = (absTenths x : ℚ) / 10 := by
  rw [cast_absTenths]
  rfl

/-- The rounding error is at most half a tenth. -/
theorem abs_absTenths_sub_le (x : ℚ) : |(absTenths x : ℚ) / 10 - (|x|)| ≤ 1 / 20 := by
  have h := abs_le.mp (abs_roundEven_sub_le (10 * |x|))
  rw [← cast_absTenths] at h
  rw [abs_le]
  constructor <;> linarith [h.1, h.2]

theorem absTenths_mono {x y : ℚ} (h : |x| ≤ |y|) : absTenths x ≤ absTenths y := by
  have hle := roundEven_mono (x := 10 * |x|) (y := 10 * |y|) (by linarith)
  have hcast : (absTenths x : ℚ) ≤ absTenths y := by
    rw [cast_absTenths, cast_absTenths]
    exact_mod_cast hle
  exact_mod_cast hcast

@[simp] theorem negative_renderTenths (negative : Bool) (t : ℕ) :
    (renderTenths negative t).negative = negative := by
  rw [renderTenths]
  split_ifs <;> rfl

@[simp] theorem magnitude_renderTenths (negative : Bool) (t : ℕ) :
    (renderTenths negative t).magnitude = renderedMagnitude t := by
  rw [renderTenths, renderedMagnitude]
  split_ifs with h
  · have hsplit : (t : ℚ) = 10 * (t / 10 : ℕ) + (t % 10 : ℕ) := by
      exact_mod_cast (Nat.div_add_mod t 10).symm
    rw [DeviceReading.magnitude, hsplit]
    ring
  · rfl

/-- **A rendered number is a reading of the device**, made from its sign and its tenths. -/
theorem formatValue_eq (x : ℚ) :
    formatValue x = .ok (renderTenths (decide (x < 0)) (absTenths x)).text := by
  have hsign : (if leB (ofRat 0) x then '+' else '-') = Literal.signChar (decide (x < 0)) := by
    by_cases h : x < 0
    · rw [if_neg (by simpa using h), decide_eq_true h]
      rfl
    · rw [if_pos (by simpa using h), decide_eq_false h]
      rfl
  have habs : round1 (PyNumber.abs x) = (absTenths x : ℚ) / 10 := round1_abs x
  have htenths : tenths? ((absTenths x : ℚ) / 10) = some (absTenths x : ℤ) := by
    have hcancel : 10 * ((absTenths x : ℚ) / 10) = ((absTenths x : ℤ) : ℚ) := by
      rw [Int.cast_natCast]
      ring
    exact congrArg some ((congrArg roundEven hcancel).trans (roundEven_intCast _))
  have hint : int? ((absTenths x : ℚ) / 10) = some ((absTenths x / 10 : ℕ) : ℤ) := by
    have hfloor : ⌊(absTenths x : ℚ) / 10⌋ = ((absTenths x / 10 : ℕ) : ℤ) := by
      have := Rat.floor_intCast_div_natCast (absTenths x) 10
      push_cast at this
      exact_mod_cast this
    have hnonneg : 0 ≤ (absTenths x : ℚ) / 10 := by positivity
    exact congrArg some ((if_pos hnonneg).trans hfloor)
  have hlt : ltB ((absTenths x : ℚ) / 10) (ofRat 1000) = decide (absTenths x < 10000) := by
    rw [Bool.eq_iff_iff, ltB_rat, decide_eq_true_eq, ofRat_rat, div_lt_iff₀ (by norm_num)]
    norm_cast
  rw [formatValue, hsign, habs]
  dsimp only
  rw [htenths, hint, hlt, renderTenths]
  by_cases h : absTenths x < 10000
  · rw [dif_pos h, if_pos (decide_eq_true h)]
    simp [DeviceReading.text, Literal.decimal, Literal.digit]
  · rw [dif_neg h, if_neg (by simpa using h)]
    dsimp only
    rw [Int.natAbs_natCast]
    rfl

/-! ### Reading it back -/

/-- What `_parse_value` reads from the text of a number, if there is one. -/
def readBack (x : ℚ) : Option ℚ :=
  (formatValue x).toOption.bind (@parseValue ℚ exactText)

/-- The number that is read back: the rendered magnitude with the sign. -/
def rendered (x : ℚ) : ℚ :=
  if x < 0 then -renderedMagnitude (absTenths x) else renderedMagnitude (absTenths x)

theorem readBack_eq (x : ℚ) : readBack x = some (rendered x) := by
  rw [readBack, formatValue_eq, Except.toOption, Option.bind_some,
    DeviceReading.parseValue_text, DeviceReading.number, negative_renderTenths,
    magnitude_renderTenths, rendered]
  simp only [decide_eq_true_eq]

theorem renderedMagnitude_nonneg (t : ℕ) : 0 ≤ renderedMagnitude t := by
  rw [renderedMagnitude]
  split_ifs <;> positivity

/-- **The magnitude that is read back grows with the number**, across the change of the format
and beyond the largest value. -/
theorem renderedMagnitude_mono {s t : ℕ} (h : s ≤ t) :
    renderedMagnitude s ≤ renderedMagnitude t := by
  have hst : (s : ℚ) ≤ t := by exact_mod_cast h
  rw [renderedMagnitude, renderedMagnitude]
  split_ifs with hs ht ht
  · linarith
  · -- the last value with tenths is below the first one without
    have hs' : (s : ℚ) ≤ 9999 := by exact_mod_cast Nat.le_of_lt_succ hs
    have ht' : 1000 ≤ min (t / 10) 99999 := by omega
    calc
      (s : ℚ) / 10 ≤ 1000 := by linarith
      _ ≤ (min (t / 10) 99999 : ℕ) := by exact_mod_cast ht'
  · omega
  · exact_mod_cast min_le_min_right _ (Nat.div_le_div_right h)

/-- The order of the numbers is that of what is read back. -/
theorem rendered_mono {x y : ℚ} (h : x ≤ y) : rendered x ≤ rendered y := by
  have hx := renderedMagnitude_nonneg (absTenths x)
  have hy := renderedMagnitude_nonneg (absTenths y)
  rw [rendered, rendered]
  split_ifs with hx0 hy0 hy0
  · -- below zero the larger magnitude is the smaller number
    have habs : |y| ≤ |x| := by
      rw [abs_of_neg hx0, abs_of_neg hy0]
      exact neg_le_neg h
    exact neg_le_neg (renderedMagnitude_mono (absTenths_mono habs))
  · linarith
  · linarith
  · have habs : |x| ≤ |y| := abs_le_abs_of_nonneg (not_lt.mp hx0) h
    exact renderedMagnitude_mono (absTenths_mono habs)

/-- The error of the number is that of its magnitude, since the sign is kept. -/
theorem abs_rendered_sub (x : ℚ) :
    |rendered x - x| = |renderedMagnitude (absTenths x) - (|x|)| := by
  rw [rendered]
  split_ifs with h
  · rw [abs_of_neg h, ← abs_neg (_ - _)]
    congr 1
    ring
  · rw [abs_of_nonneg (not_lt.mp h)]

/-- Tenths are exact to half of their last digit. -/
theorem abs_rendered_sub_le_of_lt {x : ℚ} (h : round1 |x| < 1000) : |rendered x - x| ≤ 1 / 20 := by
  have ht : absTenths x < 10000 := by
    rw [round1_abs, div_lt_iff₀ (by norm_num)] at h
    exact_mod_cast h
  rw [abs_rendered_sub, renderedMagnitude, if_pos ht]
  exact abs_absTenths_sub_le x

/-- Without the tenths less than one more is lost, so one in all. -/
theorem abs_rendered_sub_le_of_le {x : ℚ} (h : 1000 ≤ round1 |x|) (h' : round1 |x| ≤ 99999) :
    |rendered x - x| ≤ 1 := by
  rw [round1_abs, le_div_iff₀ (by norm_num)] at h
  rw [round1_abs, div_le_iff₀ (by norm_num)] at h'
  have ht : ¬ absTenths x < 10000 := not_lt.mpr (by exact_mod_cast h)
  have hmin : min (absTenths x / 10) 99999 = absTenths x / 10 := by
    have : absTenths x ≤ 99999 * 10 := by exact_mod_cast h'
    omega
  rw [abs_rendered_sub, renderedMagnitude, if_neg ht, hmin]
  have hcut : (absTenths x : ℚ) = 10 * (absTenths x / 10 : ℕ) + (absTenths x % 10 : ℕ) := by
    exact_mod_cast (Nat.div_add_mod (absTenths x) 10).symm
  have hdigit : ((absTenths x % 10 : ℕ) : ℚ) ≤ 9 := by
    exact_mod_cast Nat.le_of_lt_succ (Nat.mod_lt (absTenths x) (by norm_num))
  have hnonneg : (0 : ℚ) ≤ (absTenths x % 10 : ℕ) := Nat.cast_nonneg _
  obtain ⟨hlo, hhi⟩ := abs_le.mp (abs_absTenths_sub_le x)
  rw [abs_le]
  constructor <;> linarith

/-- Beyond 99999 the text stays the same. -/
theorem renderTenths_of_lt {x : ℚ} (h : 99999 < round1 |x|) :
    renderTenths (decide (x < 0)) (absTenths x) = .integer (decide (x < 0)) 99999 := by
  rw [round1_abs, lt_div_iff₀ (by norm_num)] at h
  have ht : 99999 * 10 < absTenths x := by exact_mod_cast h
  rw [renderTenths, dif_neg (by omega)]
  congr 1
  exact Fin.ext (min_eq_right (by omega))

/-- **Rendering and reading back**, in exact arithmetic: six characters in one of the formats of
the device, an error of at most a twentieth below 1000 and of at most one up to 99999, the text
of 99999 from there on, and the order of the numbers. -/
theorem formatValue_roundTrip :
    (∀ x : ℚ, ∃ (reading : DeviceReading) (y : ℚ), formatValue x = .ok reading.text ∧
      reading.text.length = 6 ∧ readBack x = some y ∧
      (round1 |x| < 1000 → |y - x| ≤ 1 / 20) ∧
      (1000 ≤ round1 |x| → round1 |x| ≤ 99999 → |y - x| ≤ 1) ∧
      (99999 < round1 |x| → reading = .integer (decide (x < 0)) 99999)) ∧
    ∀ x x' y y' : ℚ, x ≤ x' → readBack x = some y → readBack x' = some y' → y ≤ y' := by
  refine ⟨fun x => ⟨_, _, formatValue_eq x, DeviceReading.length_text _, readBack_eq x,
    abs_rendered_sub_le_of_lt, abs_rendered_sub_le_of_le, renderTenths_of_lt⟩, ?_⟩
  intro x x' y y' h hy hy'
  rw [readBack_eq, Option.some.injEq] at hy hy'
  rw [← hy, ← hy']
  exact rendered_mono h

/-- A number that rounds up to 1000 loses its decimal. -/
example : (formatValue (99996 / 100 : ℚ)).toOption = some "+01000".toList := by
  decide +kernel

end IoBoard
