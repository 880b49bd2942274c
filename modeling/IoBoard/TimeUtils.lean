import IoBoard.Exceptions
import IoBoard.Lib.Calendar
import IoBoard.Lib.Literal

/-!
# Timestamps

`core/time_utils.py`: the ISO 8601 text of a Unix time, which every event of a stream and every
recording carries. A timestamp is a Python float, given by its value.

`datetime.fromtimestamp` splits the float at its decimal point, rounds the fraction to whole
microseconds and carries into the seconds. `isoformat` writes the microseconds only where there
are some, so the text has two lengths.

## Numbers

The value of a timestamp is a rational. The one place where a float operation rounds is the
product of the fraction with a million (`nearest`); the split itself is exact. So the microseconds
are those nearest to the timestamp up to that rounding, and the bound in the theorem has both parts.
Rounding keeps the order, although ties go to even: it is monotone within a second, and the seconds
do not overlap.

## The range

A text of a time has a year of four digits, so the theorems are about the years up to 9999;
beyond them `fromtimestamp` raises. The bound on timestamps is the last second of 9999, after
which the fraction could carry into the year 10000. The reader of the text is written for the proof
and accepts the two formats that `isoformat` writes, in UTC.

## Main results

* `fromIso8601_unixToIso8601`: **the text reads back** as the microseconds of the timestamp.
* `abs_microseconds_sub_le`: these are the nearest to the timestamp.
* `microseconds_mono`: rounding keeps the order of two timestamps.
-/

open Binary64 Calendar Literal

namespace IoBoard

/-! ### Rendering -/

/-- The whole seconds of a timestamp, by `modf`, which cuts towards zero. -/
def wholeSeconds (timestamp : ℚ) : ℤ :=
  if 0 ≤ timestamp then ⌊timestamp⌋ else ⌈timestamp⌉

/-- The microseconds of a timestamp: `modf`, and the fraction rounded half to even. -/
def microseconds (timestamp : ℚ) : ℤ :=
  wholeSeconds timestamp * 10 ^ 6 +
    roundEven (nearest ((timestamp - wholeSeconds timestamp) * 10 ^ 6))

/-- The microseconds of a day. There are no leap seconds. -/
def dayMicroseconds : ℕ := 86400 * 10 ^ 6

/-- A `datetime` in UTC: the date, and the microseconds of the day. -/
structure UtcTime where
  date : Date
  micros : ℕ
  micros_lt : micros < dayMicroseconds

/-- The time after a number of microseconds since the first of January of the year 1. -/
def UtcTime.ofTotal (total : ℕ) : UtcTime where
  date := .ofDayNumber (total / dayMicroseconds)
  micros := total % dayMicroseconds
  micros_lt := Nat.mod_lt _ (by decide)

/-- The microseconds since the first of January 1970, whose number is 719162. -/
def UtcTime.epoch (dt : UtcTime) : ℤ :=
  ((dt.date.dayNumber : ℤ) - 719162) * dayMicroseconds + dt.micros

/-- `datetime.fromtimestamp(timestamp, tz=timezone.utc)`, which raises beyond the year 9999 and
before the year 1. -/
def fromTimestamp (timestamp : ℚ) : Option UtcTime :=
  let total := microseconds timestamp + 719162 * dayMicroseconds
  if 0 ≤ total ∧ total < 3652059 * dayMicroseconds then
    some (.ofTotal total.toNat)
  else none

/-- `dt.isoformat()` with the suffix `Z` for `+00:00`. The microseconds are left out where they
are zero. -/
def UtcTime.isoformat (dt : UtcTime) : Str :=
  let second := dt.micros / 10 ^ 6
  let micro := dt.micros % 10 ^ 6
  decimal 4 dt.date.year ++ '-' :: (decimal 2 dt.date.month ++ '-' :: (decimal 2 dt.date.day ++
    'T' :: (decimal 2 (second / 3600) ++ ':' :: (decimal 2 (second / 60 % 60) ++
      ':' :: (decimal 2 (second % 60) ++
        if micro = 0 then ['Z'] else '.' :: (decimal 6 micro ++ ['Z']))))))

/-- `unix_to_iso8601(timestamp)`. -/
def unixToIso8601 (timestamp : ℚ) : Option Str :=
  (fromTimestamp timestamp).map UtcTime.isoformat

/-! ### Reading -/

/-- A number of `width` digits before `sep`, and the text behind that. -/
def readField (width : ℕ) (sep : Char) (s : Str) : Option (ℕ × Str) :=
  match digitPart s with
  | some (n, w, c :: rest) => if w = width ∧ c = sep then some (n, rest) else none
  | _ => none

/-- The second of a minute in microseconds, up to the suffix. -/
def readSecond (s : Str) : Option ℕ :=
  match readField 2 'Z' s with
  | some (second, []) => some (second * 10 ^ 6)
  | _ => do
      let second ← readField 2 '.' s
      let micro ← readField 6 'Z' second.2
      if micro.2 = [] then some (second.1 * 10 ^ 6 + micro.1) else none

/-- The microseconds since 1970 of an ISO 8601 text in UTC. A text in another format is refused. -/
def fromIso8601 (s : Str) : Option ℤ := do
  let year ← readField 4 '-' s
  let month ← readField 2 '-' year.2
  let day ← readField 2 'T' month.2
  let hour ← readField 2 ':' day.2
  let minute ← readField 2 ':' hour.2
  let micros ← readSecond minute.2
  let date ← Date.of? year.1 month.1 day.1
  return ((date.dayNumber : ℤ) - 719162) * dayMicroseconds +
    ((hour.1 * 60 + minute.1) * 60 * 10 ^ 6 + micros : ℕ)

/-! ### The round trip -/

/-- A rendered number reads back. -/
theorem readField_decimal {w k : ℕ} {sep : Char} (hk : k < 10 ^ (w + 1))
    (hsep : sep.isDigit = false) (hne : sep ≠ '_') (rest : Str) :
    readField (w + 1) sep (decimal (w + 1) k ++ sep :: rest) = some (k, rest) := by
  rw [readField, digitPart_decimal hk, digitTail_of_not_isDigit hsep hne]
  exact if_pos ⟨rfl, rfl⟩

/-- A number before another separator is none of the kind. -/
theorem readField_of_ne {w k : ℕ} {sep c : Char} (hk : k < 10 ^ (w + 1))
    (hc : c.isDigit = false) (hne : c ≠ '_') (hsep : c ≠ sep) (rest : Str) :
    readField (w + 1) sep (decimal (w + 1) k ++ c :: rest) = none := by
  rw [readField, digitPart_decimal hk, digitTail_of_not_isDigit hc hne]
  exact if_neg fun h => hsep h.2

/-- A second reads back, with microseconds or without. -/
theorem readSecond_decimal {second micro : ℕ} (hs : second < 60) (hm : micro < 10 ^ 6) :
    readSecond (decimal 2 second ++
      if micro = 0 then ['Z'] else '.' :: (decimal 6 micro ++ ['Z'])) =
        some (second * 10 ^ 6 + micro) := by
  split_ifs with hmicro
  · rw [readSecond, readField_decimal (by omega) rfl (by decide), hmicro, Nat.add_zero]
  · rw [readSecond, readField_of_ne (by omega) rfl (by decide) (by decide)]
    simp only
    rw [readField_decimal (by omega) rfl (by decide), Option.bind_eq_bind, Option.bind_some,
      readField_decimal (by omega) rfl (by decide), Option.bind_some, if_pos rfl]

/-- The text of a time up to the year 9999 reads back. -/
theorem fromIso8601_isoformat {dt : UtcTime} (hyear : dt.date.year ≤ 9999) :
    fromIso8601 dt.isoformat = some dt.epoch := by
  have hmonth := dt.date.month_le
  have hday := dt.date.day_le
  have hlt : dt.micros < 86400 * 10 ^ 6 := dt.micros_lt
  have htime : (dt.micros / 10 ^ 6 / 3600 * 60 + dt.micros / 10 ^ 6 / 60 % 60) * 60 * 10 ^ 6 +
      (dt.micros / 10 ^ 6 % 60 * 10 ^ 6 + dt.micros % 10 ^ 6) = dt.micros := by
    omega
  rw [fromIso8601, UtcTime.isoformat]
  simp only [Option.bind_eq_bind]
  rw [readField_decimal (by omega) rfl (by decide), Option.bind_some,
    readField_decimal (by omega) rfl (by decide), Option.bind_some,
    readField_decimal (by omega) rfl (by decide), Option.bind_some,
    readField_decimal (by omega) rfl (by decide), Option.bind_some,
    readField_decimal (by omega) rfl (by decide), Option.bind_some,
    readSecond_decimal (by omega) (Nat.mod_lt _ (by decide)), Option.bind_some,
    Date.of?_self, Option.bind_some, htime]
  rfl

/-- A time lies at the microseconds it was made of, counted from 1970. -/
theorem epoch_ofTotal (total : ℕ) :
    (UtcTime.ofTotal total).epoch = total - 719162 * dayMicroseconds := by
  have hdiv : ((dayMicroseconds * (total / dayMicroseconds) + total % dayMicroseconds : ℕ) : ℤ) =
      total := congrArg Nat.cast (Nat.div_add_mod total dayMicroseconds)
  rw [UtcTime.epoch, UtcTime.ofTotal, Date.dayNumber_ofDayNumber]
  dsimp only
  rw [Nat.cast_add, Nat.cast_mul] at hdiv
  rw [← hdiv]
  ring

/-- A rendered timestamp lies at its microseconds, before the year 10000. -/
theorem epoch_of_fromTimestamp {t : ℚ} {dt : UtcTime} (h : fromTimestamp t = some dt) :
    dt.epoch = microseconds t ∧ dt.date.year ≤ 9999 := by
  unfold fromTimestamp at h
  dsimp only at h
  split_ifs at h with hrange
  obtain rfl := Option.some.inj h
  obtain ⟨hlow, hhigh⟩ := hrange
  refine ⟨?_, Date.year_le ?_⟩
  · rw [epoch_ofTotal, Int.toNat_of_nonneg hlow]
    ring
  · rw [Nat.div_lt_iff_lt_mul (by decide)]
    zify
    rwa [Int.toNat_of_nonneg hlow]

/-! ### Accuracy -/

/-- The fraction is less than a second. -/
theorem abs_fraction_lt (t : ℚ) : |t - wholeSeconds t| < 1 := by
  unfold wholeSeconds
  split_ifs with ht
  · have hlow := Int.floor_le t
    have hhigh := Int.lt_floor_add_one t
    rw [abs_lt]
    constructor <;> linarith
  · have hlow := Int.le_ceil t
    have hhigh := Int.ceil_lt_add_one t
    rw [abs_lt]
    constructor <;> linarith

/-- **The microseconds are the nearest** to the timestamp, up to the rounding of the fraction. -/
theorem abs_microseconds_sub_le (t : ℚ) :
    |(microseconds t : ℚ) - t * 10 ^ 6| ≤ 1 / 2 + 1 / 2 ^ 34 := by
  have hfraction := abs_fraction_lt t
  rw [microseconds]
  generalize wholeSeconds t = whole at hfraction ⊢
  have hsmall : |(t - whole) * 10 ^ 6| < 2 ^ ((-33 : ℤ) + 53) := by
    rw [abs_mul]
    norm_num
    linarith
  have hnear := abs_nearest_sub_le (by norm_num) hsmall
  have hround := abs_roundEven_sub_le (nearest ((t - whole) * 10 ^ 6))
  norm_num at hnear
  push_cast
  rw [abs_le] at *
  constructor <;> linarith [hnear.1, hnear.2, hround.1, hround.2]

theorem wholeSeconds_neg (t : ℚ) : wholeSeconds (-t) = -wholeSeconds t := by
  unfold wholeSeconds
  rcases lt_trichotomy t 0 with ht | rfl | ht
  · rw [if_pos (by linarith), if_neg (by linarith), Int.floor_neg]
  · simp
  · rw [if_neg (by linarith), if_pos ht.le, Int.ceil_neg]

/-- Before 1970 the microseconds are those after it, counted back. -/
theorem microseconds_neg (t : ℚ) : microseconds (-t) = -microseconds t := by
  have hfraction : (-t - ((-wholeSeconds t : ℤ) : ℚ)) * 10 ^ 6 =
      -((t - wholeSeconds t) * 10 ^ 6) := by
    push_cast
    ring
  rw [microseconds, wholeSeconds_neg, hfraction, nearest_neg, roundEven_neg, microseconds]
  ring

/-- Whole seconds are not rounded, however large they are. -/
theorem microseconds_intCast (k : ℤ) : microseconds k = k * 10 ^ 6 := by
  have hwhole : wholeSeconds k = k := by
    unfold wholeSeconds
    split_ifs
    · exact Int.floor_intCast k
    · exact Int.ceil_intCast k
  have hround : roundEven 0 = 0 := by simpa using roundEven_intCast 0
  rw [microseconds, hwhole, sub_self, zero_mul, nearest_zero, hround, add_zero]

/-- The microseconds of a second lie within the second. -/
theorem microseconds_bounds {t : ℚ} (h : 0 ≤ t) :
    ⌊t⌋ * 10 ^ 6 ≤ microseconds t ∧ microseconds t ≤ (⌊t⌋ + 1) * 10 ^ 6 := by
  have hlow := Int.floor_le t
  have hhigh := Int.lt_floor_add_one t
  rw [microseconds, wholeSeconds, if_pos h]
  have hnonneg : 0 ≤ (t - ⌊t⌋) * 10 ^ 6 := mul_nonneg (by linarith) (by norm_num)
  have hle : (t - ⌊t⌋) * 10 ^ 6 ≤ ((10 ^ 6 : ℤ) : ℚ) := by
    push_cast
    linarith
  have hbelow : 0 ≤ roundEven (nearest ((t - ⌊t⌋) * 10 ^ 6)) :=
    le_roundEven (by simpa using nearest_nonneg hnonneg)
  have habove : roundEven (nearest ((t - ⌊t⌋) * 10 ^ 6)) ≤ 10 ^ 6 := by
    refine roundEven_le ?_
    calc
      nearest ((t - ⌊t⌋) * 10 ^ 6) ≤ nearest ((10 ^ 6 : ℤ) : ℚ) := nearest_mono hle
      _ = ((10 ^ 6 : ℤ) : ℚ) := nearest_intCast (by norm_num)
  constructor <;> linarith

/-- After 1970 the microseconds grow with the timestamp. -/
theorem microseconds_mono_of_nonneg {s t : ℚ} (hs : 0 ≤ s) (h : s ≤ t) :
    microseconds s ≤ microseconds t := by
  rcases (Int.floor_mono h).eq_or_lt with heq | hlt
  · rw [microseconds, microseconds, wholeSeconds, wholeSeconds, if_pos hs, if_pos (hs.trans h), heq]
    have hround := roundEven_mono (nearest_mono
      (mul_le_mul_of_nonneg_right (sub_le_sub_right h (⌊t⌋ : ℚ)) (by norm_num : (0 : ℚ) ≤ 10 ^ 6)))
    linarith
  · have hup := (microseconds_bounds hs).2
    have hdown := (microseconds_bounds (hs.trans h)).1
    linarith

/-- **Rounding keeps the order** of two timestamps. -/
theorem microseconds_mono {s t : ℚ} (h : s ≤ t) : microseconds s ≤ microseconds t := by
  rcases le_total 0 s with hs | hs
  · exact microseconds_mono_of_nonneg hs h
  rcases le_total 0 t with ht | ht
  · have hneg := microseconds_mono_of_nonneg le_rfl (neg_nonneg.mpr hs)
    have hpos := microseconds_mono_of_nonneg le_rfl ht
    have hzero : microseconds 0 = 0 := by simpa using microseconds_intCast 0
    rw [microseconds_neg, hzero] at hneg
    rw [hzero] at hpos
    linarith
  · have hneg := microseconds_mono_of_nonneg (neg_nonneg.mpr ht) (neg_le_neg h)
    rw [microseconds_neg, microseconds_neg] at hneg
    linarith

/-! ### The text of a timestamp -/

/-- **The text reads back** as the microseconds of the timestamp, with or without a fraction. -/
theorem fromIso8601_unixToIso8601 {t : ℚ} {text : Str} (h : unixToIso8601 t = some text) :
    fromIso8601 text = some (microseconds t) := by
  obtain ⟨dt, hdt, rfl⟩ := Option.map_eq_some_iff.mp h
  obtain ⟨hepoch, hyear⟩ := epoch_of_fromTimestamp hdt
  rw [fromIso8601_isoformat hyear, hepoch]

/-- The text has microseconds or none: 27 characters, or 20. -/
theorem length_isoformat (dt : UtcTime) :
    dt.isoformat.length = 20 ∨ dt.isoformat.length = 27 := by
  unfold UtcTime.isoformat
  dsimp only
  split_ifs
  · exact .inl (by simp)
  · exact .inr (by simp)

/-- Up to the last second of the year 9999 a timestamp is rendered. -/
theorem exists_unixToIso8601 {t : ℚ} (h0 : 0 ≤ t) (h : t ≤ 253402300799) :
    ∃ text, unixToIso8601 t = some text := by
  have hzero : microseconds 0 = 0 := by simpa using microseconds_intCast 0
  have hlast : microseconds 253402300799 = 253402300799 * 10 ^ 6 := by
    simpa using microseconds_intCast 253402300799
  have hlow := microseconds_mono h0
  have hhigh := microseconds_mono h
  rw [hzero] at hlow
  rw [hlast] at hhigh
  have hday : (dayMicroseconds : ℤ) = 86400 * 10 ^ 6 := rfl
  have hrange : 0 ≤ microseconds t + 719162 * dayMicroseconds ∧
      microseconds t + 719162 * dayMicroseconds < 3652059 * dayMicroseconds := by
    rw [hday]
    constructor <;> linarith
  have hsome : fromTimestamp t =
      some (.ofTotal (microseconds t + 719162 * dayMicroseconds).toNat) := if_pos hrange
  exact ⟨_, congrArg (Option.map UtcTime.isoformat) hsome⟩

/-- **The text of a timestamp** from 1970 to the year 9999: it is of one of two lengths, it reads
back as the nearest microsecond, and later timestamps read back as no earlier ones. -/
theorem timestamp_text {t : ℚ} (h0 : 0 ≤ t) (h : t ≤ 253402300799) :
    ∃ text, unixToIso8601 t = some text ∧ (text.length = 20 ∨ text.length = 27) ∧
      ∃ micros, fromIso8601 text = some micros ∧
        |(micros : ℚ) - t * 10 ^ 6| ≤ 1 / 2 + 1 / 2 ^ 34 ∧
        ∀ later text', t ≤ later → unixToIso8601 later = some text' →
          ∃ micros', fromIso8601 text' = some micros' ∧ micros ≤ micros' := by
  obtain ⟨text, htext⟩ := exists_unixToIso8601 h0 h
  obtain ⟨dt, -, rfl⟩ := Option.map_eq_some_iff.mp htext
  refine ⟨_, htext, length_isoformat dt, _, fromIso8601_unixToIso8601 htext,
    abs_microseconds_sub_le t, fun later text' hlater htext' => ?_⟩
  exact ⟨_, fromIso8601_unixToIso8601 htext', microseconds_mono hlater⟩

/-- A timestamp with a fraction, on a leap day. -/
theorem timestamp_text_leapDay :
    unixToIso8601 1709164800.25 = some "2024-02-29T00:00:00.250000Z".toList ∧
      ∃ micros, fromIso8601 "2024-02-29T00:00:00.250000Z".toList = some micros ∧
        |(micros : ℚ) - 1709164800.25 * 10 ^ 6| ≤ 1 / 2 + 1 / 2 ^ 34 := by
  have htext : unixToIso8601 1709164800.25 = some "2024-02-29T00:00:00.250000Z".toList := by
    decide +kernel
  obtain ⟨text, hsome, -, micros, hread, herror, -⟩ :=
    timestamp_text (t := 1709164800.25) (by norm_num) (by norm_num)
  obtain rfl := Option.some.inj (htext.symm.trans hsome)
  exact ⟨htext, micros, hread, herror⟩

end IoBoard
