import IoBoard.Quantizer
import IoBoard.SignGuard

/-!
# Repaired Readings

What `sanitize` returns for the readings of the device when it only repairs signs, with the
quantizer and the median filter off. A reading that is left alone keeps its text. One that is
repaired is rendered anew from its value, and the rendering has no decimal place.

## What is lost

The renderer truncates: `int(abs(value))` is the integer part. A reading in tenths that is
repaired loses its tenth, and one whose tenth is zero loses only the point. Which readings are
repaired is decided by the guard, on the reading and on the state before it
(`ChannelState.Repairs`), and this is the condition of the result.

Magnitudes are compared as the numbers that the texts stand for, by the same `parse` on both
sides. What is no number before is no number after.

## Main results

* `format_fin`: a rendered value loses its tenths.
* `DeviceReading.isWhole_iff`: the value of a reading is an integer just when its text says so.
* `keepsMagnitudes_iff`: **magnitudes are preserved exactly when no reading with a decimal
  digit other than zero is repaired**.
-/

open PyFloat

namespace IoBoard

variable {cfg : SanitizeModel} {st : ChannelState}

/-! ### Rendering -/

/-- A finite value is rendered as the integer reading of its truncated magnitude. -/
theorem format_fin {d : {q : ℚ // IsDouble q}} (hd : |(d : ℚ)| ≤ 99999) : ∃ grams : Fin 100000,
    ((grams : ℕ) : ℤ) = ⌊|(d : ℚ)|⌋ ∧
      format (fin d) = .ok (DeviceReading.integer (decide ((d : ℚ) < 0)) grams).text := by
  have hnonneg : 0 ≤ ⌊|(d : ℚ)|⌋ := Int.floor_nonneg.mpr (abs_nonneg _)
  have hle : ⌊|(d : ℚ)|⌋ ≤ 99999 := Int.floor_le_iff.mpr (by push_cast; linarith)
  obtain ⟨n, hn⟩ := Int.eq_ofNat_of_zero_le hnonneg
  have hlt : n < 100000 := by omega
  have hint : ∃ m : ℤ, int? (fin d) = some m ∧ m.natAbs = n := by
    rcases le_or_gt 0 (d : ℚ) with hpos | hneg
    · rw [abs_of_nonneg hpos] at hn
      exact ⟨n, by rw [int?, if_pos hpos, hn], Int.natAbs_natCast n⟩
    · rw [abs_of_neg hneg] at hn
      exact ⟨-n, by rw [int?, if_neg (not_le.mpr hneg), hn], by simp⟩
  obtain ⟨m, hm, habs⟩ := hint
  have hsign : (if leB 0 (fin d) = true then '+' else '-') =
      Literal.signChar (decide ((d : ℚ) < 0)) := by
    rw [zero_eq, leB_fin]
    by_cases hneg : (d : ℚ) < 0
    · simp [Literal.signChar, hneg]
    · simp [Literal.signChar, hneg, not_lt.mp hneg]
  refine ⟨⟨n, hlt⟩, hn.symm, ?_⟩
  unfold IoBoard.format
  rw [hm, hsign]
  dsimp only [DeviceReading.text]
  rw [habs, min_eq_left (by omega)]

/-- The reading has no decimal digit, or a zero there. It is a condition on the text: the value is
an integer exactly then (`isWhole_iff`). -/
def DeviceReading.IsWhole : DeviceReading → Prop
  | integer .. => True
  | tenths _ _ tenth => tenth = 0

/-- The magnitude of the value is the rounded magnitude of the reading. -/
theorem DeviceReading.abs_value {r : DeviceReading} {d : {q : ℚ // IsDouble q}}
    (hd : r.value = fin d) : |(d : ℚ)| = Binary64.nearest r.magnitude := by
  obtain ⟨d', hd', hnearest, -⟩ := r.exists_value_eq_fin
  obtain rfl : d = d' := fin.inj (hd.symm.trans hd')
  have hmag : 0 ≤ r.magnitude := by
    cases r <;> unfold magnitude <;> positivity
  have hnonneg := Binary64.nearest_nonneg hmag
  rw [hnearest]
  cases r.negative <;> simp [abs_of_nonneg hnonneg]

/-- The value of a reading is an integer exactly when the reading is whole: rounding does not
reach an integer from a tenth. -/
theorem DeviceReading.isWhole_iff {r : DeviceReading} {d : {q : ℚ // IsDouble q}}
    (hd : r.value = fin d) : r.IsWhole ↔ (⌊|(d : ℚ)|⌋ : ℚ) = |(d : ℚ)| := by
  rw [r.abs_value hd]
  cases r with
  | integer negative grams =>
      have hround : Binary64.nearest ((grams : ℕ) : ℤ) = ((grams : ℕ) : ℤ) :=
        Binary64.nearest_intCast (by rw [abs_lt]; omega)
      rw [Int.cast_natCast] at hround
      rw [magnitude, hround, Int.floor_natCast, Int.cast_natCast]
      exact ⟨fun _ => rfl, fun _ => trivial⟩
  | tenths negative grams tenth =>
      rw [IsWhole, magnitude]
      have hten := tenth.2
      constructor
      · rintro rfl
        have hround : Binary64.nearest ((grams : ℕ) : ℤ) = ((grams : ℕ) : ℤ) :=
          Binary64.nearest_intCast (by rw [abs_lt]; omega)
        rw [Int.cast_natCast] at hround
        rw [Fin.val_zero, Nat.cast_zero, zero_div, add_zero, hround, Int.floor_natCast,
          Int.cast_natCast]
      · intro hint
        by_contra hne
        have htenth : 1 ≤ (tenth : ℕ) := Nat.one_le_iff_ne_zero.mpr fun h => hne (Fin.ext h)
        have hten' : (tenth : ℕ) ≤ 9 := by omega
        have hlo : (1 : ℚ) ≤ (tenth : ℕ) := by exact_mod_cast htenth
        have hhi : ((tenth : ℕ) : ℚ) ≤ 9 := by exact_mod_cast hten'
        have hsixteenth (m : ℕ) (hm : m < 16) : Binary64.nearest (((grams : ℕ) : ℚ) + m / 16) =
            (grams : ℕ) + m / 16 := by
          refine Binary64.nearest_eq_self (m := 16 * grams + m) (e := -4) ?_ ?_ (by norm_num)
          · push_cast
            ring
          · rw [abs_lt]
            omega
        have hlow := Binary64.nearest_mono
          (show ((grams : ℕ) : ℚ) + (1 : ℕ) / 16 ≤ (grams : ℕ) + (tenth : ℕ) / 10 by
            push_cast
            linarith)
        have hhigh := Binary64.nearest_mono
          (show ((grams : ℕ) : ℚ) + (tenth : ℕ) / 10 ≤ (grams : ℕ) + (15 : ℕ) / 16 by
            push_cast
            linarith)
        rw [hsixteenth _ (by norm_num), ← hint] at hlow hhigh
        generalize ⌊Binary64.nearest (((grams : ℕ) : ℚ) + (tenth : ℕ) / 10)⌋ = m at hlow hhigh
        have hm1 : ((grams : ℕ) : ℚ) < m := by
          push_cast at hlow
          linarith
        have hm2 : (m : ℚ) < (grams : ℕ) + 1 := by
          push_cast at hhigh
          linarith
        have hm1' : ((grams : ℕ) : ℤ) < m := by exact_mod_cast hm1
        have hm2' : m < (grams : ℕ) + 1 := by exact_mod_cast hm2
        omega

/-! ### One reading -/

/-- The guard repairs the reading `r` of a channel: it finds a flip, and the streak has room. -/
def ChannelState.Repairs (cfg : SanitizeModel) (st : ChannelState) (r : DeviceReading)
    (ts : PyFloat) : Prop :=
  st.isFlip cfg r.value ts = true ∧ st.flipStreak + 1 < cfg.relatchFrames

/-- Rendering a reading with the other sign keeps its magnitude exactly when it is whole. -/
theorem DeviceReading.exists_format_neg (r : DeviceReading) : ∃ o y,
    format r.value.neg = .ok o ∧ parse o = some y ∧ (y.abs = r.value.abs ↔ r.IsWhole) := by
  obtain ⟨d, hd, -, hle⟩ := r.exists_value_eq_fin
  obtain ⟨grams, hgrams, hformat⟩ := format_fin (d := ⟨-d, d.2.neg⟩) (by simpa using hle)
  obtain ⟨e, he, -, -⟩ := (integer (decide (-(d : ℚ) < 0)) grams).exists_value_eq_fin
  have hround : Binary64.nearest ((grams : ℕ) : ℤ) = ((grams : ℕ) : ℤ) :=
    Binary64.nearest_intCast (by rw [abs_lt]; omega)
  have habs : |(e : ℚ)| = ⌊|(d : ℚ)|⌋ := by
    rw [abs_value he, magnitude, ← Int.cast_natCast, hround, hgrams]
    simp
  refine ⟨_, _, by rw [hd, neg_fin, hformat], parse_text _, ?_⟩
  rw [isWhole_iff hd, ← habs, he, hd, PyFloat.abs, PyFloat.abs, fin.injEq, Subtype.mk.injEq]

/-- Without the median filter and the quantizer only the guard is left: a reading is kept as it is,
or its negative is rendered. -/
theorem sanitizeEntry_of_guardOnly (hmedian : cfg.medianFilter = false)
    (hquantize : cfg.quantizeGrams = 0) (st : ChannelState) (r : DeviceReading) (ts : PyFloat) :
    sanitizeEntry cfg st r.text ts = ((st.correct cfg r.value ts).2,
      if (st.guard cfg r.value ts).1.eqB r.value then .ok r.text
      else format (st.guard cfg r.value ts).1) := by
  have hquantized (st' : ChannelState) (x : PyFloat) : st'.quantize cfg x = .ok (x, st') := by
    rw [ChannelState.quantize, hquantize, if_pos (by decide +kernel)]
  rw [sanitizeEntry, r.parse_text]
  dsimp only
  rw [(st.correct_of_medianOff hmedian r.value ts).1, hquantized]

/-- The magnitude of what goes out for a reading is that of the reading, unless tenths are lost
in a repair. -/
theorem exists_sanitizeEntry_magnitude (hmedian : cfg.medianFilter = false)
    (hquantize : cfg.quantizeGrams = 0) (st : ChannelState) (r : DeviceReading) (ts : PyFloat) :
    ∃ o y, sanitizeEntry cfg st r.text ts = ((st.correct cfg r.value ts).2, .ok o) ∧
      parse o = some y ∧ (y.abs = r.value.abs ↔ (st.Repairs cfg r ts → r.IsWhole)) := by
  obtain ⟨d, hd, -, -⟩ := r.exists_value_eq_fin
  rw [sanitizeEntry_of_guardOnly hmedian hquantize]
  by_cases hrepair : st.Repairs cfg r ts
  · rw [ChannelState.guard_of_isFlip hrepair.1 hrepair.2]
    dsimp only
    by_cases heq : r.value.neg.eqB r.value = true
    · -- the value is a zero, of either sign
      rw [if_pos heq]
      refine ⟨_, _, rfl, r.parse_text, iff_of_true rfl fun _ => ?_⟩
      rw [hd, neg_fin, eqB_fin, decide_eq_true_eq] at heq
      have hzero : (d : ℚ) = 0 := by linarith
      rw [DeviceReading.isWhole_iff hd, hzero]
      simp
    · obtain ⟨o, y, hformat, hparse, hiff⟩ := r.exists_format_neg
      rw [if_neg heq, hformat]
      exact ⟨o, y, rfl, hparse, hiff.trans ⟨fun h _ => h, fun h => h hrepair⟩⟩
  · have hguard : (st.guard cfg r.value ts).1 = r.value := by
      rw [ChannelState.guard]
      split_ifs with hflip hstreak
      · exact absurd ⟨hflip, hstreak⟩ hrepair
      · rfl
      · rfl
    rw [hguard, if_pos (by rw [hd, eqB_fin, decide_eq_true_eq])]
    exact ⟨_, _, rfl, r.parse_text, iff_of_true rfl fun h => absurd h hrepair⟩

/-! ### A frame -/

/-- The frame comes out entry by entry, every entry with the magnitude it went in with: a reading
as a number of the same magnitude, and what is no number, as an error marker is none, as a text
that is none either. -/
def KeepsMagnitudes (s : LoadcellSanitizer) (entries : List DeviceEntry) (now : PyFloat) : Prop :=
  ∃ s' out, s.sanitize (entries.map DeviceEntry.text) now = (s', .ok out) ∧
    out.length = entries.length ∧
    ∀ (j : ℕ) (e : DeviceEntry), entries[j]? = some e → ∃ o, out[j]? = some o ∧
      (parse o).map PyFloat.abs = (parse e.text).map PyFloat.abs

/-- **Sign repair.** With the quantizer and the median filter off, after any frames, the
magnitudes of a frame of the device are preserved exactly when every reading of it that is
repaired has no decimal digit, or a zero there. -/
theorem keepsMagnitudes_iff (config : SanitizeModel) (hmedian : config.medianFilter = false)
    (hquantize : config.quantizeGrams = 0) (n : ℕ) (frames : List Frame)
    (entries : List DeviceEntry) (now : PyFloat) :
    KeepsMagnitudes ((LoadcellSanitizer.new config n).run frames) entries now ↔
      ∀ (j : ℕ) (r : DeviceReading) (st : ChannelState), entries[j]? = some (.reading r) →
        ((LoadcellSanitizer.new config n).run frames).channels[j]? = some st →
        st.Repairs config r now → r.IsWhole := by
  have hconfig : ((LoadcellSanitizer.new config n).run frames).config = config :=
    LoadcellSanitizer.run_config ..
  generalize (LoadcellSanitizer.new config n).run frames = s at *
  have hmarker (e : DeviceEntry) (st : ChannelState) (h : e.text ∈ errorValues) :
      sanitizeEntry config st e.text now = (st, .ok e.text) := by
    rw [sanitizeEntry, parse, if_pos h]
  have hentry : ∀ st : ChannelState, True → ∀ raw ∈ entries.map DeviceEntry.text,
      ∃ st' o, sanitizeEntry config st raw now = (st', .ok o) ∧ True := by
    intro st _ raw hraw
    obtain ⟨e, -, rfl⟩ := List.mem_map.mp hraw
    obtain ⟨r, rfl⟩ | hmark := e.reading_or_marker
    · obtain ⟨o, y, hentry, -⟩ := exists_sanitizeEntry_magnitude hmedian hquantize st r now
      exact ⟨_, o, hentry, trivial⟩
    · exact ⟨_, _, hmarker e st hmark, trivial⟩
  obtain ⟨sts', out, hrun, -, hlen, hget⟩ :=
    sanitizeEntries_rule (fun _ => True) (fun st (_ : st ∈ s.channels) => trivial) hentry
  have hsanitize : s.sanitize (entries.map DeviceEntry.text) now =
      ({ s with channels := sts' }, .ok out) := by
    rw [LoadcellSanitizer.sanitize, hconfig, hrun]
  have hmap (j : ℕ) (e : DeviceEntry) (he : entries[j]? = some e) :
      (entries.map DeviceEntry.text)[j]? = some e.text := by
    rw [List.getElem?_map, he, Option.map_some]
  constructor
  · rintro ⟨s', out', heq, -, hkeeps⟩ j r st hr hst
    obtain ⟨-, hout⟩ := Prod.mk.inj (hsanitize.symm.trans heq)
    obtain rfl := Except.ok.inj hout
    obtain ⟨o, ho, habs⟩ := hkeeps j _ hr
    obtain ⟨st', o', hentry, -, ho'⟩ := (hget j _ (hmap j _ hr)).1 st hst
    obtain ⟨o'', y, hentry', hy, hiff⟩ :=
      exists_sanitizeEntry_magnitude hmedian hquantize st r now
    obtain ⟨-, heq'⟩ := Prod.mk.inj (hentry.symm.trans hentry')
    obtain rfl := Except.ok.inj heq'
    obtain rfl := Option.some.inj (ho.symm.trans ho')
    rw [hy, DeviceEntry.text_reading, r.parse_text, Option.map_some, Option.map_some] at habs
    exact hiff.mp (Option.some.inj habs)
  · intro hwhole
    refine ⟨_, out, hsanitize, by rw [hlen, List.length_map], fun j e he => ?_⟩
    obtain ⟨hin, hbeyond⟩ := hget j _ (hmap j e he)
    cases hst : s.channels[j]? with
    | none => exact ⟨_, (hbeyond hst).2, rfl⟩
    | some st =>
        obtain ⟨st', o, hentry, -, ho⟩ := hin st hst
        refine ⟨o, ho, ?_⟩
        obtain ⟨r, rfl⟩ | hmark := e.reading_or_marker
        · obtain ⟨o', y, hentry', hy, hiff⟩ :=
            exists_sanitizeEntry_magnitude hmedian hquantize st r now
          obtain ⟨-, heq⟩ := Prod.mk.inj (hentry.symm.trans hentry')
          obtain rfl := Except.ok.inj heq
          rw [hy, DeviceEntry.text_reading, r.parse_text, Option.map_some, Option.map_some]
          exact congrArg some (hiff.mpr (hwhole j r st he hst))
        · obtain ⟨-, heq⟩ := Prod.mk.inj (hentry.symm.trans (hmarker e st hmark))
          rw [Except.ok.inj heq]

/-- The guard alone: the median filter and the quantizer are off. -/
def guardOnly : SanitizeModel where
  quantizeGrams := 0

/-- A reading of 79 g with the wrong sign is repaired to 79 g. -/
theorem keepsMagnitudes_whole :
    KeepsMagnitudes ((LoadcellSanitizer.new guardOnly 10).run [⟨["+00079".toList], 0⟩])
      [.reading (.integer true 79)] 1 := by
  refine (keepsMagnitudes_iff guardOnly rfl rfl 10 _ _ _).mpr fun j r st hr _ _ => ?_
  obtain ⟨hj, hget⟩ := List.getElem?_eq_some_iff.mp hr
  obtain rfl : j = 0 := by simpa using hj
  cases hget
  exact trivial

/-- A reading of 79.5 g with the wrong sign is repaired to 79 g. -/
theorem not_keepsMagnitudes : ¬ ∀ (config : SanitizeModel), config.medianFilter = false →
    config.quantizeGrams = 0 → ∀ (n : ℕ) (frames : List Frame) (entries : List DeviceEntry)
    (now : PyFloat), KeepsMagnitudes ((LoadcellSanitizer.new config n).run frames) entries now := by
  intro h
  obtain ⟨s', out, heq, -, hkeeps⟩ := h guardOnly rfl rfl 10 [⟨["+079.5".toList], 0⟩]
    [.reading (.tenths true 79 5)] 1
  have hout : (((LoadcellSanitizer.new guardOnly 10).run [⟨["+079.5".toList], 0⟩]).sanitize
      ([.reading (.tenths true 79 5)].map DeviceEntry.text) 1).2 = .ok ["+00079".toList] := by
    decide +kernel
  obtain rfl := Except.ok.inj ((congrArg Prod.snd heq).symm.trans hout)
  obtain ⟨o, ho, habs⟩ := hkeeps 0 _ rfl
  obtain rfl := Option.some.inj ho
  exact absurd habs (by decide +kernel)

end IoBoard
