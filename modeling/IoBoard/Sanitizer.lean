import IoBoard.Config
import IoBoard.Exceptions
import IoBoard.Lib.Literal

/-!
# The Loadcell Sanitizer

`services/io_board/sanitizer.py`: the optional median filter, the sign-continuity guard and
the quantizer with its hysteresis, for every channel of a frame. The state of a channel
survives an exception of the quantizer, which ends the frame: the channels after the one
that raised do not see it.

## Conventions

* Readings are the ASCII texts of RQIW responses, and numbers are `PyFloat`s, operation by
  operation as in the source: the comparisons with NaN, the infinities that the settings
  allow, and the roundings are those of the code. Where a result is about exact grams, it
  goes through the lemmas on exact operations of `IoBoard.Lib.PyFloat`.
* `now` is an argument, as it is an optional one in the source. A caller of the service
  passes the monotonic clock, but no result on a single channel needs that.
* The lists `_window`, `_prev`, … of the source, indexed by channel, are one list of
  channel states. No code of `sanitize` reads another channel's entry.
* The counter of corrected glitches is left out: it is only logged.

## The layers of a channel

A reading that is no number passes, and leaves the channel as it is. A number goes through
the median (`filter`), the guard (`guard`) and the quantizer (`quantize`); what is stored as
the previous value is the value *before* the quantizer. The text that goes out is the raw
one whenever its value equals the quantized one, and otherwise a rendering. The three layers
are functions of their own here, and the later modules have one each: `IoBoard.SignGuard`,
`IoBoard.MedianPath`, `IoBoard.QuantizerBins`.

## Main results

* `sanitizeEntries_rule`: what holds of a channel and its entry holds of a frame.
* `LoadcellSanitizer.run_getElem?`: **the channels are independent** — after any frames, a
  channel is where the readings that reached it take it.
* `DeviceReading.parse_text`: the readings of the device and their values.
-/

namespace IoBoard

/-! ### One channel -/

/-- What the sanitizer keeps for one channel: the window of the median filter, the last value and
its time, the streak of flipped signs, and the bin that was shown last. -/
structure ChannelState where
  window : List PyFloat := []
  prev : Option PyFloat := none
  prevTs : PyFloat := 0
  flipStreak : ℕ := 0
  prevBin : Option PyFloat := none
  deriving DecidableEq

/-- `ERROR_VALUES`: the error markers of the device. -/
def errorValues : List Str :=
  ["EEEEEE".toList, "VVVVVV".toList]

/-- `_parse`. The error markers are no numbers to `float` either; the test in front of it decides
nothing, and is kept as it stands. -/
def parse (raw : Str) : Option PyFloat :=
  if raw ∈ errorValues then none else Literal.toFloat raw

/-- `sorted([a, b, c])[1]`, by the comparisons that the sort of the required Python (3.13 and
later) makes, so that the result is also determined where NaN compares with nothing. The sort
counts the run that the list begins with. Values of which neither is below the other count as
equal there: a run of equal values may go on ascending or descending, and a descending run is
reversed with its equal values left in order. What the run leaves is inserted. -/
def median (a b c : PyFloat) : PyFloat :=
  if b.ltB a then
    -- a descending run of two or three
    if c.ltB b then b
    else if b.ltB c then (if c.ltB a then c else a)
    else c
  else if c.ltB b then
    -- an ascending run of two, or two equal values and then a lower one
    if a.ltB b then (if c.ltB a then a else c)
    else a
  else b

section Channel

variable (cfg : SanitizeModel) (st : ChannelState)

/-- Whether the last numeric reading of the channel is recent enough to compare with. A channel
that has not read anything compares with the time 0. -/
def ChannelState.fresh (ts : PyFloat) : Bool :=
  (ts.sub st.prevTs).leB cfg.stalenessSeconds

/-- The window of the median filter with a new reading. A reading after a pause starts a new
window; a full one loses its oldest entry. -/
def ChannelState.push (numeric ts : PyFloat) : List PyFloat :=
  let window := (if st.fresh cfg ts then st.window else []) ++ [numeric]
  if 3 < window.length then window.tail else window

/-- Layer 1: the median of the last three readings, when it is switched on. Until the window is
full, a reading is taken as it is. -/
def ChannelState.filter (numeric ts : PyFloat) : PyFloat × List PyFloat :=
  if cfg.medianFilter then
    let window := st.push cfg numeric ts
    match window with
    | [a, b, c] => (median a b c, window)
    | _ => (numeric, window)
  else (numeric, st.window)

/-- The condition of the sign-continuity guard: a recent reading of about the same magnitude had
the other sign. The comparison is with the corrected value of the frame before, not with the
reading. -/
def ChannelState.isFlip (value ts : PyFloat) : Bool :=
  match st.prev with
  | none => false
  | some prev =>
      st.fresh cfg ts && (value.mul prev).ltB 0 && cfg.minMagnitudeGrams.leB value.abs &&
        (value.abs.sub prev.abs).abs.leB cfg.magnitudeToleranceGrams

/-- Layer 2: a flipped sign is restored until it has persisted for `relatch_frames` frames. The
value and the streak of flipped readings. The frame that completes the streak is let through. -/
def ChannelState.guard (value ts : PyFloat) : PyFloat × ℕ :=
  if st.isFlip cfg value ts then
    if st.flipStreak + 1 < cfg.relatchFrames then (value.neg, st.flipStreak + 1)
    else (value, 0)
  else (value, 0)

/-- Both layers: the sign-corrected value, and the channel that has stored it. The time is stored
with it, so a restored sign keeps the channel fresh. -/
def ChannelState.correct (numeric ts : PyFloat) : PyFloat × ChannelState :=
  let filtered := st.filter cfg numeric ts
  let guarded := st.guard cfg filtered.1 ts
  (guarded.1, { st with
    window := filtered.2
    prev := some guarded.1
    prevTs := ts
    flipStreak := guarded.2 })

/-- What Python raises when it turns an infinity or NaN into an integer: `OverflowError` for the
one, `ValueError` for the other. -/
def integerError : PyFloat → PyExc
  | .nan => .valueError
  | _ => .overflowError

/-- Whether a value stays in the bin `bin`: within half a step and the hysteresis of its centre,
the bounds included. -/
def holdsBin (bin value : PyFloat) : Bool :=
  (value.sub bin).abs.leB ((cfg.quantizeGrams.div 2).add cfg.quantizeHysteresisGrams)

/-- The half-up rounding of a value to the quantization step. The floor of an infinity or of NaN
raises. -/
def halfUp (value : PyFloat) : Except PyExc PyFloat :=
  let scaled := (value.div cfg.quantizeGrams).add (.ofRat (1 / 2))
  match scaled.floor? with
  | some k => .ok ((PyFloat.ofRat k).mul cfg.quantizeGrams)
  | none => .error (integerError scaled)

/-- `_quantize`. With a step of zero or less the value passes, and the bin of the channel stays
whatever it was. -/
def ChannelState.quantize (value : PyFloat) : Except PyExc (PyFloat × ChannelState) :=
  if cfg.quantizeGrams.leB 0 then .ok (value, st)
  else
    match st.prevBin.filter (holdsBin cfg · value) with
    | some bin => .ok (bin, st)
    | none => (halfUp cfg value).map fun bin => (bin, { st with prevBin := some bin })

/-- `_format`: the sign of the value and its integer part, cut off at five digits. A zero of either
sign gets a plus, and the integer part of a fraction is towards zero. -/
def format (value : PyFloat) : Except PyExc Str :=
  match value.int? with
  | some n =>
      .ok ((if PyFloat.leB 0 value then '+' else '-') :: Literal.decimal 5 (min n.natAbs 99999))
  | none => .error (integerError value)

/-- One entry of a frame: the channel after it, and the entry of the output. The raw text goes out
when its value equals the quantized one, so an unusual text of a usual value is not rendered
anew. -/
def sanitizeEntry (raw : Str) (ts : PyFloat) : ChannelState × Except PyExc Str :=
  match parse raw with
  | none => (st, .ok raw)
  | some numeric =>
      let corrected := st.correct cfg numeric ts
      match corrected.2.quantize cfg corrected.1 with
      | .error e => (corrected.2, .error e)
      | .ok (quantized, st') =>
          (st', if quantized.eqB numeric then .ok raw else format quantized)

end Channel

/-! ### A frame -/

/-- The loop of `sanitize` over the channels. Entries beyond the channels pass through; channels
beyond the entries stay as they are. -/
def sanitizeEntries (cfg : SanitizeModel) (ts : PyFloat) :
    List ChannelState → List Str → List ChannelState × Except PyExc (List Str)
  | st :: sts, raw :: values =>
      match sanitizeEntry cfg st raw ts with
      | (st', .error e) => (st' :: sts, .error e)
      | (st', .ok entry) =>
          let rest := sanitizeEntries cfg ts sts values
          (st' :: rest.1, rest.2.map (entry :: ·))
  | sts, values => (sts, .ok values)

/-- `LoadcellSanitizer`: its configuration, and a state for each channel. -/
structure LoadcellSanitizer where
  config : SanitizeModel
  channels : List ChannelState

/-- `LoadcellSanitizer.__init__`. -/
def LoadcellSanitizer.new (config : SanitizeModel) (channels : ℕ) : LoadcellSanitizer where
  config := config
  channels := List.replicate channels {}

/-- `LoadcellSanitizer.reset`: all channels begin anew, with the same configuration. -/
def LoadcellSanitizer.reset (s : LoadcellSanitizer) : LoadcellSanitizer :=
  { s with channels := List.replicate s.channels.length {} }

/-- `LoadcellSanitizer.sanitize` at the time `now`, channel by channel. One that raises ends it,
and those before it have changed. -/
def LoadcellSanitizer.sanitize (s : LoadcellSanitizer) (values : List Str) (now : PyFloat) :
    LoadcellSanitizer × Except PyExc (List Str) :=
  let result := sanitizeEntries s.config now s.channels values
  ({ s with channels := result.1 }, result.2)

/-- The module-level sanitizer that `configure_sanitizer` sets: ten channels, or none where it is
switched off. -/
def configureSanitizer (config : SanitizeModel) : Option LoadcellSanitizer :=
  if config.enabled then some (.new config 10) else none

/-- `sanitize_loadcells`: readings pass as they are where there is no sanitizer. -/
def sanitizeLoadcells (sanitizer : Option LoadcellSanitizer) (values : List Str)
    (now : PyFloat) : Option LoadcellSanitizer × Except PyExc (List Str) :=
  match sanitizer with
  | none => (none, .ok values)
  | some s => ((s.sanitize values now).1, (s.sanitize values now).2)

/-- `reset_sanitizer`, which does nothing where there is no sanitizer. -/
def resetSanitizer (sanitizer : Option LoadcellSanitizer) : Option LoadcellSanitizer :=
  sanitizer.map LoadcellSanitizer.reset

/-! ### Frames after frames -/

/-- A frame as `sanitize` gets it: the readings and the time. -/
structure Frame where
  values : List Str
  now : PyFloat

/-- The sanitizer after a sequence of frames, some of which may have raised. A run says nothing
about what was returned; the state is the same whether the caller got a frame or an exception. -/
def LoadcellSanitizer.run (s : LoadcellSanitizer) (frames : List Frame) : LoadcellSanitizer :=
  frames.foldl (fun s f => (s.sanitize f.values f.now).1) s

/-- The entry of a frame that reaches the channel `i`: none when the frame has no such entry, or
when a channel before it raises. -/
def entryAt (cfg : SanitizeModel) (ts : PyFloat) :
    List ChannelState → List Str → ℕ → Option Str
  | _ :: _, raw :: _, 0 => some raw
  | st :: sts, raw :: values, i + 1 =>
      match (sanitizeEntry cfg st raw ts).2 with
      | .error _ => none
      | .ok _ => entryAt cfg ts sts values i
  | _, _, _ => none

/-- The entry of the frame `f` that reaches the channel `i`: a frame may be shorter than the
channels, or longer. -/
def LoadcellSanitizer.entry (s : LoadcellSanitizer) (i : ℕ) (f : Frame) : Option Str :=
  entryAt s.config f.now s.channels f.values i

/-- The readings that reach the channel `i`, with their times. Which of them do depends on the
other channels, through their exceptions, and on nothing else of them. -/
def LoadcellSanitizer.readings (s : LoadcellSanitizer) (i : ℕ) : List Frame → List (Str × PyFloat)
  | [] => []
  | f :: frames =>
      ((s.entry i f).map (·, f.now)).toList ++ (s.sanitize f.values f.now).1.readings i frames

/-- A channel after a sequence of readings. The results on channels are about such runs, and
`run_getElem?` makes them results on frames. -/
def ChannelState.run (cfg : SanitizeModel) (st : ChannelState) (readings : List (Str × PyFloat)) :
    ChannelState :=
  readings.foldl (fun st r => (sanitizeEntry cfg st r.1 r.2).1) st

/-- A frame takes every channel to where its own entry takes it. -/
theorem sanitizeEntries_getElem? (cfg : SanitizeModel) (ts : PyFloat) (sts : List ChannelState)
    (values : List Str) (i : ℕ) :
    (sanitizeEntries cfg ts sts values).1[i]? = sts[i]?.map fun st =>
      match entryAt cfg ts sts values i with
      | some raw => (sanitizeEntry cfg st raw ts).1
      | none => st := by
  induction sts generalizing values i with
  | nil => simp [sanitizeEntries]
  | cons st sts ih =>
      cases values with
      | nil => simp [sanitizeEntries, entryAt]
      | cons raw values =>
          rw [sanitizeEntries]
          cases i with
          | zero =>
              simp only [entryAt]
              split <;> rename_i heq <;> simp [heq]
          | succ i =>
              rw [entryAt]
              split <;> rename_i heq <;> simp [heq, ih]

/-- **The rule for a frame.** When no entry raises on a channel in which `Q` holds, and each
keeps `Q`, the frame returns an entry for each of its own, channel by channel, and keeps `Q`. -/
theorem sanitizeEntries_rule {cfg : SanitizeModel} {ts : PyFloat} (Q : ChannelState → Prop)
    {sts : List ChannelState} {values : List Str} (hQ : ∀ st ∈ sts, Q st)
    (h : ∀ st, Q st → ∀ raw ∈ values, ∃ st' o, sanitizeEntry cfg st raw ts = (st', .ok o) ∧ Q st') :
    ∃ sts' out, sanitizeEntries cfg ts sts values = (sts', .ok out) ∧
      (∀ st ∈ sts', Q st) ∧ out.length = values.length ∧
      ∀ (j : ℕ) (raw : Str), values[j]? = some raw →
        (∀ st, sts[j]? = some st → ∃ st' o, sanitizeEntry cfg st raw ts = (st', .ok o) ∧
          sts'[j]? = some st' ∧ out[j]? = some o) ∧
        (sts[j]? = none → sts'[j]? = none ∧ out[j]? = some raw) := by
  induction sts generalizing values with
  | nil =>
      refine ⟨[], values, rfl, hQ, rfl, fun j raw hraw => ⟨fun st hst => ?_, fun h => ⟨h, hraw⟩⟩⟩
      cases hst
  | cons st sts ih =>
      cases values with
      | nil => exact ⟨st :: sts, [], rfl, hQ, rfl, fun j raw hraw => nomatch hraw⟩
      | cons raw values =>
          obtain ⟨hst, hsts⟩ := List.forall_mem_cons.mp hQ
          obtain ⟨st', o, hentry, hst'⟩ := h st hst raw (List.mem_cons_self ..)
          obtain ⟨sts', out, hrest, hsts', hlen, hget⟩ :=
            ih hsts fun st hst raw hraw => h st hst raw (List.mem_cons_of_mem _ hraw)
          refine ⟨st' :: sts', o :: out, ?_, List.forall_mem_cons.mpr ⟨hst', hsts'⟩,
            by simp [hlen], fun j => ?_⟩
          · rw [sanitizeEntries, hentry]
            dsimp only
            rw [hrest]
            rfl
          · cases j with
            | zero =>
                intro raw' hraw
                obtain rfl := Option.some.inj hraw
                refine ⟨fun st'' hst => ?_, fun hst => nomatch hst⟩
                obtain rfl := Option.some.inj hst
                exact ⟨st', o, hentry, rfl, rfl⟩
            | succ j => exact hget j

/-- **The channels are independent.** After any frames, a channel is where the readings that
reached it take it. -/
theorem LoadcellSanitizer.run_getElem? (s : LoadcellSanitizer) (frames : List Frame) (i : ℕ) :
    (s.run frames).channels[i]? =
      s.channels[i]?.map fun st => st.run s.config (s.readings i frames) := by
  induction frames generalizing s with
  | nil => simp [run, readings, ChannelState.run]
  | cons f frames ih =>
      have hrun : s.run (f :: frames) = (s.sanitize f.values f.now).1.run frames := rfl
      rw [hrun, ih]
      have hentry : (s.sanitize f.values f.now).1.channels[i]? = _ :=
        sanitizeEntries_getElem? s.config f.now s.channels f.values i
      rw [hentry, Option.map_map]
      congr 1
      funext st
      rw [readings]
      unfold entry
      cases entryAt s.config f.now s.channels f.values i <;> rfl

/-- One frame more. -/
theorem LoadcellSanitizer.run_append_singleton (s : LoadcellSanitizer) (frames : List Frame)
    (f : Frame) : s.run (frames ++ [f]) = ((s.run frames).sanitize f.values f.now).1 := by
  rw [run, List.foldl_append]
  rfl

@[simp] theorem LoadcellSanitizer.run_config (s : LoadcellSanitizer) (frames : List Frame) :
    (s.run frames).config = s.config := by
  induction frames generalizing s with
  | nil => rfl
  | cons f frames ih => exact ih _

theorem length_sanitizeEntries (cfg : SanitizeModel) (ts : PyFloat) (sts : List ChannelState)
    (values : List Str) : (sanitizeEntries cfg ts sts values).1.length = sts.length := by
  induction sts generalizing values with
  | nil => simp [sanitizeEntries]
  | cons st sts ih =>
      cases values with
      | nil => simp [sanitizeEntries]
      | cons raw values =>
          rw [sanitizeEntries]
          split
          · rfl
          · simp [ih]

@[simp] theorem LoadcellSanitizer.length_run (s : LoadcellSanitizer) (frames : List Frame) :
    (s.run frames).channels.length = s.channels.length := by
  induction frames generalizing s with
  | nil => rfl
  | cons f frames ih => exact (ih _).trans (length_sanitizeEntries ..)

/-- A reset sanitizer is a new one, whatever it has seen. -/
theorem LoadcellSanitizer.reset_run_new (config : SanitizeModel) (n : ℕ) (frames : List Frame) :
    ((LoadcellSanitizer.new config n).run frames).reset = .new config n := by
  rw [reset, run_config, length_run]
  simp [new]

/-! ### Readings of the device -/

/-- A reading in one of the two formats of the device: a sign and five digits, or a sign, three
digits, a point and one digit. Both have six characters. -/
inductive DeviceReading
  | integer (negative : Bool) (grams : Fin 100000)
  | tenths (negative : Bool) (grams : Fin 1000) (tenth : Fin 10)
  deriving DecidableEq

namespace DeviceReading

/-- The six characters of a reading. -/
def text : DeviceReading → Str
  | integer negative grams => Literal.signChar negative :: Literal.decimal 5 grams
  | tenths negative grams tenth =>
      Literal.signChar negative :: (Literal.decimal 3 grams ++ ['.', Literal.digit tenth])

/-- The magnitude in grams, before it becomes a float. -/
def magnitude : DeviceReading → ℚ
  | integer _ grams => (grams : ℕ)
  | tenths _ grams tenth => (grams : ℕ) + (tenth : ℕ) / 10

/-- Whether the sign is a minus. -/
def negative : DeviceReading → Bool
  | integer negative _ => negative
  | tenths negative _ _ => negative

/-- The value that Python reads: the rounded magnitude, and then the sign. A zero with a minus is
the negative zero. -/
def value (r : DeviceReading) : PyFloat :=
  if r.negative then (PyFloat.ofRat r.magnitude).neg else PyFloat.ofRat r.magnitude

/-- The reading with the other sign. -/
def invert : DeviceReading → DeviceReading
  | integer negative grams => integer (!negative) grams
  | tenths negative grams tenth => tenths (!negative) grams tenth

@[simp] theorem invert_value (r : DeviceReading) : r.invert.value = r.value.neg := by
  cases r with
  | integer negative | tenths negative =>
      cases negative <;> simp [value, invert, DeviceReading.negative, magnitude]

/-- A reading is no error marker. -/
theorem text_not_mem_errorValues (r : DeviceReading) : r.text ∉ errorValues := by
  have hE (negative : Bool) : Literal.signChar negative ≠ 'E' := by cases negative <;> decide
  have hV (negative : Bool) : Literal.signChar negative ≠ 'V' := by cases negative <;> decide
  cases r with
  | integer negative | tenths negative => simp [errorValues, text, hE, hV]

/-- **A reading is numeric**, and its value is its magnitude with its sign, as a float. -/
@[simp] theorem parse_text (r : DeviceReading) : parse r.text = some r.value := by
  rw [parse, if_neg r.text_not_mem_errorValues]
  cases r with
  | integer negative grams => exact Literal.toFloat_integer (w := 4) grams.2 negative
  | tenths negative grams tenth => exact Literal.toFloat_tenths (w := 2) grams.2 tenth negative

/-- The magnitude is at most 99999 grams. -/
theorem abs_magnitude_le (r : DeviceReading) : |r.magnitude| ≤ (99999 : ℤ) := by
  cases r with
  | integer negative grams =>
      have h : ((grams : ℕ) : ℚ) ≤ 99999 := by exact_mod_cast Nat.le_of_lt_succ grams.2
      rw [magnitude, abs_of_nonneg (Nat.cast_nonneg _)]
      exact_mod_cast h
  | tenths negative grams tenth =>
      have hg : ((grams : ℕ) : ℚ) ≤ 999 := by exact_mod_cast Nat.le_of_lt_succ grams.2
      have ht : ((tenth : ℕ) : ℚ) ≤ 9 := by exact_mod_cast Nat.le_of_lt_succ tenth.2
      rw [magnitude, abs_of_nonneg (by positivity)]
      push_cast
      linarith

/-- The value is a finite float: the rounded magnitude with its sign. Integers are not rounded. -/
theorem exists_value_eq_fin (r : DeviceReading) : ∃ d : {q : ℚ // IsDouble q},
    r.value = .fin d ∧ (d : ℚ) = (if r.negative then -1 else 1) * Binary64.nearest r.magnitude ∧
      |(d : ℚ)| ≤ 99999 := by
  obtain ⟨d, hd, hnearest, hle⟩ :=
    PyFloat.exists_ofRat_eq_fin (isDouble_intCast (k := 99999) (by norm_num)) r.abs_magnitude_le
  push_cast at hle
  rw [value, hd]
  cases r.negative with
  | false => exact ⟨d, rfl, by simpa using hnearest, hle⟩
  | true => exact ⟨⟨-d, d.2.neg⟩, rfl, by simpa using hnearest, by rwa [abs_neg]⟩

/-- A reading that is not zero is at least a sixteenth of a gram. -/
theorem sixteenth_le {r : DeviceReading} {d : {q : ℚ // IsDouble q}} (hd : r.value = .fin d)
    (h0 : (d : ℚ) ≠ 0) : 1 / 16 ≤ |(d : ℚ)| := by
  obtain ⟨d', hd', hnearest, -⟩ := r.exists_value_eq_fin
  obtain rfl : d = d' := by
    rw [hd] at hd'
    exact PyFloat.fin.inj hd'
  have hmag : 1 / 16 ≤ r.magnitude := by
    have hne : r.magnitude ≠ 0 := by
      intro h
      rw [h, Binary64.nearest_zero, mul_zero] at hnearest
      exact h0 hnearest
    cases r with
    | integer negative grams =>
        have h1 : 1 ≤ (grams : ℕ) :=
          Nat.one_le_iff_ne_zero.mpr fun h => hne (by simp [magnitude, h])
        have : (1 : ℚ) ≤ (grams : ℕ) := by exact_mod_cast h1
        rw [magnitude]
        linarith
    | tenths negative grams tenth =>
        have h1 : 1 ≤ 10 * (grams : ℕ) + (tenth : ℕ) := by
          by_contra h
          have hg : (grams : ℕ) = 0 := by omega
          have ht : (tenth : ℕ) = 0 := by omega
          exact hne (by simp [magnitude, hg, ht])
        have : (1 : ℚ) ≤ 10 * (grams : ℕ) + (tenth : ℕ) := by exact_mod_cast h1
        rw [magnitude]
        linarith
  have hround : 1 / 16 ≤ Binary64.nearest r.magnitude := by
    have hpow : (1 / 16 : ℚ) = 2 ^ (-4 : ℤ) := by norm_num
    rw [hpow] at hmag ⊢
    rw [← Binary64.nearest_two_zpow (by norm_num)]
    exact Binary64.nearest_mono hmag
  rw [hnearest, abs_mul, abs_of_nonneg (le_trans (by norm_num) hround)]
  cases r.negative <;> simpa using hround

end DeviceReading

/-- An entry of a frame: a reading or an error marker. -/
inductive DeviceEntry
  | reading (r : DeviceReading)
  | noComms
  | outOfRange

/-- The six characters of an entry. -/
def DeviceEntry.text : DeviceEntry → Str
  | reading r => r.text
  | noComms => "EEEEEE".toList
  | outOfRange => "VVVVVV".toList

theorem DeviceEntry.text_reading (r : DeviceReading) : (reading r).text = r.text := rfl

end IoBoard
