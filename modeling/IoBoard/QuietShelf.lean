import IoBoard.AlarmCauses
import IoBoard.QuantizerBins
import IoBoard.SignGuard
import IoBoard.StreamAlarm

/-!
# A Shelf at Rest

The whole path of a reading, from the board to the change events of a stream, in Python's
arithmetic. A shelf at rest still sends readings that waver and readings with the wrong sign: the
guard restores the signs, the hysteresis of the quantizer holds the bin, and a detector that gets
the same value again and again reports nothing.

## What is assumed

* The settings of the sanitizer are in whole grams, and the median filter is off, as it is by
  default (`WholeGrams`). A median of readings with wrong signs may have a wrong sign itself.
* The sanitizer is fresh when the frames begin, and is not reset.
* The readings of the channel are whole grams at most the hysteresis away from the first one, and
  the wrong signs among them are of the kind that the guard is built for (`AtRest`): the weight
  keeps its sign and is not below the minimum magnitude, the first frame is right and there are
  never too many wrong ones in a row, and one numeric frame follows the other in time.
* The stream compares readings themselves: it has no filter, or its threshold is on the raw
  values. What a smoothing filter makes of equal values need not be equal in floats.

Nothing is assumed about the other channels or which polls reach the stream, and of the threshold
only that it is not negative.

## The path

The channel of the sanitizer returns the rendered bin of the first reading in every frame, or an
error marker. That is the lemma about one frame (`Held.sanitizeEntry`), and it rests on the
exactness of float arithmetic on whole grams. A detector that reads that value or nothing keeps it
as its previous value, and a difference of zero does not exceed a threshold.

## Main results

* `Held.sanitizeEntry`: a channel whose readings waver by at most the hysteresis returns the same
  value again and again.
* `Still.poll`: a channel of a detector that gets the same value reports nothing.
* `quiet_shelf`: **a shelf at rest raises no change event**.
-/

open PyFloat

namespace IoBoard

/-! ### A channel of the sanitizer -/

section Channel

variable {cfg : SanitizeModel} {k h : ℕ} {z₀ z : ℤ}

/-- The reading is a whole number of grams, at most the hysteresis `h` away from `z₀`. -/
def Wavers (h : ℕ) (z₀ : ℤ) (r : DeviceReading) : Prop :=
  ∃ z : ℤ, r.value = ofRat z ∧ |z| ≤ 99999 ∧ |z - z₀| ≤ h

/-- The bin of a reading, for a step of `k` grams, rounded half up. -/
def binOf (k : ℕ) (z₀ : ℤ) : ℤ :=
  ⌊(z₀ : ℚ) / k + 1 / 2⌋ * k

/-- What the rendering of an integer stands for: `_format` has five digits, and larger
magnitudes are cut to the largest one. -/
def canonicalReading (n : ℤ) : DeviceReading :=
  .integer (decide (n < 0)) ⟨min n.natAbs 99999, by omega⟩

theorem text_canonicalReading (n : ℤ) : (canonicalReading n).text = canonical n := rfl

theorem value_canonicalReading {n : ℤ} (hn : |n| ≤ 99999) :
    (canonicalReading n).value = ofRat n := by
  obtain ⟨hlo, hhi⟩ := abs_le.mp hn
  have hmin : min n.natAbs 99999 = n.natAbs := min_eq_left (by omega)
  rw [canonicalReading, DeviceReading.value, DeviceReading.magnitude]
  simp only [hmin, DeviceReading.negative]
  by_cases hneg : n < 0
  · have habs : ((n.natAbs : ℕ) : ℚ) = -n := by
      rw [Nat.cast_natAbs, abs_of_neg hneg]
      push_cast
      ring
    simp [hneg, habs, neg_ofRat]
  · have habs : ((n.natAbs : ℕ) : ℚ) = n := by
      rw [Nat.cast_natAbs, abs_of_nonneg (not_lt.mp hneg)]
    simp [hneg, habs]

/-- The bin of a reading is a small integer. -/
theorem abs_binOf_le (hk : 0 < k) (hz₀ : |z₀| ≤ 99999) : |binOf k z₀| ≤ 100000 * k := by
  rw [binOf, abs_mul, Nat.abs_cast]
  gcongr
  exact abs_floor_le hk hz₀

/-- The bin of a reading holds for every reading that is at most the hysteresis away. -/
theorem abs_sub_binOf_le (hk : 0 < k) (hz : |z - z₀| ≤ h) :
    |(z : ℚ) - binOf k z₀| ≤ k / 2 + h := by
  have hk0 : (0 : ℚ) < k := by exact_mod_cast hk
  have hround := Hysteresis.abs_sub_halfUp_le hk0 (z₀ : ℚ)
  have hbin : (binOf k z₀ : ℚ) = Hysteresis.halfUp (k : ℚ) z₀ := by
    rw [binOf, Hysteresis.halfUp]
    push_cast
    rfl
  have hnear : |(z : ℚ) - z₀| ≤ h := by exact_mod_cast hz
  calc
    |(z : ℚ) - binOf k z₀| ≤ |(z : ℚ) - z₀| + |(z₀ : ℚ) - binOf k z₀| := abs_sub_le _ _ _
    _ ≤ h + k / 2 := by
      rw [hbin]
      exact add_le_add hnear hround
    _ = k / 2 + h := add_comm _ _

/-- What the quantizer of a channel keeps: nothing yet, or the bin of `z₀`. -/
def HeldBin (k : ℕ) (z₀ : ℤ) (st : ChannelState) : Prop :=
  st.prevBin = none ∨ st.prevBin = some (ofRat (binOf k z₀))

/-- **The bin is held** by every reading that is at most the hysteresis away from `z₀`, when
`z₀` is the first. -/
theorem HeldBin.quantize {st : ChannelState} (hst : HeldBin k z₀ st) (hk : IsStep cfg k)
    (hk' : k < 2 ^ 35) (hh : IsBin cfg.quantizeHysteresisGrams h) (hkh : k + 2 * h < 2 ^ 53)
    (hz : |z| ≤ 99999) (hz₀ : |z₀| ≤ 99999) (hnear : |z - z₀| ≤ h)
    (hfirst : st.prevBin = none → z = z₀) : ∃ st',
      st.quantize cfg (ofRat z) = .ok (ofRat (binOf k z₀), st') ∧
        st'.prevBin = some (ofRat (binOf k z₀)) := by
  unfold ChannelState.quantize
  rw [if_neg hk.not_leB_zero]
  obtain hnone | hsome := hst
  · obtain rfl := hfirst hnone
    rw [hnone, Option.filter_none, halfUp_exact hk hz]
    refine ⟨{ st with prevBin := some (ofRat (binOf k z)) }, ?_, rfl⟩
    simp [binOf, Except.map]
  · have hbin := abs_binOf_le hk.1 hz₀
    have hholds : holdsBin cfg (ofRat (binOf k z₀)) (ofRat z) = true := by
      rw [holdsBin_exact hk hh hkh (hz.trans_lt (by norm_num)) (hbin.trans_lt (by omega))]
      exact decide_eq_true (abs_sub_binOf_le hk.1 hnear)
    refine ⟨st, ?_, hsome⟩
    rw [hsome, Option.filter_some, if_pos hholds]

/-- A reading that is its own bin comes out as it is, any other one as the rendered bin. -/
theorem parse_output {r : DeviceReading} {n : ℤ} (hn : |n| < 2 ^ 53) {o : Str}
    (ho : (if (ofRat n).eqB r.value then .ok r.text else format (ofRat n)) =
      (.ok o : Except PyExc Str)) : parse o = some (canonicalReading n).value := by
  have hbin := isBin_ofRat hn
  split_ifs at ho with heq
  · have hvalue := (hbin.eqB_iff r.isGram_value).mp heq
    obtain ⟨d, hd, hdn⟩ := hbin
    obtain ⟨d', hd', hle⟩ := r.isGram_value
    obtain rfl : d = d' := fin.inj (hd.symm.trans (hvalue.trans hd'))
    rw [hdn] at hle
    obtain rfl := Except.ok.inj ho
    rw [DeviceReading.parse_text, ← hvalue, value_canonicalReading (by exact_mod_cast hle)]
  · rw [hbin.format] at ho
    obtain rfl := Except.ok.inj ho
    rw [← text_canonicalReading, DeviceReading.parse_text]

end Channel

/-- The quantizer of the service works on whole grams, and the median filter is off, as it is by
default. -/
structure WholeGrams (cfg : SanitizeModel) (k h : ℕ) : Prop where
  median : cfg.medianFilter = false
  step : IsStep cfg k
  step_lt : k < 2 ^ 35
  hysteresis : IsBin cfg.quantizeHysteresisGrams h
  radius_lt : k + 2 * h < 2 ^ 53

/-- The frames of a shelf at rest: readings that waver around the first of them by at most the
hysteresis, with glitches that the guard is built for. -/
structure AtRest (cfg : SanitizeModel) (h : ℕ) (z₀ : ℤ) (s : Bool) (xs : List Shot) : Prop where
  pattern : GlitchPattern cfg s xs
  wavers : ∀ x ∈ xs, Wavers h z₀ x.truth
  first : ∀ x ∈ xs.head?, x.truth.value = ofRat z₀

section Rest

variable {cfg : SanitizeModel} {k h : ℕ} {z₀ : ℤ} {s : Bool} {st : ChannelState}
  {xs : List Shot}

theorem AtRest.init {y : Shot} (hrest : AtRest cfg h z₀ s (xs ++ [y])) :
    AtRest cfg h z₀ s xs where
  pattern := hrest.pattern.init
  wavers x hx := hrest.wavers x (List.mem_append_left _ hx)
  first x hx := hrest.first x (by
    rw [List.head?_append_of_ne_nil]
    · exact hx
    · rintro rfl
      cases hx)

/-- What a channel at rest keeps after some numeric frames: the right sign, and the bin of the
first reading. -/
structure Held (k : ℕ) (z₀ : ℤ) (st : ChannelState) (xs : List Shot) : Prop where
  tracks : Tracks st xs
  bin : st.prevBin = if xs = [] then none else some (ofRat (binOf k z₀))

/-- **One numeric frame of a shelf at rest** returns the rendered bin of the first reading: the
guard restores the sign, and the hysteresis holds the bin. -/
theorem Held.sanitizeEntry (hheld : Held k z₀ st xs) (hcfg : WholeGrams cfg k h)
    (hz₀ : |z₀| ≤ 99999) {y : Shot} (hrest : AtRest cfg h z₀ s (xs ++ [y])) :
    ∃ st' o, sanitizeEntry cfg st y.received.text y.ts = (st', .ok o) ∧
      st'.prevBin = some (ofRat (binOf k z₀)) ∧
      parse o = some (canonicalReading (binOf k z₀)).value := by
  obtain ⟨z, hvalue, hz, hnear, hfirst⟩ : ∃ z : ℤ, y.truth.value = ofRat z ∧ |z| ≤ 99999 ∧
      |z - z₀| ≤ h ∧ (xs = [] → z = z₀) := by
    by_cases hxs : xs = []
    · subst hxs
      exact ⟨z₀, hrest.first y rfl, hz₀, by simp, fun _ => rfl⟩
    · obtain ⟨z, hvalue, hz, hnear⟩ := hrest.wavers y (by simp)
      exact ⟨z, hvalue, hz, hnear, fun hnil => absurd hnil hxs⟩
  have hcorrect : (st.correct cfg y.received.value y.ts).1 = ofRat z := by
    rw [(ChannelState.correct_of_medianOff st hcfg.median _ _).1,
      hheld.tracks.guard hrest.pattern, hvalue]
  have hbin : HeldBin k z₀ (st.correct cfg y.received.value y.ts).2 := by
    change st.prevBin = none ∨ st.prevBin = some _
    rw [hheld.bin]
    split_ifs
    · exact .inl rfl
    · exact .inr rfl
  obtain ⟨st', hquantize, hst'⟩ := hbin.quantize hcfg.step hcfg.step_lt hcfg.hysteresis
    hcfg.radius_lt hz hz₀ hnear (fun hnone => hfirst (by
      change st.prevBin = none at hnone
      by_contra hxs
      rw [hheld.bin, if_neg hxs] at hnone
      cases hnone))
  have hentry : IoBoard.sanitizeEntry cfg st y.received.text y.ts =
      (st', if (ofRat (binOf k z₀)).eqB y.received.value then .ok y.received.text
        else format (ofRat (binOf k z₀))) := by
    rw [IoBoard.sanitizeEntry, DeviceReading.parse_text]
    dsimp only
    rw [hcorrect, hquantize]
  have hsmall : |binOf k z₀| < 2 ^ 53 :=
    (abs_binOf_le hcfg.step.1 hz₀).trans_lt (by have := hcfg.step_lt; omega)
  obtain ⟨o, ho⟩ : ∃ o, (if (ofRat (binOf k z₀)).eqB y.received.value then .ok y.received.text
      else format (ofRat (binOf k z₀))) = (.ok o : Except PyExc Str) := by
    split_ifs
    · exact ⟨_, rfl⟩
    · exact ⟨_, (isBin_ofRat hsmall).format⟩
  exact ⟨st', o, by rw [hentry, ho], hst', parse_output hsmall ho⟩

theorem AtRest.left {ys : List Shot} (hrest : AtRest cfg h z₀ s (xs ++ ys)) :
    AtRest cfg h z₀ s xs := by
  induction ys using List.reverseRecOn with
  | nil => simpa using hrest
  | append_singleton ys y ih =>
      rw [← List.append_assoc] at hrest
      exact ih hrest.init

theorem shots_append (samples more : List Sample) :
    shots (samples ++ more) = shots samples ++ shots more :=
  List.filterMap_append

/-- **One frame of a shelf at rest**: an error marker passes, and a reading comes out as the
rendered bin of the first one. -/
theorem Held.sanitizeEntry_sample {samples : List Sample} (hheld : Held k z₀ st (shots samples))
    (hcfg : WholeGrams cfg k h) (hz₀ : |z₀| ≤ 99999) {x : Sample}
    (hrest : AtRest cfg h z₀ s (shots (samples ++ [x]))) :
    ∃ st' o, IoBoard.sanitizeEntry cfg st x.reading.1 x.reading.2 = (st', .ok o) ∧
      st'.prevBin = (if shots (samples ++ [x]) = [] then none else some (ofRat (binOf k z₀))) ∧
      (parse o = none ∨ parse o = some (canonicalReading (binOf k z₀)).value) := by
  rw [shots_append] at hrest ⊢
  cases x with
  | marker raw hraw ts =>
      have hparse : parse raw = none := if_pos hraw
      refine ⟨st, raw, by rw [Sample.reading, IoBoard.sanitizeEntry, hparse], ?_, .inl hparse⟩
      rw [hheld.bin, show shots [.marker raw hraw ts] = [] from rfl, List.append_nil]
  | shot y =>
      obtain ⟨st', o, hentry, hbin, ho⟩ := hheld.sanitizeEntry hcfg hz₀ hrest
      exact ⟨st', o, hentry, by rw [hbin, if_neg (by simp [shots])], .inr ho⟩

/-- A channel at rest keeps its bin over any frames, error markers among them. -/
theorem held_run (hcfg : WholeGrams cfg k h) (hz₀ : |z₀| ≤ 99999) (samples : List Sample)
    (hrest : AtRest cfg h z₀ s (shots samples)) :
    Held k z₀ (({} : ChannelState).run cfg (samples.map Sample.reading)) (shots samples) := by
  induction samples using List.reverseRecOn with
  | nil => exact ⟨Tracks.run hcfg.median [] hrest.pattern, rfl⟩
  | append_singleton samples x ih =>
      have hheld := ih (shots_append samples [x] ▸ hrest).left
      obtain ⟨st', o, hentry, hbin, -⟩ := hheld.sanitizeEntry_sample hcfg hz₀ hrest
      refine ⟨Tracks.run hcfg.median _ hrest.pattern, ?_⟩
      rw [List.map_append, List.map_singleton, ChannelState.run_append_singleton, hentry]
      exact hbin

end Rest

/-! ### The frames of the sanitizer -/

/-- The output of a frame for a channel is that of the entry that reached the channel. -/
theorem exists_entryAt {cfg : SanitizeModel} {ts : PyFloat} {sts : List ChannelState}
    {values out : List Str} {i : ℕ} {st : ChannelState} {o : Str}
    (hout : (sanitizeEntries cfg ts sts values).2 = .ok out) (hst : sts[i]? = some st)
    (ho : out[i]? = some o) : ∃ raw, entryAt cfg ts sts values i = some raw ∧
      (sanitizeEntry cfg st raw ts).2 = .ok o := by
  induction sts generalizing values out i with
  | nil => cases hst
  | cons first sts ih =>
      cases values with
      | nil =>
          obtain rfl := Except.ok.inj hout
          cases ho
      | cons raw values =>
          rw [sanitizeEntries] at hout
          split at hout
          · cases hout
          · next first' entry hentry =>
              dsimp only at hout
              cases hrest : (sanitizeEntries cfg ts sts values).2 with
              | error e =>
                  rw [hrest] at hout
                  cases hout
              | ok rest =>
                  rw [hrest] at hout
                  obtain rfl := Except.ok.inj hout
                  cases i with
                  | zero =>
                      obtain rfl := Option.some.inj hst
                      obtain rfl := Option.some.inj ho
                      exact ⟨raw, rfl, congrArg Prod.snd hentry⟩
                  | succ i =>
                      rw [entryAt, hentry]
                      exact ih hrest hst ho

theorem LoadcellSanitizer.readings_append (s : LoadcellSanitizer) (i : ℕ)
    (frames more : List Frame) :
    s.readings i (frames ++ more) = s.readings i frames ++ (s.run frames).readings i more := by
  induction frames generalizing s with
  | nil => rfl
  | cons f frames ih =>
      rw [List.cons_append, readings, readings, ih, List.append_assoc]
      rfl

/-- **The sanitizer of a shelf at rest**: on a channel of a fresh sanitizer whose frames are at
rest, every frame returns an error marker or the rendered bin of the first reading. -/
theorem parse_sanitize_of_atRest {cfg : SanitizeModel} {k h n i : ℕ} {z₀ : ℤ} {s : Bool}
    (hcfg : WholeGrams cfg k h) (hz₀ : |z₀| ≤ 99999) (hi : i < n) {frames rest : List Frame}
    {f : Frame} {samples : List Sample}
    (hread : (LoadcellSanitizer.new cfg n).readings i (frames ++ f :: rest) =
      samples.map Sample.reading)
    (hrest : AtRest cfg h z₀ s (shots samples)) {out : List Str} {o : Str}
    (hout : (((LoadcellSanitizer.new cfg n).run frames).sanitize f.values f.now).2 = .ok out)
    (ho : out[i]? = some o) :
    parse o = none ∨ parse o = some (canonicalReading (binOf k z₀)).value := by
  have hst := LoadcellSanitizer.run_new_getElem? cfg hi frames
  obtain ⟨raw, hentry, hok⟩ := exists_entryAt hout hst ho
  have hconfig : ((LoadcellSanitizer.new cfg n).run frames).config = cfg := by
    simp [LoadcellSanitizer.new]
  rw [LoadcellSanitizer.readings_append, LoadcellSanitizer.readings,
    LoadcellSanitizer.entry, hentry, Option.map_some, Option.toList_some, List.singleton_append,
    List.append_cons] at hread
  obtain ⟨before, after, rfl, hbefore, -⟩ := List.map_eq_append_iff.mp hread.symm
  obtain ⟨before, last, rfl, hbefore', hlast⟩ := List.map_eq_append_iff.mp hbefore
  obtain ⟨x, rfl, hx⟩ := List.map_eq_singleton_iff.mp hlast
  rw [shots_append] at hrest
  have hheld := held_run hcfg hz₀ before (shots_append before [x] ▸ hrest.left).left
  obtain ⟨st', o', hsample, -, ho'⟩ := hheld.sanitizeEntry_sample hcfg hz₀ hrest.left
  rw [hconfig, ← hbefore'] at hok
  rw [hx] at hsample
  rw [hsample] at hok
  obtain rfl := Except.ok.inj hok
  exact ho'

/-! ### A channel of the detector -/

section Detector

variable {scope : ThresholdScope} {V : PyFloat} {ch ch' : DetectorChannel PyFloat}

/-- A channel that compares readings themselves, all of which are `V`: raw values, or filtered
ones without a filter. -/
structure DetectorChannel.Still (scope : ThresholdScope) (V : PyFloat)
    (ch : DetectorChannel PyFloat) : Prop where
  unfiltered : scope = .filtered → ch.filter = .noFilter
  previous : ∀ x, ch.previousValue scope = some x → x = V

theorem DetectorChannel.Still.reset (h : ch.Still scope V) : ch.reset.Still scope V where
  unfiltered hscope := by
    rw [DetectorChannel.reset, h.unfiltered hscope]
    rfl
  previous x hx := by cases scope <;> cases hx

/-- The detector reads texts as the sanitizer does, so a marker is none for both. -/
theorem parseValue_eq_parse (raw : Str) : (parseValue raw : Option PyFloat) = parse raw := by
  unfold parseValue parse
  simp only [errorValues, List.mem_cons, List.not_mem_nil, or_false]
  rfl

/-- A frame in which the channel reads `V` or nothing keeps it still, whether it raises or
not. -/
theorem DetectorChannel.Still.process (h : ch.Still scope V) (threshold : Option PyFloat)
    {raw : Str} (hraw : parse raw = none ∨ parse raw = some V) :
    (ch.process scope threshold raw).1.Still scope V := by
  rw [← parseValue_eq_parse] at hraw
  rw [DetectorChannel.process]
  obtain hnone | hsome := hraw
  · rw [LoadcellFilter.filter_of_parseValue_eq_none hnone, hnone]
    cases scope <;> exact ⟨h.unfiltered, (fun x hx => by cases hx)⟩
  · cases scope with
    | raw =>
        have hprevious := h.previous
        split
        · exact ⟨(fun hscope => by cases hscope), hprevious⟩
        · dsimp only
          split
          · exact ⟨(fun hscope => by cases hscope), hprevious⟩
          · exact ⟨(fun hscope => by cases hscope), fun x hx =>
              Option.some.inj (hx.symm.trans hsome)⟩
    | filtered =>
        have hnoFilter := h.unfiltered rfl
        have hfilter : ch.filter.filter raw = (.noFilter, .ok (raw, some V)) := by
          rw [LoadcellFilter.filter, hsome, hnoFilter]
        rw [hfilter]
        dsimp only
        split
        · exact ⟨fun _ => rfl, h.previous⟩
        · exact ⟨fun _ => rfl, fun x hx => (Option.some.inj hx).symm⟩

/-- A frame takes a channel to where its own entry takes it, or leaves it as it is. -/
theorem processChannels_getElem?_cases {F : Type*} [PyNumber F] (scope : ThresholdScope)
    (thresholds : List F) (chs : List (DetectorChannel F)) (raws : List Str) {i : ℕ}
    {ch : DetectorChannel F} (hch : chs[i]? = some ch) :
    (processChannels scope thresholds chs raws).1[i]? = some ch ∨
      ∃ raw, raws[i]? = some raw ∧ (processChannels scope thresholds chs raws).1[i]? =
        some (ch.process scope thresholds[i]? raw).1 := by
  induction chs generalizing thresholds raws i with
  | nil => cases hch
  | cons first chs ih =>
      cases raws with
      | nil => exact .inl hch
      | cons raw raws =>
          rw [processChannels]
          cases i with
          | zero =>
              obtain rfl := Option.some.inj hch
              refine .inr ⟨raw, rfl, ?_⟩
              have hthreshold : thresholds[0]? = thresholds.head? := List.head?_eq_getElem?.symm
              rw [hthreshold]
              split <;> next hp => rw [hp]; rfl
          | succ i =>
              split
              · exact .inl hch
              · have hrest := ih thresholds.tail raws hch
                rw [List.getElem?_tail] at hrest
                exact hrest

end Detector

namespace LoadcellChangeDetector

variable {d : LoadcellChangeDetector PyFloat} {i : ℕ} {V T : PyFloat}

/-- The channel `i` of the detector is still, and its threshold is `T`. -/
structure StillAt (d : LoadcellChangeDetector PyFloat) (i : ℕ) (T V : PyFloat) : Prop where
  threshold : d.thresholds[i]? = some T
  channel : ∃ ch, d.channels[i]? = some ch ∧ ch.Still d.thresholdScope V

theorem StillAt.failed (h : d.StillAt i T V) (e : PyExc) (now : ℚ) :
    (d.failed e now).1.StillAt i T V := by
  cases e with
  | ioBoard err =>
      obtain ⟨ch, hch, hstill⟩ := h.channel
      refine ⟨h.threshold, ch.reset, ?_, hstill.reset⟩
      rw [LoadcellChangeDetector.failed, LoadcellChangeDetector.reset, List.getElem?_map, hch]
      rfl
  | _ => exact h

theorem StillAt.process (h : d.StillAt i T V) {raws : List Str}
    (hraws : ∀ raw, raws[i]? = some raw → parse raw = none ∨ parse raw = some V) :
    (d.process raws).1.StillAt i T V := by
  rw [LoadcellChangeDetector.process]
  split_ifs
  · exact h
  · obtain ⟨ch, hch, hstill⟩ := h.channel
    obtain hsame | ⟨raw, hraw, hnext⟩ :=
      processChannels_getElem?_cases d.thresholdScope d.thresholds d.channels raws hch
    · exact ⟨h.threshold, ch, hsame, hstill⟩
    · exact ⟨h.threshold, _, hnext, hstill.process _ (hraws raw hraw)⟩

/-- **One poll** with the value `V` or nothing on the channel `i` reports no change of it, and
leaves the channel still. -/
theorem StillAt.poll (h : d.StillAt i T V) (hV : IsGram V) (hT : T.ltB (PyFloat.ofRat 0) = false)
    {item : StreamItem (List Str)} (now : ℚ)
    (hitem : ∀ r, item = .result r → ∀ raw, r.data[i]? = some raw →
      parse raw = none ∨ parse raw = some V) :
    (d.poll item now).1.StillAt i T V ∧
      ∀ e, .change e ∈ (d.poll item now).2.toOption.getD [] → i ∉ e.changedIndices := by
  cases item with
  | error err =>
      exact ⟨h.failed err.error now, fun e he =>
        absurd he (change_not_mem_failed d err.error now e)⟩
  | result r =>
      have hnext := h.process (hitem r rfl)
      rw [LoadcellChangeDetector.poll]
      simp only [StreamQueue.getNowait]
      cases hprocess : d.process r.data with
      | mk d' outcome =>
          rw [hprocess] at hnext
          cases outcome with
          | error e =>
              exact ⟨hnext.failed e now, fun e' he =>
                absurd he (change_not_mem_failed d' e now e')⟩
          | ok p =>
              refine ⟨hnext, fun e he hmem => ?_⟩
              obtain rfl := eq_changeEvent_of_mem he
              obtain ⟨results, hresults, rfl⟩ : ∃ results, (processChannels d.thresholdScope
                  d.thresholds d.channels r.data).2 = .ok results ∧ p = ⟨results⟩ := by
                rw [LoadcellChangeDetector.process] at hprocess
                split_ifs at hprocess
                · cases hprocess
                · have hmap := (Prod.mk.inj hprocess).2
                  cases hresults : (processChannels d.thresholdScope d.thresholds d.channels
                      r.data).2 with
                  | error e =>
                      rw [hresults] at hmap
                      cases hmap
                  | ok results =>
                      rw [hresults] at hmap
                      exact ⟨results, rfl, (Except.ok.inj hmap).symm⟩
              obtain ⟨j, hj⟩ := List.mem_iff_getElem?.mp hmem
              obtain ⟨result, c, hresult, hc, -⟩ := (Processed.mk results).exists_change hj
              obtain ⟨ch₁, ch', raw, hch₁, hraw, -, hchannel⟩ :=
                exists_process_of_processChannels hresults hresult
              obtain ⟨ch, hch, hstill⟩ := h.channel
              obtain rfl := Option.some.inj (hch.symm.trans hch₁)
              rw [h.threshold] at hchannel
              obtain ⟨old, new, t, hold, hnew, ht, hlt, -⟩ :=
                DetectorChannel.change_of_process_eq_some hchannel hc
              have hstill' := hstill.process (some T) (hitem r rfl raw hraw)
              rw [hchannel] at hstill'
              obtain rfl := Option.some.inj ht
              obtain rfl := hstill.previous old hold
              obtain rfl := hstill'.previous new hnew
              -- `V - V` is zero for a finite `V`
              obtain ⟨x, rfl, -⟩ := hV
              have hzero : PyNumber.abs (PyNumber.sub (fin x) (fin x)) = PyFloat.ofRat 0 := by
                change (((fin x).sub (fin x)).abs) = _
                rw [sub_fin, sub_self]
                decide +kernel
              rw [hzero] at hlt
              exact Bool.false_ne_true (hT.symm.trans hlt)

/-- A new detector is still, whatever the value, if it compares readings themselves. -/
theorem stillAt_new {method : FilterMethod} {scope : ThresholdScope}
    (hmethod : method = .none ∨ scope = .raw) {thresholds : List PyFloat} (alpha q r : PyFloat)
    (hlen : thresholds.length = 10) (hT : thresholds[i]? = some T) :
    (new method thresholds scope alpha q r).StillAt i T V := by
  obtain ⟨hi, -⟩ := List.getElem?_eq_some_iff.mp hT
  refine ⟨hT, { filter := createFilter method alpha q r }, ?_, fun hscope => ?_, fun x hx => ?_⟩
  · rw [new, List.getElem?_replicate, if_pos (by omega)]
  · obtain rfl | rfl := hmethod
    · rfl
    · cases hscope
  · cases scope <;> cases hx

/-- A run in which the channel `i` reads `V` or nothing reports no change of it, whatever the
others read. -/
theorem StillAt.run (h : d.StillAt i T V) (hV : IsGram V) (hT : T.ltB (PyFloat.ofRat 0) = false)
    (items : List (StreamItem (List Str) × ℚ))
    (hitems : ∀ item ∈ items, ∀ r, item.1 = .result r → ∀ raw, r.data[i]? = some raw →
      parse raw = none ∨ parse raw = some V) :
    ∀ p ∈ pollLoadcells d items, ∀ e, .change e ∈ p.events → i ∉ e.changedIndices := by
  induction items generalizing d with
  | nil =>
      intro p hp
      cases hp
  | cons entry items ih =>
      obtain ⟨item, now⟩ := entry
      obtain ⟨hnext, hquiet⟩ := h.poll hV hT now (hitems (item, now) List.mem_cons_self)
      intro p hp
      rw [pollLoadcells] at hp
      rcases List.mem_cons.mp hp with rfl | hp
      · exact hquiet
      · split at hp
        · cases hp
        · exact ih hnext (fun entry hentry => hitems entry (List.mem_cons_of_mem _ hentry)) p hp

end LoadcellChangeDetector

/-! ### The whole path -/

/-- The readings of a poll come from the sanitizer, which got the frames. A poll may miss
frames, since other requests get them too. -/
def SanitizedFrom (cfg : SanitizeModel) (n : ℕ) (frames : List Frame)
    (item : StreamItem (List Str)) : Prop :=
  ∀ r, item = .result r → ∃ before f after, frames = before ++ f :: after ∧
    (((LoadcellSanitizer.new cfg n).run before).sanitize f.values f.now).2 = .ok r.data

/-- **A shelf at rest raises no change event.** The readings of the channel `i` waver by whole
grams, at most the hysteresis `h` around the first one, with error markers among them and wrong
signs of the kind that the guard is built for. Then no stream without a filter, or with the
threshold on the raw values, ever reports the channel, whatever its threshold that is not negative,
whatever the other channels do, and whatever polls fail or are missed. -/
theorem quiet_shelf {cfg : SanitizeModel} {k h n i : ℕ} {z₀ : ℤ} {s : Bool}
    (hcfg : WholeGrams cfg k h) (hz₀ : |z₀| ≤ 99999) (hi : i < n)
    {frames : List Frame} {samples : List Sample}
    (hread : (LoadcellSanitizer.new cfg n).readings i frames = samples.map Sample.reading)
    (hrest : AtRest cfg h z₀ s (shots samples)) {method : FilterMethod} {scope : ThresholdScope}
    (hmethod : method = .none ∨ scope = .raw) {thresholds : List PyFloat} {alpha q r T : PyFloat}
    (hlen : thresholds.length = 10) (hthreshold : thresholds[i]? = some T)
    (hT : T.ltB (PyFloat.ofRat 0) = false) {items : List (StreamItem (List Str) × ℚ)}
    (hitems : ∀ item ∈ items, SanitizedFrom cfg n frames item.1) :
    ∀ p ∈ pollLoadcells (.new method thresholds scope alpha q r) items,
      ∀ e, .change e ∈ p.events → i ∉ e.changedIndices := by
  have hgram := (canonicalReading (binOf k z₀)).isGram_value
  refine (LoadcellChangeDetector.stillAt_new hmethod alpha q r hlen hthreshold).run hgram hT items
    fun item hitem result hresult raw hraw => ?_
  obtain ⟨before, f, after, rfl, hout⟩ := hitems item hitem result hresult
  exact parse_sanitize_of_atRest hcfg hz₀ hi hread hrest hout hraw

/-- A channel at 962 g: an error marker, 963 g with the wrong sign, and 961 g. The channel next to
it goes from 100 g to 500 g. -/
def restFrames : List Frame :=
  [("+00962", "+00100", 0), ("EEEEEE", "+00100", 1), ("-00963", "+00500", 2),
    ("+00961", "+00500", 3)].map fun (first, second, now) =>
      ⟨first.toList :: second.toList :: List.replicate 8 "+00000".toList, PyFloat.ofRat now⟩

/-- The frames of the first channel. -/
def restSamples : List Sample :=
  [.shot ⟨.integer false 962, false, PyFloat.ofRat 0⟩,
    .marker "EEEEEE".toList (by decide) (PyFloat.ofRat 1),
    .shot ⟨.integer false 963, true, PyFloat.ofRat 2⟩,
    .shot ⟨.integer false 961, false, PyFloat.ofRat 3⟩]

/-- What a stream gets of the frames: the first, the third, a failed poll, and the last. -/
def restItems : List (StreamItem (List Str) × ℚ) :=
  [(.result ⟨"+00960".toList :: "+00100".toList :: List.replicate 8 "+00000".toList, 0⟩, 0),
    (.result ⟨"+00960".toList :: "+00500".toList :: List.replicate 8 "+00000".toList, 2⟩, 2),
    (.error { timeoutItem with timestamp := 2 }, 2),
    (.result ⟨"+00960".toList :: "+00500".toList :: List.replicate 8 "+00000".toList, 3⟩, 3)]

theorem wholeGrams_default : WholeGrams {} 5 1 where
  median := rfl
  step := isStep_default
  step_lt := by norm_num
  hysteresis := isBin_ofRat (m := 1) (by norm_num)
  radius_lt := by norm_num

theorem restFrames_readings : (LoadcellSanitizer.new {} 10).readings 0 restFrames =
    restSamples.map Sample.reading := by
  decide +kernel

theorem restSamples_atRest : AtRest {} 1 962 false (shots restSamples) where
  pattern := ⟨by decide +kernel, by decide +kernel, by decide +kernel, by decide +kernel, by
    intro l hl hinverted
    -- one reading is inverted
    have hcount := hl.sublist.countP_le (p := Shot.inverted)
    rw [List.countP_eq_length.mpr hinverted] at hcount
    exact hcount.trans_lt (by decide +kernel)⟩
  wavers x hx := by
    simp only [restSamples, shots, List.filterMap_cons, List.filterMap_nil, List.mem_cons,
      List.not_mem_nil, or_false] at hx
    rcases hx with rfl | rfl | rfl
    · exact ⟨962, by decide +kernel, by norm_num, by norm_num⟩
    · exact ⟨963, by decide +kernel, by norm_num, by norm_num⟩
    · exact ⟨961, by decide +kernel, by norm_num, by norm_num⟩
  first x hx := by
    obtain rfl := Option.some.inj hx
    decide +kernel

/-- The polls of a stream. -/
def restPolls : List (Polled PyFloat) :=
  pollLoadcells (.new .none (List.replicate 10 (PyFloat.ofRat 2)) .raw 1 1 1) restItems

/-- The channels that an event reports. Only a change event reports any. -/
def SseEvent.reported {F : Type*} : SseEvent F → Option (List ℕ)
  | .change e => some e.changedIndices
  | _ => none

/-- The stream reports the second channel only. -/
theorem quiet_shelf_rest :
    restPolls.flatMap (·.events.filterMap SseEvent.reported) = [[1]] ∧
      ∀ p ∈ restPolls, ∀ e, .change e ∈ p.events → 0 ∉ e.changedIndices := by
  refine ⟨by decide +kernel, quiet_shelf wholeGrams_default (n := 10) (T := PyFloat.ofRat 2)
    (by norm_num) (by norm_num) restFrames_readings restSamples_atRest (.inl rfl) rfl rfl
    (by decide +kernel) fun item hitem result hresult => ?_⟩
  simp only [restItems, List.mem_cons, List.not_mem_nil, or_false] at hitem
  rcases hitem with rfl | rfl | rfl | rfl
  · obtain rfl := StreamItem.result.inj hresult
    exact ⟨[], _, _, rfl, by decide +kernel⟩
  · obtain rfl := StreamItem.result.inj hresult
    exact ⟨restFrames.take 2, _, _, rfl, by decide +kernel⟩
  · cases hresult
  · obtain rfl := StreamItem.result.inj hresult
    exact ⟨restFrames.take 3, _, _, rfl, by decide +kernel⟩

end IoBoard
