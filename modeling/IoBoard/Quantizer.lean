import IoBoard.Sanitizer
import IoBoard.Health
import Mathlib.Data.List.Induction

/-!
# The Quantizer

What `sanitize` returns for the readings of the device when `quantize_grams` is a positive
integer. The quantized values are integers, multiples of the step, and their rendering is a
sign and five digits, but the text that goes out is the raw text whenever the quantized value
equals the reading.

## Representation

A reading is a `DeviceReading`, of one of the two formats, with its text and its value; an
error marker is one of the other two constructors of `DeviceEntry`. Values are Python floats
(`PyFloat`) without a negative zero: `-0.0 == 0.0` in every comparison that `_quantize` and
`_format` make, and the text is the only place where the sign of a zero shows. `IsBin x m` says
that a float is the integer `m`, and `IsStep cfg k` that the step is the positive integer `k`.

## Main results

* `halfUp_isBin`: quantized values are multiples of the step.
* `ChannelOk.sanitizeEntry`: what becomes of one reading.
* `exists_sanitize_entries`: what becomes of a frame of the device, entry by entry.
* `matchesLoadcellPattern_canonical`: the canonical rendering passes the health check's pattern.
-/

open PyFloat

namespace IoBoard

variable {cfg : SanitizeModel} {st : ChannelState}

/-- The canonical rendering of an integer: a sign, a plus for zero, and five digits. A magnitude
beyond five digits is cut off at 99999. -/
def canonical (m : ℤ) : Str :=
  Literal.signChar (decide (m < 0)) :: Literal.decimal 5 (min m.natAbs 99999)

/-- A float that is the integer `m`. It is unique, and so is the integer. -/
def IsBin (x : PyFloat) (m : ℤ) : Prop :=
  ∃ d : {q : ℚ // IsDouble q}, x = fin d ∧ (d : ℚ) = m

/-- A finite value of at most 99999 grams: what a reading of the device can stand for. -/
def IsGram (x : PyFloat) : Prop :=
  ∃ d : {q : ℚ // IsDouble q}, x = fin d ∧ |(d : ℚ)| ≤ 99999

/-- The quantization step is the positive integer `k`. No bound on `k` is needed: with a large step
all readings are in the bin of zero. -/
def IsStep (cfg : SanitizeModel) (k : ℕ) : Prop :=
  0 < k ∧ IsBin cfg.quantizeGrams k

/-- With a positive step the quantizer is on. -/
theorem IsStep.not_leB_zero {k : ℕ} (h : IsStep cfg k) : ¬ cfg.quantizeGrams.leB 0 = true := by
  obtain ⟨hk, d, hd, hdk⟩ := h
  have : (0 : ℚ) < k := by exact_mod_cast hk
  rw [hd, zero_eq, leB_fin, decide_eq_true_eq, hdk]
  push_cast
  linarith

/-- Bins are told apart by their integers. -/
theorem IsBin.eqB_iff {x y : PyFloat} {m : ℤ} (hx : IsBin x m) (hy : IsGram y) :
    x.eqB y = true ↔ x = y := by
  obtain ⟨a, rfl, -⟩ := hx
  obtain ⟨b, rfl, -⟩ := hy
  rw [eqB_fin, decide_eq_true_eq, fin.injEq, Subtype.ext_iff]

/-- `_format` renders integers canonically: it does what `canonical` says. -/
theorem IsBin.format {x : PyFloat} {m : ℤ} (h : IsBin x m) : format x = .ok (canonical m) := by
  obtain ⟨d, rfl, hd⟩ := h
  have hsign : (if leB 0 (fin d) = true then '+' else '-') =
      Literal.signChar (decide (m < 0)) := by
    rw [zero_eq, leB_fin, hd]
    by_cases hm : m < 0
    · simp [Literal.signChar, hm]
    · simp [Literal.signChar, hm, not_lt.mp hm]
  have hint : int? (fin d) = some m := by
    rw [int?, hd, ← Int.cast_neg, Int.floor_intCast, Int.floor_intCast]
    split_ifs <;> simp
  unfold IoBoard.format
  rw [hint, hsign]
  rfl

/-! ### Rounding to the step -/

/-- A rounded value within an integer bound of the format stays within it. -/
theorem exists_ofRat_le {q : ℚ} {b : ℤ} (hb : |b| < 2 ^ 53) (h : |q| ≤ b) :
    ∃ d : {q : ℚ // IsDouble q}, ofRat q = fin d ∧ |(d : ℚ)| ≤ b := by
  obtain ⟨d, hd, -, hle⟩ := exists_ofRat_eq_fin (isDouble_intCast hb) h
  exact ⟨d, hd, hle⟩

/-- An integer of the format is not rounded. -/
theorem isBin_ofRat {m : ℤ} (h : |m| < 2 ^ 53) : IsBin (ofRat m) m :=
  ⟨_, ofRat_of_isDouble (isDouble_intCast h), rfl⟩

/-- The scaled value plus one half, for a scaled value that is at most `b`; both operations round,
and neither leaves the bound by more than the half. -/
theorem exists_scaled {v d : {q : ℚ // IsDouble q}} {b : ℚ} (hb : IsDouble b)
    (h : |(v : ℚ) / d| ≤ b) : ∃ x : {q : ℚ // IsDouble q}, |(x : ℚ)| ≤ b ∧
      ((fin v).div (fin d)).add (ofRat (1 / 2)) = ofRat (x + 1 / 2) := by
  obtain ⟨x, hx, -, hle⟩ := exists_ofRat_eq_fin hb h
  have hhalf : ofRat (1 / 2) = fin ⟨1 / 2, by decide +kernel⟩ := ofRat_of_isDouble _
  exact ⟨x, hle, by rw [div_fin, hx, hhalf, add_fin]⟩

/-- The multiple of the step that a value rounds to: small enough to be exact, since a large
step leaves only the multiple zero. -/
theorem exists_floor {k : ℕ} (hk : 0 < k) {v d : {q : ℚ // IsDouble q}} (hd : (d : ℚ) = k)
    (hv : |(v : ℚ)| ≤ 99999) : ∃ n : ℤ,
      (((fin v).div (fin d)).add (ofRat (1 / 2))).floor? = some n ∧
        |n| < 2 ^ 53 ∧ |n * k| < 2 ^ 53 := by
  have hk1 : (1 : ℚ) ≤ k := by exact_mod_cast hk
  have hdiv : |(v : ℚ) / d| = |(v : ℚ)| / k := by rw [abs_div, hd, Nat.abs_cast]
  rcases le_or_gt k (2 ^ 35) with hsmall | hlarge
  · have hb : |(v : ℚ) / d| ≤ (99999 : ℤ) := by
      rw [hdiv]
      exact (div_le_self (abs_nonneg _) hk1).trans (by exact_mod_cast hv)
    obtain ⟨x, hx, hscaled⟩ := exists_scaled (isDouble_intCast (by norm_num)) hb
    have hsum : |(x : ℚ) + 1 / 2| ≤ (100000 : ℤ) := by
      push_cast at hx ⊢
      rw [abs_le] at hx ⊢
      constructor <;> linarith
    obtain ⟨y, hy, hle⟩ := exists_ofRat_le (by norm_num) hsum
    push_cast at hle
    obtain ⟨hlo, hhi⟩ := abs_le.mp hle
    have hn : |⌊(y : ℚ)⌋| ≤ 100000 := by
      rw [abs_le]
      exact ⟨Int.le_floor.mpr (by push_cast; linarith),
        Int.floor_le_iff.mpr (by push_cast; linarith)⟩
    refine ⟨⌊(y : ℚ)⌋, by rw [hscaled, hy, floor?], by omega, ?_⟩
    calc
      |⌊(y : ℚ)⌋ * (k : ℤ)| = |⌊(y : ℚ)⌋| * k := by rw [abs_mul, Nat.abs_cast]
      _ ≤ 100000 * 2 ^ 35 := mul_le_mul hn (by exact_mod_cast hsmall) (by positivity) (by norm_num)
      _ < 2 ^ 53 := by norm_num
  · have hb : |(v : ℚ) / d| ≤ 1 / 4 := by
      have hk35 : (2 ^ 35 : ℚ) ≤ k := by exact_mod_cast hlarge.le
      rw [hdiv, div_le_iff₀ (by linarith)]
      linarith
    obtain ⟨x, hx, hscaled⟩ := exists_scaled (b := 1 / 4) (by decide +kernel) hb
    obtain ⟨hlo, hhi⟩ := abs_le.mp hx
    have hsum : |(x : ℚ) + 1 / 2| ≤ 3 / 4 := abs_le.mpr ⟨by linarith, by linarith⟩
    obtain ⟨y, hy, hnearest, hle⟩ := exists_ofRat_eq_fin (b := 3 / 4) (by decide +kernel) hsum
    have hpos : (1 / 4 : ℚ) ≤ y := by
      have hquarter : Binary64.nearest (1 / 4) = 1 / 4 := by decide +kernel
      rw [hnearest, ← hquarter]
      exact Binary64.nearest_mono (by linarith)
    have hzero : ⌊(y : ℚ)⌋ = 0 := by
      rw [Int.floor_eq_zero_iff]
      exact ⟨by linarith, by linarith [(abs_le.mp hle).2]⟩
    exact ⟨0, by rw [hscaled, hy, floor?, hzero], by norm_num, by norm_num⟩

/-- **Quantized values are multiples of the step.** The floor is an integer however the division
has rounded, and its product with the step is exact. -/
theorem halfUp_isBin {k : ℕ} (hk : IsStep cfg k) {v : PyFloat} (hv : IsGram v) :
    ∃ b, ∃ n : ℤ, halfUp cfg v = .ok b ∧ IsBin b (n * k) := by
  obtain ⟨hpos, d, hstep, hd⟩ := hk
  obtain ⟨v, rfl, hle⟩ := hv
  obtain ⟨n, hfloor, hn, hnk⟩ := exists_floor hpos (hd.trans (Int.cast_natCast k)) hle
  obtain ⟨a, ha, hna⟩ := isBin_ofRat hn
  refine ⟨_, n, ?_, isBin_ofRat hnk⟩
  unfold halfUp
  rw [hstep]
  dsimp only
  rw [hfloor]
  dsimp only
  rw [ha, mul_fin, hna, hd]
  push_cast
  rfl

/-- What a channel keeps while its readings come from the device: the window holds finite values of
at most 99999 grams, and the bin is a multiple of the step. -/
structure ChannelOk (k : ℕ) (st : ChannelState) : Prop where
  window : ∀ x ∈ st.window, IsGram x
  bin : ∀ b, st.prevBin = some b → ∃ n : ℤ, IsBin b (n * k)

/-- **The quantizer returns its bin**, a multiple of the step, and stores it; it does not raise. -/
theorem ChannelOk.quantize {k : ℕ} (hk : IsStep cfg k) (h : ChannelOk k st) {v : PyFloat}
    (hv : IsGram v) : ∃ b, ∃ n : ℤ, ∃ st', st.quantize cfg v = .ok (b, st') ∧ IsBin b (n * k) ∧
      st'.prevBin = some b ∧ st'.window = st.window := by
  unfold ChannelState.quantize
  rw [if_neg hk.not_leB_zero]
  cases hbin : st.prevBin.filter (holdsBin cfg · v) with
  | some b =>
      obtain ⟨hprev, -⟩ := Option.filter_eq_some_iff.mp hbin
      obtain ⟨m, hm⟩ := h.bin b hprev
      exact ⟨b, m, st, rfl, hm, hprev, rfl⟩
  | none =>
      obtain ⟨b, m, hb, hm⟩ := halfUp_isBin hk hv
      exact ⟨b, m, { st with prevBin := some b }, by rw [hb]; rfl, hm, rfl, rfl⟩

/-! ### One reading -/

/-- Restoring a sign keeps a value within its bounds. -/
theorem IsGram.neg {x : PyFloat} (h : IsGram x) : IsGram x.neg := by
  obtain ⟨d, rfl, hle⟩ := h
  exact ⟨⟨-d, d.2.neg⟩, rfl, by simpa using hle⟩

/-- The median is one of the three. -/
theorem median_mem (a b c : PyFloat) : median a b c ∈ [a, b, c] := by
  unfold median
  split_ifs <;> simp

section Closed

variable {P : PyFloat → Prop} (cfg)

/-- The window of the median filter takes the new reading. -/
theorem ChannelState.forall_push (hwindow : ∀ x ∈ st.window, P x) {x : PyFloat} (hx : P x)
    (ts : PyFloat) : ∀ y ∈ st.push cfg x ts, P y := by
  have hall : ∀ y ∈ (if st.fresh cfg ts then st.window else []) ++ [x], P y := by
    intro y hy
    rcases List.mem_append.mp hy with hy | hy
    · split_ifs at hy
      · exact hwindow y hy
      · cases hy
    · rw [List.mem_singleton.mp hy]
      exact hx
  unfold ChannelState.push
  dsimp only
  generalize (if st.fresh cfg ts then st.window else []) ++ [x] = window at hall ⊢
  split_ifs
  · exact fun y hy => hall y (List.mem_of_mem_tail hy)
  · exact hall

/-- The median filter returns a reading and keeps readings. -/
theorem ChannelState.forall_filter (hwindow : ∀ x ∈ st.window, P x) {x : PyFloat} (hx : P x)
    (ts : PyFloat) : P (st.filter cfg x ts).1 ∧ ∀ y ∈ (st.filter cfg x ts).2, P y := by
  unfold ChannelState.filter
  split_ifs
  · have hpush := ChannelState.forall_push cfg hwindow hx ts
    dsimp only
    split
    · rename_i a b c heq
      rw [heq] at hpush
      exact ⟨hpush _ (median_mem a b c), heq ▸ hpush⟩
    · exact ⟨hx, hpush⟩
  · exact ⟨hx, hwindow⟩

/-- Both layers return a reading or its negative, and keep readings: a property of values that is
closed under negation holds of what they return. -/
theorem ChannelState.forall_correct (hneg : ∀ x, P x → P x.neg) (hwindow : ∀ x ∈ st.window, P x)
    {x : PyFloat} (hx : P x) (ts : PyFloat) :
    P (st.correct cfg x ts).1 ∧ ∀ y ∈ (st.correct cfg x ts).2.window, P y := by
  obtain ⟨hvalue, hkept⟩ := ChannelState.forall_filter cfg hwindow hx ts
  refine ⟨?_, hkept⟩
  have hguard : P (st.guard cfg (st.filter cfg x ts).1 ts).1 := by
    unfold ChannelState.guard
    split_ifs
    · exact hneg _ hvalue
    · exact hvalue
    · exact hvalue
  exact hguard

end Closed

/-- Both layers return a finite value and keep the channel. -/
theorem ChannelOk.correct {k : ℕ} (cfg : SanitizeModel) (h : ChannelOk k st) {x : PyFloat}
    (hx : IsGram x) (ts : PyFloat) :
    IsGram (st.correct cfg x ts).1 ∧ ChannelOk k (st.correct cfg x ts).2 := by
  obtain ⟨hvalue, hwindow⟩ :=
    ChannelState.forall_correct cfg (fun _ hx => hx.neg) h.window hx ts
  exact ⟨hvalue, hwindow, h.bin⟩

/-- A reading of the device is a finite value. -/
theorem DeviceReading.isGram_value (r : DeviceReading) : IsGram r.value := by
  obtain ⟨d, hd, -, hle⟩ := r.exists_value_eq_fin
  exact ⟨d, hd, hle⟩

/-- **What becomes of one reading.** The channel stays in order, and the entry that goes out is
the canonical rendering of its bin, or the raw text when the bin is the reading itself. -/
theorem ChannelOk.sanitizeEntry {k : ℕ} (hk : IsStep cfg k) (h : ChannelOk k st)
    (r : DeviceReading) (ts : PyFloat) : ∃ b, ∃ n : ℤ, ∃ st',
      (st.correct cfg r.value ts).2.quantize cfg (st.correct cfg r.value ts).1 = .ok (b, st') ∧
      IoBoard.sanitizeEntry cfg st r.text ts =
        (st', .ok (if b = r.value then r.text else canonical (n * k))) ∧
      ChannelOk k st' ∧ st'.prevBin = some b ∧ IsBin b (n * k) := by
  obtain ⟨hvalue, hcorrect⟩ := h.correct cfg r.isGram_value ts
  obtain ⟨b, n, st', hq, hbin, hprev, hwindow⟩ := hcorrect.quantize hk hvalue
  have heq := hbin.eqB_iff r.isGram_value
  have hok : ChannelOk k st' := by
    refine ⟨hwindow ▸ hcorrect.window, fun b' hb' => ⟨n, ?_⟩⟩
    obtain rfl : b = b' := Option.some.inj (hprev.symm.trans hb')
    exact hbin
  refine ⟨b, n, st', hq, ?_, hok, hprev, hbin⟩
  rw [IoBoard.sanitizeEntry, r.parse_text]
  dsimp only
  rw [hq]
  dsimp only
  by_cases hb : b = r.value
  · rw [if_pos (heq.mpr hb), if_pos hb]
  · rw [if_neg fun h => hb (heq.mp h), if_neg hb, hbin.format]

/-! ### Canonical texts -/

/-- A float is at most one integer. -/
theorem IsBin.unique {x : PyFloat} {m m' : ℤ} (h : IsBin x m) (h' : IsBin x m') : m = m' := by
  obtain ⟨d, rfl, hd⟩ := h
  obtain ⟨d', heq, hd'⟩ := h'
  obtain rfl := fin.inj heq
  exact_mod_cast hd.symm.trans hd'

/-- The texts that are canonical: a sign and five digits, and no minus on a zero. All other texts
of the device differ from the rendering of their own value. -/
def DeviceReading.IsCanonical : DeviceReading → Prop
  | integer negative grams => negative = true → (grams : ℕ) ≠ 0
  | tenths .. => False

/-- The value of a sign and five digits. -/
theorem DeviceReading.isBin_integer (negative : Bool) (grams : Fin 100000) :
    IsBin (integer negative grams).value (if negative then -(grams : ℕ) else (grams : ℕ)) := by
  have hlt : |((grams : ℕ) : ℤ)| < 2 ^ 53 := by
    rw [Nat.abs_cast]
    exact_mod_cast grams.2.trans (by norm_num)
  obtain ⟨d, hd, hdg⟩ := isBin_ofRat hlt
  rw [Int.cast_natCast] at hd
  cases negative with
  | false => exact ⟨d, hd, hdg⟩
  | true =>
      refine ⟨⟨-d, d.2.neg⟩, ?_, ?_⟩
      · exact congrArg PyFloat.neg hd
      · rw [if_pos rfl, Int.cast_neg, ← hdg]

/-- A canonical text is the canonical rendering of its value. -/
theorem DeviceReading.text_eq_canonical {r : DeviceReading} (hc : r.IsCanonical) {m : ℤ}
    (hm : IsBin r.value m) : r.text = canonical m := by
  cases r with
  | tenths => exact hc.elim
  | integer negative grams =>
      obtain rfl := hm.unique (isBin_integer negative grams)
      have hle : (grams : ℕ) ≤ 99999 := Nat.le_of_lt_succ grams.2
      cases negative with
      | false =>
          have hneg : ¬ ((grams : ℕ) : ℤ) < 0 := by omega
          simp [text, canonical, hle, hneg]
      | true =>
          have hpos : 0 < (grams : ℕ) := Nat.pos_of_ne_zero (hc rfl)
          simp [text, canonical, hle, hpos]

/-- Any other text is not. -/
theorem DeviceReading.text_ne_canonical {r : DeviceReading} (hc : ¬ r.IsCanonical) {m : ℤ}
    (hm : IsBin r.value m) : r.text ≠ canonical m := by
  cases r with
  | tenths negative grams tenth =>
      intro h
      have hmem : '.' ∈ canonical m := by
        rw [← h, text]
        simp
      have hne : ∀ b, Literal.signChar b ≠ '.' := by decide
      rcases List.mem_cons.mp hmem with hsign | hdigit
      · exact absurd hsign.symm (hne _)
      · exact absurd (Literal.isDigit_of_mem_decimal hdigit) (by decide)
  | integer negative grams =>
      obtain ⟨rfl, hzero⟩ : negative = true ∧ (grams : ℕ) = 0 := by
        simpa [IsCanonical] using hc
      obtain rfl := hm.unique (isBin_integer true grams)
      simp [text, canonical, hzero, Literal.signChar]

/-- A canonical rendering matches the pattern of the health check, whatever the integer. -/
theorem matchesLoadcellPattern_canonical (m : ℤ) :
    matchesLoadcellPattern (canonical m) = true := by
  have hsign : Literal.signChar (decide (m < 0)) = '+' ∨
      Literal.signChar (decide (m < 0)) = '-' := by
    cases decide (m < 0) <;> simp [Literal.signChar]
  have hdigits : (Literal.decimal 5 (min m.natAbs 99999)).all Char.isDigit = true :=
    List.all_eq_true.mpr fun c hc => Literal.isDigit_of_mem_decimal hc
  rw [canonical, matchesLoadcellPattern, hdigits, Literal.length_decimal]
  simpa using hsign

/-- A canonical rendering is an integer. -/
theorem exists_toInt_canonical (m : ℤ) : ∃ n, Literal.toInt (canonical m) = some n := by
  have hlt : min m.natAbs 99999 < 10 ^ (4 + 1) := by omega
  exact ⟨_, Literal.toInt_integer hlt _⟩

/-! ### Frames of the device -/

/-- A frame of entries of the device, as `sanitize` gets it. -/
def Frame.ofEntries (entries : List DeviceEntry) (now : PyFloat) : Frame where
  values := entries.map DeviceEntry.text
  now := now

/-- An entry that is no reading is an error marker. -/
theorem DeviceEntry.reading_or_marker (e : DeviceEntry) :
    (∃ r, e = reading r) ∨ e.text ∈ errorValues := by
  cases e with
  | reading r => exact .inl ⟨r, rfl⟩
  | noComms | outOfRange => exact .inr (by decide)

/-- Every entry of the device is sanitized, and keeps its channel in order. -/
theorem ChannelOk.sanitizeEntry_entry {k : ℕ} (hk : IsStep cfg k) (h : ChannelOk k st)
    (e : DeviceEntry) (ts : PyFloat) : ∃ st' out,
      IoBoard.sanitizeEntry cfg st e.text ts = (st', .ok out) ∧ ChannelOk k st' := by
  obtain ⟨r, rfl⟩ | hmarker := e.reading_or_marker
  · obtain ⟨b, n, st', -, hentry, hok, -⟩ := h.sanitizeEntry hk r ts
    exact ⟨st', _, hentry, hok⟩
  · refine ⟨st, e.text, ?_, h⟩
    rw [IoBoard.sanitizeEntry, parse, if_pos hmarker]

/-- **Frames of the device are sanitized entry by entry**, and none of them raises. So the
channels can be looked at one by one. -/
theorem sanitizeEntries_entries {k : ℕ} (hk : IsStep cfg k) (ts : PyFloat)
    {sts : List ChannelState} (hok : ∀ st ∈ sts, ChannelOk k st) (entries : List DeviceEntry) :
    ∃ sts' out, sanitizeEntries cfg ts sts (entries.map DeviceEntry.text) = (sts', .ok out) ∧
      (∀ st ∈ sts', ChannelOk k st) ∧ out.length = entries.length ∧
      ∀ (j : ℕ) (st : ChannelState) (e : DeviceEntry), sts[j]? = some st →
        entries[j]? = some e → ∃ st' o,
        sanitizeEntry cfg st e.text ts = (st', .ok o) ∧ sts'[j]? = some st' ∧
          out[j]? = some o := by
  have hentry : ∀ st, ChannelOk k st → ∀ raw ∈ entries.map DeviceEntry.text,
      ∃ st' o, sanitizeEntry cfg st raw ts = (st', .ok o) ∧ ChannelOk k st' := by
    intro st hst raw hraw
    obtain ⟨e, -, rfl⟩ := List.mem_map.mp hraw
    exact hst.sanitizeEntry_entry hk e ts
  obtain ⟨sts', out, hrun, hok', hlen, hget⟩ := sanitizeEntries_rule (ChannelOk k) hok hentry
  refine ⟨sts', out, hrun, hok', by simpa using hlen, fun j st e hst he => ?_⟩
  exact (hget j e.text (by rw [List.getElem?_map, he, Option.map_some])).1 st hst

/-- The sanitizer of `config` after some frames of the device, from a fresh one on. -/
def afterFrames (config : SanitizeModel) (n : ℕ) (frames : List (List DeviceEntry × PyFloat)) :
    LoadcellSanitizer :=
  (LoadcellSanitizer.new config n).run (frames.map fun f => Frame.ofEntries f.1 f.2)

/-- The channels stay in order over any frames of the device. -/
theorem channelOk_run {k : ℕ} (hk : IsStep cfg k) (n : ℕ)
    (frames : List (List DeviceEntry × PyFloat)) :
    ∀ st ∈ (afterFrames cfg n frames).channels, ChannelOk k st := by
  induction frames using List.reverseRecOn with
  | nil =>
      intro st hst
      obtain rfl := List.eq_of_mem_replicate hst
      exact ⟨nofun, nofun⟩
  | append_singleton frames f ih =>
      rw [afterFrames, List.map_append, List.map_singleton,
        LoadcellSanitizer.run_append_singleton]
      obtain ⟨sts', out, hrun, hok, -⟩ := sanitizeEntries_entries hk f.2 ih f.1
      have hconfig := (LoadcellSanitizer.new cfg n).run_config
        (frames.map fun f => Frame.ofEntries f.1 f.2)
      rw [LoadcellSanitizer.sanitize, hconfig]
      intro st hst
      have hst' : st ∈ (sanitizeEntries cfg f.2 _ (f.1.map DeviceEntry.text)).1 := hst
      rw [afterFrames] at hrun
      rw [hrun] at hst'
      exact hok st hst'

/-- **What becomes of a frame of the device** after any others: markers come out as they are,
and a reading as the canonical rendering of its bin, or as it went in when it is the bin. -/
theorem exists_sanitize_entries {k : ℕ} (hk : IsStep cfg k) {n : ℕ}
    (frames : List (List DeviceEntry × PyFloat)) (entries : List DeviceEntry) (now : PyFloat)
    (hlen : entries.length ≤ n) : ∃ s' out,
      (afterFrames cfg n frames).sanitize (entries.map DeviceEntry.text) now = (s', .ok out) ∧
      out.length = entries.length ∧
      (∀ (j : ℕ) (e : DeviceEntry), entries[j]? = some e → e.text ∈ errorValues →
        out[j]? = some e.text) ∧
      ∀ (j : ℕ) (r : DeviceReading), entries[j]? = some (.reading r) →
        ∃ st b, ∃ m : ℤ, ∃ st', (afterFrames cfg n frames).channels[j]? = some st ∧
          (st.correct cfg r.value now).2.quantize cfg (st.correct cfg r.value now).1 =
            .ok (b, st') ∧ s'.channels[j]? = some st' ∧ st'.prevBin = some b ∧
          IsBin b (m * k) ∧
          out[j]? = some (if b = r.value then r.text else canonical (m * k)) := by
  have hok := channelOk_run hk n frames
  have hsize : entries.length ≤ (afterFrames cfg n frames).channels.length := by
    simpa [afterFrames, LoadcellSanitizer.new] using hlen
  have hconfig : (afterFrames cfg n frames).config = cfg := LoadcellSanitizer.run_config ..
  generalize afterFrames cfg n frames = s at *
  obtain ⟨sts', out, hrun, -, hout, hget⟩ := sanitizeEntries_entries hk now hok entries
  have hchannel : ∀ (j : ℕ) (e : DeviceEntry), entries[j]? = some e →
      ∃ st ∈ s.channels, s.channels[j]? = some st := by
    intro j e he
    have hlt : j < s.channels.length := (List.getElem?_eq_some_iff.mp he).1.trans_le hsize
    exact ⟨_, List.getElem_mem hlt, List.getElem?_eq_getElem hlt⟩
  refine ⟨{ s with channels := sts' }, out, ?_, hout, fun j e he hmark => ?_, fun j r hr => ?_⟩
  · rw [LoadcellSanitizer.sanitize, hconfig, hrun]
  · obtain ⟨st, -, hst⟩ := hchannel j e he
    obtain ⟨st', o, hstep, -, ho⟩ := hget j _ _ hst he
    rw [sanitizeEntry, parse, if_pos hmark] at hstep
    obtain ⟨-, ho'⟩ := Prod.mk.inj hstep
    rw [ho, ← Except.ok.inj ho']
  · obtain ⟨st, hmem, hst⟩ := hchannel j _ hr
    obtain ⟨st', o, hstep, hst', ho⟩ := hget j _ _ hst hr
    obtain ⟨b, m, st'', hq, hstep', -, hprev, hbin⟩ := (hok st hmem).sanitizeEntry hk r now
    obtain ⟨rfl, ho'⟩ := Prod.mk.inj (hstep.symm.trans hstep')
    exact ⟨st, b, m, st', hst, hq, hst', hprev, hbin, ho.trans (congrArg some (Except.ok.inj ho'))⟩

/-- The default step is five grams. -/
theorem isStep_default : IsStep {} 5 :=
  ⟨by norm_num, isBin_ofRat (m := 5) (by norm_num)⟩

end IoBoard
