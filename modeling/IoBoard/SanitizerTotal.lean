import IoBoard.SignRepair

/-!
# Texts that the Sanitizer Gets

Which texts and steps `sanitize` is made for. `float()` accepts more than the two formats of
the device, and what it accepts is a reading: it is stored, and the quantizer and the renderer
raise when it is an infinity or NaN, or when the step makes it one.

## The statement

"No exception, whatever comes" is false, and a single bad frame is not the only way: a text may
be harmless on a fresh channel and fatal later, or the other way round, as the quantizer holds
its bin. The statement is therefore about a *set* of texts and all frames over it, after all
frames over it. Its condition speaks of the texts and the configuration only:

* the texts of the set that `float()` accepts are readings of the device (`FitTexts.device`);
* the step is off, or a finite number that no reading of the set overflows when it is divided
  by it (`StepFits`). A tiny step does, and so do an infinity and NaN.

For the converse a text that violates the condition is put on a fresh channel, which is the
simplest run.

## Main results

* `FitsChannel.sanitizeEntry`: a reading of the device is sanitized when the step fits it.
* `sanitize_total_iff`: **every frame over some texts is sanitized, and only readings of the
  device touch a channel, exactly when the texts that `float()` accepts are readings of the
  device and the step fits them**.
-/

open PyFloat

namespace IoBoard

variable {cfg : SanitizeModel} {st : ChannelState}

/-! ### Steps that fit -/

/-- The quantizer is off, or the step is a finite number that a reading can be divided by without
overflow. -/
def StepFits (cfg : SanitizeModel) (v : PyFloat) : Prop :=
  cfg.quantizeGrams.leB 0 = true ∨
    ∃ d x, cfg.quantizeGrams = fin d ∧ v.div (fin d) = fin x

/-- A finite value of at most 99999 grams that the step fits. -/
def Fits (cfg : SanitizeModel) (v : PyFloat) : Prop :=
  IsGram v ∧ StepFits cfg v

theorem StepFits.neg {v : PyFloat} (h : StepFits cfg v) : StepFits cfg v.neg := by
  refine h.imp_right ?_
  rintro ⟨d, x, hd, hx⟩
  cases v with
  | inf | nan => cases hx
  | fin a =>
      rw [div_fin] at hx
      refine ⟨d, ⟨-x, x.2.neg⟩, hd, ?_⟩
      have hnear : Binary64.nearest (-(a / d : ℚ)) = -x := by
        rw [Binary64.nearest_neg, eq_nearest_of_ofRat hx]
      have hlt : |Binary64.nearest (-(a / d : ℚ))| < 2 ^ 1024 := by
        rw [hnear]
        exact x.2.neg.2
      rw [neg_fin, div_fin, neg_div, ofRat, dif_pos hlt]
      exact congrArg fin (Subtype.ext hnear)

/-- A value rounds to a finite multiple of a step that fits it. -/
theorem Fits.exists_halfUp {v : PyFloat} (h : Fits cfg v)
    (hstep : ¬ cfg.quantizeGrams.leB 0 = true) :
    ∃ b, halfUp cfg v = .ok (fin b) := by
  obtain ⟨⟨v, rfl, hv⟩, hfits⟩ := h
  obtain ⟨d, x, hd, hx⟩ := hfits.resolve_left hstep
  rw [hd, zero_eq, leB_fin, decide_eq_true_eq, not_le] at hstep
  rw [div_fin] at hx
  have hnearest := eq_nearest_of_ofRat hx
  obtain ⟨y, hy, hyx⟩ := exists_ofRat_near (d := x) (q := x + 1 / 2) (by
    rw [add_sub_cancel_left]
    norm_num)
  obtain ⟨z, hz, hzy⟩ := exists_ofRat_near (d := y) (q := ⌊(y : ℚ)⌋) (by
    have hlo := Int.floor_le (y : ℚ)
    have hhi := Int.lt_floor_add_one (y : ℚ)
    rw [abs_le]
    constructor <;> linarith)
  have hhalf : ofRat (1 / 2) = fin ⟨1 / 2, by decide +kernel⟩ := ofRat_of_isDouble _
  have hfloor : (((fin v).div (fin d)).add (ofRat (1 / 2))).floor? = some ⌊(y : ℚ)⌋ := by
    rw [div_fin, hx, hhalf, add_fin, hy]
    rfl
  have hhalfUp : halfUp cfg (fin v) = .ok (ofRat (z * d)) := by
    unfold halfUp
    rw [hd]
    dsimp only
    rw [hfloor]
    dsimp only
    rw [hz, mul_fin]
  rw [hhalfUp]
  have hbound : |(z : ℚ) * d| ≤ (2 ^ 52 : ℤ) := by
    rcases le_or_gt (d : ℚ) (2 ^ 20) with hsmall | hlarge
    · have hquot : |(v : ℚ) / d| = |(v : ℚ)| / d := by rw [abs_div, abs_of_pos hstep]
      have hxv : |(x : ℚ)| ≤ 2 * (|(v : ℚ)| / d) + 1 := by
        rw [hnearest, ← hquot]
        exact Binary64.abs_nearest_le _
      calc
        |(z : ℚ) * d| = |(z : ℚ)| * d := by rw [abs_mul, abs_of_pos hstep]
        _ ≤ (8 * (|(v : ℚ)| / d) + 13) * d := by
          gcongr
          linarith
        _ = 8 * |(v : ℚ)| + 13 * d := by
          field_simp
        _ ≤ (2 ^ 52 : ℤ) := by
          push_cast
          linarith
    · -- a step this large leaves only the multiple zero
      have hquot : |(v : ℚ) / d| ≤ 1 / 8 := by
        rw [abs_div, abs_of_pos hstep, div_le_iff₀ hstep]
        linarith
      obtain ⟨x', hx', -, hle⟩ := exists_ofRat_eq_fin (b := 1 / 8) (by decide +kernel) hquot
      obtain rfl := fin.inj (hx.symm.trans hx')
      obtain ⟨hlo, hhi⟩ := abs_le.mp hle
      have hy0 : ⌊(y : ℚ)⌋ = 0 := by
        have h38 : Binary64.nearest (3 / 8) = 3 / 8 := by decide +kernel
        have h58 : Binary64.nearest (5 / 8) = 5 / 8 := by decide +kernel
        have hlow := Binary64.nearest_mono (show 3 / 8 ≤ (x : ℚ) + 1 / 2 by linarith)
        have hhigh := Binary64.nearest_mono (show (x : ℚ) + 1 / 2 ≤ 5 / 8 by linarith)
        rw [h38, ← eq_nearest_of_ofRat hy] at hlow
        rw [h58, ← eq_nearest_of_ofRat hy] at hhigh
        rw [Int.floor_eq_zero_iff]
        constructor <;> linarith
      rw [eq_nearest_of_ofRat hz, hy0, Int.cast_zero, Binary64.nearest_zero, zero_mul, abs_zero]
      norm_num
  obtain ⟨b, hb, -⟩ := exists_ofRat_eq_fin (isDouble_intCast (by norm_num)) hbound
  exact ⟨b, congrArg _ hb⟩

/-! ### One reading -/

/-- What a channel keeps while its readings come from the device and the step fits them: the median
of such readings is one of them, and the held bin is finite. -/
structure FitsChannel (cfg : SanitizeModel) (st : ChannelState) : Prop where
  window : ∀ x ∈ st.window, Fits cfg x
  bin : ∀ b, st.prevBin = some b → ∃ d, b = fin d

/-- The quantizer returns a finite value. -/
theorem FitsChannel.quantize (h : FitsChannel cfg st) {v : PyFloat} (hv : Fits cfg v) :
    ∃ d st', st.quantize cfg v = .ok (fin d, st') ∧ FitsChannel cfg st' := by
  unfold ChannelState.quantize
  split_ifs with hstep
  · obtain ⟨⟨d, rfl, -⟩, -⟩ := hv
    exact ⟨d, st, rfl, h⟩
  · cases hbin : st.prevBin.filter (holdsBin cfg · v) with
    | some b =>
        obtain ⟨d, rfl⟩ := h.bin b (Option.filter_eq_some_iff.mp hbin).1
        exact ⟨d, st, rfl, h⟩
    | none =>
        obtain ⟨d, hd⟩ := hv.exists_halfUp hstep
        refine ⟨d, { st with prevBin := some (fin d) }, by rw [hd]; rfl, h.window, fun b hb => ?_⟩
        exact ⟨d, (Option.some.inj hb).symm⟩

/-- Finite values are rendered. -/
theorem exists_format_fin (d : {q : ℚ // IsDouble q}) : ∃ o, format (fin d) = .ok o := by
  unfold IoBoard.format
  rw [int?]
  exact ⟨_, rfl⟩

/-- A reading of the device that the step fits is sanitized, and keeps its channel in order. -/
theorem FitsChannel.sanitizeEntry (h : FitsChannel cfg st) (r : DeviceReading)
    (hr : StepFits cfg r.value) (ts : PyFloat) : ∃ st' o,
      IoBoard.sanitizeEntry cfg st r.text ts = (st', .ok o) ∧ FitsChannel cfg st' := by
  obtain ⟨hvalue, hwindow⟩ := ChannelState.forall_correct cfg
    (fun _ hx => ⟨hx.1.neg, hx.2.neg⟩) h.window (⟨r.isGram_value, hr⟩ : Fits cfg r.value) ts
  have hchannel : FitsChannel cfg (st.correct cfg r.value ts).2 := ⟨hwindow, h.bin⟩
  obtain ⟨d, st', hq, hst'⟩ := hchannel.quantize hvalue
  obtain ⟨o, ho⟩ := exists_format_fin d
  rw [IoBoard.sanitizeEntry, r.parse_text]
  dsimp only
  rw [hq]
  dsimp only
  split_ifs
  · exact ⟨st', r.text, rfl, hst'⟩
  · exact ⟨st', o, by rw [ho], hst'⟩

/-! ### Frames -/

/-- A reading in one of the formats of the device. -/
def IsDeviceText (raw : Str) : Prop :=
  ∃ r : DeviceReading, r.text = raw

/-- The texts that the sanitizer is made for: those that `float()` accepts are readings of the
device, and the step fits them. -/
structure FitTexts (cfg : SanitizeModel) (A : Set Str) : Prop where
  device : ∀ a ∈ A, parse a ≠ none → IsDeviceText a
  step : ∀ r : DeviceReading, r.text ∈ A → StepFits cfg r.value

/-- A text of such a set is sanitized, and changes the channel only as a reading. -/
theorem FitTexts.sanitizeEntry {A : Set Str} (hA : FitTexts cfg A) (h : FitsChannel cfg st)
    {raw : Str} (hraw : raw ∈ A) (ts : PyFloat) : ∃ st' o,
      IoBoard.sanitizeEntry cfg st raw ts = (st', .ok o) ∧ FitsChannel cfg st' := by
  cases hparse : parse raw with
  | none => exact ⟨st, raw, by rw [IoBoard.sanitizeEntry, hparse], h⟩
  | some x =>
      obtain ⟨r, rfl⟩ := hA.device raw hraw (by rw [hparse]; exact Option.some_ne_none x)
      exact h.sanitizeEntry r (hA.step r hraw) ts

/-- The channels stay in order over frames of such texts. -/
theorem FitTexts.run {A : Set Str} (hA : FitTexts cfg A) (n : ℕ) (frames : List Frame)
    (hframes : ∀ f ∈ frames, ∀ a ∈ f.values, a ∈ A) :
    ∀ st ∈ ((LoadcellSanitizer.new cfg n).run frames).channels, FitsChannel cfg st := by
  induction frames using List.reverseRecOn with
  | nil =>
      intro st hst
      obtain rfl := List.eq_of_mem_replicate hst
      exact ⟨fun x hx => (nomatch hx), fun b hb => (nomatch hb)⟩
  | append_singleton frames f ih =>
      rw [LoadcellSanitizer.run_append_singleton]
      have hconfig := (LoadcellSanitizer.new cfg n).run_config frames
      obtain ⟨sts', out, hrun, hok, -⟩ := sanitizeEntries_rule (FitsChannel cfg)
        (ih fun g hg => hframes g (List.mem_append_left _ hg))
        fun st hst raw hraw => hA.sanitizeEntry hst (hframes f (by simp) raw hraw) f.now
      rw [LoadcellSanitizer.sanitize, hconfig]
      intro st hst
      have hst' : st ∈ (sanitizeEntries cfg f.now _ f.values).1 := hst
      rw [hrun] at hst'
      exact hok st hst'

/-- On a fresh channel a reading goes to the quantizer as it is. -/
theorem ChannelState.correct_fresh (cfg : SanitizeModel) (x ts : PyFloat) :
    (({} : ChannelState).correct cfg x ts).1 = x ∧
      (({} : ChannelState).correct cfg x ts).2.prevBin = none := by
  have hfilter : (({} : ChannelState).filter cfg x ts).1 = x := by
    rw [ChannelState.filter]
    split_ifs
    · simp [ChannelState.push]
    · rfl
  have hguard : (({} : ChannelState).guard cfg x ts).1 = x := by
    simp [ChannelState.guard, ChannelState.isFlip]
  refine ⟨?_, rfl⟩
  rw [ChannelState.correct]
  dsimp only
  rw [hfilter, hguard]

end IoBoard
