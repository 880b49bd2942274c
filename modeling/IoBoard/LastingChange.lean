import IoBoard.DetectorRuns
import IoBoard.StepResponse

/-!
# Lasting Changes

Whether a reading that moves from one constant to another is ever reported. The detector
compares each frame with the one before, and a filter spreads the step over many frames, each
with its share of it. A step that is spread widely enough is never reported, however large it
is against the threshold.

## Exact arithmetic, and one run on floats

In exact arithmetic the question has an exact answer, in terms of the settings and of the step
alone: the comparison is with raw values, or the largest share of the step exceeds the
threshold. The largest share is that of `LoadcellFilter.PeakShare`; it depends on the state of
the filter only where a Kalman filter's covariance has not come to rest.

The program runs on binary64 floats, and this answer is not the program's: rounding moves the
boundary, and `IoBoard.FloatChange` says how far. That some lasting changes are not reported is
shown here for floats too, by a run that is followed to its end: the smoothed value comes to
rest after finitely many frames, and none of the frames up to there is a change.

## Main results

* `LoadcellChangeDetector.reported_iff`: **a lasting change is reported if and only if the
  thresholds are compared with raw values, or the largest share of the step exceeds the
  threshold**.
* `LoadcellChangeDetector.not_lastingChangesReported`: a smoothed step that is never reported,
  on binary64 floats.
-/

open PyNumber Relaxation

namespace IoBoard

/-! ### Exact arithmetic -/

namespace LoadcellChangeDetector

variable {d : LoadcellChangeDetector ℚ} {i : ℕ} {a b T : ℚ} {ch : DetectorChannel ℚ}
  {frames : ℕ → List Str}

/-- **Every detector of the service is sound**: its parameters are clamped, and it has ten
channels. -/
theorem Reached.sound (h : d.Reached) : d.Sound LoadcellFilter.Tuned :=
  h.reachedBy.sound LoadcellFilter.steady_tuned fun method alpha q r _ _ =>
    LoadcellFilter.tuned_createFilter method alpha q r

/-- What the frame after `n` frames compares, as a part of the step. -/
theorem distance_filtered (hch : ch.Sound LoadcellFilter.Tuned) (ha : ch.previousFiltered = some a)
    (n : ℕ) :
    distance .filtered ch.filter a b n = share (ch.filter.gainSeq b) n * |b - a| := by
  have hholds := hch.holds a ha
  rw [distance, LoadcellFilter.values_eq hholds, LoadcellFilter.values_eq hholds]
  exact abs_approach_sub (hch.filter.isGain b) a b n

/-- **A lasting change is reported if and only if the thresholds are compared with raw values,
or the largest share of the step exceeds the threshold.** -/
theorem reported_iff (hd : d.Reached) (hch : d.Settled i ch a) (hT : d.thresholds[i]? = some T)
    (hframes : ReadsAlways frames i b) (hstep : T < |b - a|) :
    ∃ s, ch.filter.PeakShare s ∧
      (d.Reported frames i ↔ d.thresholdScope = .raw ∨ T < s * |b - a|) := by
  have hsound := hd.sound.sound ch (List.mem_of_getElem? hch.channel)
  have hsteady := LoadcellFilter.steady_tuned
  have hreadings : ∀ n, ReadsOnly (fun _ : ℚ => True) (frames n) := fun _ _ _ _ _ => trivial
  obtain ⟨s, hs⟩ := LoadcellFilter.exists_peakShare hsound.filter
  refine ⟨s, hs, ?_⟩
  obtain ⟨⟨N, hN⟩, hle⟩ := hs.isGreatest hsound.filter (hsound.holds a hch.filtered) b
  have hat := reported_at_iff hsteady hd.sound hch hT hframes hreadings
  cases hscope : d.thresholdScope with
  | raw =>
      have hraw := reported_of_raw hsteady hd.sound hch hT hframes hreadings hscope
        ((ltB_rat _ _).mpr hstep)
      exact ⟨fun _ => .inl rfl, fun _ => hraw⟩
  | filtered =>
      rw [hscope] at hat
      constructor
      · rintro ⟨n, hn⟩
        have hlt := (ltB_rat _ _).mp ((hat n).mp hn)
        rw [distance_filtered hsound hch.filtered] at hlt
        exact .inr (hlt.trans_le
          (mul_le_mul_of_nonneg_right (hle ⟨n, rfl⟩) (abs_nonneg (b - a))))
      · rintro (hraw | hlt)
        · exact absurd hraw (by simp)
        · refine ⟨N, (hat N).mpr ((ltB_rat _ _).mpr ?_)⟩
          rw [distance_filtered hsound hch.filtered, hN]
          exact hlt

/-! ### A step that halves -/

section Halved

variable (F : Type*) [PyNumber F]

/-- Ten channels with smoothing by one half and a threshold of 30 g, settled at 10000 g. The numbers
are small enough to be exact in any number type. -/
def halved : LoadcellChangeDetector F :=
  ((new .exponential (List.replicate 10 (ofRat 30)) .filtered (ofRat (1 / 2)) (ofRat 0)
    (ofRat 0)).process (List.replicate 10 "+10000".toList)).1

theorem reached_halved : (halved F).Reached :=
  .process _ (.new (List.length_replicate ..))

/-- Every frame reads 10050 g on all channels. -/
def steppedFrames : ℕ → List Str :=
  fun _ => List.replicate 10 "+10050".toList

/-- Every lasting change of a settled channel is reported: any detector of the service, any channel,
any step above a threshold that is not negative. -/
def LastingChangesReported : Prop :=
  ∀ (d : LoadcellChangeDetector F) (i : ℕ) (ch : DetectorChannel F) (a b T : F)
    (frames : ℕ → List Str), d.Reached → d.Settled i ch a → d.thresholds[i]? = some T →
      leB (ofRat 0) T = true → ltB T (abs (sub b a)) = true → ReadsAlways frames i b →
        d.Reported frames i

end Halved

end LoadcellChangeDetector

deriving instance DecidableEq for ExponentialSmoothingFilter, KalmanFilter, LoadcellFilter,
  DetectorChannel

/-! ### Floats -/

/-- Alike channels stay alike. -/
theorem processChannels_replicate {F : Type*} [PyNumber F] {scope : ThresholdScope} {threshold : F}
    {ch ch' : DetectorChannel F} {raw : Str} {result : ChannelResult F}
    (h : ch.process scope (some threshold) raw = (ch', .ok result)) (n : ℕ) :
    processChannels scope (List.replicate n threshold) (List.replicate n ch)
      (List.replicate n raw) = (List.replicate n ch', .ok (List.replicate n result)) := by
  induction n with
  | zero => rfl
  | succ n ih =>
      rw [List.replicate_succ, List.replicate_succ, List.replicate_succ, processChannels,
        List.head?_cons, h]
      dsimp only
      rw [List.tail_cons, ih]
      rfl

namespace DetectorChannel

/-- The next reading of 10050 g is processed without a change. -/
def QuietAt (ch : DetectorChannel PyFloat) : Prop :=
  ((ch.process .filtered (some (ofRat 30)) "+10050".toList).2.toOption.map
    fun result => result.change.isSome) = some false

/-- The channel after the next reading of 10050 g. -/
def stepped (ch : DetectorChannel PyFloat) : DetectorChannel PyFloat :=
  (ch.process .filtered (some (ofRat 30)) "+10050".toList).1

/-- Quiet at the next `n` readings, and at rest after them: a further reading changes nothing,
so the channel is quiet for ever. -/
def Quiet : ℕ → DetectorChannel PyFloat → Prop
  | 0, ch => ch.QuietAt ∧ ch.stepped = ch
  | n + 1, ch => ch.QuietAt ∧ Quiet n ch.stepped

instance (ch : DetectorChannel PyFloat) : Decidable ch.QuietAt :=
  inferInstanceAs (Decidable (_ = _))

instance decidableQuiet : (n : ℕ) → (ch : DetectorChannel PyFloat) → Decidable (Quiet n ch)
  | 0, ch => inferInstanceAs (Decidable (ch.QuietAt ∧ ch.stepped = ch))
  | n + 1, ch =>
      haveI := decidableQuiet n ch.stepped
      inferInstanceAs (Decidable (ch.QuietAt ∧ Quiet n ch.stepped))

/-- A channel that comes to rest is quiet, and so is the one after it. -/
theorem Quiet.step {n : ℕ} {ch : DetectorChannel PyFloat} (h : Quiet n ch) :
    ch.QuietAt ∧ ∃ m, Quiet m ch.stepped := by
  cases n with
  | zero => exact ⟨h.1, 0, h.2.symm ▸ h⟩
  | succ n => exact ⟨h.1, n, h.2⟩

theorem QuietAt.exists_process {ch : DetectorChannel PyFloat} (h : ch.QuietAt) : ∃ result,
    ch.process .filtered (some (ofRat 30)) "+10050".toList = (ch.stepped, .ok result) ∧
      result.change = none := by
  cases hprocess : (ch.process .filtered (some (ofRat 30)) "+10050".toList).2 with
  | error e =>
      rw [QuietAt, hprocess] at h
      cases h
  | ok result =>
      rw [QuietAt, hprocess] at h
      have hnone : result.change.isSome = false := Option.some.inj h
      exact ⟨result, Prod.ext rfl hprocess, by simpa using hnone⟩

end DetectorChannel

namespace LoadcellChangeDetector

/-- Ten alike channels that come to rest without a change. How long it takes is not part of it,
so one more frame keeps it. -/
structure AllQuiet (d : LoadcellChangeDetector PyFloat) : Prop where
  scope : d.thresholdScope = .filtered
  thresholds : d.thresholds = List.replicate 10 (ofRat 30)
  channels : ∃ ch n, d.channels = List.replicate 10 ch ∧ DetectorChannel.Quiet n ch

theorem AllQuiet.process {d : LoadcellChangeDetector PyFloat} (h : d.AllQuiet) :
    (∀ p, (d.process (List.replicate 10 "+10050".toList)).2 = .ok p → p.changedIndices = []) ∧
      (d.process (List.replicate 10 "+10050".toList)).1.AllQuiet := by
  obtain ⟨ch, n, hchs, hquiet⟩ := h.channels
  obtain ⟨hat, m, hstepped⟩ := hquiet.step
  obtain ⟨result, hresult, hnone⟩ := hat.exists_process
  have hframe := processChannels_replicate hresult 10
  rw [← h.scope, ← h.thresholds, ← hchs] at hframe
  rw [LoadcellChangeDetector.process, if_neg (by simp)]
  dsimp only
  rw [hframe]
  refine ⟨fun p hp => ?_, h.scope, h.thresholds, ch.stepped, m, rfl, hstepped⟩
  obtain rfl := Except.ok.inj hp
  rw [Processed.changedIndices, List.map_eq_nil_iff, List.filter_eq_nil_iff]
  rintro ⟨result', i⟩ hmem
  have heq : result' = result := List.eq_of_mem_replicate (List.fst_mem_of_mem_zipIdx hmem)
  simp [heq, hnone]

theorem AllQuiet.afterFrames {d : LoadcellChangeDetector PyFloat} (h : d.AllQuiet) (n : ℕ) :
    (d.afterFrames steppedFrames n).AllQuiet := by
  induction n with
  | zero => exact h
  | succ n ih =>
      rw [afterFrames_succ]
      exact ih.process.2

/-- The channels of the settled detector. -/
def halvedChannel : DetectorChannel PyFloat :=
  ⟨.exponential ⟨.ofRat (1 / 2), some (.ofRat 10000)⟩, some (.ofRat 10000), some (.ofRat 10000)⟩

theorem channels_halved : (halved PyFloat).channels = List.replicate 10 halvedChannel := by
  decide +kernel

theorem allQuiet_halved : (halved PyFloat).AllQuiet where
  scope := rfl
  thresholds := rfl
  channels := ⟨halvedChannel, 46, channels_halved, by decide +kernel⟩

/-- The step of 50 g halves from frame to frame, and no part of it exceeds the threshold. -/
theorem not_lastingChangesReported : ¬ LastingChangesReported PyFloat := by
  intro h
  have hreads : ReadsAlways steppedFrames 0 (PyFloat.ofRat 10050) :=
    fun _ => ⟨List.length_replicate .., "+10050".toList, rfl, by decide +kernel⟩
  have hsettled : (halved PyFloat).Settled 0 halvedChannel (.ofRat 10000) :=
    ⟨by rw [channels_halved]; rfl, rfl, rfl⟩
  obtain ⟨n, p, hp, hmem⟩ := h (halved PyFloat) 0 _ _ _ (.ofRat 30) _ (reached_halved PyFloat)
    hsettled (by decide +kernel) (by decide +kernel) (by decide +kernel) hreads
  rw [(allQuiet_halved.afterFrames n).process.1 p hp] at hmem
  cases hmem

end LoadcellChangeDetector

end IoBoard
