import IoBoard.FloatFilters
import IoBoard.LastingChange

/-!
# Lasting Changes on Floats

When a lasting change is reported by the detector as it runs, on binary64 floats.

The exact answer of `IoBoard.LastingChange` compares the largest share of the step with the
threshold. On floats both sides of this comparison are off: a frame compares values that have
been rounded on the way, and the difference of the two is rounded once more. The sum of these
errors is the margin of the filter (`LoadcellFilter.margin`), and within it the outcome hangs on
single bits. So the answer is in three parts:

* with raw values, and without a filter, a lasting change is always reported;
* it is reported when the largest share of the step exceeds the threshold by more than the
  margin;
* it is not reported when the largest share, with the margin added, does not exceed it.

All of it is about detectors as the service makes them, after any frames and resets, with
readings and noise covariances that do not overflow; the other channels are arbitrary.

## Main results

* `LoadcellChangeDetector.ReachedBy.contained`: **no frame of such a detector raises**.
* `LoadcellChangeDetector.reported_up_to_margin`: **when a lasting change is reported**.
-/

namespace IoBoard

open Relaxation PyFloat

namespace LoadcellChangeDetector

variable {d : LoadcellChangeDetector PyFloat} {e i : ℕ} {a b T : {q : ℚ // IsDouble q}}
  {ch : DetectorChannel PyFloat} {frames : ℕ → List Str}

/-- **No frame of such a detector raises**: all its filters are contained, and every channel has its
threshold. -/
theorem ReachedBy.contained (he : e ≤ 1000) (h : d.ReachedBy BoundedNoise (BoundedFloat e)) :
    d.Sound (LoadcellFilter.Contained e) :=
  h.sound (LoadcellFilter.steady_contained he) fun method alpha _ _ hq hr =>
    LoadcellFilter.contained_createFilter method alpha hq hr

/-- What a frame compares with filtered values is the part of the step that it has in exact
arithmetic, up to the margin. -/
theorem exists_distance (he : e ≤ 1000) (hch : ch.Sound (LoadcellFilter.Contained e))
    (ha : ch.previousFiltered = some (fin a)) (hf : ch.filter ≠ .noFilter)
    (hb : |(b : ℚ)| ≤ 2 ^ e) (n : ℕ) : ∃ δ : {q : ℚ // IsDouble q},
      distance .filtered ch.filter (fin a) (fin b) n = fin δ ∧
      |(δ : ℚ) - share (ch.filter.exact.gainSeq b) n * (|(b : ℚ) - a|)| ≤ ch.filter.margin e := by
  obtain ⟨x, hx, hmoves⟩ := hch.filter.exists_values he hf (hch.holds _ ha) hb
  have hdiff : |(x (n + 1) : ℚ) - x n| ≤ 2 ^ (e + 1) := by
    have h0 := (hx n).1
    have h1 := (hx (n + 1)).1
    rw [abs_le] at h0 h1 ⊢
    rw [pow_succ 2 e]
    constructor <;> linarith
  obtain ⟨y, hy, hnear, -⟩ := exists_ofRat_eq_fin (isDouble_two_pow (k := e + 1) (by omega)) hdiff
  have hround := Binary64.abs_nearest_sub_le_two_pow hdiff
  rw [← hnear, pow_succ 2 e] at hround
  have hshare := share_nonneg (hch.filter.tuned_exact.isGain (b : ℚ)) n
  refine ⟨⟨|(y : ℚ)|, y.2.abs⟩, ?_, ?_⟩
  · calc
      distance .filtered ch.filter (fin a) (fin b) n =
          ((ch.filter.values (fin a) (fin b) (n + 1)).sub
            (ch.filter.values (fin a) (fin b) n)).abs := rfl
      _ = (fin y).abs := by rw [(hx n).2, (hx (n + 1)).2, sub_fin, hy]
  · have hstep : |(y : ℚ) - share (ch.filter.exact.gainSeq b) n * (b - a)| ≤
        ch.filter.margin e := by
      have hmoves' := hmoves n
      have hsplit := abs_sub_le (y : ℚ) (x (n + 1) - x n)
        (share (ch.filter.exact.gainSeq b) n * (b - a))
      linarith
    calc
      |(|(y : ℚ)| - share (ch.filter.exact.gainSeq b) n * |(b : ℚ) - a|)| =
          |(|(y : ℚ)| - |share (ch.filter.exact.gainSeq b) n * (b - a)|)| := by
        rw [abs_mul, abs_of_nonneg hshare]
      _ ≤ |(y : ℚ) - share (ch.filter.exact.gainSeq b) n * (b - a)| := abs_abs_sub_abs_le _ _
      _ ≤ ch.filter.margin e := hstep

/-- **A lasting change is reported** when the thresholds are compared with raw values, when
there is no filter, or when the largest share of the step exceeds the threshold by more than
the rounding errors may take off; and only if the largest share, with what the rounding errors
may add, exceeds the threshold. -/
theorem reported_up_to_margin (he : e ≤ 1000) (hd : d.ReachedBy BoundedNoise (BoundedFloat e))
    (hch : d.Settled i ch (fin a)) (hT : d.thresholds[i]? = some (fin T))
    (hframes : ReadsAlways frames i (fin b))
    (hreadings : ∀ n, ReadsOnly (BoundedFloat e) (frames n))
    (hstep : ltB (fin T) ((fin b).sub (fin a)).abs = true) :
    ∃ s, ch.filter.exact.PeakShare s ∧
      (d.thresholdScope = .raw ∨ ch.filter = .noFilter ∨
        (T : ℚ) + ch.filter.margin e < s * |(b : ℚ) - a| → d.Reported frames i) ∧
      (d.Reported frames i → d.thresholdScope = .raw ∨ ch.filter = .noFilter ∨
        (T : ℚ) < s * |(b : ℚ) - a| + ch.filter.margin e) := by
  have hsteady := LoadcellFilter.steady_contained he
  have hsound := hd.contained he
  have hsoundch := hsound.sound ch (List.mem_of_getElem? hch.channel)
  have htuned := hsoundch.filter.tuned_exact
  have hat := reported_at_iff hsteady hsound hch hT hframes hreadings
  obtain ⟨s, hs⟩ := LoadcellFilter.exists_peakShare htuned
  obtain ⟨⟨N, hN⟩, hle⟩ := hs.isGreatest htuned
    (LoadcellFilter.holds_exact (hsoundch.holds _ hch.filtered)) b
  have hb : |(b : ℚ)| ≤ 2 ^ e := by
    obtain ⟨-, raw, hraw, hparse⟩ := hframes 0
    obtain ⟨v, hv, hbound⟩ := hreadings 0 raw (List.mem_of_getElem? hraw) _ hparse
    rwa [← fin.inj hv] at hbound
  refine ⟨s, hs, ?_, ?_⟩
  · intro hcondition
    cases hscope : d.thresholdScope with
    | raw => exact reported_of_raw hsteady hsound hch hT hframes hreadings hscope hstep
    | filtered =>
        by_cases hf : ch.filter = .noFilter
        · refine ⟨0, (hat 0).mpr ?_⟩
          rw [hscope, hf]
          exact hstep
        · have hlt : (T : ℚ) + ch.filter.margin e < s * |(b : ℚ) - a| := by
            simpa [hscope, hf] using hcondition
          obtain ⟨δ, hδ, hclose⟩ := exists_distance he hsoundch hch.filtered hf hb N
          refine ⟨N, (hat N).mpr ?_⟩
          rw [hscope, hδ]
          refine decide_eq_true ?_
          rw [hN] at hclose
          have := (abs_le.mp hclose).1
          linarith
  · rintro ⟨n, hn⟩
    cases hscope : d.thresholdScope with
    | raw => exact .inl rfl
    | filtered =>
        by_cases hf : ch.filter = .noFilter
        · exact .inr (.inl hf)
        · obtain ⟨δ, hδ, hclose⟩ := exists_distance he hsoundch hch.filtered hf hb n
          have hlt := (hat n).mp hn
          rw [hscope, hδ] at hlt
          have hlt' : (T : ℚ) < δ := of_decide_eq_true hlt
          have hpart := mul_le_mul_of_nonneg_right (hle ⟨n, rfl⟩) (abs_nonneg ((b : ℚ) - a))
          have := (abs_le.mp hclose).2
          exact .inr (.inr (by linarith))

/-! ### A step that is large enough -/

/-- A whole number of grams. -/
def grams (k : Fin 100000) : {q : ℚ // IsDouble q} :=
  ⟨((k : ℕ) : ℤ), isDouble_intCast (by rw [Nat.abs_cast]; omega)⟩

/-- Every frame reads 10100 g on all channels. -/
def raisedFrames : ℕ → List Str :=
  fun _ => List.replicate 10 "+10100".toList

/-- A frame that reads the same number of grams on all channels. -/
theorem readsOnly_replicate {text : Str} {k : Fin 100000}
    (htext : parseValue text = some (fin (grams k))) (hk : (k : ℕ) ≤ 2 ^ e) :
    ReadsOnly (BoundedFloat e) (List.replicate 10 text) := by
  intro raw hraw b hb
  obtain rfl := List.eq_of_mem_replicate hraw
  obtain rfl := Option.some.inj (htext.symm.trans hb)
  have hvalue : (grams k : ℚ) = (k : ℕ) := Int.cast_natCast _
  refine ⟨grams k, rfl, ?_⟩
  rw [hvalue, abs_of_nonneg (Nat.cast_nonneg _)]
  exact_mod_cast hk

/-- Half of the step of 100 g is more than the threshold of 30 g. -/
theorem reported_raised : (halved PyFloat).Reported raisedFrames 0 := by
  have hreached : (halved PyFloat).ReachedBy BoundedNoise (BoundedFloat 14) :=
    .process (readsOnly_replicate (k := 10000) (by decide +kernel) (by norm_num))
      (.new (List.length_replicate ..) (by decide +kernel) (by decide +kernel))
  have hsettled : (halved PyFloat).Settled 0 halvedChannel (fin (grams 10000)) :=
    ⟨by rw [channels_halved]; rfl, by decide +kernel, by decide +kernel⟩
  have hreads : ReadsAlways raisedFrames 0 (fin (grams 10100)) :=
    fun _ => ⟨List.length_replicate .., "+10100".toList, rfl, by decide +kernel⟩
  obtain ⟨s, hs, hreported, -⟩ := reported_up_to_margin (T := grams 30) (by norm_num) hreached
    hsettled (by decide +kernel) hreads
    (fun _ => readsOnly_replicate (k := 10100) (by decide +kernel) (by norm_num))
    (by decide +kernel)
  have hhalf : s = 1 / 2 := hs.trans (by decide +kernel)
  refine hreported (.inr (.inr ?_))
  rw [hhalf]
  decide +kernel

end LoadcellChangeDetector

end IoBoard
