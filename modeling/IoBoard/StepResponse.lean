import IoBoard.Filters
import IoBoard.Lib.Relaxation

/-!
# Step Responses

How the filters move, in exact arithmetic, when the reading goes from one constant to another.
Each reading covers its share of the step, and some share is the largest: that of the first
reading with exponential smoothing, that of a later one with a Kalman filter.

## The filters as relaxations

A filter with a value moves towards its reading by a gain that does not depend on the values:
one without a filter, the smoothing factor, or what the covariances of the Kalman filter make of
it (`next_eq`). Over a constant reading it is therefore a relaxation of
`IoBoard.Lib.Relaxation`, with its gains as a sequence (`values_eq`), and the largest move of a
single frame is the largest share times the step.

For the Kalman filter the state of the recursion is the gain itself: the covariance after a
step is the measurement's part of the gain (`kalman_next_p`). So the largest share depends on
the noise covariances and on the covariance with which the step begins, that is, on how many
readings the filter has had before.

## Main results

* `LoadcellFilter.next_eq`: **a filter moves by its gain towards the reading**.
* `LoadcellFilter.gainSeq_kalman`: the gains of the Kalman filter.
* `LoadcellFilter.PeakShare.isGreatest`: the largest share is one of the shares, and none is
  larger.
-/

open PyNumber Relaxation

namespace IoBoard

/-- Every number can be rendered. -/
theorem exists_formatValue (x : ℚ) : ∃ text, formatValue x = .ok text := by
  have hint (y : ℚ) : ∃ n, int? y = some n := ⟨_, rfl⟩
  obtain ⟨n, hn⟩ := hint (round1 (PyNumber.abs x))
  rw [formatValue]
  dsimp only
  rw [hn]
  split_ifs <;> exact ⟨_, rfl⟩

namespace LoadcellFilter

/-- A numeric reading is filtered and rendered. -/
theorem exists_filter (f : LoadcellFilter ℚ) {raw : Str} {b : ℚ}
    (hb : parseValue raw = some b) :
    ∃ text, f.filter raw = ((f.next b).1, .ok (text, some (f.next b).2)) :=
  f.exists_filter_of_formatValue hb (exists_formatValue _)

/-- The gain with which the filter takes its next reading; the first reading is taken as it is. -/
def gain : LoadcellFilter ℚ → ℚ
  | noFilter => 1
  | exponential f => f.alpha
  | kalman f => (f.p + f.q) / (f.p + f.q + f.r)

/-- The parameters are within the bounds that the constructors set, and the covariance of the
estimate is not negative. -/
def Tuned : LoadcellFilter ℚ → Prop
  | noFilter => True
  | exponential f => 0 ≤ f.alpha ∧ f.alpha ≤ 1
  | kalman f => 0 < f.q ∧ 0 < f.r ∧ 0 ≤ f.p

/-- The gains with which the filter takes reading after reading of `b`; they do not depend on
`b`. -/
def gainSeq (f : LoadcellFilter ℚ) (b : ℚ) (n : ℕ) : ℚ :=
  (f.after b n).gain

/-- The constructors clamp the parameters. -/
theorem tuned_createFilter (method : FilterMethod) (alpha q r : ℚ) :
    (createFilter method alpha q r).Tuned := by
  have hpos (x : ℚ) : 0 < PyNumber.max (ofRat (1 / 10000)) x := by
    rw [max_rat]
    exact lt_max_of_lt_left (by norm_num)
  cases method with
  | none => trivial
  | exponential =>
      have hle : PyNumber.max (ofRat 0) (PyNumber.min (ofRat 1) alpha) ≤ (1 : ℚ) := by
        rw [max_rat, min_rat]
        exact max_le zero_le_one (min_le_left _ _)
      exact ⟨by simp [ExponentialSmoothingFilter.new], hle⟩
  | kalman => exact ⟨hpos q, hpos r, zero_le_one⟩

theorem Tuned.reset {f : LoadcellFilter ℚ} (h : f.Tuned) : f.reset.Tuned := by
  cases f with
  | noFilter => exact h
  | exponential f => exact h
  | kalman f => exact ⟨h.1, h.2.1, zero_le_one⟩

theorem Tuned.gain_mem {f : LoadcellFilter ℚ} (h : f.Tuned) : 0 ≤ f.gain ∧ f.gain ≤ 1 := by
  cases f with
  | noFilter => exact ⟨zero_le_one, le_rfl⟩
  | exponential f => exact h
  | kalman f =>
      obtain ⟨hq, hr, hp⟩ := h
      exact ⟨div_nonneg (by linarith) (by linarith), (div_le_one (by linarith)).mpr (by linarith)⟩

/-- The covariance of the estimate after a step is the measurement's part of the gain. -/
theorem kalman_next_p {f : KalmanFilter ℚ} (h : (kalman f).Tuned) {x : ℚ} (hx : f.x = some x)
    (b : ℚ) : (f.next b).p = f.r * (kalman f).gain := by
  obtain ⟨hq, hr, hp⟩ := h
  have hne : f.p + f.q + f.r ≠ 0 := by linarith
  simp only [KalmanFilter.next, hx, gain, add_rat, sub_rat, mul_rat, div_rat, ofRat_rat]
  field_simp
  ring

theorem Tuned.next {f : LoadcellFilter ℚ} (h : f.Tuned) (b : ℚ) : (f.next b).1.Tuned := by
  cases f with
  | noFilter => exact h
  | exponential f => exact h
  | kalman f =>
      obtain ⟨hq, hr, hp⟩ := id h
      cases hx : f.x with
      | none =>
          have hnext : f.next b = { f with x := some b, p := 1 } := by
            rw [KalmanFilter.next, hx]
            rfl
          rw [LoadcellFilter.next, hnext]
          exact ⟨hq, hr, zero_le_one⟩
      | some x =>
          have hp' := kalman_next_p h hx b
          have hqr : (f.next b).q = f.q ∧ (f.next b).r = f.r := by
            rw [KalmanFilter.next, hx]
            exact ⟨rfl, rfl⟩
          refine ⟨hqr.1 ▸ hq, hqr.2 ▸ hr, ?_⟩
          rw [hp']
          exact mul_nonneg hr.le h.gain_mem.1

/-- **A filter moves by its gain towards the reading**, in exact arithmetic. -/
theorem next_eq {f : LoadcellFilter ℚ} {x : ℚ} (h : f.Holds x) (b : ℚ) :
    (f.next b).2 = x + f.gain * (b - x) := by
  cases f with
  | noFilter =>
      rw [next, gain]
      ring
  | exponential f =>
      have hx : f.previous = some x := h
      simp only [next, ExponentialSmoothingFilter.next, hx, gain, add_rat, sub_rat, mul_rat,
        ofRat_rat]
      ring
  | kalman f =>
      have hx : f.x = some x := h
      simp only [next, KalmanFilter.next, hx, gain, add_rat, sub_rat, mul_rat, div_rat,
        Option.getD_some]

theorem Tuned.after {f : LoadcellFilter ℚ} (h : f.Tuned) (b : ℚ) (n : ℕ) :
    (f.after b n).Tuned := by
  induction n with
  | zero => exact h
  | succ n ih => exact ih.next b

/-- Filters with tuned parameters take every reading. -/
theorem steady_tuned : Steady (Tuned : LoadcellFilter ℚ → Prop) fun _ => True where
  format := fun _ _ _ _ => exists_formatValue _
  next := fun _ b h _ => h.next b
  reset := fun _ h => h.reset

/-- The values on the way are those of the relaxation by the gains. -/
theorem values_eq {f : LoadcellFilter ℚ} {a : ℚ} (h : f.Holds a) (b : ℚ) (n : ℕ) :
    f.values a b n = approach (f.gainSeq b) a b n := by
  induction n with
  | zero => rfl
  | succ n ih =>
      rw [values, next_eq (holds_values h b n), ih]
      rfl

theorem Tuned.isGain {f : LoadcellFilter ℚ} (h : f.Tuned) (b : ℚ) : IsGain (f.gainSeq b) :=
  fun n => (h.after b n).gain_mem

/-! ### The largest share of a step -/

theorem gainSeq_noFilter (b : ℚ) : (noFilter : LoadcellFilter ℚ).gainSeq b = fun _ => 1 := by
  have h (n : ℕ) : (noFilter : LoadcellFilter ℚ).after b n = noFilter := by
    induction n with
    | zero => rfl
    | succ n ih => rw [after, ih, next]
  funext n
  rw [gainSeq, h, gain]

theorem gainSeq_exponential (f : ExponentialSmoothingFilter ℚ) (b : ℚ) :
    (exponential f).gainSeq b = fun _ => f.alpha := by
  funext n
  obtain ⟨previous, hn⟩ := exists_after_exponential f b n
  rw [gainSeq, hn, gain]

/-- The gains of a Kalman filter that has a value follow the recursion. -/
theorem gainSeq_kalman {f : KalmanFilter ℚ} (h : (kalman f).Tuned) {x : ℚ} (hx : f.x = some x)
    (b : ℚ) : (kalman f).gainSeq b = gains f.q f.r (kalman f).gain := by
  have hstep (n : ℕ) : ∃ g y, (kalman f).after b n = kalman g ∧ g.q = f.q ∧ g.r = f.r ∧
      g.x = some y ∧ (kalman g).gain = gains f.q f.r (kalman f).gain n := by
    induction n with
    | zero => exact ⟨f, x, rfl, rfl, rfl, hx, rfl⟩
    | succ n ih =>
        obtain ⟨g, y, hg, hq, hr, hy, hgain⟩ := ih
        have htuned : (kalman g).Tuned := hg ▸ h.after b n
        have hp := kalman_next_p htuned hy b
        have hnext : (g.next b).q = g.q ∧ (g.next b).r = g.r ∧ ∃ z, (g.next b).x = some z := by
          rw [KalmanFilter.next, hy]
          exact ⟨rfl, rfl, _, rfl⟩
        obtain ⟨hnq, hnr, z, hz⟩ := hnext
        refine ⟨g.next b, z, by rw [after, hg, next], hnq.trans hq, hnr.trans hr, hz, ?_⟩
        rw [gain, hp, hnq, hnr, hgain, hq, hr, gains, nextGain]
  funext n
  obtain ⟨g, -, hg, -, -, -, hgain⟩ := hstep n
  rw [gainSeq, hg, hgain]

/-- The largest share of a step that a single frame gets: all of it without a filter, the smoothing
factor, or the share at the peak of the Kalman filter. It is unique (`isGreatest`). -/
def PeakShare (s : ℚ) : LoadcellFilter ℚ → Prop
  | noFilter => s = 1
  | exponential f => s = f.alpha
  | kalman f => ∃ N, IsPeak f.q f.r (kalman f).gain N ∧
      s = share (gains f.q f.r (kalman f).gain) N

theorem Tuned.kalman_gain {f : KalmanFilter ℚ} (h : (kalman f).Tuned) :
    0 < (kalman f).gain ∧ (kalman f).gain < 1 := by
  obtain ⟨hq, hr, hp⟩ := h
  exact ⟨div_pos (by linarith) (by linarith), (div_lt_one (by linarith)).mpr (by linarith)⟩

theorem exists_peakShare {f : LoadcellFilter ℚ} (h : f.Tuned) : ∃ s, f.PeakShare s := by
  cases f with
  | noFilter => exact ⟨1, rfl⟩
  | exponential f => exact ⟨f.alpha, rfl⟩
  | kalman f =>
      obtain ⟨hpos, hlt⟩ := h.kalman_gain
      obtain ⟨N, hN⟩ := exists_isPeak h.1 h.2.1 hpos hlt
      exact ⟨_, N, hN, rfl⟩

/-- **The largest share is one of the shares**, and none is larger. -/
theorem PeakShare.isGreatest {f : LoadcellFilter ℚ} (h : f.Tuned) {x s : ℚ} (hx : f.Holds x)
    (hs : f.PeakShare s) (b : ℚ) : IsGreatest (Set.range (share (f.gainSeq b))) s := by
  cases f with
  | noFilter =>
      obtain rfl : s = 1 := hs
      rw [gainSeq_noFilter]
      refine ⟨⟨0, share_zero _⟩, ?_⟩
      rintro _ ⟨n, rfl⟩
      exact share_const_le zero_le_one le_rfl n
  | exponential f =>
      obtain rfl : s = f.alpha := hs
      rw [gainSeq_exponential]
      refine ⟨⟨0, share_zero _⟩, ?_⟩
      rintro _ ⟨n, rfl⟩
      exact share_const_le h.1 h.2 n
  | kalman f =>
      obtain ⟨N, hN, rfl⟩ := hs
      obtain ⟨hpos, hlt⟩ := h.kalman_gain
      rw [gainSeq_kalman h hx]
      refine ⟨⟨N, rfl⟩, ?_⟩
      rintro _ ⟨n, rfl⟩
      exact hN.share_le h.1 h.2.1 hpos hlt n

end LoadcellFilter

end IoBoard
