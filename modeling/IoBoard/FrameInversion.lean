import IoBoard.Lib.OrderStatistics
import IoBoard.Lib.PyFloat
import Mathlib.Data.Bool.Count
import Mathlib.Data.List.Count

/-!
# Inverted Frames

Section `[4]` of `analyze` in `tools/loadcell_diag.py`. A board may deliver whole frames with all
the channels negated. The analysis sees the received frames only: it judges each frame against the
one before, by the median over the channels of the difference and of the sum, integrates the
judgements to an orientation of every frame, and takes the orientation of the majority for the
upright one.

## The frames

A `Shot` is a frame with what the shelf really weighed. The channels need not all be right: an
error value, a wrong value or a weight that moves is outvoted as long as more than half of the
channels that the judgement looks at are sound and steady. Steady is meant with common bounds: there
are two numbers, `noise` and a larger `level`, such that the weights of these channels move by at
most `noise` and amount to at least `level` in all. A bound of its own for each channel is not
enough, since the two medians may be attained on different channels.

## Numbers

Values are `PyFloat`s, since the tool reads them with `float`, and the differences and sums are
rounded. The bounds are doubles, so rounding cannot carry a distance across them: what is at most a
double does not exceed it when rounded, and what is at least a double does not fall below it. The
median is the upper one of two.

The judgements are the changes of the mask of inverted frames. Integrated from an upright start
they give the mask or its complement, and the count decides which of the two is taken.

## Main results

* `flipRel_of_follows`: the judgement of two frames is right, whatever the outvoted channels say.
* `inversion_recovered`: **the inverted frames are found exactly** when they are the minority, and
  negating them restores the weights.
-/

open Binary64 OrderStatistics

namespace IoBoard.LoadcellDiag

/-! ### The analysis -/

/-- The values of one poll, `none` for an error value. All the polls have the channels of the
first. -/
abbrev Sample := List (Option PyFloat)

/-- `median(xs)`: the sort is by `<`, and an empty list raises. Without NaN this is the order of
the numbers. -/
def median (xs : List PyFloat) : Option PyFloat :=
  upperMedianBy (fun a b => !b.ltB a) xs

/-- The condition of `both`: one of the two values is large enough. -/
def significant (minMag : PyFloat) : Option PyFloat → Option PyFloat → Option (PyFloat × PyFloat)
  | some a, some b =>
      if minMag.leB a.abs || minMag.leB b.abs then some (a, b) else none
  | _, _ => none

/-- `flip_rel[k]`: is the frame the negative of the one before? Where no channel is compared it
is not. -/
def flipRel (minMag : PyFloat) (prev next : Sample) : Bool :=
  let both := (prev.zip next).filterMap fun p => significant minMag p.1 p.2
  match median (both.map fun p => (p.2.sub p.1).abs), median (both.map fun p => (p.2.add p.1).abs)
  with
  | some errSame, some errNeg => errNeg.ltB errSame
  | _, _ => false

/-- `inverted`: which of the frames are negated. The first frame is taken for upright, and all
judgements are turned over if most of the frames come out as negated. -/
def inverted (minMag : PyFloat) (frames : List Sample) : List Bool :=
  let integrated := (List.zipWith (flipRel minMag) frames frames.tail).scanl xor false
  if frames.length < 2 * integrated.count true then integrated.map (!·) else integrated

/-- `series[ch]`, the values of one channel over all frames. -/
def series (frames : List Sample) (ch : ℕ) : List (Option PyFloat) :=
  frames.map fun row => row[ch]?.join

/-- `fixed`: the values of a channel with the inverted frames negated. Error values are dropped. -/
def fixed (inverted : List Bool) (channel : List (Option PyFloat)) : List PyFloat :=
  (inverted.zip channel).filterMap fun p => p.2.map fun x => if p.1 then x.neg else x

/-! ### The frames that were taken -/

/-- A number of the format, or its negative, as it comes in an inverted frame. -/
def signed (negate : Bool) (q : ℚ) : ℚ :=
  if negate then -q else q

/-- A channel of a frame: the weight on it, and the value that came. -/
structure Reading where
  truth : {q : ℚ // IsDouble q}
  received : Option {q : ℚ // IsDouble q}

/-- A frame as it was taken: its channels, and whether the board has inverted it. -/
structure Shot where
  readings : List Reading
  inverted : Bool

/-- The frame as the analysis reads it. -/
def Shot.sample (s : Shot) : Sample :=
  s.readings.map fun r => r.received.map .fin

/-- The value is the weight, negated in an inverted frame. -/
def Reading.Sound (negate : Bool) (r : Reading) : Prop :=
  r.received.map Subtype.val = some (signed negate r.truth)

instance (negate : Bool) (r : Reading) : Decidable (r.Sound negate) :=
  inferInstanceAs (Decidable (_ = _))

/-- The two values that the judgement compares, if it compares them. This depends on what came,
not on the weights. -/
def compared (minMag : PyFloat) (p : Reading × Reading) :
    Option ({q : ℚ // IsDouble q} × {q : ℚ // IsDouble q}) :=
  match p.1.received, p.2.received with
  | some a, some b =>
      if minMag.leB (PyFloat.fin a).abs || minMag.leB (PyFloat.fin b).abs then some (a, b) else none
  | _, _ => none

/-- Both values are sound, and the weight moved by `noise` at most while it was at least
`level` in all. -/
def Steady (noise level : ℚ) (s t : Shot) (p : Reading × Reading) : Prop :=
  p.1.Sound s.inverted ∧ p.2.Sound t.inverted ∧
    |(p.2.truth : ℚ) - p.1.truth| ≤ noise ∧ level ≤ |(p.2.truth : ℚ) + p.1.truth|

instance (noise level : ℚ) (s t : Shot) (p : Reading × Reading) :
    Decidable (Steady noise level s t p) :=
  inferInstanceAs (Decidable (_ ∧ _ ∧ _ ∧ _))

/-- More than half of the channels that are compared are sound and steady, with bounds common to
them. -/
def Follows (minMag : PyFloat) (s t : Shot) : Prop :=
  ∃ noise level : {q : ℚ // IsDouble q}, (noise : ℚ) < level ∧
    (s.readings.zip t.readings).countP (fun p => (compared minMag p).isSome) <
      2 * (s.readings.zip t.readings).countP fun p =>
        (compared minMag p).isSome && decide (Steady noise level s t p)

/-! ### The judgement of two frames -/

/-- Where an absolute value stands among the numbers. -/
def magnitude : PyFloat → WithTop ℚ
  | .fin q => (q : ℚ)
  | _ => ⊤

/-- Two distances compare as their magnitudes. -/
theorem ltB_abs_ofRat (p q : ℚ) : (PyFloat.ofRat p).abs.ltB (PyFloat.ofRat q).abs =
    decide (magnitude (PyFloat.ofRat p).abs < magnitude (PyFloat.ofRat q).abs) := by
  unfold PyFloat.ofRat
  split_ifs <;> simp [PyFloat.abs, PyFloat.ltB, magnitude]

/-- What is at most a float does not exceed it when rounded. -/
theorem magnitude_le {q : ℚ} (b : {q : ℚ // IsDouble q}) (h : |q| ≤ b) :
    magnitude (PyFloat.ofRat q).abs ≤ (b : ℚ) := by
  obtain ⟨d, hd, -, hle⟩ := PyFloat.exists_ofRat_eq_fin b.2 h
  rw [hd]
  exact WithTop.coe_le_coe.mpr hle

/-- What is at least a float does not fall below it when rounded. -/
theorem le_magnitude {q : ℚ} (b : {q : ℚ // IsDouble q}) (h : (b : ℚ) ≤ |q|) :
    ((b : ℚ) : WithTop ℚ) ≤ magnitude (PyFloat.ofRat q).abs := by
  have hround : (b : ℚ) ≤ |nearest q| := by
    rcases abs_choice q with hq | hq <;> rw [hq] at h <;> have hmono := nearest_mono h
    · rw [b.2.1] at hmono
      exact hmono.trans (le_abs_self _)
    · rw [b.2.1, nearest_neg] at hmono
      exact hmono.trans (neg_le_abs _)
  unfold PyFloat.ofRat
  split_ifs
  · exact WithTop.coe_le_coe.mpr hround
  · exact le_top

section Judgement

variable {α : Type*} {ps : List α} {f g : α → ℚ} {noise level : {q : ℚ // IsDouble q}}

/-- The median of some distances is one of their magnitudes. -/
theorem median_map_magnitude (ps : List α) (f : α → ℚ) :
    (median (ps.map fun p => (PyFloat.ofRat (f p)).abs)).map magnitude =
      upperMedian (ps.map fun p => magnitude (PyFloat.ofRat (f p)).abs) := by
  rw [median, upperMedian_map magnitude, List.map_map]
  · rfl
  · intro x hx y hy
    obtain ⟨p, -, rfl⟩ := List.mem_map.mp hx
    obtain ⟨q, -, rfl⟩ := List.mem_map.mp hy
    rw [ltB_abs_ofRat, ← decide_not]
    exact decide_eq_decide.mpr not_lt

/-- **The smaller of two medians** is that of the distances that are small for more than half of
the channels, where the others are large. -/
theorem median_lt_median (hlt : (noise : ℚ) < level)
    (hmost : ps.length < 2 * ps.countP fun p => decide (|f p| ≤ noise ∧ (level : ℚ) ≤ |g p|)) :
    ∃ small large, median (ps.map fun p => (PyFloat.ofRat (f p)).abs) = some small ∧
      median (ps.map fun p => (PyFloat.ofRat (g p)).abs) = some large ∧
      small.ltB large = true ∧ large.ltB small = false := by
  have hne : ps ≠ [] := by
    rintro rfl
    exact absurd hmost (by simp)
  obtain ⟨m₁, h₁⟩ := exists_upperMedian (l := ps.map fun p => magnitude (PyFloat.ofRat (f p)).abs)
    (by simpa using hne)
  obtain ⟨m₂, h₂⟩ := exists_upperMedian (l := ps.map fun p => magnitude (PyFloat.ofRat (g p)).abs)
    (by simpa using hne)
  have hsmall : m₁ < ((level : ℚ) : WithTop ℚ) := by
    refine upperMedian_lt h₁ ?_
    rw [List.length_map, List.countP_map]
    refine hmost.trans_le (Nat.mul_le_mul_left 2 (List.countP_mono_left fun p _ hp => ?_))
    obtain ⟨hf, -⟩ := of_decide_eq_true hp
    exact decide_eq_true ((magnitude_le noise hf).trans_lt (WithTop.coe_lt_coe.mpr hlt))
  have hlarge : ((level : ℚ) : WithTop ℚ) ≤ m₂ := by
    refine le_upperMedian h₂ ?_
    rw [List.length_map, List.countP_map]
    refine hmost.le.trans (Nat.mul_le_mul_left 2 (List.countP_mono_left fun p _ hp => ?_))
    obtain ⟨-, hg⟩ := of_decide_eq_true hp
    exact decide_eq_true (le_magnitude level hg)
  rw [← median_map_magnitude] at h₁ h₂
  obtain ⟨small, hs, rfl⟩ := Option.map_eq_some_iff.mp h₁
  obtain ⟨large, hl, rfl⟩ := Option.map_eq_some_iff.mp h₂
  have horder := hsmall.trans_le hlarge
  obtain ⟨p, -, rfl⟩ := List.mem_map.mp (mem_of_upperMedianBy hs)
  obtain ⟨q, -, rfl⟩ := List.mem_map.mp (mem_of_upperMedianBy hl)
  refine ⟨_, _, hs, hl, ?_, ?_⟩
  · rw [ltB_abs_ofRat]
    exact decide_eq_true horder
  · rw [ltB_abs_ofRat]
    exact decide_eq_false horder.not_gt

end Judgement

/-! ### A judgement is right -/

/-- Two frames of one orientation differ as the weights do. -/
theorem signed_same (s : Bool) (x y : ℚ) :
    |signed s y - signed s x| = |y - x| ∧ |signed s y + signed s x| = |y + x| := by
  cases s with
  | false => exact ⟨rfl, rfl⟩
  | true =>
      simp only [signed, if_true]
      exact ⟨by rw [neg_sub_neg, abs_sub_comm], by rw [← neg_add, abs_neg]⟩

/-- In two frames of different orientations the sum and the difference change places. -/
theorem signed_other (s : Bool) (x y : ℚ) :
    |signed (!s) y - signed s x| = |y + x| ∧ |signed (!s) y + signed s x| = |y - x| := by
  have hnot : signed (!s) y = -signed s y := by cases s <;> simp [signed]
  obtain ⟨hsub, hadd⟩ := signed_same s x y
  rw [hnot]
  exact ⟨by rw [← neg_add', abs_neg, hadd], by rw [neg_add_eq_sub, abs_sub_comm, hsub]⟩

/-- What the judgement compares is what came. -/
theorem both_samples (minMag : PyFloat) (s t : Shot) :
    (s.sample.zip t.sample).filterMap (fun p => significant minMag p.1 p.2) =
      ((s.readings.zip t.readings).filterMap (compared minMag)).map
        fun p => (PyFloat.fin p.1, PyFloat.fin p.2) := by
  rw [Shot.sample, Shot.sample, List.zip_map, List.filterMap_map, List.map_filterMap]
  refine List.filterMap_congr fun p _ => ?_
  rw [Function.comp_apply, Prod.map_apply', compared]
  cases p.1.received with
  | none => rfl
  | some a =>
      cases p.2.received with
      | none => rfl
      | some b =>
          rw [Option.map_some, Option.map_some, significant]
          dsimp only
          split_ifs <;> rfl

/-- The values that are compared are those that came. -/
theorem received_of_compared {minMag : PyFloat} {p : Reading × Reading}
    {a b : {q : ℚ // IsDouble q}} (h : compared minMag p = some (a, b)) :
    p.1.received = some a ∧ p.2.received = some b := by
  unfold compared at h
  split at h
  · next ha hb =>
      split_ifs at h
      cases h
      exact ⟨ha, hb⟩
  · cases h

/-- More than half of what is compared keeps a property of the sound and steady channels. -/
theorem Follows.most {minMag : PyFloat} {s t : Shot} {noise level : {q : ℚ // IsDouble q}}
    (h : (s.readings.zip t.readings).countP (fun p => (compared minMag p).isSome) <
      2 * (s.readings.zip t.readings).countP fun p =>
        (compared minMag p).isSome && decide (Steady noise level s t p))
    {P : {q : ℚ // IsDouble q} × {q : ℚ // IsDouble q} → Prop} [DecidablePred P]
    (hP : ∀ p (a b : {q : ℚ // IsDouble q}), Steady noise level s t p →
      (a : ℚ) = signed s.inverted p.1.truth → (b : ℚ) = signed t.inverted p.2.truth → P (a, b)) :
    ((s.readings.zip t.readings).filterMap (compared minMag)).length <
      2 * ((s.readings.zip t.readings).filterMap (compared minMag)).countP fun p =>
        decide (P p) := by
  rw [List.length_filterMap_eq_countP, List.countP_filterMap]
  refine h.trans_le (Nat.mul_le_mul_left 2 (List.countP_mono_left fun p _ hp => ?_))
  rw [Bool.and_eq_true, decide_eq_true_eq] at hp
  obtain ⟨hsome, hsteady⟩ := hp
  obtain ⟨⟨a, b⟩, hab⟩ := Option.isSome_iff_exists.mp hsome
  obtain ⟨ha, hb⟩ := received_of_compared hab
  have hsound₁ := hsteady.1
  have hsound₂ := hsteady.2.1
  rw [Reading.Sound, ha] at hsound₁
  rw [Reading.Sound, hb] at hsound₂
  rw [hab]
  exact decide_eq_true (hP p a b hsteady (Option.some.inj hsound₁) (Option.some.inj hsound₂))

/-- **A judgement is right**, whatever the outvoted channels say: of the two medians the smaller
one is that of the distances that are small on the steady channels. -/
theorem flipRel_of_follows {minMag : PyFloat} {s t : Shot} (h : Follows minMag s t) :
    flipRel minMag s.sample t.sample = xor s.inverted t.inverted := by
  obtain ⟨noise, level, hlt, hmost⟩ := h
  rw [flipRel, both_samples, List.map_map, List.map_map]
  simp only [Function.comp_def, PyFloat.sub_fin, PyFloat.add_fin]
  by_cases hst : s.inverted = t.inverted
  · obtain ⟨small, large, hs, hl, -, hnot⟩ := median_lt_median
      (f := fun p : {q : ℚ // IsDouble q} × {q : ℚ // IsDouble q} => (p.2 : ℚ) - p.1)
      (g := fun p => (p.2 : ℚ) + p.1) hlt (Follows.most hmost fun p a b hp ha hb => by
        obtain ⟨hsub, hadd⟩ := signed_same t.inverted p.1.truth p.2.truth
        rw [ha, hb, hst, hsub, hadd]
        exact hp.2.2)
    rw [hs, hl, hst, Bool.xor_self]
    exact hnot
  · have hother : t.inverted = !s.inverted := Bool.eq_not.mpr (Ne.symm hst)
    obtain ⟨small, large, hs, hl, hlt', -⟩ := median_lt_median
      (f := fun p : {q : ℚ // IsDouble q} × {q : ℚ // IsDouble q} => (p.2 : ℚ) + p.1)
      (g := fun p => (p.2 : ℚ) - p.1) hlt (Follows.most hmost fun p a b hp ha hb => by
        obtain ⟨hsub, hadd⟩ := signed_other s.inverted p.1.truth p.2.truth
        rw [ha, hb, hother, hsub, hadd]
        exact hp.2.2)
    rw [hs, hl, hother, Bool.xor_not_self]
    exact hlt'

/-! ### The orientation of the frames -/

/-- Which of the frames were negated. -/
def mask (shots : List Shot) : List Bool :=
  shots.map Shot.inverted

/-- The upright frames are the majority. With as many of both, the first frame decides. -/
def Upright (shots : List Shot) : Prop :=
  2 * (mask shots).count true < shots.length ∨
    2 * (mask shots).count true = shots.length ∧ (mask shots).head? = some false

instance (shots : List Shot) : Decidable (Upright shots) :=
  inferInstanceAs (Decidable (_ ∨ _ ∧ _))

/-- Integrating the changes of a mask gives the mask up to its first entry. -/
theorem scanl_changes (b c : Bool) (rest : List Bool) :
    (List.zipWith xor (b :: rest) rest).scanl xor c = (b :: rest).map (xor (xor c b)) := by
  induction rest generalizing b c with
  | nil => simp
  | cons next rest ih =>
      have hhead : c = xor (xor c b) b := by simp
      have htail : xor (xor c (xor b next)) next = xor c b := by
        cases b <;> cases c <;> cases next <;> rfl
      rw [List.zipWith_cons_cons, List.scanl_cons, ih next (xor c (xor b next)), htail]
      exact congrArg (List.cons · _) hhead

/-- The judgements are the changes of the mask. -/
theorem zipWith_flipRel {minMag : PyFloat} {shots : List Shot}
    (h : shots.IsChain (Follows minMag)) :
    List.zipWith (flipRel minMag) (shots.map Shot.sample) (shots.map Shot.sample).tail =
      List.zipWith xor (mask shots) (mask shots).tail := by
  induction h with
  | nil => rfl
  | singleton => rfl
  | cons_cons hfollows _ ih => exact congrArg₂ List.cons (flipRel_of_follows hfollows) ih

/-- Of a mask and its complement each frame counts in one. -/
theorem count_complement (l : List Bool) :
    (l.map (!·)).count true + l.count true = l.length := by
  have h := List.count_map_of_injective l (!·) Bool.involutive_not.injective false
  rw [Bool.not_false] at h
  rw [h, Nat.add_comm, List.count_true_add_count_false]

/-- **The inverted frames are found** up to the orientation that the majority is taken to have.
This needs the judgements only. -/
theorem inverted_eq {minMag : PyFloat} {shots : List Shot} (hne : shots ≠ [])
    (h : shots.IsChain (Follows minMag)) :
    inverted minMag (shots.map Shot.sample) =
      if Upright shots then mask shots else (mask shots).map (!·) := by
  obtain ⟨s, rest, rfl⟩ := List.exists_cons_of_ne_nil hne
  have hmask : mask (s :: rest) = s.inverted :: mask rest := rfl
  have hcount := count_complement (mask (s :: rest))
  rw [mask, List.length_map, ← mask] at hcount
  have hintegrated := scanl_changes s.inverted false (mask rest)
  rw [Bool.false_xor, ← hmask] at hintegrated
  rw [inverted, zipWith_flipRel h, List.length_map, hmask, List.tail_cons, ← hmask, hintegrated]
  cases hs : s.inverted with
  | false =>
      have hid : (mask (s :: rest)).map (xor false) = mask (s :: rest) := by
        rw [funext Bool.false_xor, List.map_id']
      have hup : Upright (s :: rest) ↔
          ¬ (s :: rest).length < 2 * (mask (s :: rest)).count true := by
        rw [Upright, hmask, hs, List.head?_cons]
        simp only [and_true]
        omega
      rw [hid]
      simp only [hup, ite_not]
  | true =>
      have hnot : (mask (s :: rest)).map (xor true) = (mask (s :: rest)).map (!·) := by simp
      have hback : ((mask (s :: rest)).map (!·)).map (!·) = mask (s :: rest) := by
        rw [List.map_map, Bool.involutive_not.comp_self, List.map_id]
      have hup : Upright (s :: rest) ↔
          (s :: rest).length < 2 * ((mask (s :: rest)).map (!·)).count true := by
        rw [Upright, hmask, hs, List.head?_cons, ← hs, ← hmask]
        simp only [hs, Option.some.injEq, Bool.true_eq_false, and_false, or_false]
        omega
      rw [hnot, hback]
      simp only [hup]

/-! ### The repair -/

/-- Every value that came of the channel is sound. An error value is none. -/
def SoundChannel (shots : List Shot) (ch : ℕ) : Prop :=
  ∀ s ∈ shots, ∀ r, s.readings[ch]? = some r → r.received ≠ none → r.Sound s.inverted

/-- What was on the channel when a value came, in the order of the frames. -/
def weights (shots : List Shot) (ch : ℕ) : List PyFloat :=
  shots.filterMap fun s => s.readings[ch]?.bind fun r => r.received.map fun _ => .fin r.truth

/-- Negating a sound value of an inverted frame gives the weight. -/
theorem repaired_of_sound {negate : Bool} {r : Reading} {a : {q : ℚ // IsDouble q}}
    (hr : r.received = some a) (h : r.Sound negate) :
    (if negate then (PyFloat.fin a).neg else .fin a) = .fin r.truth := by
  rw [Reading.Sound, hr] at h
  have ha : (a : ℚ) = signed negate r.truth := Option.some.inj h
  cases negate with
  | false => exact congrArg PyFloat.fin (Subtype.ext ha)
  | true =>
      refine congrArg PyFloat.fin (Subtype.ext ?_)
      rw [Subtype.coe_mk, ha, signed, if_pos rfl, neg_neg]

/-- The repair by the right mask restores the weights of a sound channel. -/
theorem fixed_mask {shots : List Shot} {ch : ℕ} (h : SoundChannel shots ch) :
    fixed (mask shots) (series (shots.map Shot.sample) ch) = weights shots ch := by
  rw [fixed, mask, series, List.map_map, List.zip_map', List.filterMap_map, weights]
  refine List.filterMap_congr fun s hs => ?_
  rw [Function.comp_apply, Function.comp_apply, Shot.sample, List.getElem?_map]
  cases hr : s.readings[ch]? with
  | none => rfl
  | some r =>
      cases ha : r.received with
      | none => simp [ha]
      | some a =>
          have hsound := h s hs r hr (by simp [ha])
          simpa [ha] using repaired_of_sound ha hsound

/-- The repair by the complement negates what the repair by the mask gives. -/
theorem fixed_complement (mask : List Bool) (channel : List (Option PyFloat)) :
    fixed (mask.map (!·)) channel = (fixed mask channel).map PyFloat.neg := by
  rw [fixed, fixed, List.map_filterMap, List.zip_map_left, List.filterMap_map]
  refine List.filterMap_congr fun p _ => ?_
  obtain ⟨negate, x⟩ := p
  cases x with
  | none => rfl
  | some x => cases negate <;> simp

/-- **The inverted frames are found exactly** when the upright frames are the majority, and
negating them restores the weights of every sound channel; otherwise the upright frames are taken
for the inverted ones. -/
theorem inversion_recovered {minMag : PyFloat} {shots : List Shot} (hne : shots ≠ [])
    (h : shots.IsChain (Follows minMag)) :
    (inverted minMag (shots.map Shot.sample) = mask shots ↔ Upright shots) ∧
      (¬ Upright shots → inverted minMag (shots.map Shot.sample) = (mask shots).map (!·)) ∧
        ∀ ch, SoundChannel shots ch →
          fixed (inverted minMag (shots.map Shot.sample)) (series (shots.map Shot.sample) ch) =
            if Upright shots then weights shots ch else (weights shots ch).map PyFloat.neg := by
  have heq := inverted_eq hne h
  rw [heq]
  by_cases hup : Upright shots
  · rw [if_pos hup]
    refine ⟨iff_of_true rfl hup, absurd hup, fun ch hch => ?_⟩
    rw [if_pos hup, fixed_mask hch]
  · rw [if_neg hup]
    refine ⟨iff_of_false (fun hmask => ?_) hup, fun _ => rfl, fun ch hch => ?_⟩
    · obtain ⟨s, rest, rfl⟩ := List.exists_cons_of_ne_nil hne
      exact Bool.not_ne_self s.inverted (List.cons.inj hmask).1
    · rw [if_neg hup, fixed_complement, fixed_mask hch]

/-- A weight in whole grams. -/
def grams (k : Fin 1000) : {q : ℚ // IsDouble q} :=
  ⟨(k : ℤ), isDouble_intCast (by rw [Nat.abs_cast]; omega)⟩

/-- A weight that is right but for the sign of the frame. -/
def Reading.of (negate : Bool) (k : Fin 1000) : Reading where
  truth := grams k
  received := some (if negate then ⟨-grams k, (grams k).2.neg⟩ else grams k)

/-- A frame of two sound channels and a third that may say anything. -/
def twoSound (inverted : Bool) (a b : Fin 1000) (other : Option (Fin 1000)) : Shot where
  readings := [.of inverted a, .of inverted b, ⟨grams 50, other.map grams⟩]
  inverted := inverted

/-- Five frames, two of them inverted. -/
def fiveShots : List Shot :=
  [twoSound false 100 250 (some 50), twoSound true 101 249 (some 50), twoSound true 100 250 none,
    twoSound false 99 251 (some 700), twoSound false 100 250 (some 3)]

/-- The frames are found and repaired with the third channel outvoted. -/
theorem inversion_recovered_fiveShots :
    inverted 5 (fiveShots.map Shot.sample) = [false, true, true, false, false] ∧
      fixed (inverted 5 (fiveShots.map Shot.sample)) (series (fiveShots.map Shot.sample) 1) =
        [.fin (grams 250), .fin (grams 249), .fin (grams 250), .fin (grams 251),
          .fin (grams 250)] := by
  have hup : Upright fiveShots := by decide
  have hchain : fiveShots.IsChain (Follows 5) := by
    simp only [fiveShots, List.isChain_cons_cons, List.isChain_singleton, and_true]
    refine ⟨⟨grams 10, grams 100, ?_⟩, ⟨grams 10, grams 100, ?_⟩, ⟨grams 10, grams 100, ?_⟩,
      grams 10, grams 100, ?_⟩ <;> decide +kernel
  have hsound : SoundChannel fiveShots 1 := by
    intro s hs r hr _
    simp only [fiveShots, List.mem_cons, List.not_mem_nil, or_false] at hs
    rcases hs with rfl | rfl | rfl | rfl | rfl <;> cases hr <;> decide +kernel
  obtain ⟨hmask, -, hfixed⟩ := inversion_recovered (by decide) hchain
  refine ⟨hmask.mpr hup, ?_⟩
  rw [hfixed 1 hsound, if_pos hup]
  rfl

end IoBoard.LoadcellDiag
