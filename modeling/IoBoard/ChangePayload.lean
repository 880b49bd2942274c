import IoBoard.Sse
import Mathlib.Data.List.Basic

/-!
# The Payload of Changes

What a result of `process` publishes about its changed channels. The comparison with the
threshold is made on the values themselves, and what is published of them are three numbers
rounded to one decimal each.

## Three roundings

The old value, the new value and the distance are rounded one by one, to the resolution of the
sensor. So the published distance need not be the distance of the published values: each of the
three is off by up to half a tenth, and in tenths the two differ by at most one. A distance that
is above the threshold may be published as the threshold itself, but not as less, since rounding
keeps the order; the threshold is published as it was given.

This is what the code is made for, and the theorem says exactly how far it goes: for every
detector, after any frames, whatever the filter and the scope. That a reader of the stream
cannot recompute the decision from the published numbers is the counterexample.

## Main results

* `changePayload`: **the published numbers are the rounded values and their rounded distance**,
  and the distance itself exceeds the threshold, which is the one that the event reports.
* `not_consistentPayload`: rounding separates the published distance from that of the published
  values, and from the threshold.
-/

namespace IoBoard

open PyNumber

/-! ### Indices and details -/

namespace Processed

variable {F : Type*} (p : Processed F)

/-- `change_details["old_values"]`, the previous values of the channels that have changed. -/
def oldValues : List F := p.changeDetails.map (·.oldValue)

/-- `change_details["new_values"]`, the values that they have now, on the same scope. -/
def newValues : List F := p.changeDetails.map (·.newValue)

/-- `change_details["deltas"]`, with the sign of the change. -/
def deltas : List F := p.changeDetails.map (·.delta)

/-- The changes with the channels they are of, in the order of the channels. -/
def changes : List (Change F × ℕ) :=
  p.results.zipIdx.filterMap fun (result, i) => result.change.map (·, i)

theorem map_snd_changes : p.changes.map Prod.snd = p.changedIndices := by
  unfold changes changedIndices
  induction p.results.zipIdx with
  | nil => rfl
  | cons entry entries ih =>
      obtain ⟨result, i⟩ := entry
      cases h : result.change <;> simp [h, ih]

theorem map_fst_changes : p.changes.map Prod.fst = p.changeDetails := by
  unfold changes changeDetails
  rw [← List.zipIdx_map_fst 0 p.results, List.filterMap_map, List.zipIdx_map_fst]
  induction p.results.zipIdx with
  | nil => rfl
  | cons entry entries ih =>
      obtain ⟨result, i⟩ := entry
      cases h : result.change <;> simp [h, ih]

/-- The channels come in order. -/
theorem pairwise_changedIndices : p.changedIndices.Pairwise (· < ·) := by
  have hsub : p.changedIndices.Sublist (p.results.zipIdx.map Prod.snd) :=
    List.filter_sublist.map _
  rw [List.zipIdx_map_snd] at hsub
  exact List.Pairwise.sublist hsub List.pairwise_lt_range'

theorem length_changeDetails : p.changeDetails.length = p.changedIndices.length := by
  rw [← map_fst_changes, ← map_snd_changes, List.length_map, List.length_map]

/-- The `j`-th changed channel has the `j`-th details: the lists of a payload belong together entry
by entry. -/
theorem exists_change {j i : ℕ} (h : p.changedIndices[j]? = some i) :
    ∃ result c, p.results[i]? = some result ∧ result.change = some c ∧
      p.changeDetails[j]? = some c := by
  rw [← map_snd_changes, List.getElem?_map, Option.map_eq_some_iff] at h
  obtain ⟨⟨c, i'⟩, hj, rfl⟩ := h
  obtain ⟨⟨result, i⟩, hmem, hc⟩ := List.mem_filterMap.mp (List.mem_of_getElem? hj)
  obtain ⟨c', hc', heq⟩ := Option.map_eq_some_iff.mp hc
  cases heq
  refine ⟨result, c, List.mem_zipIdx_iff_getElem?.mp hmem, hc', ?_⟩
  rw [← map_fst_changes, List.getElem?_map, hj, Option.map_some]

end Processed

/-! ### One channel -/

section Channel

variable {F : Type*} [PyNumber F]

/-- The value that the next reading of the channel is compared with, raw or filtered as the scope
says. -/
def DetectorChannel.previousValue (scope : ThresholdScope) (ch : DetectorChannel F) : Option F :=
  match scope with
  | .raw => ch.previousRaw
  | .filtered => ch.previousFiltered

/-- The threshold test passes for two values that are farther apart than the threshold. -/
theorem DetectorChannel.change_eq_some {threshold compareValue previousValue : Option F}
    {c : Change F} (h : change threshold compareValue previousValue = .ok (some c)) :
    ∃ old new t, previousValue = some old ∧ compareValue = some new ∧ threshold = some t ∧
      ltB t (abs (sub new old)) = true ∧
      c = ⟨round1 old, round1 new, round1 (abs (sub new old))⟩ := by
  cases compareValue with
  | none => cases h
  | some new =>
      cases previousValue with
      | none => cases h
      | some old =>
          cases threshold with
          | none => cases h
          | some t =>
              dsimp only [change] at h
              split_ifs at h with hlt
              · cases h
                exact ⟨old, new, t, rfl, rfl, rfl, hlt, rfl⟩
              · cases h

/-- A change of a channel: from the value stored before the frame to the one stored by it,
farther apart than the threshold. -/
theorem DetectorChannel.change_of_process_eq_some {scope : ThresholdScope} {threshold : Option F}
    {ch ch' : DetectorChannel F} {raw : Str} {result : ChannelResult F} {c : Change F}
    (h : ch.process scope threshold raw = (ch', .ok result)) (hc : result.change = some c) :
    ∃ old new t, ch.previousValue scope = some old ∧ ch'.previousValue scope = some new ∧
      threshold = some t ∧ ltB t (abs (sub new old)) = true ∧
      c = ⟨round1 old, round1 new, round1 (abs (sub new old))⟩ := by
  rw [DetectorChannel.process] at h
  split at h
  · cases h
  · cases scope with
    | raw | filtered =>
        dsimp only at h
        split at h
        · cases h
        · rename_i hok
          obtain ⟨rfl, hresult⟩ := Prod.mk.inj h
          obtain rfl := Except.ok.inj hresult
          obtain rfl := hc
          exact change_eq_some hok

/-- The result of a channel is that of its own part of the frame. -/
theorem exists_process_of_processChannels {scope : ThresholdScope} {thresholds : List F}
    {chs : List (DetectorChannel F)} {raws : List Str} {results : List (ChannelResult F)}
    (h : (processChannels scope thresholds chs raws).2 = .ok results) {i : ℕ}
    {result : ChannelResult F} (hi : results[i]? = some result) :
    ∃ ch ch' raw, chs[i]? = some ch ∧ raws[i]? = some raw ∧
      (processChannels scope thresholds chs raws).1[i]? = some ch' ∧
      ch.process scope thresholds[i]? raw = (ch', .ok result) := by
  induction chs generalizing thresholds raws results i with
  | nil =>
      obtain rfl : [] = results := Except.ok.inj h
      cases hi
  | cons ch chs ih =>
      cases raws with
      | nil =>
          obtain rfl : [] = results := Except.ok.inj h
          cases hi
      | cons raw raws =>
          rw [processChannels] at h ⊢
          split at h
          · cases h
          · rename_i ch' result' hp
            dsimp only at h
            cases htail : (processChannels scope thresholds.tail chs raws).2 with
            | error e =>
                rw [htail] at h
                cases h
            | ok tail =>
                rw [htail] at h
                obtain rfl : result' :: tail = results := Except.ok.inj h
                cases i with
                | zero =>
                    obtain rfl : result' = result := Option.some.inj hi
                    rw [List.head?_eq_getElem?] at hp
                    exact ⟨ch, ch', raw, rfl, rfl, rfl, hp⟩
                | succ i =>
                    have := ih htail hi
                    rw [List.getElem?_tail] at this
                    exact this

end Channel

/-! ### Rounding to one decimal -/

section Round

open PyFloat

theorem round1_fin (a : {q : ℚ // IsDouble q}) :
    round1 (fin a) = ofRat (Binary64.roundEven (10 * a) / 10) :=
  (rfl)

theorem round1_inf (s : Bool) : round1 (inf s) = inf s := rfl

/-- Rounding both keeps the order of two numbers. -/
theorem round1_mono {x y : PyFloat} (h : x.ltB y = true) :
    (round1 y).ltB (round1 x) = false := by
  cases x with
  | nan => cases h
  | fin a =>
      cases y with
      | nan => cases h
      | fin b =>
          rw [ltB_fin, decide_eq_true_eq] at h
          rw [round1_fin, round1_fin]
          refine not_ofRat_ltB (div_le_div_of_nonneg_right ?_ (by norm_num))
          exact_mod_cast Binary64.roundEven_mono (by linarith)
      | inf s =>
          rw [round1_inf, round1_fin]
          cases s
          · exact not_inf_ltB _
          · cases h
  | inf s =>
      cases s
      · cases y <;> cases h
      · rw [round1_inf]
        exact not_ltB_neg_inf _

/-- Away from the limits of the format the tenths of the distance are those of the values, up to
one. The bound leaves the difference exact to far less than a tenth. -/
theorem tenths_sub {a b : {q : ℚ // IsDouble q}} (ha : |(a : ℚ)| ≤ 10 ^ 9)
    (hb : |(b : ℚ)| ≤ 10 ^ 9) : ∃ old new delta : ℤ,
      round1 (fin a) = ofRat (old / 10) ∧ round1 (fin b) = ofRat (new / 10) ∧
      round1 ((fin b).sub (fin a)).abs = ofRat (delta / 10) ∧ |(|new - old| - delta)| ≤ 1 := by
  have hdiff : |(b : ℚ) - a| ≤ (2 * 10 ^ 9 : ℤ) := by
    push_cast
    exact (abs_sub _ _).trans (by linarith)
  obtain ⟨d, hd, hnear, -⟩ := exists_ofRat_eq_fin (isDouble_intCast (by norm_num)) hdiff
  have herror : |(d : ℚ) - (b - a)| ≤ 2 ^ (-22 : ℤ) / 2 := by
    rw [hnear]
    refine Binary64.abs_nearest_sub_le (by norm_num) (hdiff.trans_lt ?_)
    norm_num
  refine ⟨_, _, Binary64.roundEven (10 * |(d : ℚ)|), rfl, rfl, ?_, ?_⟩
  · rw [sub_fin, hd]
    rfl
  · have hold := Binary64.abs_roundEven_sub_le (10 * a)
    have hnew := Binary64.abs_roundEven_sub_le (10 * b)
    have hdelta := Binary64.abs_roundEven_sub_le (10 * |(d : ℚ)|)
    have hdist := (abs_abs_sub_abs_le (d : ℚ) (b - a)).trans herror
    generalize Binary64.roundEven (10 * (a : ℚ)) = ko at hold ⊢
    generalize Binary64.roundEven (10 * (b : ℚ)) = kn at hnew ⊢
    generalize Binary64.roundEven (10 * |(d : ℚ)|) = kd at hdelta ⊢
    -- the tenths of the values move by at most one half each
    have hshift : |(|(kn : ℚ) - ko| - |10 * ((b : ℚ) - a)|)| ≤ 1 := by
      refine (abs_abs_sub_abs_le _ _).trans ?_
      rw [abs_le] at hold hnew ⊢
      constructor <;> linarith
    rw [abs_mul, abs_of_pos (show (0 : ℚ) < 10 by norm_num)] at hshift
    have hlt : |(|(kn : ℚ) - ko| - kd)| < 2 := by
      rw [abs_le] at hshift hdelta hdist
      rw [abs_lt]
      norm_num at hdist
      constructor <;> linarith
    have hint : |(|kn - ko| - kd)| < 2 := by exact_mod_cast hlt
    omega

end Round

/-! ### Frames after frames -/

/-- The detector after a sequence of frames, some of which may have raised. Resets are not among
them; a run begins at any detector. -/
def LoadcellChangeDetector.run {F : Type*} [PyNumber F] (d : LoadcellChangeDetector F)
    (frames : List (List Str)) : LoadcellChangeDetector F :=
  frames.foldl (fun d rawValues => (d.process rawValues).1) d

theorem LoadcellChangeDetector.run_nil {F : Type*} [PyNumber F] (d : LoadcellChangeDetector F) :
    d.run [] = d := rfl

/-- The parts of a result that every change has: indices in ascending order, and one old value, one
new value and one distance for each of them. -/
structure WellFormedPayload {F : Type*} (p : Processed F) : Prop where
  ordered : p.changedIndices.Pairwise (· < ·)
  oldValues : p.oldValues.length = p.changedIndices.length
  newValues : p.newValues.length = p.changedIndices.length
  deltas : p.deltas.length = p.changedIndices.length

/-- What is published of a channel that moved from `old` to `new` past the threshold `t`. The
last part is about values away from the limits of the format: in tenths the published distance
is that of the published values up to one. -/
structure PublishedChange (t old new : PyFloat) (c : Change PyFloat) : Prop where
  rounded : c = ⟨round1 old, round1 new, round1 (new.sub old).abs⟩
  exceeds : t.ltB (new.sub old).abs = true
  notBelow : c.delta.ltB (round1 t) = false
  near : ∀ a b, old = .fin a → new = .fin b → |(a : ℚ)| ≤ 10 ^ 9 → |(b : ℚ)| ≤ 10 ^ 9 →
    ∃ ko kn kd : ℤ, c = ⟨.ofRat (ko / 10), .ofRat (kn / 10), .ofRat (kd / 10)⟩ ∧
      |(|kn - ko| - kd)| ≤ 1

/-- The event of a frame reports the threshold of every changed channel: as one value that all
channels have, or in the list of all of them. -/
theorem eventThreshold_eq {d : LoadcellChangeDetector PyFloat} {i : ℕ} {t : PyFloat}
    (h : d.thresholds[i]? = some t) :
    d.eventThreshold = .inl t ∨ d.eventThreshold = .inr d.thresholds := by
  rw [LoadcellChangeDetector.eventThreshold]
  cases hthresholds : d.thresholds with
  | nil => exact .inr rfl
  | cons first rest =>
      dsimp only
      split_ifs with hall
      · rw [hthresholds] at h
        refine .inl (congrArg Sum.inl ?_)
        cases i with
        | zero => exact Option.some.inj h
        | succ i => exact PyFloat.eq_of_eqB (List.all_eq_true.mp hall t (List.mem_of_getElem? h))
      · exact .inr rfl

/-- **The payload of changes.** After any frames, a result of the next frame lists its changed
channels in order, with as many old values, new values and distances. Those of a channel are the
value stored before the frame, the one stored by it and their distance, each rounded to one
decimal, and the distance before it is rounded exceeds the threshold of the channel, so that the
rounded one is not below the rounded threshold. That threshold is the one that the event reports,
be it as the one value of all channels or in the list of them. -/
theorem changePayload (d : LoadcellChangeDetector PyFloat) (frames : List (List Str))
    (rawValues : List Str) (p : Processed PyFloat)
    (h : ((d.run frames).process rawValues).2 = .ok p) :
    WellFormedPayload p ∧
    ∀ j i : ℕ, p.changedIndices[j]? = some i →
      ∃ (ch ch' : DetectorChannel PyFloat) (t old new : PyFloat) (c : Change PyFloat),
        (d.run frames).channels[i]? = some ch ∧
        ((d.run frames).process rawValues).1.channels[i]? = some ch' ∧
        (d.run frames).thresholds[i]? = some t ∧
        ch.previousValue (d.run frames).thresholdScope = some old ∧
        ch'.previousValue (d.run frames).thresholdScope = some new ∧
        p.oldValues[j]? = some c.oldValue ∧ p.newValues[j]? = some c.newValue ∧
        p.deltas[j]? = some c.delta ∧
        ((d.run frames).eventThreshold = .inl t ∨
          (d.run frames).eventThreshold = .inr (d.run frames).thresholds) ∧
        PublishedChange t old new c := by
  generalize d.run frames = d at h ⊢
  rw [LoadcellChangeDetector.process] at h ⊢
  split_ifs at h ⊢
  dsimp only at h ⊢
  cases hresults : (processChannels d.thresholdScope d.thresholds d.channels rawValues).2 with
  | error e =>
      rw [hresults] at h
      cases h
  | ok results =>
      rw [hresults] at h
      obtain rfl : ⟨results⟩ = p := Except.ok.inj h
      have hlen := Processed.length_changeDetails ⟨results⟩
      refine ⟨⟨Processed.pairwise_changedIndices _, ?_, ?_, ?_⟩, fun j i hj => ?_⟩
      · rw [Processed.oldValues, List.length_map, hlen]
      · rw [Processed.newValues, List.length_map, hlen]
      · rw [Processed.deltas, List.length_map, hlen]
      obtain ⟨result, c, hi, hc, hdetails⟩ := Processed.exists_change _ hj
      obtain ⟨ch, ch', raw, hch, -, hch', hprocess⟩ :=
        exists_process_of_processChannels hresults hi
      obtain ⟨old, new, t, hold, hnew, ht, hlt, rfl⟩ :=
        DetectorChannel.change_of_process_eq_some hprocess hc
      refine ⟨ch, ch', t, old, new, _, hch, hch', ht, hold, hnew, ?_, ?_, ?_,
        eventThreshold_eq ht, rfl, hlt, round1_mono hlt, ?_⟩
      · rw [Processed.oldValues, List.getElem?_map, hdetails, Option.map_some]
      · rw [Processed.newValues, List.getElem?_map, hdetails, Option.map_some]
      · rw [Processed.deltas, List.getElem?_map, hdetails]
        rfl
      · rintro a b rfl rfl ha hb
        obtain ⟨ko, kn, kd, hko, hkn, hkd, hnear⟩ := tenths_sub ha hb
        exact ⟨ko, kn, kd, Change.mk.injEq .. ▸ ⟨hko, hkn, hkd⟩, hnear⟩

/-! ### A smoothed step -/

/-- A frame whose first channel reads `raw` and whose other channels read zero, so that only the
first one can change. -/
def firstChannel (raw : Str) : List Str :=
  raw :: List.replicate 9 "+00000".toList

/-- A detector with exponential smoothing and a threshold of a tenth of a gram, which has seen
a step from 10.0 g to 10.7 g. -/
def smoothStep : LoadcellChangeDetector PyFloat :=
  (LoadcellChangeDetector.new .exponential (List.replicate 10 (.ofRat (1 / 10))) .filtered
    (.ofRat (1 / 5)) 0 0).run [firstChannel "+010.0".toList, firstChannel "+010.7".toList]

/-- The next frame moves the channel from 10.14 g to 10.252 g, and a distance of 0.1 g is
published. -/
theorem exists_smoothStep_process : ∃ p : Processed PyFloat,
    (smoothStep.process (firstChannel "+010.7".toList)).2 = .ok p ∧
      p.changedIndices = [0] ∧ p.deltas = [.ofRat (1 / 10)] := by
  have hdeltas : (smoothStep.process (firstChannel "+010.7".toList)).2.toOption.map
      (fun p => (p.changedIndices, p.deltas)) = some ([0], [.ofRat (1 / 10)]) := by
    decide +kernel
  cases hp : (smoothStep.process (firstChannel "+010.7".toList)).2 with
  | error e =>
      rw [hp] at hdeltas
      cases hdeltas
  | ok p =>
      rw [hp] at hdeltas
      obtain ⟨hindices, hdelta⟩ := Prod.mk.inj (Option.some.inj hdeltas)
      exact ⟨p, rfl, hindices, hdelta⟩

/-- The step is published as the rounded values and their rounded distance. -/
theorem changePayload_smoothStep : ∃ (p : Processed PyFloat) (t old new : PyFloat)
    (c : Change PyFloat), (smoothStep.process (firstChannel "+010.7".toList)).2 = .ok p ∧
      WellFormedPayload p ∧ p.deltas = [c.delta] ∧ PublishedChange t old new c := by
  obtain ⟨p, hp, hindices, hdelta⟩ := exists_smoothStep_process
  obtain ⟨hform, hchanges⟩ := changePayload smoothStep [] (firstChannel "+010.7".toList) p
    (by rw [LoadcellChangeDetector.run_nil, hp])
  obtain ⟨-, -, t, old, new, c, -, -, -, -, -, -, -, hc, -, hpublished⟩ :=
    hchanges 0 0 (by rw [hindices]; rfl)
  rw [hdelta] at hc
  exact ⟨p, t, old, new, c, hp, hform, by rw [hdelta, Option.some.inj hc], hpublished⟩

/-- What a payload is that can be read without rounding: each distance is that of its values
and exceeds the threshold of the channel. -/
def ConsistentPayload (thresholds : List PyFloat) (p : Processed PyFloat) : Prop :=
  WellFormedPayload p ∧
  ∀ j i : ℕ, p.changedIndices[j]? = some i → ∃ old new delta t : PyFloat,
    p.oldValues[j]? = some old ∧ p.newValues[j]? = some new ∧ p.deltas[j]? = some delta ∧
      thresholds[i]? = some t ∧ delta = (new.sub old).abs ∧ t.ltB delta = true

/-- The values published for the step are 10.1 and 10.3: the distance of 0.1 is not theirs, and
it is not above the threshold. -/
theorem not_consistentPayload : ¬ ∀ (d : LoadcellChangeDetector PyFloat) (frames : List (List Str))
    (rawValues : List Str) (p : Processed PyFloat),
    ((d.run frames).process rawValues).2 = .ok p →
      ConsistentPayload (d.run frames).thresholds p := by
  intro h
  obtain ⟨p, hp, hindices, hdelta⟩ := exists_smoothStep_process
  obtain ⟨-, hchanges⟩ := h smoothStep [] (firstChannel "+010.7".toList) p
    (by rw [LoadcellChangeDetector.run_nil, hp])
  rw [LoadcellChangeDetector.run_nil] at hchanges
  obtain ⟨old, new, delta, t, -, -, hd, ht, -, hlt⟩ := hchanges 0 0 (by rw [hindices]; rfl)
  have hthreshold : smoothStep.thresholds[0]? = some (.ofRat (1 / 10)) := by decide +kernel
  rw [hdelta] at hd
  obtain rfl := Option.some.inj hd
  obtain rfl := Option.some.inj (hthreshold.symm.trans ht)
  exact absurd hlt (by decide +kernel)

end IoBoard
