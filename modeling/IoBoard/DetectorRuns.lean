import IoBoard.ChangePayload

/-!
# Runs of the Detector

A detector that reads frame after frame, seen from one of its channels: the filter of the
channel goes on by itself, and the frame reports the channel when the values it compares are
farther apart than the threshold of the channel. Nothing of this depends on how the numbers
are computed, so it is stated for any type of numbers.

A frame is lost as a whole when one of its channels raises. What keeps the channels from it is
stated of the filters alone (`LoadcellFilter.Steady`): a set of filters and a set of readings
such that the readings neither make a filter of the set raise nor lead out of the set. On exact
numbers all tuned filters and all readings are such sets, on floats only readings and noise
covariances that do not overflow.

## Conventions

A detector is given as it stands when the reading of the channel changes, and reads
`frames n` as its frame number `n` from there. `Settled` says that the channel comes from one
or more readings of `a` that the filter has come to rest at; the other channels are arbitrary,
as are their readings.

## Main results

* `LoadcellChangeDetector.ReachedBy.sound`: **every detector that is reached by such readings
  is sound**, that is, its filters are all in the set.
* `LoadcellChangeDetector.exists_onItsWay`: the channel on its way, frame by frame.
* `LoadcellChangeDetector.reported_at_iff`: **a frame reports the channel if and only if the
  values that it compares are farther apart than the threshold**.
-/

namespace IoBoard

open PyNumber

variable {F : Type*} [PyNumber F]

/-- All numeric readings of the frame are of the set. Error markers and other texts may be among
them. -/
def ReadsOnly (readings : F → Prop) (raws : List Str) : Prop :=
  ∀ raw ∈ raws, ∀ b, parseValue raw = some b → readings b

/-! ### Channels -/

/-- A channel whose filter is of the set and keeps the previous filtered value: the filter and the
detector store the same number. -/
structure DetectorChannel.Sound (filters : LoadcellFilter F → Prop) (ch : DetectorChannel F) :
    Prop where
  filter : filters ch.filter
  holds : ∀ x, ch.previousFiltered = some x → ch.filter.Holds x

namespace DetectorChannel

variable {filters : LoadcellFilter F → Prop} {readings : F → Prop}

/-- The value that a reading is compared as: itself, or what the filter makes of it, by the
scope of the threshold. -/
def compared (scope : ThresholdScope) (ch : DetectorChannel F) (b : F) : F :=
  match scope with
  | .raw => b
  | .filtered => (ch.filter.next b).2

/-- A numeric reading of a channel with a threshold: it is a change if and only if the values
compared are farther apart than the threshold. -/
theorem exists_process (scope : ThresholdScope) (threshold : F) (ch : DetectorChannel F)
    {raw : Str} {b : F} (hb : parseValue raw = some b)
    (hformat : ∃ text, formatValue (ch.filter.next b).2 = .ok text) : ∃ result,
      ch.process scope (some threshold) raw =
        (⟨(ch.filter.next b).1, some b, some (ch.filter.next b).2⟩, .ok result) ∧
      ∀ old, ch.previousValue scope = some old →
        (result.change.isSome ↔ ltB threshold (abs (sub (ch.compared scope b) old)) = true) := by
  obtain ⟨text, hfilter⟩ := ch.filter.exists_filter_of_formatValue hb hformat
  have hchange (new : F) (previous : Option F) : ∃ c,
      change (some threshold) (some new) previous = .ok c ∧
        ∀ old, previous = some old → (c.isSome ↔ ltB threshold (abs (sub new old)) = true) := by
    cases previous with
    | none => exact ⟨none, rfl, fun old h => nomatch h⟩
    | some old =>
        refine ⟨_, rfl, fun old' h => ?_⟩
        obtain rfl := Option.some.inj h
        split_ifs with hlt
        · simpa using hlt
        · simpa using hlt
  cases scope with
  | raw =>
      obtain ⟨c, hc, hiff⟩ := hchange b ch.previousRaw
      refine ⟨⟨text, some (ch.filter.next b).2, c⟩, ?_, hiff⟩
      rw [process, hfilter, hb]
      dsimp only
      rw [hc]
  | filtered =>
      obtain ⟨c, hc, hiff⟩ := hchange (ch.filter.next b).2 ch.previousFiltered
      refine ⟨⟨text, some (ch.filter.next b).2, c⟩, ?_, hiff⟩
      rw [process, hfilter, hb]
      dsimp only
      rw [hc]

/-- A channel with a threshold does not raise, and stays sound. -/
theorem Sound.process {ch : DetectorChannel F} (hsteady : LoadcellFilter.Steady filters readings)
    (h : ch.Sound filters) (scope : ThresholdScope) (threshold : F) {raw : Str}
    (hraw : ∀ b, parseValue raw = some b → readings b) : ∃ ch' result,
      ch.process scope (some threshold) raw = (ch', .ok result) ∧ ch'.Sound filters := by
  cases hb : (parseValue raw : Option F) with
  | some b =>
      have hreading := hraw b hb
      obtain ⟨result, hresult, -⟩ := exists_process scope threshold ch hb
        (hsteady.format _ b h.filter hreading)
      refine ⟨_, result, hresult, hsteady.next _ b h.filter hreading, fun x hx => ?_⟩
      obtain rfl := Option.some.inj hx
      exact ch.filter.holds_next b
  | none =>
      refine ⟨⟨ch.filter, none, none⟩, ⟨raw, none, none⟩, ?_, h.filter, fun x hx => nomatch hx⟩
      rw [DetectorChannel.process, LoadcellFilter.filter_of_parseValue_eq_none hb, hb]
      cases scope <;> rfl

theorem Sound.reset {ch : DetectorChannel F} (hsteady : LoadcellFilter.Steady filters readings)
    (h : ch.Sound filters) : ch.reset.Sound filters :=
  ⟨hsteady.reset _ h.filter, fun _ hx => nomatch hx⟩

end DetectorChannel

section Channels

variable {filters : LoadcellFilter F → Prop} {readings : F → Prop}

/-- The loop over the channels does not raise while every channel has a threshold. -/
theorem exists_processChannels (hsteady : LoadcellFilter.Steady filters readings)
    (scope : ThresholdScope) {thresholds : List F} {chs : List (DetectorChannel F)}
    {raws : List Str} (hthresholds : thresholds.length = chs.length)
    (hraws : raws.length = chs.length) (hreadings : ReadsOnly readings raws)
    (hchs : ∀ ch ∈ chs, ch.Sound filters) : ∃ results,
      (processChannels scope thresholds chs raws).2 = .ok results ∧
      results.length = chs.length ∧
      (processChannels scope thresholds chs raws).1.length = chs.length ∧
      ∀ ch ∈ (processChannels scope thresholds chs raws).1, ch.Sound filters := by
  induction chs generalizing thresholds raws with
  | nil => exact ⟨[], rfl, rfl, rfl, List.forall_mem_nil _⟩
  | cons ch chs ih =>
      obtain ⟨threshold, thresholds, rfl⟩ := List.exists_cons_of_length_eq_add_one hthresholds
      obtain ⟨raw, raws, rfl⟩ := List.exists_cons_of_length_eq_add_one hraws
      obtain ⟨hch, hrest⟩ := List.forall_mem_cons.mp hchs
      obtain ⟨hraw, hreadings⟩ := List.forall_mem_cons.mp hreadings
      obtain ⟨ch', result, hprocess, hsound⟩ := hch.process hsteady scope threshold hraw
      obtain ⟨results, hresults, hlen, hlen', hsounds⟩ :=
        ih (Nat.succ.inj hthresholds) (Nat.succ.inj hraws) hreadings hrest
      rw [processChannels, List.head?_cons, hprocess]
      dsimp only
      rw [List.tail_cons, hresults]
      exact ⟨result :: results, rfl, congrArg (· + 1) hlen, congrArg (· + 1) hlen',
        List.forall_mem_cons.mpr ⟨hsound, hsounds⟩⟩

omit [PyNumber F] in
theorem Processed.mem_changedIndices {p : Processed F} {i : ℕ} {result : ChannelResult F}
    (h : p.results[i]? = some result) : i ∈ p.changedIndices ↔ result.change.isSome := by
  rw [changedIndices, List.mem_map]
  constructor
  · rintro ⟨⟨result', i⟩, hmem, rfl⟩
    obtain ⟨hzip, hchange⟩ := List.mem_filter.mp hmem
    rw [List.mem_zipIdx_iff_getElem?] at hzip
    obtain rfl := Option.some.inj (h.symm.trans hzip)
    exact hchange
  · intro hchange
    exact ⟨(result, i), List.mem_filter.mpr ⟨List.mem_zipIdx_iff_getElem?.mpr h, hchange⟩, rfl⟩

end Channels

namespace LoadcellChangeDetector

/-! ### Detectors and their frames -/

/-- The detectors of the service: made with a threshold for each of the ten channels, and then
given frames and reset in any order. -/
inductive Reached : LoadcellChangeDetector F → Prop
  | new {method : FilterMethod} {thresholds : List F} {scope : ThresholdScope} {alpha q r : F}
      (h : thresholds.length = 10) : Reached (new method thresholds scope alpha q r)
  | process {d : LoadcellChangeDetector F} (rawValues : List Str) :
      Reached d → Reached (d.process rawValues).1
  | reset {d : LoadcellChangeDetector F} : Reached d → Reached d.reset

/-- The detectors of the service that are made with noise covariances of one set and given
readings of another. Frames may be of any length, and resets stand anywhere. -/
inductive ReachedBy (noise readings : F → Prop) : LoadcellChangeDetector F → Prop
  | new {method : FilterMethod} {thresholds : List F} {scope : ThresholdScope} {alpha q r : F}
      (h : thresholds.length = 10) (hq : noise q) (hr : noise r) :
      ReachedBy noise readings (new method thresholds scope alpha q r)
  | process {d : LoadcellChangeDetector F} {rawValues : List Str}
      (h : ReadsOnly readings rawValues) :
      ReachedBy noise readings d → ReachedBy noise readings (d.process rawValues).1
  | reset {d : LoadcellChangeDetector F} :
      ReachedBy noise readings d → ReachedBy noise readings d.reset

/-- The channel `i`, with the previous values `a`: the reading and the filtered value have both been
`a` in the frame before. -/
structure Settled (d : LoadcellChangeDetector F) (i : ℕ) (ch : DetectorChannel F) (a : F) :
    Prop where
  channel : d.channels[i]? = some ch
  raw : ch.previousRaw = some a
  filtered : ch.previousFiltered = some a

/-- All frames have ten readings, and the one of channel `i` is `b`. The others may be anything. -/
def ReadsAlways (frames : ℕ → List Str) (i : ℕ) (b : F) : Prop :=
  ∀ n, (frames n).length = 10 ∧ ∃ raw, (frames n)[i]? = some raw ∧ parseValue raw = some b

/-- The detector after the first `n` frames of an infinite sequence. -/
def afterFrames (d : LoadcellChangeDetector F) (frames : ℕ → List Str) (n : ℕ) :
    LoadcellChangeDetector F :=
  d.run ((List.range n).map frames)

/-- Some frame reports channel `i` in `changed_indices`, now or at any later time. A channel that is
reported never is one whose change is lost. -/
def Reported (d : LoadcellChangeDetector F) (frames : ℕ → List Str) (i : ℕ) : Prop :=
  ∃ n p, ((d.afterFrames frames n).process (frames n)).2 = .ok p ∧ i ∈ p.changedIndices

@[simp] theorem afterFrames_zero (d : LoadcellChangeDetector F) (frames : ℕ → List Str) :
    d.afterFrames frames 0 = d := rfl

theorem afterFrames_succ (d : LoadcellChangeDetector F) (frames : ℕ → List Str) (n : ℕ) :
    d.afterFrames frames (n + 1) = ((d.afterFrames frames n).process (frames n)).1 := by
  rw [afterFrames, afterFrames, run, List.range_succ, List.map_append, List.foldl_append]
  rfl

@[simp] theorem process_thresholds (d : LoadcellChangeDetector F) (rawValues : List Str) :
    (d.process rawValues).1.thresholds = d.thresholds := by
  rw [process]
  split_ifs <;> rfl

@[simp] theorem process_thresholdScope (d : LoadcellChangeDetector F) (rawValues : List Str) :
    (d.process rawValues).1.thresholdScope = d.thresholdScope := by
  rw [process]
  split_ifs <;> rfl

theorem afterFrames_settings (d : LoadcellChangeDetector F) (frames : ℕ → List Str) (n : ℕ) :
    (d.afterFrames frames n).thresholds = d.thresholds ∧
      (d.afterFrames frames n).thresholdScope = d.thresholdScope := by
  induction n with
  | zero => exact ⟨rfl, rfl⟩
  | succ n ih => simpa [afterFrames_succ] using ih

theorem Reached.reachedBy {d : LoadcellChangeDetector F} (h : d.Reached) :
    d.ReachedBy (fun _ => True) fun _ => True := by
  induction h with
  | new h => exact .new h trivial trivial
  | process rawValues _ ih => exact ih.process fun _ _ _ _ => trivial
  | reset _ ih => exact ih.reset

/-- Ten sound channels with a threshold each. No frame raises on such a detector. -/
structure Sound (filters : LoadcellFilter F → Prop) (d : LoadcellChangeDetector F) : Prop where
  thresholds : d.thresholds.length = 10
  channels : d.channels.length = 10
  sound : ∀ ch ∈ d.channels, ch.Sound filters

variable {filters : LoadcellFilter F → Prop} {readings noise : F → Prop}
  {d : LoadcellChangeDetector F}

/-- A frame of ten readings does not raise. -/
theorem Sound.exists_process (hsteady : LoadcellFilter.Steady filters readings)
    (h : d.Sound filters) {rawValues : List Str} (hlen : rawValues.length = 10)
    (hreadings : ReadsOnly readings rawValues) :
    ∃ chs results, processChannels d.thresholdScope d.thresholds d.channels rawValues =
      (chs, .ok results) ∧
      d.process rawValues = ({ d with channels := chs }, .ok ⟨results⟩) ∧
      results.length = 10 ∧
      ({ d with channels := chs } : LoadcellChangeDetector F).Sound filters := by
  obtain ⟨results, hresults, hlen', hchs, hsound⟩ := exists_processChannels hsteady
    d.thresholdScope (h.thresholds.trans h.channels.symm) (hlen.trans h.channels.symm) hreadings
    h.sound
  refine ⟨_, results, Prod.ext rfl hresults, ?_, hlen'.trans h.channels,
    h.thresholds, hchs.trans h.channels, hsound⟩
  rw [process, if_neg (not_not.mpr hlen)]
  dsimp only
  rw [hresults]
  rfl

/-- A frame of another length raises before it is read. -/
theorem Sound.process (hsteady : LoadcellFilter.Steady filters readings) (h : d.Sound filters)
    {rawValues : List Str} (hreadings : ReadsOnly readings rawValues) :
    (d.process rawValues).1.Sound filters := by
  by_cases hlen : rawValues.length = 10
  · obtain ⟨chs, results, -, hprocess, -, hsound⟩ := h.exists_process hsteady hlen hreadings
    rw [hprocess]
    exact hsound
  · rw [LoadcellChangeDetector.process, if_pos hlen]
    exact h

theorem Sound.reset (hsteady : LoadcellFilter.Steady filters readings) (h : d.Sound filters) :
    d.reset.Sound filters := by
  refine ⟨h.thresholds, (List.length_map _).trans h.channels, fun ch hch => ?_⟩
  obtain ⟨ch', hmem, rfl⟩ := List.mem_map.mp hch
  exact (h.sound ch' hmem).reset hsteady

theorem Sound.afterFrames (hsteady : LoadcellFilter.Steady filters readings) (h : d.Sound filters)
    {frames : ℕ → List Str} (hreadings : ∀ n, ReadsOnly readings (frames n)) (n : ℕ) :
    (d.afterFrames frames n).Sound filters := by
  induction n with
  | zero => exact h
  | succ n ih => exact d.afterFrames_succ frames n ▸ ih.process hsteady (hreadings n)

/-- **Every detector that is reached by such readings is sound.** -/
theorem ReachedBy.sound (hsteady : LoadcellFilter.Steady filters readings)
    (hnew : ∀ method alpha q r, noise q → noise r → filters (createFilter method alpha q r))
    (h : d.ReachedBy noise readings) : d.Sound filters := by
  induction h with
  | @new method thresholds scope alpha q r h hq hr =>
      refine ⟨h, List.length_replicate, fun ch hch => ?_⟩
      obtain rfl := List.eq_of_mem_replicate hch
      exact ⟨hnew method alpha q r hq hr, fun _ hx => nomatch hx⟩
  | process hreadings _ ih => exact ih.process hsteady hreadings
  | reset _ ih => exact ih.reset hsteady

/-- One frame, seen from one of its channels: the other channels neither raise nor take part. -/
theorem Sound.exists_change (hsteady : LoadcellFilter.Steady filters readings)
    (h : d.Sound filters) {rawValues : List Str} {i : ℕ} {raw : Str} {b T : F}
    {ch : DetectorChannel F} (hlen : rawValues.length = 10)
    (hreadings : ReadsOnly readings rawValues) (hch : d.channels[i]? = some ch)
    (hraw : rawValues[i]? = some raw) (hb : parseValue raw = some b)
    (hT : d.thresholds[i]? = some T) : ∃ p,
      (d.process rawValues).2 = .ok p ∧
      (d.process rawValues).1.channels[i]? =
        some ⟨(ch.filter.next b).1, some b, some (ch.filter.next b).2⟩ ∧
      ∀ old, ch.previousValue d.thresholdScope = some old →
        (i ∈ p.changedIndices ↔
          ltB T (abs (sub (ch.compared d.thresholdScope b) old)) = true) := by
  obtain ⟨chs, results, hchannels, hprocess, hlen', -⟩ := h.exists_process hsteady hlen hreadings
  have hi : i < results.length := by
    obtain ⟨hlt, -⟩ := List.getElem?_eq_some_iff.mp hch
    rw [h.channels] at hlt
    omega
  obtain ⟨ch₁, ch', raw₁, hch₁, hraw₁, hch', hresult⟩ :=
    exists_process_of_processChannels (congrArg Prod.snd hchannels)
      (List.getElem?_eq_getElem hi)
  obtain rfl := Option.some.inj (hch.symm.trans hch₁)
  obtain rfl := Option.some.inj (hraw.symm.trans hraw₁)
  have hformat := hsteady.format _ b (h.sound ch (List.mem_of_getElem? hch)).filter
    (hreadings raw (List.mem_of_getElem? hraw) b hb)
  obtain ⟨result, hresult', hiff⟩ :=
    DetectorChannel.exists_process d.thresholdScope T ch hb hformat
  rw [hT, hresult'] at hresult
  obtain ⟨rfl, hok⟩ := Prod.mk.inj hresult
  obtain rfl := Except.ok.inj hok
  refine ⟨⟨results⟩, congrArg Prod.snd hprocess, ?_, fun old hold => ?_⟩
  · rw [hprocess]
    rw [hchannels] at hch'
    exact hch'
  · rw [← hiff old hold]
    exact Processed.mem_changedIndices (List.getElem?_eq_getElem hi)

/-! ### One channel on its way -/

/-- The channel after `n` readings of `b`, having settled at `a`: its filter, and the values
that the next frame is compared with. -/
structure OnItsWay (ch ch' : DetectorChannel F) (a b : F) (n : ℕ) : Prop where
  filter : ch'.filter = ch.filter.after b n
  raw : ch'.previousRaw = some (if n = 0 then a else b)
  filtered : ch'.previousFiltered = some (ch.filter.values a b n)

/-- How far the values are apart that the frame after `n` frames compares. With raw values only the
first frame sees a difference. -/
def distance (scope : ThresholdScope) (f : LoadcellFilter F) (a b : F) (n : ℕ) : F :=
  match scope with
  | .raw => abs (sub b (if n = 0 then a else b))
  | .filtered => abs (sub (f.values a b (n + 1)) (f.values a b n))

variable {i : ℕ} {a b T : F} {ch : DetectorChannel F} {frames : ℕ → List Str}

/-- **The channel on its way**, frame by frame. -/
theorem exists_onItsWay (hsteady : LoadcellFilter.Steady filters readings) (hd : d.Sound filters)
    (hch : d.Settled i ch a) (hT : d.thresholds[i]? = some T) (hframes : ReadsAlways frames i b)
    (hreadings : ∀ n, ReadsOnly readings (frames n)) (n : ℕ) : ∃ ch',
      (d.afterFrames frames n).channels[i]? = some ch' ∧ OnItsWay ch ch' a b n := by
  induction n with
  | zero => exact ⟨ch, hch.channel, rfl, hch.raw, hch.filtered⟩
  | succ n ih =>
      obtain ⟨ch', hch', hway⟩ := ih
      have hsound := hd.afterFrames hsteady hreadings n
      have hthreshold : (d.afterFrames frames n).thresholds[i]? = some T := by
        rw [(d.afterFrames_settings frames n).1, hT]
      obtain ⟨hlen, raw, hraw, hb⟩ := hframes n
      obtain ⟨-, -, hnext, -⟩ :=
        hsound.exists_change hsteady hlen (hreadings n) hch' hraw hb hthreshold
      refine ⟨_, by rw [afterFrames_succ, hnext], ?_, rfl, ?_⟩
      · rw [hway.filter]
        rfl
      · rw [hway.filter]
        rfl

/-- **A frame reports the channel if and only if the values that it compares are farther apart
than the threshold.** -/
theorem reported_at_iff (hsteady : LoadcellFilter.Steady filters readings) (hd : d.Sound filters)
    (hch : d.Settled i ch a) (hT : d.thresholds[i]? = some T) (hframes : ReadsAlways frames i b)
    (hreadings : ∀ n, ReadsOnly readings (frames n)) (n : ℕ) :
    (∃ p, ((d.afterFrames frames n).process (frames n)).2 = .ok p ∧ i ∈ p.changedIndices) ↔
      ltB T (distance d.thresholdScope ch.filter a b n) = true := by
  have hsound := hd.afterFrames hsteady hreadings n
  obtain ⟨hthresholds, hscope⟩ := d.afterFrames_settings frames n
  obtain ⟨ch', hch', hway⟩ := exists_onItsWay hsteady hd hch hT hframes hreadings n
  obtain ⟨hlen, raw, hraw, hb⟩ := hframes n
  obtain ⟨p, hp, -, hiff⟩ :=
    hsound.exists_change hsteady hlen (hreadings n) hch' hraw hb (by rw [hthresholds, hT])
  have hdistance : ∃ old, ch'.previousValue d.thresholdScope = some old ∧
      abs (sub (ch'.compared d.thresholdScope b) old) =
        distance d.thresholdScope ch.filter a b n := by
    cases d.thresholdScope with
    | raw => exact ⟨_, hway.raw, rfl⟩
    | filtered =>
        refine ⟨_, hway.filtered, ?_⟩
        rw [DetectorChannel.compared, hway.filter]
        rfl
  obtain ⟨old, hold, hdist⟩ := hdistance
  rw [hscope] at hiff
  rw [← hdist, ← hiff old hold]
  constructor
  · rintro ⟨p', hp', hmem⟩
    obtain rfl := Except.ok.inj (hp.symm.trans hp')
    exact hmem
  · exact fun hmem => ⟨p, hp, hmem⟩

/-- With raw values the first frame after the change reports it. -/
theorem reported_of_raw (hsteady : LoadcellFilter.Steady filters readings) (hd : d.Sound filters)
    (hch : d.Settled i ch a) (hT : d.thresholds[i]? = some T) (hframes : ReadsAlways frames i b)
    (hreadings : ∀ n, ReadsOnly readings (frames n)) (hscope : d.thresholdScope = .raw)
    (hstep : ltB T (abs (sub b a)) = true) : d.Reported frames i := by
  refine ⟨0, (reported_at_iff hsteady hd hch hT hframes hreadings 0).mpr ?_⟩
  rw [hscope]
  exact hstep

end LoadcellChangeDetector

end IoBoard
