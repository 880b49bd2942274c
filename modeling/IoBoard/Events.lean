import IoBoard.Filters

/-!
# Change Detection

`io_board/events.py`: the detector behind the loadcell events. Each channel has its filter
and its previous raw and filtered values; a reading is a change when it differs from the
previous one by more than the threshold of its channel.

## Conventions

* The lists of the source that are indexed by channel (`_filters`, `_previous_raw`, …) are
  one list of channels. The thresholds are a list of their own, as in the source: nothing
  in the class says that there are ten, and a channel without one raises `IndexError`.
* Which of the previous values is compared depends on the scope, but both are stored. A
  value is stored for the next frame only if it is a number: an error marker leaves the
  previous values, and the next number is compared with the last one before it.
* `process` updates the channels one after the other. A frame that raises ends at the
  raising channel: the channels before it have moved on, the channels after it have not.
* A result keeps its channel's text, value and change; the lists that `process` returns are
  read off the results.

## Main results

* `LoadcellChangeDetector.reset_process`: **resetting forgets** every frame.
* `LoadcellChangeDetector.Unread`: a detector that has nothing to compare with, which a reset
  makes and a failed poll keeps.
* `LoadcellChangeDetector.Unread.changedIndices`: **its next frame changes nothing**.
-/

namespace IoBoard

open PyNumber

/-- What the detector keeps for one channel: the filter, and the last raw and filtered numbers.
In the source these are three parallel lists. -/
structure DetectorChannel (F : Type*) where
  filter : LoadcellFilter F
  previousRaw : Option F := none
  previousFiltered : Option F := none

/-- The `change_details` of one channel, rounded to the resolution of the sensor. The test is on the
unrounded difference. -/
structure Change (F : Type*) where
  oldValue : F
  newValue : F
  delta : F

/-- What `process` finds out about one channel: the text and the number of its filtered value,
and the change, if there is one. -/
structure ChannelResult (F : Type*) where
  filteredString : Str
  filteredNumeric : Option F
  change : Option (Change F)

/-- `LoadcellChangeDetector`: a filter and a threshold for each channel, and the scope of the
thresholds. -/
structure LoadcellChangeDetector (F : Type*) where
  filterMethod : FilterMethod
  thresholdScope : ThresholdScope
  thresholds : List F
  channels : List (DetectorChannel F)

/-- What `process` returns: the results of the channels, in order. -/
structure Processed (F : Type*) where
  results : List (ChannelResult F)

namespace Processed

variable {F : Type*} (p : Processed F)

/-- `filtered_strings`. -/
def filteredStrings : List Str := p.results.map (·.filteredString)

/-- `filtered_numerics`. -/
def filteredNumerics : List (Option F) := p.results.map (·.filteredNumeric)

/-- `changed_indices`, in ascending order, counted from zero. -/
def changedIndices : List ℕ :=
  (p.results.zipIdx.filter fun (result, _) => result.change.isSome).map Prod.snd

/-- `change_details`, channel by channel. -/
def changeDetails : List (Change F) := p.results.filterMap (·.change)

end Processed

variable {F : Type*} [PyNumber F]

namespace DetectorChannel

/-- The threshold test of a channel: strictly above. Without two numbers there is no change, and the
threshold is not looked at. An `IndexError` where it has no threshold. -/
def change (threshold : Option F) (compareValue previousValue : Option F) :
    Except PyExc (Option (Change F)) :=
  match compareValue, previousValue with
  | some new, some old =>
      let delta := abs (sub new old)
      match threshold with
      | none => .error (.other "IndexError")
      | some threshold =>
          .ok (if ltB threshold delta then some ⟨round1 old, round1 new, round1 delta⟩ else none)
  | _, _ => .ok none

/-- One channel of the loop of `process`. -/
def process (scope : ThresholdScope) (threshold : Option F) (ch : DetectorChannel F)
    (raw : Str) : DetectorChannel F × Except PyExc (ChannelResult F) :=
  match ch.filter.filter raw with
  | (filter', .error e) => ({ ch with filter := filter' }, .error e)
  | (filter', .ok (filteredStr, filteredNum)) =>
      let rawNum := parseValue raw
      let change := match scope with
        | .raw => change threshold rawNum ch.previousRaw
        | .filtered => change threshold filteredNum ch.previousFiltered
      match change with
      | .error e => ({ ch with filter := filter' }, .error e)
      | .ok change => (⟨filter', rawNum, filteredNum⟩, .ok ⟨filteredStr, filteredNum, change⟩)

/-- A channel without previous values. -/
def reset (ch : DetectorChannel F) : DetectorChannel F where
  filter := ch.filter.reset

end DetectorChannel

/-- The loop of `process` over the channels. A channel that raises ends it, and those before it
have been changed already. -/
def processChannels (scope : ThresholdScope) : List F → List (DetectorChannel F) → List Str →
    List (DetectorChannel F) × Except PyExc (List (ChannelResult F))
  | thresholds, ch :: chs, raw :: raws =>
      match ch.process scope thresholds.head? raw with
      | (ch', .error e) => (ch' :: chs, .error e)
      | (ch', .ok result) =>
          let rest := processChannels scope thresholds.tail chs raws
          (ch' :: rest.1, rest.2.map (result :: ·))
  | _, chs, _ => (chs, .ok [])

namespace LoadcellChangeDetector

/-- `__init__`: ten channels, with the filter that `create_filter` makes. -/
def new (filterMethod : FilterMethod) (thresholds : List F) (thresholdScope : ThresholdScope)
    (alpha q r : F) : LoadcellChangeDetector F where
  filterMethod := filterMethod
  thresholdScope := thresholdScope
  thresholds := thresholds
  channels := List.replicate 10 { filter := createFilter filterMethod alpha q r }

/-- `process`. -/
def process (d : LoadcellChangeDetector F) (rawValues : List Str) :
    LoadcellChangeDetector F × Except PyExc (Processed F) :=
  if rawValues.length ≠ 10 then (d, .error .valueError)
  else
    let result := processChannels d.thresholdScope d.thresholds d.channels rawValues
    ({ d with channels := result.1 }, result.2.map fun results => ⟨results⟩)

/-- `detect_uncertainties`: the channels with an error marker, or with a reading that is not a
number. -/
def detectUncertainties (rawValues : List Str) (filteredNumerics : List (Option F)) : List ℕ :=
  ((rawValues.zip filteredNumerics).zipIdx.filter fun ((raw, filtered), _) =>
    raw = "EEEEEE".toList ∨ raw = "VVVVVV".toList ∨ filtered.isNone).map Prod.snd

/-- `reset`. -/
def reset (d : LoadcellChangeDetector F) : LoadcellChangeDetector F :=
  { d with channels := d.channels.map DetectorChannel.reset }

end LoadcellChangeDetector

/-! ### Resets -/

@[simp] theorem DetectorChannel.reset_reset (ch : DetectorChannel F) :
    ch.reset.reset = ch.reset := by
  simp [DetectorChannel.reset]

@[simp] theorem DetectorChannel.reset_process (scope : ThresholdScope) (threshold : Option F)
    (ch : DetectorChannel F) (raw : Str) :
    (ch.process scope threshold raw).1.reset = ch.reset := by
  have hfilter := ch.filter.reset_filter raw
  rw [DetectorChannel.process]
  split
  · rename_i hf
    rw [hf] at hfilter
    exact congrArg (DetectorChannel.mk · none none) hfilter
  · rename_i hf
    rw [hf] at hfilter
    dsimp only
    split <;> exact congrArg (DetectorChannel.mk · none none) hfilter

theorem processChannels_reset (scope : ThresholdScope) (thresholds : List F)
    (chs : List (DetectorChannel F)) (raws : List Str) :
    (processChannels scope thresholds chs raws).1.map DetectorChannel.reset =
      chs.map DetectorChannel.reset := by
  induction chs generalizing thresholds raws with
  | nil => rfl
  | cons ch chs ih =>
      cases raws with
      | nil => rfl
      | cons raw raws =>
          have hch := ch.reset_process scope thresholds.head? raw
          rw [processChannels]
          split
          · rename_i hp
            rw [hp] at hch
            rw [List.map_cons, List.map_cons, hch]
          · rename_i hp
            rw [hp] at hch
            rw [List.map_cons, List.map_cons, hch, ih]

namespace LoadcellChangeDetector

variable {d : LoadcellChangeDetector F} {rawValues : List Str}

@[simp] theorem reset_reset (d : LoadcellChangeDetector F) : d.reset.reset = d.reset := by
  simp [reset]

/-- **Resetting forgets** every frame: the next one is compared with nothing. -/
@[simp] theorem reset_process (d : LoadcellChangeDetector F) (rawValues : List Str) :
    (d.process rawValues).1.reset = d.reset := by
  rw [process]
  split_ifs
  · rfl
  · exact congrArg (mk _ _ _) (processChannels_reset _ _ _ _)

/-- A detector starts as a reset leaves it. -/
@[simp] theorem reset_new (method : FilterMethod) (thresholds : List F)
    (scope : ThresholdScope) (alpha q r : F) :
    (new method thresholds scope alpha q r).reset = new method thresholds scope alpha q r := by
  simp [new, reset, DetectorChannel.reset]

/-! ### Nothing to compare with -/

/-- No channel has a previous value. So no channel has anything to compare its next reading with,
whatever its filter. -/
def Unread (d : LoadcellChangeDetector F) : Prop :=
  ∀ ch ∈ d.channels, ch.previousRaw = none ∧ ch.previousFiltered = none

theorem unread_reset (d : LoadcellChangeDetector F) : d.reset.Unread := by
  intro ch hch
  obtain ⟨ch', -, rfl⟩ := List.mem_map.mp hch
  exact ⟨rfl, rfl⟩

end LoadcellChangeDetector

/-- A channel without previous values sees no change. -/
theorem DetectorChannel.change_of_process {scope : ThresholdScope} {threshold : Option F}
    {ch ch' : DetectorChannel F} {raw : Str} {result : ChannelResult F}
    (hraw : ch.previousRaw = none) (hfiltered : ch.previousFiltered = none)
    (h : ch.process scope threshold raw = (ch', .ok result)) : result.change = none := by
  have hnone : ∀ v, DetectorChannel.change threshold v none = .ok none := by
    intro v
    cases v <;> rfl
  rw [DetectorChannel.process, hraw, hfiltered] at h
  split at h
  · cases h
  · cases scope <;>
    · simp only [hnone, Prod.mk.injEq, Except.ok.injEq] at h
      rw [← h.2]

theorem change_of_processChannels {scope : ThresholdScope} {thresholds : List F}
    {chs : List (DetectorChannel F)} {raws : List Str} {results : List (ChannelResult F)}
    (hchs : ∀ ch ∈ chs, ch.previousRaw = none ∧ ch.previousFiltered = none)
    (h : (processChannels scope thresholds chs raws).2 = .ok results) :
    ∀ result ∈ results, result.change = none := by
  induction chs generalizing thresholds raws results with
  | nil =>
      obtain rfl : [] = results := Except.ok.inj h
      exact List.forall_mem_nil _
  | cons ch chs ih =>
      cases raws with
      | nil =>
          obtain rfl : [] = results := Except.ok.inj h
          exact List.forall_mem_nil _
      | cons raw raws =>
          obtain ⟨⟨hraw, hfiltered⟩, hrest⟩ := List.forall_mem_cons.mp hchs
          rw [processChannels] at h
          split at h
          · cases h
          · rename_i ch' result hp
            dsimp only at h
            cases htail : (processChannels scope thresholds.tail chs raws).2 with
            | error e =>
                rw [htail] at h
                cases h
            | ok tail =>
                rw [htail] at h
                obtain rfl : result :: tail = results := Except.ok.inj h
                exact List.forall_mem_cons.mpr
                  ⟨DetectorChannel.change_of_process hraw hfiltered hp, ih hrest htail⟩

/-- A detector that has nothing to compare a frame with sees no change in it. -/
theorem LoadcellChangeDetector.Unread.changedIndices {d : LoadcellChangeDetector F}
    {rawValues : List Str} {p : Processed F} (hd : d.Unread)
    (h : (d.process rawValues).2 = .ok p) : p.changedIndices = [] := by
  rw [LoadcellChangeDetector.process] at h
  split_ifs at h
  cases hresults : (processChannels d.thresholdScope d.thresholds d.channels rawValues).2 with
  | error e =>
      dsimp only at h
      rw [hresults] at h
      cases h
  | ok results =>
      dsimp only at h
      rw [hresults] at h
      obtain rfl : ⟨results⟩ = p := Except.ok.inj h
      rw [Processed.changedIndices, List.map_eq_nil_iff, List.filter_eq_nil_iff]
      rintro ⟨result, i⟩ hmem
      have hchange := change_of_processChannels hd hresults result
        (List.fst_mem_of_mem_zipIdx hmem)
      simp [hchange]

end IoBoard
