import IoBoard.FilterBounds
import IoBoard.LastingChange
import IoBoard.SseDelivery

/-!
# The Causes of Changes

Every change that a loadcell stream reports, with any filter and either scope, goes back to the
readings of its channel, in exact arithmetic. A filtered value and the one before it lie between
the readings since the filter was reset, so a filter cannot make up a change.

## Conventions

Numbers are rationals: the theorem is about the detector of the model at the number type `ℚ`, and
leaves the rounding of floats aside. The readings of a channel are those it has got since the last
alarm, an alarm being a poll that failed with an error of the service, since that resets the
detector and its filters. A poll that fails otherwise, an error marker and a frame of the wrong
length bring no reading, and reset nothing.

## The argument

The detector compares a value with the one before it, raw or filtered. A raw value is a reading.
A filtered value lies between readings, by the bounds of the filters, and so does the one before
it. Two numbers between the readings are not farther apart than the smallest and the largest of
them, so if they differ by more than the threshold, two readings do. What a channel keeps
(`Remembers`) is that its values come from its readings in this way; one frame is one step, and a
run is by induction.

## Main results

* `Remembers.process`: what one frame does to what a channel remembers.
* `change_has_cause`: **a channel is only reported after two of its readings since the last
  alarm that differ by more than its threshold**.
-/

open PyNumber Relaxation

namespace IoBoard

/-! ### Readings of a channel -/

/-- The numeric readings of the channel `i` since the last alarm, with one more poll. An
`IOBoardError` resets the detector; any other failed poll and a frame that has not ten entries
leave it as it is. -/
def noteReading (i : ℕ) (readings : List ℚ) : StreamItem (List Str) → List ℚ
  | .result r =>
      if r.data.length = 10 then readings ++ (r.data[i]?.bind parseValue).toList else readings
  | .error e => if e.error.isIOBoardError then [] else readings

/-- The numeric readings of the channel `i` since the last alarm of a run, in the order of the
polls. -/
def readingsSince (i : ℕ) (items : List (StreamItem (List Str))) : List ℚ :=
  items.foldl (noteReading i) []

theorem readingsSince_concat (i : ℕ) (items : List (StreamItem (List Str)))
    (item : StreamItem (List Str)) :
    readingsSince i (items ++ [item]) = noteReading i (readingsSince i items) item := by
  rw [readingsSince, List.foldl_append]
  rfl

/-! ### One channel -/

/-- What a channel keeps comes from its readings since the last alarm: the state of the filter, the
previous reading and the previous filtered value. -/
structure DetectorChannel.Remembers (readings : List ℚ) (ch : DetectorChannel ℚ) : Prop where
  smooths : ch.filter.Smooths readings
  raw : ∀ x, ch.previousRaw = some x → x ∈ readings
  filtered : ∀ x, ch.previousFiltered = some x → Between readings x

namespace DetectorChannel

variable {ch ch' : DetectorChannel ℚ} {readings : List ℚ}

/-- The previous value that the detector compares with lies between the readings. -/
theorem Remembers.between_previousValue (h : ch.Remembers readings) {scope : ThresholdScope}
    {x : ℚ} (hx : ch.previousValue scope = some x) : Between readings x := by
  cases scope with
  | raw => exact .of_mem (h.raw x hx)
  | filtered => exact h.filtered x hx

theorem Remembers.reset (h : ch.Remembers readings) : ch.reset.Remembers [] where
  smooths := h.smooths.call .reset
  raw := fun _ hx => absurd hx (Option.some_ne_none _).symm
  filtered := fun _ hx => absurd hx (Option.some_ne_none _).symm

/-- **One frame**: the channel remembers the new reading, and a change comes from two readings
that are farther apart than the threshold. -/
theorem Remembers.process (h : ch.Remembers readings) {scope : ThresholdScope} {T : ℚ}
    {raw : Str} {result : ChannelResult ℚ}
    (hprocess : ch.process scope (some T) raw = (ch', .ok result)) :
    ch'.Remembers (readings ++ (parseValue raw : Option ℚ).toList) ∧
      (result.change.isSome = true →
        ∃ a ∈ readings ++ (parseValue raw : Option ℚ).toList,
        ∃ b ∈ readings ++ (parseValue raw : Option ℚ).toList, T < b - a) := by
  have hremembers : ch'.Remembers (readings ++ (parseValue raw : Option ℚ).toList) := by
    cases hb : (parseValue raw : Option ℚ) with
    | some b =>
        obtain ⟨result', hresult', -⟩ := exists_process scope T ch hb (exists_formatValue _)
        obtain ⟨rfl, -⟩ := Prod.mk.inj (hresult'.symm.trans hprocess)
        have hcall := h.smooths.call (.filter raw)
        obtain ⟨_, hfilter⟩ := ch.filter.exists_filter hb
        rw [LoadcellFilter.call, noteCall, hfilter, hb] at hcall
        refine ⟨hcall, fun x hx => ?_, fun x hx => ?_⟩
        · obtain rfl := Option.some.inj hx
          exact List.mem_append_right _ (List.mem_singleton_self b)
        · obtain rfl := Option.some.inj hx
          exact h.smooths.between_next b
    | none =>
        have herror : ch.process scope (some T) raw =
            (⟨ch.filter, none, none⟩, .ok ⟨raw, none, none⟩) := by
          rw [DetectorChannel.process, LoadcellFilter.filter_of_parseValue_eq_none hb, hb]
          cases scope <;> rfl
        obtain ⟨rfl, -⟩ := Prod.mk.inj (herror.symm.trans hprocess)
        rw [Option.toList_none, List.append_nil]
        exact ⟨h.smooths, fun _ hx => absurd hx (Option.some_ne_none _).symm,
          fun _ hx => absurd hx (Option.some_ne_none _).symm⟩
  refine ⟨hremembers, fun hchange => ?_⟩
  obtain ⟨c, hc⟩ := Option.isSome_iff_exists.mp hchange
  obtain ⟨old, new, t, hold, hnew, ht, hlt, -⟩ := change_of_process_eq_some hprocess hc
  obtain rfl := Option.some.inj ht
  rw [ltB_rat, abs_rat, sub_rat] at hlt
  exact (hremembers.between_previousValue hnew).exists_lt_sub
    ((h.between_previousValue hold).mono (List.subset_append_left _ _)) hlt

end DetectorChannel

/-! ### One detector -/

namespace LoadcellChangeDetector

variable {d : LoadcellChangeDetector ℚ} {i : ℕ} {T : ℚ} {readings : List ℚ}

/-- The detector has the threshold `T` for the channel `i`, which remembers the readings. -/
structure RemembersAt (d : LoadcellChangeDetector ℚ) (i : ℕ) (T : ℚ) (readings : List ℚ) :
    Prop where
  sound : d.Sound LoadcellFilter.Tuned
  threshold : d.thresholds[i]? = some T
  channel : ∃ ch, d.channels[i]? = some ch ∧ ch.Remembers readings

theorem RemembersAt.reset (h : d.RemembersAt i T readings) : d.reset.RemembersAt i T [] := by
  obtain ⟨ch, hch, hremembers⟩ := h.channel
  refine ⟨h.sound.reset LoadcellFilter.steady_tuned, h.threshold, ch.reset, ?_, hremembers.reset⟩
  rw [LoadcellChangeDetector.reset, List.getElem?_map, hch]
  rfl

/-- A failed poll, or a frame that raises. -/
theorem RemembersAt.failed (h : d.RemembersAt i T readings) {e : PyExc}
    (he : e.isException = true) (now : ℚ) :
    (d.failed e now).1.RemembersAt i T (if e.isIOBoardError then [] else readings) := by
  by_cases hio : e.isIOBoardError = true
  · obtain ⟨err, rfl⟩ := PyExc.isIOBoardError_iff.mp hio
    exact h.reset
  · rw [failed_of_not_isIOBoardError he hio, if_neg hio]
    exact h

/-- The change event of a frame. There is one at most. -/
theorem eq_changeEvent_of_mem {F : Type*} [PyNumber F] {d : LoadcellChangeDetector F}
    {raws : List Str} {timestamp : ℚ} {p : Processed F} {e : LoadcellChangeEvent F}
    (h : .change e ∈ d.frameEvents raws timestamp p) : e = d.changeEvent p timestamp := by
  simp only [frameEvents, List.mem_append, List.mem_cons] at h
  obtain (h | h) | h := h
  · cases h
  · split_ifs at h with hnone
    · cases h
    · exact SseEvent.change.inj (List.mem_singleton.mp h)
  · split_ifs at h with hnone
    · cases h
    · cases List.mem_singleton.mp h

/-- **One poll**: the channel remembers what the poll brings, and a reported change of it comes
from two readings that are farther apart than the threshold. -/
theorem RemembersAt.poll (h : d.RemembersAt i T readings) (item : StreamItem (List Str))
    (now : ℚ) : (d.poll item now).1.RemembersAt i T (noteReading i readings item) ∧
      ∀ events, (d.poll item now).2 = .ok events → ∀ e, .change e ∈ events →
        i ∈ e.changedIndices → ∃ a ∈ noteReading i readings item,
          ∃ b ∈ noteReading i readings item, T < b - a := by
  have quiet (d' : LoadcellChangeDetector ℚ) (exc : PyExc) : ∀ events,
      (d'.failed exc now).2 = .ok events → ∀ e, .change e ∉ events := by
    intro events hevents e he
    have hnot := change_not_mem_failed d' exc now e
    rw [hevents] at hnot
    exact hnot he
  cases item with
  | error err =>
      exact ⟨h.failed err.isException now, fun events hevents e he =>
        absurd he (quiet d err.error events hevents e)⟩
  | result r =>
      rw [LoadcellChangeDetector.poll]
      simp only [StreamQueue.getNowait, noteReading]
      by_cases hlen : r.data.length = 10
      · obtain ⟨chs, results, hchannels, hprocess, hlen', hsound⟩ :=
          h.sound.exists_process LoadcellFilter.steady_tuned hlen fun _ _ _ _ => trivial
        obtain ⟨ch, hch, hremembers⟩ := h.channel
        have hi : i < results.length := by
          obtain ⟨hlt, -⟩ := List.getElem?_eq_some_iff.mp hch
          rw [h.sound.channels] at hlt
          omega
        obtain ⟨ch₁, ch', raw, hch₁, hraw, hch', hresult⟩ :=
          exists_process_of_processChannels (congrArg Prod.snd hchannels)
            (List.getElem?_eq_getElem hi)
        obtain rfl := Option.some.inj (hch.symm.trans hch₁)
        rw [h.threshold] at hresult
        obtain ⟨hremembers', hchange⟩ := hremembers.process hresult
        rw [hprocess, if_pos hlen, hraw, Option.bind_some]
        rw [hchannels] at hch'
        refine ⟨⟨hsound, h.threshold, ch', hch', hremembers'⟩, fun events hevents e he hmem => ?_⟩
        obtain rfl := Except.ok.inj hevents
        obtain rfl := eq_changeEvent_of_mem he
        exact hchange ((Processed.mem_changedIndices (List.getElem?_eq_getElem hi)).mp hmem)
      · have hraises : d.process r.data = (d, .error .valueError) := by
          rw [LoadcellChangeDetector.process, if_pos hlen]
        rw [hraises, if_neg hlen]
        exact ⟨h.failed (e := .valueError) rfl now, fun events hevents e he =>
          absurd he (quiet d .valueError events hevents e)⟩

theorem RemembersAt.run (h : d.RemembersAt i T [])
    (items : List (StreamItem (List Str) × ℚ)) :
    (d.after items).RemembersAt i T (readingsSince i (items.map Prod.fst)) := by
  induction items using List.reverseRecOn with
  | nil => exact h
  | append_singleton items entry ih =>
      rw [LoadcellChangeDetector.after, List.foldl_append, List.map_append, List.map_singleton,
        readingsSince_concat]
      exact (ih.poll entry.1 entry.2).1

/-- A new detector remembers nothing, whatever its filter and its scope. -/
theorem remembersAt_new (method : FilterMethod) {thresholds : List ℚ} (scope : ThresholdScope)
    (alpha q r : ℚ) (hlen : thresholds.length = 10) (hT : thresholds[i]? = some T) :
    (new method thresholds scope alpha q r).RemembersAt i T [] := by
  obtain ⟨hi, -⟩ := List.getElem?_eq_some_iff.mp hT
  refine ⟨(Reached.new hlen).sound, hT, { filter := createFilter method alpha q r }, ?_, ?_⟩
  · rw [new, List.getElem?_replicate, if_pos (by omega)]
  · exact ⟨LoadcellFilter.smooths_run method alpha q r [],
      fun _ hx => absurd hx (Option.some_ne_none _).symm,
      fun _ hx => absurd hx (Option.some_ne_none _).symm⟩

end LoadcellChangeDetector

/-! ### Runs -/

/-- A poll of a run, where it stands in the run. -/
theorem exists_split_of_mem {F : Type*} [PyNumber F] {d : LoadcellChangeDetector F}
    {items : List (StreamItem (List Str) × ℚ)} {p : Polled F} (h : p ∈ pollLoadcells d items) :
    ∃ before rest, items = before ++ (p.item, p.now) :: rest ∧
      (d.after before).poll p.item p.now = (p.after, p.outcome) := by
  induction items generalizing d with
  | nil => cases h
  | cons entry items ih =>
      obtain ⟨item, now⟩ := entry
      rw [pollLoadcells] at h
      rcases List.mem_cons.mp h with rfl | h
      · exact ⟨[], items, rfl, rfl⟩
      · split at h
        · cases h
        · obtain ⟨before, rest, hitems, hpoll⟩ := ih h
          exact ⟨(item, now) :: before, rest, congrArg _ hitems, hpoll⟩

/-- **Every change has a cause.** In every run of a loadcell stream, with any filter and scope, a
channel is reported only after two of its readings since the last alarm, this poll included,
that differ by more than its threshold. -/
theorem change_has_cause {method : FilterMethod} {thresholds : List ℚ} {scope : ThresholdScope}
    {alpha q r : ℚ} (hlen : thresholds.length = 10) {items : List (StreamItem (List Str) × ℚ)}
    {p : Polled ℚ} (hp : p ∈ pollLoadcells (.new method thresholds scope alpha q r) items)
    {e : LoadcellChangeEvent ℚ} (he : .change e ∈ p.events) {i : ℕ} {T : ℚ}
    (hi : i ∈ e.changedIndices) (hT : thresholds[i]? = some T) :
    ∃ before rest, items = before ++ (p.item, p.now) :: rest ∧
      ∃ a ∈ readingsSince i (before.map Prod.fst ++ [p.item]),
      ∃ b ∈ readingsSince i (before.map Prod.fst ++ [p.item]), T < b - a := by
  obtain ⟨before, rest, hitems, hpoll⟩ := exists_split_of_mem hp
  have hremembers := (LoadcellChangeDetector.remembersAt_new method scope alpha q r hlen hT).run
    before
  obtain ⟨events, hevents⟩ := LoadcellChangeDetector.exists_poll
    (LoadcellChangeDetector.after (.new method thresholds scope alpha q r) before) p.item p.now
  have hmem : .change e ∈ events := by
    rw [hpoll] at hevents
    rwa [Polled.events, show p.outcome = .ok events from hevents] at he
  refine ⟨before, rest, hitems, ?_⟩
  rw [readingsSince_concat]
  exact (hremembers.poll p.item p.now).2 events hevents e hmem hi

/-- A step of 100 g on the first channel. -/
def stepItems : List (StreamItem (List Str) × ℚ) :=
  [(.result ⟨List.replicate 10 "+00100".toList, 0⟩, 0),
    (.result ⟨"+00200".toList :: List.replicate 9 "+00100".toList, 1⟩, 1)]

/-- The polls of a smoothing stream on `stepItems`. -/
def stepPolls : List (Polled ℚ) :=
  pollLoadcells (.new .exponential (List.replicate 10 10) .filtered (1 / 5) 1 1) stepItems

/-- The change that the step makes: a fifth of it. -/
def stepChange : LoadcellChangeEvent ℚ where
  timestamp := 1
  changedIndices := [0]
  oldValues := [100]
  newValues := [120]
  deltas := [20]
  threshold := .inl 10
  thresholdScope := "filtered"

theorem exists_stepChange : ∃ p ∈ stepPolls, .change stepChange ∈ p.events := by
  have hlast : (stepPolls.getLast?.map (·.events)) = some [
      .update ⟨1, "+00200".toList :: List.replicate 9 "+00100".toList,
        "+120.0".toList :: List.replicate 9 "+100.0".toList, "exponential"⟩,
      .change stepChange] := by
    decide +kernel
  obtain ⟨p, hp, hevents⟩ := Option.map_eq_some_iff.mp hlast
  exact ⟨p, List.mem_of_getLast? hp, by simp [hevents]⟩

/-- The cause of the change: readings more than 10 g apart. -/
theorem change_has_cause_step : ∃ before rest item,
    stepItems = before ++ item :: rest ∧
      ∃ a ∈ readingsSince 0 (before.map Prod.fst ++ [item.1]),
      ∃ b ∈ readingsSince 0 (before.map Prod.fst ++ [item.1]), 10 < b - a := by
  obtain ⟨p, hp, hchange⟩ := exists_stepChange
  obtain ⟨before, rest, hitems, hcause⟩ := change_has_cause (T := 10) rfl hp hchange
    (List.mem_singleton_self 0) rfl
  exact ⟨before, rest, (p.item, p.now), hitems, hcause⟩

end IoBoard
