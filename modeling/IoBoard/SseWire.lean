import IoBoard.Lib.EventStream
import IoBoard.Lib.Json
import IoBoard.SseDelivery
import IoBoard.TimeUtils

/-!
# The Wire Format of the Streams

What `unified_event_generator` yields for an event: its name, and the JSON of its payload, in one
frame of `text/event-stream`. The texts of an event come from the board and from exceptions, so
they may hold anything.

## Parameters

The text of a float in `json.dumps` is a parameter, and so is the rendering of timestamps: no
result here depends on the text of a number or of a time. For finite numbers that text is
`float.__repr__`; for the infinities and NaN it is `Infinity`, `-Infinity` and `NaN`, which
`json.loads` reads back and which other readers of JSON may refuse. The client of the theorem
reads with `json.loads`.

## What a client reads

A client gets a prefix of what was written, since the connection may be cut anywhere, also within
a frame. It reads the events whose frames are complete. These are the first of the events that
were sent, in the order of sending; in particular none of them was made up, and none belongs to a
stream that the client did not ask for. Together with the delivery of the streams this tells for
each stream which polls they come from.

That a text cannot break out of its frame is because `json.dumps` escapes every control character,
so a payload is one line of printable ASCII.

## Main results

* `oneLine_dumps`: the text of a payload never ends a line, whatever its strings hold.
* `wire_delivery`: **a client reads the events it was sent**, each with its payload, wherever the
  connection is cut; none is split, merged, repeated or made up.
-/

open EventStream Json Runs

namespace IoBoard

/-! ### Payloads -/

section Payload

variable {F : Type} (iso : ℚ → Str)

/-- A list of texts. -/
def jsonStrings (texts : List Str) : Json F :=
  .arr (texts.map .str)

/-- A value of `details`, by the type that it has in Python. -/
def Detail.json : Detail → Json F
  | .none => .null
  | .int n => .int n
  | .str s => .str s.toList
  | .text s => .str s

/-- The members of `to_dict()`, in its order. -/
def ErrorDict.members (e : ErrorDict) : List (Str × Json F) :=
  [("error_code".toList, .str e.errorCode.toList), ("message".toList, .str e.message.toList),
    ("details".toList, .obj (e.details.map fun d => (d.1.toList, d.2.json)))]

/-- `details` of a `LoadcellUncertaintyEvent`. -/
def UncertaintyDetails.json : UncertaintyDetails → Json F
  | .errorValues values => .obj [("error_values".toList, jsonStrings values)]
  | .failure e => .obj e.members

/-- `model_dump()` of an event: its fields by name, with timestamps as texts. -/
def SseEvent.payload : SseEvent F → Json F
  | .update e => .obj [("timestamp".toList, .str (iso e.timestamp)),
      ("raw_values".toList, jsonStrings e.rawValues),
      ("filtered_values".toList, jsonStrings e.filteredValues),
      ("filter_method".toList, .str e.filterMethod.toList)]
  | .change e => .obj [("timestamp".toList, .str (iso e.timestamp)),
      ("changed_indices".toList, .arr (e.changedIndices.map fun i => .int i)),
      ("old_values".toList, .arr (e.oldValues.map .float)),
      ("new_values".toList, .arr (e.newValues.map .float)),
      ("deltas".toList, .arr (e.deltas.map .float)),
      ("threshold".toList, e.threshold.elim .float fun thresholds => .arr (thresholds.map .float)),
      ("threshold_scope".toList, .str e.thresholdScope.toList)]
  | .uncertainty e => .obj [("timestamp".toList, .str (iso e.timestamp)),
      ("affected_indices".toList, .arr (e.affectedIndices.map fun i => .int i)),
      ("reason".toList, .str e.reason.toList), ("details".toList, e.details.json)]
  | .error e => .obj (("stream".toList, .str e.stream.toList) :: e.error.members)

end Payload

variable (t : FloatText PyFloat) (iso : ℚ → Str)

/-- `model_dump()` of an event of a client. -/
def UnifiedEvent.payload : UnifiedEvent → Json PyFloat
  | .sse e => e.payload iso
  | .doorUpdate e => .obj [("timestamp".toList, .str (iso e.timestamp)),
      ("door".toList, .str e.door), ("deadbolt".toList, .str e.deadbolt)]

/-- The event on the wire: its name, and `json.dumps(event_data)`, on one line each. -/
def UnifiedEvent.message (e : UnifiedEvent) : Message where
  type := e.name.toList
  data := dumps t (e.payload iso)

/-- What has been written to the connection of a client, one frame for each event that was
yielded. -/
def Client.wire (c : Client) : Str :=
  c.sent.flatMap fun e => frame (e.message t iso)

/-- What a client makes of what it got: the names of the events, with the JSON of each. -/
def received (text : Str) : List (Str × Option (Json PyFloat)) :=
  (EventStream.read text).map fun m => (m.type, loads t m.data)

/-! ### One frame for each event -/

/-- The text of a payload never ends a line, whatever its strings hold. -/
theorem oneLine_dumps (v : Json PyFloat) : OneLine (dumps t v) := by
  intro c hc
  have hprint := List.all_eq_true.mp (all_isPrint_dumps t v) c hc
  refine ⟨?_, ?_⟩
  all_goals
    rintro rfl
    exact absurd hprint (by decide)

/-- The name of an event is a word. -/
theorem UnifiedEvent.name_oneLine (e : UnifiedEvent) :
    OneLine e.name.toList ∧ e.name.toList ≠ [] := by
  have hnames : ∀ name ∈ ["loadcell.update", "loadcell.change", "loadcell.uncertainty", "error",
      "door.update"], OneLine name.toList ∧ name.toList ≠ [] := by
    decide
  refine hnames e.name ?_
  rcases e with ⟨_ | _ | _ | _⟩ | _
  all_goals simp [UnifiedEvent.name, SseEvent.name]

/-- **The whole stream** is read as the events that were sent, one for each frame. -/
theorem read_wire (c : Client) :
    EventStream.read (c.wire t iso) = c.sent.map (·.message t iso) := by
  have hwire : c.wire t iso = (c.sent.map (·.message t iso)).flatMap frame := by
    rw [Client.wire, List.flatMap_map]
  rw [hwire]
  refine read_flatMap_frame fun m hm => ?_
  obtain ⟨e, -, rfl⟩ := List.mem_map.mp hm
  exact ⟨e.name_oneLine.1, e.name_oneLine.2, oneLine_dumps t _⟩

/-- The beginning of a stream is read as the beginning of the events. -/
theorem received_of_prefix {c : Client} {cut : Str} (h : cut <+: c.wire t iso) :
    ∃ got, got <+: c.sent ∧
      received t cut = got.map (fun e => (e.name.toList, some (e.payload iso))) ∧
      (cut = c.wire t iso → got = c.sent) := by
  have hprefix := read_prefix h
  rw [read_wire] at hprefix
  have htake := List.prefix_iff_eq_take.mp hprefix
  rw [← List.map_take] at htake
  refine ⟨c.sent.take (EventStream.read cut).length, List.take_prefix _ _, ?_, ?_⟩
  · rw [received]
    conv_lhs => rw [htake]
    rw [List.map_map]
    refine List.map_congr_left fun e _ => ?_
    rw [Function.comp_apply, UnifiedEvent.message, loads_dumps]
  · rintro rfl
    rw [read_wire, List.length_map, List.take_length]

/-! ### Delivery -/

/-- **A client reads the events it was sent**, wherever the connection is cut: it reads the first
of them, in the order in which they were sent, with the payloads the tasks put, and all of them
when nothing is cut. Each is of a stream that the client asked for, and of each stream it reads the
first events of those that the items of its queue lead to. -/
theorem Streams.wire_delivery {u : CharDatabase} {polling : PollingModel} {s : Streams} {n : ℕ}
    {c : Client} (h : s.Reachable u polling) (hc : s.clients n = some c) {cut : Str}
    (hcut : cut <+: c.wire t iso) :
    ∃ got : List UnifiedEvent, got <+: c.sent ∧
      received t cut = got.map (fun e => (e.name.toList, some (e.payload iso))) ∧
      (∀ task, c.loadcells = some task → got.filter (·.stream = "loadcells") <+:
        (pollEvents task.initial task.taken).map .sse) ∧
      (∀ task, c.doors = some task →
        got.filter (·.stream = "doors") <+: task.taken.flatMap doorEvents) ∧
      (∀ e ∈ got, (e.stream = "loadcells" ∧ c.loadcells.isSome = true) ∨
        (e.stream = "doors" ∧ c.doors.isSome = true)) ∧
      (cut = c.wire t iso → got = c.sent) := by
  have hdelivers := stream_delivery h hc
  obtain ⟨got, hgot, hreceived, hwhole⟩ := received_of_prefix t iso hcut
  have hevents : ∀ stream : String, got.filter (·.stream = stream) <+: c.events stream := by
    intro stream
    exact (hgot.trans (List.prefix_append c.sent c.eventQueue)).filter _
  refine ⟨got, hgot, hreceived, fun task htask => ?_, fun task htask => ?_, fun e he => ?_, hwhole⟩
  · rw [← (hdelivers.loadcells task htask).2]
    exact hevents "loadcells"
  · rw [← (hdelivers.doors task htask).2]
    exact hevents "doors"
  · exact hdelivers.streams e (List.mem_append_left c.eventQueue (hgot.subset he))

/-! ### A text of floats -/

/-- A text of floats that is Python's own on the whole numbers below `10 ** 16`, the infinities and
NaN; any other value is written as a ratio. -/
def ratioText : PyFloat → Str
  | .fin q => intText (q : ℚ).num ++ '.' ::
      if (q : ℚ).den = 1 then ['0'] else Nat.toDigits 10 (q : ℚ).den
  | .inf negative => if negative then "-Infinity".toList else "Infinity".toList
  | .nan => "NaN".toList

/-- The float of a `ratioText`. -/
def ofRatioText (text : Str) : Option PyFloat :=
  if text = "NaN".toList then some .nan
  else if text = "Infinity".toList then some (.inf false)
  else if text = "-Infinity".toList then some (.inf true)
  else do
    let num ← intValue (text.takeWhile (· ≠ '.'))
    let den ← natValue (text.dropWhile (· ≠ '.')).tail
    let q : ℚ := num / (if den = 0 then 1 else den : ℕ)
    if h : IsDouble q then some (.fin ⟨q, h⟩) else none

/-- A text with a point is no integer. -/
theorem intValue_of_point {w : Str} (h : '.' ∈ w) : intValue w = none := by
  have hnat : ∀ {w : Str}, '.' ∈ w → natValue w = none := by
    intro w hw
    refine if_neg fun hall => ?_
    exact absurd (List.all_eq_true.mp hall.2 _ hw) (by decide)
  unfold intValue
  split
  · rw [hnat ((List.mem_cons.mp h).resolve_left (by decide)), Option.map_none]
  · rw [hnat h, Option.map_none]

/-- An integer has no point. -/
theorem ne_point_of_mem_intText {m : ℤ} {c : Char} (h : c ∈ intText m) : c ≠ '.' := by
  rintro rfl
  have hdigits : '.' ∉ Nat.toDigits 10 m.natAbs := fun hmem =>
    absurd (Nat.isDigit_of_mem_toDigits (by decide) (by decide) hmem) (by decide)
  unfold intText at h
  split_ifs at h
  · exact hdigits ((List.mem_cons.mp h).resolve_left (by decide))
  · exact hdigits h

theorem ofRatioText_fin (q : {q : ℚ // IsDouble q}) :
    ofRatioText (ratioText (.fin q)) = some (.fin q) := by
  have hpoint : '.' ∈ ratioText (.fin q) := List.mem_append_right _ List.mem_cons_self
  have hname : ∀ name : Str, '.' ∉ name → ratioText (.fin q) ≠ name := by
    rintro name hname rfl
    exact hname hpoint
  have hnum : ∀ c ∈ intText (q : ℚ).num, decide (c ≠ '.') = true :=
    fun c hc => decide_eq_true (ne_point_of_mem_intText hc)
  have hden : ∃ den : ℕ,
      natValue (if (q : ℚ).den = 1 then ['0'] else Nat.toDigits 10 (q : ℚ).den) = some den ∧
        (if den = 0 then 1 else den) = (q : ℚ).den := by
    split_ifs with hone
    · exact ⟨0, by decide, by rw [if_pos rfl, hone]⟩
    · exact ⟨(q : ℚ).den, natValue_toDigits _, if_neg (q : ℚ).den_nz⟩
  obtain ⟨den, hvalue, hden⟩ := hden
  rw [ofRatioText, if_neg (hname _ (by decide)), if_neg (hname _ (by decide)),
    if_neg (hname _ (by decide)), ratioText, List.takeWhile_append_of_pos hnum,
    List.dropWhile_append_of_pos hnum, List.takeWhile_cons_of_neg (by decide),
    List.dropWhile_cons_of_neg (by decide), List.append_nil, List.tail_cons, intValue_intText,
    hvalue]
  simp only [Option.bind_eq_bind, Option.bind_some, hden, Rat.num_div_den]
  exact dif_pos q.2

/-- The texts are words that read back, so this is a text of floats. -/
def floatText : FloatText PyFloat where
  repr := ratioText
  parse := ofRatioText
  parse_repr x := by
    cases x with
    | fin q => exact ofRatioText_fin q
    | inf negative => cases negative <;> decide
    | nan => decide
  isWordChar_of_mem x := by
    cases x with
    | fin q =>
        intro c hc
        rcases List.mem_append.mp hc with hc | hc
        · exact (intText_word _).1 c hc
        rcases List.mem_cons.mp hc with rfl | hc
        · rfl
        · split_ifs at hc
          · rw [List.mem_singleton.mp hc]
            rfl
          · have hdigit := Nat.isDigit_of_mem_toDigits (by decide) (by decide) hc
            simp [isWordChar, Char.isAlphanum, hdigit]
    | inf negative => exact List.all_eq_true.mp (by cases negative <;> decide)
    | nan => exact List.all_eq_true.mp (by decide)
  intValue_repr x := by
    cases x with
    | fin q => exact intValue_of_point (List.mem_append_right _ List.mem_cons_self)
    | inf negative => cases negative <;> decide
    | nan => decide
  exists_head x := by
    cases x with
    | fin q =>
        obtain ⟨-, c, w, h, hc⟩ := intText_word (q : ℚ).num
        exact ⟨c, _, congrArg (· ++ _) h, hc.imp_right .inl⟩
    | inf negative =>
        cases negative with
        | false => exact ⟨'I', _, rfl, .inr (.inr (.inr rfl))⟩
        | true => exact ⟨'-', _, rfl, .inr (.inl rfl)⟩
    | nan => exact ⟨'N', _, rfl, .inr (.inr (.inl rfl))⟩

/-- The text of a timestamp that `unix_to_iso8601` renders. -/
def isoText (timestamp : ℚ) : Str :=
  (unixToIso8601 timestamp).getD []

/-- The first client of `twoClientsRun` reads the one event it has been sent. -/
theorem Streams.wire_delivery_twoClients : ∃ c, twoClients.clients 0 = some c ∧
    c.sent.length = 1 ∧ received floatText (c.wire floatText isoText) =
      c.sent.map fun e => (e.name.toList, some (e.payload isoText)) := by
  refine ⟨(twoClients.clients 0).get twoClients_isSome, (Option.some_get _).symm,
    by decide +kernel, ?_⟩
  obtain ⟨got, -, hreceived, -, -, -, hwhole⟩ := wire_delivery floatText isoText
    (reaches_get twoClientsRun_isSome) (Option.some_get twoClients_isSome).symm List.prefix_rfl
  rw [hreceived, hwhole rfl]

end IoBoard
