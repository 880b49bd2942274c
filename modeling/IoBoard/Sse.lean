import IoBoard.Events
import IoBoard.Polling

/-!
# The Loadcell Stream

`make_poll_loadcells` of `api/v1/routers/sse.py`: the task that consumes the loadcell polls
of one client and puts the events of its stream.

## Conventions

* A poll is consumed without an `await` that suspends after `loadcells_queue.get()`, so a
  poll is one step: the detector and the item go in, the new detector and the events come
  out, or the exception that ends the task.
* Times are Unix times as rationals, which `unix_to_iso8601` renders on the wire
  (`IoBoard.TimeUtils`). An event of a frame has the time of the poll; an event about a
  failure has the time at which the failure was consumed.
* The detector is a parameter of its number type. The stream of a client is over `PyFloat`.
* Log messages are left out.

The events are the pydantic models of `io_types.py` with the fields they are built with. The
stream of a whole client, with its queue, its generator and the second task, is in
`IoBoard.SseStream`.

## Main definitions

* `poll`: one poll, and the events it puts.
* `pollLoadcells`: the polls of a run, each with the events it puts.
-/

namespace IoBoard

open PyNumber

/-! ### Events -/

/-- `LoadcellUpdateEvent`: the raw and the filtered texts of a frame, sent for every frame. -/
structure LoadcellUpdateEvent where
  timestamp : ℚ
  rawValues : List Str
  filteredValues : List Str
  filterMethod : String
  deriving DecidableEq

/-- `LoadcellChangeEvent`: the changed channels in ascending order, and for each of them the old
value, the new one and the difference. The threshold is one number or a list of all of them. -/
structure LoadcellChangeEvent (F : Type*) where
  timestamp : ℚ
  changedIndices : List ℕ
  oldValues : List F
  newValues : List F
  deltas : List F
  threshold : F ⊕ List F
  thresholdScope : String
  deriving DecidableEq

/-- The `details` of an uncertainty event: the texts of the channels, or the error of the board. -/
inductive UncertaintyDetails
  | errorValues (values : List Str)
  | failure (e : ErrorDict)
  deriving DecidableEq

/-- `LoadcellUncertaintyEvent`, sent for a frame with error markers and for a poll that has
failed. -/
structure LoadcellUncertaintyEvent where
  timestamp : ℚ
  affectedIndices : List ℕ
  reason : String
  details : UncertaintyDetails
  deriving DecidableEq

/-- The payload of an `error` event: the stream it is about, and the error. -/
structure StreamErrorEvent where
  stream : String
  error : ErrorDict
  deriving DecidableEq

/-- An event of the stream, with its payload. A door update is not one of these. -/
inductive SseEvent (F : Type*)
  | update (e : LoadcellUpdateEvent)
  | change (e : LoadcellChangeEvent F)
  | uncertainty (e : LoadcellUncertaintyEvent)
  | error (e : StreamErrorEvent)
  deriving DecidableEq

/-- The name of an event on the wire. -/
def SseEvent.name {F : Type*} : SseEvent F → String
  | update _ => "loadcell.update"
  | change _ => "loadcell.change"
  | uncertainty _ => "loadcell.uncertainty"
  | error _ => "error"

/-! ### Consuming a poll -/

variable {F : Type*} [PyNumber F]

namespace LoadcellChangeDetector

variable (d : LoadcellChangeDetector F)

/-- The threshold of a change event: one value where all channels have the same. The source
counts the elements of `set(detector.thresholds)`, which is about identity where a threshold is
NaN. That shows only when all ten are NaN, and then no reading exceeds a threshold and no change
event is sent. -/
def eventThreshold : F ⊕ List F :=
  match d.thresholds with
  | threshold :: rest => if rest.all (eqB threshold) then .inl threshold else .inr d.thresholds
  | [] => .inr []

/-- The `loadcell.change` event of a frame, if some channel has changed. -/
def changeEvent (p : Processed F) (timestamp : ℚ) : LoadcellChangeEvent F where
  timestamp := timestamp
  changedIndices := p.changedIndices
  oldValues := p.changeDetails.map (·.oldValue)
  newValues := p.changeDetails.map (·.newValue)
  deltas := p.changeDetails.map (·.delta)
  threshold := d.eventThreshold
  thresholdScope := d.thresholdScope.value

/-- The events of a frame that `process` has processed, in the order in which they are put: the
update always, then a change and an uncertainty where there is one. -/
def frameEvents (rawValues : List Str) (timestamp : ℚ) (p : Processed F) : List (SseEvent F) :=
  let uncertain := detectUncertainties rawValues p.filteredNumerics
  .update ⟨timestamp, rawValues, p.filteredStrings, d.filterMethod.value⟩ ::
    (if p.changedIndices = [] then [] else [.change (d.changeEvent p timestamp)]) ++
    if uncertain = [] then []
    else [.uncertainty ⟨timestamp, uncertain, "error_state",
      .errorValues (uncertain.map fun i => rawValues.getD i [])⟩]

/-- The `except` clauses: a cancellation is raised again, an `IOBoardError` resets the detector and
raises the alarm for all channels, and any other exception is reported as unexpected and changes
nothing. -/
def failed (e : PyExc) (now : ℚ) : LoadcellChangeDetector F × Except PyExc (List (SseEvent F)) :=
  match e with
  | .cancelledError => (d, .error .cancelledError)
  | .ioBoard e =>
      (d.reset, .ok [
        .uncertainty ⟨now, List.range 10, "io_board_failure", .failure e.toDict⟩,
        .error ⟨"loadcells", e.toDict⟩])
  | _ =>
      (d, .ok [.error ⟨"loadcells", ⟨"E9002", "Unexpected loadcell stream error", []⟩⟩])

/-- One pass of the loop of `poll_loadcells`: the detector after it, and the events it puts, or the
exception that ends the task. An exception of `process` is handled like one of the poll, on the
detector that it has left. -/
def poll (item : StreamItem (List Str)) (now : ℚ) :
    LoadcellChangeDetector F × Except PyExc (List (SseEvent F)) :=
  match StreamQueue.getNowait item with
  | .error e => d.failed e now
  | .ok (rawValues, timestamp) =>
      match d.process rawValues with
      | (d', .error e) => d'.failed e now
      | (d', .ok p) => (d', .ok (d'.frameEvents rawValues timestamp p))

end LoadcellChangeDetector

/-- A poll of a run: the detector before and after it, the item it consumed at the time `now`,
and what came of it. -/
structure Polled (F : Type*) where
  before : LoadcellChangeDetector F
  item : StreamItem (List Str)
  now : ℚ
  after : LoadcellChangeDetector F
  outcome : Except PyExc (List (SseEvent F))

/-- The events that a poll puts, in the order in which it puts them. -/
def Polled.events (p : Polled F) : List (SseEvent F) :=
  p.outcome.toOption.getD []

/-- `poll_loadcells` on the items of its queue, each with the time at which it is consumed. An item
that ends the task is the last one. -/
def pollLoadcells (d : LoadcellChangeDetector F) :
    List (StreamItem (List Str) × ℚ) → List (Polled F)
  | [] => []
  | (item, now) :: items =>
      let result := d.poll item now
      ⟨d, item, now, result.1, result.2⟩ ::
        match result.2 with
        | .error _ => []
        | .ok _ => pollLoadcells result.1 items

end IoBoard
