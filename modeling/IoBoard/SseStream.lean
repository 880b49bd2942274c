import IoBoard.Config
import IoBoard.PollingService
import IoBoard.SseQuery
import IoBoard.StreamAlarm

/-!
# The Unified Stream

`unified_event_generator` of `api/v1/routers/sse.py`: the generator behind the stream of one
client, its two tasks `poll_loadcells` and `poll_doors`, which put their events into one queue,
and the two polling services, on whose results all clients live.

## Where a task suspends

A task runs until it awaits something that is not there yet. `get` on a queue with items and
`put` into an unbounded queue do not suspend, and neither does anything else between two
passes of a loop but `request.is_disconnected()`, whose answer is any. The `finally` clause
has unsubscribed, shut down and cancelled everything before it suspends, so the end of a
stream is one step; a generator is closed or cancelled at any time. Of a queue that holds an
event and a `timeout` that has run out, either may come first.

## What is left to the environment

Which task goes on next, when a client connects and when it is found to be gone, the time that a
task reads when it consumes an item, and what the polling services and their other subscribers
do. The polling services run on one clock, of exact rationals; the times that the events carry
are those of the polls and of the tasks, and no step compares them with the clock.

`initial` and `taken` are not part of the program: they record the detector a task began with,
and the items it has got, with the time at which they were consumed. `sent` is what the generator
has yielded. Log messages are left out.

## Main definitions

* `Client`: a stream, with its generator, its tasks and its queue of events.
* `Streams.step`: what can happen, for any number of clients.
-/

open Runs

namespace IoBoard

/-- The queues of a polling service: those of the streams, by the number of the request, and
those of other services. -/
inductive SubscriberName
  | stream (n : ℕ)
  | service (n : ℕ)
  deriving DecidableEq

/-! ### Events -/

/-- `DoorUpdateEvent`, whose texts pydantic checks to be six characters long. An invalid one
cannot be built. -/
structure DoorUpdateEvent where
  timestamp : ℚ
  door : Str
  deadbolt : Str
  door_length : door.length = 6
  deadbolt_length : deadbolt.length = 6
  deriving DecidableEq

theorem DoorState.value_length (s : DoorState) : s.value.length = 6 := by
  cases s <;> rfl

theorem DeadboltState.value_length (s : DeadboltState) : s.value.length = 6 := by
  cases s <;> rfl

/-- The `door.update` event of a status: every status passes the checks of the event, so none is
raised. -/
def IOStatusData.doorUpdate (status : IOStatusData) (timestamp : ℚ) : DoorUpdateEvent where
  timestamp := timestamp
  door := status.door.value
  deadbolt := status.deadbolt.value
  door_length := status.door.value_length
  deadbolt_length := status.deadbolt.value_length

/-- What the event queue of a client holds: events of the loadcells, door updates, and errors of
either. -/
inductive UnifiedEvent
  | sse (e : SseEvent PyFloat)
  | doorUpdate (e : DoorUpdateEvent)
  deriving DecidableEq

/-- The name of an event on the wire. -/
def UnifiedEvent.name : UnifiedEvent → String
  | sse e => e.name
  | doorUpdate _ => "door.update"

/-- The stream that an event tells it belongs to: by its name, or, where it is an error, by its
`stream` field. -/
def UnifiedEvent.stream : UnifiedEvent → String
  | sse (.error e) => e.stream
  | sse _ => "loadcells"
  | doorUpdate _ => "doors"

/-- One pass of the loop of `poll_doors`: the events it puts, or the exception that ends the
task. -/
def pollDoors (item : StreamItem IOStatusData) : Except PyExc (List UnifiedEvent) :=
  match StreamQueue.getNowait item with
  | .ok (ioStatus, timestamp) => .ok [.doorUpdate (ioStatus.doorUpdate timestamp)]
  | .error .cancelledError => .error .cancelledError
  | .error (.ioBoard e) => .ok [.sse (.error ⟨"doors", e.toDict⟩)]
  | .error _ => .ok [.sse (.error ⟨"doors", ⟨"E9003", "Unexpected door stream error", []⟩⟩)]

/-! ### Tasks -/

/-- Where a task is suspended: not run yet, in `is_disconnected`, in `get`, or ended. -/
inductive TaskStage
  | starting
  | probing
  | getting
  | done
  deriving DecidableEq

/-- The condition of the loop. -/
def TaskStage.loopHead (stopped : Bool) : TaskStage :=
  if stopped then .done else .probing

/-- What a task does once it is resumed: it suspends again, it takes an item, or `get` raises
`QueueShutDown`. -/
inductive TaskMove (α : Type*)
  | suspends (stage : TaskStage)
  | takes (item : StreamItem α) (rest : List (StreamItem α))
  | raises

/-- `get`, called by a task or resumed; on an empty queue it suspends, unless that is shut down,
and then it raises. -/
def TaskMove.get {α : Type*} (queue : StreamQueue α) : TaskMove α :=
  match queue.items with
  | item :: rest => .takes item rest
  | [] => if queue.isShutdown then .raises else .suspends .getting

/-- Resumes a task; `none` where there is nothing to resume it. -/
def TaskStage.resume {α : Type*} (stage : TaskStage) (queue : StreamQueue α)
    (stopped disconnected : Bool) : Option (TaskMove α) :=
  match stage with
  | .starting => some (.suspends (.loopHead stopped))
  | .probing => some (if disconnected then .suspends .done else .get queue)
  | .getting => if queue.items = [] ∧ queue.isShutdown = false then none else some (.get queue)
  | .done => none

/-- The task `poll_loadcells`, with its detector and what it has taken so far. -/
structure LoadcellsTask where
  initial : LoadcellChangeDetector PyFloat
  detector : LoadcellChangeDetector PyFloat
  stage : TaskStage := .starting
  taken : List (StreamItem (List Str) × ℚ) := []

/-- The task `poll_doors`, and what it has taken so far. It keeps nothing between two items. -/
structure DoorsTask where
  stage : TaskStage := .starting
  taken : List (StreamItem IOStatusData) := []

/-- Where the generator is suspended: in `is_disconnected`, in `wait_for`, at its `yield`, or
ended. -/
inductive GeneratorStage
  | probing
  | waiting
  | yielding
  | ended
  deriving DecidableEq

/-- The stream of a client. A task is there when its stream is enabled. -/
structure Client where
  request : SseRequest
  loadcells : Option LoadcellsTask := none
  doors : Option DoorsTask := none
  generator : GeneratorStage := .probing
  eventQueue : List UnifiedEvent := []
  sent : List UnifiedEvent := []

namespace Client

variable (c : Client)

/-- `poll_loadcells` after a pass with the result `result`. -/
def loadcellsPass (t : LoadcellsTask) (stopped : Bool)
    (result : LoadcellChangeDetector PyFloat × Except PyExc (List (SseEvent PyFloat))) :
    Client :=
  match result with
  | (detector, .ok events) =>
      { c with
        loadcells := some { t with detector := detector, stage := .loopHead stopped }
        eventQueue := c.eventQueue ++ events.map .sse }
  | (detector, .error _) =>
      { c with loadcells := some { t with detector := detector, stage := .done } }

/-- `poll_doors` after a pass with the result `result`. -/
def doorsPass (t : DoorsTask) (stopped : Bool) (result : Except PyExc (List UnifiedEvent)) :
    Client :=
  match result with
  | .ok events =>
      { c with
        doors := some { t with stage := .loopHead stopped }
        eventQueue := c.eventQueue ++ events }
  | .error _ => { c with doors := some { t with stage := .done } }

/-- The generator yields the first event of its queue. -/
def yieldEvent (event : UnifiedEvent) (rest : List UnifiedEvent) : Client :=
  { c with generator := .yielding, eventQueue := rest, sent := c.sent ++ [event] }

/-- The end of a stream: the tasks are cancelled. -/
def finish : Client :=
  { c with
    loadcells := c.loadcells.map ({ · with stage := .done })
    doors := c.doors.map ({ · with stage := .done })
    generator := .ended }

end Client

/-! ### The streams -/

namespace PollingService

variable {κ α : Type*} [DecidableEq κ] (s : PollingService κ α)

/-- `get` on `q` takes its first item. -/
def take (consumer : ℕ) (q : κ) (item : StreamItem α) (rest : List (StreamItem α)) :
    PollingService κ α :=
  { s with
    queues := Function.update s.queues q { s.queues q with items := rest }
    consumed := s.consumed ++ [(consumer, q, StreamQueue.getNowait item)] }

/-- `unsubscribe`, and `shutdown` of the queue, with no await between them. -/
def close (q : κ) : PollingService κ α :=
  let s := s.unsubscribe q
  { s with queues := Function.update s.queues q { s.queues q with isShutdown := true } }

@[simp] theorem take_queues_self (consumer : ℕ) (q : κ) (item : StreamItem α)
    (rest : List (StreamItem α)) :
    (s.take consumer q item rest).queues q = { s.queues q with items := rest } :=
  Function.update_self ..

theorem take_queues_of_ne {q r : κ} (hne : r ≠ q) (consumer : ℕ) (item : StreamItem α)
    (rest : List (StreamItem α)) : (s.take consumer q item rest).queues r = s.queues r :=
  Function.update_of_ne hne ..

@[simp] theorem close_subscribers (q : κ) : (s.close q).subscribers = s.subscribers.erase q :=
  s.unsubscribe_subscribers q

@[simp] theorem close_polled (q : κ) : (s.close q).polled = s.polled :=
  s.unsubscribe_polled q

@[simp] theorem close_queues_self (q : κ) :
    (s.close q).queues q = { s.queues q with isShutdown := true } := by
  simp [close]

theorem close_queues_of_ne {q r : κ} (hne : r ≠ q) : (s.close q).queues r = s.queues r := by
  simp [close, Function.update_of_ne hne]

end PollingService

/-- What the other services do with a polling service. Time is the same for both, so `tick` is
none of these. -/
def PollingAction.ofService {α : Type*} (provided : Option ℚ) :
    PollingAction SubscriberName α → Bool
  | .subscribe (.stream _) | .unsubscribe (.stream _) | .shutdown (.stream _)
  | .get _ (.stream _) | .tick _ => false
  | .fetched _ _ _ p => p = provided
  | _ => true

/-- The polling services, the `stop_event`, and the streams, by the number of the request. -/
structure Streams where
  loadcells : PollingService SubscriberName (List Str) := {}
  ioStatus : PollingService SubscriberName IOStatusData := {}
  stopEvent : Bool := false
  clients : ℕ → Option Client := fun _ => none

namespace Streams

variable (s : Streams)

/-- The interval that `io_status` asks for: it is polled less often while there are subscribers
of the loadcells. -/
def ioStatusInterval (polling : PollingModel) : ℚ :=
  if s.loadcells.subscribers.Nonempty then polling.ioStatusPollIntervalWhileLoadcellsActive
  else polling.ioStatusPollInterval

def setClient (n : ℕ) (c : Client) : Streams :=
  { s with clients := Function.update s.clients n (some c) }

/-- The `finally` clause of a generator. -/
def finish (n : ℕ) (c : Client) : Streams :=
  { s with
    loadcells := if c.loadcells.isSome then s.loadcells.close (.stream n) else s.loadcells
    ioStatus := if c.doors.isSome then s.ioStatus.close (.stream n) else s.ioStatus
    clients := Function.update s.clients n (some c.finish) }

/-- The condition of the loop of a generator: it goes on while the server is not shut down. -/
def loopHead (n : ℕ) (c : Client) : Streams :=
  if s.stopEvent then s.finish n c else s.setClient n { c with generator := .probing }

/-- A generator begins: it subscribes the queues of its streams and creates their tasks. -/
def connect (n : ℕ) (request : SseRequest) (enabledStreams : List Str)
    (detector : Option (LoadcellChangeDetector PyFloat)) : Streams :=
  let doors := "doors".toList ∈ enabledStreams
  let s := { s with
    loadcells := if detector.isSome then s.loadcells.subscribe (.stream n) else s.loadcells
    ioStatus := if doors then s.ioStatus.subscribe (.stream n) else s.ioStatus }
  s.loopHead n {
    request := request
    loadcells := detector.map fun d => { initial := d, detector := d }
    doors := if doors then some {} else none }

/-- Resumes `poll_loadcells`; `now` is the time at which it consumes what it gets. -/
def resumeLoadcells (n : ℕ) (c : Client) (t : LoadcellsTask) (disconnected : Bool) (now : ℚ) :
    Option Streams :=
  (t.stage.resume (s.loadcells.queues (.stream n)) s.stopEvent disconnected).map fun
    | .suspends stage => s.setClient n { c with loadcells := some { t with stage := stage } }
    | .takes item rest =>
        { s with loadcells := s.loadcells.take n (.stream n) item rest }.setClient n
          (c.loadcellsPass { t with taken := t.taken ++ [(item, now)] } s.stopEvent
            (t.detector.poll item now))
    | .raises => s.setClient n
        (c.loadcellsPass t s.stopEvent (t.detector.failed .queueShutDown now))

/-- Resumes `poll_doors`. What it consumes is turned into one event, whatever it is. -/
def resumeDoors (n : ℕ) (c : Client) (t : DoorsTask) (disconnected : Bool) : Option Streams :=
  (t.stage.resume (s.ioStatus.queues (.stream n)) s.stopEvent disconnected).map fun
    | .suspends stage => s.setClient n { c with doors := some { t with stage := stage } }
    | .takes item rest =>
        { s with ioStatus := s.ioStatus.take n (.stream n) item rest }.setClient n
          (c.doorsPass { t with taken := t.taken ++ [item] } s.stopEvent (pollDoors item))
    | .raises => s.setClient n (c.doorsPass t s.stopEvent
        (.ok [.sse (.error ⟨"doors", ⟨"E9003", "Unexpected door stream error", []⟩⟩)]))

/-- Resumes the generator. `get` passes at once on a queue that holds an event. -/
def resumeGenerator (n : ℕ) (c : Client) (disconnected : Bool) : Option Streams :=
  match c.generator, c.eventQueue with
  | .probing, events =>
      some <| if disconnected then s.finish n c else s.setClient n <| match events with
        | [] => { c with generator := .waiting }
        | event :: rest => c.yieldEvent event rest
  | .waiting, event :: rest => some (s.setClient n (c.yieldEvent event rest))
  | .waiting, [] => none
  | .yielding, _ => some (s.loopHead n c)
  | .ended, _ => none

end Streams

/-- What can happen next: a polling service or one of its other subscribers goes on, time
passes, the server is shut down, a client connects, a task or a generator is resumed, the
`wait_for` of a generator times out, or a generator is closed or cancelled. -/
inductive StreamsAction
  | loadcells (act : PollingAction SubscriberName (List Str))
  | ioStatus (act : PollingAction SubscriberName IOStatusData)
  | tick (d : ℚ)
  | stop
  | connect (n : ℕ) (request : SseRequest)
  | pollLoadcells (n : ℕ) (disconnected : Bool) (now : ℚ)
  | pollDoors (n : ℕ) (disconnected : Bool)
  | generator (n : ℕ) (disconnected : Bool)
  | timeout (n : ℕ)
  | cancel (n : ℕ)

/-- One step of the streams. A number is used for one client only. -/
def Streams.step (u : CharDatabase) (polling : PollingModel) (s : Streams) :
    StreamsAction → Option Streams
  | .loadcells act =>
      if act.ofService none then
        (s.loadcells.step act).map fun p => { s with loadcells := p }
      else none
  | .ioStatus act =>
      if act.ofService (some (s.ioStatusInterval polling)) then
        (s.ioStatus.step act).map fun p => { s with ioStatus := p }
      else none
  | .tick d => do
      let loadcells ← s.loadcells.step (.tick d)
      let ioStatus ← s.ioStatus.step (.tick d)
      return { s with loadcells := loadcells, ioStatus := ioStatus }
  | .stop => some { s with stopEvent := true }
  | .connect n request =>
      match s.clients n, handleUnifiedSse u request with
      | none, .stream enabledStreams detector =>
          some (s.connect n request enabledStreams detector)
      | _, _ => none
  | .pollLoadcells n disconnected now => do
      let c ← s.clients n
      let t ← c.loadcells
      s.resumeLoadcells n c t disconnected now
  | .pollDoors n disconnected => do
      let c ← s.clients n
      let t ← c.doors
      s.resumeDoors n c t disconnected
  | .generator n disconnected => do
      let c ← s.clients n
      s.resumeGenerator n c disconnected
  | .timeout n => do
      let c ← s.clients n
      if c.generator = .waiting then some (s.loopHead n c) else none
  | .cancel n => do
      let c ← s.clients n
      if c.generator = .ended then none else some (s.finish n c)

/-- The polling services as they are started with the settings. -/
def Streams.initial (polling : PollingModel) : Streams where
  loadcells := { interval := polling.loadcellsPollInterval }
  ioStatus := { interval := polling.ioStatusPollInterval }

/-- The states of the streams in every run. -/
def Streams.Reachable (u : CharDatabase) (polling : PollingModel) (s : Streams) : Prop :=
  Reaches (Streams.step u polling) Any (.initial polling) s

end IoBoard
