import IoBoard.Lib.Sessions
import IoBoard.Machine

/-!
# Loadcell Requests

`get_loadcells` and `calibrate` with the module globals they share, on top of the serial
layer: the gate, the throttle cache and the sanitizer. Every RQIW request of the service is
one of a `get_loadcells` call, every MCLZ request one of `calibrate`; all other commands go
through the same serial layer. A call is one task with at most one `fetch`, and has the number
of that `fetch` call.

## Where a call can be interrupted

A `get_loadcells` call suspends at the gate and inside `fetch`, a `calibrate` call only inside
`fetch`. Between the end of `fetch`, which leaves the serial mutex, and the end of the command
there is no await that suspends, so the serial step that ends a `fetch` is also the rest of its
task: the readings go through the sanitizer and into the cache before any other task goes on.
A cancellation ends a call at the gate at once; inside `fetch` it is the step of the serial
layer, and the command fails with what that raises.

## What is left to the environment

The clock of the event loop is that of the serial layer, an exact rational that only grows; the
throttle compares times of it. The sanitizer reads the time as a float, and that float is
given with the step (`ts`), since nothing relates it to the clock of the loop. What an await of
the serial layer ends with is its `Wakeup`, as in the serial model.

The `log` is not part of the program: it records what the serial layer has logged, the frames
of the device that `get_loadcells` calls have received, and the resets by `calibrate`, in the
order in which they happen.

## Main definitions

* `Loadcells.finishGet`, `Loadcells.finishCalibrate`: the commands from `fetch` on.
* `Loadcells.step`, `Loadcells.Reachable`: what can happen, and the states of every run.
-/

open Runs Sessions

namespace IoBoard

/-- RQ/IW, the request of the readings of all ten loadcells. -/
abbrev loadcellWeights : Command := .request .loadcellWeights

/-- MC/LZ, the zeroing of all loadcells. -/
abbrev calibrateCommand : Command := .managementControl .calibrate

/-- Where a `get_loadcells` call is suspended: at the gate, or in `fetch`; or how it has ended. -/
inductive GetStage
  | acquiring
  | fetching
  | returned (values : List Str)
  | failed (e : PyExc)
  deriving DecidableEq

/-- Where a `calibrate` call is suspended, in `fetch`; or how it has ended. -/
inductive CalibrateStage
  | fetching
  | returned
  | failed (e : PyExc)
  deriving DecidableEq

/-- A task of the service that calls one of the two functions. -/
inductive LoadcellTask
  | get (stage : GetStage)
  | calibrate (stage : CalibrateStage)
  deriving DecidableEq

/-- A frame of the device that a `get_loadcells` call has received, and when by the clock of the
loop. The `Frame` has the time that the sanitizer reads. -/
structure DeviceFrame where
  call : CallId
  frame : Frame
  time : ℚ

/-- What the log of a run records. The entries of the serial layer are its own. -/
inductive LoadcellEvent
  | serial (e : Event)
  | frame (f : DeviceFrame)
  | reset (call : CallId)

/-- A reset of the loadcell processing. -/
def LoadcellEvent.isReset : LoadcellEvent → Bool
  | .reset _ => true
  | _ => false

/-- The serial layer, the globals of the loadcell commands, and their calls. `sanitizer` is
`none` where the settings switch it off. -/
structure Loadcells where
  serial : State := {}
  gate : Option CallId := none
  cache : Option (List Str) := none
  cacheTs : ℚ := 0
  sanitizer : Option LoadcellSanitizer := none
  tasks : CallId → Option LoadcellTask := fun _ => none
  log : List LoadcellEvent := []

/-- What `_send_command` returns to `get_loadcells`: the readings of the device, before the
sanitizer has seen them. -/
def deviceValues (fetched : Except PyExc Bytes) : Except PyExc (List Str) :=
  (fetched.bind (receiveResponse loadcellWeights)).bind (·.data.loadcells)

namespace Loadcells

variable (cfg : Settings) (m : Loadcells)

/-- After `configure_loadcell_throttle` and `configure_sanitizer`: no call has been made, and
the cache is empty. -/
def configured : Loadcells :=
  { sanitizer := configureSanitizer cfg.sanitize }

/-- The task `id` goes on at `task`. -/
def setTask (id : CallId) (task : LoadcellTask) : Loadcells :=
  { m with tasks := Function.update m.tasks id (some task) }

/-- The call leaves the `async with _loadcell_gate` block, on whatever way out. -/
def leave (id : CallId) (stage : GetStage) : Loadcells :=
  { m.setTask id (.get stage) with gate := none }

/-- The cached readings, when they answer a request now: there are some, and they are younger
than the minimum gap. A gap of zero switches the cache off. -/
def served : Option (List Str) :=
  match m.cache with
  | some values =>
      if 0 < cfg.polling.loadcellsMinRequestGap ∧
          m.serial.clock - m.cacheTs < cfg.polling.loadcellsMinRequestGap then some values
      else none
  | none => none

/-- A task calls `_send_command`, as far as `fetch`, whose call is new and waits for the serial
mutex. -/
def send (id : CallId) (c : Command) (data : RequestDict) : Option Loadcells :=
  match sendCommand cfg.polling.loadcellsMinRequestGap c data with
  | .error _ => none
  | .ok args => (IoBoard.step cfg.serial m.serial (.call id args)).map fun s =>
      { m with serial := s }

/-- `get_loadcells` once it has the gate: it answers from the cache, or sends RQIW. The gate
stays with it until it leaves. -/
def enter (id : CallId) : Option Loadcells :=
  match m.served cfg with
  | some values => some (m.leave id (.returned values))
  | none => (send cfg { m with gate := some id } id loadcellWeights []).map fun m =>
      m.setTask id (.get .fetching)

/-- The frame that a `get_loadcells` call has received, if it has. -/
def deviceFrame (id : CallId) (fetched : Except PyExc Bytes) (ts : PyFloat) :
    List LoadcellEvent :=
  match deviceValues fetched with
  | .ok values => [.frame ⟨id, ⟨values, ts⟩, m.serial.clock⟩]
  | .error _ => []

/-- `get_loadcells` from `fetch` on. `ts` is the time that the sanitizer reads. The cache is
filled only if the sanitizer returns. -/
def finishGet (id : CallId) (fetched : Except PyExc Bytes) (ts : PyFloat) : Loadcells :=
  let received := receiveLoadcells m.sanitizer fetched ts
  let m := { m with sanitizer := received.1, log := m.log ++ m.deviceFrame id fetched ts }
  match received.2 with
  | .ok values =>
      { m.leave id (.returned values) with cache := some values, cacheTs := m.serial.clock }
  | .error e => m.leave id (.failed e)

/-- `reset_loadcell_processing`, by the call `id` of `calibrate`. It takes no lock, and a request in
`fetch` is not told. -/
def resetLoadcellProcessing (id : CallId) : Loadcells :=
  { m with
    cache := none
    cacheTs := 0
    sanitizer := resetSanitizer m.sanitizer
    log := m.log ++ [.reset id] }

/-- `calibrate` from `fetch` on: an error is raised again as that of the command, and only
without one is the processing reset. -/
def finishCalibrate (id : CallId) (fetched : Except PyExc Bytes) : Loadcells :=
  match (fetched.bind (receiveResponse calibrateCommand)).mapError (session "calibrate" []) with
  | .ok _ => (m.resetLoadcellProcessing id).setTask id (.calibrate .returned)
  | .error e => m.setTask id (.calibrate (.failed e))

/-- The serial layer is in the state `s` now, and what it has logged on the way is logged here. -/
def withSerial (s : State) : Loadcells :=
  { m with
    serial := s
    log := m.log ++ (s.log.drop m.serial.log.length).map .serial }

/-- The rest of the task `id`, when its `fetch` has ended. A `fetch` of another command belongs
to no task here. -/
def finish (id : CallId) (ts : PyFloat) : Loadcells :=
  match (m.serial.calls id).bind fun c => c.stage.result with
  | none => m
  | some fetched =>
      match m.tasks id with
      | some (.get .fetching) => m.finishGet id fetched ts
      | some (.calibrate .fetching) => m.finishCalibrate id fetched
      | _ => m

end Loadcells

/-- What can happen next: a call of `get_loadcells` starts or gets the gate, a call of
`calibrate` starts, another command is sent, a call is resumed or cancelled, or something
happens to the serial layer. -/
inductive LoadcellAction
  | getLoadcells (id : CallId)
  | acquire (id : CallId)
  | calibrate (id : CallId)
  | command (id : CallId) (c : Command) (data : RequestDict)
  | resume (id : CallId) (wakeup : Wakeup) (ts : PyFloat)
  | cancel (id : CallId)
  | tick (d : ℚ)
  | receive (n : ConnId) (bs : Bytes)
  | closing (n : ConnId)
  | connectionLost (n : ConnId) (exc : Option PyExc)

/-- One step of the loadcell commands. Those of the serial layer are taken as they are there,
and end a task where they end its `fetch`. -/
def Loadcells.step (cfg : Settings) (m : Loadcells) : LoadcellAction → Option Loadcells
  | .getLoadcells id =>
      if (m.tasks id).isNone ∧ (m.serial.calls id).isNone then
        some (m.setTask id (.get .acquiring))
      else none
  | .acquire id =>
      if m.tasks id = some (.get .acquiring) ∧ m.gate = none then m.enter cfg id else none
  | .calibrate id =>
      if (m.tasks id).isNone then
        (m.send cfg id calibrateCommand []).map fun m => m.setTask id (.calibrate .fetching)
      else none
  | .command id c data =>
      if (m.tasks id).isNone ∧ c ≠ loadcellWeights ∧ c ≠ calibrateCommand then
        m.send cfg id c data
      else none
  | .resume id wakeup ts =>
      (IoBoard.step cfg.serial m.serial (.resume id wakeup)).map fun s =>
        (m.withSerial s).finish id ts
  | .cancel id =>
      if m.tasks id = some (.get .acquiring) then
        some (m.setTask id (.get (.failed .cancelledError)))
      else
        (IoBoard.step cfg.serial m.serial (.cancel id)).map fun s => (m.withSerial s).finish id 0
  | .tick d => (IoBoard.step cfg.serial m.serial (.tick d)).map m.withSerial
  | .receive n bs => (IoBoard.step cfg.serial m.serial (.receive n bs)).map m.withSerial
  | .closing n => (IoBoard.step cfg.serial m.serial (.closing n)).map m.withSerial
  | .connectionLost n exc =>
      (IoBoard.step cfg.serial m.serial (.connectionLost n exc)).map m.withSerial

/-- The states of the loadcell commands after the service has started. -/
def Loadcells.Reachable (cfg : Settings) (m : Loadcells) : Prop :=
  Reaches (Loadcells.step cfg) Any (Loadcells.configured cfg) m

end IoBoard
