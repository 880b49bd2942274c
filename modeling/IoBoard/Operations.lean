import IoBoard.ErrorState
import IoBoard.Machine

/-!
# Deadbolt Operations

`POST /deadbolt` with the operation lock and the error-state service, on top of the serial
layer. Beside it the service sends any other commands (background polling, health checks,
loadcell requests), and the loop of the error-state service consumes what polling gives it.
A request may be cancelled wherever it is suspended.

## Where a request is suspended

At the operation lock, in the `fetch` of its MC/DC command, in the settle sleep after it, in the
`fetch` of `get_status`, and in the pause between two of these. Between the end of `fetch` and the
next await of its request there is no await that suspends, so the serial step that ends a
`fetch` is also the rest of the code up to that await. A cancellation inside a `fetch` is a step of
the serial layer, and the request sees what that raises; at the lock and in a sleep it is a step
of its own (`cancelPost`).

## What is left to the environment

What the board and the sensors do is part of the bytes that arrive; the `Wakeup` of an await of
the serial layer is any that is possible. Times are exact rationals: the clock of the event loop
is that of the serial layer, and deadlines are set by it. The Unix time with which a target is
recorded comes with the step, and so do the items that the loop of the error-state service takes,
with their own times; nothing relates these clocks.

The `log` is not part of the program: it records what the serial layer has logged, what has
happened to the error-state service and what the requests have done. `callers` gives the
request that waits for a `fetch` call.

## Main definitions

* `Operations.finishControl`, `Operations.finishStatus`: a request from `fetch` on.
* `Operations.step`, `Operations.Reachable`: what can happen, and the states of every run.
-/

open Runs

namespace IoBoard

/-- What the log records of a request: its target is recorded, `set_deadbolt` has returned,
`get_status` is called and has returned, and the request has left the lock. -/
inductive PostEvent
  | recorded
  | controlled
  | asked (call : CallId) (time : ℚ)
  | read (call : CallId) (status : IOStatusData) (time : ℚ)
  | ended
  deriving DecidableEq

/-- What the log of a run records, in the order in which it happens. -/
inductive OperationEvent
  | serial (e : Event)
  | service (e : ServiceEvent)
  | post (p : PostId) (e : PostEvent)

/-- The serial layer, the error-state service, the operation lock and the requests. The lock is
that of the application, one for all requests. -/
structure Operations where
  serial : State := {}
  errorState : ErrorStateManagementService := {}
  operationLock : Option PostId := none
  posts : PostId → Option Post := fun _ => none
  callers : CallId → Option PostId := fun _ => none
  log : List OperationEvent := []

namespace Operations

variable (cfg : Settings) (m : Operations)

/-- After `lifespan` has made the services: no request has arrived, and no command was sent. -/
def configured : Operations :=
  { errorState := .new cfg.health.doorOpenErrorSeconds cfg.health.deadboltApplyTimeoutSeconds }

/-- The request `p` is suspended at `stage` next. -/
def setPost (p : PostId) (post : Post) (stage : PostStage) : Operations :=
  { m with posts := Function.update m.posts p (some { post with stage := stage }) }

/-- The request leaves the `async with operation_lock` block, with a state or with an exception. -/
def leave (p : PostId) (post : Post) (stage : PostStage) : Operations :=
  { m.setPost p post stage with
    operationLock := none
    log := m.log ++ [.post p .ended] }

/-- Something is recorded in the log, and nothing else happens. -/
def note (p : PostId) (e : PostEvent) : Operations :=
  { m with log := m.log ++ [.post p e] }

/-- A command is sent, as far as `fetch`, whose call waits for the serial mutex. -/
def send (id : CallId) (c : Command) (data : RequestDict) : Option Operations :=
  match sendCommand cfg.polling.loadcellsMinRequestGap c data with
  | .error _ => none
  | .ok args => (IoBoard.step cfg.serial m.serial (.call id args)).map fun s =>
      { m with serial := s }

/-- `set_deadbolt_action` for the request `p`, at the time `now`. It is called inside the lock,
before the command is sent. -/
def record (p : PostId) (action : DeadboltAction) (now : ℚ) : Operations :=
  { m with
    errorState := m.errorState.setDeadboltAction action now
    log := m.log ++ [.service (.controlled action now), .post p .recorded] }

/-- The loop of the error-state service has taken an item from its queue, or `get` has raised. -/
def consume (item : Except PyExc (IOStatusData × ℚ)) : Operations :=
  { m with
    errorState := m.errorState.consume item
    log := m.log ++ [.service (.consumed item)] }

/-- The request `p` has got the lock: its code as far as `fetch`. The target is recorded whether the
command succeeds or not. -/
def control (p : PostId) (post : Post) (id : CallId) (now : ℚ) : Option Operations :=
  (send cfg (record { m with
      operationLock := some p
      callers := Function.update m.callers id (some p) } p post.action now) id deadboltControl
    [("DEADBOLT", post.action.value)]).map fun m =>
      m.setPost p { post with control := some id } (.controlling id)

/-- The request `p` calls `get_status`. The deadline stays the same from poll to poll. -/
def ask (p : PostId) (post : Post) (id : CallId) (deadline : ℚ) : Option Operations :=
  (send cfg { m with callers := Function.update m.callers id (some p) } id ioStatus []).map
    fun m => (m.setPost p post (.verifying id deadline)).note p (.asked id m.serial.clock)

/-- `set_deadbolt` in the route from `fetch` on, up to the settle time. An error leaves the
block. -/
def finishControl (p : PostId) (post : Post) (fetched : Except PyExc Bytes) : Operations :=
  match receiveDeadbolt post.action fetched with
  | .ok _ =>
      (m.setPost p post (.settling (m.serial.clock + deadboltSettleSeconds))).note p .controlled
  | .error e => m.leave p post (.failed e)

/-- `get_status` in the route from `fetch` on, up to the next pause or the end. The route
returns at the first state that is the requested one, or once the deadline has passed. -/
def finishStatus (p : PostId) (post : Post) (id : CallId) (deadline : ℚ)
    (fetched : Except PyExc Bytes) : Operations :=
  match receiveStatus fetched with
  | .ok status =>
      let m := m.note p (.read id status m.serial.clock)
      if status.deadbolt = post.action.expectedState ∨ deadline ≤ m.serial.clock then
        m.leave p post (.returned id status.deadbolt)
      else m.setPost p post (.pausing (m.serial.clock + deadboltStatusPollSeconds) deadline)
  | .error e => m.leave p post (.failed e)

/-- The serial layer is in the state `s` now. -/
def withSerial (s : State) : Operations :=
  { m with
    serial := s
    log := m.log ++ (s.log.drop m.serial.log.length).map .serial }

/-- The request whose `fetch` call `id` is, if it is one of a request. Calls of the background
have none. -/
def caller (id : CallId) : Option (PostId × Post) :=
  (m.callers id).bind fun p => (m.posts p).map fun post => (p, post)

/-- The rest of the task, when the `fetch` call `id` has ended and a request waits for it. -/
def finish (id : CallId) : Operations :=
  match (m.serial.calls id).bind fun c => c.stage.result with
  | none => m
  | some fetched =>
      match m.caller id with
      | none => m
      | some (p, post) =>
          match post.stage with
          | .controlling call => if call = id then m.finishControl p post fetched else m
          | .verifying call deadline =>
              if call = id then m.finishStatus p post id deadline fetched else m
          | _ => m

end Operations

/-- What can happen next: a request arrives, gets the lock, wakes up or is cancelled while it
waits for the lock or sleeps; another command is sent; the loop of the error-state service
takes an item; a `fetch` call is resumed or cancelled; or something happens to the serial
layer. `now` is what `time()` returns. -/
inductive OperationAction
  | post (p : PostId) (action : DeadboltAction)
  | acquire (p : PostId) (id : CallId) (now : ℚ)
  | wake (p : PostId) (id : CallId)
  | cancelPost (p : PostId)
  | command (id : CallId) (c : Command) (data : RequestDict)
  | consume (item : Except PyExc (IOStatusData × ℚ))
  | resume (id : CallId) (wakeup : Wakeup)
  | cancel (id : CallId)
  | tick (d : ℚ)
  | receive (n : ConnId) (bs : Bytes)
  | closing (n : ConnId)
  | connectionLost (n : ConnId) (exc : Option PyExc)

/-- One step of the deadbolt operations. The deadline is set when the request wakes up from the
settle sleep. -/
def Operations.step (cfg : Settings) (m : Operations) : OperationAction → Option Operations
  | .post p action =>
      if (m.posts p).isNone then some (m.setPost p { action := action } .acquiring) else none
  | .acquire p id now =>
      (m.posts p).bind fun post =>
        if post.stage = .acquiring ∧ m.operationLock = none then m.control cfg p post id now
        else none
  | .wake p id =>
      (m.posts p).bind fun post =>
        match post.stage with
        | .settling wake =>
            if wake ≤ m.serial.clock then
              m.ask cfg p post id (m.serial.clock + m.errorState.deadboltApplyTimeoutSeconds)
            else none
        | .pausing wake deadline =>
            if wake ≤ m.serial.clock then m.ask cfg p post id deadline else none
        | _ => none
  | .cancelPost p =>
      (m.posts p).bind fun post =>
        match post.stage with
        | .acquiring => some (m.setPost p post (.failed .cancelledError))
        | .settling _ | .pausing _ _ => some (m.leave p post (.failed .cancelledError))
        | _ => none
  | .command id c data => if c = deadboltControl then none else m.send cfg id c data
  | .consume item => some (m.consume item)
  | .resume id wakeup =>
      (IoBoard.step cfg.serial m.serial (.resume id wakeup)).map fun s =>
        (m.withSerial s).finish id
  | .cancel id =>
      (IoBoard.step cfg.serial m.serial (.cancel id)).map fun s => (m.withSerial s).finish id
  | .tick d => (IoBoard.step cfg.serial m.serial (.tick d)).map m.withSerial
  | .receive n bs => (IoBoard.step cfg.serial m.serial (.receive n bs)).map m.withSerial
  | .closing n => (IoBoard.step cfg.serial m.serial (.closing n)).map m.withSerial
  | .connectionLost n exc =>
      (IoBoard.step cfg.serial m.serial (.connectionLost n exc)).map m.withSerial

/-- The states of the deadbolt operations after the service has started. -/
def Operations.Reachable (cfg : Settings) (m : Operations) : Prop :=
  Reaches (Operations.step cfg) Any (Operations.configured cfg) m

end IoBoard
