import IoBoard.Commands

/-!
# The Machine

The service and the board on the two ends of the line. The service runs the `POST /deadbolt`
requests of `machine.py` beside any other commands; all of them go through the serial layer.
The board handles the frames it receives in the order in which they were sent, and answers
each with at most one frame; answers come back in that order.

## The board and the line

* A frame may get lost in either direction, at any time, and may take any time to arrive.
* The board answers with complete frames that carry the codes of the request and a valid
  checksum. What it puts into them is up to it, except that an answer to RQ/ID reports the bolt
  as it is; the service need not be able to parse an answer.
* An answer arrives as a whole, and only on the connection on which its request was sent:
  closing the port discards the answers that are still to come.
* The bolt moves when it likes. Nothing says that MC/DC moves it.

## The service

No call of `fetch` is cancelled; a request can be cancelled while it waits for the operation
lock, in its settle time and between two status polls. Other commands are sent at any time by
tasks that are not modelled further, but MC/DC is sent by these requests only.

## What belongs to neither

`handled`, `arrived` and `taken` record which frames the board has handled, which answers have
arrived since the last transmission, and the answer from which a call got its frame: the first
that arrived after its last transmission, since the drain has left nothing in front of it.

## Main definitions

* `validAnswer`: what the board may answer.
* `Machine.resumePost`: the code of `POST /deadbolt` between two awaits.
* `Machine.step`, `Machine.Reachable`: what can happen, and the states of every run.
-/

open Runs

namespace IoBoard

/-! ### The board -/

/-- MC/DC. -/
abbrev deadboltControl : Command := .managementControl .deadboltControl

/-- RQ/ID. -/
abbrev ioStatus : Command := .request .ioStatus

/-- The codes of a frame on the wire, by which `fetch` tells answers apart. Two frames of one
command cannot be told apart by them. -/
abbrev Tx.label (t : Tx) : Option (Str × Str) :=
  responseCodes t.message

/-- The codes of a command, as `responseCodes` reads them. -/
abbrev Command.label (c : Command) : Option (Str × Str) :=
  some (c.cmd, c.subcmd)

/-- The codes tell the commands apart. So a transmission says which command it belongs to. -/
theorem Command.label_injective {c d : Command} (h : c.label = d.label) : c = d := by
  obtain ⟨hcmd, hsub⟩ := Prod.mk.inj (Option.some.inj h)
  exact Command.codes_injective hcmd hsub

/-- An answer of the board: the request it answers, the state of the bolt at that moment, and
the frame. The first two are not on the wire. -/
structure Answer where
  request : Tx
  bolt : DeadboltState
  frame : Bytes

/-- The frames with which the board may answer a request: complete frames with the codes of
the request and a valid checksum. The answer to RQ/ID reports the bolt; what any other answer
carries is up to the board, and need not be anything that the service can parse. -/
def validAnswer (bolt : DeadboltState) (request frame : Bytes) : Prop :=
  readFrame frame = some (frame, []) ∧ responseChecksumValid frame = true ∧
    responseCodes frame = responseCodes request ∧
    (responseCodes request = ioStatus.label →
      (receiveStatus (.ok frame)).toOption.map (·.deadbolt) = some bolt)

instance (bolt : DeadboltState) (request frame : Bytes) :
    Decidable (validAnswer bolt request frame) :=
  inferInstanceAs (Decidable (_ ∧ _))

/-! ### `POST /deadbolt` -/

/-- A `POST /deadbolt` request, by a number. A number is used once. -/
abbrev PostId := ℕ

/-- Where a `POST /deadbolt` request is suspended: at the operation lock, in `set_deadbolt`, in the
settle time, in `get_status`, or between two status polls. A stage that awaits a command names the
`fetch` call of it. -/
inductive PostStage
  | acquiring
  | controlling (call : CallId)
  | settling (wake : ℚ)
  | verifying (call : CallId) (deadline : ℚ)
  | pausing (wake deadline : ℚ)
  | returned (call : CallId) (state : DeadboltState)
  | failed (e : PyExc)
  deriving DecidableEq

/-- A `POST /deadbolt` request: the requested action, the `fetch` call of its MC/DC command, and
where it is. -/
structure Post where
  action : DeadboltAction
  control : Option CallId := none
  stage : PostStage := .acquiring
  deriving DecidableEq

/-- The state that an action asks for. -/
def DeadboltAction.expectedState : DeadboltAction → DeadboltState
  | .open => .unlock
  | .close => .locked

/-- `DEADBOLT_SETTLE_SECONDS`, the time that the bolt is given before its state is asked for. -/
def deadboltSettleSeconds : ℚ := 1 / 2

/-- `DEADBOLT_STATUS_POLL_SECONDS`, the pause between two looks at the state. -/
def deadboltStatusPollSeconds : ℚ := 1 / 10

/-! ### Both together -/

/-- The service, the line and the board. `requests` are on their way to the board and `line` are
the answers on their way back; `engaged` is what `set_deadbolt_action` has recorded. The clock
is that of the serial layer. -/
structure Machine where
  serial : State := {}
  operationLock : Option PostId := none
  engaged : Option (DeadboltState × ℚ) := none
  posts : PostId → Option Post := fun _ => none
  requests : List Tx := []
  line : List Answer := []
  bolt : DeadboltState := .locked
  handled : List Tx := []
  arrived : List Answer := []
  taken : CallId → Option Answer := fun _ => none

/-- The result of a call, when it is finished. -/
def Stage.result : Stage → Option (Except PyExc Bytes)
  | .finished r => some r
  | _ => none

namespace Machine

variable (cfg : Settings) (m : Machine)

/-- The result of a `fetch` call that is finished. -/
def result (id : CallId) : Option (Except PyExc Bytes) :=
  (m.serial.calls id).bind fun c => c.stage.result

/-- A task calls `_send_command`, as far as `fetch`. A command whose request cannot be built
does not get there. -/
def send (id : CallId) (c : Command) (data : RequestDict) : Option Machine :=
  match sendCommand cfg.polling.loadcellsMinRequestGap c data with
  | .error _ => none
  | .ok args => (step cfg.serial m.serial (.call id args)).map fun s => { m with serial := s }

/-- The request `p` is suspended at `stage` next. -/
def setPost (p : PostId) (post : Post) (stage : PostStage) : Machine :=
  { m with posts := Function.update m.posts p (some { post with stage := stage }) }

/-- The request leaves the `async with operation_lock` block, with a state or with an exception. -/
def leave (p : PostId) (post : Post) (stage : PostStage) : Machine :=
  { m.setPost p post stage with operationLock := none }

/-- Resumes a `POST /deadbolt` request: its code up to the next await. Where it sends a command,
`id` is the `fetch` call of that command. The lock is given back on every way out of the block.
-/
def resumePost (p : PostId) (post : Post) (id : CallId) : PostStage → Option Machine
  | .acquiring =>
      if m.operationLock = none then
        (({ m with
            operationLock := some p
            engaged := some (post.action.expectedState, m.serial.clock) } : Machine).send cfg id
          deadboltControl [("DEADBOLT", post.action.value)]).map
            (·.setPost p { post with control := some id } (.controlling id))
      else none
  | .controlling call =>
      (m.result call).map fun fetched =>
        match receiveDeadbolt post.action fetched with
        | .ok _ => m.setPost p post (.settling (m.serial.clock + deadboltSettleSeconds))
        | .error e => m.leave p post (.failed e)
  | .settling wake =>
      if wake ≤ m.serial.clock then
        (m.send cfg id ioStatus []).map (·.setPost p post
          (.verifying id (m.serial.clock + cfg.health.deadboltApplyTimeoutSeconds)))
      else none
  | .verifying call deadline =>
      (m.result call).map fun fetched =>
        match receiveStatus fetched with
        | .ok status =>
            if status.deadbolt = post.action.expectedState ∨ deadline ≤ m.serial.clock then
              m.leave p post (.returned call status.deadbolt)
            else m.setPost p post
              (.pausing (m.serial.clock + deadboltStatusPollSeconds) deadline)
        | .error e => m.leave p post (.failed e)
  | .pausing wake deadline =>
      if wake ≤ m.serial.clock then
        (m.send cfg id ioStatus []).map (·.setPost p post (.verifying id deadline))
      else none
  | .returned _ _ | .failed _ => none

/-- The serial layer has resumed the call `id` and is in the state `s`: what it has put on the
wire, and the answer from which it got its frame. A resumption that ends in a cancellation is
none here. -/
def resumed (id : CallId) (s : State) : Option Machine :=
  let sent := s.transmissions.drop m.serial.transmissions.length
  match (s.calls id).map Call.stage with
  | some (.finished (.error .cancelledError)) => none
  | some (.finished (.ok _)) =>
      some { m with
        serial := s
        arrived := m.arrived.tail
        taken := Function.update m.taken id m.arrived.head? }
  | _ =>
      some { m with
        serial := s
        requests := m.requests ++ sent
        arrived := if sent = [] then m.arrived else [] }

end Machine

/-- What can happen next: a command other than MC/DC is sent, the serial layer goes on, a frame gets
lost or reaches the other end, the bolt moves, or a `POST /deadbolt` request arrives, is resumed, or
is cancelled while it waits for the lock or sleeps. -/
inductive MachineAction
  | command (id : CallId) (c : Command) (data : RequestDict)
  | resume (id : CallId) (wakeup : Wakeup)
  | tick (d : ℚ)
  | closing (n : ConnId)
  | connectionLost (n : ConnId) (exc : Option PyExc)
  | loseRequest
  | handle (answer : Option Bytes)
  | loseAnswer
  | deliver
  | move (state : DeadboltState)
  | post (p : PostId) (action : DeadboltAction)
  | resumePost (p : PostId) (id : CallId)
  | cancelPost (p : PostId)

/-- One step of the machine. Those of the serial layer take the rest of a request with them
where they end its `fetch`. -/
def Machine.step (cfg : Settings) (m : Machine) : MachineAction → Option Machine
  | .command id c data => if c = deadboltControl then none else m.send cfg id c data
  | .resume id wakeup =>
      (IoBoard.step cfg.serial m.serial (.resume id wakeup)).bind (m.resumed id)
  | .tick d => (IoBoard.step cfg.serial m.serial (.tick d)).map fun s => { m with serial := s }
  | .closing n =>
      (IoBoard.step cfg.serial m.serial (.closing n)).map fun s => { m with serial := s }
  | .connectionLost n exc =>
      (IoBoard.step cfg.serial m.serial (.connectionLost n exc)).map fun s =>
        { m with serial := s }
  | .loseRequest =>
      match m.requests with
      | [] => none
      | _ :: requests => some { m with requests := requests }
  | .handle answer =>
      match m.requests, answer with
      | [], _ => none
      | t :: requests, none =>
          some { m with requests := requests, handled := m.handled ++ [t] }
      | t :: requests, some frame =>
          if validAnswer m.bolt t.message frame then
            some { m with
              requests := requests
              handled := m.handled ++ [t]
              line := m.line ++ [⟨t, m.bolt, frame⟩] }
          else none
  | .loseAnswer =>
      match m.line with
      | [] => none
      | _ :: line => some { m with line := line }
  | .deliver =>
      match m.line with
      | [] => none
      | a :: line =>
          (IoBoard.step cfg.serial m.serial (.receive a.request.conn a.frame)).map fun s =>
            { m with
              serial := s
              line := line
              arrived :=
                if m.serial.connection = some a.request.conn then m.arrived ++ [a]
                else m.arrived }
  | .move state => some { m with bolt := state }
  | .post p action =>
      if (m.posts p).isNone then some (m.setPost p { action := action } .acquiring) else none
  | .resumePost p id => (m.posts p).bind fun post => m.resumePost cfg p post id post.stage
  | .cancelPost p =>
      (m.posts p).bind fun post =>
        match post.stage with
        | .acquiring => some (m.setPost p post (.failed .cancelledError))
        -- the `async with operation_lock` block is left, whatever is still on the line
        | .settling _ | .pausing _ _ => some (m.leave p post (.failed .cancelledError))
        | _ => none

/-- The states of the machine after the service has started. -/
def Machine.Reachable (cfg : Settings) (m : Machine) : Prop :=
  Reaches (Machine.step cfg) Any {} m

end IoBoard
