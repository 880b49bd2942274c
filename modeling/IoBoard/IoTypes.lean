import IoBoard.Exceptions

/-!
# Protocol Types

The command codes and device states of `io_types.py`, each with its wire value, and the
ten commands of the board.

## Conventions

An enumeration of the source is an inductive type, and its `.value` a function. The value
is a `Str`, for the protocol encodes it character by character. Calling the enumeration on
a text, `DoorState(text)`, is `ofText?`; where the source raises `ValueError`, it is
`none`, and the caller of the model decides, as the caller in the source does, what
becomes of it.

`Command` has no counterpart in the source, which passes a command type and a subcommand
side by side. A subcommand belongs to one command type only, and `_send_command` refuses
every other pair before it builds a request, so a pair that gets further is a `Command`.
The two codes give it back (`Command.codes_injective`).

The response models and events of `io_types.py` stand where they are built: the events in
`IoBoard.Sse` and `IoBoard.SseStream`, the bodies of the routes in `IoBoard.Routers`.
-/

namespace IoBoard

/-- `CommandType`, the first two characters of a frame behind its STX. -/
inductive CommandType
  | managementControl
  | request
  deriving DecidableEq, Repr

/-- `ManagementSubcommand`, the commands that change something on the board. -/
inductive ManagementSubcommand
  | initializeBoard
  | deadboltControl
  | calibrate
  | writeProductId
  | clearErrors
  | reboot
  deriving DecidableEq, Repr

/-- `RequestSubcommand`, the commands that ask the board for something. -/
inductive RequestSubcommand
  | manufacturingInfo
  | loadcellWeights
  | ioStatus
  | errorList
  deriving DecidableEq, Repr

/-- A command of the board: the subcommand determines the command type, which is what
`_send_command` checks before it builds a request. -/
inductive Command
  | managementControl (sub : ManagementSubcommand)
  | request (sub : RequestSubcommand)
  deriving DecidableEq, Repr

/-- The wire value of a command type. -/
def CommandType.value : CommandType → Str
  | .managementControl => ['M', 'C']
  | .request => ['R', 'Q']

/-- The wire value of a management subcommand. -/
def ManagementSubcommand.value : ManagementSubcommand → Str
  | .initializeBoard => ['P', 'D']
  | .deadboltControl => ['D', 'C']
  | .calibrate => ['L', 'Z']
  | .writeProductId => ['W', 'P']
  | .clearErrors => ['E', 'Z']
  | .reboot => ['R', 'T']

/-- The wire value of a request subcommand. -/
def RequestSubcommand.value : RequestSubcommand → Str
  | .manufacturingInfo => ['M', 'I']
  | .loadcellWeights => ['I', 'W']
  | .ioStatus => ['I', 'D']
  | .errorList => ['E', 'R']

/-- The CMD code of a command. -/
def Command.cmd : Command → Str
  | .managementControl _ => CommandType.managementControl.value
  | .request _ => CommandType.request.value

/-- The SUBCMD code of a command. -/
def Command.subcmd : Command → Str
  | .managementControl sub => sub.value
  | .request sub => sub.value

/-- `DoorState`, by the six characters that the board sends. -/
inductive DoorState
  | opened
  | closed
  deriving DecidableEq, Repr

/-- `DeadboltState`, by the six characters of a status. These are also the labels in the answer
to MC/DC. -/
inductive DeadboltState
  | unlock
  | locked
  deriving DecidableEq, Repr

/-- `DeadboltAction`, what a client asks for, with the label that the request carries. -/
inductive DeadboltAction
  | «open»
  | close
  deriving DecidableEq, Repr

/-- The wire value of a door state. -/
def DoorState.value : DoorState → Str
  | .opened => ['O', 'P', 'E', 'N', 'E', 'D']
  | .closed => ['C', 'L', 'O', 'S', 'E', 'D']

/-- The wire value of a deadbolt state. -/
def DeadboltState.value : DeadboltState → Str
  | .unlock => ['U', 'N', 'L', 'O', 'C', 'K']
  | .locked => ['L', 'O', 'C', 'K', 'E', 'D']

/-- The wire value of a deadbolt action. They differ in length, so the request that carries
one has no fixed length. -/
def DeadboltAction.value : DeadboltAction → Str
  | .open => ['O', 'P', 'E', 'N']
  | .close => ['C', 'L', 'O', 'S', 'E']

/-- `DoorState(text)`: `none` where the enumeration raises `ValueError`. The comparison is
with the six characters of the wire; there is no trimming and no folding of case. -/
def DoorState.ofText? (text : Str) : Option DoorState :=
  if text = DoorState.opened.value then some .opened
  else if text = DoorState.closed.value then some .closed
  else none

/-- `DeadboltState(text)`: `none` where the enumeration raises `ValueError`. The board sends
`"UNLOCK"` and `"LOCKED"`, and nothing else is accepted. -/
def DeadboltState.ofText? (text : Str) : Option DeadboltState :=
  if text = DeadboltState.unlock.value then some .unlock
  else if text = DeadboltState.locked.value then some .locked
  else none

/-- Reading a wire value back gives the state. -/
@[simp] theorem DoorState.ofText?_value (s : DoorState) : ofText? s.value = some s := by
  cases s <;> decide

/-- Reading a wire value back gives the state. -/
@[simp] theorem DeadboltState.ofText?_value (s : DeadboltState) :
    ofText? s.value = some s := by
  cases s <;> decide

/-- `IOStatusData`, the typed dictionary of the door and the deadbolt. -/
structure IOStatusData where
  door : DoorState
  deadbolt : DeadboltState
  deriving DecidableEq, Repr

/-- `ProductInfoData`, the typed dictionary of the product id and the software version. -/
structure ProductInfoData where
  productId : Str
  swVersion : Str
  deriving DecidableEq, Repr

/-- The codes identify the command: all ten pairs of CMD and SUBCMD are different. -/
theorem Command.codes_injective {c d : Command} (hcmd : c.cmd = d.cmd)
    (hsub : c.subcmd = d.subcmd) : c = d := by
  cases c with
  | managementControl s =>
      cases d with
      | managementControl t => cases s <;> cases t <;> first | rfl | exact absurd hsub (by decide)
      | request t => simp [Command.cmd, CommandType.value] at hcmd
  | request s =>
      cases d with
      | managementControl t => simp [Command.cmd, CommandType.value] at hcmd
      | request t => cases s <;> cases t <;> first | rfl | exact absurd hsub (by decide)

end IoBoard
