import IoBoard.Config
import IoBoard.Protocol
import IoBoard.Sanitizer
import IoBoard.SerialIo

/-!
# Commands

The code of `commands.py` on both sides of its one `await fetch`: what `_send_command`
passes to `fetch`, and what it and the command functions make of what `fetch` returns or
raises.

## Why the two sides

A command function builds a request, awaits `fetch` and works on the answer, and awaits
nothing else (only `get_loadcells` has a gate around it, which is `IoBoard.Loadcells`). So
in a concurrent system it is two pure functions with the run of `fetch` between them, and
this is what a command is here: `sendCommand` for all of them, and one `receive…` for each.
The second takes the outcome of `fetch` as an `Except`, since the `except` clause of
`_session` is around the whole.

## Errors

`_session` wraps a `DeviceError` and lets everything else pass. Nothing on this side of the
code raises a `DeviceError`, and `fetch` does not either, so the clause is never taken; it
is modelled nevertheless. What can come out is an error of `fetch`, an error of the parser,
the disagreement of the codes, a `ValueError` of an enumeration, or an `AttributeError` of a
response without the field that is asked for. `IoBoard.CommandOutcomes` says which of these
occur.
-/

namespace IoBoard

/-- `_send_command` up to `fetch`: the arguments of the call. `minGap` is the module global
`_loadcell_min_gap`, which only an RQIW request passes on.

The codes that `fetch` is told to expect are those of the request, so the answer to another
command is never an answer. -/
def sendCommand (minGap : ℚ) (c : Command) (data : RequestDict) : Except PyExc FetchArgs :=
  match buildRequest c.cmd c.subcmd data with
  | .error e => .error e
  | .ok message => .ok {
      message := message
      expectedCommand := some c.cmd
      expectedSubcommand := some c.subcmd
      minSendInterval := if c = .request .loadcellWeights then minGap else 0 }

/-- `_send_command` from `fetch` on. The codes are compared once more, on the parsed response. -/
def receiveResponse (c : Command) (responseMessage : Bytes) : Except PyExc Response :=
  match parseResponse responseMessage with
  | .error e => .error e
  | .ok response =>
      if response.command ≠ c.cmd ∨ response.subcommand ≠ c.subcmd then
        .error (.ioBoard ⟨.protocol, "Parsed response CMD/SUBCMD did not match request",
          .protocolInvalidResponse,
          [("expected", .text (c.cmd ++ ['/'] ++ c.subcmd)),
            ("received", .text (response.command ++ ['/'] ++ response.subcommand))]⟩)
      else .ok response

/-- The `except` clause of `_session`: a `DeviceError` is wrapped, everything else passes. The
details are the command's name and the arguments that the command function passes. -/
def session (command : String) (kwargs : List (String × Detail)) : PyExc → PyExc
  | .ioBoard e =>
      if e.kind = .device then
        .ioBoard ⟨.device, "Command '" ++ command ++ "' failed", .deviceCommandFailed,
          ("command", .str command) :: kwargs⟩
      else .ioBoard e
  | e => e

/-- `response.DATA.LOADCELLS`: an attribute of one shape of data only. -/
def ResponseData.loadcells : ResponseData → Except PyExc (List Str)
  | .loadcellWeights values => .ok values
  | _ => .error (.other "AttributeError")

/-- The command functions without a result, from `fetch` on. A frame with the right codes and any
data that parses is an acknowledgement. -/
def receiveAcknowledgement (name : String) (c : Command) (fetched : Except PyExc Bytes) :
    Except PyExc Unit :=
  ((fetched.bind (receiveResponse c)).map fun _ => ()).mapError (session name [])

/-- `initialize` from `fetch` on: an acknowledgement of MC/PD is checked, and nothing is
returned. -/
def receiveInitialize : Except PyExc Bytes → Except PyExc Unit :=
  receiveAcknowledgement "initialize" (.managementControl .initializeBoard)

/-- `clear_errors` from `fetch` on, for an acknowledgement of MC/EZ. -/
def receiveClearErrors : Except PyExc Bytes → Except PyExc Unit :=
  receiveAcknowledgement "clear_errors" (.managementControl .clearErrors)

/-- `reboot` from `fetch` on, for an acknowledgement of MC/RT. -/
def receiveReboot : Except PyExc Bytes → Except PyExc Unit :=
  receiveAcknowledgement "reboot" (.managementControl .reboot)

/-- `calibrate` from `fetch` on: the sanitizer after `reset_loadcell_processing`, which a response
is followed by. A failed calibration leaves the sanitizer as it was. -/
def receiveCalibrate (sanitizer : Option LoadcellSanitizer) (fetched : Except PyExc Bytes) :
    Option LoadcellSanitizer × Except PyExc Unit :=
  match receiveAcknowledgement "calibrate" (.managementControl .calibrate) fetched with
  | .error e => (sanitizer, .error e)
  | .ok _ => (resetSanitizer sanitizer, .ok ())

/-- `response.DATA.PRODUCT_ID`, which the answers to MC/WP and RQ/MI have. Any other shape of
data raises `AttributeError`. -/
def ResponseData.productId : ResponseData → Except PyExc Str
  | .writeProductId productId => .ok productId
  | .manufacturingInfo productId _ => .ok productId
  | _ => .error (.other "AttributeError")

/-- `set_manufacturing_number` from `fetch` on. What is returned is the number in the answer of
the board. -/
def receiveManufacturingNumber (manufacturingNumber : Str) (fetched : Except PyExc Bytes) :
    Except PyExc Str :=
  ((fetched.bind (receiveResponse (.managementControl .writeProductId))).bind
    (·.data.productId)).mapError
      (session "set_manufacturing_number" [("manufacturing_number", .text manufacturingNumber)])

/-- The `ProductInfoData` of a response, two texts without their padding. -/
def ResponseData.productInfo : ResponseData → Except PyExc ProductInfoData
  | .manufacturingInfo productId swVersion => .ok ⟨productId, swVersion⟩
  | _ => .error (.other "AttributeError")

/-- `get_product_info` from `fetch` on. The texts may be shorter than their fields. -/
def receiveProductInfo (fetched : Except PyExc Bytes) : Except PyExc ProductInfoData :=
  ((fetched.bind (receiveResponse (.request .manufacturingInfo))).bind
    (·.data.productInfo)).mapError (session "get_product_info" [])

/-- `get_loadcells` from `fetch` on, for a request that the cache does not answer: the sanitizer
after it, and the readings. A sanitizer that raises has changed its channels up to the one that
raised. -/
def receiveLoadcells (sanitizer : Option LoadcellSanitizer) (fetched : Except PyExc Bytes)
    (now : PyFloat) : Option LoadcellSanitizer × Except PyExc (List Str) :=
  let wrap : Except PyExc (List Str) → Except PyExc (List Str) :=
    Except.mapError (session "get_loadcells" [])
  match fetched.bind (receiveResponse (.request .loadcellWeights)) with
  | .error e => (sanitizer, wrap (.error e))
  | .ok response =>
      match response.data.loadcells with
      | .error e => (sanitizer, wrap (.error e))
      | .ok deviceValues =>
          let result := sanitizeLoadcells sanitizer deviceValues now
          (result.1, wrap result.2)

/-- `DeadboltState(response.DATA.DEADBOLT)`. A byte without a label is a number, and no state. -/
def ResponseData.deadboltState : ResponseData → Except PyExc DeadboltState
  | .deadboltControl (.label text) =>
      match DeadboltState.ofText? text with
      | some state => .ok state
      | _ => .error .valueError
  | .deadboltControl (.code _) => .error .valueError
  | _ => .error (.other "AttributeError")

/-- `set_deadbolt` from `fetch` on. An unknown state raises `ValueError`, which the session
around the command lets pass. -/
def receiveDeadbolt (action : DeadboltAction) (fetched : Except PyExc Bytes) :
    Except PyExc DeadboltState :=
  ((fetched.bind (receiveResponse (.managementControl .deadboltControl))).bind
    (·.data.deadboltState)).mapError (session "set_deadbolt" [("action", .text action.value)])

/-- The `IOStatusData` of a response. Either text may be none of its enumeration; which of the two
raises is the same exception. -/
def ResponseData.status : ResponseData → Except PyExc IOStatusData
  | .ioStatus door deadbolt =>
      match DoorState.ofText? door, DeadboltState.ofText? deadbolt with
      | some door, some deadbolt => .ok ⟨door, deadbolt⟩
      | _, _ => .error .valueError
  | _ => .error (.other "AttributeError")

/-- `get_status` from `fetch` on. The texts of the door and the deadbolt become values of the
enumerations, or raise. -/
def receiveStatus (fetched : Except PyExc Bytes) : Except PyExc IOStatusData :=
  ((fetched.bind (receiveResponse (.request .ioStatus))).bind (·.data.status)).mapError
    (session "get_status" [])

/-- `response.DATA.ERRORS`, four codes of the error log. -/
def ResponseData.errors : ResponseData → Except PyExc (List Str)
  | .errorList errors => .ok errors
  | _ => .error (.other "AttributeError")

/-- `get_errors` from `fetch` on. All four codes are returned, also those that stand for no
error. -/
def receiveErrors (fetched : Except PyExc Bytes) : Except PyExc (List Str) :=
  ((fetched.bind (receiveResponse (.request .errorList))).bind (·.data.errors)).mapError
    (session "get_errors" [])

/-- What `_send_command` returns is a parsed response with the codes of its command. -/
theorem receiveResponse_eq_ok_iff {c : Command} {frame : Bytes} {r : Response} :
    receiveResponse c frame = .ok r ↔
      parseResponse frame = .ok r ∧ r.command = c.cmd ∧ r.subcommand = c.subcmd := by
  rw [receiveResponse]
  cases parseResponse frame with
  | error e => simp
  | ok r' =>
      dsimp only
      split_ifs with hcodes
      · simp only [Except.ok.injEq, false_iff]
        rintro ⟨rfl, hcmd, hsub⟩
        exact hcodes.elim (absurd hcmd) (absurd hsub)
      · rw [not_or, not_not, not_not] at hcodes
        rw [Except.ok.injEq]
        constructor
        · rintro rfl
          exact ⟨rfl, hcodes⟩
        · exact And.left

/-- The codes that `_send_command` tells `fetch` to expect are those of the command. -/
theorem sendCommand_expected {minGap : ℚ} {c : Command} {data : RequestDict}
    {args : FetchArgs} (h : sendCommand minGap c data = .ok args) :
    args.expectedCommand = some c.cmd ∧ args.expectedSubcommand = some c.subcmd := by
  rw [sendCommand] at h
  split at h
  · cases h
  · cases h
    exact ⟨rfl, rfl⟩

/-- Every code is two bytes long. -/
theorem Command.length_codes_eq (c : Command) : c.codes.length = 4 := by
  obtain ⟨cs, ss, hcodes, hcs, hss, -⟩ := decode_codes c
  rw [hcodes, List.length_append, hcs, hss]

/-- A request that can be built starts with STX and the codes of its command, so the wire gap of a
command is a gap between all its requests, whatever their data. -/
theorem take_sendCommand {minGap : ℚ} {c : Command} {data : RequestDict} {args : FetchArgs}
    (h : sendCommand minGap c data = .ok args) : args.message.take 5 = STX :: c.codes := by
  rw [sendCommand] at h
  split at h
  · cases h
  · rename_i message hbuild
    cases h
    obtain ⟨payload, rfl⟩ := buildRequest_eq_ok hbuild
    have hlen : (STX :: c.codes).length = 5 := by rw [List.length_cons, c.length_codes_eq]
    rw [List.append_assoc, ← hlen, List.take_left]

/-- What `_send_command` passes to `fetch` for RQIW with the default gap. -/
def rqiwArgs : FetchArgs where
  message := [2, 82, 81, 73, 87, 3, 30]
  expectedCommand := some ['R', 'Q']
  expectedSubcommand := some ['I', 'W']
  minSendInterval := 3 / 4

theorem sendCommand_loadcellWeights :
    sendCommand (3 / 4) (.request .loadcellWeights) [] = .ok rqiwArgs := by
  decide +kernel

end IoBoard
