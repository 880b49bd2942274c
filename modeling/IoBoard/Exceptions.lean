import Mathlib.Data.Int.Notation

/-!
# Exceptions

The exception hierarchy of the service (`exceptions.py`) together with the exceptions of
the libraries below it that the modelled code catches, re-raises or lets through. An
`except` clause of the source is a match on `PyExc`: `except Exception` is
`PyExc.isException`, `except IOBoardError` is the constructor `PyExc.ioBoard`.

## Conventions

* Bytes are `UInt8` lists (`Bytes`); `str` values that the code inspects character by
  character are `Char` lists (`Str`). Texts that are only passed on are `String`s.
* A call that may raise returns `Except PyExc`. Where the source lets an exception pass,
  the model returns it unchanged, with the message and the details it was raised with;
  what is said of an error code is said of the `IOBoardError` that comes out.
* `asyncio.CancelledError` is no `Exception`, and no clause of the service catches it
  except in a `finally`. This difference decides what a cancellation leaves behind, and
  so it is kept: `PyExc.isException` is false of it and of nothing else.
* `other` stands for every further subclass of `Exception`. No handler of the service
  looks at its class, so the name alone is kept, for the texts that print it.
-/

namespace IoBoard

/-- Python's `bytes`, as a list of bytes. -/
abbrev Bytes := List UInt8

/-- Python's `str`, where the code looks at its characters. Texts that are only passed on are
`String`s. -/
abbrev Str := List Char

instance : LawfulBEq Str := List.instLawfulBEq

/-- `exceptions.ErrorCode`: the error codes clients see, by groups of a thousand. -/
inductive ErrorCode
  | configInvalid
  | configMissing
  | serialPortNotFound
  | serialPortBusy
  | serialPortPermissionDenied
  | serialConnectionFailed
  | serialTimeout
  | serialReadError
  | serialWriteError
  | serialIncompleteRead
  | protocolBuildFailed
  | protocolParseFailed
  | protocolChecksumMismatch
  | protocolInvalidCommand
  | protocolInvalidResponse
  | protocolMalformedData
  | validationInvalidInput
  | validationOutOfRange
  | validationInvalidFormat
  | validationMissingRequired
  | deviceNotInitialized
  | deviceBusy
  | deviceErrorState
  | deviceCommandFailed
  | internalError
  | unknownError
  deriving DecidableEq, Repr

/-- The wire value of an error code. -/
def ErrorCode.value : ErrorCode → String
  | .configInvalid => "E1001"
  | .configMissing => "E1002"
  | .serialPortNotFound => "E2001"
  | .serialPortBusy => "E2002"
  | .serialPortPermissionDenied => "E2003"
  | .serialConnectionFailed => "E2004"
  | .serialTimeout => "E2005"
  | .serialReadError => "E2006"
  | .serialWriteError => "E2007"
  | .serialIncompleteRead => "E2008"
  | .protocolBuildFailed => "E3001"
  | .protocolParseFailed => "E3002"
  | .protocolChecksumMismatch => "E3003"
  | .protocolInvalidCommand => "E3004"
  | .protocolInvalidResponse => "E3005"
  | .protocolMalformedData => "E3006"
  | .validationInvalidInput => "E4001"
  | .validationOutOfRange => "E4002"
  | .validationInvalidFormat => "E4003"
  | .validationMissingRequired => "E4004"
  | .deviceNotInitialized => "E5001"
  | .deviceBusy => "E5002"
  | .deviceErrorState => "E5003"
  | .deviceCommandFailed => "E5004"
  | .internalError => "E9001"
  | .unknownError => "E9999"

/-- A value of an error's `details` dictionary. A `str` is a text of the source itself, a
`text` one that the code has computed from what it read. -/
inductive Detail
  | none
  | int (n : ℤ)
  | str (s : String)
  | text (s : Str)
  deriving DecidableEq, Repr

/-- The subclasses of `IOBoardError`, which differ in their names and their default codes. -/
inductive ErrorKind
  | configuration
  | serialCommunication
  | protocol
  | validation
  | device
  deriving DecidableEq, Repr

/-- `exceptions.IOBoardError`: its class, message, code and details. The subclasses add no
field, only a default code, so the class is a field here. -/
structure IOBoardError where
  kind : ErrorKind
  message : String
  errorCode : ErrorCode
  details : List (String × Detail) := []
  deriving DecidableEq, Repr

/-- `IOBoardError.to_dict`: the code, the message and the details, as clients get them. -/
structure ErrorDict where
  errorCode : String
  message : String
  details : List (String × Detail)
  deriving DecidableEq, Repr

/-- `IOBoardError.to_dict`: the payload of API responses and SSE events. -/
def IOBoardError.toDict (e : IOBoardError) : ErrorDict :=
  { errorCode := e.errorCode.value, message := e.message, details := e.details }

/-- The exceptions that cross the modelled code. `other` is any further subclass of
`Exception`, by its class name.

The data of an exception is what some handler reads of it: the bytes that a short read
got, the text of a serial error, the service's own error as a whole. -/
inductive PyExc
  | cancelledError
  | timeoutError
  | incompleteReadError (part : Bytes)
  | limitOverrunError
  | serialException (message : Str)
  | osError (message : Str)
  | notImplementedError
  | valueError
  | overflowError
  | keyError
  | queueShutDown
  | ioBoard (e : IOBoardError)
  | other (name : String)
  deriving DecidableEq, Repr

/-- `isinstance(e, Exception)`: everything but `asyncio.CancelledError`, which is a bare
`BaseException` and passes every `except Exception` clause. -/
def PyExc.isException : PyExc → Bool
  | .cancelledError => false
  | _ => true

/-- `isinstance(e, IOBoardError)`, the test of the handlers that report an error to a client
with its own code. -/
def PyExc.isIOBoardError : PyExc → Bool
  | .ioBoard _ => true
  | _ => false

/-- The service errors among the exceptions are exactly the `ioBoard` ones. -/
theorem PyExc.isIOBoardError_iff {e : PyExc} :
    e.isIOBoardError = true ↔ ∃ err, e = .ioBoard err := by
  cases e <;> simp [PyExc.isIOBoardError]

end IoBoard
