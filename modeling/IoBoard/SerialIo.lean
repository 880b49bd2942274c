import IoBoard.Config
import IoBoard.SerialFrame
import IoBoard.Lib.Runs

/-!
# The Serial Layer

`serial_io.fetch` with everything it shares: the serial mutex, the cached connection, the
bookkeeping of transmission and reception times, the stream readers and the event loop's
clock. A `fetch` call is a task that runs from one `await` to the next; `Stage` and
`Phase` name the awaits at which it can be suspended, and `resume` is the code between two
of them. An `Action` is one thing that can happen next: a caller enters `fetch`, a
suspended task is resumed or cancelled, time passes, bytes arrive, or a transport begins to
close or is lost. Every interleaving of callers and every behaviour of the device is a list of
actions.

## What is left to the environment

* *Time.* The clock is an exact rational number of seconds that only `tick` moves, by any
  amount and at any moment. A sleep ends at its deadline or later, never earlier; nothing
  says how much later.
* *The device.* Bytes arrive at any time and in chunks of any size, asked for or not.
* *Awaits.* What `asyncio` and `pyserial-asyncio` do at an await is resolved by the
  `Wakeup` of an action: the awaited operation completes, its `wait_for` deadline has
  passed, or it raises. A read times out only when the bytes that have arrived do not
  satisfy it.
* *The mutex.* Of the calls that wait for it any may get it next; the fairness of
  `asyncio.Lock` is not used.

## What is a little more than the program

The globals `reader` and `writer` are only ever assigned together, with no `await` between
the two assignments, and are modelled as one `connection`. Three of the suspension points
(`connecting`, `interCommandGap`, `wireMinGap`) are not awaits of the source: they cut long
stretches of code into pieces, so the runs of the program are among the runs here.

The `log` is not part of the program: it records what a run has put on the wire, which
frames it has read and which connections it has asked for. No definition reads it but those
that state results.

## Main definitions

* `Connection`: a stream reader and its transport, with the reads that `fetch` makes.
* `State`, `Action`, `step`: the serial layer and what can happen to it.
* `resume`: the code of `fetch` between two awaits.
* `Reachable`: the states of every run.
-/

open Ascii Framing Runs

namespace IoBoard

/-- A `fetch` call. An id is used once: a finished call keeps its entry, with its result. -/
abbrev CallId := ℕ

/-- A serial connection: the pair that `open_serial_connection` returned. Connections are
numbered in the order in which they were opened. -/
abbrev ConnId := ℕ

/-- The arguments of `fetch`, with the defaults of the source. A call without expected codes
takes every frame whose checksum is right. -/
structure FetchArgs where
  message : Bytes
  expectedCommand : Option Str := none
  expectedSubcommand : Option Str := none
  minSendInterval : ℚ := 0
  deriving DecidableEq

/-! ### Stream readers -/

/-- A connection as its `StreamReader` and its transport see it. `received` is all that
ever arrived and `consumed` how much of it was read; `closed` is whether the transport was
lost, and with which exception. All `wait_closed` calls await one future of the protocol, so
cancelling a task that awaits it cancels it for every later one: `closeCancelled` says that
this has happened before the transport was lost. -/
structure Connection where
  received : Bytes := []
  consumed : ℕ := 0
  eof : Bool := false
  exception : Option PyExc := none
  closing : Bool := false
  closed : Option (Option PyExc) := none
  closeCancelled : Bool := false

/-- The bytes in the reader's buffer: those that were received and not consumed. -/
def Connection.buffer (n : Connection) : Bytes :=
  n.received.drop n.consumed

/-- Bytes arrive. They join the end of the buffer, and wake whoever waits for them. -/
def Connection.feed (n : Connection) (bs : Bytes) : Connection :=
  { n with received := n.received ++ bs }

/-- A read takes bytes out of the buffer. What has been received is kept, so that the place of
a frame in the whole input can be stated. -/
def Connection.consume (n : Connection) (k : ℕ) : Connection :=
  { n with consumed := n.consumed + k }

/-- `writer.close()`. The transport begins to close and delivers no more bytes; it is lost
later, by an action of its own. -/
def Connection.close (n : Connection) : Connection :=
  { n with closing := true }

/-- `connection_lost(exc)`: the reader ends or raises from now on, and `wait_closed`
returns or raises. -/
def Connection.lose (n : Connection) (exc : Option PyExc) : Connection :=
  { n with
    closing := true
    closed := some exc
    eof := n.eof || exc.isNone
    exception := exc }

/-- `writer.wait_closed()`: `none` when it has to wait, otherwise what it raises, if anything.
The future keeps its outcome, so every later call has the same one. -/
def Connection.waitClosed (n : Connection) : Option (Option PyExc) :=
  if n.closeCancelled then some (some .cancelledError) else n.closed

/-- A task that awaits the future of `wait_closed` is cancelled. A future that is done is not
cancelled any more. -/
def Connection.cancelWaiter (n : Connection) : Connection :=
  if n.closed.isNone then { n with closeCancelled := true } else n

/-- The default limit of a `StreamReader`: a `readuntil` that finds no separator within it
raises and leaves the buffer as it is. -/
def streamLimit : ℕ := 65536

/-- `reader.read(4096)`: `none` when it has to wait. It returns what there is, and an empty
result only at the end of the stream. -/
def Connection.read (n : Connection) : Option (Except PyExc Bytes × Connection) :=
  match n.exception with
  | some e => some (.error e, n)
  | none =>
      if n.buffer = [] then
        if n.eof then some (.ok [], n) else none
      else some (.ok (n.buffer.take 4096), n.consume (n.buffer.take 4096).length)

/-- `reader.readexactly(1)`: `none` when it has to wait. At the end of the stream it raises. -/
def Connection.readexactly (n : Connection) : Option (Except PyExc UInt8 × Connection) :=
  match n.exception with
  | some e => some (.error e, n)
  | none =>
      match n.buffer with
      | b :: _ => some (.ok b, n.consume 1)
      | [] => if n.eof then some (.error (.incompleteReadError []), n) else none

/-- `reader.readuntil(b"\x03")`: `none` when it has to wait.

The limit counts the bytes before the separator, and is checked when the separator is found
and when it is not. A stream that has ended gives up its buffer with the exception. -/
def Connection.readuntil (n : Connection) : Option (Except PyExc Bytes × Connection) :=
  match n.exception with
  | some e => some (.error e, n)
  | none =>
      match readUntil ETX n.buffer with
      | some (chunk, _) =>
          if streamLimit < chunk.length - 1 then some (.error .limitOverrunError, n)
          else some (.ok chunk, n.consume chunk.length)
      | none =>
          if streamLimit < n.buffer.length then some (.error .limitOverrunError, n)
          else if n.eof then
            some (.error (.incompleteReadError n.buffer), n.consume n.buffer.length)
          else none

/-! ### Tasks and shared state -/

/-- One attempt of the retry loop: the connection it uses, its number from 1 on, and the delay
before the next one. The connection is that of the call's first attempt; `fetch` asks for
one once. -/
structure Attempt where
  conn : ConnId
  number : ℕ
  retryDelay : ℚ
  deriving DecidableEq

/-- The awaits of one attempt, in the order of the source. A phase that sleeps or reads carries
its deadline, and a phase of a read the bytes that the attempt has got so far. -/
inductive Phase
  | interCommandGap
  | interCommandSleep (wake : ℚ)
  | wireMinGap
  | wireMinGapSleep (wake : ℚ)
  | draining (deadline : ℚ)
  | flushing
  | readingHeader (deadline : ℚ)
  | readingBody (response : Bytes) (deadline : ℚ)
  | readingChecksum (response : Bytes) (deadline : ℚ)
  | backoff (wake : ℚ)
  deriving DecidableEq

/-- Where a `fetch` call is suspended. `resetting` is the `wait_closed` of the outer
`except` clause, with the exception that clause re-raises. -/
inductive Stage
  | acquiring
  | connecting
  | awaitingClose (conn : ConnId)
  | opening
  | attempting (attempt : Attempt) (phase : Phase)
  | resetting (conn : ConnId) (error : PyExc)
  | finished (result : Except PyExc Bytes)
  deriving DecidableEq

/-- A `fetch` call: its arguments and where it is. -/
structure Call where
  args : FetchArgs
  stage : Stage
  deriving DecidableEq

/-- A transmission: the call that made it, its message and gap, the recorded `tx_time`, and how
many bytes its connection had received by then. The last of these is no data of the source:
it tells old input from new. -/
structure Tx where
  call : CallId
  message : Bytes
  minSendInterval : ℚ
  time : ℚ
  conn : ConnId
  mark : ℕ
  deriving DecidableEq

/-- What the log of a run records: a call that found a live connection, one that asked for the
port, a transmission, and the reception of a complete frame. -/
inductive Event
  | reuse (call : CallId)
  | opening (call : CallId)
  | tx (t : Tx)
  | rx (call : CallId) (time : ℚ)
  deriving DecidableEq

/-- The event loop, the module globals of `serial_io` and all `fetch` calls. Connections from
`nextConn` on are not open yet: nothing has happened to them.

`lastRequestTx` is the dictionary `_last_request_tx`, whose keys are the first five bytes of
a message, and `lastRxCompleteTime` is `_last_rx_complete_time`. Neither is ever cleared
after `configure_serial`, also not when a connection is closed. -/
structure State where
  clock : ℚ := 0
  mutex : Option CallId := none
  connection : Option ConnId := none
  conns : ConnId → Connection := fun _ => {}
  nextConn : ConnId := 0
  lastRequestTx : Bytes → Option ℚ := fun _ => none
  lastRxCompleteTime : Option ℚ := none
  calls : CallId → Option Call := fun _ => none
  log : List Event := []

/-- The call `c`, which is `id`, is suspended at `stage` next. -/
@[simps] def State.goto (s : State) (id : CallId) (c : Call) (stage : Stage) : State :=
  { s with calls := Function.update s.calls id (some { c with stage := stage }) }

/-- The connection `n` becomes `conn`. -/
@[simps] def State.setConn (s : State) (n : ConnId) (conn : Connection) : State :=
  { s with conns := Function.update s.conns n conn }

/-- An entry of the log. -/
@[simps] def State.record (s : State) (e : Event) : State :=
  { s with log := s.log ++ [e] }

/-- The call leaves `fetch`, and with it the `async with _serial_mutex` block: whoever waits for
the mutex may have it from now on. -/
@[simps] def State.finish (s : State) (id : CallId) (c : Call) (r : Except PyExc Bytes) : State :=
  { s.goto id c (.finished r) with mutex := none }

/-- The transmissions of a run, oldest first. -/
def State.transmissions (s : State) : List Tx :=
  s.log.filterMap fun
    | .tx t => some t
    | _ => none

/-! ### Errors -/

/-- `str(e).lower()`. -/
def lower (s : Str) : Str := s.map Char.toLower

/-- The `except serial.SerialException` clause of `get_serial_connection`: the error by the text
of the exception, folded to lower case. Other exceptions pass, an `OSError` among them. -/
def openError (cfg : SerialModel) : PyExc → PyExc
  | .serialException message =>
      let errorMsg := lower message
      if "access is denied".toList <:+: errorMsg ∨ "permission".toList <:+: errorMsg then
        .ioBoard ⟨.serialCommunication, "Permission denied accessing serial port",
          .serialPortPermissionDenied, [("port", .str cfg.port)]⟩
      else if "cannot find".toList <:+: errorMsg ∨ "does not exist".toList <:+: errorMsg then
        .ioBoard ⟨.serialCommunication, "Serial port not found",
          .serialPortNotFound, [("port", .str cfg.port)]⟩
      else if "busy".toList <:+: errorMsg ∨ "in use".toList <:+: errorMsg then
        .ioBoard ⟨.serialCommunication, "Serial port busy or already in use",
          .serialPortBusy, [("port", .str cfg.port)]⟩
      else
        .ioBoard ⟨.serialCommunication, "Failed to open serial port",
          .serialConnectionFailed, [("port", .str cfg.port), ("error", .text message)]⟩
  | e => e

/-- A possibly missing string in a details dictionary. -/
def optionalText : Option Str → Detail
  | none => .none
  | some s => .text s

/-- The error of a call whose last attempt timed out or read an incomplete frame. The number of
attempts it reports is the configured one, which is the number that were made. -/
def exhaustedError (cfg : SerialModel) (args : FetchArgs) (last : PyExc) : PyExc :=
  let details := [("port", Detail.str cfg.port), ("attempts", .int cfg.maxRetries),
    ("message_hex", .text (hexBytes args.message))]
  if last = .timeoutError then
    .ioBoard ⟨.serialCommunication,
      "Serial read timeout after " ++ toString cfg.maxRetries ++ " attempts",
      .serialTimeout, details⟩
  else
    .ioBoard ⟨.serialCommunication,
      "Incomplete serial read after " ++ toString cfg.maxRetries ++ " attempts",
      .serialIncompleteRead, details⟩

/-- The error of a call whose last attempt read a frame with a wrong checksum. -/
def checksumError (cfg : SerialModel) (args : FetchArgs) : PyExc :=
  .ioBoard ⟨.protocol,
    "Response checksum invalid after " ++ toString cfg.maxRetries ++ " attempts",
    .protocolChecksumMismatch,
    [("command", optionalText args.expectedCommand),
      ("subcommand", optionalText args.expectedSubcommand),
      ("attempts", .int cfg.maxRetries)]⟩

/-- The error of a call whose last attempt read the answer to another command. It tells the codes
of that answer, or that they cannot be read. -/
def mismatchError (cfg : SerialModel) (args : FetchArgs) (response : Bytes) : PyExc :=
  .ioBoard ⟨.protocol,
    "Response CMD/SUBCMD mismatch after " ++ toString cfg.maxRetries ++ " attempts",
    .protocolInvalidResponse,
    [("command", optionalText args.expectedCommand),
      ("subcommand", optionalText args.expectedSubcommand),
      ("last_received", .text (match responseCodes response with
        | some (cmd, subcmd) => cmd ++ ['/'] ++ subcmd
        | none => "unreadable header".toList)),
      ("attempts", .int cfg.maxRetries)]⟩

/-! ### The code between two awaits -/

section Resume

variable (cfg : SerialModel)

/-- The outer `except Exception` of `fetch`: the connection is closed, and the error is
re-raised once it has been. -/
@[simp] def State.reset (s : State) (id : CallId) (c : Call) (n : ConnId) (e : PyExc) : State :=
  (s.setConn n (s.conns n).close).goto id c (.resetting n e)

/-- The end of a failed attempt: sleep before the next one, or give up with `e`. Giving up goes
through the outer `except` clause, so the connection is closed then, and only then. -/
def State.retryOr (s : State) (id : CallId) (c : Call) (a : Attempt) (e : PyExc) : State :=
  if a.number < cfg.maxRetries then
    s.goto id c (.attempting a (.backoff (s.clock + a.retryDelay)))
  else s.reset id c a.conn e

/-- The `except` clauses around one attempt: timeouts and incomplete reads are retried, other
exceptions reset the connection, and cancellation just leaves `fetch`: it passes the
`except Exception` clause, and the connection stays cached as it is. -/
def State.raiseInAttempt (s : State) (id : CallId) (c : Call) (a : Attempt) (e : PyExc) :
    State :=
  match e with
  | .timeoutError => s.retryOr cfg id c a (exhaustedError cfg c.args e)
  | .incompleteReadError _ => s.retryOr cfg id c a (exhaustedError cfg c.args e)
  | .cancelledError => s.finish id c (.error .cancelledError)
  | e => s.reset id c a.conn e

/-- The first attempt of a call on the connection it got. -/
def firstAttempt (n : ConnId) : Attempt :=
  { conn := n, number := 1, retryDelay := cfg.initialRetryDelay }

/-- The attempt after `a`, on the same connection, with the next delay. -/
def Attempt.next (a : Attempt) : Attempt :=
  { a with number := a.number + 1, retryDelay := a.retryDelay * cfg.retryBackoffMultiplier }

/-- `get_serial_connection` up to its first await: reuse a live connection, wait for one that is
closing, or open the port. The globals are cleared only after that wait. -/
def State.getSerialConnection (s : State) (id : CallId) (c : Call) : State :=
  match s.connection with
  | some n =>
      if (s.conns n).closing then s.goto id c (.awaitingClose n)
      else (s.record (.reuse id)).goto id c (.attempting (firstAttempt cfg n) .interCommandGap)
  | none => (s.record (.opening id)).goto id c .opening

/-- `open_serial_connection` returned: the new connection is cached. -/
@[simps] def State.connected (s : State) : State :=
  { s with
    connection := some s.nextConn
    nextConn := s.nextConn + 1 }

/-- Until when `_respect_inter_command_gap` sleeps, if it does. The gap is measured from the last
complete frame that anybody has read. -/
def State.interCommandWake (s : State) : Option ℚ :=
  if cfg.interCommandGap ≤ 0 then none
  else s.lastRxCompleteTime.bind fun last =>
    let remaining := cfg.interCommandGap - (s.clock - last)
    if 0 < remaining then some (s.clock + remaining) else none

/-- Until when `_respect_wire_min_gap` sleeps, if it does. The gap is measured from the last
transmission of a message with the same first five bytes, a retry included. -/
def State.wireMinGapWake (s : State) (args : FetchArgs) : Option ℚ :=
  if args.minSendInterval ≤ 0 then none
  else (s.lastRequestTx (args.message.take 5)).bind fun previous =>
    let remaining := args.minSendInterval - (s.clock - previous)
    if 0 < remaining then some (s.clock + remaining) else none

/-- The start of `_drain_stale_input`, and of each further round of it: a read of at most 4096
bytes with a timeout of 50 ms. The drain ends with the first round that gets nothing. -/
def State.drain (s : State) (id : CallId) (c : Call) (a : Attempt) : State :=
  s.goto id c (.attempting a (.draining (s.clock + 1 / 20)))

/-- The transmission that `c` would make now on its connection. -/
def State.txNow (s : State) (id : CallId) (c : Call) (a : Attempt) : Tx where
  call := id
  message := c.args.message
  minSendInterval := c.args.minSendInterval
  time := s.clock
  conn := a.conn
  mark := (s.conns a.conn).received.length

/-- The end of the drain up to `await writer.drain()`: the bookkeeping of `tx_time` and the
transmission, with no await between them. The message is on the wire when the attempt
suspends, whatever becomes of the flush. -/
@[simps] def State.transmit (s : State) (id : CallId) (c : Call) (a : Attempt) : State :=
  { (s.record (.tx (s.txNow id c a))).goto id c (.attempting a .flushing) with
    lastRequestTx := Function.update s.lastRequestTx (c.args.message.take 5) (some s.clock) }

/-- A complete frame has been read: its reception is booked, before anything is checked. -/
@[simps] def State.complete (s : State) (id : CallId) : State :=
  { s.record (.rx id s.clock) with lastRxCompleteTime := some s.clock }

/-- A complete frame is accepted, or discarded for its checksum or its codes. The reception is
booked already. -/
def State.judge (s : State) (id : CallId) (c : Call) (a : Attempt) (response : Bytes) :
    State :=
  if responseChecksumValid response = false then
    s.retryOr cfg id c a (checksumError cfg c.args)
  else if acceptsResponse c.args.expectedCommand c.args.expectedSubcommand response then
    s.finish id c (.ok response)
  else s.retryOr cfg id c a (mismatchError cfg c.args response)

/-- What an awaited operation does: it completes, its deadline passes, or it raises.
`lowLatency` is the opening of the port with `set_low_latency_mode` raising.

Which exception an operation raises is left to the environment: `raised` may carry any, also one
that the operation never raises on the event loop. A statement about all runs covers more than
the program does for that reason, and a run that is exhibited may take such a wakeup. -/
inductive Wakeup
  | ready
  | timedOut
  | raised (e : PyExc)
  | lowLatency (e : PyExc)

/-- Resumes a call in an attempt. Each equation is the code from one await to the next; a pair of
a phase and a wakeup that is not listed cannot occur. -/
def resumeAttempt (s : State) (id : CallId) (c : Call) (a : Attempt) :
    Phase → Wakeup → Option State
  | .interCommandGap, .ready =>
      match s.interCommandWake cfg with
      | some wake => some (s.goto id c (.attempting a (.interCommandSleep wake)))
      | none => some (s.goto id c (.attempting a .wireMinGap))
  | .interCommandSleep wake, .ready =>
      if wake ≤ s.clock then some (s.goto id c (.attempting a .wireMinGap)) else none
  | .wireMinGap, .ready =>
      match s.wireMinGapWake c.args with
      | some wake => some (s.goto id c (.attempting a (.wireMinGapSleep wake)))
      | none => some (s.drain id c a)
  | .wireMinGapSleep wake, .ready =>
      if wake ≤ s.clock then some (s.drain id c a) else none
  | .draining _, .ready =>
      match (s.conns a.conn).read with
      | none => none
      | some (.ok [], _) => some (s.transmit id c a)
      | some (.ok (_ :: _), n) => some ((s.setConn a.conn n).drain id c a)
      | some (.error .timeoutError, _) => some (s.transmit id c a)
      | some (.error e, _) => some (s.raiseInAttempt cfg id c a e)
  | .draining deadline, .timedOut =>
      if (s.conns a.conn).read.isNone ∧ deadline ≤ s.clock then some (s.transmit id c a)
      else none
  | .flushing, .ready =>
      some (s.goto id c (.attempting a (.readingHeader (s.clock + cfg.headerTimeout))))
  | .flushing, .raised e => some (s.raiseInAttempt cfg id c a e)
  | .readingHeader _, .ready =>
      match (s.conns a.conn).readexactly with
      | none => none
      | some (.ok b, n) => some ((s.setConn a.conn n).goto id c
          (.attempting a (.readingBody [b] (s.clock + cfg.bodyTimeout))))
      | some (.error e, n) => some ((s.setConn a.conn n).raiseInAttempt cfg id c a e)
  | .readingHeader deadline, .timedOut =>
      if (s.conns a.conn).readexactly.isNone ∧ deadline ≤ s.clock then
        some (s.raiseInAttempt cfg id c a .timeoutError)
      else none
  | .readingBody response _, .ready =>
      match (s.conns a.conn).readuntil with
      | none => none
      | some (.ok chunk, n) => some ((s.setConn a.conn n).goto id c
          (.attempting a (.readingChecksum (response ++ chunk) (s.clock + cfg.checksumTimeout))))
      | some (.error e, n) => some ((s.setConn a.conn n).raiseInAttempt cfg id c a e)
  | .readingBody _ deadline, .timedOut =>
      if (s.conns a.conn).readuntil.isNone ∧ deadline ≤ s.clock then
        some (s.raiseInAttempt cfg id c a .timeoutError)
      else none
  | .readingChecksum response _, .ready =>
      match (s.conns a.conn).readexactly with
      | none => none
      | some (.ok b, n) =>
          some (((s.setConn a.conn n).complete id).judge cfg id c a (response ++ [b]))
      | some (.error e, n) => some ((s.setConn a.conn n).raiseInAttempt cfg id c a e)
  | .readingChecksum _ deadline, .timedOut =>
      if (s.conns a.conn).readexactly.isNone ∧ deadline ≤ s.clock then
        some (s.raiseInAttempt cfg id c a .timeoutError)
      else none
  | .backoff wake, .ready =>
      if wake ≤ s.clock then
        some (s.goto id c (.attempting (a.next cfg) .interCommandGap))
      else none
  | _, _ => none

/-- Resumes a suspended call: the code of `fetch` up to its next await. A connection whose
`set_low_latency_mode` raises `NotImplementedError` is used all the same; with any other
exception it stays cached and the call fails. -/
def resume (s : State) (id : CallId) (c : Call) : Stage → Wakeup → Option State
  | .acquiring, .ready =>
      if s.mutex = none then some { s.goto id c (.connecting) with mutex := some id } else none
  | .connecting, .ready => some (s.getSerialConnection cfg id c)
  | .awaitingClose n, .ready =>
      match (s.conns n).waitClosed with
      | none => none
      | some none => some (({ s with connection := none }.record (.opening id)).goto id c .opening)
      | some (some e) => some (s.finish id c (.error e))
  | .opening, .ready =>
      some (s.connected.goto id c (.attempting (firstAttempt cfg s.nextConn) .interCommandGap))
  | .opening, .lowLatency .notImplementedError =>
      some (s.connected.goto id c (.attempting (firstAttempt cfg s.nextConn) .interCommandGap))
  | .opening, .lowLatency e => some (s.connected.finish id c (.error (openError cfg e)))
  | .opening, .raised e => some (s.finish id c (.error (openError cfg e)))
  | .attempting a phase, wakeup => resumeAttempt cfg s id c a phase wakeup
  | .resetting n e, .ready =>
      match (s.conns n).waitClosed with
      | none => none
      | some none => some (s.finish id c (.error e))
      | some (some e') => some (s.finish id c (.error e'))
  | _, _ => none

end Resume

/-! ### Runs -/

/-- What cancelling a call that is suspended at `stage` does to the connections: where the
call awaits `wait_closed`, the future that it awaits is cancelled with it. -/
@[simps] def State.cancelWaiter (s : State) (stage : Stage) : State :=
  { s with
    conns := match stage with
      | .awaitingClose n | .resetting n _ =>
          Function.update s.conns n (s.conns n).cancelWaiter
      | _ => s.conns }

/-- `CancelledError` is thrown into a suspended call. A call that waits for the mutex leaves
without having had it; any other leaves the `async with` block. -/
def cancel (s : State) (id : CallId) (c : Call) : Stage → Option State
  | .acquiring => some (s.goto id c (.finished (.error .cancelledError)))
  | .finished _ => none
  | stage => some ((s.cancelWaiter stage).finish id c (.error .cancelledError))

/-- What can happen next. The first ones are those of the callers, the others those of the
environment. -/
inductive Action
  | call (id : CallId) (args : FetchArgs)
  | resume (id : CallId) (wakeup : Wakeup)
  | cancel (id : CallId)
  | tick (d : ℚ)
  | receive (n : ConnId) (bs : Bytes)
  | closing (n : ConnId)
  | connectionLost (n : ConnId) (exc : Option PyExc)

/-- One step of the serial layer. An action is enabled where its task is suspended at an await
that can end this way, its connection is open and not lost, or no time runs backwards. -/
def step (cfg : SerialModel) (s : State) : Action → Option State
  | .call id args =>
      if (s.calls id).isNone then some (s.goto id ⟨args, .acquiring⟩ .acquiring) else none
  | .resume id wakeup => (s.calls id).bind fun c => resume cfg s id c c.stage wakeup
  | .cancel id => (s.calls id).bind fun c => cancel s id c c.stage
  | .tick d => if 0 ≤ d then some { s with clock := s.clock + d } else none
  | .receive n bs =>
      if n < s.nextConn ∧ (s.conns n).closing = false then
        some (s.setConn n ((s.conns n).feed bs))
      else none
  | .closing n =>
      if n < s.nextConn then some (s.setConn n (s.conns n).close) else none
  | .connectionLost n exc =>
      if n < s.nextConn ∧ (s.conns n).closed = none then
        some (s.setConn n ((s.conns n).lose exc))
      else none

/-- The states of the serial layer after `configure_serial`, with the configuration `cfg` for the
whole run: the program sets it once, at its start. -/
def Reachable (cfg : SerialModel) (s : State) : Prop :=
  Reaches (step cfg) Any {} s

end IoBoard
