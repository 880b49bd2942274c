import IoBoard.SerialIo

/-!
# Steps of the Serial Layer

What one step of the serial layer can do, said once. `Resumed` has one constructor for each
way through the code of `fetch` between two awaits, with the conditions under which it is
taken and the state it leaves; the invariants of the serial layer are proved by cases on it
and never unfold `resume`.

## How the relation is organised

The ways through the code differ in many places and in few respects, and the constructors
are grouped by what they change:

* `Moves`: nothing but where the call is suspended. The sleeps of the two gates, the flush
  and the next attempt are here.
* `Reads`: some bytes go from the buffer of the connection to the call.
* `Fails`: an exception ends the attempt before a frame is complete. Whether it is retried,
  re-raised or lets the call go is then said by `Resumed`, once for all phases.
* The remaining constructors of `Resumed` are those that change the shared state: the mutex,
  the cached connection, the log, and the bookkeeping of times.

The wakeup of an action is not an index of `Resumed`. A step that several wakeups can cause
is one step, and a result about all steps does not ask what caused them.

## Main results

* `resumed_of_resume`: **every resumption is one of `Resumed`**.
* `stepped_of_step`: every step of the serial layer is a resumption, or one of the other
  actions of `Stepped`.
* `Resumed.calls_eq`, `Resumed.mutex_cases`, `Resumed.transmissions_cases`,
  `Resumed.conns_used`: what every resumption leaves alone. Most invariants read only one
  part of the state, and need no more than one of these.
-/

open Framing Runs

namespace IoBoard

/-! ### Updated states -/

/-- The log entries that are no transmissions leave the transmissions as they are. -/
@[simp] theorem State.record_transmissions (s : State) (e : Event) (he : ∀ t, e ≠ .tx t) :
    (s.record e).transmissions = s.transmissions := by
  rw [State.transmissions, State.record_log, List.filterMap_append]
  cases e with
  | tx t => exact absurd rfl (he t)
  | reuse | opening | rx => simp [State.transmissions]

@[simp] theorem State.complete_transmissions (s : State) (id : CallId) :
    (s.complete id).transmissions = s.transmissions :=
  s.record_transmissions (.rx id s.clock) nofun

/-- A drained attempt puts its message on the wire, as the last entry of the transmissions. -/
@[simp] theorem State.transmit_transmissions (s : State) (id : CallId) (c : Call)
    (a : Attempt) : (s.transmit id c a).transmissions = s.transmissions ++ [s.txNow id c a] := by
  simp [State.transmissions]

/-- A connection that is read from and then closed by the outer `except` clause. -/
theorem State.setConn_reset (s : State) (id : CallId) (c : Call) (n : ConnId) (k : Connection)
    (e : PyExc) : (s.setConn n k).reset id c n e =
      (s.setConn n k.close).goto id c (.resetting n e) := by
  simp [State.setConn, State.goto]

/-- The same with the reception booked in between. -/
theorem State.setConn_complete_reset (s : State) (id : CallId) (c : Call) (n : ConnId)
    (k : Connection) (e : PyExc) : ((s.setConn n k).complete id).reset id c n e =
      ((s.setConn n k.close).complete id).goto id c (.resetting n e) := by
  simp [State.setConn, State.goto, State.complete, State.record]

/-- Putting a connection back as it is changes nothing. -/
@[simp] theorem State.setConn_self (s : State) (n : ConnId) : s.setConn n (s.conns n) = s := by
  rw [State.setConn, Function.update_eq_self]

/-! ### Reads of a connection -/

/-- A read that waits finds an empty buffer and no exception: this is what the end of a drain
knows of the buffer. -/
theorem Connection.read_eq_none_iff (n : Connection) :
    n.read = none ↔ n.exception = none ∧ n.buffer = [] ∧ n.eof = false := by
  unfold Connection.read
  cases n.exception with
  | some e => simp
  | none => by_cases hb : n.buffer = [] <;> simp [hb]

/-- What `reader.read(4096)` returns: the exception of a lost transport, the end of the stream, or
all that there is, up to the limit. -/
theorem Connection.read_eq_some {n n' : Connection} {r : Except PyExc Bytes}
    (h : n.read = some (r, n')) :
    (∃ e, n.exception = some e ∧ r = .error e ∧ n' = n) ∨
    (n.exception = none ∧ n.buffer = [] ∧ n.eof = true ∧ r = .ok [] ∧ n' = n) ∨
    (n.exception = none ∧ n.buffer ≠ [] ∧ r = .ok (n.buffer.take 4096) ∧
      n' = n.consume (n.buffer.take 4096).length) := by
  unfold Connection.read at h
  cases he : n.exception with
  | some e =>
      simp only [he, Option.some.injEq, Prod.mk.injEq] at h
      exact .inl ⟨e, rfl, h.1.symm, h.2.symm⟩
  | none =>
      simp only [he] at h
      by_cases hb : n.buffer = []
      · by_cases heof : n.eof <;> simp only [hb, heof, if_true, if_false, Bool.false_eq_true,
          Option.some.injEq, Prod.mk.injEq, reduceCtorEq] at h
        exact .inr (.inl ⟨rfl, hb, heof, h.1.symm, h.2.symm⟩)
      · simp only [hb, if_false, Option.some.injEq, Prod.mk.injEq] at h
        exact .inr (.inr ⟨rfl, hb, h.1.symm, h.2.symm⟩)

/-- What `reader.readexactly(1)` returns: the exception of a lost transport, a short read at the
end of the stream, or the next byte. -/
theorem Connection.readexactly_eq_some {n n' : Connection} {r : Except PyExc UInt8}
    (h : n.readexactly = some (r, n')) :
    (∃ e, n.exception = some e ∧ r = .error e ∧ n' = n) ∨
    (n.exception = none ∧ n.buffer = [] ∧ n.eof = true ∧
      r = .error (.incompleteReadError []) ∧ n' = n) ∨
    (∃ b rest, n.exception = none ∧ n.buffer = b :: rest ∧ r = .ok b ∧ n' = n.consume 1) := by
  unfold Connection.readexactly at h
  cases he : n.exception with
  | some e =>
      simp only [he, Option.some.injEq, Prod.mk.injEq] at h
      exact .inl ⟨e, rfl, h.1.symm, h.2.symm⟩
  | none =>
      cases hb : n.buffer with
      | nil =>
          simp only [he, hb] at h
          by_cases heof : n.eof <;> simp only [heof, if_true, if_false, Bool.false_eq_true,
            Option.some.injEq, Prod.mk.injEq, reduceCtorEq] at h
          exact .inr (.inl ⟨rfl, rfl, heof, h.1.symm, h.2.symm⟩)
      | cons b rest =>
          simp only [he, hb, Option.some.injEq, Prod.mk.injEq] at h
          exact .inr (.inr ⟨b, rest, rfl, rfl, h.1.symm, h.2.symm⟩)

/-- A one-byte read that waits finds an empty buffer and no exception. -/
theorem Connection.readexactly_eq_none_iff (n : Connection) :
    n.readexactly = none ↔ n.exception = none ∧ n.buffer = [] ∧ n.eof = false := by
  unfold Connection.readexactly
  cases n.exception with
  | some e => simp
  | none => cases hb : n.buffer <;> simp

/-- A `readuntil` that waits has no exception to raise. -/
theorem Connection.exception_of_readuntil {n : Connection} (h : n.readuntil = none) :
    n.exception = none := by
  unfold Connection.readuntil at h
  cases he : n.exception with
  | some e => simp only [he, reduceCtorEq] at h
  | none => rfl

/-- What `reader.readuntil(b"\x03")` returns: the exception of a lost transport, an overrun of the
limit, a short read at the end of the stream, or the bytes up to the next ETX. -/
theorem Connection.readuntil_eq_some {n n' : Connection} {r : Except PyExc Bytes}
    (h : n.readuntil = some (r, n')) :
    (∃ e, n.exception = some e ∧ r = .error e ∧ n' = n) ∨
    (n.exception = none ∧ r = .error .limitOverrunError ∧ n' = n) ∨
    (n.exception = none ∧ n.eof = true ∧ r = .error (.incompleteReadError n.buffer) ∧
      n' = n.consume n.buffer.length) ∨
    (∃ chunk rest, n.exception = none ∧ readUntil ETX n.buffer = some (chunk, rest) ∧
      r = .ok chunk ∧ n' = n.consume chunk.length) := by
  unfold Connection.readuntil at h
  cases he : n.exception with
  | some e =>
      simp only [he, Option.some.injEq, Prod.mk.injEq] at h
      exact .inl ⟨e, rfl, h.1.symm, h.2.symm⟩
  | none =>
      cases hr : readUntil ETX n.buffer with
      | none =>
          simp only [he, hr] at h
          by_cases hl : streamLimit < n.buffer.length
          · simp only [hl, if_true, Option.some.injEq, Prod.mk.injEq] at h
            exact .inr (.inl ⟨rfl, h.1.symm, h.2.symm⟩)
          · by_cases heof : n.eof <;> simp only [hl, heof, if_true, if_false,
              Bool.false_eq_true, Option.some.injEq, Prod.mk.injEq, reduceCtorEq] at h
            exact .inr (.inr (.inl ⟨rfl, heof, h.1.symm, h.2.symm⟩))
      | some p =>
          obtain ⟨chunk, rest⟩ := p
          simp only [he, hr] at h
          by_cases hl : streamLimit < chunk.length - 1 <;> simp only [hl, if_true, if_false,
            Option.some.injEq, Prod.mk.injEq] at h
          · exact .inr (.inl ⟨rfl, h.1.symm, h.2.symm⟩)
          · exact .inr (.inr (.inr ⟨chunk, rest, rfl, rfl, h.1.symm, h.2.symm⟩))

/-- A `wait_closed` waits until the transport is lost, or its future is cancelled. Both are for
good. -/
theorem Connection.waitClosed_eq_none_iff {n : Connection} :
    n.waitClosed = none ↔ n.closeCancelled = false ∧ n.closed = none := by
  unfold Connection.waitClosed
  cases n.closeCancelled <;> simp

/-- A `wait_closed` does not wait for a transport that is lost. -/
theorem Connection.isSome_waitClosed {n : Connection} (h : n.closed.isSome) :
    n.waitClosed.isSome := by
  unfold Connection.waitClosed
  split_ifs
  · rfl
  · exact h

/-- A transport that is lost without an exception lets `wait_closed` return. -/
theorem Connection.waitClosed_lose {n : Connection} (h : ∀ e, n.waitClosed ≠ some (some e)) :
    (n.lose none).waitClosed = some none := by
  unfold Connection.waitClosed at h ⊢
  cases hb : n.closeCancelled with
  | false => simp [Connection.lose, hb]
  | true => exact absurd (if_pos hb) (h .cancelledError)

/-! ### What a resumption can do -/

/-- The stages of a call that is inside the `async with _serial_mutex` block: all but the wait for
the mutex and the end. -/
def Stage.isCritical : Stage → Prop
  | .acquiring | .finished _ => False
  | _ => True

/-- The phases of an attempt that wait for a part of the answer. -/
def Phase.isReading : Phase → Prop
  | .readingHeader _ | .readingBody _ _ | .readingChecksum _ _ => True
  | _ => False

/-- The exceptions that the retry loop catches. All others leave it, and `fetch` with it. -/
def PyExc.isRetried : PyExc → Prop
  | .timeoutError | .incompleteReadError _ => True
  | _ => False

section Resumed

variable (cfg : SerialModel) (s : State)

/-- The steps within a call that change nothing but where it is suspended. A gate is passed when
its sleep is over, or at once where there is nothing to wait for. -/
inductive Moves (args : FetchArgs) : Stage → Stage → Prop
  | awaitClose {n} (hn : s.connection = some n) (hc : (s.conns n).closing = true) :
      Moves args .connecting (.awaitingClose n)
  | gapWait {a wake} (h : s.interCommandWake cfg = some wake) :
      Moves args (.attempting a .interCommandGap) (.attempting a (.interCommandSleep wake))
  | gapPass {a} (h : s.interCommandWake cfg = none) :
      Moves args (.attempting a .interCommandGap) (.attempting a .wireMinGap)
  | gapWoken {a wake} (h : wake ≤ s.clock) :
      Moves args (.attempting a (.interCommandSleep wake)) (.attempting a .wireMinGap)
  | wireWait {a wake} (h : s.wireMinGapWake args = some wake) :
      Moves args (.attempting a .wireMinGap) (.attempting a (.wireMinGapSleep wake))
  | wirePass {a} (h : s.wireMinGapWake args = none) :
      Moves args (.attempting a .wireMinGap) (.attempting a (.draining (s.clock + 1 / 20)))
  | wireWoken {a wake} (h : wake ≤ s.clock) :
      Moves args (.attempting a (.wireMinGapSleep wake))
        (.attempting a (.draining (s.clock + 1 / 20)))
  | flushed {a} :
      Moves args (.attempting a .flushing)
        (.attempting a (.readingHeader (s.clock + cfg.headerTimeout)))
  | nextAttempt {a wake} (h : wake ≤ s.clock) :
      Moves args (.attempting a (.backoff wake)) (.attempting (a.next cfg) .interCommandGap)

/-- The reads of an attempt that get bytes: how many, and the phase after the read. The last read
of a frame is not among them, for it ends the attempt. -/
inductive Reads (n : Connection) : Phase → ℕ → Phase → Prop
  | drained {d} (h : n.buffer ≠ []) :
      Reads n (.draining d) (n.buffer.take 4096).length (.draining (s.clock + 1 / 20))
  | header {d b rest} (h : n.buffer = b :: rest) :
      Reads n (.readingHeader d) 1 (.readingBody [b] (s.clock + cfg.bodyTimeout))
  | body {response d chunk rest} (h : readUntil ETX n.buffer = some (chunk, rest)) :
      Reads n (.readingBody response d) chunk.length
        (.readingChecksum (response ++ chunk) (s.clock + cfg.checksumTimeout))

/-- The exceptions that end an attempt before a frame is complete, and how many bytes the raising
read took. Only a short read takes any: it empties the buffer. -/
inductive Fails (n : Connection) : Phase → PyExc → ℕ → Prop
  | raised {p e} (he : n.exception = some e) (hp : p.isReading ∨ ∃ d, p = .draining d) :
      Fails n p e 0
  | flushing {e} : Fails n .flushing e 0
  | timedOut {p} (hp : p.isReading) (he : n.exception = none) : Fails n p .timeoutError 0
  | overrun {response d} (he : n.exception = none) :
      Fails n (.readingBody response d) .limitOverrunError 0
  | incomplete {p partialRead k} (hp : p.isReading) (he : n.exception = none)
      (heof : n.eof = true) (hk : k ≤ n.buffer.length) :
      Fails n p (.incompleteReadError partialRead) k

/-- **One resumption of the call `c`**, which is `id`: the stage it was suspended at, the stage it
is suspended at next, and the state it leaves.

A constructor states the shared state before the step in full where the step depends on it,
and the state after as updates of the state before, in the order of the source. -/
inductive Resumed (id : CallId) (c : Call) : Stage → Stage → State → Prop
  | acquired (h : s.mutex = none) :
      Resumed id c .acquiring .connecting { s.goto id c .connecting with mutex := some id }
  | moved {stage stage'} (h : Moves cfg s c.args stage stage') :
      Resumed id c stage stage' (s.goto id c stage')
  | reused {n} (hn : s.connection = some n) (hc : (s.conns n).closing = false) :
      Resumed id c .connecting (.attempting (firstAttempt cfg n) .interCommandGap)
        ((s.record (.reuse id)).goto id c (.attempting (firstAttempt cfg n) .interCommandGap))
  | startOpen {stage}
      (h : stage = .connecting ∧ s.connection = none ∨
        ∃ n, stage = .awaitingClose n ∧ (s.conns n).waitClosed = some none) :
      Resumed id c stage .opening
        (({ s with connection := none }.record (.opening id)).goto id c .opening)
  | opened :
      Resumed id c .opening (.attempting (firstAttempt cfg s.nextConn) .interCommandGap)
        (s.connected.goto id c (.attempting (firstAttempt cfg s.nextConn) .interCommandGap))
  | openFailed {e} :
      Resumed id c .opening (.finished (.error (openError cfg e)))
        (s.finish id c (.error (openError cfg e)))
  | lowLatencyFailed {e} :
      Resumed id c .opening (.finished (.error (openError cfg e)))
        (s.connected.finish id c (.error (openError cfg e)))
  | closeRaised {n e} (h : (s.conns n).waitClosed = some (some e)) :
      Resumed id c (.awaitingClose n) (.finished (.error e)) (s.finish id c (.error e))
  | resetDone {n e e'}
      (h : (s.conns n).waitClosed = some none ∧ e' = e ∨
        (s.conns n).waitClosed = some (some e')) :
      Resumed id c (.resetting n e) (.finished (.error e')) (s.finish id c (.error e'))
  | read {a p k p'} (he : (s.conns a.conn).exception = none)
      (h : Reads cfg s (s.conns a.conn) p k p') :
      Resumed id c (.attempting a p) (.attempting a p')
        ((s.setConn a.conn ((s.conns a.conn).consume k)).goto id c (.attempting a p'))
  | transmitted {a d}
      (h : (s.conns a.conn).buffer = [] ∨ (s.conns a.conn).exception = some .timeoutError) :
      Resumed id c (.attempting a (.draining d)) (.attempting a .flushing)
        (s.transmit id c a)
  | retried {a p e k} (h : Fails (s.conns a.conn) p e k) (he : e.isRetried)
      (hn : a.number < cfg.maxRetries) :
      Resumed id c (.attempting a p) (.attempting a (.backoff (s.clock + a.retryDelay)))
        ((s.setConn a.conn ((s.conns a.conn).consume k)).goto id c
          (.attempting a (.backoff (s.clock + a.retryDelay))))
  | failed {a p e e' k} (h : Fails (s.conns a.conn) p e k)
      (he : e.isRetried ∧ cfg.maxRetries ≤ a.number ∧ e' = exhaustedError cfg c.args e ∨
        ¬ e.isRetried ∧ e ≠ .cancelledError ∧ e' = e) :
      Resumed id c (.attempting a p) (.resetting a.conn e')
        ((s.setConn a.conn ((s.conns a.conn).consume k).close).goto id c
          (.resetting a.conn e'))
  | cancelledInside {a p k} (h : Fails (s.conns a.conn) p .cancelledError k) :
      Resumed id c (.attempting a p) (.finished (.error .cancelledError))
        ((s.setConn a.conn ((s.conns a.conn).consume k)).finish id c (.error .cancelledError))
  | accepted {a response d b rest} (he : (s.conns a.conn).exception = none)
      (hb : (s.conns a.conn).buffer = b :: rest)
      (hv : responseChecksumValid (response ++ [b]) = true)
      (ha : acceptsResponse c.args.expectedCommand c.args.expectedSubcommand
        (response ++ [b]) = true) :
      Resumed id c (.attempting a (.readingChecksum response d))
        (.finished (.ok (response ++ [b])))
        (((s.setConn a.conn ((s.conns a.conn).consume 1)).complete id).finish id c
          (.ok (response ++ [b])))
  | discarded {a response d b rest} (he : (s.conns a.conn).exception = none)
      (hb : (s.conns a.conn).buffer = b :: rest)
      (hv : responseChecksumValid (response ++ [b]) = false ∨
        acceptsResponse c.args.expectedCommand c.args.expectedSubcommand
          (response ++ [b]) = false)
      (hn : a.number < cfg.maxRetries) :
      Resumed id c (.attempting a (.readingChecksum response d))
        (.attempting a (.backoff (s.clock + a.retryDelay)))
        (((s.setConn a.conn ((s.conns a.conn).consume 1)).complete id).goto id c
          (.attempting a (.backoff (s.clock + a.retryDelay))))
  | rejected {a response d b rest e} (he : (s.conns a.conn).exception = none)
      (hb : (s.conns a.conn).buffer = b :: rest)
      (hv : responseChecksumValid (response ++ [b]) = false ∧ e = checksumError cfg c.args ∨
        responseChecksumValid (response ++ [b]) = true ∧
          acceptsResponse c.args.expectedCommand c.args.expectedSubcommand
            (response ++ [b]) = false ∧ e = mismatchError cfg c.args (response ++ [b]))
      (hn : cfg.maxRetries ≤ a.number) :
      Resumed id c (.attempting a (.readingChecksum response d)) (.resetting a.conn e)
        (((s.setConn a.conn ((s.conns a.conn).consume 1).close).complete id).goto id c
          (.resetting a.conn e))

/-! ### Every resumption is one of these -/

variable {cfg s}

/-- The `except` clauses around an attempt, for an exception that ends it: a retry, a reset of the
connection, or a cancellation from inside. -/
theorem resumed_of_fails {id : CallId} {c : Call} {a : Attempt} {p : Phase} {e : PyExc} {k : ℕ}
    (h : Fails (s.conns a.conn) p e k) :
    ∃ stage', Resumed cfg s id c (.attempting a p) stage'
      ((s.setConn a.conn ((s.conns a.conn).consume k)).raiseInAttempt cfg id c a e) := by
  cases e with
  | timeoutError | incompleteReadError =>
      rw [State.raiseInAttempt, State.retryOr]
      split_ifs with hn
      · exact ⟨_, .retried h trivial hn⟩
      · rw [State.setConn_reset]
        exact ⟨_, .failed h (.inl ⟨trivial, not_lt.mp hn, rfl⟩)⟩
  | cancelledError => exact ⟨_, .cancelledInside h⟩
  | _ =>
      have hf : Resumed cfg s id c (.attempting a p) _ _ :=
        .failed h (.inr ⟨fun hr => hr, PyExc.noConfusion, rfl⟩)
      rw [← State.setConn_reset] at hf
      exact ⟨_, hf⟩

/-- The same when the raising read took nothing. -/
theorem resumed_of_fails_zero {id : CallId} {c : Call} {a : Attempt} {p : Phase} {e : PyExc}
    (h : Fails (s.conns a.conn) p e 0) :
    ∃ stage', Resumed cfg s id c (.attempting a p) stage' (s.raiseInAttempt cfg id c a e) := by
  have hr := @resumed_of_fails cfg s id c a p e 0 h
  rwa [show (s.conns a.conn).consume 0 = s.conns a.conn from rfl, State.setConn_self] at hr

/-- What is done with a complete frame: accepted, discarded with attempts left, or rejected with
none. -/
theorem resumed_of_judge {id : CallId} {c : Call} {a : Attempt} {response : Bytes} {d : ℚ}
    {b : UInt8} {rest : Bytes} (he : (s.conns a.conn).exception = none)
    (hb : (s.conns a.conn).buffer = b :: rest) :
    ∃ stage', Resumed cfg s id c (.attempting a (.readingChecksum response d)) stage'
      (((s.setConn a.conn ((s.conns a.conn).consume 1)).complete id).judge cfg id c a
        (response ++ [b])) := by
  unfold State.judge State.retryOr
  by_cases hv : responseChecksumValid (response ++ [b]) = false
  · rw [if_pos hv]
    by_cases hn : a.number < cfg.maxRetries
    · rw [if_pos hn]
      exact ⟨_, .discarded he hb (.inl hv) hn⟩
    · rw [if_neg hn, State.setConn_complete_reset]
      exact ⟨_, .rejected he hb (.inl ⟨hv, rfl⟩) (not_lt.mp hn)⟩
  · rw [if_neg hv]
    have hv' : responseChecksumValid (response ++ [b]) = true := by simpa using hv
    by_cases ha : acceptsResponse c.args.expectedCommand c.args.expectedSubcommand
        (response ++ [b]) = true
    · rw [if_pos ha]
      exact ⟨_, .accepted he hb hv' ha⟩
    · rw [if_neg ha]
      have ha' : acceptsResponse c.args.expectedCommand c.args.expectedSubcommand
          (response ++ [b]) = false := by simpa using ha
      by_cases hn : a.number < cfg.maxRetries
      · rw [if_pos hn]
        exact ⟨_, .discarded he hb (.inr ha') hn⟩
      · rw [if_neg hn, State.setConn_complete_reset]
        exact ⟨_, .rejected he hb (.inr ⟨hv', ha', rfl⟩) (not_lt.mp hn)⟩

/-- Every resumption inside an attempt is one of `Resumed`. -/
theorem resumed_of_resumeAttempt {s' : State} {id : CallId} {c : Call} {a : Attempt}
    {p : Phase} {w : Wakeup} (h : resumeAttempt cfg s id c a p w = some s') :
    ∃ stage', Resumed cfg s id c (.attempting a p) stage' s' := by
  cases p with
  | interCommandGap =>
      cases w <;> simp only [resumeAttempt, reduceCtorEq] at h
      cases hw : s.interCommandWake cfg <;> simp only [hw, Option.some.injEq] at h <;> subst h
      · exact ⟨_, .moved (.gapPass hw)⟩
      · exact ⟨_, .moved (.gapWait hw)⟩
  | interCommandSleep wake =>
      cases w <;> simp only [resumeAttempt, reduceCtorEq, Option.ite_none_right_eq_some,
        Option.some.injEq] at h
      obtain ⟨hw, rfl⟩ := h
      exact ⟨_, .moved (.gapWoken hw)⟩
  | wireMinGap =>
      cases w <;> simp only [resumeAttempt, reduceCtorEq] at h
      cases hw : s.wireMinGapWake c.args <;> simp only [hw, Option.some.injEq] at h <;> subst h
      · exact ⟨_, .moved (.wirePass hw)⟩
      · exact ⟨_, .moved (.wireWait hw)⟩
  | wireMinGapSleep wake =>
      cases w <;> simp only [resumeAttempt, reduceCtorEq, Option.ite_none_right_eq_some,
        Option.some.injEq] at h
      obtain ⟨hw, rfl⟩ := h
      exact ⟨_, .moved (.wireWoken hw)⟩
  | draining d =>
      cases w <;> simp only [resumeAttempt, reduceCtorEq] at h
      case ready =>
        cases hr : (s.conns a.conn).read with
        | none => simp only [hr, reduceCtorEq] at h
        | some p =>
            obtain ⟨r, n'⟩ := p
            simp only [hr] at h
            obtain ⟨e, he, rfl, rfl⟩ | ⟨he, hb, heof, rfl, rfl⟩ | ⟨he, hb, rfl, rfl⟩ :=
              Connection.read_eq_some hr
            · cases e with
              | timeoutError =>
                  cases h
                  exact ⟨_, .transmitted (.inr he)⟩
              | _ =>
                  cases h
                  exact resumed_of_fails_zero (.raised he (.inr ⟨d, rfl⟩))
            · cases h
              exact ⟨_, .transmitted (.inl hb)⟩
            · cases ht : (s.conns a.conn).buffer.take 4096 with
              | nil => simp [hb] at ht
              | cons x xs =>
                  simp only [ht, Option.some.injEq] at h
                  subst h
                  rw [← ht]
                  exact ⟨_, .read he (.drained hb)⟩
      case timedOut =>
        rw [Option.ite_none_right_eq_some, Option.isNone_iff_eq_none,
          Connection.read_eq_none_iff] at h
        obtain ⟨⟨⟨-, hb, -⟩, -⟩, hs⟩ := h
        cases hs
        exact ⟨_, .transmitted (.inl hb)⟩
  | flushing =>
      cases w <;> simp only [resumeAttempt, reduceCtorEq, Option.some.injEq] at h <;> subst h
      · exact ⟨_, .moved .flushed⟩
      · exact resumed_of_fails_zero .flushing
  | readingHeader d =>
      cases w <;> simp only [resumeAttempt, reduceCtorEq] at h
      case ready =>
        cases hr : (s.conns a.conn).readexactly with
        | none => simp only [hr, reduceCtorEq] at h
        | some p =>
            obtain ⟨r, n'⟩ := p
            simp only [hr] at h
            obtain ⟨e, he, rfl, rfl⟩ | ⟨he, hb, heof, rfl, rfl⟩ | ⟨b, rest, he, hb, rfl, rfl⟩ :=
              Connection.readexactly_eq_some hr <;> cases h
            · exact resumed_of_fails (k := 0) (.raised he (.inl trivial))
            · exact resumed_of_fails (k := 0) (.incomplete trivial he heof (Nat.zero_le _))
            · exact ⟨_, .read he (.header hb)⟩
      case timedOut =>
        rw [Option.ite_none_right_eq_some, Option.isNone_iff_eq_none,
          Connection.readexactly_eq_none_iff] at h
        obtain ⟨⟨⟨he, -⟩, -⟩, hs⟩ := h
        cases hs
        exact resumed_of_fails_zero (.timedOut trivial he)
  | readingBody response d =>
      cases w <;> simp only [resumeAttempt, reduceCtorEq] at h
      case ready =>
        cases hr : (s.conns a.conn).readuntil with
        | none => simp only [hr, reduceCtorEq] at h
        | some p =>
            obtain ⟨r, n'⟩ := p
            simp only [hr] at h
            obtain ⟨e, he, rfl, rfl⟩ | ⟨he, rfl, rfl⟩ | ⟨he, heof, rfl, rfl⟩ |
              ⟨chunk, rest, he, hb, rfl, rfl⟩ := Connection.readuntil_eq_some hr <;> cases h
            · exact resumed_of_fails (k := 0) (.raised he (.inl trivial))
            · exact resumed_of_fails (k := 0) (.overrun he)
            · exact resumed_of_fails (.incomplete trivial he heof le_rfl)
            · exact ⟨_, .read he (.body hb)⟩
      case timedOut =>
        rw [Option.ite_none_right_eq_some, Option.isNone_iff_eq_none] at h
        obtain ⟨⟨hr, -⟩, hs⟩ := h
        cases hs
        exact resumed_of_fails_zero (.timedOut trivial (Connection.exception_of_readuntil hr))
  | readingChecksum response d =>
      cases w <;> simp only [resumeAttempt, reduceCtorEq] at h
      case ready =>
        cases hr : (s.conns a.conn).readexactly with
        | none => simp only [hr, reduceCtorEq] at h
        | some p =>
            obtain ⟨r, n'⟩ := p
            simp only [hr] at h
            obtain ⟨e, he, rfl, rfl⟩ | ⟨he, hb, heof, rfl, rfl⟩ | ⟨b, rest, he, hb, rfl, rfl⟩ :=
              Connection.readexactly_eq_some hr <;> cases h
            · exact resumed_of_fails (k := 0) (.raised he (.inl trivial))
            · exact resumed_of_fails (k := 0) (.incomplete trivial he heof (Nat.zero_le _))
            · exact resumed_of_judge he hb
      case timedOut =>
        rw [Option.ite_none_right_eq_some, Option.isNone_iff_eq_none,
          Connection.readexactly_eq_none_iff] at h
        obtain ⟨⟨⟨he, -⟩, -⟩, hs⟩ := h
        cases hs
        exact resumed_of_fails_zero (.timedOut trivial he)
  | backoff wake =>
      cases w <;> simp only [resumeAttempt, reduceCtorEq, Option.ite_none_right_eq_some,
        Option.some.injEq] at h
      obtain ⟨hw, rfl⟩ := h
      exact ⟨_, .moved (.nextAttempt hw)⟩

/-- **Every resumption of a suspended call is one of `Resumed`.** -/
theorem resumed_of_resume {s' : State} {id : CallId} {c : Call} {stage : Stage} {w : Wakeup}
    (h : resume cfg s id c stage w = some s') :
    ∃ stage', Resumed cfg s id c stage stage' s' := by
  cases stage with
  | acquiring =>
      cases w <;> simp only [resume, reduceCtorEq, Option.ite_none_right_eq_some,
        Option.some.injEq] at h
      obtain ⟨hm, rfl⟩ := h
      exact ⟨_, .acquired hm⟩
  | connecting =>
      cases w <;> simp only [resume, reduceCtorEq, Option.some.injEq] at h
      subst h
      unfold State.getSerialConnection
      cases hn : s.connection with
      | none =>
          have hr : Resumed cfg s id c .connecting .opening _ := .startOpen (.inl ⟨rfl, hn⟩)
          rw [← hn] at hr
          exact ⟨_, hr⟩
      | some n =>
          cases hc : (s.conns n).closing with
          | false =>
              simp only [hc, Bool.false_eq_true, if_false]
              exact ⟨_, .reused hn hc⟩
          | true =>
              simp only [hc, if_true]
              exact ⟨_, .moved (.awaitClose hn hc)⟩
  | awaitingClose n =>
      cases w <;> simp only [resume, reduceCtorEq] at h
      cases hc : (s.conns n).waitClosed with
      | none => simp only [hc, reduceCtorEq] at h
      | some exc =>
          cases exc <;> simp only [hc, Option.some.injEq] at h <;> subst h
          · exact ⟨_, .startOpen (.inr ⟨n, rfl, hc⟩)⟩
          · exact ⟨_, .closeRaised hc⟩
  | opening =>
      cases w with
      | ready => cases h; exact ⟨_, .opened⟩
      | timedOut => cases h
      | raised e => cases h; exact ⟨_, .openFailed⟩
      | lowLatency e =>
          cases e with
          | notImplementedError => cases h; exact ⟨_, .opened⟩
          | _ => cases h; exact ⟨_, .lowLatencyFailed⟩
  | attempting a p => exact resumed_of_resumeAttempt h
  | resetting n e =>
      cases w <;> simp only [resume, reduceCtorEq] at h
      cases hc : (s.conns n).waitClosed with
      | none => simp only [hc, reduceCtorEq] at h
      | some exc =>
          cases exc <;> simp only [hc, Option.some.injEq] at h <;> subst h
          · exact ⟨_, .resetDone (.inl ⟨hc, rfl⟩)⟩
          · exact ⟨_, .resetDone (.inr hc)⟩
  | finished r => cases w <;> cases h

/-! ### What every resumption leaves alone -/

variable {s' : State} {id : CallId} {c : Call} {stage stage' : Stage}

/-- A resumption moves the resumed call, and no other. -/
theorem Resumed.calls_eq (h : Resumed cfg s id c stage stage' s') :
    s'.calls = Function.update s.calls id (some ⟨c.args, stage'⟩) := by
  cases h <;> rfl

/-- A resumption enters the mutex, stays inside, or leaves it. A call that is outside is resumed
only to enter. -/
theorem Resumed.mutex_cases (h : Resumed cfg s id c stage stage' s') :
    (stage = .acquiring ∧ stage'.isCritical ∧ s.mutex = none ∧ s'.mutex = some id) ∨
    (stage.isCritical ∧ stage'.isCritical ∧ s'.mutex = s.mutex) ∨
    (stage.isCritical ∧ (∃ r, stage' = .finished r) ∧ s'.mutex = none) := by
  cases h with
  | acquired h => exact .inl ⟨rfl, trivial, h, rfl⟩
  | moved h => cases h <;> exact .inr (.inl ⟨trivial, trivial, rfl⟩)
  | startOpen h =>
      obtain ⟨rfl, -⟩ | ⟨n, rfl, -⟩ := h <;> exact .inr (.inl ⟨trivial, trivial, rfl⟩)
  | reused | opened | read | transmitted | retried | failed | discarded | rejected =>
      exact .inr (.inl ⟨trivial, trivial, rfl⟩)
  | openFailed | lowLatencyFailed | closeRaised | resetDone | cancelledInside | accepted =>
      exact .inr (.inr ⟨trivial, ⟨_, rfl⟩, rfl⟩)

/-- A resumption puts nothing on the wire, or is the end of a drain; no other code of `fetch`
writes. -/
theorem Resumed.transmissions_cases (h : Resumed cfg s id c stage stage' s') :
    s'.transmissions = s.transmissions ∨
    ∃ a d, stage = .attempting a (.draining d) ∧ stage' = .attempting a .flushing ∧
      s' = s.transmit id c a := by
  cases h with
  | transmitted => exact .inr ⟨_, _, rfl, rfl, rfl⟩
  | reused | startOpen => exact .inl (State.record_transmissions _ _ nofun)
  | accepted | discarded | rejected => exact .inl (State.complete_transmissions _ _)
  | _ => exact .inl rfl

/-- A resumption books nothing, a transmission, or a reception: the two globals of the gates
change with the log and never without it. -/
theorem Resumed.booked_cases (h : Resumed cfg s id c stage stage' s') :
    s'.clock = s.clock ∧
    ((s'.lastRequestTx = s.lastRequestTx ∧ s'.lastRxCompleteTime = s.lastRxCompleteTime ∧
        (s'.log = s.log ∨ s'.log = s.log ++ [.reuse id] ∨ s'.log = s.log ++ [.opening id])) ∨
      (∃ a d, stage = .attempting a (.draining d) ∧ s' = s.transmit id c a) ∨
      (s'.lastRequestTx = s.lastRequestTx ∧ s'.lastRxCompleteTime = some s.clock ∧
        s'.log = s.log ++ [.rx id s.clock])) := by
  refine ⟨by cases h <;> rfl, ?_⟩
  cases h with
  | reused => exact .inl ⟨rfl, rfl, .inr (.inl rfl)⟩
  | startOpen => exact .inl ⟨rfl, rfl, .inr (.inr rfl)⟩
  | transmitted => exact .inr (.inl ⟨_, _, rfl, rfl⟩)
  | accepted | discarded | rejected => exact .inr (.inr ⟨rfl, rfl, rfl⟩)
  | _ => exact .inl ⟨rfl, rfl, .inl rfl⟩

/-- A read takes no more than there is. -/
theorem Reads.le {n : Connection} {p p' : Phase} {k : ℕ} (h : Reads cfg s n p k p') :
    k ≤ n.buffer.length := by
  cases h with
  | drained => exact List.length_take_le' _ _
  | header h => rw [h]; exact Nat.succ_le_succ (Nat.zero_le _)
  | body h => rw [← append_of_readUntil h, List.length_append]; exact Nat.le_add_right _ _

/-- A failing read takes no more than there is. -/
theorem Fails.le {n : Connection} {p : Phase} {e : PyExc} {k : ℕ} (h : Fails n p e k) :
    k ≤ n.buffer.length := by
  cases h with
  | incomplete _ _ _ hk => exact hk
  | _ => exact Nat.zero_le _

/-- What a resumption may do to a connection: read some of its buffer, and close it. It neither
feeds the connection nor decides how its transport ends. -/
structure Connection.Used (n n' : Connection) : Prop where
  received : n'.received = n.received
  exception : n'.exception = n.exception
  closed : n'.closed = n.closed
  closeCancelled : n'.closeCancelled = n.closeCancelled
  eof : n'.eof = n.eof
  closing : n.closing = true → n'.closing = true
  consumed : ∃ k ≤ n.buffer.length, n'.consumed = n.consumed + k

theorem Connection.Used.waitClosed {n n' : Connection} (h : n.Used n') :
    n'.waitClosed = n.waitClosed := by
  rw [Connection.waitClosed, Connection.waitClosed, h.closeCancelled, h.closed]

theorem Connection.Used.refl (n : Connection) : n.Used n :=
  ⟨rfl, rfl, rfl, rfl, rfl, id, 0, Nat.zero_le _, rfl⟩

theorem Connection.used_consume {n : Connection} {k : ℕ} (hk : k ≤ n.buffer.length) :
    n.Used (n.consume k) :=
  ⟨rfl, rfl, rfl, rfl, rfl, id, k, hk, rfl⟩

theorem Connection.used_consume_close {n : Connection} {k : ℕ} (hk : k ≤ n.buffer.length) :
    n.Used (n.consume k).close :=
  ⟨rfl, rfl, rfl, rfl, rfl, fun _ => rfl, k, hk, rfl⟩

/-- A relation that every connection has to itself survives the update of one of them. -/
theorem State.setConn_rel {R : Connection → Connection → Prop} (hrefl : ∀ n, R n n)
    {n : ConnId} {k : Connection} (h : R (s.conns n) k) (m : ConnId) :
    R (s.conns m) ((s.setConn n k).conns m) := by
  by_cases hm : m = n
  · subst hm
    simpa using h
  · simpa [Function.update_of_ne hm] using hrefl (s.conns m)

theorem State.setConn_used {n : ConnId} {k : Connection} (h : (s.conns n).Used k)
    (m : ConnId) : (s.conns m).Used ((s.setConn n k).conns m) :=
  s.setConn_rel Connection.Used.refl h m

/-- A resumption neither feeds a connection nor loses it. -/
theorem Resumed.conns_used (h : Resumed cfg s id c stage stage' s') (n : ConnId) :
    (s.conns n).Used (s'.conns n) := by
  have one {m : ConnId} {b : UInt8} {rest : Bytes} (hb : (s.conns m).buffer = b :: rest) :
      1 ≤ (s.conns m).buffer.length := by
    rw [hb]
    exact Nat.succ_le_succ (Nat.zero_le _)
  cases h with
  | read _ hread => exact State.setConn_used (Connection.used_consume hread.le) n
  | retried hf | cancelledInside hf =>
      exact State.setConn_used (Connection.used_consume hf.le) n
  | accepted _ hb | discarded _ hb =>
      exact State.setConn_used (Connection.used_consume (one hb)) n
  | failed hf => exact State.setConn_used (Connection.used_consume_close hf.le) n
  | rejected _ hb => exact State.setConn_used (Connection.used_consume_close (one hb)) n
  | _ => exact Connection.Used.refl _

end Resumed

/-! ### Cancellations -/

/-- A cancellation touches nothing of a connection but its close future. -/
theorem State.exists_cancelWaiter (s : State) (stage : Stage) :
    ∃ n b, s.cancelWaiter stage = s.setConn n { s.conns n with closeCancelled := b } := by
  have hone (n : ConnId) : ∃ b,
      (s.conns n).cancelWaiter = { s.conns n with closeCancelled := b } := by
    rw [Connection.cancelWaiter]
    split_ifs
    · exact ⟨true, rfl⟩
    · exact ⟨_, rfl⟩
  have hnone : s = s.setConn 0 (s.conns 0) := (s.setConn_self 0).symm
  cases stage with
  | awaitingClose n | resetting n =>
      obtain ⟨b, hb⟩ := hone n
      exact ⟨n, b, by rw [← hb]; rfl⟩
  | _ => exact ⟨0, _, hnone⟩

/-! ### Every step of the serial layer -/

/-- One step of the serial layer: a call enters `fetch`, is resumed or cancelled, time passes,
bytes arrive, or a transport begins to close or is lost. A cancellation inside the block
differs from one outside: it gives the mutex back. -/
inductive Stepped (cfg : SerialModel) (s : State) : Action → State → Prop
  | called {id args} (h : s.calls id = none) :
      Stepped cfg s (.call id args) (s.goto id ⟨args, .acquiring⟩ .acquiring)
  | resumed {id w c stage' s'} (hc : s.calls id = some c)
      (h : Resumed cfg s id c c.stage stage' s') : Stepped cfg s (.resume id w) s'
  | cancelledWaiting {id c} (hc : s.calls id = some c) (h : c.stage = .acquiring) :
      Stepped cfg s (.cancel id) (s.goto id c (.finished (.error .cancelledError)))
  | cancelled {id c} (hc : s.calls id = some c) (h : c.stage.isCritical) :
      Stepped cfg s (.cancel id) ((s.cancelWaiter c.stage).finish id c (.error .cancelledError))
  | ticked {d} (h : 0 ≤ d) : Stepped cfg s (.tick d) { s with clock := s.clock + d }
  | received {n bs} (hn : n < s.nextConn) (hc : (s.conns n).closing = false) :
      Stepped cfg s (.receive n bs) (s.setConn n ((s.conns n).feed bs))
  | closing {n} (hn : n < s.nextConn) :
      Stepped cfg s (.closing n) (s.setConn n (s.conns n).close)
  | lost {n exc} (hn : n < s.nextConn) (hc : (s.conns n).closed = none) :
      Stepped cfg s (.connectionLost n exc) (s.setConn n ((s.conns n).lose exc))

/-- **Every step is one of `Stepped`.** -/
theorem stepped_of_step {cfg : SerialModel} {s s' : State} {act : Action}
    (h : step cfg s act = some s') : Stepped cfg s act s' := by
  cases act with
  | call id args =>
      simp only [step, Option.ite_none_right_eq_some, Option.isNone_iff_eq_none,
        Option.some.injEq] at h
      obtain ⟨hc, rfl⟩ := h
      exact .called hc
  | resume id w =>
      simp only [step, Option.bind_eq_some_iff] at h
      obtain ⟨c, hc, h⟩ := h
      obtain ⟨stage', h'⟩ := resumed_of_resume h
      exact .resumed hc h'
  | cancel id =>
      simp only [step, Option.bind_eq_some_iff] at h
      obtain ⟨⟨args, stage⟩, hc, h⟩ := h
      cases stage with
      | acquiring => cases h; exact .cancelledWaiting hc rfl
      | finished r => cases h
      | _ => cases h; exact .cancelled hc trivial
  | tick d =>
      simp only [step, Option.ite_none_right_eq_some, Option.some.injEq] at h
      obtain ⟨hd, rfl⟩ := h
      exact .ticked hd
  | receive n bs =>
      simp only [step, Option.ite_none_right_eq_some, Option.some.injEq] at h
      obtain ⟨⟨hn, hc⟩, rfl⟩ := h
      exact .received hn hc
  | closing n =>
      simp only [step, Option.ite_none_right_eq_some, Option.some.injEq] at h
      obtain ⟨hn, rfl⟩ := h
      exact .closing hn
  | connectionLost n exc =>
      simp only [step, Option.ite_none_right_eq_some, Option.some.injEq] at h
      obtain ⟨⟨hn, hc⟩, rfl⟩ := h
      exact .lost hn hc

end IoBoard
