import IoBoard.FetchErrors

/-!
# The Outcomes of Attempts

How an attempt of the retry loop ends: with a frame that is accepted or discarded, with a timeout
or with an incomplete read. What the awaits of an attempt bring about is summed up in its
outcome, and what the loop then does depends on nothing else.

## Outcomes

An outcome is what the retry loop can tell apart: it catches timeouts and incomplete reads, and
it discards a complete frame with a wrong checksum or with the codes of another command. A frame
that is accepted is an outcome too. `verdict` gives the error of an attempt that is the last one;
for any other attempt only whether there is an error matters. An attempt can also end in a way
that is no outcome: by an exception that the loop does not catch, or by a cancellation.

## What is left to the environment

With which `Wakeup` a call is resumed. The statements are about a resumption with a given one:
`Phase.attemptStep` computes from the phase, the connection and the wakeup whether the attempt goes
on, ends with an outcome, or breaks off. In a drain a timeout is no outcome, since it is how
the drain finds the line quiet.

`Undisturbed` collects what later theorems assume of a run, as a condition on its steps: the
watched calls are not cancelled, their attempts end with allowed outcomes only, and nothing else
than the retry loop ends them. Which calls, which outcomes, and what the callers and the board
may do are parameters.

## Main results

* `movesOn_of_resumeAttempt`: **what a resumption makes of an attempt**, by the outcome it brings
  about.
* `Undisturbed`: the runs in which the attempts of some calls end with allowed outcomes.
-/

open Runs

namespace IoBoard

/-! ### Outcomes -/

/-- How an attempt ends: with a frame that is returned, or with one of the four failures that
make the loop try again. -/
inductive Outcome
  | frame (response : Bytes)
  | timeout
  | shortRead
  | badChecksum
  | wrongCodes (response : Bytes)
  deriving DecidableEq

namespace Outcome

/-- The outcome of an attempt that has read a complete frame. The checksum is looked at first,
as in the source. -/
def ofFrame (args : FetchArgs) (response : Bytes) : Outcome :=
  if responseChecksumValid response = false then .badChecksum
  else if acceptsResponse args.expectedCommand args.expectedSubcommand response then
    .frame response
  else .wrongCodes response

/-- The outcome of an attempt that has raised an exception, if the loop catches it. What an
incomplete read has read does not matter. -/
def ofException : PyExc → Option Outcome
  | .timeoutError => some .timeout
  | .incompleteReadError _ => some .shortRead
  | _ => none

/-- The result of a call whose attempt has this outcome: the frame, or the error that is raised
if it is the last attempt. -/
def verdict (cfg : SerialModel) (args : FetchArgs) : Outcome → Except PyExc Bytes
  | .frame response => .ok response
  | .timeout => .error (exhaustedError cfg args .timeoutError)
  | .shortRead => .error (exhaustedError cfg args (.incompleteReadError []))
  | .badChecksum => .error (checksumError cfg args)
  | .wrongCodes response => .error (mismatchError cfg args response)

/-- A short read raises the same error whatever has been read. -/
theorem verdict_of_ofException (cfg : SerialModel) (args : FetchArgs) {e : PyExc} {o : Outcome}
    (h : ofException e = some o) :
    e.isRetried ∧ verdict cfg args o = .error (exhaustedError cfg args e) := by
  cases e with
  | timeoutError =>
      cases h
      exact ⟨trivial, rfl⟩
  | incompleteReadError bytes =>
      cases h
      exact ⟨trivial, rfl⟩
  | _ => cases h

end Outcome

/-- What a resumption does to the attempt: it goes on, ends with an outcome, or ends in another
way. -/
inductive AttemptStep
  | goesOn
  | ends (o : Outcome)
  | breaks

/-- What becomes of an attempt that raises: a timeout of the drain is its end, and the retry loop
catches timeouts and incomplete reads. -/
def Phase.caught : Phase → PyExc → AttemptStep
  | .draining _, e => if e = .timeoutError then .goesOn else .breaks
  | _, e =>
      match Outcome.ofException e with
      | some o => .ends o
      | none => .breaks

/-- The complete frame that a resumption has read, which only the last of the three reads can
bring. -/
def Phase.frameRead (n : Connection) : Phase → Wakeup → Option Bytes
  | .readingChecksum response _, .ready =>
      match n.readexactly with
      | some (.ok b, _) => some (response ++ [b])
      | _ => none
  | _, _ => none

/-- What the awaited operation of an attempt brings about, for the connection as it is at the
resumption. -/
def Phase.attemptStep (args : FetchArgs) (n : Connection) (p : Phase) (w : Wakeup) :
    AttemptStep :=
  match p.failure n w, p.frameRead n w with
  | some e, _ => p.caught e
  | none, some response => .ends (.ofFrame args response)
  | none, none => .goesOn

section

variable {args : FetchArgs} {n : Connection} {p : Phase} {w : Wakeup}

theorem Phase.attemptStep_of_failure {e : PyExc} (h : p.failure n w = some e) :
    p.attemptStep args n w = p.caught e := by
  rw [attemptStep, h]

theorem Phase.attemptStep_of_frame {response : Bytes} (h : p.failure n w = none)
    (hframe : p.frameRead n w = some response) :
    p.attemptStep args n w = .ends (.ofFrame args response) := by
  rw [attemptStep, h, hframe]

theorem Phase.attemptStep_of_none (h : p.failure n w = none) (hframe : p.frameRead n w = none) :
    p.attemptStep args n w = .goesOn := by
  rw [attemptStep, h, hframe]

theorem Phase.caught_of_ne {e : PyExc} (h : ∀ d, p ≠ .draining d) :
    p.caught e = match Outcome.ofException e with
      | some o => .ends o
      | none => .breaks := by
  cases p <;> first | rfl | exact absurd rfl (h _)

end

/-! ### What can become of an attempt -/

variable {cfg : SerialModel} {s s' : State} {id : CallId} {c : Call} {a : Attempt} {p : Phase}
  {w : Wakeup}

/-- The stage after a resumption of an attempt. A failure leads to the backoff while attempts
are left, and to the closing of the connection after the last one. -/
inductive AttemptMove (cfg : SerialModel) (s : State) (args : FetchArgs) (a : Attempt) :
    Phase → AttemptStep → Stage → Prop
  | passes {p p'} (hsent : p'.hasSent = p.hasSent) (hp : ∀ wake, p ≠ .backoff wake)
      (hp' : ∀ wake, p' ≠ .backoff wake) :
      AttemptMove cfg s args a p .goesOn (.attempting a p')
  | sends {d} : AttemptMove cfg s args a (.draining d) .goesOn (.attempting a .flushing)
  | next {wake} :
      AttemptMove cfg s args a (.backoff wake) .goesOn (.attempting (a.next cfg) .interCommandGap)
  | accepted {p o r} (hsent : p.hasSent = true) (hp : ∀ wake, p ≠ .backoff wake)
      (h : o.verdict cfg args = .ok r) : AttemptMove cfg s args a p (.ends o) (.finished (.ok r))
  | retried {p o e} (hsent : p.hasSent = true) (hp : ∀ wake, p ≠ .backoff wake)
      (h : o.verdict cfg args = .error e) (hn : a.number < cfg.maxRetries) :
      AttemptMove cfg s args a p (.ends o) (.attempting a (.backoff (s.clock + a.retryDelay)))
  | gaveUp {p o e} (hsent : p.hasSent = true) (hp : ∀ wake, p ≠ .backoff wake)
      (h : o.verdict cfg args = .error e) (hn : cfg.maxRetries ≤ a.number) :
      AttemptMove cfg s args a p (.ends o) (.resetting a.conn e)

/-- The stage that a call is at in a state. -/
def State.stage (s : State) (id : CallId) : Option Stage :=
  (s.calls id).map Call.stage

/-- A failed attempt sleeps, or closes the connection. -/
theorem attemptMove_of_retryOr {t : State} {o : Outcome} {e : PyExc} (hsent : p.hasSent = true)
    (hp : ∀ wake, p ≠ .backoff wake) (h : o.verdict cfg c.args = .error e)
    (hclock : t.clock = s.clock) : ∃ stage, (t.retryOr cfg id c a e).stage id = some stage ∧
      AttemptMove cfg s c.args a p (.ends o) stage := by
  unfold State.retryOr
  split_ifs with hn
  · refine ⟨.attempting a (.backoff (t.clock + a.retryDelay)), ?_, hclock ▸ .retried hsent hp h hn⟩
    simp [State.stage]
  · refine ⟨.resetting a.conn e, ?_, .gaveUp hsent hp h (not_lt.mp hn)⟩
    simp [State.stage]

/-- An exception of an attempt that the loop catches. -/
theorem attemptMove_of_raise {t : State} {o : Outcome} {e : PyExc} (hsent : p.hasSent = true)
    (hp : ∀ wake, p ≠ .backoff wake) (h : Outcome.ofException e = some o)
    (hclock : t.clock = s.clock) :
    ∃ stage, (t.raiseInAttempt cfg id c a e).stage id = some stage ∧
      AttemptMove cfg s c.args a p (.ends o) stage := by
  obtain ⟨hretried, hverdict⟩ := Outcome.verdict_of_ofException cfg c.args h
  cases e with
  | timeoutError | incompleteReadError =>
      exact attemptMove_of_retryOr hsent hp hverdict hclock
  | _ => cases hretried

/-- A complete frame. -/
theorem attemptMove_of_judge {t : State} {response : Bytes} (hsent : p.hasSent = true)
    (hp : ∀ wake, p ≠ .backoff wake) (hclock : t.clock = s.clock) :
    ∃ stage, (t.judge cfg id c a response).stage id = some stage ∧
      AttemptMove cfg s c.args a p (.ends (.ofFrame c.args response)) stage := by
  unfold State.judge Outcome.ofFrame
  split_ifs with hvalid haccepts
  · exact attemptMove_of_retryOr hsent hp rfl hclock
  · refine ⟨.finished (.ok response), ?_, .accepted hsent hp rfl⟩
    simp [State.stage]
  · exact attemptMove_of_retryOr hsent hp rfl hclock

/-- The resumption of the attempt leads to a stage that its outcome allows. -/
def MovesOn (cfg : SerialModel) (s : State) (id : CallId) (c : Call) (a : Attempt) (p : Phase)
    (w : Wakeup) (s' : State) : Prop :=
  ∃ stage, s'.stage id = some stage ∧
    AttemptMove cfg s c.args a p (p.attemptStep c.args (s.conns a.conn) w) stage

theorem movesOn_of_none {stage : Stage}
    (hcalls : s'.calls = Function.update s.calls id (some ⟨c.args, stage⟩))
    (hfail : p.failure (s.conns a.conn) w = none)
    (hframe : p.frameRead (s.conns a.conn) w = none)
    (hmove : AttemptMove cfg s c.args a p .goesOn stage) : MovesOn cfg s id c a p w s' := by
  rw [MovesOn, Phase.attemptStep_of_none hfail hframe]
  refine ⟨stage, ?_, hmove⟩
  rw [State.stage, hcalls, Function.update_self]
  rfl

theorem movesOn_of_raise {t : State} {e : PyExc} (hsent : p.hasSent = true)
    (hp : ∀ wake, p ≠ .backoff wake) (hfail : p.failure (s.conns a.conn) w = some e)
    (hdrain : ∀ d, p ≠ .draining d) (hclock : t.clock = s.clock)
    (hstep : p.attemptStep c.args (s.conns a.conn) w ≠ .breaks) :
    MovesOn cfg s id c a p w (t.raiseInAttempt cfg id c a e) := by
  rw [Phase.attemptStep_of_failure hfail, Phase.caught_of_ne hdrain] at hstep
  rw [MovesOn, Phase.attemptStep_of_failure hfail, Phase.caught_of_ne hdrain]
  cases ho : Outcome.ofException e with
  | none =>
      rw [ho] at hstep
      exact absurd rfl hstep
  | some o => exact attemptMove_of_raise hsent hp ho hclock

/-- The drain goes on, or the message is sent. Both leave the attempt going. -/
theorem movesOn_of_drain {d : ℚ} (h : resumeAttempt cfg s id c a (.draining d) w = some s')
    (hstep : (Phase.draining d).attemptStep c.args (s.conns a.conn) w ≠ .breaks) :
    MovesOn cfg s id c a (.draining d) w s' := by
  cases w <;> simp only [resumeAttempt, reduceCtorEq] at h
  case ready =>
    cases hr : (s.conns a.conn).read with
    | none => simp only [hr, reduceCtorEq] at h
    | some q =>
        obtain ⟨r, n⟩ := q
        simp only [hr] at h
        cases r with
        | ok bs =>
            have hfail : (Phase.draining d).failure (s.conns a.conn) .ready = none := by
              rw [Phase.failure, hr]
              rfl
            cases bs with
            | nil =>
                cases h
                exact movesOn_of_none rfl hfail rfl .sends
            | cons =>
                cases h
                exact movesOn_of_none rfl hfail rfl (.passes rfl (by simp) (by simp))
        | error x =>
            have hfail : (Phase.draining d).failure (s.conns a.conn) .ready = some x := by
              rw [Phase.failure, hr, raisedBy]
            rw [Phase.attemptStep_of_failure hfail, Phase.caught] at hstep
            rw [MovesOn, Phase.attemptStep_of_failure hfail, Phase.caught]
            split_ifs at hstep ⊢ with hx
            · subst hx
              cases h
              exact ⟨.attempting a .flushing, by simp [State.stage], .sends⟩
            · exact absurd rfl hstep
  case timedOut =>
    split_ifs at h
    cases h
    exact movesOn_of_none rfl rfl rfl .sends

/-- A read of a single byte or up to ETX that gets no complete frame: it goes on, or it raises. -/
theorem movesOn_of_read {α : Type} {q : Except PyExc α × Connection} (stage : α → Stage)
    (hw : w = .ready) (hsent : p.hasSent = true) (hp : ∀ wake, p ≠ .backoff wake)
    (hdrain : ∀ d, p ≠ .draining d)
    (hfail : p.failure (s.conns a.conn) .ready = raisedBy (some q))
    (hframe : p.frameRead (s.conns a.conn) .ready = none)
    (hmove : ∀ x, AttemptMove cfg s c.args a p .goesOn (stage x))
    (hok : ∀ x n, q = (.ok x, n) → s' = (s.setConn a.conn n).goto id c (stage x))
    (herror : ∀ e n, q = (.error e, n) → s' = (s.setConn a.conn n).raiseInAttempt cfg id c a e)
    (hstep : p.attemptStep c.args (s.conns a.conn) w ≠ .breaks) :
    MovesOn cfg s id c a p w s' := by
  subst hw
  obtain ⟨r, n⟩ := q
  cases r with
  | ok x =>
      rw [hok x n rfl]
      exact movesOn_of_none rfl hfail hframe (hmove x)
  | error e =>
      rw [herror e n rfl]
      exact movesOn_of_raise hsent hp hfail hdrain rfl hstep

/-- **What a resumption makes of an attempt** that does not end in another way: one lemma for
each phase, put together. -/
theorem movesOn_of_resumeAttempt (h : resumeAttempt cfg s id c a p w = some s')
    (hstep : p.attemptStep c.args (s.conns a.conn) w ≠ .breaks) :
    MovesOn cfg s id c a p w s' := by
  cases p with
  | interCommandGap =>
      cases w <;> simp only [resumeAttempt, reduceCtorEq] at h
      cases hw : s.interCommandWake cfg <;> simp only [hw, Option.some.injEq] at h <;> subst h <;>
        exact movesOn_of_none rfl rfl rfl (.passes rfl (by simp) (by simp))
  | wireMinGap =>
      cases w <;> simp only [resumeAttempt, reduceCtorEq] at h
      cases hw : s.wireMinGapWake c.args <;> simp only [hw, Option.some.injEq] at h <;> subst h <;>
        exact movesOn_of_none rfl rfl rfl (.passes rfl (by simp) (by simp))
  | interCommandSleep wake | wireMinGapSleep wake =>
      cases w <;> simp only [resumeAttempt, reduceCtorEq] at h
      split_ifs at h
      cases h
      exact movesOn_of_none rfl rfl rfl (.passes rfl (by simp) (by simp))
  | backoff wake =>
      cases w <;> simp only [resumeAttempt, reduceCtorEq] at h
      split_ifs at h
      cases h
      exact movesOn_of_none rfl rfl rfl .next
  | draining d => exact movesOn_of_drain h hstep
  | flushing =>
      cases w <;> simp only [resumeAttempt, reduceCtorEq, Option.some.injEq] at h
      · subst h
        exact movesOn_of_none rfl rfl rfl (.passes rfl (by simp) (by simp))
      · subst h
        exact movesOn_of_raise rfl (by simp) rfl (by simp) rfl hstep
  | readingHeader d =>
      cases w <;> simp only [resumeAttempt, reduceCtorEq] at h
      case ready =>
        cases hr : (s.conns a.conn).readexactly with
        | none => simp only [hr, reduceCtorEq] at h
        | some q =>
            refine movesOn_of_read (q := q)
              (fun b => .attempting a (.readingBody [b] (s.clock + cfg.bodyTimeout)))
              rfl rfl (by simp) (by simp) (by rw [Phase.failure, hr]) rfl
              (fun _ => .passes rfl (by simp) (by simp)) ?_ ?_ hstep <;>
            · rintro x n rfl
              simp only [hr, Option.some.injEq] at h
              exact h.symm
      case timedOut =>
        split_ifs at h
        cases h
        exact movesOn_of_raise rfl (by simp) rfl (by simp) rfl hstep
  | readingBody response d =>
      cases w <;> simp only [resumeAttempt, reduceCtorEq] at h
      case ready =>
        cases hr : (s.conns a.conn).readuntil with
        | none => simp only [hr, reduceCtorEq] at h
        | some q =>
            refine movesOn_of_read (q := q) (fun chunk => .attempting a
              (.readingChecksum (response ++ chunk) (s.clock + cfg.checksumTimeout)))
              rfl rfl (by simp) (by simp) (by rw [Phase.failure, hr]) rfl
              (fun _ => .passes rfl (by simp) (by simp)) ?_ ?_ hstep <;>
            · rintro x n rfl
              simp only [hr, Option.some.injEq] at h
              exact h.symm
      case timedOut =>
        split_ifs at h
        cases h
        exact movesOn_of_raise rfl (by simp) rfl (by simp) rfl hstep
  | readingChecksum response d =>
      cases w <;> simp only [resumeAttempt, reduceCtorEq] at h
      case ready =>
        cases hr : (s.conns a.conn).readexactly with
        | none => simp only [hr, reduceCtorEq] at h
        | some q =>
            obtain ⟨r, n⟩ := q
            have hfail : (Phase.readingChecksum response d).failure (s.conns a.conn) .ready =
                raisedBy (some (r, n)) := by
              rw [Phase.failure, hr]
            cases r with
            | ok b =>
                simp only [hr, Option.some.injEq] at h
                subst h
                have hframe : (Phase.readingChecksum response d).frameRead (s.conns a.conn)
                    .ready = some (response ++ [b]) := by
                  rw [Phase.frameRead, hr]
                rw [MovesOn, Phase.attemptStep_of_frame hfail hframe]
                exact attemptMove_of_judge rfl (by simp) rfl
            | error x =>
                simp only [hr, Option.some.injEq] at h
                subst h
                exact movesOn_of_raise rfl (by simp) hfail (by simp) rfl hstep
      case timedOut =>
        split_ifs at h
        cases h
        exact movesOn_of_raise rfl (by simp) rfl (by simp) rfl hstep

/-! ### Runs without other disturbances -/

/-- The resumption neither fails outside the attempts nor ends an attempt in another way than
with an allowed outcome. Outside the attempts the port has to open and the transport to close
without an exception. -/
def Call.Follows (c : Call) (s : State) (allowed : Attempt → Outcome → Prop) (w : Wakeup) : Prop :=
  match c.stage with
  | .opening => w = .ready ∨ w = .lowLatency .notImplementedError
  | .awaitingClose n | .resetting n _ => ∀ e, (s.conns n).waitClosed ≠ some (some e)
  | .attempting a p =>
      match p.attemptStep c.args (s.conns a.conn) w with
      | .goesOn => True
      | .ends o => allowed a o
      | .breaks => False
  | _ => True

/-- What is assumed of a run: which calls are watched, with which outcomes their attempts may
end, and what callers and the device may do. -/
structure Conditions where
  watched : CallId → Prop
  allowed : State → Attempt → Outcome → Prop
  environment : State → Action → Prop

/-- The step cancels none of the watched calls, lets their attempts end with allowed outcomes
only, and is one that callers and the device may take. -/
def Undisturbed (k : Conditions) (s : State) : Action → Prop
  | .resume j w => k.watched j → ∀ c, s.calls j = some c → c.Follows s (k.allowed s) w
  | .cancel j => ¬ k.watched j
  | .tick _ => True
  | act => k.environment s act

end IoBoard
