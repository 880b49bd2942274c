import IoBoard.SerialConnection

/-!
# The Errors of `fetch`

Which errors leave `fetch`, and what they say. Inside its retry loop `fetch` catches timeouts
and incomplete reads, and `get_serial_connection` catches the `SerialException` of an open;
everything else passes through the outer `except` clause as it is, and so does what closing
the port raises.

## Describing a failure

An error describes a failure when it is the one that the code makes of it: by the text of the
exception of an open, by the kind of the last exception of the attempts, by the checksum or the
codes of the last frame. `Describes` is a relation between an await, what happened at it, and the
error; it has a constructor for each place in the source where an error is made. That an error
*originates* in a failure is a statement about the run: the call met the failure at some earlier
state, and the error is the one that describes it.

## What is handled

`OnlyHandled` is a condition on the steps of a run, by the await that raises. A transport that is
lost with an exception violates it, since the reads then raise that exception, and so does a
`wait_closed` that raises. A cancellation is no error of the contract and does not violate it.

## Main results

* `describes_of_resume`: the error with which a resumption ends a call, or with which it begins
  to close the connection, describes the failure at that await.
* `fetch_contract`: **in every run in which only the exceptions that `fetch` handles are
  raised, every error is of the contract and describes the original failure**.
* `not_fetch_contract`: another exception leaves `fetch` as it is.
-/

open Runs

namespace IoBoard

variable {cfg : SerialModel} {s s' : State} {id : CallId} {c : Call} {stage : Stage}
  {w : Wakeup} {e : PyExc}

/-! ### Failures -/

/-- The error of a read, if it raises. -/
def raisedBy {α : Type} : Option (Except PyExc α × Connection) → Option PyExc
  | some (.error e, _) => some e
  | _ => none

/-- The exception that is raised at an await of an attempt, if any: by the reader, by the flush,
or by the `wait_for` of a read. -/
def Phase.failure (n : Connection) : Phase → Wakeup → Option PyExc
  | .draining _, .ready => raisedBy n.read
  | .flushing, .raised e => some e
  | .readingHeader _, .ready | .readingChecksum _ _, .ready => raisedBy n.readexactly
  | .readingBody _ _, .ready => raisedBy n.readuntil
  | .readingHeader _, .timedOut | .readingBody _ _, .timedOut | .readingChecksum _ _, .timedOut =>
      some .timeoutError
  | _, _ => none

/-- **The error of `fetch` for a failure** at one of its awaits: a port that cannot be opened,
attempts that are exhausted by timeouts and incomplete reads, by frames with a wrong checksum,
or by answers to other commands. Only the last attempt counts. -/
inductive Describes (cfg : SerialModel) (s : State) (c : Call) : Stage → Wakeup → PyExc → Prop
  | opening {w message}
      (hw : w = .raised (.serialException message) ∨ w = .lowLatency (.serialException message)) :
      Describes cfg s c .opening w (openError cfg (.serialException message))
  | exhausted {a p w x} (h : p.failure (s.conns a.conn) w = some x) (hx : x.isRetried)
      (hn : cfg.maxRetries ≤ a.number) :
      Describes cfg s c (.attempting a p) w (exhaustedError cfg c.args x)
  | checksum {a response d b n} (h : (s.conns a.conn).readexactly = some (.ok b, n))
      (hv : responseChecksumValid (response ++ [b]) = false) (hn : cfg.maxRetries ≤ a.number) :
      Describes cfg s c (.attempting a (.readingChecksum response d)) .ready
        (checksumError cfg c.args)
  | mismatch {a response d b n} (h : (s.conns a.conn).readexactly = some (.ok b, n))
      (hv : acceptsResponse c.args.expectedCommand c.args.expectedSubcommand
        (response ++ [b]) = false) (hn : cfg.maxRetries ≤ a.number) :
      Describes cfg s c (.attempting a (.readingChecksum response d)) .ready
        (mismatchError cfg c.args (response ++ [b]))

/-- `SerialCommunicationError` and `ProtocolError`: the two classes that callers of `fetch` are
told of. -/
def PyExc.IsContract (e : PyExc) : Prop :=
  ∃ err : IOBoardError, e = .ioBoard err ∧ (err.kind = .serialCommunication ∨ err.kind = .protocol)

/-- The error of an open is a `SerialCommunicationError` whatever the text of the exception. -/
theorem isContract_openError (cfg : SerialModel) (message : Str) :
    (openError cfg (.serialException message)).IsContract := by
  unfold openError
  dsimp only
  split_ifs <;> exact ⟨_, rfl, .inl rfl⟩

/-- The errors that `fetch` makes are of its contract. -/
theorem Describes.isContract (h : Describes cfg s c stage w e) : e.IsContract := by
  cases h with
  | opening => exact isContract_openError cfg _
  | exhausted =>
      unfold exhaustedError
      split_ifs <;> exact ⟨_, rfl, .inl rfl⟩
  | checksum => exact ⟨_, rfl, .inr rfl⟩
  | mismatch => exact ⟨_, rfl, .inr rfl⟩

/-! ### Which exceptions are handled -/

/-- The exceptions that `fetch` makes errors of its own of, by the await that raises them, and
the cancellation of the caller. Closing a connection has to raise none. -/
def Stage.Handled (s : State) : Stage → Wakeup → Prop
  | .opening, .raised e => e = .cancelledError ∨ ∃ message, e = .serialException message
  | .opening, .lowLatency e =>
      e = .notImplementedError ∨ e = .cancelledError ∨ ∃ message, e = .serialException message
  | .awaitingClose n, _ | .resetting n _, _ => ∀ e, (s.conns n).waitClosed ≠ some (some e)
  | .attempting a p, w =>
      ∀ e, p.failure (s.conns a.conn) w = some e → e = .cancelledError ∨ e.isRetried
  | _, _ => True

/-- The error a call has settled on: it has raised it, or will once the connection is closed.
What closing raises would take its place. -/
def Stage.settled : Stage → Option PyExc
  | .resetting _ e | .finished (.error e) => some e
  | _ => none

/-- An attempt that ends with an exception settles on the error that describes it. -/
theorem describes_of_raiseInAttempt {a : Attempt} {p : Phase} {x : PyExc} {t : State} {c' : Call}
    (hf : p.failure (s.conns a.conn) w = some x) (hx : x = .cancelledError ∨ x.isRetried)
    (hc' : (t.raiseInAttempt cfg id c a x).calls id = some c') (he : c'.stage.settled = some e)
    (hne : e ≠ .cancelledError) : Describes cfg s c (.attempting a p) w e := by
  have hretry (hr : x.isRetried)
      (h : (t.retryOr cfg id c a (exhaustedError cfg c.args x)).calls id = some c') :
      Describes cfg s c (.attempting a p) w e := by
    unfold State.retryOr at h
    split_ifs at h with hn
    · rw [State.goto_calls, Function.update_self] at h
      cases h
      cases he
    · rw [State.reset, State.goto_calls, Function.update_self] at h
      cases h
      cases he
      exact .exhausted hf hr (not_lt.mp hn)
  cases x with
  | timeoutError | incompleteReadError => exact hretry trivial hc'
  | cancelledError =>
      rw [State.raiseInAttempt, State.finish_calls, State.goto_calls, Function.update_self] at hc'
      cases hc'
      cases he
      exact absurd rfl hne
  | _ => exact (hx.resolve_left PyExc.noConfusion).elim

/-- A frame that is discarded for good settles the call on the error that says why. -/
theorem describes_of_judge {a : Attempt} {response : Bytes} {d : ℚ} {b : UInt8} {n : Connection}
    {t : State} {c' : Call} (hread : (s.conns a.conn).readexactly = some (.ok b, n))
    (hc' : (t.judge cfg id c a (response ++ [b])).calls id = some c')
    (he : c'.stage.settled = some e) :
    Describes cfg s c (.attempting a (.readingChecksum response d)) .ready e := by
  unfold State.judge State.retryOr at hc'
  split_ifs at hc' with hv hn ha hn
  · rw [State.goto_calls, Function.update_self] at hc'
    cases hc'
    cases he
  · rw [State.reset, State.goto_calls, Function.update_self] at hc'
    cases hc'
    cases he
    exact .checksum hread hv (not_lt.mp hn)
  · rw [State.finish_calls, State.goto_calls, Function.update_self] at hc'
    cases hc'
    cases he
  · rw [State.goto_calls, Function.update_self] at hc'
    cases hc'
    cases he
  · rw [State.reset, State.goto_calls, Function.update_self] at hc'
    cases hc'
    cases he
    exact .mismatch hread (Bool.eq_false_of_not_eq_true ha) (not_lt.mp hn)

/-- What the moved call has settled on is in the stage it has moved to. -/
theorem settled_of_update {calls : CallId → Option Call} {d c' : Call}
    (hc' : Function.update calls id (some d) id = some c') (he : c'.stage.settled = some e) :
    d.stage.settled = some e := by
  rw [Function.update_self] at hc'
  cases hc'
  exact he

/-- Inside an attempt a call settles only on an error that describes the failure. -/
theorem describes_of_resumeAttempt {a : Attempt} {p : Phase} {c' : Call}
    (h : resumeAttempt cfg s id c a p w = some s')
    (hh : ∀ x, p.failure (s.conns a.conn) w = some x → x = .cancelledError ∨ x.isRetried)
    (hc' : s'.calls id = some c') (he : c'.stage.settled = some e) (hne : e ≠ .cancelledError) :
    Describes cfg s c (.attempting a p) w e := by
  -- the phases that cannot fail go on to another await
  have moved {t : State} {d : Call} {calls : CallId → Option Call}
      (hs : some t = some s') (ht : t.calls = Function.update calls id (some d))
      (hd : d.stage.settled = none) : Describes cfg s c (.attempting a p) w e := by
    cases hs
    rw [ht] at hc'
    cases hd.symm.trans (settled_of_update hc' he)
  have failed {x : PyExc} {t : State} (hx : p.failure (s.conns a.conn) w = some x)
      (hs : some (t.raiseInAttempt cfg id c a x) = some s') :
      Describes cfg s c (.attempting a p) w e := by
    cases hs
    exact describes_of_raiseInAttempt hx (hh x hx) hc' he hne
  cases p with
  | interCommandGap =>
      cases w <;> simp only [resumeAttempt, reduceCtorEq] at h
      cases hw : s.interCommandWake cfg <;> simp only [hw] at h <;> exact moved h rfl rfl
  | wireMinGap =>
      cases w <;> simp only [resumeAttempt, reduceCtorEq] at h
      cases hw : s.wireMinGapWake c.args <;> simp only [hw] at h <;> exact moved h rfl rfl
  | interCommandSleep wake | wireMinGapSleep wake | backoff wake =>
      cases w <;> simp only [resumeAttempt, reduceCtorEq] at h
      split_ifs at h
      exact moved h rfl rfl
  | draining d =>
      cases w <;> simp only [resumeAttempt, reduceCtorEq] at h
      case ready =>
        cases hr : (s.conns a.conn).read with
        | none => simp only [hr, reduceCtorEq] at h
        | some q =>
            obtain ⟨r, n⟩ := q
            have hfail (x : PyExc) (hx : r = .error x) :
                (Phase.draining d).failure (s.conns a.conn) .ready = some x := by
              rw [Phase.failure, hr, hx, raisedBy]
            simp only [hr] at h
            cases r with
            | ok bs => cases bs <;> exact moved h rfl rfl
            | error x =>
                cases x with
                | timeoutError => exact moved h rfl rfl
                | _ => exact failed (hfail _ rfl) h
      case timedOut =>
        split_ifs at h
        exact moved h rfl rfl
  | flushing =>
      cases w <;> simp only [resumeAttempt, reduceCtorEq] at h
      · exact moved h rfl rfl
      · exact failed rfl h
  | readingHeader d =>
      cases w <;> simp only [resumeAttempt, reduceCtorEq] at h
      case ready =>
        cases hr : (s.conns a.conn).readexactly with
        | none => simp only [hr, reduceCtorEq] at h
        | some q =>
            obtain ⟨r, n⟩ := q
            simp only [hr] at h
            cases r with
            | ok b => exact moved h rfl rfl
            | error x => exact failed (by rw [Phase.failure, hr, raisedBy]) h
      case timedOut =>
        split_ifs at h
        exact failed rfl h
  | readingBody response d =>
      cases w <;> simp only [resumeAttempt, reduceCtorEq] at h
      case ready =>
        cases hr : (s.conns a.conn).readuntil with
        | none => simp only [hr, reduceCtorEq] at h
        | some q =>
            obtain ⟨r, n⟩ := q
            simp only [hr] at h
            cases r with
            | ok chunk => exact moved h rfl rfl
            | error x => exact failed (by rw [Phase.failure, hr, raisedBy]) h
      case timedOut =>
        split_ifs at h
        exact failed rfl h
  | readingChecksum response d =>
      cases w <;> simp only [resumeAttempt, reduceCtorEq] at h
      case ready =>
        cases hr : (s.conns a.conn).readexactly with
        | none => simp only [hr, reduceCtorEq] at h
        | some q =>
            obtain ⟨r, n⟩ := q
            simp only [hr] at h
            cases r with
            | ok b =>
                cases h
                exact describes_of_judge hr hc' he
            | error x => exact failed (by rw [Phase.failure, hr, raisedBy]) h
      case timedOut =>
        split_ifs at h
        exact failed rfl h

/-- **The error with which a resumption settles the call describes the failure at that
await**, unless the call had settled before. -/
theorem describes_of_resume {c' : Call} (h : resume cfg s id c stage w = some s')
    (hh : stage.Handled s w) (hc' : s'.calls id = some c') (he : c'.stage.settled = some e)
    (hne : e ≠ .cancelledError) : Describes cfg s c stage w e ∨ stage.settled = some e := by
  have moved {t : State} {d : Call} {calls : CallId → Option Call}
      (hs : some t = some s') (ht : t.calls = Function.update calls id (some d))
      (hd : d.stage.settled = none) : Describes cfg s c stage w e ∨ stage.settled = some e := by
    cases hs
    rw [ht] at hc'
    cases hd.symm.trans (settled_of_update hc' he)
  have ended {x : PyExc} {t : State} {calls : CallId → Option Call} (hs : some t = some s')
      (ht : t.calls = Function.update calls id (some ⟨c.args, .finished (.error x)⟩)) :
      x = e := by
    cases hs
    rw [ht] at hc'
    exact Option.some.inj (settled_of_update hc' he)
  cases stage with
  | acquiring =>
      cases w <;> simp only [resume, reduceCtorEq] at h
      split_ifs at h
      exact moved h rfl rfl
  | connecting =>
      cases w <;> simp only [resume, reduceCtorEq] at h
      unfold State.getSerialConnection at h
      split at h
      · split_ifs at h <;> exact moved h rfl rfl
      · exact moved h rfl rfl
  | awaitingClose n =>
      cases w <;> simp only [resume, reduceCtorEq] at h
      cases hc : (s.conns n).waitClosed with
      | none => simp only [hc, reduceCtorEq] at h
      | some exc =>
          cases exc with
          | none => exact moved (by simpa only [hc] using h) rfl rfl
          | some x => exact absurd hc (hh x)
  | opening =>
      cases w with
      | ready => exact moved h rfl rfl
      | timedOut => cases h
      | raised x =>
          obtain rfl | ⟨message, rfl⟩ := hh
          · exact absurd (ended h rfl).symm hne
          · exact .inl (ended h rfl ▸ .opening (.inl rfl))
      | lowLatency x =>
          obtain rfl | rfl | ⟨message, rfl⟩ := hh
          · exact moved h rfl rfl
          · exact absurd (ended h rfl).symm hne
          · exact .inl (ended h rfl ▸ .opening (.inr rfl))
  | attempting a p => exact .inl (describes_of_resumeAttempt h hh hc' he hne)
  | resetting n x =>
      cases w <;> simp only [resume, reduceCtorEq] at h
      cases hc : (s.conns n).waitClosed with
      | none => simp only [hc, reduceCtorEq] at h
      | some exc =>
          cases exc with
          | none =>
              simp only [hc] at h
              exact .inr (congrArg some (ended h rfl))
          | some y => exact absurd hc (hh y)
  | finished r => cases w <;> cases h

/-! ### Runs -/

/-- The step raises only exceptions that `fetch` handles. It is a condition on resumptions; a
cancellation of a call is always allowed. -/
def OnlyHandled (s : State) : Action → Prop
  | .resume id w => ∀ c, s.calls id = some c → c.stage.Handled s w
  | _ => True

theorem onlyHandled_of_handled (hc : s.calls id = some c) (h : c.stage.Handled s w) :
    OnlyHandled s (.resume id w) := by
  intro d hd
  obtain rfl := Option.some.inj (hc.symm.trans hd)
  exact h

/-- The error goes back to a failure that the call met at one of its awaits: at some earlier
state it was resumed with that failure, and the error describes it. -/
def Originates (cfg : SerialModel) (s : State) (id : CallId) (e : PyExc) : Prop :=
  ∃ t w t' c, Reachable cfg t ∧ t.calls id = some c ∧ step cfg t (.resume id w) = some t' ∧
    Describes cfg t c c.stage w e ∧ Reaches (step cfg) Any t' s

theorem Originates.isContract (h : Originates cfg s id e) : e.IsContract := by
  obtain ⟨t, w, t', c, -, -, -, hd, -⟩ := h
  exact hd.isContract

theorem Originates.step {act : Action} (h : Originates cfg s id e)
    (hs : IoBoard.step cfg s act = some s') : Originates cfg s' id e := by
  obtain ⟨t, w, t', c, ht, hc, hstep, hd, hr⟩ := h
  exact ⟨t, w, t', c, ht, hc, hstep, hd, hr.tail (a := act) trivial hs⟩

/-- In a run in which only handled exceptions are raised, every error that a call has settled on
goes back to a failure that the call met. -/
theorem originates_of_reaches (h : Reaches (step cfg) OnlyHandled {} s) :
    ∀ id c, s.calls id = some c → ∀ e, c.stage.settled = some e → e ≠ .cancelledError →
      Originates cfg s id e := by
  refine h.induct (P := fun s => ∀ id c, s.calls id = some c → ∀ e, c.stage.settled = some e →
    e ≠ .cancelledError → Originates cfg s id e) forall_calls_start ?_
  intro s act s' hr ih hh hs
  have kept : ∀ j d, s.calls j = some d → ∀ e, d.stage.settled = some e →
      e ≠ .cancelledError → Originates cfg s' j e :=
    fun j d hj e he hne => (ih j d hj e he hne).step hs
  cases stepped_of_step hs with
  | called => exact forall_calls_update nofun fun j d _ hj => kept j d hj
  | @resumed id w c stage' _ hc hres =>
      have hresume : resume cfg s id c c.stage w = some s' := by
        simpa only [step, hc, Option.bind_some] using hs
      have hself : ∀ e, stage'.settled = some e → e ≠ .cancelledError →
          Originates cfg s' id e := by
        intro e he hne
        obtain hd | hset := describes_of_resume hresume (hh c hc)
          (hres.calls_eq ▸ Function.update_self ..) he hne
        · exact ⟨s, w, s', c, hr.mono fun _ _ _ => trivial, hc, hs, hd, Reaches.refl s'⟩
        · exact kept id c hc e hset hne
      rw [hres.calls_eq]
      exact forall_calls_update hself fun j d _ hj => kept j d hj
  | cancelledWaiting | cancelled =>
      exact forall_calls_update (fun e he hne => absurd (Option.some.inj he).symm hne)
        fun j d _ hj => kept j d hj
  | ticked | received | closing | lost => exact kept

/-- The mutex is free when a call has just ended, unless it was cancelled while it waited for it. -/
theorem mutex_eq_none_of_ended {act : Action} {r : Except PyExc Bytes}
    (h : Stepped cfg s act s') (hc : s.calls id = some c) (hin : ∀ r, c.stage ≠ .finished r)
    (hc' : s'.calls id = some ⟨c.args, .finished r⟩) (hr : r ≠ .error .cancelledError) :
    s'.mutex = none := by
  have unmoved (heq : s'.calls id = s.calls id) : s'.mutex = none := by
    rw [heq, hc] at hc'
    exact absurd (congrArg Call.stage (Option.some.inj hc')) (hin r)
  cases h with
  | @called j _ hj =>
      have hne : id ≠ j := by
        rintro rfl
        cases hj.symm.trans hc
      exact unmoved (Function.update_of_ne hne ..)
  | @resumed j _ d stage' _ hd hres =>
      by_cases hne : id = j
      · subst hne
        rw [hres.calls_eq, Function.update_self] at hc'
        obtain rfl : stage' = .finished r := congrArg Call.stage (Option.some.inj hc')
        obtain ⟨-, hcrit, -⟩ | ⟨-, hcrit, -⟩ | ⟨-, -, hnone⟩ := hres.mutex_cases
        · exact hcrit.elim
        · exact hcrit.elim
        · exact hnone
      · exact unmoved (hres.calls_eq ▸ Function.update_of_ne hne ..)
  | @cancelledWaiting j d =>
      by_cases hne : id = j
      · subst hne
        rw [State.goto_calls, Function.update_self] at hc'
        have hstage := congrArg Call.stage (Option.some.inj hc')
        exact absurd (Stage.finished.inj hstage).symm hr
      · exact unmoved (Function.update_of_ne hne ..)
  | cancelled => rfl
  | ticked | received | closing | lost => exact unmoved rfl

/-- **The error contract of `fetch`**: the call `id` has ended with `r` in the state `s`, with a
frame or with an error of the contract that goes back to a failure the call met, and the
mutex is free. -/
def MeetsContract (cfg : SerialModel) (s : State) (id : CallId) (r : Except PyExc Bytes) : Prop :=
  s.mutex = none ∧
    ((∃ frame, r = .ok frame) ∨ ∃ e, r = .error e ∧ e.IsContract ∧ Originates cfg s id e)

/-- **The error contract holds in every run in which only exceptions are raised that `fetch`
handles**, for every call that ends other than by its caller's cancellation. -/
theorem fetch_contract {act : Action} {r : Except PyExc Bytes}
    (hs : Reaches (step cfg) OnlyHandled {} s) (hh : OnlyHandled s act)
    (h : step cfg s act = some s') (hc : s.calls id = some c)
    (hin : ∀ r, c.stage ≠ .finished r) (hc' : s'.calls id = some ⟨c.args, .finished r⟩)
    (hr : r ≠ .error .cancelledError) : MeetsContract cfg s' id r := by
  refine ⟨mutex_eq_none_of_ended (stepped_of_step h) hc hin hc' hr, ?_⟩
  cases r with
  | ok frame => exact .inl ⟨frame, rfl⟩
  | error e =>
      have ho := originates_of_reaches (hs.tail hh h) id _ hc' e rfl
        fun he => hr (congrArg Except.error he)
      exact .inr ⟨e, rfl, ho.isContract, ho⟩

/-- A call asks for the port, which another process has opened. The open has not returned yet. -/
def busyRun : List Action :=
  [.call 0 rqiwArgs, .resume 0 .ready, .resume 0 .ready]

theorem busyRun_isSome : (runFrom (step {}) {} busyRun).isSome := by
  decide +kernel

/-- The state in which the open of `busyRun` raises. -/
def busyState : State := (runFrom (step {}) {} busyRun).get busyRun_isSome

/-- Nothing has been raised in `busyRun` so far. -/
theorem busyState_reaches : Reaches (step {}) OnlyHandled {} busyState := by
  have hone : Reaches (step {}) OnlyHandled {} _ := .single (.call 0 rqiwArgs) trivial rfl
  have htwo : Reaches (step {}) OnlyHandled {} _ :=
    hone.tail (a := .resume 0 .ready) (onlyHandled_of_handled rfl trivial) rfl
  exact htwo.tail (a := .resume 0 .ready) (onlyHandled_of_handled rfl trivial) rfl

/-- The contract at the end of `busyRun`, whose open raises that the port is busy. -/
theorem fetch_contract_busyRun : ∃ s', step {} busyState (.resume 0
      (.raised (.serialException "port is busy".toList))) = some s' ∧
    MeetsContract {} s' 0 (.error (openError {} (.serialException "port is busy".toList))) := by
  have hc : busyState.calls 0 = some ⟨rqiwArgs, .opening⟩ := rfl
  have hh : OnlyHandled busyState
      (.resume 0 (.raised (.serialException "port is busy".toList))) :=
    onlyHandled_of_handled hc (.inr ⟨_, rfl⟩)
  exact ⟨_, rfl, fetch_contract busyState_reaches hh rfl hc nofun rfl (by decide)⟩

/-- Other exceptions leave `fetch` as they are: the first call of `lossRun` ends with the
exception its transport was lost with. -/
theorem not_fetch_contract : ¬ ∀ cfg s id c r, Reachable cfg s → s.calls id = some c →
    c.stage = .finished r → r ≠ .error .cancelledError →
    (∃ frame, r = .ok frame) ∨ ∃ e, r = .error e ∧ e.IsContract := by
  intro h
  have hc : lossState.calls 0 = some ⟨rqiwArgs, .finished
      (.error (.serialException "device reports readiness to read".toList))⟩ := by
    decide +kernel
  obtain ⟨frame, hf⟩ | ⟨e, he, err, herr, -⟩ := h {} lossState 0 _ _ lossState_reachable hc rfl
    (by decide)
  · cases hf
  · cases he.trans (congrArg Except.error herr)

end IoBoard
