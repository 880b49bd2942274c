import IoBoard.AttemptOutcomes

/-!
# Runs of One Attempt

That an attempt can end with every outcome there is: from the start of an attempt on an idle
connection there is a run to its end, in which the connection is idle again and no other call
moves.

A theorem about all runs with certain outcomes says nothing if there are none, so the modules
about the retry loop and about the lagging board use the runs of this one to show that there are:
whatever outcomes are prescribed, a run with them exists, attempt by attempt.

## How a run is built

The run is put together from short ones, one for each phase. Between them the call is `At` a
phase of an attempt, on a connection that holds certain bytes, and `Leads` says of each piece that
only this call moves, which transmissions it makes, and that all its steps are allowed by the
condition of the run. Pieces are composed with `Leads.trans`. Where a phase waits for a time,
the clock is moved there by one step; where it waits for bytes, they arrive, if the condition lets
the board send them.

Which wakeup a resumption has is chosen here: it is an existence proof. A short read is taken
from the flush, since a read of the attempt raises it only at the end of the stream, and the
connection would not be idle afterwards.

## Main results

* `State.Ready.exists_started`: the way of a new call to its first attempt.
* `State.At.exists_sent`: **the way of an attempt to its transmission**.
* `State.At.endsWith_timeout`, `State.At.endsWith_shortRead`, `State.At.endsWith_of_frame`: and
  from there to every outcome.
-/

open Runs Framing

namespace IoBoard

/-! ### Connections between frames -/

/-- The connection is open, and these bytes have arrived and not been read. It neither closes
nor has come to an end. -/
structure Connection.Holds (n : Connection) (xs : Bytes) : Prop where
  exception : n.exception = none
  eof : n.eof = false
  closing : n.closing = false
  closed : n.waitClosed = none
  buffer : n.buffer = xs
  length : n.consumed + xs.length = n.received.length

namespace Connection.Holds

variable {n : Connection} {xs ys : Bytes}

/-- A new connection. -/
theorem start : ({} : Connection).Holds [] :=
  ⟨rfl, rfl, rfl, rfl, rfl, rfl⟩

theorem feed (h : n.Holds []) (xs : Bytes) : (n.feed xs).Holds xs := by
  have hlen : n.consumed = n.received.length := h.length
  refine ⟨h.exception, h.eof, h.closing, h.closed, ?_, ?_⟩
  · change (n.received ++ xs).drop n.consumed = xs
    rw [hlen, List.drop_left]
  · exact hlen ▸ List.length_append.symm

theorem consume (h : n.Holds (xs ++ ys)) : (n.consume xs.length).Holds ys := by
  have hlen := h.length
  rw [List.length_append] at hlen
  refine ⟨h.exception, h.eof, h.closing, h.closed, ?_, ?_⟩
  · have hbuffer := h.buffer
    rw [Connection.buffer] at hbuffer ⊢
    rw [Connection.consume, ← List.drop_drop, hbuffer, List.drop_left]
  · change n.consumed + xs.length + ys.length = n.received.length
    omega

theorem read_eq_none (h : n.Holds []) : n.read = none :=
  n.read_eq_none_iff.mpr ⟨h.exception, h.buffer, h.eof⟩

theorem readexactly_eq_none (h : n.Holds []) : n.readexactly = none :=
  n.readexactly_eq_none_iff.mpr ⟨h.exception, h.buffer, h.eof⟩

theorem readexactly_cons {b : UInt8} (h : n.Holds (b :: xs)) :
    n.readexactly = some (.ok b, n.consume 1) := by
  rw [readexactly, h.exception, h.buffer]

theorem readuntil_append (h : n.Holds (xs ++ ETX :: ys)) (hxs : ETX ∉ xs)
    (hlen : xs.length ≤ streamLimit) :
    n.readuntil = some (.ok (xs ++ [ETX]), n.consume (xs ++ [ETX]).length) := by
  have hread := readUntil_append hxs ys
  simp only [readuntil, h.exception, h.buffer, hread]
  rw [if_neg]
  simp only [List.length_append, List.length_singleton]
  omega

end Connection.Holds

/-! ### Runs in which one call moves -/

variable {cfg : SerialModel} {k : Conditions} {s s' s'' : State} {id : CallId} {args : FetchArgs}
  {c : Call} {a a' : Attempt} {p p' : Phase} {w : Wakeup} {txs txs' : List Tx} {xs ys : Bytes}

/-- There is such a run, in which only this call moves, inside its attempts, and makes these
transmissions. -/
structure Leads (cfg : SerialModel) (k : Conditions) (id : CallId) (s s' : State) (txs : List Tx) :
    Prop where
  reaches : Reaches (step cfg) (Undisturbed k) s s'
  calls : ∀ j, j ≠ id → s'.calls j = s.calls j
  connection : s'.connection = s.connection
  nextConn : s'.nextConn = s.nextConn
  transmissions : s'.transmissions = s.transmissions ++ txs

theorem Leads.refl (s : State) : Leads cfg k id s s [] :=
  ⟨Reaches.refl s, fun _ _ => rfl, rfl, rfl, (List.append_nil _).symm⟩

theorem Leads.trans (h : Leads cfg k id s s' txs)
    (h' : Leads cfg k id s' s'' txs') :
    Leads cfg k id s s'' (txs ++ txs') where
  reaches := h.reaches.trans h'.reaches
  calls j hj := (h'.calls j hj).trans (h.calls j hj)
  connection := h'.connection.trans h.connection
  nextConn := h'.nextConn.trans h.nextConn
  transmissions := by rw [h'.transmissions, h.transmissions, List.append_assoc]

/-- A run that transmits nothing more, behind one that may have. -/
theorem Leads.then (h : Leads cfg k id s s' txs)
    (h' : Leads cfg k id s' s'' []) : Leads cfg k id s s'' txs := by
  have hrun := h.trans h'
  rwa [List.append_nil] at hrun

/-- The call is in this phase of an attempt, on a connection that holds these bytes and is one
that has been opened. -/
structure State.At (s : State) (id : CallId) (args : FetchArgs) (a : Attempt) (p : Phase)
    (xs : Bytes) : Prop where
  call : s.calls id = some ⟨args, .attempting a p⟩
  holds : (s.conns a.conn).Holds xs
  opened : a.conn < s.nextConn

/-- Time passes, up to a given time, if that is not over already. -/
theorem exists_wait (cfg : SerialModel) (k : Conditions) (id : CallId) (s : State) (wake : ℚ) :
    ∃ clock, wake ≤ clock ∧ Leads cfg k id s { s with clock := clock } [] := by
  have hstep : step cfg s (.tick (max 0 (wake - s.clock))) =
      some { s with clock := s.clock + max 0 (wake - s.clock) } := if_pos (le_max_left ..)
  have hrun : Reaches (step cfg) (Undisturbed k) s _ :=
    .single (.tick (max 0 (wake - s.clock))) trivial hstep
  refine ⟨s.clock + max 0 (wake - s.clock), ?_, hrun, fun _ _ => rfl, rfl, rfl,
    (List.append_nil _).symm⟩
  have := le_max_right 0 (wake - s.clock)
  linarith

/-- A resumption that the condition allows. -/
theorem reaches_resume (hc : s.calls id = some c) (hs : resume cfg s id c c.stage w = some s')
    (hw : c.Follows s (k.allowed s) w) :
    Reaches (step cfg) (Undisturbed k) s s' := by
  have hstep : step cfg s (.resume id w) = some s' := by
    rw [step, hc]
    exact hs
  refine .single (.resume id w) (fun _ d hd => ?_) hstep
  obtain rfl := Option.some.inj (hc.symm.trans hd)
  exact hw

/-- A resumption of the call in an attempt, as a run of one step. -/
theorem State.At.resume (h : s.At id args a p xs)
    (hs : resumeAttempt cfg s id ⟨args, .attempting a p⟩ a p w = some s')
    (hw : (⟨args, .attempting a p⟩ : Call).Follows s (k.allowed s) w)
    (hsent : s'.transmissions = s.transmissions ++ txs) :
    Leads cfg k id s s' txs := by
  obtain ⟨stage', hr⟩ := resumed_of_resumeAttempt hs
  refine ⟨reaches_resume h.call hs hw, fun j hj => ?_, ?_, ?_, hsent⟩
  · rw [hr.calls_eq, Function.update_of_ne hj]
  · cases hr with
    | startOpen hst => simp at hst
    | _ => rfl
  · cases hr <;> rfl

theorem follows_of_none {allowed : Attempt → Outcome → Prop}
    (hfail : p.failure (s.conns a.conn) w = none)
    (hframe : p.frameRead (s.conns a.conn) w = none) :
    (⟨args, .attempting a p⟩ : Call).Follows s allowed w := by
  simp only [Call.Follows, Phase.attemptStep_of_none hfail hframe]

/-- The call goes on to another phase, on the same connection and with nothing transmitted. -/
theorem State.At.move (h : s.At id args a p xs) (hconn : a'.conn = a.conn)
    (hs : resumeAttempt cfg s id ⟨args, .attempting a p⟩ a p w =
      some (s.goto id ⟨args, .attempting a p⟩ (.attempting a' p')))
    (hfail : p.failure (s.conns a.conn) w = none)
    (hframe : p.frameRead (s.conns a.conn) w = none) :
    ∃ s', Leads cfg k id s s' [] ∧ s'.At id args a' p' xs := by
  refine ⟨_, h.resume hs (follows_of_none hfail hframe) (List.append_nil _).symm, ?_⟩
  exact ⟨Function.update_self .., hconn ▸ h.holds, hconn ▸ h.opened⟩

/-- The call wakes from a sleep. -/
theorem State.At.wake {wake : ℚ} (next : ℚ → Phase) (h : s.At id args a p xs)
    (hconn : a'.conn = a.conn)
    (hs : ∀ clock, wake ≤ clock →
      resumeAttempt cfg { s with clock := clock } id ⟨args, .attempting a p⟩ a p .ready =
        some (State.goto { s with clock := clock } id ⟨args, .attempting a p⟩
          (.attempting a' (next clock))))
    (hfail : p.failure (s.conns a.conn) .ready = none)
    (hframe : p.frameRead (s.conns a.conn) .ready = none) :
    ∃ s' clock, Leads cfg k id s s' [] ∧ s'.At id args a' (next clock) xs := by
  obtain ⟨clock, hclock, hwait⟩ := exists_wait cfg k id s wake
  have hat : State.At { s with clock := clock } id args a p xs := ⟨h.call, h.holds, h.opened⟩
  obtain ⟨s', hmove, hat'⟩ := hat.move hconn (hs clock hclock) hfail hframe
  exact ⟨s', clock, hwait.trans hmove, hat'⟩

/-! ### The beginning of a call -/

/-- No call is inside the block, and the port is closed or its connection idle. -/
def State.Ready (s : State) : Prop :=
  s.mutex = none ∧ (s.connection = none ∧ (s.conns s.nextConn).Holds [] ∨
    ∃ n, s.connection = some n ∧ (s.conns n).Holds [] ∧ n < s.nextConn)

/-- The first call finds the port closed, and a fresh connection to open. -/
theorem ready_start : State.Ready {} :=
  ⟨rfl, .inl ⟨rfl, .start⟩⟩

/-- A new call that gets the mutex: it is made, and it is resumed. -/
theorem State.Ready.exists_connecting (cfg : SerialModel) (h : s.Ready) (hc : s.calls id = none)
    (hcall : k.environment s (.call id args)) :
    ∃ s', Reaches (step cfg) (Undisturbed k) s s' ∧
      s'.calls = Function.update s.calls id (some ⟨args, .connecting⟩) ∧
      s'.connection = s.connection ∧ s'.conns = s.conns ∧ s'.nextConn = s.nextConn ∧
      s'.log = s.log := by
  let t := s.goto id ⟨args, .acquiring⟩ .acquiring
  have hs : step cfg s (.call id args) = some t := if_pos (by rw [hc]; rfl)
  have hct : t.calls id = some ⟨args, .acquiring⟩ := Function.update_self ..
  have hrun : Reaches (step cfg) (Undisturbed k) s t :=
    .single (.call id args) hcall hs
  refine ⟨_, hrun.trans (reaches_resume (w := .ready) hct (if_pos h.1) trivial), ?_, rfl, rfl, rfl,
    rfl⟩
  exact Function.update_idem ..

/-- The call has begun its first attempt, and nothing else has happened. -/
structure Started (cfg : SerialModel) (k : Conditions) (s : State) (id : CallId) (args : FetchArgs)
    (s' : State) (n : ConnId) : Prop where
  reaches : Reaches (step cfg) (Undisturbed k) s s'
  calls : ∀ j, j ≠ id → s'.calls j = s.calls j
  connection : s'.connection = some n
  transmissions : s'.transmissions = s.transmissions
  started : s'.At id args (firstAttempt cfg n) .interCommandGap []

/-- The port is opened, with the wakeups of an open that succeeds. -/
theorem exists_started_of_closed (hc : s.calls id = some ⟨args, .connecting⟩)
    (hnone : s.connection = none) (hholds : (s.conns s.nextConn).Holds []) :
    ∃ s', Started cfg k s id args s' s.nextConn := by
  let c : Call := ⟨args, .connecting⟩
  let t := (s.record (.opening id)).goto id c .opening
  have hopening : resume cfg s id c .connecting .ready = some t := by
    simp only [resume, State.getSerialConnection, hnone]
    rfl
  have hct : t.calls id = some ⟨args, .opening⟩ := Function.update_self ..
  refine ⟨_, (reaches_resume hc hopening trivial).trans
    (reaches_resume (w := .ready) hct rfl (.inl rfl)), fun j hj => ?_, rfl,
    State.record_transmissions s (.opening id) (by simp), Function.update_self .., hholds,
    Nat.lt_succ_self _⟩
  change Function.update (Function.update s.calls id _) id _ j = _
  rw [Function.update_of_ne hj, Function.update_of_ne hj]

/-- The idle connection is used again, and nothing is awaited. -/
theorem exists_started_of_idle {n : ConnId} (hc : s.calls id = some ⟨args, .connecting⟩)
    (hn : s.connection = some n) (hholds : (s.conns n).Holds []) (hopened : n < s.nextConn) :
    ∃ s', Started cfg k s id args s' n := by
  let c : Call := ⟨args, .connecting⟩
  have hreuse : resume cfg s id c .connecting .ready = some ((s.record (.reuse id)).goto id c
      (.attempting (firstAttempt cfg n) .interCommandGap)) := by
    simp [resume, State.getSerialConnection, hn, hholds.closing]
  refine ⟨_, reaches_resume hc hreuse trivial, fun j hj => Function.update_of_ne hj .., hn,
    State.record_transmissions s (.reuse id) (by simp), Function.update_self .., hholds, hopened⟩

/-- **The way of a new call to its first attempt**, through the mutex and either the opening of
the port or the idle connection. -/
theorem State.Ready.exists_started (h : s.Ready) (hc : s.calls id = none)
    (hcall : k.environment s (.call id args)) :
    ∃ s' n, Started cfg k s id args s' n := by
  obtain ⟨t, hrun, hcalls, hconn, hconns, hnext, hlog⟩ := h.exists_connecting cfg hc hcall
  have hct : t.calls id = some ⟨args, .connecting⟩ := by
    rw [hcalls, Function.update_self]
  have hstarted : ∃ s' n, Started cfg k t id args s' n := by
    obtain ⟨hnone, hholds⟩ | ⟨n, hn, hholds, hopened⟩ := h.2
    · obtain ⟨s', hs'⟩ := exists_started_of_closed hct (hconn.trans hnone) (by rwa [hconns, hnext])
      exact ⟨s', _, hs'⟩
    · obtain ⟨s', hs'⟩ := exists_started_of_idle hct (hconn.trans hn) (by rwa [hconns])
        (by rwa [hnext])
      exact ⟨s', n, hs'⟩
  obtain ⟨s', n, hs'⟩ := hstarted
  refine ⟨s', n, hrun.trans hs'.reaches, fun j hj => ?_, hs'.connection, ?_, hs'.started⟩
  · rw [hs'.calls j hj, hcalls, Function.update_of_ne hj]
  · rw [hs'.transmissions, State.transmissions, hlog, State.transmissions]

/-! ### The beginning of an attempt -/

/-- The gap between commands: the call sleeps if there is something left of it. -/
theorem State.At.interCommandGap (h : s.At id args a .interCommandGap xs) :
    ∃ s', Leads cfg k id s s' [] ∧ s'.At id args a .wireMinGap xs := by
  cases hwake : s.interCommandWake cfg with
  | none => exact h.move rfl (by rw [resumeAttempt, hwake]) rfl rfl
  | some wake =>
      have hs : resumeAttempt cfg s id ⟨args, .attempting a .interCommandGap⟩ a
          .interCommandGap .ready = some (s.goto id ⟨args, .attempting a .interCommandGap⟩
            (.attempting a (.interCommandSleep wake))) := by
        rw [resumeAttempt, hwake]
      obtain ⟨s', hsleep, hat⟩ := h.move rfl hs rfl rfl
      obtain ⟨s'', clock, hwoken, hat'⟩ := hat.wake (fun _ => .wireMinGap) rfl
        (fun clock hclock => if_pos hclock) rfl rfl
      exact ⟨s'', hsleep.trans hwoken, hat'⟩

/-- The gap between requests, in the same way, for commands that have one. -/
theorem State.At.wireMinGap (h : s.At id args a .wireMinGap xs) :
    ∃ s' d, Leads cfg k id s s' [] ∧ s'.At id args a (.draining d) xs := by
  cases hwake : s.wireMinGapWake args with
  | none =>
      have hs : resumeAttempt cfg s id ⟨args, .attempting a .wireMinGap⟩ a .wireMinGap .ready =
          some (s.goto id ⟨args, .attempting a .wireMinGap⟩
            (.attempting a (.draining (s.clock + 1 / 20)))) := by
        rw [resumeAttempt, hwake, State.drain]
      obtain ⟨s', hmove, hat⟩ := h.move rfl hs rfl rfl
      exact ⟨s', _, hmove, hat⟩
  | some wake =>
      have hs : resumeAttempt cfg s id ⟨args, .attempting a .wireMinGap⟩ a .wireMinGap .ready =
          some (s.goto id ⟨args, .attempting a .wireMinGap⟩
            (.attempting a (.wireMinGapSleep wake))) := by
        rw [resumeAttempt, hwake]
      obtain ⟨s', hsleep, hat⟩ := h.move rfl hs rfl rfl
      obtain ⟨s'', clock, hwoken, hat'⟩ := hat.wake (fun clock => .draining (clock + 1 / 20)) rfl
        (fun clock hclock => if_pos hclock) rfl rfl
      exact ⟨s'', _, hsleep.trans hwoken, hat'⟩

/-- The drain of an idle connection, and the transmission. -/
theorem State.At.draining {d : ℚ} (h : s.At id args a (.draining d) []) :
    ∃ s' t, t.call = id ∧ t.message = args.message ∧
      Leads cfg k id s s' [t] ∧ s'.At id args a .flushing [] := by
  obtain ⟨clock, hclock, hwait⟩ := exists_wait cfg k id s d
  have hat : State.At { s with clock := clock } id args a (.draining d) [] :=
    ⟨h.call, h.holds, h.opened⟩
  have hs : resumeAttempt cfg { s with clock := clock } id ⟨args, .attempting a (.draining d)⟩ a
      (.draining d) .timedOut = some (State.transmit { s with clock := clock } id
        ⟨args, .attempting a (.draining d)⟩ a) :=
    if_pos ⟨Option.isNone_iff_eq_none.mpr h.holds.read_eq_none, hclock⟩
  refine ⟨_, _, rfl, rfl, hwait.trans (hat.resume hs (follows_of_none rfl rfl)
    (State.transmit_transmissions ..)), Function.update_self .., h.holds, h.opened⟩

/-- **The way of an attempt to its transmission**, through the two gaps and the drain. -/
theorem State.At.exists_sent (cfg : SerialModel) (k : Conditions)
    (h : s.At id args a .interCommandGap []) :
    ∃ s' t, t.call = id ∧ t.message = args.message ∧
      Leads cfg k id s s' [t] ∧ s'.At id args a .flushing [] := by
  obtain ⟨s₁, hgap, h₁⟩ := h.interCommandGap
  obtain ⟨s₂, d, hwire, h₂⟩ := h₁.wireMinGap
  obtain ⟨s₃, t, hid, hmessage, hsent, h₃⟩ := h₂.draining
  exact ⟨s₃, t, hid, hmessage, (hgap.trans hwire).trans hsent, h₃⟩

/-! ### The end of an attempt -/

/-- Where the call is after an attempt with this verdict: it has returned the frame, is about to
try again, or has raised the error. -/
def Ended (cfg : SerialModel) (s : State) (id : CallId) (args : FetchArgs) (a : Attempt) :
    Except PyExc Bytes → Prop
  | .ok frame => s.calls id = some ⟨args, .finished (.ok frame)⟩ ∧ s.mutex = none ∧
      (s.conns a.conn).Holds []
  | .error e =>
      if a.number < cfg.maxRetries then s.At id args (a.next cfg) .interCommandGap []
      else s.calls id = some ⟨args, .finished (.error e)⟩

/-- A failed attempt that is not the last one: the sleep before the next one. -/
theorem State.At.backoff {wake : ℚ} (h : s.At id args a (.backoff wake) []) :
    ∃ s', Leads cfg k id s s' [] ∧
      s'.At id args (a.next cfg) .interCommandGap [] := by
  have hconn : (a.next cfg).conn = a.conn := rfl
  obtain ⟨s', clock, hwoken, hat⟩ := h.wake (fun _ => .interCommandGap) hconn
    (fun clock hclock => if_pos hclock) rfl rfl
  exact ⟨s', hwoken, hat⟩

/-- The last failed attempt: the connection is closed, the transport is lost, and the error
raised. -/
theorem exists_finished_of_reset {e : PyExc} (hc : s.calls id = some ⟨args, .resetting a.conn e⟩)
    (hclosed : (s.conns a.conn).waitClosed = none) (hopened : a.conn < s.nextConn)
    (hlose : k.environment s (.connectionLost a.conn none)) :
    ∃ s', Leads cfg k id s s' [] ∧ s'.calls id = some ⟨args, .finished (.error e)⟩ := by
  let t := s.setConn a.conn ((s.conns a.conn).lose none)
  have hlost : step cfg s (.connectionLost a.conn none) = some t :=
    if_pos ⟨hopened, (Connection.waitClosed_eq_none_iff.mp hclosed).2⟩
  have hct : t.calls id = some ⟨args, .resetting a.conn e⟩ := hc
  have htclosed : (t.conns a.conn).waitClosed = some none := by
    rw [State.setConn_conns, Function.update_self]
    refine Connection.waitClosed_lose fun e he => ?_
    cases hclosed.symm.trans he
  have hdone : resume cfg t id ⟨args, .resetting a.conn e⟩ (.resetting a.conn e) .ready =
      some (t.finish id ⟨args, .resetting a.conn e⟩ (.error e)) := by
    simp only [resume, htclosed]
  have hfollows : (⟨args, .resetting a.conn e⟩ : Call).Follows t (k.allowed t) .ready := by
    intro e he
    rw [htclosed] at he
    cases he
  have hrun : Reaches (step cfg) (Undisturbed k) s t :=
    .single (.connectionLost a.conn none) hlose hlost
  refine ⟨_, ⟨hrun.trans (reaches_resume hct hdone hfollows), fun j hj => ?_, rfl, rfl,
    (List.append_nil _).symm⟩, ?_⟩
  · exact Function.update_of_ne hj ..
  · exact Function.update_self ..

@[simp] theorem State.retryOr_transmissions (e : PyExc) :
    (s.retryOr cfg id c a e).transmissions = s.transmissions := by
  rw [State.retryOr]
  split_ifs <;> rfl

@[simp] theorem State.judge_transmissions (response : Bytes) :
    (s.judge cfg id c a response).transmissions = s.transmissions := by
  rw [State.judge]
  split_ifs
  · exact State.retryOr_transmissions _
  · rfl
  · exact State.retryOr_transmissions _

/-- The attempt may end with this outcome, and the connection be closed after the last one. -/
structure Permits (cfg : SerialModel) (k : Conditions) (s : State) (id : CallId) (a : Attempt)
    (o : Outcome) : Prop where
  allowed : ∀ t, Leads cfg k id s t [] → k.allowed t a o
  closes : (∀ frame, o ≠ .frame frame) → cfg.maxRetries ≤ a.number →
    ∀ t, k.environment t (.connectionLost a.conn none)

/-- **The way from a failed attempt** to the next one, or to the error. Which of the two is
decided by the number of the attempt. -/
theorem exists_ended_of_retryOr {stage : Stage} (e : PyExc) (hholds : (s.conns a.conn).Holds [])
    (hopened : a.conn < s.nextConn)
    (hlose : cfg.maxRetries ≤ a.number → ∀ t, k.environment t (.connectionLost a.conn none)) :
    ∃ s', Leads cfg k id (s.retryOr cfg id ⟨args, stage⟩ a e) s' [] ∧
      Ended cfg s' id args a (.error e) := by
  unfold State.retryOr Ended
  split_ifs with hn
  · exact State.At.backoff ⟨Function.update_self .., hholds, hopened⟩
  · refine exists_finished_of_reset (Function.update_self ..) ?_ hopened (hlose (not_lt.mp hn) _)
    rw [State.reset, State.goto_conns, State.setConn_conns, Function.update_self]
    exact hholds.closed

/-- There is a run to the end of the attempt with this outcome. -/
def EndsWith (cfg : SerialModel) (k : Conditions) (s : State) (id : CallId) (args : FetchArgs)
    (a : Attempt) (o : Outcome) : Prop :=
  ∃ s', Leads cfg k id s s' [] ∧ Ended cfg s' id args a (o.verdict cfg args)

section

variable {o : Outcome}

theorem Permits.of_leads (h : Permits cfg k s id a o) (hs : Leads cfg k id s s' []) :
    Permits cfg k s' id a o :=
  ⟨fun t ht => h.allowed t (hs.trans ht), h.closes⟩

theorem Leads.endsWith (h : Leads cfg k id s s' []) (hends : EndsWith cfg k s' id args a o) :
    EndsWith cfg k s id args a o := by
  obtain ⟨s'', hleads, hended⟩ := hends
  exact ⟨s'', h.trans hleads, hended⟩

theorem raiseInAttempt_of_retried {e : PyExc} (he : e.isRetried) :
    s.raiseInAttempt cfg id c a e = s.retryOr cfg id c a (exhaustedError cfg c.args e) := by
  cases e with
  | timeoutError | incompleteReadError => rfl
  | _ => exact he.elim

/-- An exception that the loop catches. -/
theorem State.At.endsWith_of_raise {e : PyExc} (h : s.At id args a p [])
    (hs : resumeAttempt cfg s id ⟨args, .attempting a p⟩ a p w =
      some (s.raiseInAttempt cfg id ⟨args, .attempting a p⟩ a e))
    (hfail : p.failure (s.conns a.conn) w = some e) (ho : Outcome.ofException e = some o)
    (hdrain : ∀ d, p ≠ .draining d) (hk : Permits cfg k s id a o) :
    EndsWith cfg k s id args a o := by
  obtain ⟨he, hverdict⟩ := Outcome.verdict_of_ofException cfg args ho
  have hfollows : (⟨args, .attempting a p⟩ : Call).Follows s (k.allowed s) w := by
    simp only [Call.Follows, Phase.attemptStep_of_failure hfail, Phase.caught_of_ne hdrain, ho]
    exact hk.allowed s (Leads.refl s)
  have hne (frame : Bytes) : o ≠ .frame frame := by
    rintro rfl
    cases hverdict
  rw [raiseInAttempt_of_retried he] at hs
  obtain ⟨s', hleads, hended⟩ := exists_ended_of_retryOr (exhaustedError cfg args e) h.holds
    h.opened (hk.closes hne)
  refine ⟨s', (h.resume hs hfollows ?_).then hleads, hverdict ▸ hended⟩
  rw [State.retryOr_transmissions, List.append_nil]

/-- The message has been written. -/
theorem State.At.flushed (h : s.At id args a .flushing xs) :
    ∃ s', Leads cfg k id s s' [] ∧
      s'.At id args a (.readingHeader (s.clock + cfg.headerTimeout)) xs := by
  have hs : resumeAttempt cfg s id ⟨args, .attempting a .flushing⟩ a .flushing .ready =
      some (s.goto id ⟨args, .attempting a .flushing⟩
        (.attempting a (.readingHeader (s.clock + cfg.headerTimeout)))) := rfl
  exact h.move rfl hs rfl rfl

/-- The header does not arrive. -/
theorem State.At.endsWith_of_deadline {d : ℚ} (h : s.At id args a (.readingHeader d) [])
    (hd : d ≤ s.clock) (hk : Permits cfg k s id a .timeout) :
    EndsWith cfg k s id args a .timeout := by
  have hs : resumeAttempt cfg s id ⟨args, .attempting a (.readingHeader d)⟩ a (.readingHeader d)
      .timedOut = some (s.raiseInAttempt cfg id ⟨args, .attempting a (.readingHeader d)⟩ a
        .timeoutError) :=
    if_pos ⟨Option.isNone_iff_eq_none.mpr h.holds.readexactly_eq_none, hd⟩
  exact h.endsWith_of_raise hs rfl rfl (by simp) hk

/-- Nothing arrives. -/
theorem State.At.endsWith_timeout (h : s.At id args a .flushing [])
    (hk : Permits cfg k s id a .timeout) :
    EndsWith cfg k s id args a .timeout := by
  obtain ⟨s₁, hflushed, h₁⟩ := h.flushed
  obtain ⟨clock, hclock, hwait⟩ :=
    exists_wait cfg k id s₁ (s.clock + cfg.headerTimeout)
  have hleads := hflushed.then hwait
  have hat : State.At { s₁ with clock := clock } id args a
      (.readingHeader (s.clock + cfg.headerTimeout)) [] := ⟨h₁.call, h₁.holds, h₁.opened⟩
  exact hleads.endsWith (hat.endsWith_of_deadline hclock (hk.of_leads hleads))

/-- The attempt ends with an incomplete read. The run takes it from the flush, whose wakeup may
raise any exception, so that the connection is idle afterwards whatever the environment allows
it to receive. The reads of the attempt raise it only at the end of the stream, which would end
all later attempts on the connection in the same way. -/
theorem State.At.endsWith_shortRead (h : s.At id args a .flushing [])
    (hk : Permits cfg k s id a .shortRead) :
    EndsWith cfg k s id args a .shortRead := by
  have hs : resumeAttempt cfg s id ⟨args, .attempting a .flushing⟩ a .flushing
      (.raised (.incompleteReadError [])) = some (s.raiseInAttempt cfg id
        ⟨args, .attempting a .flushing⟩ a (.incompleteReadError [])) := rfl
  exact h.endsWith_of_raise hs rfl rfl (by simp) hk

/-! ### Frames -/

/-- Bytes that the three reads of an attempt take as one frame. -/
def Readable (response : Bytes) : Prop :=
  ∃ b body lrc, ETX ∉ body ∧ body.length ≤ streamLimit ∧ response = b :: body ++ [ETX, lrc]

/-- Bytes arrive. -/
theorem State.At.receive {bs : Bytes} (h : s.At id args a p [])
    (hreceive : k.environment s (.receive a.conn bs)) :
    ∃ s', Leads cfg k id s s' [] ∧ s'.At id args a p bs := by
  have hs : step cfg s (.receive a.conn bs) =
      some (s.setConn a.conn ((s.conns a.conn).feed bs)) := if_pos ⟨h.opened, h.holds.closing⟩
  have hrun : Reaches (step cfg) (Undisturbed k) s _ :=
    .single (.receive a.conn bs) hreceive hs
  refine ⟨_, ⟨hrun, fun _ _ => rfl, rfl, rfl, (List.append_nil _).symm⟩, h.call, ?_, h.opened⟩
  rw [State.setConn_conns, Function.update_self]
  exact h.holds.feed bs

/-- A read of the attempt. -/
theorem State.At.read {n : Connection} (h : s.At id args a p xs)
    (hs : resumeAttempt cfg s id ⟨args, .attempting a p⟩ a p w =
      some ((s.setConn a.conn n).goto id ⟨args, .attempting a p⟩ (.attempting a p')))
    (hn : n.Holds ys) (hfail : p.failure (s.conns a.conn) w = none)
    (hframe : p.frameRead (s.conns a.conn) w = none) :
    ∃ s', Leads cfg k id s s' [] ∧ s'.At id args a p' ys := by
  refine ⟨_, h.resume hs (follows_of_none hfail hframe) (List.append_nil _).symm, ?_⟩
  refine ⟨Function.update_self .., ?_, h.opened⟩
  rw [State.goto_conns, State.setConn_conns, Function.update_self]
  exact hn

/-- The first byte of a frame. -/
theorem State.At.readHeader {b : UInt8} {d : ℚ} (h : s.At id args a (.readingHeader d) (b :: xs)) :
    ∃ s' d', Leads cfg k id s s' [] ∧ s'.At id args a (.readingBody [b] d') xs := by
  have hread := h.holds.readexactly_cons
  have hs : resumeAttempt cfg s id ⟨args, .attempting a (.readingHeader d)⟩ a (.readingHeader d)
      .ready = some ((s.setConn a.conn ((s.conns a.conn).consume 1)).goto id
        ⟨args, .attempting a (.readingHeader d)⟩
        (.attempting a (.readingBody [b] (s.clock + cfg.bodyTimeout)))) := by
    simp only [resumeAttempt, hread]
  have hfail : (Phase.readingHeader d).failure (s.conns a.conn) .ready = none := by
    rw [Phase.failure, hread, raisedBy]
    simp
  have hholds : (s.conns a.conn).Holds ([b] ++ xs) := h.holds
  obtain ⟨s', hleads, hat⟩ := h.read hs hholds.consume hfail rfl
  exact ⟨s', _, hleads, hat⟩

/-- The body of a frame. -/
theorem State.At.readBody {response body : Bytes} {lrc : UInt8} {d : ℚ}
    (h : s.At id args a (.readingBody response d) (body ++ [ETX, lrc])) (hbody : ETX ∉ body)
    (hlen : body.length ≤ streamLimit) :
    ∃ s' d', Leads cfg k id s s' [] ∧
      s'.At id args a (.readingChecksum (response ++ (body ++ [ETX])) d') [lrc] := by
  have hread := h.holds.readuntil_append hbody hlen
  have hs : resumeAttempt cfg s id ⟨args, .attempting a (.readingBody response d)⟩ a
      (.readingBody response d) .ready =
        some ((s.setConn a.conn ((s.conns a.conn).consume (body ++ [ETX]).length)).goto id
        ⟨args, .attempting a (.readingBody response d)⟩ (.attempting a
          (.readingChecksum (response ++ (body ++ [ETX])) (s.clock + cfg.checksumTimeout)))) := by
    simp only [resumeAttempt, hread]
  have hfail : (Phase.readingBody response d).failure (s.conns a.conn) .ready = none := by
    rw [Phase.failure, hread, raisedBy]
    simp
  have hholds : (s.conns a.conn).Holds ((body ++ [ETX]) ++ [lrc]) := by
    simpa using h.holds
  obtain ⟨s', hleads, hat⟩ := h.read hs hholds.consume hfail rfl
  exact ⟨s', _, hleads, hat⟩

/-- A frame arrives and is read up to its last byte. -/
theorem State.At.exists_received {response : Bytes} (h : s.At id args a .flushing [])
    (hresponse : Readable response)
    (hreceive : ∀ t d, Leads cfg k id s t [] → t.At id args a (.readingHeader d) [] →
      k.environment t (.receive a.conn response)) :
    ∃ s' front lrc d, response = front ++ [lrc] ∧ Leads cfg k id s s' [] ∧
      s'.At id args a (.readingChecksum front d) [lrc] := by
  obtain ⟨b, body, lrc, hbody, hlen, rfl⟩ := hresponse
  obtain ⟨s₁, hflushed, h₁⟩ := h.flushed
  obtain ⟨s₂, hreceived, h₂⟩ := h₁.receive (hreceive s₁ _ hflushed h₁)
  obtain ⟨s₃, d, hheader, h₃⟩ := h₂.readHeader
  obtain ⟨s₄, d', hchunk, h₄⟩ := h₃.readBody hbody hlen
  refine ⟨s₄, _, lrc, d', ?_, ((hflushed.trans hreceived).trans hheader).trans hchunk, h₄⟩
  simp

/-- The call is where a judged frame leaves it. -/
theorem exists_ended_of_judge {stage : Stage} (response : Bytes)
    (hholds : (s.conns a.conn).Holds []) (hopened : a.conn < s.nextConn)
    (hclose : (∀ frame, Outcome.ofFrame args response ≠ .frame frame) →
      cfg.maxRetries ≤ a.number → ∀ t, k.environment t (.connectionLost a.conn none)) :
    EndsWith cfg k (s.judge cfg id ⟨args, stage⟩ a response) id args a
      (.ofFrame args response) := by
  unfold Outcome.ofFrame at hclose
  unfold State.judge Outcome.ofFrame
  split_ifs at hclose ⊢ with hvalid haccepts
  · exact exists_ended_of_retryOr _ hholds hopened (hclose (by simp))
  · exact ⟨_, Leads.refl _, Function.update_self .., rfl, hholds⟩
  · exact exists_ended_of_retryOr _ hholds hopened (hclose (by simp))

/-- The last byte of a frame. -/
theorem State.At.endsWith_of_lrc {front : Bytes} {lrc : UInt8} {d : ℚ}
    (h : s.At id args a (.readingChecksum front d) [lrc])
    (hk : Permits cfg k s id a (.ofFrame args (front ++ [lrc]))) :
    EndsWith cfg k s id args a (.ofFrame args (front ++ [lrc])) := by
  have hread := h.holds.readexactly_cons
  let u := (s.setConn a.conn ((s.conns a.conn).consume 1)).complete id
  let c : Call := ⟨args, .attempting a (.readingChecksum front d)⟩
  have hs : resumeAttempt cfg s id c a (.readingChecksum front d) .ready =
      some (u.judge cfg id c a (front ++ [lrc])) := by
    simp only [resumeAttempt, hread]
    rfl
  have hfail : (Phase.readingChecksum front d).failure (s.conns a.conn) .ready = none := by
    rw [Phase.failure, hread, raisedBy]
    simp
  have hframe : (Phase.readingChecksum front d).frameRead (s.conns a.conn) .ready =
      some (front ++ [lrc]) := by
    rw [Phase.frameRead, hread]
  have hfollows : c.Follows s (k.allowed s) .ready := by
    simp only [Call.Follows, c, Phase.attemptStep_of_frame hfail hframe]
    exact hk.allowed s (Leads.refl s)
  have hsent : (u.judge cfg id c a (front ++ [lrc])).transmissions = s.transmissions ++ [] := by
    rw [State.judge_transmissions, List.append_nil]
    exact State.complete_transmissions _ id
  have hholds : (u.conns a.conn).Holds [] := by
    have hlrc : (s.conns a.conn).Holds ([lrc] ++ []) := h.holds
    simpa [u] using hlrc.consume
  exact (h.resume hs hfollows hsent).endsWith (exists_ended_of_judge _ hholds h.opened hk.closes)

/-- A frame arrives and is judged. -/
theorem State.At.endsWith_of_frame {response : Bytes} (h : s.At id args a .flushing [])
    (hresponse : Readable response)
    (hreceive : ∀ t d, Leads cfg k id s t [] → t.At id args a (.readingHeader d) [] →
      k.environment t (.receive a.conn response))
    (hk : Permits cfg k s id a (.ofFrame args response)) :
    EndsWith cfg k s id args a (.ofFrame args response) := by
  obtain ⟨t, front, lrc, d, rfl, hleads, hat⟩ := h.exists_received hresponse hreceive
  exact hleads.endsWith (hat.endsWith_of_lrc (hk.of_leads hleads))

end

end IoBoard
