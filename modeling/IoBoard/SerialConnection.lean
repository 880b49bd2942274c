import IoBoard.Commands
import IoBoard.SerialSafety

/-!
# The Cached Connection

The globals of `serial_io` keep one connection for all calls. A call that finds it closing
awaits `wait_closed` before it opens the port again, and clears the globals only after that
await. All these awaits share one future of the stream protocol, and a future that is done
keeps its outcome: once `wait_closed` has raised, it raises every time, and the connection
stays cached.

## Two ways to spoil the future

* The transport is lost with an exception while it is cached: `wait_closed` raises that
  exception from then on.
* A call is cancelled while it awaits the future, before a reopen or in the reset of the
  outer `except` clause: the cancellation of the task cancels the future with it, and
  `wait_closed` raises `CancelledError` from then on, into tasks that nobody has cancelled.

Every other failure is harmless: openings that fail, timeouts, cancellations at any other
await, and the loss of a connection that is not cached any more or of a cached one without
an exception. The globals are cleared on one path only, so a spoiled connection is never
given up; the port is free, but nothing asks for it until the process is restarted.

## Main results

* `cacheInv_of_reachable`: what the stages of the calls say about the cache, in every run.
* `Stuck.step`: **once stuck, always stuck** — no later call opens the port or reuses a
  connection.
* `connects_iff`: **calls keep connecting in exactly the runs whose steps all keep the cached
  connection** (`KeepsCached`).
-/

open Runs

namespace IoBoard

variable {cfg : SerialModel} {s s' : State} {id : CallId} {c : Call} {stage stage' : Stage}
  {act : Action}

/-! ### The cache -/

/-- What a resumption does to the cache: it leaves it as it is, clears it to open the port,
or caches the connection it has opened. -/
theorem Resumed.connection_cases (h : Resumed cfg s id c stage stage' s') :
    (s'.connection = s.connection ∧ s'.nextConn = s.nextConn) ∨
    (s'.connection = none ∧ s'.nextConn = s.nextConn) ∨
    (stage = .opening ∧ s'.connection = some s.nextConn ∧ s'.nextConn = s.nextConn + 1) := by
  cases h with
  | startOpen => exact .inr (.inl ⟨rfl, rfl⟩)
  | opened | lowLatencyFailed => exact .inr (.inr ⟨rfl, rfl, rfl⟩)
  | _ => exact .inl ⟨rfl, rfl⟩

/-- What a stage says about the cache: an attempt uses the cached connection, a call waits only for
a cached connection that is closing, and opens the port only when none is cached. The stages
outside the block say nothing, and so does a call that has not looked yet. -/
def UsesCached (s : State) : Stage → Prop
  | .attempting a _ => s.connection = some a.conn
  | .awaitingClose n | .resetting n _ => s.connection = some n ∧ (s.conns n).closing = true
  | .opening => s.connection = none
  | _ => True

/-- Outside the block a stage says nothing about the cache. -/
theorem usesCached_of_not_critical (h : ¬ stage.isCritical) : UsesCached s stage := by
  cases stage with
  | acquiring | finished => trivial
  | _ => exact absurd trivial h

/-- The resumed call goes on using the cached connection. -/
theorem UsesCached.resumed (h : UsesCached s stage)
    (hr : Resumed cfg s id c stage stage' s') : UsesCached s' stage' := by
  cases hr with
  | moved hm =>
      cases hm with
      | awaitClose hn hc => exact ⟨hn, hc⟩
      | _ => exact h
  | reused hn => exact hn
  | startOpen => rfl
  | opened => rfl
  | failed | rejected => exact ⟨h, by simp [Connection.close]⟩
  | read | transmitted | retried | discarded => exact h
  | _ => trivial

/-- The stages keep to the cache while it stays as it is and no transport reopens. -/
theorem UsesCached.mono (h : UsesCached s stage) (hconn : s'.connection = s.connection)
    (hclosing : ∀ n, (s.conns n).closing = true → (s'.conns n).closing = true) :
    UsesCached s' stage := by
  cases stage with
  | attempting | opening => exact hconn.trans h
  | awaitingClose | resetting => exact ⟨hconn.trans h.1, hclosing _ h.2⟩
  | _ => trivial

/-- A transport that closes goes on closing. -/
theorem closing_of_stepped (h : Stepped cfg s act s') {n : ConnId}
    (hn : (s.conns n).closing = true) : (s'.conns n).closing = true := by
  have kept {m : ConnId} {k : Connection} (hk : (s.conns m).closing = true → k.closing = true) :
      ((s.setConn m k).conns n).closing = true :=
    s.setConn_rel (R := fun n n' => n.closing = true → n'.closing = true) (fun _ hn => hn) hk n hn
  cases h with
  | resumed _ hr => exact (hr.conns_used n).closing hn
  | @cancelled id c =>
      obtain ⟨m, b, heq⟩ := s.exists_cancelWaiter c.stage
      rw [heq]
      exact kept fun hk => hk
  | received => exact kept fun hk => hk
  | closing | lost => exact kept fun _ => rfl
  | called | cancelledWaiting | ticked => exact hn

/-- The invariant of the cache: the stages tell what is cached, only an opened connection is, and
nothing has happened to those that are not opened yet. -/
structure CacheInv (s : State) : Prop where
  caches : ∀ id c, s.calls id = some c → UsesCached s c.stage
  bound : ∀ n, s.connection = some n → n < s.nextConn
  fresh : ∀ n, s.nextConn ≤ n → (s.conns n).waitClosed = none

/-- The connection whose closing a call awaits at the stage: before a reopen, or in the reset after
a failed attempt. -/
def Stage.awaitsClose : Stage → Option ConnId
  | .awaitingClose n | .resetting n _ => some n
  | _ => none

/-- A call awaits the closing of the cached connection only. So a cancellation can spoil no future
but the one that matters. -/
theorem UsesCached.awaitsClose {n : ConnId} (h : UsesCached s stage)
    (hn : stage.awaitsClose = some n) : s.connection = some n ∧ (s.conns n).closing = true := by
  cases stage with
  | awaitingClose | resetting =>
      obtain rfl := Option.some.inj hn
      exact h
  | _ => cases hn

/-- A cancellation changes the connection that its call awaits, if any. -/
theorem cancelWaiter_conns_eq (stage : Stage) (n : ConnId) :
    (s.cancelWaiter stage).conns n =
      if stage.awaitsClose = some n then (s.conns n).cancelWaiter else s.conns n := by
  cases stage with
  | awaitingClose m | resetting m =>
      by_cases hm : m = n
      · subst hm
        exact (Function.update_self ..).trans (if_pos rfl).symm
      · exact (Function.update_of_ne (Ne.symm hm) ..).trans
          (if_neg fun h => hm (Option.some.inj h)).symm
  | _ => rfl

/-- Steps outside the calls keep what is said of connections that are not opened. -/
theorem CacheInv.fresh_setConn (h : CacheInv s) {n : ConnId} (hn : n < s.nextConn)
    (k : Connection) : ∀ m, s.nextConn ≤ m → ((s.setConn n k).conns m).waitClosed = none := by
  intro m hm
  have hne : m ≠ n := fun hmn => absurd hm (not_le.mpr (hmn ▸ hn))
  rw [State.setConn_conns, Function.update_of_ne hne]
  exact h.fresh m hm

/-- Every step keeps the invariant of the cache. -/
theorem CacheInv.step (h : CacheInv s) (ho : Owned s) (hs : Stepped cfg s act s') :
    CacheInv s' := by
  have hclosing : ∀ n, (s.conns n).closing = true → (s'.conns n).closing = true :=
    fun n => closing_of_stepped hs
  cases hs with
  | called =>
      exact ⟨forall_calls_update trivial fun j d _ hj => h.caches j d hj, h.bound, h.fresh⟩
  | @resumed id _ c stage' _ hc hr =>
      have hcaches : ∀ j d, s'.calls j = some d → UsesCached s' d.stage := by
        rw [hr.calls_eq]
        exact forall_calls_update ((h.caches id c hc).resumed hr) fun j d hji hj =>
          usesCached_of_not_critical (ho.others hc hr hj hji)
      have hfresh : ∀ n, s.nextConn ≤ n → (s'.conns n).waitClosed = none :=
        fun n hn => (hr.conns_used n).waitClosed.trans (h.fresh n hn)
      obtain ⟨hconn, hnext⟩ | ⟨hconn, hnext⟩ | ⟨-, hconn, hnext⟩ := hr.connection_cases
      · exact ⟨hcaches, hconn ▸ hnext ▸ h.bound, hnext ▸ hfresh⟩
      · refine ⟨hcaches, fun n hn => ?_, hnext ▸ hfresh⟩
        cases hconn.symm.trans hn
      · refine ⟨hcaches, fun n hn => ?_,
          fun n hn => hfresh n (Nat.le_of_succ_le (hnext.symm.trans_le hn))⟩
        obtain rfl := Option.some.inj (hconn.symm.trans hn)
        exact hnext ▸ Nat.lt_succ_self _
  | cancelledWaiting =>
      exact ⟨forall_calls_update trivial fun j d _ hj => h.caches j d hj, h.bound, h.fresh⟩
  | @cancelled id c hc =>
      refine ⟨forall_calls_update trivial fun j d _ hj => (h.caches j d hj).mono rfl hclosing,
        h.bound, fun n hn => ?_⟩
      have hne : c.stage.awaitsClose ≠ some n := fun hn' =>
        absurd hn (not_le.mpr (h.bound n ((h.caches id c hc).awaitsClose hn').1))
      rw [State.finish_conns, State.goto_conns, cancelWaiter_conns_eq, if_neg hne]
      exact h.fresh n hn
  | ticked => exact ⟨h.caches, h.bound, h.fresh⟩
  | received hn | closing hn | lost hn =>
      exact ⟨fun j d hj => (h.caches j d hj).mono rfl hclosing, h.bound, h.fresh_setConn hn _⟩

theorem cacheInv_of_reachable (h : Reachable cfg s) : CacheInv s := by
  refine h.induct ⟨forall_calls_start, nofun, fun _ _ => rfl⟩ ?_
  intro t _ t' hr ih _ ht
  exact ih.step (owned_of_reachable hr) (stepped_of_step ht)

/-- Every call that is inside the block uses the cached connection, if any. -/
theorem usesCached_of_reachable (h : Reachable cfg s) :
    ∀ id c, s.calls id = some c → UsesCached s c.stage :=
  (cacheInv_of_reachable h).caches

/-! ### Calls that reach a connection -/

/-- The call has asked for the port, or has reused a live connection. Whether the port could be
opened is up to the device; the call has done what it can. -/
def State.Tried (s : State) (id : CallId) : Prop :=
  .opening id ∈ s.log ∨ .reuse id ∈ s.log

/-- What was tried stays tried. -/
theorem State.Tried.mono {more : List Event} (h : s.Tried id) (hl : s'.log = s.log ++ more) :
    s'.Tried id := by
  rw [State.Tried, hl]
  exact h.imp (List.mem_append_left more) (List.mem_append_left more)

/-- The log only grows. -/
theorem Resumed.log_append (h : Resumed cfg s id c stage stage' s') :
    ∃ more, s'.log = s.log ++ more := by
  obtain ⟨-, ⟨-, -, hl | hl | hl⟩ | ⟨a, d, -, rfl⟩ | ⟨-, -, hl⟩⟩ := h.booked_cases
  · exact ⟨[], hl.trans (List.append_nil _).symm⟩
  · exact ⟨_, hl⟩
  · exact ⟨_, hl⟩
  · exact ⟨_, rfl⟩
  · exact ⟨_, hl⟩

/-- The step leaves it to the loop to close the cached connection: it does not lose it with an
exception, and it does not cancel a call that awaits its closing while that is still pending. -/
def KeepsCached (s : State) : Action → Prop
  | .connectionLost n (some _) => s.connection ≠ some n
  | .cancel id => ∀ c n, s.calls id = some c → c.stage.awaitsClose = some n →
      (s.conns n).closed.isSome
  | _ => True

/-- The closing of the cached connection can be awaited: it has not raised yet. It may still be
pending, or nobody may have closed the connection at all. -/
def Clean (s : State) : Prop :=
  ∀ n e, s.connection = some n → (s.conns n).waitClosed ≠ some (some e)

/-- An update of a connection that does not spoil its closing leaves the cache clean. -/
theorem Clean.setConn (h : Clean s) {n : ConnId} {k : Connection}
    (hk : ∀ e, s.connection = some n → k.waitClosed ≠ some (some e)) : Clean (s.setConn n k) := by
  intro m e hm
  by_cases hmn : m = n
  · subst hmn
    rw [State.setConn_conns, Function.update_self]
    exact hk e hm
  · rw [State.setConn_conns, Function.update_of_ne hmn]
    exact h m e hm

/-- The cache stays clean as long as the steps keep the cached connection. A connection is cached
when it is opened, and then nothing has happened to it. -/
theorem Clean.step (h : Clean s) (hi : CacheInv s) (hk : KeepsCached s act)
    (hs : Stepped cfg s act s') : Clean s' := by
  cases hs with
  | resumed hc hr =>
      intro n e hn
      rw [(hr.conns_used n).waitClosed]
      obtain ⟨hconn, -⟩ | ⟨hconn, -⟩ | ⟨-, hconn, -⟩ := hr.connection_cases
      · exact h n e (hconn ▸ hn)
      · cases hconn.symm.trans hn
      · obtain rfl := Option.some.inj (hconn.symm.trans hn)
        rw [hi.fresh _ le_rfl]
        exact (Option.some_ne_none _).symm
  | @cancelled id c hc =>
      intro n e hn
      rw [State.finish_conns, State.goto_conns, cancelWaiter_conns_eq]
      split_ifs with hawaits
      · -- the future is done, and so it is not cancelled
        have hdone := hk c n hc hawaits
        rw [Connection.cancelWaiter, if_neg (by simpa using Option.isSome_iff_ne_none.mp hdone)]
        exact h n e hn
      · exact h n e hn
  | @received n | @closing n => exact h.setConn fun e hn => h n e hn
  | @lost n exc =>
      cases exc with
      | none =>
          refine h.setConn fun e hn => ?_
          rw [Connection.waitClosed_lose fun e => h n e hn]
          simp
      | some e => exact h.setConn fun _ hn => absurd hn hk
  | _ => exact h

/-- Which calls have tried: all that are beyond `get_serial_connection`, unless they were
cancelled. The stages before it are bound to try. -/
def TriedAt (s : State) (id : CallId) : Stage → Prop
  | .acquiring | .connecting | .awaitingClose _ => True
  | .finished r => r = .error .cancelledError ∨ s.Tried id
  | _ => s.Tried id

/-- The calls of a longer log have tried no less. -/
theorem TriedAt.mono {more : List Event} (h : TriedAt s id stage)
    (hl : s'.log = s.log ++ more) : TriedAt s' id stage := by
  cases stage with
  | acquiring | connecting | awaitingClose => trivial
  | finished => exact h.imp_right fun ht => ht.mono hl
  | opening | attempting | resetting => exact State.Tried.mono h hl

/-- With a clean cache a call that is resumed does not get past `get_serial_connection`
without trying. -/
theorem TriedAt.resumed (h : TriedAt s id stage) (hclean : Clean s)
    (hcache : UsesCached s stage) (hr : Resumed cfg s id c stage stage' s') :
    TriedAt s' id stage' := by
  cases hr with
  | acquired => trivial
  | moved hm =>
      cases hm with
      | awaitClose => trivial
      | _ => exact h
  | reused => exact .inr (List.mem_append_right _ (List.mem_singleton_self _))
  | startOpen => exact .inl (List.mem_append_right _ (List.mem_singleton_self _))
  | closeRaised hclosed => exact absurd hclosed (hclean _ _ hcache.1)
  | cancelledInside => exact .inl rfl
  | openFailed | lowLatencyFailed | resetDone => exact .inr h
  | accepted => exact .inr (State.Tried.mono h rfl)
  | transmitted | discarded | rejected => exact State.Tried.mono h rfl
  | opened | read | retried | failed => exact h

/-- The invariant of the runs that keep the cached connection: it is clean, and calls do not
fail before they have tried. -/
structure TriedInv (s : State) : Prop where
  clean : Clean s
  tried : ∀ id c, s.calls id = some c → TriedAt s id c.stage

/-- Every step that keeps the cached connection keeps the invariant. -/
theorem TriedInv.step (h : TriedInv s) (hi : CacheInv s) (hk : KeepsCached s act)
    (hs : Stepped cfg s act s') : TriedInv s' := by
  refine ⟨h.clean.step hi hk hs, ?_⟩
  cases hs with
  | called => exact forall_calls_update trivial fun j d _ hj => h.tried j d hj
  | @resumed id _ c stage' _ hc hr =>
      obtain ⟨more, hl⟩ := hr.log_append
      rw [hr.calls_eq]
      exact forall_calls_update ((h.tried id c hc).resumed h.clean (hi.caches id c hc) hr)
        fun j d _ hj => (h.tried j d hj).mono hl
  | cancelledWaiting | cancelled =>
      exact forall_calls_update (.inl rfl) fun j d _ hj => h.tried j d hj
  | ticked | received | closing | lost => exact h.tried

/-- **Calls keep trying.** The invariant holds as long as every step keeps the cached
connection. -/
theorem triedInv_of_reaches (h : Reaches (step cfg) KeepsCached {} s) : TriedInv s := by
  refine h.induct ⟨nofun, forall_calls_start⟩ ?_
  intro t _ t' hr ih hk ht
  exact ih.step (cacheInv_of_reachable (hr.mono fun _ _ _ => trivial)) hk (stepped_of_step ht)

/-! ### The next call reaches a connection -/

/-- The steps of one call with an event loop that serves it: the call enters, is resumed, and a
transport that closes is lost without an exception. No other call takes part, and nobody is
cancelled. -/
def Serves (id : CallId) (args : FetchArgs) (_ : State) : Action → Prop
  | .call j a => j = id ∧ a = args
  | .resume j _ => j = id
  | .connectionLost _ none => True
  | _ => False

/-- A call whose connection has been closed asks for the port. -/
theorem tries_of_closed (cfg : SerialModel) {args : FetchArgs} {n : ConnId}
    (hc : s.calls id = some ⟨args, .awaitingClose n⟩)
    (hclosed : (s.conns n).waitClosed = some none) :
    ∃ s', Reaches (step cfg) (Serves id args) s s' ∧ s'.Tried id := by
  have hstep : step cfg s (.resume id .ready) = some
      (({ s with connection := none }.record (.opening id)).goto id
        ⟨args, .awaitingClose n⟩ .opening) := by
    simp only [step, hc, Option.bind_some, resume, hclosed]
  exact ⟨_, .single (.resume id .ready) rfl hstep,
    .inl (List.mem_append_right _ (List.mem_singleton_self _))⟩

/-- A call that awaits the closing of a connection asks for the port in the end: the loop loses the
transport first, if it has not yet. -/
theorem tries_of_awaitingClose (cfg : SerialModel) {args : FetchArgs} {n : ConnId}
    (hc : s.calls id = some ⟨args, .awaitingClose n⟩) (hn : n < s.nextConn)
    (hclean : ∀ e, (s.conns n).waitClosed ≠ some (some e)) :
    ∃ s', Reaches (step cfg) (Serves id args) s s' ∧ s'.Tried id := by
  cases hclosed : (s.conns n).waitClosed with
  | some exc =>
      cases exc with
      | none => exact tries_of_closed cfg hc hclosed
      | some e => exact absurd hclosed (hclean e)
  | none =>
      have hlost : (s.conns n).closed = none := (Connection.waitClosed_eq_none_iff.mp hclosed).2
      have hstep : step cfg s (.connectionLost n none) =
          some (s.setConn n ((s.conns n).lose none)) := by
        simp only [step, hn, hlost, and_self, if_true]
      obtain ⟨s', hs', ht⟩ := tries_of_closed cfg
        (s := s.setConn n ((s.conns n).lose none)) hc
        (by simpa using Connection.waitClosed_lose hclean)
      exact ⟨s', (Reaches.single (.connectionLost n none) trivial hstep).trans hs', ht⟩

/-- A call that has the mutex reuses a live connection or asks for the port. -/
theorem tries_of_connecting (cfg : SerialModel) {args : FetchArgs}
    (hc : s.calls id = some ⟨args, .connecting⟩)
    (hbound : ∀ n, s.connection = some n → n < s.nextConn) (hclean : Clean s) :
    ∃ s', Reaches (step cfg) (Serves id args) s s' ∧ s'.Tried id := by
  have hstep : step cfg s (.resume id .ready) =
      some (s.getSerialConnection cfg id ⟨args, .connecting⟩) := by
    simp only [step, hc, Option.bind_some, resume]
  have hone := Reaches.single (C := Serves id args) (.resume id .ready) rfl hstep
  unfold State.getSerialConnection at hone
  cases hn : s.connection with
  | none =>
      simp only [hn] at hone
      exact ⟨_, hone, .inl (List.mem_append_right _ (List.mem_singleton_self _))⟩
  | some n =>
      simp only [hn] at hone
      cases hclosing : (s.conns n).closing with
      | false =>
          simp only [hclosing, Bool.false_eq_true, if_false] at hone
          exact ⟨_, hone, .inr (List.mem_append_right _ (List.mem_singleton_self _))⟩
      | true =>
          simp only [hclosing, if_true] at hone
          obtain ⟨s', hs', ht⟩ := tries_of_awaitingClose cfg
            (s := s.goto id ⟨args, .connecting⟩ (.awaitingClose n)) (Function.update_self ..)
            (hbound n hn) (hclean n · hn)
          exact ⟨s', hone.trans hs', ht⟩

/-- **The next call connects.** From a clean state with a free mutex a call that enters
reuses a live connection or asks for the port. -/
theorem tries_of_free (cfg : SerialModel) (args : FetchArgs) (hm : s.mutex = none)
    (hnew : s.calls id = none) (hi : CacheInv s) (hclean : Clean s) :
    ∃ s', Reaches (step cfg) (Serves id args) s s' ∧ s'.Tried id := by
  have hcall : step cfg s (.call id args) = some (s.goto id ⟨args, .acquiring⟩ .acquiring) := by
    simp only [step, hnew, Option.isNone_none, if_true]
  have hlock : step cfg (s.goto id ⟨args, .acquiring⟩ .acquiring) (.resume id .ready) = some
      { (s.goto id ⟨args, .acquiring⟩ .acquiring).goto id ⟨args, .acquiring⟩ .connecting with
        mutex := some id } := by
    simp [step, resume, hm]
  obtain ⟨s', hs', ht⟩ := tries_of_connecting cfg
    (s := { (s.goto id ⟨args, .acquiring⟩ .acquiring).goto id ⟨args, .acquiring⟩ .connecting with
      mutex := some id }) (Function.update_self ..) hi.bound hclean
  have hone : Reaches (step cfg) (Serves id args) s _ := .single (.call id args) ⟨rfl, rfl⟩ hcall
  have htwo : Reaches (step cfg) (Serves id args) _ _ := .single (.resume id .ready) rfl hlock
  exact ⟨s', (hone.trans htwo).trans hs', ht⟩

/-! ### A cached connection whose closing raises -/

/-- Awaiting the closing of the cached connection raises. Every call that gets the mutex finds the
connection closing, awaits it, and fails with this exception before it has tried. -/
structure Stuck (s : State) (n : ConnId) (e : PyExc) : Prop where
  cached : s.connection = some n
  closing : (s.conns n).closing = true
  raises : (s.conns n).waitClosed = some (some e)

/-- A connection that is lost with an exception never closes without one. -/
theorem Connection.exists_waitClosed_lose (n : Connection) (e : PyExc) :
    ∃ e', (n.lose (some e)).waitClosed = some (some e') := by
  rw [waitClosed]
  split_ifs
  · exact ⟨_, rfl⟩
  · exact ⟨e, rfl⟩

/-- A step that does not keep the cached connection leaves it stuck. -/
theorem stuck_of_not_keepsCached (hi : CacheInv s) (hk : ¬ KeepsCached s act)
    (hs : Stepped cfg s act s') : ∃ n e, Stuck s' n e := by
  cases hs with
  | @lost n exc hn hclosed =>
      cases exc with
      | none => exact absurd trivial hk
      | some e =>
          obtain ⟨e', he'⟩ := (s.conns n).exists_waitClosed_lose e
          refine ⟨n, e', not_not.mp hk, ?_, ?_⟩ <;> rw [State.setConn_conns, Function.update_self]
          · rfl
          · exact he'
  | cancelledWaiting hc hstage =>
      refine absurd (fun d n hd hn => ?_) hk
      obtain rfl := Option.some.inj (hc.symm.trans hd)
      rw [hstage] at hn
      cases hn
  | @cancelled id c hc =>
      have hawaits : ∃ n, c.stage.awaitsClose = some n ∧ (s.conns n).closed = none := by
        by_contra hno
        refine hk fun d n hd hn => ?_
        obtain rfl := Option.some.inj (hc.symm.trans hd)
        exact Option.isSome_iff_ne_none.mpr fun hnone => hno ⟨n, hn, hnone⟩
      obtain ⟨n, hn, hnone⟩ := hawaits
      obtain ⟨hcached, hclosing⟩ := (hi.caches id c hc).awaitsClose hn
      have hconn : (s.cancelWaiter c.stage).conns n =
          { s.conns n with closeCancelled := true } := by
        rw [cancelWaiter_conns_eq, if_pos hn, Connection.cancelWaiter,
          if_pos (Option.isNone_iff_eq_none.mpr hnone)]
      refine ⟨n, .cancelledError, hcached, ?_, ?_⟩ <;>
        rw [State.finish_conns, State.goto_conns, hconn]
      · exact hclosing
      · rfl
  | _ => exact absurd trivial hk

/-- In a stuck state no resumption changes the cache, and none reaches a connection: the globals
are cleared behind the await that raises. -/
theorem Stuck.resumed {n : ConnId} {e : PyExc} (h : Stuck s n e) (hcache : UsesCached s stage)
    (hr : Resumed cfg s id c stage stage' s') :
    s'.connection = s.connection ∧ ∀ j, s'.Tried j → s.Tried j := by
  have notOpening : stage ≠ .opening := by
    rintro rfl
    cases h.cached.symm.trans hcache
  cases hr with
  | @reused m hm hclosing =>
      obtain rfl := Option.some.inj (h.cached.symm.trans hm)
      cases h.closing.symm.trans hclosing
  | startOpen hst =>
      obtain ⟨-, hnone⟩ | ⟨m, rfl, hclosed⟩ := hst
      · cases h.cached.symm.trans hnone
      · obtain rfl := Option.some.inj (h.cached.symm.trans hcache.1)
        cases h.raises.symm.trans hclosed
  | opened | openFailed | lowLatencyFailed => exact absurd rfl notOpening
  | transmitted | accepted | discarded | rejected =>
      exact ⟨rfl, fun j ht => by simpa [State.Tried] using ht⟩
  | _ => exact ⟨rfl, fun _ ht => ht⟩

/-- A future that has an exception keeps it. -/
theorem Connection.waitClosed_cancelWaiter {n : Connection} {e : PyExc}
    (h : n.waitClosed = some (some e)) : n.cancelWaiter.waitClosed = some (some e) := by
  rw [cancelWaiter]
  split_ifs with hnone
  · rw [waitClosed] at h ⊢
    split_ifs at h with hb
    · exact h
    · rw [h] at hnone
      cases hnone
  · exact h

/-- **Once stuck, always stuck.** No step clears a cached connection whose closing raises, and
no call reaches a connection any more. -/
theorem Stuck.step {n : ConnId} {e : PyExc} (h : Stuck s n e) (hi : CacheInv s)
    (hs : Stepped cfg s act s') : (∃ e', Stuck s' n e') ∧ ∀ j, s'.Tried j → s.Tried j := by
  have kept {m : ConnId} {k : Connection} (hclosing : (s.conns m).closing = true →
      k.closing = true) (hraises : ∀ e, (s.conns m).waitClosed = some (some e) →
        ∃ e', k.waitClosed = some (some e')) : ∃ e', Stuck (s.setConn m k) n e' := by
    by_cases hm : n = m
    · subst hm
      obtain ⟨e', he'⟩ := hraises e h.raises
      exact ⟨e', h.cached, by simpa using hclosing h.closing, by simpa using he'⟩
    · exact ⟨e, h.cached, by simpa [Function.update_of_ne hm] using h.closing,
        by simpa [Function.update_of_ne hm] using h.raises⟩
  cases hs with
  | @resumed id _ c stage' _ hc hr =>
      obtain ⟨hconn, htried⟩ := h.resumed (hi.caches id c hc) hr
      have hu := hr.conns_used n
      exact ⟨⟨e, hconn.trans h.cached, hu.closing h.closing, hu.waitClosed.trans h.raises⟩, htried⟩
  | @cancelled id c =>
      refine ⟨⟨e, h.cached, ?_, ?_⟩, fun _ ht => ht⟩ <;>
        rw [State.finish_conns, State.goto_conns, cancelWaiter_conns_eq] <;> split_ifs
      · rw [Connection.cancelWaiter]
        split_ifs <;> exact h.closing
      · exact h.closing
      · exact Connection.waitClosed_cancelWaiter h.raises
      · exact h.raises
  | received => exact ⟨kept id fun e he => ⟨e, he⟩, fun _ => id⟩
  | closing => exact ⟨kept (fun _ => rfl) fun e he => ⟨e, he⟩, fun _ ht => ht⟩
  | @lost m exc hn hclosed =>
      refine ⟨kept (fun _ => rfl) fun e he => ⟨e, ?_⟩, fun _ ht => ht⟩
      -- a future that has an outcome keeps it when the transport is lost
      rw [Connection.waitClosed] at he
      split_ifs at he with hb
      · rw [Connection.waitClosed]
        exact (if_pos hb).trans he
      · cases hclosed.symm.trans he
  | called | cancelledWaiting | ticked =>
      exact ⟨⟨e, h.cached, h.closing, h.raises⟩, fun _ ht => ht⟩

/-- From a stuck state only calls that had tried before have ever tried. -/
theorem Stuck.reaches {n : ConnId} {e : PyExc} (h : Stuck s n e) (hs : Reachable cfg s)
    (hr : Reaches (IoBoard.step cfg) Any s s') :
    (∃ e', Stuck s' n e') ∧ ∀ j, s'.Tried j → s.Tried j := by
  refine hr.induct (P := fun t => (∃ e', Stuck t n e') ∧ ∀ j, t.Tried j → s.Tried j)
    ⟨⟨e, h⟩, fun _ ht => ht⟩ ?_
  intro t _ t' hst ⟨⟨e', hstuck⟩, htried⟩ _ ht
  obtain ⟨hstuck', htried'⟩ := hstuck.step (cacheInv_of_reachable (hs.trans hst))
    (stepped_of_step ht)
  exact ⟨hstuck', fun j hj => htried j (htried' j hj)⟩

/-! ### Recovery -/

/-- The invariant of the calls: the mutex is held from inside the block, only calls have tried, and
there are always calls to come. -/
structure CallsInv (s : State) : Prop where
  held : ∀ id, s.mutex = some id → ∃ c, s.calls id = some c ∧ c.stage.isCritical
  called : ∀ id, s.Tried id → (s.calls id).isSome
  unbounded : ∃ m, ∀ id, m ≤ id → s.calls id = none

/-- The calls of a state in which one call has moved. -/
theorem CallsInv.update (h : CallsInv s) {stage : Stage}
    (hcalls : s'.calls = Function.update s.calls id (some ⟨c.args, stage⟩))
    (hmutex : s'.mutex = some id ∧ stage.isCritical ∨ s'.mutex = none ∨
      s'.mutex = s.mutex ∧ (s.mutex = some id → stage.isCritical))
    (htried : ∀ j, s'.Tried j → s.Tried j ∨ j = id) : CallsInv s' := by
  refine ⟨fun j hj => ?_, fun j hj => ?_, ?_⟩
  · by_cases hji : j = id
    · subst hji
      refine ⟨_, by rw [hcalls, Function.update_self], ?_⟩
      obtain ⟨-, hin⟩ | hnone | ⟨heq, hin⟩ := hmutex
      · exact hin
      · cases hnone.symm.trans hj
      · exact hin (heq.symm.trans hj)
    · rw [hcalls, Function.update_of_ne hji]
      obtain ⟨hid, -⟩ | hnone | ⟨heq, -⟩ := hmutex
      · exact absurd (Option.some.inj (hj.symm.trans hid)) hji
      · cases hnone.symm.trans hj
      · exact h.held j (heq.symm.trans hj)
  · rw [hcalls]
    by_cases hji : j = id
    · rw [hji, Function.update_self, Option.isSome_some]
    · rw [Function.update_of_ne hji]
      exact h.called j ((htried j hj).resolve_right hji)
  · obtain ⟨m, hm⟩ := h.unbounded
    refine ⟨max m (id + 1), fun j hj => ?_⟩
    have hji : j ≠ id := by
      rintro rfl
      exact absurd (le_of_max_le_right hj) (Nat.not_succ_le_self j)
    rw [hcalls, Function.update_of_ne hji]
    exact hm j (le_of_max_le_left hj)

/-- A resumption lets no call but its own try. -/
theorem Resumed.tried_cases (h : Resumed cfg s id c stage stage' s') (j : CallId)
    (ht : s'.Tried j) : s.Tried j ∨ j = id := by
  obtain ⟨-, ⟨-, -, hl | hl | hl⟩ | ⟨a, d, -, rfl⟩ | ⟨-, -, hl⟩⟩ := h.booked_cases
  · rw [State.Tried, hl] at ht
    exact .inl ht
  · rw [State.Tried, hl] at ht
    simp only [List.mem_append, List.mem_singleton, Event.reuse.injEq, reduceCtorEq,
      or_false] at ht
    rcases ht with ht | ht | rfl
    · exact .inl (.inl ht)
    · exact .inl (.inr ht)
    · exact .inr rfl
  · rw [State.Tried, hl] at ht
    simp only [List.mem_append, List.mem_singleton, Event.opening.injEq, reduceCtorEq,
      or_false] at ht
    rcases ht with (ht | rfl) | ht
    · exact .inl (.inl ht)
    · exact .inr rfl
    · exact .inl (.inr ht)
  · exact .inl (by simpa [State.Tried] using ht)
  · exact .inl (by simpa [State.Tried, hl] using ht)

/-- Every step keeps the invariant of the calls. -/
theorem CallsInv.step (h : CallsInv s) (hs : Stepped cfg s act s') : CallsInv s' := by
  cases hs with
  | @called id args hnew =>
      refine h.update (c := ⟨args, .acquiring⟩) rfl (.inr (.inr ⟨rfl, fun hid => ?_⟩))
        fun _ ht => .inl ht
      obtain ⟨d, hd, -⟩ := h.held id hid
      cases hnew.symm.trans hd
  | @resumed id _ c stage' _ hc hr =>
      refine h.update hr.calls_eq ?_ hr.tried_cases
      obtain ⟨-, hin, -, hsome⟩ | ⟨-, hin, heq⟩ | ⟨-, -, hnone⟩ := hr.mutex_cases
      · exact .inl ⟨hsome, hin⟩
      · exact .inr (.inr ⟨heq, fun _ => hin⟩)
      · exact .inr (.inl hnone)
  | @cancelledWaiting id c hc hstage =>
      refine h.update (c := c) rfl (.inr (.inr ⟨rfl, fun hid => ?_⟩)) fun _ ht => .inl ht
      obtain ⟨d, hd, hin⟩ := h.held id hid
      obtain rfl := Option.some.inj (hc.symm.trans hd)
      rw [hstage] at hin
      exact hin.elim
  | @cancelled id c => exact h.update (c := c) rfl (.inr (.inl rfl)) fun _ ht => .inl ht
  | ticked | received | closing | lost => exact ⟨h.held, h.called, h.unbounded⟩

theorem callsInv_of_reachable (h : Reachable cfg s) : CallsInv s :=
  h.invariant ⟨nofun, fun _ ht => by simp [State.Tried] at ht, 0, fun _ _ => rfl⟩
    fun _ _ _ ih _ hs => ih.step (stepped_of_step hs)

/-- Calls connect: no call has failed before it asked for the port or reused a live connection, the
next call does so by itself, and there is a later call that does.

The second part is about a state with a free mutex, the third about any state: a call that
hangs in its flush holds the mutex until somebody cancels it. -/
structure Connects (cfg : SerialModel) (s : State) : Prop where
  failed : ∀ id c e, s.calls id = some c → c.stage = .finished (.error e) →
    e = .cancelledError ∨ s.Tried id
  next : s.mutex = none → ∀ id args, s.calls id = none →
    ∃ s', Reaches (step cfg) (Serves id args) s s' ∧ s'.Tried id
  later : ∃ id s', s.calls id = none ∧ Reaches (step cfg) Any s s' ∧ s'.Tried id

/-- No later call of a stuck state connects. -/
theorem Stuck.not_connects {n : ConnId} {e : PyExc} (h : Stuck s n e) (hs : Reachable cfg s) :
    ¬ Connects cfg s := by
  intro hc
  obtain ⟨id, s', hnew, hr, htried⟩ := hc.later
  have hcalled := (callsInv_of_reachable hs).called id ((h.reaches hs hr).2 id htried)
  rw [hnew] at hcalled
  cases hcalled

/-- A call inside the block can be cancelled. -/
theorem step_cancel {j : CallId} (hj : s.calls j = some c) (hin : c.stage.isCritical) :
    step cfg s (.cancel j) =
      some ((s.cancelWaiter c.stage).finish j c (.error .cancelledError)) := by
  obtain ⟨args, stage⟩ := c
  simp only [step, hj, Option.bind_some]
  cases stage with
  | acquiring | finished => exact hin.elim
  | _ => rfl

/-- The transport whose closing the call awaits can be lost before the call is cancelled, so that
its future is done and the cancellation does no harm. -/
theorem exists_keepsCached_cancel (h : Reaches (step cfg) KeepsCached {} s) {j : CallId}
    (hj : s.calls j = some c) : ∃ t, Reaches (step cfg) KeepsCached s t ∧ t.calls = s.calls ∧
      KeepsCached t (.cancel j) := by
  by_cases hkeeps : KeepsCached s (.cancel j)
  · exact ⟨s, Reaches.refl s, rfl, hkeeps⟩
  · have hi := cacheInv_of_reachable (h.mono fun _ _ _ => trivial)
    have hawaits : ∃ n, c.stage.awaitsClose = some n ∧ (s.conns n).closed = none := by
      by_contra hno
      refine hkeeps fun d n hd hn => ?_
      obtain rfl := Option.some.inj (hj.symm.trans hd)
      exact Option.isSome_iff_ne_none.mpr fun hnone => hno ⟨n, hn, hnone⟩
    obtain ⟨n, hn, hnone⟩ := hawaits
    have hbound := hi.bound n ((hi.caches j c hj).awaitsClose hn).1
    refine ⟨_, .single (.connectionLost n none) trivial (if_pos ⟨hbound, hnone⟩), rfl,
      fun d m hd hm => ?_⟩
    obtain rfl := Option.some.inj (hj.symm.trans hd)
    obtain rfl := Option.some.inj (hn.symm.trans hm)
    rw [State.setConn_conns, Function.update_self]
    rfl

/-- A run that keeps the cached connection has a later call that connects, once the holder of
the mutex is out of the way. -/
theorem exists_later (h : Reaches (step cfg) KeepsCached {} s) :
    ∃ id s', s.calls id = none ∧ Reaches (step cfg) Any s s' ∧ s'.Tried id := by
  have hreach : Reachable cfg s := h.mono fun _ _ _ => trivial
  have hc := callsInv_of_reachable hreach
  obtain ⟨m, hm⟩ := hc.unbounded
  cases hmutex : s.mutex with
  | none =>
      obtain ⟨s', hs', ht⟩ := tries_of_free cfg rqidArgs hmutex (hm m le_rfl)
        (cacheInv_of_reachable hreach) (triedInv_of_reaches h).clean
      exact ⟨m, s', hm m le_rfl, hs'.mono fun _ _ _ => trivial, ht⟩
  | some j =>
      obtain ⟨c, hj, hin⟩ := hc.held j hmutex
      obtain ⟨t, hst, hcalls, hkeeps⟩ := exists_keepsCached_cancel h hj
      have hcancel : step cfg t (.cancel j) = some _ := step_cancel (hcalls ▸ hj) hin
      have hfree := (h.trans hst).tail hkeeps hcancel
      have hjm : m ≠ j := by
        rintro rfl
        cases (hm m le_rfl).symm.trans hj
      have hnew : ((t.cancelWaiter c.stage).finish j c (.error .cancelledError)).calls m =
          none := by
        rw [State.finish_calls, State.goto_calls, Function.update_of_ne hjm]
        exact (congrFun hcalls m).trans (hm m le_rfl)
      obtain ⟨s', hs', ht⟩ := tries_of_free cfg rqidArgs rfl hnew
        (cacheInv_of_reachable (hfree.mono fun _ _ _ => trivial)) (triedInv_of_reaches hfree).clean
      have hone : Reaches (step cfg) Any s _ :=
        (hst.mono fun _ _ _ => trivial).tail trivial hcancel
      exact ⟨m, s', hm m le_rfl, hone.trans (hs'.mono fun _ _ _ => trivial), ht⟩

/-- A run keeps the cached connection in all of its steps, or ends in a stuck state: the first step
that does not keep it leaves it stuck, and stuck it stays. -/
theorem keepsCached_or_stuck (h : Reachable cfg s) :
    Reaches (step cfg) KeepsCached {} s ∨ ∃ n e, Stuck s n e := by
  refine h.induct (P := fun t => Reaches (step cfg) KeepsCached {} t ∨ ∃ n e, Stuck t n e)
    (.inl (Reaches.refl _)) ?_
  intro t act t' hr ih _ ht
  obtain hkeeps | ⟨n, e, hstuck⟩ := ih
  · by_cases hk : KeepsCached t act
    · exact .inl (hkeeps.tail hk ht)
    · exact .inr (stuck_of_not_keepsCached (cacheInv_of_reachable hr) hk (stepped_of_step ht))
  · exact .inr ⟨n, (hstuck.step (cacheInv_of_reachable hr) (stepped_of_step ht)).1⟩

/-- **Recovery.** Calls connect at the end of a run exactly when no step of the run loses the
connection that is cached with an exception, and none cancels a call that awaits the closing
of a connection whose transport is not lost yet. -/
theorem connects_iff {cfg : SerialModel} {s : State} (h : Reachable cfg s) :
    Connects cfg s ↔ Reaches (step cfg) KeepsCached {} s := by
  constructor
  · intro hc
    obtain hkeeps | ⟨n, e, hstuck⟩ := keepsCached_or_stuck h
    · exact hkeeps
    · exact absurd hc (hstuck.not_connects h)
  · intro hkeeps
    have hinv := triedInv_of_reaches hkeeps
    have hcache := cacheInv_of_reachable h
    refine ⟨fun id c e hc hstage => ?_, fun hm id args hnew => ?_, ?_⟩
    · have htried := hinv.tried id c hc
      rw [hstage] at htried
      exact htried.imp_left fun he => by cases he; rfl
    · exact tries_of_free cfg args hm hnew hcache hinv.clean
    · exact exists_later hkeeps

/-- The adapter is pulled out while the first loadcell request waits for its answer: the call
fails, and so does the next one, before it tries to open the port. -/
def lossRun : List Action :=
  [.call 0 rqiwArgs, .resume 0 .ready, .resume 0 .ready, .resume 0 .ready, .resume 0 .ready,
    .resume 0 .ready, .tick (1 / 20), .resume 0 .timedOut, .resume 0 .ready,
    .connectionLost 0 (some (.serialException "device reports readiness to read".toList)),
    .resume 0 .ready, .resume 0 .ready, .call 1 rqiwArgs, .resume 1 .ready, .resume 1 .ready,
    .resume 1 .ready]

theorem lossRun_isSome : (runFrom (step {}) {} lossRun).isSome := by
  decide +kernel

/-- The state that `lossRun` ends in. -/
def lossState : State := (runFrom (step {}) {} lossRun).get lossRun_isSome

theorem lossState_reachable : Reachable {} lossState := reaches_get lossRun_isSome

/-- The loss of the cached connection is in the way of every later call. -/
theorem lossState_not_connects : ¬ Connects {} lossState := by
  have hstuck : Stuck lossState 0 (.serialException "device reports readiness to read".toList) :=
    ⟨by decide +kernel, by decide +kernel, by decide +kernel⟩
  exact hstuck.not_connects lossState_reachable

/-- Recovery at the end of `lossRun`, which does not keep the cached connection. -/
theorem connects_iff_lossRun :
    Reachable {} lossState ∧ ¬ Reaches (step {}) KeepsCached {} lossState :=
  ⟨lossState_reachable, fun hkeeps =>
    lossState_not_connects ((connects_iff lossState_reachable).mpr hkeeps)⟩

/-- Not every reachable state lets later calls connect: in `lossRun` the second call fails
with the exception of the lost transport and the port free to be opened. -/
theorem not_forall_connects : ¬ ∀ cfg s, Reachable cfg s → Connects cfg s :=
  fun h => lossState_not_connects (h {} lossState lossState_reachable)

end IoBoard
