import IoBoard.AttemptRuns
import IoBoard.SerialCalls
import IoBoard.Lib.Retry
import IoBoard.Lib.Traces

/-!
# The Retry Loop of `fetch`

A `fetch` call whose attempts end with these outcomes, in this order, does what a retry loop with
exponential backoff does, whatever else happens in the run: other calls wait for the mutex, time
passes, bytes arrive.

## The abstract loop

The specification is the loop of the library, with the settings of the serial layer: a function of
the sequence of outcomes to effects and a result. The code has no such sequence; it has awaits
that end one way or another. A run of the code is one *with these outcomes* when the attempt
number `k` of the call, if it ends, ends with the outcome `k`, and nothing but the retry loop ends
the call (`prescribed`).

## The simulation

An observer of the call notes each transmission, each backoff sleep with its length, and the
closing of the connection. `remaining` is what is left of the abstract loop for a call at a
stage, and the invariant is that what was observed, followed by what remains, is what the whole
loop does. Each step of the call either shows nothing and leaves the remainder, or shows its first
effect (`follows_of_step`). Steps of other calls and of the environment show nothing of it.

Times are exact rationals, and the length of a sleep is the wake time minus the clock at the
moment at which the sleep begins. The gaps before a transmission are sleeps of another kind and
are not among the effects. When bytes arrive and with which `Wakeup` an await ends is only
restricted by the outcomes.

## Main results

* `follows_of_step`: **each step of the call is the next one of the abstract loop**.
* `retrySpec_retryLoop`: the abstract loop meets the specification.
* `fetch_retryLoop`: the result, the transmissions and the sleeps of a call that has ended.
-/

open Runs Retry

namespace IoBoard

variable {cfg : SerialModel} {s s' : State} {id : CallId} {args : FetchArgs} {c : Call}
  {a : Attempt} {p : Phase} {w : Wakeup} {outcome : ℕ → Outcome}
  {allowed : Attempt → Outcome → Prop}

/-! ### What a call shows -/

/-- The entry is a transmission of the call. -/
def Event.isSentBy (id : CallId) : Event → Bool
  | .tx t => t.call = id
  | _ => false

/-- What moving to a stage shows: the sleep that begins, or the connection that is closed. A
reset of a connection that is closed already shows nothing. -/
def State.shown (s s' : State) : Stage → List (Effect ℚ)
  | .attempting _ (.backoff wake) => [.sleep (wake - s.clock)]
  | .resetting n _ => if (s'.conns n).closing then [.close] else []
  | _ => []

/-- What a step shows of the call: its transmissions in the log, and then what its new stage
shows. -/
def observe (id : CallId) (s s' : State) : List (Effect ℚ) :=
  ((s'.log.drop s.log.length).filter (Event.isSentBy id)).map (fun _ => .send) ++
    if s'.stage id = s.stage id then []
    else ((s'.stage id).map (s.shown s')).getD []

/-- A step of which the log shows nothing of the call. -/
theorem observe_of_unsent {more : List Event} (hlog : s'.log = s.log ++ more)
    (hmore : ∀ e ∈ more, e.isSentBy id = false) :
    observe id s s' = if s'.stage id = s.stage id then []
      else ((s'.stage id).map (s.shown s')).getD [] := by
  have hnone : more.filter (Event.isSentBy id) = [] :=
    List.filter_eq_nil_iff.mpr fun e he => by simp [hmore e he]
  rw [observe, hlog, List.drop_left, hnone]
  rfl

/-- A step that does not concern the call shows nothing of it. -/
theorem observe_of_stage_eq {more : List Event} (hlog : s'.log = s.log ++ more)
    (hmore : ∀ e ∈ more, e.isSentBy id = false) (hstage : s'.stage id = s.stage id) :
    observe id s s' = [] := by
  rw [observe_of_unsent hlog hmore, if_pos hstage]

section

variable {stage stage' : Stage}

theorem State.stage_eq (hc : s.calls id = some c) : s.stage id = some c.stage := by
  rw [stage, hc]
  rfl

theorem Resumed.stage_eq (hr : Resumed cfg s id c stage stage' s') :
    s'.stage id = some stage' := by
  rw [State.stage, hr.calls_eq, Function.update_self]
  rfl

/-- A resumption that does not end a drain logs no transmission. -/
theorem exists_unsent (hr : Resumed cfg s id c stage stage' s')
    (hne : ∀ a d, stage = .attempting a (.draining d) → stage' ≠ .attempting a .flushing) :
    ∃ more, s'.log = s.log ++ more ∧ ∀ e ∈ more, e.isSentBy id = false := by
  rcases hr.booked_cases.2 with ⟨-, -, heq | heq | heq⟩ | ⟨a, d, hstage, rfl⟩ | ⟨-, -, heq⟩
  · exact ⟨[], by rw [heq, List.append_nil], List.forall_mem_nil _⟩
  · exact ⟨_, heq, by simp [Event.isSentBy]⟩
  · exact ⟨_, heq, by simp [Event.isSentBy]⟩
  · have hflushing : (s.transmit id c a).stage id = some (.attempting a .flushing) := by
      simp [State.stage]
    exact absurd (Option.some.inj (hr.stage_eq.symm.trans hflushing)) (hne a d hstage)
  · exact ⟨_, heq, by simp [Event.isSentBy]⟩

/-- What a resumption that does not end a drain shows. -/
theorem observe_of_resumed (hc : s.calls id = some c)
    (hr : Resumed cfg s id c c.stage stage' s')
    (hne : ∀ a d, c.stage = .attempting a (.draining d) → stage' ≠ .attempting a .flushing)
    (hmoved : stage' ≠ c.stage) : observe id s s' = s.shown s' stage' := by
  obtain ⟨more, hlog, hmore⟩ := exists_unsent hr hne
  rw [observe_of_unsent hlog hmore, hr.stage_eq, State.stage_eq hc, if_neg]
  · rfl
  · exact fun heq => hmoved (Option.some.inj heq)

/-- A resumption shows nothing if there is nothing to show at its new stage. -/
theorem observe_of_shown_eq_nil (hr : Resumed cfg s id c stage stage' s')
    (hne : ∀ a d, stage = .attempting a (.draining d) → stage' ≠ .attempting a .flushing)
    (hshown : s.shown s' stage' = []) : observe id s s' = [] := by
  obtain ⟨more, hlog, hmore⟩ := exists_unsent hr hne
  rw [observe_of_unsent hlog hmore, hr.stage_eq, Option.map_some, Option.getD_some, hshown,
    ite_self]

/-- The end of a drain shows the transmission. -/
theorem observe_of_sent {d : ℚ} (hstage : c.stage = .attempting a (.draining d))
    (hr : Resumed cfg s id c c.stage (.attempting a .flushing) s') :
    observe id s s' = [.send] := by
  rw [hstage] at hr
  cases hr with
  | moved hm => cases hm
  | read _ hread => cases hread
  | transmitted =>
      simp [observe, State.stage, State.shown, Event.isSentBy, State.txNow]

/-- The connection of a call that gives up is closed. -/
theorem closing_of_resetting {stage : Stage} {n : ConnId} {e : PyExc}
    (hr : Resumed cfg s id c stage (.resetting n e) s') : (s'.conns n).closing = true := by
  cases hr with
  | moved h => cases h
  | failed | rejected => simp [State.setConn, State.goto, State.complete, State.record,
      Connection.close]

/-! ### The abstract loop -/

/-- The loop with the settings of the serial layer, from its attempt `k` on. -/
def retryLoop (cfg : SerialModel) (args : FetchArgs) (outcome : ℕ → Outcome) (k : ℕ) (d : ℚ) :
    List (Effect ℚ) × Except PyExc Bytes :=
  Retry.loop (Outcome.verdict cfg args) cfg.retryBackoffMultiplier outcome k d
    (cfg.maxRetries - k)

section

variable {args : FetchArgs} {k : ℕ} {d : ℚ} {e : PyExc}

/-- An accepted frame ends the loop, with one more transmission. -/
theorem retryLoop_of_ok {frame : Bytes} (h : (outcome k).verdict cfg args = .ok frame) :
    retryLoop cfg args outcome k d = ([.send], .ok frame) :=
  loop_of_ok h

/-- A failed attempt but the last one: a transmission, a sleep, and the rest of the loop. -/
theorem retryLoop_of_retried (h : (outcome k).verdict cfg args = .error e)
    (hk : k < cfg.maxRetries) : retryLoop cfg args outcome k d =
      (.send :: .sleep d :: (retryLoop cfg args outcome (k + 1) (d * cfg.retryBackoffMultiplier)).1,
        (retryLoop cfg args outcome (k + 1) (d * cfg.retryBackoffMultiplier)).2) := by
  have hsub : cfg.maxRetries - k = cfg.maxRetries - (k + 1) + 1 := by omega
  rw [retryLoop, hsub, loop_succ_of_error h]
  rfl

/-- The last failed attempt: a transmission, and the connection is closed. -/
theorem retryLoop_of_gaveUp (h : (outcome k).verdict cfg args = .error e)
    (hk : cfg.maxRetries ≤ k) :
    retryLoop cfg args outcome k d = ([.send, .close], .error e) := by
  rw [retryLoop, Nat.sub_eq_zero_of_le hk, loop_zero_of_error h]

end

/-- What is left of the loop for a call at this stage. The loop does not know when in an attempt
the message is sent; the phases before it leave the whole attempt, those after it all but the
transmission. -/
def remaining (cfg : SerialModel) (args : FetchArgs) (outcome : ℕ → Outcome) :
    Stage → List (Effect ℚ) × Except PyExc Bytes
  | .attempting a (.backoff _) =>
      retryLoop cfg args outcome (a.number + 1) (a.retryDelay * cfg.retryBackoffMultiplier)
  | .attempting a p =>
      let loop := retryLoop cfg args outcome a.number a.retryDelay
      if p.hasSent then (loop.1.tail, loop.2) else loop
  | .resetting _ e => ([], .error e)
  | .finished r => ([], r)
  | _ => retryLoop cfg args outcome 1 cfg.initialRetryDelay

/-- Outside the backoff. -/
theorem remaining_attempting {args : FetchArgs} (hp : ∀ wake, p ≠ .backoff wake) :
    remaining cfg args outcome (.attempting a p) =
      if p.hasSent then ((retryLoop cfg args outcome a.number a.retryDelay).1.tail,
        (retryLoop cfg args outcome a.number a.retryDelay).2)
      else retryLoop cfg args outcome a.number a.retryDelay := by
  cases p <;> first | rfl | exact absurd rfl (hp _)

/-- Before the transmission. -/
theorem remaining_draining {args : FetchArgs} {d : ℚ} :
    remaining cfg args outcome (.attempting a (.draining d)) =
      retryLoop cfg args outcome a.number a.retryDelay :=
  rfl

/-- After the transmission. -/
theorem remaining_of_sent {args : FetchArgs} (hsent : p.hasSent = true)
    (hp : ∀ wake, p ≠ .backoff wake) : remaining cfg args outcome (.attempting a p) =
      ((retryLoop cfg args outcome a.number a.retryDelay).1.tail,
        (retryLoop cfg args outcome a.number a.retryDelay).2) := by
  rw [remaining_attempting hp, hsent, if_pos rfl]

/-! ### Every step of the call is one of the loop -/

/-- The next step of the loop: what the step of the call shows comes first in what was left, and
the result stays. -/
def Follows (cfg : SerialModel) (outcome : ℕ → Outcome) (id : CallId) (c : Call)
    (s s' : State) (stage' : Stage) : Prop :=
  remaining cfg c.args outcome c.stage =
    (observe id s s' ++ (remaining cfg c.args outcome stage').1,
      (remaining cfg c.args outcome stage').2)

/-- A step that shows nothing, and leaves as much of the loop. -/
theorem follows_of_eq (hr : Resumed cfg s id c c.stage stage' s')
    (hne : ∀ a d, c.stage = .attempting a (.draining d) → stage' ≠ .attempting a .flushing)
    (hshown : s.shown s' stage' = [])
    (heq : remaining cfg c.args outcome c.stage = remaining cfg c.args outcome stage') :
    Follows cfg outcome id c s s' stage' := by
  rw [Follows, observe_of_shown_eq_nil hr hne hshown, heq, List.nil_append]

/-- A call whose port has been opened begins its first attempt. -/
theorem stage_of_opened (hr : Resumed cfg s id c .opening stage' s')
    (h : resume cfg s id c .opening w = some s')
    (hw : w = .ready ∨ w = .lowLatency .notImplementedError) :
    stage' = .attempting (firstAttempt cfg s.nextConn) .interCommandGap := by
  have hs : s' =
      s.connected.goto id c (.attempting (firstAttempt cfg s.nextConn) .interCommandGap) := by
    obtain rfl | rfl := hw <;> exact (Option.some.inj h).symm
  have hstage := hr.stage_eq
  rw [hs] at hstage
  simpa [State.stage] using hstage.symm

/-- Outside the attempts. -/
theorem follows_of_not_attempt (h : resume cfg s id c c.stage w = some s')
    (hw : c.Follows s allowed w) (hr : Resumed cfg s id c c.stage stage' s')
    (hstage : ∀ a p, c.stage ≠ .attempting a p) : Follows cfg outcome id c s s' stage' := by
  have hne (a : Attempt) (d : ℚ) (heq : c.stage = .attempting a (.draining d)) :
      stage' ≠ .attempting a .flushing := absurd heq (hstage a _)
  rw [Call.Follows] at hw
  refine follows_of_eq hr hne ?_ ?_
  all_goals
    generalize c.stage = st at h hw hr hstage
    cases st with
    | acquiring =>
        cases hr with
        | moved hm => cases hm
        | startOpen hst => simp at hst
        | acquired => rfl
    | connecting =>
        cases hr with
        | moved hm =>
            cases hm
            rfl
        | reused | startOpen => rfl
    | awaitingClose n =>
        cases hr with
        | moved hm => cases hm
        | startOpen => rfl
        | closeRaised hclosed => exact absurd hclosed (hw _)
    | opening =>
        obtain rfl := stage_of_opened hr h hw
        rfl
    | attempting a p => exact absurd rfl (hstage a p)
    | resetting n e =>
        cases hr with
        | moved hm => cases hm
        | startOpen hst => simp at hst
        | resetDone hclosed =>
            obtain ⟨-, rfl⟩ | hclosed := hclosed
            · rfl
            · exact absurd hclosed (hw _)
    | finished r =>
        cases hr with
        | moved hm => cases hm
        | startOpen hst => simp at hst

/-- Inside an attempt. -/
theorem follows_of_movesOn (hc : s.calls id = some c) (hstage : c.stage = .attempting a p)
    (hr : Resumed cfg s id c c.stage stage' s') {o : AttemptStep}
    (ho : ∀ x, o = .ends x → x = outcome a.number)
    (hmove : AttemptMove cfg s c.args a p o stage') : Follows cfg outcome id c s s' stage' := by
  cases hmove with
  | passes hsent hp hp' =>
      refine follows_of_eq hr (fun b d heq hflush => ?_) ?_ ?_
      · rw [hstage] at heq
        cases heq
        cases hflush
        cases hsent
      · cases ‹Phase› <;> first | rfl | exact absurd rfl (hp' _)
      · rw [hstage, remaining_attempting hp, remaining_attempting hp', hsent]
  | sends =>
      obtain ⟨rest, hrest⟩ := exists_loop_eq_send (Outcome.verdict cfg c.args)
        cfg.retryBackoffMultiplier outcome a.number a.retryDelay (cfg.maxRetries - a.number)
      rw [Follows, observe_of_sent hstage hr, hstage, remaining_draining,
        remaining_of_sent rfl (by simp), retryLoop, hrest]
      exact Prod.ext hrest rfl
  | next =>
      refine follows_of_eq hr (fun b d _ => by simp) rfl ?_
      rw [hstage]
      rfl
  | accepted hsent hp hok =>
      obtain rfl := ho _ rfl
      refine follows_of_eq hr (fun b d _ => by simp) rfl ?_
      rw [hstage, remaining_of_sent hsent hp, retryLoop_of_ok hok]
      rfl
  | retried hsent hp he hlt =>
      obtain rfl := ho _ rfl
      have hshown : observe id s s' = [.sleep a.retryDelay] := by
        rw [observe_of_resumed hc hr (fun b d _ => by simp), State.shown, add_sub_cancel_left]
        rw [hstage]
        simpa using (hp _).symm
      rw [Follows, hshown, hstage, remaining_of_sent hsent hp, retryLoop_of_retried he hlt]
      rfl
  | gaveUp hsent hp he hle =>
      obtain rfl := ho _ rfl
      have hshown : observe id s s' = [.close] := by
        rw [observe_of_resumed hc hr (fun b d _ => by simp), State.shown, closing_of_resetting,
          if_pos rfl]
        · rw [hstage] at hr
          exact hr
        · rw [hstage]
          simp
      rw [Follows, hshown, hstage, remaining_of_sent hsent hp, retryLoop_of_gaveUp he hle]
      rfl

/-- **Each step of the call is the next one of the abstract loop.** Inside an attempt this goes
by its outcome, outside by its stage. -/
theorem follows_of_step (hc : s.calls id = some c) (h : resume cfg s id c c.stage w = some s')
    (hw : c.Follows s (fun a o => o = outcome a.number) w) :
    ∃ stage', s'.calls id = some ⟨c.args, stage'⟩ ∧ Follows cfg outcome id c s s' stage' := by
  obtain ⟨stage', hr⟩ := resumed_of_resume h
  refine ⟨stage', by rw [hr.calls_eq, Function.update_self], ?_⟩
  by_cases hattempt : ∃ a p, c.stage = .attempting a p
  · obtain ⟨a, p, hstage⟩ := hattempt
    rw [Call.Follows, hstage] at hw
    rw [hstage] at h
    have hbreaks : p.attemptStep c.args (s.conns a.conn) w ≠ .breaks := by
      intro heq
      simp only [heq] at hw
    obtain ⟨stage, heq, hmove⟩ := movesOn_of_resumeAttempt h hbreaks
    obtain rfl : stage = stage' := Option.some.inj (heq.symm.trans hr.stage_eq)
    refine follows_of_movesOn hc hstage hr (fun x hx => ?_) hmove
    simp only [hx] at hw
    exact hw
  · exact follows_of_not_attempt h hw hr fun a p heq => hattempt ⟨a, p, heq⟩

/-- What the observer of a call has seen so far is what the loop has done so far. Before the
call is made it has seen nothing. -/
def Accounted (cfg : SerialModel) (outcome : ℕ → Outcome) (id : CallId)
    (q : State × List (Effect ℚ)) : Prop :=
  match q.1.calls id with
  | none => q.2 = []
  | some c =>
      (q.2 ++ (remaining cfg c.args outcome c.stage).1,
        (remaining cfg c.args outcome c.stage).2) =
      retryLoop cfg c.args outcome 1 cfg.initialRetryDelay

/-- A step that does not resume the call transmits nothing for it. -/
theorem exists_unsent_of_stepped {act : Action} (h : Stepped cfg s act s')
    (hact : ∀ w, act ≠ .resume id w) :
    ∃ more, s'.log = s.log ++ more ∧ ∀ e ∈ more, e.isSentBy id = false := by
  cases h with
  | @resumed j w c stage' _ hc hr =>
      have hj : j ≠ id := by
        rintro rfl
        exact hact w rfl
      rcases hr.booked_cases.2 with ⟨-, -, heq | heq | heq⟩ | ⟨a, d, -, rfl⟩ | ⟨-, -, heq⟩
      · exact ⟨[], by rw [heq, List.append_nil], List.forall_mem_nil _⟩
      · exact ⟨_, heq, by simp [Event.isSentBy]⟩
      · exact ⟨_, heq, by simp [Event.isSentBy]⟩
      · exact ⟨_, s.transmit_log j c a, by simp [Event.isSentBy, State.txNow, hj]⟩
      · exact ⟨_, heq, by simp [Event.isSentBy]⟩
  | called | cancelledWaiting | cancelled | ticked | received | closing | lost =>
      exact ⟨[], (List.append_nil _).symm, List.forall_mem_nil _⟩

/-- A step that leaves the call where it is. -/
theorem Accounted.of_calls_eq {act : Action} {es : List (Effect ℚ)}
    (h : Accounted cfg outcome id (s, es)) (hs : Stepped cfg s act s')
    (hact : ∀ w, act ≠ .resume id w) (hcalls : s'.calls id = s.calls id) :
    Accounted cfg outcome id (s', es ++ observe id s s') := by
  obtain ⟨more, hlog, hmore⟩ := exists_unsent_of_stepped hs hact
  have hstage : s'.stage id = s.stage id := by rw [State.stage, hcalls, State.stage]
  rw [observe_of_stage_eq hlog hmore hstage, List.append_nil]
  rw [Accounted] at h ⊢
  rw [hcalls]
  exact h

/-- The call enters `fetch`. -/
theorem Accounted.call {args : FetchArgs} {es : List (Effect ℚ)}
    (h : Accounted cfg outcome id (s, es)) (hnone : s.calls id = none) :
    Accounted cfg outcome id (s.goto id ⟨args, .acquiring⟩ .acquiring,
      es ++ observe id s (s.goto id ⟨args, .acquiring⟩ .acquiring)) := by
  have hes : es = [] := by simpa only [Accounted, hnone] using h
  have hshown : observe id s (s.goto id ⟨args, .acquiring⟩ .acquiring) = [] := by
    have hlog : (s.goto id ⟨args, .acquiring⟩ .acquiring).log = s.log ++ [] :=
      (List.append_nil _).symm
    rw [observe_of_unsent hlog (List.forall_mem_nil _)]
    simp [State.stage, State.shown]
  rw [hshown, hes, Accounted, State.goto_calls, Function.update_self]
  rfl

/-- The call goes on. -/
theorem Accounted.resume {es : List (Effect ℚ)} (h : Accounted cfg outcome id (s, es))
    (hc : s.calls id = some c) (hs : resume cfg s id c c.stage w = some s')
    (hw : c.Follows s (fun a o => o = outcome a.number) w) :
    Accounted cfg outcome id (s', es ++ observe id s s') := by
  obtain ⟨stage', hc', hfollows⟩ := follows_of_step hc hs hw
  rw [Follows] at hfollows
  simp only [Accounted, hc] at h
  rw [hfollows] at h
  simp only [Accounted, hc', List.append_assoc]
  exact h

end

/-- The call is not cancelled, and its attempts end with these outcomes. Everything else in the
run is free. -/
def prescribed (outcome : ℕ → Outcome) (id : CallId) : Conditions where
  watched := (· = id)
  allowed _ a o := o = outcome a.number
  environment := Any

/-- The runs in which the attempts of the call end with these outcomes, with what an observer of
the call has seen. -/
def RetryRun (cfg : SerialModel) (outcome : ℕ → Outcome) (id : CallId) (s : State)
    (es : List (Effect ℚ)) : Prop :=
  Reaches (observed (step cfg) (observe id)) (OnState (Undisturbed (prescribed outcome id)))
    ({}, []) (s, es)

/-- **What the observer has seen in a run is what the loop has done so far**, by induction on
the run. -/
theorem accounted_of_run {es : List (Effect ℚ)} (h : RetryRun cfg outcome id s es) :
    Accounted cfg outcome id (s, es) := by
  refine h.invariant (P := Accounted cfg outcome id) rfl ?_
  rintro ⟨s, es⟩ act ⟨s', es'⟩ ih hC hstep
  obtain ⟨hs, hes⟩ := observed_eq_some_iff.mp hstep
  obtain rfl : es' = es ++ observe id s s' := hes
  have hstepped := stepped_of_step hs
  by_cases hresume : ∃ w, act = .resume id w
  · obtain ⟨w, rfl⟩ := hresume
    obtain ⟨c, hc, hs⟩ := Option.bind_eq_some_iff.mp hs
    exact ih.resume hc hs (hC rfl c hc)
  · have hact (w : Wakeup) (heq : act = .resume id w) : False := hresume ⟨w, heq⟩
    by_cases hcall : ∃ args, act = .call id args
    · obtain ⟨args, rfl⟩ := hcall
      cases hstepped with
      | called hnone => exact ih.call hnone
    · refine ih.of_calls_eq hstepped hact (calls_of_stepped hstepped ?_ hact ?_)
      · exact fun args heq => hcall ⟨args, heq⟩
      · rintro rfl
        exact hC rfl

/-! ### The specification -/

/-- The code of the error that a failed last attempt raises, one for each kind of failure. -/
def Outcome.errorCode : Outcome → Option ErrorCode
  | .frame _ => none
  | .timeout => some .serialTimeout
  | .shortRead => some .serialIncompleteRead
  | .badChecksum => some .protocolChecksumMismatch
  | .wrongCodes _ => some .protocolInvalidResponse

/-- A failed outcome has an error, with the code that belongs to its kind. -/
theorem Outcome.verdict_of_ne_frame (cfg : SerialModel) (args : FetchArgs) {o : Outcome}
    (h : ∀ frame, o ≠ .frame frame) :
    ∃ err, o.verdict cfg args = .error (.ioBoard err) ∧ o.errorCode = some err.errorCode := by
  cases o with
  | frame response => exact absurd rfl (h response)
  | timeout | shortRead | badChecksum | wrongCodes => exact ⟨_, rfl, rfl⟩

/-- The attempt `k` is the first one that reads a valid matching frame. -/
def FirstFrame (outcome : ℕ → Outcome) (k : ℕ) (frame : Bytes) : Prop :=
  outcome k = .frame frame ∧ ∀ j, 1 ≤ j → j < k → ∀ frame', outcome j ≠ .frame frame'

/-- **What a call with these outcomes does**: its transmissions and sleeps, and its result. The
fields say when it returns, and what it does in either case. -/
structure RetrySpec (cfg : SerialModel) (outcome : ℕ → Outcome) (es : List (Effect ℚ))
    (r : Except PyExc Bytes) : Prop where
  /-- The first valid matching frame is returned exactly if it comes in time. -/
  returns_iff : ∀ frame, r = .ok frame ↔
    ∃ k, 1 ≤ k ∧ k ≤ cfg.maxRetries ∧ FirstFrame outcome k frame
  /-- There is one transmission for each attempt, and a sleep after each failed one. -/
  success : ∀ k frame, 1 ≤ k → k ≤ cfg.maxRetries → FirstFrame outcome k frame →
    es = backoffs cfg.retryBackoffMultiplier cfg.initialRetryDelay (k - 1) ++ [.send]
  /-- After the last failure nothing is slept, and the connection is closed. -/
  failure : (∀ k, 1 ≤ k → k ≤ cfg.maxRetries → ∀ frame, outcome k ≠ .frame frame) →
    es = backoffs cfg.retryBackoffMultiplier cfg.initialRetryDelay (cfg.maxRetries - 1) ++
      [.send, .close] ∧
    ∃ err, r = .error (.ioBoard err) ∧ (outcome cfg.maxRetries).errorCode = some err.errorCode

/-- A failed attempt of the loop. -/
theorem exists_error_of_ne_frame (cfg : SerialModel) (args : FetchArgs) {k : ℕ}
    (h : ∀ frame, outcome k ≠ .frame frame) :
    ∃ e, (outcome k).verdict cfg args = .error e := by
  obtain ⟨err, herr, -⟩ := Outcome.verdict_of_ne_frame cfg args h
  exact ⟨_, herr⟩

/-- The loop up to its first frame. -/
theorem retryLoop_of_firstFrame {k : ℕ} {frame : Bytes} (h1 : 1 ≤ k) (hk : k ≤ cfg.maxRetries)
    (h : FirstFrame outcome k frame) :
    retryLoop cfg args outcome 1 cfg.initialRetryDelay =
      (backoffs cfg.retryBackoffMultiplier cfg.initialRetryDelay (k - 1) ++ [.send],
        .ok frame) := by
  refine loop_of_success h1 (by omega) ?_ fun j hj hjk =>
    exists_error_of_ne_frame cfg args (h.2 j hj hjk)
  rw [h.1]
  rfl

/-- The loop without a frame. -/
theorem retryLoop_of_failures {e : PyExc}
    (h : ∀ k, 1 ≤ k → k ≤ cfg.maxRetries → ∀ frame, outcome k ≠ .frame frame)
    (he : (outcome cfg.maxRetries).verdict cfg args = .error e) :
    retryLoop cfg args outcome 1 cfg.initialRetryDelay =
      (backoffs cfg.retryBackoffMultiplier cfg.initialRetryDelay (cfg.maxRetries - 1) ++
        [.send, .close], .error e) := by
  have hmax := cfg.validateMaxRetries
  have hlast : 1 + (cfg.maxRetries - 1) = cfg.maxRetries := by omega
  refine loop_of_failures (by rw [hlast, he]) fun j hj hlt => ?_
  exact exists_error_of_ne_frame cfg args (h j hj (by omega))

/-- The first frame among the outcomes of the attempts, if there is one at all. -/
theorem exists_firstFrame {m : ℕ}
    (h : ¬ ∀ k, 1 ≤ k → k ≤ m → ∀ frame, outcome k ≠ .frame frame) :
    ∃ k frame, 1 ≤ k ∧ k ≤ m ∧ FirstFrame outcome k frame := by
  induction m with
  | zero =>
      refine absurd (fun k h1 hk => ?_) h
      omega
  | succ m ih =>
      by_cases hm : ∀ k, 1 ≤ k → k ≤ m → ∀ frame, outcome k ≠ .frame frame
      · push Not at h
        obtain ⟨k, h1, hk, frame, hframe⟩ := h
        have hlast : k = m + 1 := by
          by_contra hne
          exact hm k h1 (by omega) frame hframe
        subst hlast
        exact ⟨m + 1, frame, h1, le_rfl, hframe, fun j hj hlt => hm j hj (by omega)⟩
      · obtain ⟨k, frame, h1, hk, hfirst⟩ := ih hm
        exact ⟨k, frame, h1, by omega, hfirst⟩

/-- **The loop meets the specification.** This is about the abstract loop, by its two results. -/
theorem retrySpec_retryLoop (cfg : SerialModel) (args : FetchArgs) (outcome : ℕ → Outcome) :
    RetrySpec cfg outcome (retryLoop cfg args outcome 1 cfg.initialRetryDelay).1
      (retryLoop cfg args outcome 1 cfg.initialRetryDelay).2 where
  returns_iff frame := by
    constructor
    · intro hok
      by_cases hnone : ∀ k, 1 ≤ k → k ≤ cfg.maxRetries → ∀ frame, outcome k ≠ .frame frame
      · obtain ⟨e, he⟩ := exists_error_of_ne_frame cfg args
          (hnone cfg.maxRetries cfg.validateMaxRetries le_rfl)
        rw [retryLoop_of_failures hnone he] at hok
        cases hok
      · obtain ⟨k, frame', h1, hk, hfirst⟩ := exists_firstFrame hnone
        rw [retryLoop_of_firstFrame h1 hk hfirst] at hok
        cases hok
        exact ⟨k, h1, hk, hfirst⟩
    · rintro ⟨k, h1, hk, hfirst⟩
      rw [retryLoop_of_firstFrame h1 hk hfirst]
  success k frame h1 hk hfirst := by
    rw [retryLoop_of_firstFrame h1 hk hfirst]
  failure hnone := by
    obtain ⟨err, herr, hcode⟩ := Outcome.verdict_of_ne_frame cfg args
      (hnone cfg.maxRetries cfg.validateMaxRetries le_rfl)
    rw [retryLoop_of_failures hnone herr]
    exact ⟨rfl, err, rfl, hcode⟩

/-! ### Runs with given outcomes -/

/-- The outcomes that an attempt can have: the frames can be read, and are judged so. A sequence
with others has no run. -/
def Outcome.Possible (args : FetchArgs) : Outcome → Prop
  | .timeout | .shortRead | .badChecksum => True
  | .frame response => Readable response ∧ Outcome.ofFrame args response = .frame response
  | .wrongCodes response => Readable response ∧ Outcome.ofFrame args response = .wrongCodes response

/-- **Every outcome has a run**, if it is one that an attempt can have at all. -/
theorem State.At.exists_endsWith (hpossible : (outcome a.number).Possible args)
    (h : s.At id args a .flushing []) :
    EndsWith cfg (prescribed outcome id) s id args a (outcome a.number) := by
  have hk : Permits cfg (prescribed outcome id) s id a (outcome a.number) :=
    ⟨fun _ _ => rfl, fun _ _ _ => trivial⟩
  generalize outcome a.number = o at hk hpossible
  cases o with
  | timeout => exact h.endsWith_timeout hk
  | shortRead => exact h.endsWith_shortRead hk
  | badChecksum =>
      -- a frame without codes
      have hshort : Outcome.ofFrame args [0, ETX, 0] = .badChecksum := rfl
      rw [← hshort] at hk ⊢
      exact h.endsWith_of_frame ⟨0, [], 0, by simp, Nat.zero_le _, rfl⟩ (fun _ _ _ _ => trivial) hk
  | frame response | wrongCodes response =>
      obtain ⟨hresponse, hframe⟩ := hpossible
      rw [← hframe] at hk ⊢
      exact h.endsWith_of_frame hresponse (fun _ _ _ _ => trivial) hk

/-- An attempt with its outcome ends the call, or leads to the next attempt. -/
theorem State.At.exists_next (hpossible : (outcome a.number).Possible args)
    (h : s.At id args a .interCommandGap []) :
    ∃ s', Reaches (step cfg) (Undisturbed (prescribed outcome id)) s s' ∧
      ((∃ r, s'.calls id = some ⟨args, .finished r⟩) ∨
        a.number < cfg.maxRetries ∧ s'.At id args (a.next cfg) .interCommandGap []) := by
  obtain ⟨t, tx, -, -, hsent, ht⟩ := h.exists_sent cfg (prescribed outcome id)
  obtain ⟨s', hleads, hended⟩ : EndsWith cfg (prescribed outcome id) t id args a _ :=
    ht.exists_endsWith hpossible
  refine ⟨s', hsent.reaches.trans hleads.reaches, ?_⟩
  cases hverdict : (outcome a.number).verdict cfg args with
  | ok frame =>
      rw [hverdict] at hended
      exact .inl ⟨_, hended.1⟩
  | error e =>
      rw [hverdict, Ended] at hended
      split_ifs at hended with hlt
      · exact .inr ⟨hlt, hended⟩
      · exact .inl ⟨_, hended⟩

/-- From an attempt on there is a run to the end of the call, by induction on the attempts that
are left. -/
theorem State.At.exists_finished {m : ℕ} (hm : cfg.maxRetries ≤ a.number + m)
    (hpossible : ∀ k, a.number ≤ k → k ≤ cfg.maxRetries → (outcome k).Possible args)
    (hn : a.number ≤ cfg.maxRetries) (h : s.At id args a .interCommandGap []) :
    ∃ s' r, Reaches (step cfg) (Undisturbed (prescribed outcome id)) s s' ∧
      s'.calls id = some ⟨args, .finished r⟩ := by
  induction m generalizing s a with
  | zero =>
      obtain ⟨s', hrun, ⟨r, hr⟩ | ⟨hlt, -⟩⟩ := h.exists_next (hpossible _ le_rfl hn)
      · exact ⟨s', r, hrun, hr⟩
      · omega
  | succ m ih =>
      obtain ⟨t, hrun, ⟨r, hr⟩ | ⟨hlt, ht⟩⟩ := h.exists_next (hpossible _ le_rfl hn)
      · exact ⟨t, r, hrun, hr⟩
      · have hnext : (a.next cfg).number = a.number + 1 := rfl
        obtain ⟨s', r, hrun', hr⟩ := ih (by omega)
          (fun k hk => hpossible k (by omega)) (by omega) ht
        exact ⟨s', r, hrun.trans hrun', hr⟩

/-- **The retry loop of `fetch`**: a call whose attempts have these outcomes does what the
specification says, in every run in which it ends; and it can end in this way. -/
theorem fetch_retryLoop (cfg : SerialModel) (id : CallId) (args : FetchArgs)
    (outcome : ℕ → Outcome) :
    (∀ s es r, RetryRun cfg outcome id s es → s.calls id = some ⟨args, .finished r⟩ →
      RetrySpec cfg outcome es r) ∧
    ((∀ k, 1 ≤ k → k ≤ cfg.maxRetries → (outcome k).Possible args) →
      ∃ s es r, RetryRun cfg outcome id s es ∧ s.calls id = some ⟨args, .finished r⟩) := by
  constructor
  · intro s es r hrun hr
    have haccounted := accounted_of_run hrun
    simp only [Accounted, hr, remaining, List.append_nil] at haccounted
    have hspec := retrySpec_retryLoop cfg args outcome
    rw [← haccounted] at hspec
    exact hspec
  · intro hpossible
    have hnone : ({} : State).calls id = none := rfl
    have hcall : (prescribed outcome id).environment {} (.call id args) := trivial
    obtain ⟨t, n, ht⟩ := ready_start.exists_started hnone hcall
    obtain ⟨s, r, hrun, hr⟩ := ht.started.exists_finished (m := cfg.maxRetries)
      (Nat.le_add_left _ _) hpossible cfg.validateMaxRetries
    obtain ⟨es, hes⟩ := (ht.reaches.trans hrun).exists_observed (observe id) []
    exact ⟨s, es, r, hes, hr⟩

/-- A timeout, a corrupted frame, and then the answer to an RQID request. -/
def mixedOutcomes : ℕ → Outcome
  | 1 => .timeout
  | 2 => .badChecksum
  | _ => .frame rqidFrame

theorem rqidFrame_readable : Readable rqidFrame :=
  ⟨2, [82, 81, 73, 68] ++ List.replicate 12 48, 13, by decide, by decide, rfl⟩

theorem mixedOutcomes_possible (k : ℕ) : (mixedOutcomes k).Possible rqidArgs := by
  have hframe : Outcome.ofFrame rqidArgs rqidFrame = .frame rqidFrame := by
    decide +kernel
  match k with
  | 1 | 2 => trivial
  | 0 | _ + 3 => exact ⟨rqidFrame_readable, hframe⟩

/-- The specification at `mixedOutcomes`: two failed attempts with a sleep after each, and the
frame of the third one. -/
theorem fetch_retryLoop_mixedOutcomes : ∃ s, RetryRun {} mixedOutcomes 0 s
      [.send, .sleep (1 / 10), .send, .sleep (1 / 5), .send] ∧
    s.calls 0 = some ⟨rqidArgs, .finished (.ok rqidFrame)⟩ := by
  have hloop := fetch_retryLoop {} 0 rqidArgs mixedOutcomes
  obtain ⟨s, es, r, hrun, hr⟩ := hloop.2 fun k _ _ => mixedOutcomes_possible k
  have hspec := hloop.1 s es r hrun hr
  have hfirst : FirstFrame mixedOutcomes 3 rqidFrame := by
    refine ⟨rfl, fun j hj hlt => ?_⟩
    obtain rfl | rfl : j = 1 ∨ j = 2 := by omega
    · exact nofun
    · exact nofun
  have hr' : r = .ok rqidFrame := (hspec.returns_iff _).mpr ⟨3, by omega, le_rfl, hfirst⟩
  have hes := hspec.success 3 rqidFrame (by omega) le_rfl hfirst
  have hbackoffs : backoffs (2 : ℚ) (1 / 10) (3 - 1) ++ [.send] =
      [.send, .sleep (1 / 10), .send, .sleep (1 / 5), .send] := by
    decide +kernel
  rw [hr'] at hr
  exact ⟨s, hbackoffs ▸ hes ▸ hrun, hr⟩

end IoBoard
