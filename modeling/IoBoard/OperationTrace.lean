import IoBoard.OperationLock

/-!
# What a Deadbolt Operation Returns

The entries of one request in the log follow the code of the route: it records its target,
sends MC/DC, and polls the status until it finds what was requested or the deadline has passed.

## The trace of a request

`ownEvents p log` are the entries of the request `p`, without those of others that stand in
between. `Traced` says for each stage which entries a request has made when it is there: a
recording, the return of `set_deadbolt`, and rounds of a call of `get_status` with what it has
read. The last round of a request that has returned *settles* it: the bolt is where it should be,
or the poll has ended at or after the deadline.

The deadline is the time of the first poll plus the timeout. It is set once, after the settle
sleep; `Deadline` computes it from the times at which the polls were called, so that no state has
to be mentioned. Times are exact rationals on the clock of the event loop.

That a poll has *read* a status says that its `get_status` call has returned a frame which the
command makes that status of (`ReadInv`). Nothing is assumed about the board: what the frame says
may be wrong or late.

## Main results

* `Operations.TraceInv.step`: every request has got as far in the log as in its code.
* `deadboltOperations_exclusive`: **deadbolt operations do not overlap, return what their last
  status poll has read, and leave the lock free**.
-/

open Runs Spans

namespace IoBoard

/-! ### The entries of a request -/

/-- A status poll of a request: its `get_status` call, when it was called, what it has returned,
and when. -/
structure Round where
  call : CallId
  asked : ℚ
  status : IOStatusData
  read : ℚ

/-- The entries of a poll: it is called, and it has read something. -/
def Round.events (r : Round) : List PostEvent :=
  [.asked r.call r.asked, .read r.call r.status r.read]

/-- The entries of a request that has sent MC/DC and polled the status so often, as long as it
has not ended. -/
def polled (rounds : List Round) : List PostEvent :=
  [.recorded, .controlled] ++ rounds.flatMap Round.events

theorem polled_append (rounds : List Round) (r : Round) :
    polled (rounds ++ [r]) = polled rounds ++ r.events := by
  simp [polled]

/-- The deadline of polls that were called at these times: the first one counts. -/
def Deadline (timeout : ℚ) (times : List ℚ) (deadline : ℚ) : Prop :=
  ∃ first, times.head? = some first ∧ deadline = first + timeout

/-- More polls have the same deadline, since the first one stays. -/
theorem Deadline.append {timeout deadline : ℚ} {times : List ℚ}
    (h : Deadline timeout times deadline) (more : List ℚ) :
    Deadline timeout (times ++ more) deadline := by
  obtain ⟨first, hfirst, hdeadline⟩ := h
  exact ⟨first, by rw [List.head?_append, hfirst, Option.some_or], hdeadline⟩

/-- The status poll `last` is the one with which a request returns, after these earlier rounds. -/
def Settles (timeout : ℚ) (action : DeadboltAction) (rounds : List Round) (last : Round) : Prop :=
  last.status.deadbolt = action.expectedState ∨
    ∃ deadline, Deadline timeout ((rounds ++ [last]).map Round.asked) deadline ∧
      deadline ≤ last.read

/-- How far a request has got in the log, when it is at `stage`. A request that has failed may
have got anywhere, but has ended. -/
def Traced (timeout : ℚ) (action : DeadboltAction) (events : List PostEvent) : PostStage → Prop
  | .acquiring => events = []
  | .controlling _ => events = [.recorded]
  | .settling _ => events = polled []
  | .verifying id deadline => ∃ rounds asked, events = polled rounds ++ [.asked id asked] ∧
      Deadline timeout (rounds.map Round.asked ++ [asked]) deadline
  | .pausing _ deadline => ∃ rounds, events = polled rounds ∧
      Deadline timeout (rounds.map Round.asked) deadline
  | .returned id state => ∃ rounds last, events = polled (rounds ++ [last]) ++ [.ended] ∧
      last.call = id ∧ last.status.deadbolt = state ∧ Settles timeout action rounds last
  | .failed _ => True

/-- The entries of the request `p` in the log, in their order. -/
def ownEvents (p : PostId) (log : List OperationEvent) : List PostEvent :=
  log.filterMap fun
    | .post q e => if q = p then some e else none
    | _ => none

variable {cfg : Settings} {m m' : Operations} {p q : PostId} {post post' : Post}
  {act : OperationAction} {timeout : ℚ}

@[simp] theorem ownEvents_append (p : PostId) (log more : List OperationEvent) :
    ownEvents p (log ++ more) = ownEvents p log ++ ownEvents p more :=
  List.filterMap_append

@[simp] theorem ownEvents_serial (p : PostId) (more : List Event) :
    ownEvents p (more.map .serial) = [] := by
  rw [ownEvents, List.filterMap_map, List.filterMap_eq_nil_iff]
  exact fun _ _ => rfl

@[simp] theorem ownEvents_self (p : PostId) (e : PostEvent) : ownEvents p [.post p e] = [e] := by
  simp [ownEvents]

theorem ownEvents_of_ne (h : q ≠ p) (e : PostEvent) : ownEvents q [.post p e] = [] := by
  simp [ownEvents, h.symm]

/-- The invariant of the entries: every request has got as far in the log as in its code. -/
structure Operations.TraceInv (timeout : ℚ) (m : Operations) : Prop where
  traced : ∀ p post, m.posts p = some post →
    Traced timeout post.action (ownEvents p m.log) post.stage
  unseen : ∀ p, m.posts p = none → ownEvents p m.log = []

namespace Operations.TraceInv

/-- Only the entries of the request that moves change. -/
theorem update (h : m.TraceInv timeout) (post' : Post) (more : List OperationEvent)
    (hposts : m'.posts = Function.update m.posts p (some post')) (hlog : m'.log = m.log ++ more)
    (hmore : ∀ q, q ≠ p → ownEvents q more = [])
    (htraced : Traced timeout post'.action (ownEvents p m.log ++ ownEvents p more) post'.stage) :
    m'.TraceInv timeout := by
  refine ⟨fun q post hq => ?_, fun q hq => ?_⟩
  · rw [hlog, ownEvents_append]
    rcases posts_of_update hposts hq with ⟨rfl, rfl⟩ | ⟨hqp, hq⟩
    · exact htraced
    · rw [hmore q hqp, List.append_nil]
      exact h.traced q post hq
  · rw [hposts] at hq
    by_cases hqp : q = p
    · subst hqp
      rw [Function.update_self] at hq
      cases hq
    · rw [Function.update_of_ne hqp] at hq
      rw [hlog, ownEvents_append, hmore q hqp, List.append_nil]
      exact h.unseen q hq

/-- The serial layer goes on, which is no entry of a request. -/
theorem withSerial (h : m.TraceInv timeout) (s : State) : (m.withSerial s).TraceInv timeout := by
  have hlog (p : PostId) : ownEvents p (m.withSerial s).log = ownEvents p m.log := by
    rw [Operations.withSerial, ownEvents_append, ownEvents_serial, List.append_nil]
  exact ⟨fun p post hp => hlog p ▸ h.traced p post hp, fun p hp => (hlog p).trans (h.unseen p hp)⟩

/-- A request leaves the lock with an error, at whatever stage it has the lock. -/
theorem fails (h : m.TraceInv timeout) (p : PostId) (post : Post) (e : PyExc) :
    (m.leave p post (.failed e)).TraceInv timeout :=
  h.update { post with stage := .failed e } _ rfl rfl (fun _ hq => ownEvents_of_ne hq _) trivial

/-- A request notes something and goes on to a stage at which it has noted that. -/
theorem notes (h : m.TraceInv timeout) {e : PostEvent} (post' : Post)
    (hposts : m'.posts = Function.update m.posts p (some post'))
    (hlog : m'.log = m.log ++ [.post p e])
    (htraced : Traced timeout post'.action (ownEvents p m.log ++ [e]) post'.stage) :
    m'.TraceInv timeout := by
  refine h.update post' _ hposts hlog (fun _ hq => ownEvents_of_ne hq _) ?_
  rw [ownEvents_self]
  exact htraced

/-- A request that sleeps has polled with the deadline that it has when it wakes up. -/
theorem asks (h : m.TraceInv timeout)
    (htimeout : m.errorState.deadboltApplyTimeoutSeconds = timeout)
    (hp : m.posts p = some post) {deadline : ℚ} (hsleeps : Sleeps m post.stage deadline) :
    ∃ rounds, ownEvents p m.log = polled rounds ∧
      Deadline timeout (rounds.map Round.asked ++ [m.serial.clock]) deadline := by
  have htraced := h.traced p post hp
  generalize post.stage = stage at htraced hsleeps
  cases hsleeps with
  | settling => exact ⟨[], htraced, m.serial.clock, rfl, by rw [htimeout]⟩
  | pausing wake deadline =>
      obtain ⟨rounds, hevents, hdeadline⟩ := htraced
      exact ⟨rounds, hevents, hdeadline.append _⟩

/-- **Every step takes a request as far in the log as in its code.** -/
theorem step (h : m.TraceInv timeout)
    (htimeout : m.errorState.deadboltApplyTimeoutSeconds = timeout)
    (hs : Operations.Stepped cfg m act m') : m'.TraceInv timeout := by
  cases hs with
  | @posted p action hp =>
      refine h.update { action := action } [] rfl (List.append_nil _).symm (fun _ _ => rfl) ?_
      rw [h.unseen p hp]
      rfl
  | @acquired p post id now s hp hstage =>
      refine h.update { post with control := some id, stage := .controlling id }
        ([.service (.controlled post.action now)] ++ [.post p .recorded]) rfl rfl ?_ ?_
      · intro q hq
        rw [ownEvents_append, ownEvents_of_ne hq]
        rfl
      · have htraced := h.traced p post hp
        rw [hstage] at htraced
        change ownEvents p m.log = [] at htraced
        rw [htraced, ownEvents_append, ownEvents_self]
        rfl
  | @asked p post id deadline s hp hsleeps =>
      obtain ⟨rounds, hevents, hdeadline⟩ := h.asks htimeout hp hsleeps
      refine h.notes { post with stage := .verifying id deadline } rfl rfl ?_
      exact ⟨rounds, m.serial.clock, by rw [hevents], hdeadline⟩
  | @gaveUp p post =>
      exact h.update { post with stage := .failed .cancelledError } [] rfl
        (List.append_nil _).symm (fun _ _ => rfl) trivial
  | @left p post => exact h.fails p post _
  | commanded => exact ⟨h.traced, h.unseen⟩
  | @consumed item =>
      have hlog (p : PostId) : ownEvents p (m.consume item).log = ownEvents p m.log := by
        rw [Operations.consume, ownEvents_append]
        exact List.append_nil _
      exact ⟨fun p post hp => hlog p ▸ h.traced p post hp,
        fun p hp => (hlog p).trans (h.unseen p hp)⟩
  | @wentOn _ _ s => exact h.withSerial s
  | @controlled _ _ s id fetched p post _ _ _ _ hcaller hstage =>
      have hn := h.withSerial s
      have htraced := hn.traced p post (posts_of_caller hcaller).2
      rw [hstage] at htraced
      rcases finishControl_cases (m.withSerial s) p post fetched with heq | ⟨e, heq⟩
      · rw [heq]
        refine hn.notes { post with stage := .settling _ } rfl rfl ?_
        change ownEvents p (m.withSerial s).log = [.recorded] at htraced
        rw [htraced]
        rfl
      · rw [heq]
        exact hn.fails p post e
  | @verified _ _ s id fetched p post deadline _ _ _ _ hcaller hstage =>
      have hn := h.withSerial s
      have htraced := hn.traced p post (posts_of_caller hcaller).2
      rw [hstage] at htraced
      obtain ⟨rounds, asked, hevents, hdeadline⟩ := htraced
      have hread (status : IOStatusData) :
          ownEvents p (m.withSerial s).log ++ [.read id status s.clock] =
            polled (rounds ++ [⟨id, asked, status, s.clock⟩]) := by
        rw [hevents, polled_append, List.append_assoc]
        rfl
      have htimes (status : IOStatusData) :
          Deadline timeout ((rounds ++ [(⟨id, asked, status, s.clock⟩ : Round)]).map Round.asked)
            deadline := by
        rw [List.map_append]
        exact hdeadline
      rcases finishStatus_cases (m.withSerial s) p post id deadline fetched with
        ⟨status, -, hdone, heq⟩ | ⟨status, -, -, -, heq⟩ | ⟨e, heq⟩
      · rw [heq]
        refine hn.update { post with stage := .returned id status.deadbolt }
          ([.post p (.read id status s.clock)] ++ [.post p .ended]) rfl ?_ ?_ ?_
        · exact List.append_assoc ..
        · intro q hq
          rw [ownEvents_append, ownEvents_of_ne hq, ownEvents_of_ne hq, List.append_nil]
        · rw [ownEvents_append, ownEvents_self, ownEvents_self, ← List.append_assoc, hread]
          refine ⟨rounds, _, rfl, rfl, rfl, hdone.imp_right fun hlate => ?_⟩
          exact ⟨deadline, htimes status, hlate⟩
      · rw [heq]
        refine hn.notes { post with stage := .pausing _ deadline } rfl rfl ?_
        change Traced timeout post.action
          (ownEvents p (m.withSerial s).log ++ [.read id status s.clock]) (.pausing _ deadline)
        rw [hread]
        exact ⟨_, rfl, htimes status⟩
      · rw [heq]
        exact hn.fails p post e

end Operations.TraceInv

/-! ### What the polls have read -/

/-- The invariant of the polls: what a request has read is what its `get_status` call made of
the frame that it got. -/
def Operations.ReadInv (m : Operations) : Prop :=
  ∀ p id status time, .post p (.read id status time) ∈ m.log →
    ∃ fetched, m.serial.result id = some fetched ∧ receiveStatus fetched = .ok status

/-- The results of earlier calls stay, and an entry that is no reading needs none. -/
theorem Operations.ReadInv.append (h : m.ReadInv) {more : List OperationEvent}
    (hlog : m'.log = m.log ++ more)
    (hresult : ∀ id r, m.serial.result id = some r → m'.serial.result id = some r)
    (hmore : ∀ p id status time, .post p (.read id status time) ∈ more →
      ∃ fetched, m'.serial.result id = some fetched ∧ receiveStatus fetched = .ok status) :
    m'.ReadInv := by
  intro p id status time hmem
  rw [hlog] at hmem
  rcases List.mem_append.mp hmem with hmem | hmem
  · obtain ⟨fetched, hfetched, hstatus⟩ := h p id status time hmem
    exact ⟨fetched, hresult id fetched hfetched, hstatus⟩
  · exact hmore p id status time hmem

/-- **Every step keeps what the polls have read.** A new reading is that of the call that ends
in the step. -/
theorem Operations.ReadInv.step (h : m.ReadInv) (hs : Operations.Stepped cfg m act m') :
    m'.ReadInv := by
  have called {id : CallId} {c : Command} {s : State} (hs : Calls cfg m.serial id c s) (j : CallId)
      (r : Except PyExc Bytes) (hr : m.serial.result j = some r) : s.result j = some r := by
    obtain ⟨args, hstep⟩ := hs.stepped
    exact result_of_stepped hstep hr
  have went {s : State} {sact : Action} (hs : IoBoard.Stepped cfg.serial m.serial sact s) :
      (m.withSerial s).ReadInv :=
    h.append rfl (fun _ _ => result_of_stepped hs) fun p id status time hmem => by
      obtain ⟨e, -, heq⟩ := List.mem_map.mp hmem
      cases heq
  have noted {n : Operations} (hn : n.ReadInv) {q : PostId} {e : PostEvent}
      (he : ∀ id status time, e = .read id status time →
        ∃ fetched, n.serial.result id = some fetched ∧ receiveStatus fetched = .ok status) :
      (n.note q e).ReadInv :=
    hn.append rfl (fun _ _ hr => hr) fun p id status time hmem => by
      cases List.mem_singleton.mp hmem
      exact he id status time rfl
  cases hs with
  | posted | gaveUp => exact h
  | consumed =>
      exact h.append rfl (fun _ _ hr => hr) fun p id status time hmem => by
        cases List.mem_singleton.mp hmem
  | commanded _ hs => exact h.append (List.append_nil _).symm (called hs) nofun
  | acquired _ _ _ hs =>
      exact h.append rfl (called hs) fun p id status time hmem => by
        rcases List.mem_pair.mp hmem with heq | heq <;> cases heq
  | asked _ _ hs =>
      exact h.append rfl (called hs) fun p id status time hmem => by
        cases List.mem_singleton.mp hmem
  | left => exact noted h fun _ _ _ heq => by cases heq
  | wentOn hs => exact went hs
  | @controlled _ _ s _ fetched p post hs =>
      rcases finishControl_cases (m.withSerial s) p post fetched with heq | ⟨e, heq⟩
      · rw [heq]
        exact noted (went hs) fun _ _ _ heq => by cases heq
      · rw [heq]
        exact noted (went hs) fun _ _ _ heq => by cases heq
  | @verified _ _ s id fetched p post deadline hs hcall hothers hend =>
      have hread {status : IOStatusData} (hstatus : receiveStatus fetched = .ok status) :
          ((m.withSerial s).note p (.read id status s.clock)).ReadInv := by
        refine noted (went hs) fun id' status' time heq => ?_
        cases heq
        exact ⟨fetched, hend.result_eq, hstatus⟩
      rcases finishStatus_cases (m.withSerial s) p post id deadline fetched with
        ⟨status, hstatus, -, heq⟩ | ⟨status, hstatus, -, -, heq⟩ | ⟨e, heq⟩
      · rw [heq]
        exact noted (hread hstatus) fun _ _ _ heq => by cases heq
      · rw [heq]
        exact hread hstatus
      · rw [heq]
        exact noted (went hs) fun _ _ _ heq => by cases heq

/-! ### Every run -/

/-- The invariants of the deadbolt operations together. -/
structure Operations.Inv (cfg : Settings) (m : Operations) : Prop where
  lock : m.LockInv
  call : m.CallInv
  log : m.LogInv
  trace : m.TraceInv cfg.health.deadboltApplyTimeoutSeconds
  read : m.ReadInv
  timeout : m.errorState.deadboltApplyTimeoutSeconds = cfg.health.deadboltApplyTimeoutSeconds

/-- They hold after the service has started: there is no request yet. -/
theorem inv_operationsConfigured (cfg : Settings) : (Operations.configured cfg).Inv cfg where
  lock _ := ⟨nofun, fun ⟨_, hp, _⟩ => nomatch hp⟩
  call :=
    { waits := fun _ _ _ hp => nomatch hp
      controls := fun _ _ ⟨_, hc, _⟩ => nomatch hc
      known := fun _ _ _ hp => nomatch hp
      unknown := fun _ _ hp => nomatch hp }
  log := .nil
  trace :=
    { traced := fun _ _ hp => nomatch hp
      unseen := fun _ _ => rfl }
  read := nofun
  timeout := rfl

/-- The timeout of the error-state service does not change after it has been made. -/
theorem timeout_of_operationStepped (hs : Operations.Stepped cfg m act m') :
    m'.errorState.deadboltApplyTimeoutSeconds = m.errorState.deadboltApplyTimeoutSeconds := by
  cases hs with
  | posted | acquired | asked | gaveUp | left | commanded | wentOn => rfl
  | @consumed item => exact (handle_seconds m.errorState (.consumed item)).2
  | @controlled _ _ s _ fetched p post =>
      rcases finishControl_cases (m.withSerial s) p post fetched with heq | ⟨e, heq⟩ <;>
        rw [heq] <;> rfl
  | @verified _ _ s id fetched p post deadline =>
      rcases finishStatus_cases (m.withSerial s) p post id deadline fetched with
        ⟨status, -, -, heq⟩ | ⟨status, -, -, -, heq⟩ | ⟨e, heq⟩ <;> rw [heq] <;> rfl

/-- They hold in every run, each by its step lemma. -/
theorem operationsInv_of_reachable (h : Operations.Reachable cfg m) : m.Inv cfg :=
  h.invariant (inv_operationsConfigured cfg) fun _ _ _ hinv _ hstep =>
    have hs := operationStepped_of_step hstep
    { lock := hinv.lock.step hs
      call := hinv.call.step hs
      log := hinv.log.step hinv.lock hinv.call hs
      trace := hinv.trace.step hinv.timeout hs
      read := hinv.read.step hs
      timeout := (timeout_of_operationStepped hs).trans hinv.timeout }

/-- An entry of a request stands in the log. -/
theorem mem_of_ownEvents {log : List OperationEvent} {e : PostEvent} (h : e ∈ ownEvents p log) :
    .post p e ∈ log := by
  obtain ⟨x, hx, heq⟩ := List.mem_filterMap.mp h
  cases x with
  | serial | service => cases heq
  | post q e' =>
      change (if q = p then some e' else none) = some e at heq
      rw [Option.ite_none_right_eq_some] at heq
      obtain ⟨rfl, heq⟩ := heq
      exact Option.some.inj heq ▸ hx

/-- A call that fails, or is cancelled, leaves the lock free if it had it. -/
theorem operationLock_of_failed (h : m.LockInv) (hs : Operations.Stepped cfg m act m') {e : PyExc}
    (hp : m.posts p = some post) (hpost : ∀ e, post.stage ≠ .failed e)
    (hp' : m'.posts p = some post') (hfailed : post'.stage = .failed e) :
    m'.operationLock = if m.operationLock = some p then none else m.operationLock := by
  -- only a request that moves can fail
  have moved {q : PostId} {new : Post} (hposts : m'.posts = Function.update m.posts q (some new)) :
      p = q ∧ new.stage = .failed e := by
    rcases posts_of_update hposts hp' with ⟨hq, rfl⟩ | ⟨-, hold⟩
    · exact ⟨hq, hfailed⟩
    · rw [Option.some.inj (hold.symm.trans hp)] at hfailed
      exact absurd hfailed (hpost e)
  have unmoved (hposts : m'.posts = m.posts) : False := by
    rw [hposts, hp] at hp'
    exact hpost e ((congrArg Post.stage (Option.some.inj hp')).trans hfailed)
  have left {q : PostId} {old new : Post} (hq : m.posts q = some old)
      (hin : old.stage.isInside) (hposts : m'.posts = Function.update m.posts q (some new))
      (hlock : m'.operationLock = none) :
      m'.operationLock = if m.operationLock = some p then none else m.operationLock := by
    obtain ⟨rfl, -⟩ := moved hposts
    rw [hlock, if_pos ((h p).mpr ⟨old, hq, hin⟩)]
  cases hs with
  | posted | acquired | asked => cases (moved rfl).2
  | commanded | consumed | wentOn => exact (unmoved rfl).elim
  | @gaveUp q old hq hstage =>
      obtain ⟨rfl, -⟩ := moved (q := q) rfl
      refine (if_neg fun hlock => ?_).symm
      have hin := (inside_iff hq).mp ((h p).mp hlock)
      rw [hstage] at hin
      exact hin
  | left hq hsleeps =>
      obtain ⟨deadline, hsleeps⟩ := hsleeps
      exact left hq hsleeps.isInside rfl rfl
  | @controlled _ _ s id fetched q old _ _ _ _ hcaller hstage =>
      have hq := (posts_of_caller hcaller).2
      have hin : old.stage.isInside := by rw [hstage]; trivial
      rcases finishControl_cases (m.withSerial s) q old fetched with heq | ⟨e, heq⟩
      · rw [heq] at moved
        cases (moved rfl).2
      · rw [heq] at left ⊢
        exact left hq hin rfl rfl
  | @verified _ _ s id fetched q old deadline _ _ _ _ hcaller hstage =>
      have hq := (posts_of_caller hcaller).2
      have hin : old.stage.isInside := by rw [hstage]; trivial
      rcases finishStatus_cases (m.withSerial s) q old id deadline fetched with
        ⟨status, -, -, heq⟩ | ⟨status, -, -, -, heq⟩ | ⟨e, heq⟩
      · rw [heq] at left ⊢
        exact left hq hin rfl rfl
      · rw [heq] at moved
        cases (moved rfl).2
      · rw [heq] at left ⊢
        exact left hq hin rfl rfl

/-- **Deadbolt operations do not overlap.** In every run no target is recorded between the
recording of a request and its end, and every MC/DC request sent in between is its own; the
state that a request returns is the one that its last `get_status` call has read, after its
MC/DC command, and is the requested one or was read at or after the deadline; a request that
fails or is cancelled leaves the lock free if it had it; and the lock is taken only while a
request is inside. -/
theorem deadboltOperations_exclusive (h : Operations.Reachable cfg m) :
    (∀ p, (∀ q, ¬ During p m.log (.post q .recorded)) ∧
      ∀ t, During p m.log (.serial (.tx t)) → t.label = deadboltControl.label →
        m.controlCall p = some t.call) ∧
    (∀ p post id state, m.posts p = some post → post.stage = .returned id state →
      ∃ rounds last fetched, ownEvents p m.log = polled (rounds ++ [last]) ++ [.ended] ∧
        last.call = id ∧ m.serial.result id = some fetched ∧
        receiveStatus fetched = .ok last.status ∧ last.status.deadbolt = state ∧
        Settles cfg.health.deadboltApplyTimeoutSeconds post.action rounds last) ∧
    (∀ act m' p post post' e, m.step cfg act = some m' → m.posts p = some post →
      (∀ e, post.stage ≠ .failed e) → m'.posts p = some post' → post'.stage = .failed e →
      m'.operationLock = if m.operationLock = some p then none else m.operationLock) ∧
    ∀ p, m.operationLock = some p ↔ m.Inside p := by
  have hinv := operationsInv_of_reachable h
  refine ⟨fun p => ⟨hinv.log.alone p, hinv.log.sends p⟩, fun p post id state hp hstage => ?_,
    fun act m' p post post' e hstep hp hpost hp' hfailed => ?_, hinv.lock⟩
  · have htraced := hinv.trace.traced p post hp
    rw [hstage] at htraced
    obtain ⟨rounds, last, hevents, rfl, hstate, hsettles⟩ := htraced
    have hmem : PostEvent.read last.call last.status last.read ∈ ownEvents p m.log := by
      rw [hevents, polled_append]
      simp [Round.events]
    obtain ⟨fetched, hfetched, hstatus⟩ := hinv.read p _ _ _ (mem_of_ownEvents hmem)
    exact ⟨rounds, last, fetched, hevents, rfl, hfetched, hstatus, hstate, hsettles⟩
  · exact operationLock_of_failed hinv.lock (operationStepped_of_step hstep) hp hpost hp' hfailed

/-- A request opens the bolt while another one waits for the lock: MC/DC is answered, and the
first status poll finds the bolt unlocked. -/
def confirmedRun : List OperationAction :=
  let control : Bytes := [2, 77, 67, 68, 67, 79, 3, 69]
  let status : Bytes := [2, 82, 81, 73, 68, 67, 76, 79, 83, 69, 68, 85, 78, 76, 79, 67, 75, 3, 15]
  [.post 0 .open, .post 1 .close, .acquire 0 0 1000, .resume 0 .ready, .resume 0 .ready,
    .resume 0 .ready, .resume 0 .ready, .resume 0 .ready, .tick (1 / 20), .resume 0 .timedOut,
    .resume 0 .ready, .receive 0 control, .resume 0 .ready, .resume 0 .ready, .resume 0 .ready,
    .tick 1, .wake 0 1, .resume 1 .ready, .resume 1 .ready, .resume 1 .ready, .resume 1 .ready,
    .tick (1 / 20), .resume 1 .timedOut, .resume 1 .ready, .receive 0 status, .resume 1 .ready,
    .resume 1 .ready, .resume 1 .ready]

theorem confirmedRun_isSome :
    (runFrom (Operations.step {}) (Operations.configured {}) confirmedRun).isSome := by
  decide +kernel

/-- The state that `confirmedRun` ends in. -/
def confirmedState : Operations :=
  (runFrom (Operations.step {}) (Operations.configured {}) confirmedRun).get confirmedRun_isSome

theorem confirmedState_posts :
    confirmedState.posts 0 = some ⟨.open, some 0, .returned 1 .unlock⟩ := by
  decide +kernel

/-- What the first request of `confirmedRun` has done. -/
theorem deadboltOperations_exclusive_confirmedRun : ∃ m, Operations.Reachable {} m ∧
    ∃ rounds last fetched, ownEvents 0 m.log = polled (rounds ++ [last]) ++ [.ended] ∧
      last.call = 1 ∧ m.serial.result 1 = some fetched ∧
      receiveStatus fetched = .ok last.status ∧ last.status.deadbolt = .unlock ∧
      Settles 5 .open rounds last := by
  have hm : Operations.Reachable {} confirmedState := reaches_get confirmedRun_isSome
  exact ⟨_, hm, (deadboltOperations_exclusive hm).2.1 0 _ 1 .unlock confirmedState_posts rfl⟩

end IoBoard
