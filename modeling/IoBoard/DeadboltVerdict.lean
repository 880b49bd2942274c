import IoBoard.OperationTrace

/-!
# The Deadbolt Verdict

`deadbolt_error` after a `POST /deadbolt` request: the error-state service forgets the request
only when its own loop takes a poll that finds the bolt in the requested state. That the route
has found it there does not count.

## The state of the service

The service keeps the last control request and when it was recorded, and forgets it when a poll
confirms it. So its state after a history of events is determined by what came since the last
request: whether one of the polls taken since then has found the bolt in that state
(`deadbolt_after`). A poll counts when the loop takes it from the queue, whenever it was made.

## The verdict

A request is *confirmed* when it has returned exactly the state it has asked for, and no later one
was recorded. The documented meaning of the verdict would be that a confirmed request is healthy;
the theorem says when it is: if the loop has taken a confirming poll since the recording, or if
the request is not overdue at the time of the query. The time of the recording is read from the
log, and a time of exactly zero would count as no time. Times are rationals, and the query
may come at any of them, independently of the clock of the event loop.

## Main results

* `deadbolt_after`: what the service knows of a request after a history without another one.
* `deadboltError_iff`: **when the verdict on a request that was confirmed is healthy**.
* `not_deadboltError_iff`: a confirmed request is reported when the polls come too late.
-/

open Runs

namespace IoBoard

/-! ### Histories of the error-state service -/

section Histories

variable {s : ErrorStateManagementService} {history : List ServiceEvent}

/-- The loop of the service has taken an item; no request was recorded. -/
def ServiceEvent.isConsumed : ServiceEvent → Prop
  | .consumed _ => True
  | .controlled _ _ => False

/-- A poll that finds the bolt in the recorded state ends the tracking. -/
theorem observe_of_eq {o : IOStatusData × ℚ} (h : some o.1.deadbolt = s.deadboltEngagedState) :
    (s.observe o.1 o.2).deadboltEngagedState = none := by
  rw [ErrorStateManagementService.observe, ErrorStateManagementService.trackDeadbolt,
    (trackDoor_deadbolt s o.1 o.2).1, if_pos ⟨h ▸ Option.some_ne_none _, h⟩]

/-- Any other poll leaves it as it is, and an error does too. -/
theorem observe_of_ne {o : IOStatusData × ℚ} (h : some o.1.deadbolt ≠ s.deadboltEngagedState) :
    (s.observe o.1 o.2).deadboltEngagedState = s.deadboltEngagedState ∧
      (s.observe o.1 o.2).deadboltEngagedTime = s.deadboltEngagedTime := by
  obtain ⟨hstate, htime, -⟩ := trackDoor_deadbolt s o.1 o.2
  rw [ErrorStateManagementService.observe, ErrorStateManagementService.trackDeadbolt, hstate,
    if_neg fun hboth => h hboth.2]
  exact ⟨hstate, htime⟩

/-- Without a request nothing is tracked, and no poll changes that. -/
theorem deadbolt_after_none (h : s.deadboltEngagedState = none)
    (hconsumed : ∀ e ∈ history, e.isConsumed) :
    (s.after history).deadboltEngagedState = none := by
  induction history generalizing s with
  | nil => exact h
  | cons e history ih =>
      have hrest : ∀ e ∈ history, e.isConsumed :=
        fun e he => hconsumed e (List.mem_cons_of_mem _ he)
      match e, hconsumed e List.mem_cons_self with
      | .consumed (.error _), _ => exact ih h hrest
      | .consumed (.ok o), _ =>
          refine ih ((observe_of_ne ?_).1.trans h) hrest
          rw [h]
          nofun

/-- **What the service knows of a request**: nothing once a poll was taken that found the bolt in
the requested state, and the request as it was recorded until then. -/
theorem deadbolt_after {state : DeadboltState} {time : ℚ}
    (hstate : s.deadboltEngagedState = some state) (htime : s.deadboltEngagedTime = some time)
    (hconsumed : ∀ e ∈ history, e.isConsumed) :
    (∃ o ∈ observations history, o.1.deadbolt = state) ∧
        (s.after history).deadboltEngagedState = none ∨
      (∀ o ∈ observations history, o.1.deadbolt ≠ state) ∧
        (s.after history).deadboltEngagedState = some state ∧
        (s.after history).deadboltEngagedTime = some time := by
  induction history generalizing s with
  | nil => exact .inr ⟨List.forall_mem_nil _, hstate, htime⟩
  | cons e history ih =>
      have hrest : ∀ e ∈ history, e.isConsumed :=
        fun e he => hconsumed e (List.mem_cons_of_mem _ he)
      match e, hconsumed e List.mem_cons_self with
      | .consumed (.error _), _ => exact ih hstate htime hrest
      | .consumed (.ok o), _ =>
          have hobs : observations (.consumed (.ok o) :: history) = o :: observations history := rfl
          rw [hobs]
          by_cases hmatch : o.1.deadbolt = state
          · have hnone : (s.observe o.1 o.2).deadboltEngagedState = none :=
              observe_of_eq (by rw [hmatch, hstate])
            have hafter := deadbolt_after_none hnone hrest
            exact .inl ⟨⟨o, List.mem_cons_self, hmatch⟩, hafter⟩
          · have hne : some o.1.deadbolt ≠ s.deadboltEngagedState := by
              rw [hstate]
              exact fun heq => hmatch (Option.some.inj heq)
            obtain ⟨hstate', htime'⟩ := observe_of_ne hne
            rcases ih (hstate'.trans hstate) (htime'.trans htime) hrest with
              ⟨⟨q, hq, hqstate⟩, hnone⟩ | ⟨hno, hkept⟩
            · exact .inl ⟨⟨q, List.mem_cons_of_mem _ hq, hqstate⟩, hnone⟩
            · exact .inr ⟨List.forall_mem_cons.mpr ⟨hmatch, hno⟩, hkept⟩

theorem after_append (s : ErrorStateManagementService) (history more : List ServiceEvent) :
    s.after (history ++ more) = (s.after history).after more :=
  List.foldl_append

/-- **The deadbolt verdict** on a request that was recorded at `time`: healthy once a poll was
taken that found the bolt in the requested state, and until it is overdue. -/
theorem deadboltError_after {state : DeadboltState} {time : ℚ}
    (hstate : s.deadboltEngagedState = some state) (htime : s.deadboltEngagedTime = some time)
    (hconsumed : ∀ e ∈ history, e.isConsumed) (now : ℚ) :
    (s.after history).deadboltError now = true ↔
      (∃ o ∈ observations history, o.1.deadbolt = state) ∨
        ¬ (time ≠ 0 ∧ s.deadboltApplyTimeoutSeconds < now - time) := by
  rw [ErrorStateManagementService.deadboltError, (after_seconds s history).2]
  rcases deadbolt_after hstate htime hconsumed with ⟨hseen, hnone⟩ | ⟨hno, hstate', htime'⟩
  · rw [if_pos hnone]
    exact ⟨fun _ => .inl hseen, fun _ => rfl⟩
  · rw [if_neg (by rw [hstate']; nofun), htime', or_iff_right, ← isOverdue_some]
    · cases isOverdue (some time) now s.deadboltApplyTimeoutSeconds <;> simp
    · rintro ⟨o, ho, hmatch⟩
      exact hno o ho hmatch

end Histories

/-! ### The control requests in the log -/

variable {cfg : Settings} {m m' : Operations} {p q : PostId} {post : Post}
  {act : OperationAction} {log : List OperationEvent}

/-- What has happened to the error-state service, in order. -/
def serviceEvents (log : List OperationEvent) : List ServiceEvent :=
  log.filterMap fun
    | .service e => some e
    | _ => none

/-- The requests whose targets were recorded, in this order. -/
def recordings (log : List OperationEvent) : List PostId :=
  log.filterMap fun
    | .post p .recorded => some p
    | _ => none

@[simp] theorem serviceEvents_append (log more : List OperationEvent) :
    serviceEvents (log ++ more) = serviceEvents log ++ serviceEvents more :=
  List.filterMap_append

@[simp] theorem recordings_append (log more : List OperationEvent) :
    recordings (log ++ more) = recordings log ++ recordings more :=
  List.filterMap_append

/-- The entry has nothing to do with the error-state service: it is neither an item of its loop
nor a control request. -/
def OperationEvent.isQuiet : OperationEvent → Prop
  | .serial _ => True
  | .service _ => False
  | .post _ e => e ≠ .recorded

theorem serviceEvents_of_isQuiet {more : List OperationEvent} (h : ∀ x ∈ more, x.isQuiet) :
    serviceEvents more = [] := by
  refine List.filterMap_eq_nil_iff.mpr fun x hx => ?_
  cases x with
  | service => exact (h _ hx).elim
  | serial | post => rfl

theorem recordings_of_isQuiet {more : List OperationEvent} (h : ∀ x ∈ more, x.isQuiet) :
    recordings more = [] := by
  refine List.filterMap_eq_nil_iff.mpr fun x hx => ?_
  match x, h x hx with
  | .serial _, _ | .post _ .controlled, _ | .post _ (.asked _ _), _ | .post _ (.read _ _ _), _
  | .post _ .ended, _ => rfl
  | .post _ .recorded, hne => exact absurd rfl hne

/-- What a step does to the error-state service: a request is recorded, an item is taken, or
nothing. -/
theorem service_of_operationStepped (hs : Operations.Stepped cfg m act m') :
    (∃ p post now, m.posts p = some post ∧
      m'.errorState = m.errorState.setDeadboltAction post.action now ∧
      m'.log = m.log ++ [.service (.controlled post.action now), .post p .recorded]) ∨
    (∃ item, m'.errorState = m.errorState.consume item ∧
      m'.log = m.log ++ [.service (.consumed item)]) ∨
    m'.errorState = m.errorState ∧ ∃ more, m'.log = m.log ++ more ∧ ∀ x ∈ more, x.isQuiet := by
  have serial (s : State) :
      ∃ more, (m.withSerial s).log = m.log ++ more ∧ ∀ x ∈ more, x.isQuiet := by
    refine ⟨_, rfl, fun x hx => ?_⟩
    obtain ⟨e, -, rfl⟩ := List.mem_map.mp hx
    trivial
  have noted {log log' : List OperationEvent} {p : PostId} {e : PostEvent}
      (hlog : ∃ more, log' = log ++ more ∧ ∀ x ∈ more, x.isQuiet) (he : e ≠ .recorded) :
      ∃ more, log' ++ [.post p e] = log ++ more ∧ ∀ x ∈ more, x.isQuiet := by
    obtain ⟨more, rfl, hmore⟩ := hlog
    refine ⟨more ++ [.post p e], List.append_assoc .., fun x hx => ?_⟩
    rcases List.mem_append.mp hx with hx | hx
    · exact hmore x hx
    · obtain rfl := List.mem_singleton.mp hx
      exact he
  have same : ∃ more, m.log = m.log ++ more ∧ ∀ x ∈ more, x.isQuiet :=
    ⟨[], (List.append_nil _).symm, List.forall_mem_nil _⟩
  cases hs with
  | @acquired p post id now s hp => exact .inl ⟨p, post, now, hp, rfl, rfl⟩
  | @consumed item => exact .inr (.inl ⟨item, rfl, rfl⟩)
  | posted | gaveUp | commanded => exact .inr (.inr ⟨rfl, same⟩)
  | asked | left => exact .inr (.inr ⟨rfl, noted same (by nofun)⟩)
  | @wentOn _ _ s => exact .inr (.inr ⟨rfl, serial s⟩)
  | @controlled _ _ s _ fetched p post =>
      rcases finishControl_cases (m.withSerial s) p post fetched with heq | ⟨e, heq⟩
      · rw [heq]
        exact .inr (.inr ⟨rfl, noted (serial s) (by nofun)⟩)
      · rw [heq]
        exact .inr (.inr ⟨rfl, noted (serial s) (by nofun)⟩)
  | @verified _ _ s id fetched p post deadline =>
      rcases finishStatus_cases (m.withSerial s) p post id deadline fetched with
        ⟨status, -, -, heq⟩ | ⟨status, -, -, -, heq⟩ | ⟨e, heq⟩
      · rw [heq]
        exact .inr (.inr ⟨rfl, noted (noted (serial s) (by nofun)) (by nofun)⟩)
      · rw [heq]
        exact .inr (.inr ⟨rfl, noted (serial s) (by nofun)⟩)
      · rw [heq]
        exact .inr (.inr ⟨rfl, noted (serial s) (by nofun)⟩)

/-- A request keeps its action, and is not removed. -/
theorem action_of_operationStepped (hs : Operations.Stepped cfg m act m')
    (hp : m.posts p = some post) :
    ∃ post', m'.posts p = some post' ∧ post'.action = post.action := by
  have moved {q : PostId} {old new : Post} (hq : m.posts q = some old)
      (hnew : new.action = old.action) : ∃ post',
      Function.update m.posts q (some new) p = some post' ∧ post'.action = post.action := by
    by_cases hqp : p = q
    · subst hqp
      obtain rfl := Option.some.inj (hp.symm.trans hq)
      exact ⟨new, Function.update_self .., hnew⟩
    · exact ⟨post, (Function.update_of_ne hqp ..).trans hp, rfl⟩
  cases hs with
  | @posted q action hq =>
      refine ⟨post, (Function.update_of_ne ?_ ..).trans hp, rfl⟩
      rintro rfl
      cases hq.symm.trans hp
  | acquired hq | asked hq | gaveUp hq | left hq => exact moved hq rfl
  | commanded | consumed | wentOn => exact ⟨post, hp, rfl⟩
  | @controlled _ _ s _ fetched q old _ _ _ _ hcaller =>
      have hq := (posts_of_caller hcaller).2
      rcases finishControl_cases (m.withSerial s) q old fetched with heq | ⟨e, heq⟩
      · rw [heq]
        exact moved hq rfl
      · rw [heq]
        exact moved hq rfl
  | @verified _ _ s id fetched q old deadline _ _ _ _ hcaller =>
      have hq := (posts_of_caller hcaller).2
      rcases finishStatus_cases (m.withSerial s) q old id deadline fetched with
        ⟨status, -, -, heq⟩ | ⟨status, -, -, -, heq⟩ | ⟨e, heq⟩
      · rw [heq]
        exact moved hq rfl
      · rw [heq]
        exact moved hq rfl
      · rw [heq]
        exact moved hq rfl

/-- The invariant of the error-state service: it is in the state after its history, and the last
request that was recorded stands in the log with its action. -/
structure Operations.ServiceInv (start : ErrorStateManagementService) (m : Operations) : Prop where
  history : m.errorState = start.after (serviceEvents m.log)
  last : ∀ p, (recordings m.log).getLast? = some p → ∃ before now since post,
    m.posts p = some post ∧
    m.log = before ++ [.service (.controlled post.action now), .post p .recorded] ++ since ∧
    ∀ e ∈ serviceEvents since, e.isConsumed

/-- **Every step keeps the history of the error-state service.** The two steps that change the
service log what they do. -/
theorem Operations.ServiceInv.step {start : ErrorStateManagementService} (h : m.ServiceInv start)
    (hs : Operations.Stepped cfg m act m') : m'.ServiceInv start := by
  have goesOn {more : List OperationEvent} (hlog : m'.log = m.log ++ more)
      (hmore : recordings more = []) (hconsumed : ∀ e ∈ serviceEvents more, e.isConsumed)
      (p : PostId) (hp : (recordings m'.log).getLast? = some p) : ∃ before now since post,
        m'.posts p = some post ∧
        m'.log = before ++ [.service (.controlled post.action now), .post p .recorded] ++ since ∧
        ∀ e ∈ serviceEvents since, e.isConsumed := by
    rw [hlog, recordings_append, hmore, List.append_nil] at hp
    obtain ⟨before, now, since, post, hpost, hold, hsince⟩ := h.last p hp
    obtain ⟨post', hpost', haction⟩ := action_of_operationStepped hs hpost
    refine ⟨before, now, since ++ more, post', hpost', ?_, fun e he => ?_⟩
    · rw [hlog, hold, haction, List.append_assoc]
    · rw [serviceEvents_append] at he
      rcases List.mem_append.mp he with he | he
      · exact hsince e he
      · exact hconsumed e he
  rcases service_of_operationStepped hs with ⟨p, post, now, hp, hstate, hlog⟩ |
    ⟨item, hstate, hlog⟩ | ⟨hstate, more, hlog, hmore⟩
  · refine ⟨?_, fun q hq => ?_⟩
    · rw [hlog, serviceEvents_append, after_append, ← h.history, hstate]
      rfl
    · obtain ⟨post', hpost', haction⟩ := action_of_operationStepped hs hp
      rw [hlog, recordings_append] at hq
      obtain rfl : p = q := by simpa [recordings] using hq
      exact ⟨m.log, now, [], post', hpost', by rw [haction, hlog, List.append_nil], nofun⟩
  · refine ⟨?_, goesOn hlog rfl fun e he => ?_⟩
    · rw [hlog, serviceEvents_append, after_append, ← h.history, hstate]
      rfl
    · obtain rfl := List.mem_singleton.mp he
      trivial
  · have hnone := serviceEvents_of_isQuiet hmore
    refine ⟨?_, goesOn hlog (recordings_of_isQuiet hmore) fun e he => ?_⟩
    · rw [hlog, serviceEvents_append, hnone, List.append_nil, ← h.history, hstate]
    · rw [hnone] at he
      cases he

/-- It holds in every run. -/
theorem serviceInv_of_reachable (h : Operations.Reachable cfg m) :
    m.ServiceInv (.new cfg.health.doorOpenErrorSeconds cfg.health.deadboltApplyTimeoutSeconds) :=
  h.invariant ⟨rfl, nofun⟩ fun _ _ _ ih _ hstep => ih.step (operationStepped_of_step hstep)

/-! ### Confirmed requests -/

/-- The request `p` has returned exactly the state that it has asked for, and it is the last
control request. -/
structure Operations.Confirmed (m : Operations) (p : PostId) (state : DeadboltState) : Prop where
  returned : ∃ post id, m.posts p = some post ∧ post.action.expectedState = state ∧
    post.stage = .returned id state
  last : (recordings m.log).getLast? = some p

/-- A poll that found the bolt in the state has been taken by the loop of the error-state
service. This is a condition on what the loop has consumed. -/
def Reflected (state : DeadboltState) (log : List OperationEvent) : Prop :=
  ∃ o ∈ observations (serviceEvents log), o.1.deadbolt = state

/-- The state that `set_deadbolt_action` records is the one that the route expects. -/
theorem setDeadboltAction_state (s : ErrorStateManagementService) (action : DeadboltAction)
    (now : ℚ) :
    (s.setDeadboltAction action now).deadboltEngagedState = some action.expectedState := by
  cases action <;> rfl

/-- **The deadbolt verdict on a confirmed request.** In every run in which a request has returned
the state that it has asked for and no later one was recorded, the verdict is healthy at the time
`now` if and only if the loop of the error-state service has taken a poll since the recording that
found the bolt in that state, or the request is not overdue. -/
theorem deadboltError_iff (h : Operations.Reachable cfg m) {state : DeadboltState}
    (hconfirmed : m.Confirmed p state) : ∃ before action time since,
      m.log = before ++ [.service (.controlled action time), .post p .recorded] ++ since ∧
      ∀ now, m.errorState.deadboltError now = true ↔
        Reflected state since ∨
          ¬ (time ≠ 0 ∧ cfg.health.deadboltApplyTimeoutSeconds < now - time) := by
  have hinv := serviceInv_of_reachable h
  obtain ⟨post, id, hp, rfl, -⟩ := hconfirmed.returned
  obtain ⟨before, time, since, post', hp', hlog, hconsumed⟩ := hinv.last p hconfirmed.last
  obtain rfl := Option.some.inj (hp.symm.trans hp')
  refine ⟨before, post.action, time, since, hlog, fun now => ?_⟩
  have hstate : m.errorState = (((ErrorStateManagementService.new cfg.health.doorOpenErrorSeconds
      cfg.health.deadboltApplyTimeoutSeconds).after (serviceEvents before)).setDeadboltAction
        post.action time).after (serviceEvents since) := by
    rw [hinv.history, hlog, serviceEvents_append, serviceEvents_append, after_append, after_append]
    rfl
  rw [hstate, deadboltError_after (setDeadboltAction_state ..) rfl hconsumed]
  have htimeout := (after_seconds (.new cfg.health.doorOpenErrorSeconds
    cfg.health.deadboltApplyTimeoutSeconds) (serviceEvents before)).2
  rw [Reflected, show (ErrorStateManagementService.setDeadboltAction _ _
    _).deadboltApplyTimeoutSeconds = _ from htimeout]
  rfl

/-- The request of `confirmedRun` has returned the state that it has asked for. -/
theorem confirmedState_confirmed : confirmedState.Confirmed 0 .unlock where
  returned := ⟨_, 1, confirmedState_posts, rfl, rfl⟩
  last := by decide +kernel

/-- After `confirmedRun` the request is healthy until it is overdue. -/
theorem deadboltError_iff_confirmedRun : ∃ since time, ∀ now,
    confirmedState.errorState.deadboltError now = true ↔
      Reflected .unlock since ∨ ¬ (time ≠ 0 ∧ (5 : ℚ) < now - time) := by
  have hm : Operations.Reachable {} confirmedState := reaches_get confirmedRun_isSome
  obtain ⟨before, action, time, since, -, hverdict⟩ :=
    deadboltError_iff hm confirmedState_confirmed
  exact ⟨since, time, hverdict⟩

/-- `confirmedRun`; then the bolt falls back before the first background poll, and the verdict is
asked for ten seconds later. -/
def fallenRun : List OperationAction :=
  confirmedRun ++ [.consume (.ok (⟨.closed, .locked⟩, 1003)), .tick 10]

theorem fallenRun_isSome :
    (runFrom (Operations.step {}) (Operations.configured {}) fallenRun).isSome := by
  decide +kernel

/-- A confirmed request is reported as not applied. -/
theorem not_deadboltError_iff : ¬ ∀ cfg m p state now, Operations.Reachable cfg m →
    m.Confirmed p state → (∀ time, m.errorState.deadboltEngagedTime = some time → time ≤ now) →
    m.errorState.deadboltError now = true := by
  intro hclaim
  set m := (runFrom (Operations.step {}) (Operations.configured {}) fallenRun).get fallenRun_isSome
    with hm
  have hconfirmed : m.Confirmed 0 .unlock :=
    { returned := ⟨⟨.open, some 0, .returned 1 .unlock⟩, 1, by rw [hm]; decide +kernel, rfl, rfl⟩
      last := by rw [hm]; decide +kernel }
  have hengaged : m.errorState.deadboltEngagedTime = some 1000 := by rw [hm]; decide +kernel
  have hhealthy := hclaim {} m 0 .unlock 1012 (reaches_get fallenRun_isSome) hconfirmed
    fun time htime => by
      rw [hengaged] at htime
      obtain rfl := Option.some.inj htime
      norm_num
  have hreported : m.errorState.deadboltError 1012 = false := by rw [hm]; decide +kernel
  cases hreported.symm.trans hhealthy

end IoBoard
