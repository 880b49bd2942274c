import IoBoard.DeadboltVerdict
import IoBoard.Health

/-!
# Health over Histories

`get_health` of `api/v1/routers/machine.py` as a whole. The door verdict is taken first; the two
board commands come after it, and the services run on while they are under way, so the deadbolt
verdict may be taken of a later state of the error-state service. Cancellation is not caught.

## The three verdicts

* The door is unhealthy when it has been open for too long, by the observations that the service
  has taken, up to the time of the query.
* The loadcells are healthy when the board answered, and all readings have the documented form
  and are within the limits.
* The deadbolt is healthy when the board answered with a status that is not a locked bolt at an
  open door, and the last control request is not overdue: a poll has confirmed it, or its time is
  not up.

## Conventions

The two states of the service are states of runs, `m` when the door is judged and `m'` when the
deadbolt is, each with its own history; nothing is assumed about what happened in between. What
the two commands did is given by their outcomes. The times of the queries are Unix times, as
rationals, and need not be later than those of the history. A control request that was recorded at
the time 0 counts as none, as in the source.

## Main results

* `deadboltError_eq_false_iff`: when a control request is reported, over any history.
* `health_verdicts`: **what each verdict of the endpoint says about the history** of the services
  and about what the board answered.
-/

open Runs

namespace IoBoard

/-- `HealthResponse`, one verdict for each part of the machine. -/
structure HealthResponse where
  deadbolt : HealthStatus
  loadcells : HealthStatus
  door : HealthStatus
  deriving DecidableEq, Repr

/-- The door verdict, which no command precedes. -/
def doorStatus (s : ErrorStateManagementService) (now : ℚ) : HealthStatus :=
  if s.doorError now = false then .unhealthy else .healthy

/-- The deadbolt verdict on what `get_status` returned or raised. The overdue request
is asked for before the command, and a failed command makes the verdict unhealthy. -/
def deadboltStatus (s : ErrorStateManagementService) (now : ℚ)
    (status : Except PyExc IOStatusData) : Except PyExc HealthStatus :=
  let verdict : HealthStatus := if s.deadboltError now = false then .unhealthy else .healthy
  match status with
  | .ok ioStatus =>
      if ioStatus.deadbolt = .locked ∧ ioStatus.door = .opened then .ok .unhealthy
      else .ok verdict
  | .error e => if e.isException then .ok .unhealthy else .error e

/-- `get_health`: the error-state service at `doorNow`, what `get_loadcells` did, the service at
`deadboltNow`, and what `get_status` did. -/
def getHealth (cfg : HealthModel) (atDoor : ErrorStateManagementService) (doorNow : ℚ)
    (loadcells : Except PyExc (List Str)) (atDeadbolt : ErrorStateManagementService)
    (deadboltNow : ℚ) (status : Except PyExc IOStatusData) : Except PyExc HealthResponse := do
  let loadcells ← loadcellsStatus cfg loadcells
  let deadbolt ← deadboltStatus atDeadbolt deadboltNow status
  return { deadbolt, loadcells, door := doorStatus atDoor doorNow }

/-! ### Control requests over histories -/

/-- **The last control request is overdue**: no poll since has found the bolt where it was to go,
and more than `timeout` seconds have passed. -/
def Unconfirmed (history : List ServiceEvent) (now timeout : ℚ) : Prop :=
  ∃ before action time since, history = before ++ .controlled action time :: since ∧
    (∀ e ∈ since, e.isConsumed) ∧
    (∀ o ∈ observations since, o.1.deadbolt ≠ action.expectedState) ∧
    time ≠ 0 ∧ timeout < now - time

/-- A history has a last control request, or none at all. -/
theorem exists_last_control (history : List ServiceEvent) :
    (∀ e ∈ history, e.isConsumed) ∨ ∃ before action time since,
      history = before ++ .controlled action time :: since ∧ ∀ e ∈ since, e.isConsumed := by
  induction history with
  | nil => exact .inl (List.forall_mem_nil _)
  | cons e history ih =>
      rcases ih with hall | ⟨before, action, time, since, rfl, hsince⟩
      · cases e with
        | consumed item => exact .inl (List.forall_mem_cons.mpr ⟨trivial, hall⟩)
        | controlled action time => exact .inr ⟨[], action, time, history, rfl, hall⟩
      · exact .inr ⟨e :: before, action, time, since, rfl, hsince⟩

/-- What the verdict is after a control request: it depends on what came since, and on the time. -/
theorem deadboltError_after_control (seconds timeout now time : ℚ) (before : List ServiceEvent)
    (action : DeadboltAction) {since : List ServiceEvent} (hsince : ∀ e ∈ since, e.isConsumed) :
    ((ErrorStateManagementService.new seconds timeout).after
        (before ++ .controlled action time :: since)).deadboltError now = true ↔
      (∃ o ∈ observations since, o.1.deadbolt = action.expectedState) ∨
        ¬ (time ≠ 0 ∧ timeout < now - time) := by
  have hsplit : (ErrorStateManagementService.new seconds timeout).after
      (before ++ .controlled action time :: since) =
      (((ErrorStateManagementService.new seconds timeout).after before).setDeadboltAction
        action time).after since := by
    rw [after_append]
    rfl
  have htimeout : (((ErrorStateManagementService.new seconds timeout).after
      before).setDeadboltAction action time).deadboltApplyTimeoutSeconds = timeout :=
    (after_seconds _ before).2
  rw [hsplit, deadboltError_after (setDeadboltAction_state _ action time) rfl hsince now, htimeout]

/-- **When a control request is reported**, over any history: exactly if there is an overdue one. -/
theorem deadboltError_eq_false_iff (seconds timeout now : ℚ) (history : List ServiceEvent) :
    ((ErrorStateManagementService.new seconds timeout).after history).deadboltError now = false ↔
      Unconfirmed history now timeout := by
  constructor
  · intro hfalse
    rcases exists_last_control history with hall | ⟨before, action, time, since, rfl, hsince⟩
    · have hnone := deadbolt_after_none (s := .new seconds timeout) rfl hall
      rw [ErrorStateManagementService.deadboltError, if_pos hnone] at hfalse
      cases hfalse
    · have hverdict := deadboltError_after_control seconds timeout now time before action hsince
      rw [hfalse, iff_false_left Bool.false_ne_true, not_or, not_not] at hverdict
      refine ⟨before, action, time, since, rfl, hsince, fun o ho hmatch => ?_, hverdict.2⟩
      exact hverdict.1 ⟨o, ho, hmatch⟩
  · rintro ⟨before, action, time, since, rfl, hsince, hno, hlate⟩
    have hverdict := deadboltError_after_control seconds timeout now time before action hsince
    rw [← Bool.not_eq_true, hverdict, not_or, not_not]
    refine ⟨?_, hlate⟩
    rintro ⟨o, ho, hmatch⟩
    exact hno o ho hmatch

/-! ### The endpoint -/

/-- When the door verdict is unhealthy. -/
theorem doorStatus_eq_unhealthy_iff {s : ErrorStateManagementService} {now : ℚ} :
    doorStatus s now = .unhealthy ↔ s.doorError now = false := by
  rw [doorStatus]
  split_ifs with hlate <;> simp [hlate]

/-- When the loadcell verdict is healthy. -/
theorem loadcellsStatus_eq_healthy_iff {cfg : HealthModel} {outcome : Except PyExc (List Str)} :
    loadcellsStatus cfg outcome = .ok .healthy ↔ ∃ values, outcome = .ok values ∧
      ∀ x ∈ values, matchesLoadcellPattern x = true ∧ inLoadcellRange cfg x = true := by
  cases outcome with
  | ok values => simp [loadcellsStatus_healthy_iff]
  | error e =>
      rw [loadcellsStatus]
      split_ifs <;> simp

/-- When the deadbolt verdict is healthy. -/
theorem deadboltStatus_eq_healthy_iff {s : ErrorStateManagementService} {now : ℚ}
    {status : Except PyExc IOStatusData} :
    deadboltStatus s now status = .ok .healthy ↔ (∃ ioStatus, status = .ok ioStatus ∧
      ¬ (ioStatus.deadbolt = .locked ∧ ioStatus.door = .opened)) ∧ s.deadboltError now ≠ false := by
  cases status with
  | ok ioStatus =>
      rw [deadboltStatus]
      by_cases hlocked : ioStatus.deadbolt = .locked ∧ ioStatus.door = .opened
      · refine iff_of_false (by simp [hlocked]) ?_
        rintro ⟨⟨other, heq, hno⟩, -⟩
        cases heq
        exact hno hlocked
      · rw [if_neg hlocked]
        cases s.deadboltError now with
        | false => simp
        | true => simpa using hlocked
  | error e =>
      rw [deadboltStatus]
      split_ifs <;> simp

/-- A verdict is reached unless a cancellation is raised, which is no `Exception`. -/
theorem exists_status_iff {α : Type} {outcome : Except PyExc α}
    {verdict : Except PyExc HealthStatus}
    (hok : ∀ a, outcome = .ok a → ∃ v, verdict = .ok v)
    (herror : ∀ e, outcome = .error e →
      verdict = if e.isException then .ok .unhealthy else .error e) :
    (∃ v, verdict = .ok v) ↔ ∀ e, outcome = .error e → e.isException = true := by
  cases outcome with
  | ok a => exact iff_of_true (hok a rfl) (by simp)
  | error e =>
      rw [herror e rfl]
      cases he : e.isException <;> simp [he]

theorem exists_loadcellsStatus_iff {cfg : HealthModel} {outcome : Except PyExc (List Str)} :
    (∃ v, loadcellsStatus cfg outcome = .ok v) ↔
      ∀ e, outcome = .error e → e.isException = true := by
  refine exists_status_iff (fun values h => ?_) fun e h => ?_
  · rw [h, loadcellsStatus]
    split_ifs <;> exact ⟨_, rfl⟩
  · rw [h, loadcellsStatus]

theorem exists_deadboltStatus_iff {s : ErrorStateManagementService} {now : ℚ}
    {status : Except PyExc IOStatusData} :
    (∃ v, deadboltStatus s now status = .ok v) ↔
      ∀ e, status = .error e → e.isException = true := by
  refine exists_status_iff (fun ioStatus h => ?_) fun e h => ?_
  · rw [h, deadboltStatus]
    split_ifs <;> exact ⟨_, rfl⟩
  · rw [h, deadboltStatus]

/-- A response is made of the three verdicts. -/
theorem getHealth_eq_ok_iff {cfg : HealthModel} {atDoor atDeadbolt : ErrorStateManagementService}
    {doorNow deadboltNow : ℚ} {loadcells : Except PyExc (List Str)}
    {status : Except PyExc IOStatusData} {r : HealthResponse} :
    getHealth cfg atDoor doorNow loadcells atDeadbolt deadboltNow status = .ok r ↔
      loadcellsStatus cfg loadcells = .ok r.loadcells ∧
        deadboltStatus atDeadbolt deadboltNow status = .ok r.deadbolt ∧
        doorStatus atDoor doorNow = r.door := by
  obtain ⟨deadbolt, cells, door⟩ := r
  rw [getHealth]
  cases loadcellsStatus cfg loadcells with
  | error e => simp [bind, Except.bind]
  | ok cells' =>
      cases deadboltStatus atDeadbolt deadboltNow status with
      | error e => simp [bind, Except.bind]
      | ok deadbolt' =>
          simp only [bind, Except.bind, pure, Except.pure, Except.ok.injEq,
            HealthResponse.mk.injEq]
          tauto

variable {cfg : Settings} {m m' : Operations}

/-- **The health endpoint.** In every run, whatever the clients, the services and the board have
done before the door is judged (at `m`) and before the deadbolt is (at `m'`): a response comes
unless the request is cancelled, and each verdict says of the history exactly what it is for. -/
theorem health_verdicts (h : Operations.Reachable cfg m) (h' : Operations.Reachable cfg m')
    (doorNow deadboltNow : ℚ) (loadcells : Except PyExc (List Str))
    (status : Except PyExc IOStatusData) :
    ((∃ r, getHealth cfg.health m.errorState doorNow loadcells m'.errorState deadboltNow status =
        .ok r) ↔
      (∀ e, loadcells = .error e → e.isException = true) ∧
        ∀ e, status = .error e → e.isException = true) ∧
    ∀ r, getHealth cfg.health m.errorState doorNow loadcells m'.errorState deadboltNow status =
        .ok r →
      (r.door = .unhealthy ↔ ∃ closed,
        lastClosed (observations (serviceEvents m.log)) = some closed ∧ closed ≠ 0 ∧
          cfg.health.doorOpenErrorSeconds < doorNow - closed) ∧
      (r.loadcells = .healthy ↔ ∃ values, loadcells = .ok values ∧
        ∀ x ∈ values, matchesLoadcellPattern x = true ∧ inLoadcellRange cfg.health x = true) ∧
      (r.deadbolt = .healthy ↔
        (∃ ioStatus, status = .ok ioStatus ∧
          ¬ (ioStatus.deadbolt = .locked ∧ ioStatus.door = .opened)) ∧
        ¬ Unconfirmed (serviceEvents m'.log) deadboltNow
          cfg.health.deadboltApplyTimeoutSeconds) := by
  rw [(serviceInv_of_reachable h).history, (serviceInv_of_reachable h').history]
  refine ⟨?_, fun r hr => ?_⟩
  · constructor
    · rintro ⟨r, hr⟩
      obtain ⟨hcells, hdeadbolt, -⟩ := getHealth_eq_ok_iff.mp hr
      exact ⟨exists_loadcellsStatus_iff.mp ⟨_, hcells⟩,
        exists_deadboltStatus_iff.mp ⟨_, hdeadbolt⟩⟩
    · rintro ⟨hloadcells, hstatus⟩
      obtain ⟨cells, hcells⟩ := exists_loadcellsStatus_iff.mpr hloadcells
      obtain ⟨deadbolt, hdeadbolt⟩ := exists_deadboltStatus_iff.mpr hstatus
      exact ⟨⟨deadbolt, cells, _⟩, getHealth_eq_ok_iff.mpr ⟨hcells, hdeadbolt, rfl⟩⟩
  · obtain ⟨hcells, hdeadbolt, hdoor⟩ := getHealth_eq_ok_iff.mp hr
    refine ⟨?_, ?_, ?_⟩
    · rw [← hdoor, doorStatus_eq_unhealthy_iff, doorError_eq_false_iff, doorLastClosedTime_after,
        (after_seconds _ _).1]
      simp [ErrorStateManagementService.new]
    · rw [← loadcellsStatus_eq_healthy_iff, hcells, Except.ok.injEq]
    · rw [← deadboltError_eq_false_iff, ← ne_eq, ← deadboltStatus_eq_healthy_iff, hdeadbolt,
        Except.ok.injEq]

/-- After `confirmedRun` no poll has shown the bolt yet: a minute later the request is reported,
though its route has found the bolt in place. -/
theorem health_verdicts_confirmedRun : ∃ r,
    getHealth {} confirmedState.errorState 1060 (.ok (List.replicate 10 "+00100".toList))
      confirmedState.errorState 1060 (.ok ⟨.closed, .unlock⟩) = .ok r ∧
    r = ⟨.unhealthy, .healthy, .healthy⟩ ∧
    Unconfirmed (serviceEvents confirmedState.log) 1060 5 := by
  have hm : Operations.Reachable {} confirmedState := reaches_get confirmedRun_isSome
  obtain ⟨hsome, hverdicts⟩ := health_verdicts hm hm 1060 1060
    (.ok (List.replicate 10 "+00100".toList)) (.ok ⟨.closed, .unlock⟩)
  obtain ⟨r, hr⟩ := hsome.mpr ⟨by simp, by simp⟩
  obtain ⟨-, -, hdeadbolt⟩ := hverdicts r hr
  have hcomputed : (getHealth {} confirmedState.errorState 1060
      (.ok (List.replicate 10 "+00100".toList)) confirmedState.errorState 1060
      (.ok ⟨.closed, .unlock⟩)).toOption = some ⟨.unhealthy, .healthy, .healthy⟩ := by
    decide +kernel
  have hresponse : r = ⟨.unhealthy, .healthy, .healthy⟩ := by
    rw [hr] at hcomputed
    exact Option.some.inj hcomputed
  refine ⟨r, hr, hresponse, ?_⟩
  by_contra hno
  have hhealthy := hdeadbolt.mpr ⟨⟨_, rfl, by decide⟩, hno⟩
  rw [hresponse] at hhealthy
  cases hhealthy

end IoBoard
