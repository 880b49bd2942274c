import IoBoard.Config
import IoBoard.IoTypes
import IoBoard.Polling
import Mathlib.Data.List.Basic

/-!
# Error State Management

`services/error_state_mgmt.py`: the service that consumes the IO status polling and keeps what
the door and deadbolt verdicts of `GET /health` need. All it knows of the door is the time of
the last observation that found it closed.

## Conventions

* A method that returns `False` for an error is named after the error, as in the source:
  `doorError` is true when the door is all right.
* Times are Unix times, as rationals. The time of an observation is that of its poll, and the
  time of a verdict is the time of the query.
* `isOverdue` is the condition `since and (time() - since) > seconds`. A time of exactly zero
  counts as no time; on a Unix clock it does not occur, and the theorems say so where it
  matters.
* A history is the list of what happened to the service: the items its loop has taken from
  its queue, results and errors, and the control requests recorded in between. Any order is
  possible, and the times need not grow.

## The door

That the door has been open for too long is a statement about the observations
(`OpenTooLong`): a period of open ones up to now, counted from the last closed one before it, or
from its first where there is none. The service keeps less than that. A door that was never seen
closed has no time at all, and a door that was seen closed is counted as open from then on,
whether it was seen open or the polls have failed since. `DoorTracked` is what the difference
comes to.

## Main results

* `doorLastClosedTime_after`: what the service knows of the door after a history.
* `doorError_iff`: **when the door verdict is that the door has been open for too long**.
* `not_doorError`: a door that is open from the start on is never reported.
-/

namespace IoBoard

/-- `ErrorStateManagementService`, without its queue and its task: its two settings, and the three
attributes that its loop and the routes share. -/
structure ErrorStateManagementService where
  doorOpenErrorSeconds : ℚ := 180
  deadboltApplyTimeoutSeconds : ℚ := 5
  doorLastClosedTime : Option ℚ := none
  deadboltEngagedTime : Option ℚ := none
  deadboltEngagedState : Option DeadboltState := none

/-- `since and (time() - since) > seconds`: a time of zero is not true, and no time is not
overdue. The comparison is strict. -/
def isOverdue (since : Option ℚ) (now seconds : ℚ) : Bool :=
  match since with
  | some t => t ≠ 0 && seconds < now - t
  | none => false

namespace ErrorStateManagementService

variable (s : ErrorStateManagementService)

/-- `door_error`: whether the door is all right, so the name says the opposite of the value. It
looks at the time of the last closed door and at nothing else. -/
def doorError (now : ℚ) : Bool :=
  if isOverdue s.doorLastClosedTime now s.doorOpenErrorSeconds then false else true

/-- `set_deadbolt_action`: a control request is recorded, with the state it leads to and the
present time. An earlier one is forgotten. -/
def setDeadboltAction (action : DeadboltAction) (now : ℚ) : ErrorStateManagementService :=
  { s with
    deadboltEngagedState := some (if action = .close then .locked else .unlock)
    deadboltEngagedTime := some now }

/-- `deadbolt_error`: whether the deadbolt is all right. Without a recorded request it always is. -/
def deadboltError (now : ℚ) : Bool :=
  if s.deadboltEngagedState = none then true
  else if isOverdue s.deadboltEngagedTime now s.deadboltApplyTimeoutSeconds then false
  else true

/-- The first half of the body of `_loop`: a closed door restarts the time it may be open. An
open one changes nothing. -/
def trackDoor (result : IOStatusData) (timestamp : ℚ) : ErrorStateManagementService :=
  if result.door = .closed then { s with doorLastClosedTime := some timestamp } else s

/-- The second half: a bolt in the recorded state ends the tracking of the control request. Any
observation counts, also one from before the request. -/
def trackDeadbolt (result : IOStatusData) : ErrorStateManagementService :=
  if s.deadboltEngagedState ≠ none ∧ some result.deadbolt = s.deadboltEngagedState then
    { s with deadboltEngagedState := none, deadboltEngagedTime := none }
  else s

/-- The body of `_loop` for a status that was polled at the time `timestamp`. The door comes
first. -/
def observe (result : IOStatusData) (timestamp : ℚ) : ErrorStateManagementService :=
  (s.trackDoor result timestamp).trackDeadbolt result

/-- One round of `_loop`, for what `get` returned or raised. An exception is logged, and nothing
changes. -/
def consume : Except PyExc (IOStatusData × ℚ) → ErrorStateManagementService
  | .ok (result, timestamp) => s.observe result timestamp
  | .error _ => s

end ErrorStateManagementService

/-! ### Histories -/

/-- What happens to the service: its loop takes an item, or a control request is recorded. -/
inductive ServiceEvent
  | consumed (item : Except PyExc (IOStatusData × ℚ))
  | controlled (action : DeadboltAction) (now : ℚ)

/-- One event. -/
def ErrorStateManagementService.handle (s : ErrorStateManagementService) :
    ServiceEvent → ErrorStateManagementService
  | .consumed item => s.consume item
  | .controlled action now => s.setDeadboltAction action now

/-- The service after a history, from the state that it starts with. -/
def ErrorStateManagementService.after (s : ErrorStateManagementService)
    (history : List ServiceEvent) : ErrorStateManagementService :=
  history.foldl handle s

/-- The successful observations of a history, oldest first, with the times of their polls. -/
def observations (history : List ServiceEvent) : List (IOStatusData × ℚ) :=
  history.filterMap fun
    | .consumed (.ok observation) => some observation
    | _ => none

/-- Nothing in the tracking of the bolt concerns the door. -/
theorem trackDeadbolt_door (s : ErrorStateManagementService) (result : IOStatusData) :
    (s.trackDeadbolt result).doorLastClosedTime = s.doorLastClosedTime ∧
      (s.trackDeadbolt result).doorOpenErrorSeconds = s.doorOpenErrorSeconds ∧
      (s.trackDeadbolt result).deadboltApplyTimeoutSeconds = s.deadboltApplyTimeoutSeconds := by
  unfold ErrorStateManagementService.trackDeadbolt
  split_ifs <;> exact ⟨rfl, rfl, rfl⟩

/-- Nothing in the tracking of the door concerns the bolt. -/
theorem trackDoor_deadbolt (s : ErrorStateManagementService) (result : IOStatusData)
    (timestamp : ℚ) :
    (s.trackDoor result timestamp).deadboltEngagedState = s.deadboltEngagedState ∧
      (s.trackDoor result timestamp).deadboltEngagedTime = s.deadboltEngagedTime ∧
      (s.trackDoor result timestamp).doorOpenErrorSeconds = s.doorOpenErrorSeconds ∧
      (s.trackDoor result timestamp).deadboltApplyTimeoutSeconds =
        s.deadboltApplyTimeoutSeconds := by
  unfold ErrorStateManagementService.trackDoor
  split_ifs <;> exact ⟨rfl, rfl, rfl, rfl⟩

theorem observe_doorLastClosedTime (s : ErrorStateManagementService) (result : IOStatusData)
    (timestamp : ℚ) : (s.observe result timestamp).doorLastClosedTime =
      if result.door = .closed then some timestamp else s.doorLastClosedTime := by
  rw [ErrorStateManagementService.observe, (trackDeadbolt_door _ _).1,
    ErrorStateManagementService.trackDoor]
  split_ifs <;> rfl

/-- Nothing that happens to the service changes its thresholds. -/
theorem handle_seconds (s : ErrorStateManagementService) (event : ServiceEvent) :
    (s.handle event).doorOpenErrorSeconds = s.doorOpenErrorSeconds ∧
      (s.handle event).deadboltApplyTimeoutSeconds = s.deadboltApplyTimeoutSeconds := by
  cases event with
  | controlled => exact ⟨rfl, rfl⟩
  | consumed item =>
      cases item with
      | error => exact ⟨rfl, rfl⟩
      | ok observation =>
          obtain ⟨-, hdoor, hdeadbolt⟩ :=
            trackDeadbolt_door (s.trackDoor observation.1 observation.2) observation.1
          obtain ⟨-, -, hdoor', hdeadbolt'⟩ := trackDoor_deadbolt s observation.1 observation.2
          exact ⟨hdoor.trans hdoor', hdeadbolt.trans hdeadbolt'⟩

theorem after_seconds (s : ErrorStateManagementService) (history : List ServiceEvent) :
    (s.after history).doorOpenErrorSeconds = s.doorOpenErrorSeconds ∧
      (s.after history).deadboltApplyTimeoutSeconds = s.deadboltApplyTimeoutSeconds := by
  induction history generalizing s with
  | nil => exact ⟨rfl, rfl⟩
  | cons event history ih =>
      obtain ⟨hdoor, hdeadbolt⟩ := ih (s.handle event)
      exact ⟨hdoor.trans (handle_seconds s event).1, hdeadbolt.trans (handle_seconds s event).2⟩

/-! ### What the service knows of the door -/

/-- The time of the last observation that found the door closed, if there is one. -/
def lastClosed : List (IOStatusData × ℚ) → Option ℚ
  | [] => none
  | o :: observed =>
      (lastClosed observed).or (if o.1.door = .closed then some o.2 else none)

theorem lastClosed_append (observed more : List (IOStatusData × ℚ)) :
    lastClosed (observed ++ more) = (lastClosed more).or (lastClosed observed) := by
  induction observed with
  | nil => simp [lastClosed]
  | cons o observed ih => rw [List.cons_append, lastClosed, ih, lastClosed, Option.or_assoc]

/-- **What the service knows of the door** is the time of the last observation of a closed
door in its history. -/
theorem doorLastClosedTime_after (s : ErrorStateManagementService)
    (history : List ServiceEvent) : (s.after history).doorLastClosedTime =
      (lastClosed (observations history)).or s.doorLastClosedTime := by
  induction history generalizing s with
  | nil => rfl
  | cons event history ih =>
      rw [ErrorStateManagementService.after, List.foldl_cons, ← ErrorStateManagementService.after,
        ih]
      cases event with
      | controlled => rfl
      | consumed item =>
          cases item with
          | error => rfl
          | ok observation =>
              rw [show observations (.consumed (.ok observation) :: history) =
                observation :: observations history from rfl, lastClosed, Option.or_assoc]
              congr 1
              rw [ErrorStateManagementService.handle, ErrorStateManagementService.consume,
                observe_doorLastClosedTime]
              split_ifs <;> rfl

/-! ### The door verdict -/

/-- **The door has been open since `start`**, as far as was observed: all observations after a
closed door at `start`, or from the first one at `start` on, found it open. There is at least
one of them. -/
def OpenSince (observed : List (IOStatusData × ℚ)) (start : ℚ) : Prop :=
  ∃ before period, observed = before ++ period ∧ period ≠ [] ∧ (∀ o ∈ period, o.1.door = .opened) ∧
    ((before = [] ∧ ∃ o, period.head? = some o ∧ o.2 = start) ∨
      ∃ o, before.getLast? = some o ∧ o.1.door = .closed ∧ o.2 = start)

/-- The door has been observed open without interruption for longer than `seconds`, up to now.
What it was between two observations is not known. -/
def OpenTooLong (observed : List (IOStatusData × ℚ)) (now seconds : ℚ) : Prop :=
  ∃ start, OpenSince observed start ∧ seconds < now - start

theorem lastClosed_eq_none_iff {observed : List (IOStatusData × ℚ)} :
    lastClosed observed = none ↔ ∀ o ∈ observed, o.1.door = .opened := by
  induction observed with
  | nil => simp [lastClosed]
  | cons o observed ih =>
      rw [lastClosed, Option.or_eq_none_iff, ih, List.forall_mem_cons, and_comm]
      refine and_congr_left fun _ => ?_
      cases o.1.door with
      | opened => simp
      | closed => simp

/-- A last observation of a closed door is followed by observations of an open one. -/
theorem exists_of_lastClosed {observed : List (IOStatusData × ℚ)} {c : ℚ}
    (h : lastClosed observed = some c) : ∃ before o period, observed = before ++ o :: period ∧
      o.1.door = .closed ∧ o.2 = c ∧ ∀ q ∈ period, q.1.door = .opened := by
  induction observed with
  | nil => cases h
  | cons o observed ih =>
      rw [lastClosed] at h
      cases hrest : lastClosed observed with
      | some c' =>
          rw [hrest, Option.some_or, ← hrest] at h
          obtain ⟨before, q, period, rfl, hq⟩ := ih h
          exact ⟨o :: before, q, period, rfl, hq⟩
      | none =>
          rw [hrest, Option.none_or] at h
          split_ifs at h with hdoor
          exact ⟨[], o, observed, rfl, hdoor, Option.some.inj h, lastClosed_eq_none_iff.mp hrest⟩

theorem lastClosed_of_getLast? {observed : List (IOStatusData × ℚ)} {o : IOStatusData × ℚ}
    (h : observed.getLast? = some o) (hdoor : o.1.door = .closed) :
    lastClosed observed = some o.2 := by
  obtain ⟨before, rfl⟩ := List.getLast?_eq_some_iff.mp h
  rw [lastClosed_append, lastClosed, if_pos hdoor]
  rfl

/-- A door that was never seen closed has been open since the first observation. -/
theorem openSince_iff_of_none {observed : List (IOStatusData × ℚ)} {start : ℚ}
    (h : lastClosed observed = none) :
    OpenSince observed start ↔ ∃ o, observed.head? = some o ∧ o.2 = start := by
  have hopened := lastClosed_eq_none_iff.mp h
  constructor
  · rintro ⟨before, period, rfl, -, -, ⟨rfl, hfirst⟩ | ⟨o, ho, hdoor, -⟩⟩
    · exact hfirst
    · have := hopened o (List.mem_append_left _ (List.mem_of_getLast? ho))
      cases hdoor.symm.trans this
  · rintro ⟨o, ho, rfl⟩
    refine ⟨[], observed, rfl, ?_, hopened, .inl ⟨rfl, o, ho, rfl⟩⟩
    rintro rfl
    cases ho

/-- A door that was seen closed has been open since the last time it was, if it has been
observed open since. -/
theorem openSince_iff_of_some {observed : List (IOStatusData × ℚ)} {c start : ℚ}
    (h : lastClosed observed = some c) : OpenSince observed start ↔
      (∃ o, observed.getLast? = some o ∧ o.1.door = .opened) ∧ start = c := by
  constructor
  · rintro ⟨before, period, rfl, hne, hopened, hstart⟩
    rw [lastClosed_append, lastClosed_eq_none_iff.mpr hopened, Option.none_or] at h
    obtain ⟨rfl, -⟩ | ⟨o, ho, hdoor, rfl⟩ := hstart
    · cases h
    · refine ⟨⟨period.getLast hne, ?_, hopened _ (List.getLast_mem hne)⟩,
        Option.some.inj ((lastClosed_of_getLast? ho hdoor).symm.trans h)⟩
      rw [List.getLast?_append, List.getLast?_eq_some_getLast hne, Option.some_or]
  · rintro ⟨⟨o, ho, hdoor⟩, rfl⟩
    obtain ⟨before, q, period, rfl, hclosed, rfl, hopened⟩ := exists_of_lastClosed h
    refine ⟨before ++ [q], period, by simp, ?_, hopened,
      .inr ⟨q, by simp, hclosed, rfl⟩⟩
    rintro rfl
    rw [List.getLast?_append, List.getLast?_singleton, Option.some_or] at ho
    cases ho
    cases hclosed.symm.trans hdoor

/-- `ErrorStateManagementService(...)`: nothing has been observed, and nothing is tracked. -/
def ErrorStateManagementService.new (doorOpenErrorSeconds deadboltApplyTimeoutSeconds : ℚ) :
    ErrorStateManagementService where
  doorOpenErrorSeconds := doorOpenErrorSeconds
  deadboltApplyTimeoutSeconds := deadboltApplyTimeoutSeconds

theorem isOverdue_some {t now seconds : ℚ} :
    isOverdue (some t) now seconds = true ↔ t ≠ 0 ∧ seconds < now - t := by
  simp [isOverdue]

/-- When the door verdict is an error: the door was last seen closed too long ago. -/
theorem doorError_eq_false_iff {s : ErrorStateManagementService} {now : ℚ} :
    s.doorError now = false ↔ ∃ c, s.doorLastClosedTime = some c ∧ c ≠ 0 ∧
      s.doorOpenErrorSeconds < now - c := by
  have hif (b : Bool) : (if b then false else true) = false ↔ b = true := by cases b <;> simp
  rw [ErrorStateManagementService.doorError, hif]
  cases s.doorLastClosedTime with
  | none => simp [isOverdue]
  | some c => simp [isOverdue_some]

/-- The last closed door tells enough: no open period can be too long yet, or the door was seen
closed, and its time counts exactly when the door has been seen open since. This is a condition
on the observations, without a look at the service. -/
def DoorTracked (observed : List (IOStatusData × ℚ)) (now seconds : ℚ) : Prop :=
  match lastClosed observed with
  | none => ∀ o, observed.head? = some o → now - o.2 ≤ seconds
  | some c => now - c ≤ seconds ∨
      (c ≠ 0 ↔ ∃ o, observed.getLast? = some o ∧ o.1.door = .opened)

/-- **The door verdict.** For every history, the service reports the door exactly when it has
been observed open without interruption for too long, if and only if its last closed
observation tells enough. -/
theorem doorError_iff (seconds timeout now : ℚ) (history : List ServiceEvent) :
    (((ErrorStateManagementService.new seconds timeout).after history).doorError now = false ↔
        OpenTooLong (observations history) now seconds) ↔
      DoorTracked (observations history) now seconds := by
  have hfalse : ((ErrorStateManagementService.new seconds timeout).after history).doorError now =
      false ↔ ∃ c, lastClosed (observations history) = some c ∧ c ≠ 0 ∧ seconds < now - c := by
    rw [doorError_eq_false_iff, doorLastClosedTime_after, (after_seconds _ _).1]
    simp [ErrorStateManagementService.new]
  rw [hfalse, OpenTooLong, DoorTracked]
  cases h : lastClosed (observations history) with
  | none =>
      simp only [openSince_iff_of_none h, reduceCtorEq, false_and, exists_false, false_iff,
        not_exists, not_and, not_lt]
      constructor
      · exact fun hno o ho => hno o.2 ⟨o, ho, rfl⟩
      · rintro hno start ⟨o, ho, rfl⟩
        exact hno o ho
  | some c =>
      simp only [openSince_iff_of_some h, Option.some.injEq, exists_eq_left']
      by_cases hlong : seconds < now - c
      · simp [hlong, not_le.mpr hlong]
      · simp [hlong, not_lt.mp hlong]

/-- A door that is open from the first observation on is never reported, and a door that was
last seen closed is reported when the polls fail for too long. -/
theorem not_doorError :
    (¬ ∀ seconds timeout now history, (observations history).Pairwise (·.2 < ·.2) →
      (∀ o ∈ observations history, o.2 ≤ now) → OpenTooLong (observations history) now seconds →
      ((ErrorStateManagementService.new seconds timeout).after history).doorError now = false) ∧
    ¬ ∀ seconds timeout now history, (observations history).Pairwise (·.2 < ·.2) →
      (∀ o ∈ observations history, o.2 ≤ now) →
      ((ErrorStateManagementService.new seconds timeout).after history).doorError now = false →
      OpenTooLong (observations history) now seconds := by
  constructor
  · intro h
    have hopen : OpenTooLong [(⟨.opened, .locked⟩, 1)] 300 180 :=
      ⟨1, (openSince_iff_of_none rfl).mpr ⟨_, rfl, rfl⟩, by norm_num⟩
    have hfalse := h 180 5 300 [.consumed (.ok (⟨.opened, .locked⟩, 1))]
      (List.pairwise_singleton _ _) (by simp [observations]) hopen
    exact absurd hfalse (by decide +kernel)
  · intro h
    obtain ⟨start, hstart, -⟩ := h 180 5 300 [.consumed (.ok (⟨.closed, .locked⟩, 1)),
      .consumed (.error .timeoutError)] (List.pairwise_singleton _ _)
      (by simp [observations]) (by decide +kernel)
    obtain ⟨⟨o, ho, hdoor⟩, -⟩ := (openSince_iff_of_some rfl).mp hstart
    cases ho
    cases hdoor

end IoBoard
