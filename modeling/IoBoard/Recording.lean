import IoBoard.PollingService

/-!
# Recording

`services/recording.py` on top of the polling service it subscribes to. The loop of the
recorder waits for the event `_recording_running` and then for an item of its queue.
`stop_recording` replaces the queue; the loop may still be suspended in `get` on an old one.

The recorder is the only consumer of its queues, which are numbered: `queue` is the number of
`self._queue`, those below it have been shut down, and those above it do not exist yet. Of the
items a `get` returns, an error is logged and only a result is appended.

## Sessions

`session` is not part of the program: it records the poll results that were broadcast since the
last `start_recording`, up to the `stop_recording` after it. A recording is right when it is
the list of the successful results of its session. Two things can go wrong, both because the
loop has not had its turn yet: results that wait in the queue at a stop are abandoned with it,
except for one that the loop is already in `get` for, and that one is appended later, possibly
after the list was cleared for the next recording.

## The invariant

`pending` is what the loop will still take, as things are, and `abandoned` what a stop would take
from it. The invariant is that what is recorded and what is pending make up the session; it
needs to know at which queue the loop is, and is kept by every step but a start or a stop with
successful results pending or to be abandoned. `OnlySettled` excludes just those, by a condition
on the state before the step.

## Main results

* `recordingInv_of_reaches`: the invariant of the recorder, in every run in which it is
  started and stopped only when no successful result is waiting to be recorded.
* `recordings_eq`: **in these runs a recorder that has caught up holds exactly the successful
  results of its session**.
* `not_recordings_eq`: a result of an earlier session may get into a recording.
-/

open Runs

namespace IoBoard

/-- The queues of the polling service: those of the recorder, and those of its other
subscribers. The recorder never takes up a queue it has shut down. -/
inductive QueueName
  | recording (n : ℕ)
  | client (n : ℕ)
  deriving DecidableEq

/-- Where the loop of the recorder is suspended: at `_recording_running.wait()`, woken by
`set()` or not, or in `get` on one of its queues. -/
inductive RecordingStage
  | waiting (woken : Bool)
  | getting (n : ℕ)
  deriving DecidableEq

/-- A loop that waits is woken. `set()` does nothing to a loop that is in `get`. -/
def RecordingStage.wake : RecordingStage → RecordingStage
  | .waiting _ => .waiting true
  | .getting n => .getting n

/-- `RecordingService`, after `start`, with the polling service. Its task is never cancelled in
a run; the application does that only on shutdown. -/
structure RecordingService (α : Type*) where
  polling : PollingService QueueName α := {}
  queue : ℕ := 0
  recordings : List (α × ℚ) := []
  recordingRunning : Bool := false
  loop : RecordingStage := .waiting false
  session : List (StreamItem α) := []

variable {α : Type*}

/-- The results that a consumer gets without an exception. -/
def successes (items : List (StreamItem α)) : List (α × ℚ) :=
  items.filterMap fun item => (StreamQueue.getNowait item).toOption

@[simp] theorem successes_append (items more : List (StreamItem α)) :
    successes (items ++ more) = successes items ++ successes more :=
  List.filterMap_append

namespace RecordingService

variable (s : RecordingService α)

/-- The items of a queue of the recorder. -/
def items (n : ℕ) : List (StreamItem α) :=
  (s.polling.queues (.recording n)).items

/-- `_recording_running.set()`, which wakes the loop if it waits. On a set event it has no
effect. -/
def setRecordingRunning : RecordingService α :=
  if s.recordingRunning then s
  else
    { s with
      recordingRunning := true
      loop := s.loop.wake }

/-- `start_recording`. The list is cleared before the loop has seen the start, and the current
queue is subscribed. -/
def startRecording (clear : Bool) : RecordingService α :=
  let s := if clear then { s with recordings := [], session := [] } else s
  let s := s.setRecordingRunning
  { s with polling := s.polling.subscribe (.recording s.queue) }

/-- `shutdown` of the current queue. The items that it holds stay there. -/
def shutdownQueue : RecordingService α :=
  { s with polling := { s.polling with
      queues := Function.update s.polling.queues (.recording s.queue)
        { s.polling.queues (.recording s.queue) with isShutdown := true } } }

/-- `stop_recording`. The new queue is one that has not been used. What waits in the old one
stays there, and the loop is not told. -/
def stopRecording : RecordingService α :=
  let s := { s with recordingRunning := false }
  let s := { s with polling := s.polling.unsubscribe (.recording s.queue) }
  let s := s.shutdownQueue
  { s with queue := s.queue + 1 }

/-- `get` on the queue `n` returns its first item or raises its error, and the body of the
loop appends what was returned. -/
def record (n : ℕ) (item : StreamItem α) (rest : List (StreamItem α)) : RecordingService α :=
  { s with
    polling := { s.polling with
      queues := Function.update s.polling.queues (.recording n)
        { s.polling.queues (.recording n) with items := rest }
      consumed := s.polling.consumed ++ [(0, .recording n, StreamQueue.getNowait item)] }
    recordings := s.recordings ++ successes [item] }

/-- The loop from a `get` on its current queue, which holds `items`, up to its next await.
Neither `get` on a queue with items nor `wait` on a set event suspends. -/
def consume (s : RecordingService α) : List (StreamItem α) → RecordingService α
  | [] => { s with loop := .getting s.queue }
  | item :: rest =>
      let s := s.record s.queue item rest
      if s.recordingRunning then s.consume rest else { s with loop := .waiting false }

/-- The next round of the loop, up to its next await. The event may have been cleared in the
meantime. -/
def nextRound : RecordingService α :=
  if s.recordingRunning then s.consume (s.items s.queue) else { s with loop := .waiting false }

/-- Resumes the loop, when what it awaits is there. In `get` on a queue that is shut down and
empty it sees `QueueShutDown`, and goes on with its next round. -/
def resumeLoop : Option (RecordingService α) :=
  match s.loop with
  | .waiting false => none
  | .waiting true => some (s.consume (s.items s.queue))
  | .getting n =>
      match s.items n with
      | item :: rest => some (s.record n item rest).nextRound
      | [] => if (s.polling.queues (.recording n)).isShutdown then some s.nextRound else none

end RecordingService

/-- What can happen next: the polling service or one of its other subscribers goes on, the
recorder is started or stopped, or its loop is resumed. -/
inductive RecordingAction (α : Type*)
  | polling (act : PollingAction QueueName α)
  | startRecording
  | stopRecording
  | resume

/-- Only the recorder subscribes and consumes its queues. Everything else in the polling service
may happen at any time. -/
def PollingAction.isForeign : PollingAction QueueName α → Bool
  | .subscribe (.recording _) | .unsubscribe (.recording _) | .shutdown (.recording _)
  | .get _ (.recording _) => false
  | _ => true

/-- One step of the recorder and the polling service. What a broadcast adds goes into the
session while a recording is on. -/
def RecordingService.step (s : RecordingService α) :
    RecordingAction α → Option (RecordingService α)
  | .polling act =>
      if act.isForeign then
        (s.polling.step act).map fun p =>
          { s with
            polling := p
            session := s.session ++
              if s.recordingRunning then (p.polled.drop s.polling.polled.length).map (·.2)
              else [] }
      else none
  | .startRecording => some (s.startRecording true)
  | .stopRecording => some s.stopRecording
  | .resume => s.resumeLoop

/-- The states of the recorder in every run. -/
def RecordingService.Reachable (s : RecordingService α) : Prop :=
  Reaches RecordingService.step Any {} s

/-- The loop has caught up: it can only be resumed once something else has happened. In an event
loop that is not busy this is soon the case after every poll. -/
def RecordingService.CaughtUp (s : RecordingService α) : Prop :=
  s.resumeLoop = none

namespace RecordingService

variable {s s' : RecordingService α}

/-! ### What is still to be recorded -/

/-- The items that the loop will still take, as things are: at most one of an old queue, and
those of the current one. -/
def pending (s : RecordingService α) : List (StreamItem α) :=
  match s.loop with
  | .getting n => (if n < s.queue then (s.items n).take 1 else []) ++ s.items s.queue
  | .waiting _ => s.items s.queue

/-- The items that the loop will not take any more once the recorder is stopped: it takes one
more item only if it is suspended in `get` on the queue that is shut down. -/
def abandoned (s : RecordingService α) : List (StreamItem α) :=
  (s.items s.queue).drop (if s.loop = .getting s.queue then 1 else 0)

/-- The recorder is started only when no successful result is still to be recorded, and
stopped only when none would be abandoned. -/
def OnlySettled (s : RecordingService α) : RecordingAction α → Prop
  | .startRecording => successes s.pending = []
  | .stopRecording => successes s.abandoned = []
  | _ => True

/-- What holds of the queues of the recorder, wherever its loop is: the current one is
subscribed exactly while it runs, and the older ones are shut down. -/
structure QueueInv (s : RecordingService α) : Prop where
  polling : s.polling.Inv
  subscribed : ∀ n, .recording n ∈ s.polling.subscribers ↔
    n = s.queue ∧ s.recordingRunning = true
  shut : ∀ n, (s.polling.queues (.recording n)).isShutdown = true ↔ n < s.queue
  idle : s.recordingRunning = false → s.items s.queue = []
  fresh : ∀ n, s.queue < n → s.items n = []

/-- What the stage of the loop says: a loop that waits while the recorder runs is woken, and a
loop that is still in `get` on an old queue will find no result there while the recorder
runs. -/
def StageOk (s : RecordingService α) : RecordingStage → Prop
  | .waiting woken => s.recordingRunning = true → woken = true
  | .getting n => n ≤ s.queue ∧
      (s.recordingRunning = true → n < s.queue → successes ((s.items n).take 1) = [])

/-- The invariant of the recorder: what is recorded and what is still to be recorded are the
successful results of the session. -/
structure Inv (s : RecordingService α) : Prop where
  queues : s.QueueInv
  stage : s.StageOk s.loop
  account : s.recordings ++ successes s.pending = successes s.session

/-- What is pending while the loop is in `get` on the current queue: its items. -/
theorem pending_of_current {n : ℕ} (hloop : s.loop = .getting n) (hn : ¬ n < s.queue) :
    s.pending = s.items s.queue := by
  rw [pending, hloop]
  dsimp only
  rw [if_neg hn, List.nil_append]

/-- What is pending while the loop is in `get` on an old queue: one item of it, and those of the
current one. -/
theorem pending_of_old {n : ℕ} (hloop : s.loop = .getting n) (hn : n < s.queue) :
    s.pending = (s.items n).take 1 ++ s.items s.queue := by
  rw [pending, hloop]
  dsimp only
  rw [if_pos hn]

theorem pending_of_waiting {woken : Bool} (hloop : s.loop = .waiting woken) :
    s.pending = s.items s.queue := by
  rw [pending, hloop]

/-! ### Rounds of the loop -/

theorem record_items (s : RecordingService α) (n : ℕ) (item : StreamItem α)
    (rest : List (StreamItem α)) (m : ℕ) :
    (s.record n item rest).items m = if m = n then rest else s.items m := by
  unfold items record
  dsimp only
  by_cases hm : m = n
  · rw [if_pos hm, hm, Function.update_self]
  · rw [if_neg hm, Function.update_of_ne fun h => hm (QueueName.recording.inj h)]

/-- Taking an item of a queue leaves the queues in order: it is the get of a consumer of the polling
service. -/
theorem QueueInv.record (h : s.QueueInv) {n : ℕ} {item : StreamItem α}
    {rest : List (StreamItem α)} (hitems : s.items n = item :: rest) :
    (s.record n item rest).QueueInv := by
  refine ⟨h.polling.get hitems 0, h.subscribed, fun m => ?_, fun hrunning => ?_,
    fun m hm => ?_⟩
  · refine Iff.trans ?_ (h.shut m)
    unfold RecordingService.record
    dsimp only
    by_cases hmn : QueueName.recording m = .recording n
    · rw [hmn, Function.update_self]
    · rw [Function.update_of_ne hmn]
  · have hidle := h.idle hrunning
    rw [record_items]
    split_ifs with hn
    · rw [show s.queue = n from hn, hitems] at hidle
      cases hidle
    · exact hidle
  · have hfresh := h.fresh m hm
    rw [record_items, if_neg]
    · exact hfresh
    · rintro rfl
      cases hitems.symm.trans hfresh

/-- The loop takes all items of its queue while the recorder runs. -/
theorem QueueInv.consume {items : List (StreamItem α)} (h : s.QueueInv)
    (hitems : s.items s.queue = items)
    (hacc : s.recordings ++ successes items = successes s.session) : (s.consume items).Inv := by
  induction items generalizing s with
  | nil =>
      refine ⟨⟨h.polling, h.subscribed, h.shut, h.idle, h.fresh⟩,
        ⟨le_rfl, fun _ hlt => absurd hlt (lt_irrefl _)⟩, ?_⟩
      have hpending : (s.consume []).pending = s.items s.queue :=
        pending_of_current rfl (lt_irrefl _)
      rw [hpending, hitems]
      exact hacc
  | cons item rest ih =>
      rw [RecordingService.consume]
      have hrunning : (s.record s.queue item rest).recordingRunning = true := by
        by_contra hnot
        cases hitems.symm.trans (h.idle (Bool.eq_false_of_not_eq_true hnot))
      rw [if_pos hrunning]
      refine ih (h.record hitems) ?_ ?_
      · exact (record_items s _ item rest _).trans (if_pos rfl)
      · change (s.recordings ++ successes [item]) ++ successes rest = successes s.session
        rw [List.append_assoc, ← successes_append]
        exact hacc

theorem QueueInv.nextRound (h : s.QueueInv)
    (hacc : s.recordings ++ successes (s.items s.queue) = successes s.session) :
    s.nextRound.Inv := by
  unfold RecordingService.nextRound
  split_ifs with hrunning
  · exact h.consume rfl hacc
  · exact ⟨⟨h.polling, h.subscribed, h.shut, h.idle, h.fresh⟩, fun hrun => absurd hrun hrunning,
      hacc⟩

/-- A resumption of the loop records what was pending. -/
theorem Inv.resumeLoop (h : s.Inv) (hs : s.resumeLoop = some s') : s'.Inv := by
  have hacc := h.account
  have hstage := h.stage
  unfold RecordingService.resumeLoop at hs
  cases hloop : s.loop with
  | waiting woken =>
      cases woken <;> simp only [hloop, reduceCtorEq] at hs
      cases hs
      rw [pending_of_waiting hloop] at hacc
      exact h.queues.consume rfl hacc
  | getting n =>
      rw [hloop] at hstage
      simp only [hloop] at hs
      split at hs
      · next item rest hitems =>
          cases hs
          refine (h.queues.record hitems).nextRound ?_
          rw [record_items]
          change (s.recordings ++ successes [item]) ++
            successes (if s.queue = n then rest else s.items s.queue) = successes s.session
          rw [List.append_assoc, ← successes_append, List.singleton_append]
          by_cases hn : n < s.queue
          · rw [pending_of_old hloop hn, hitems] at hacc
            rw [if_neg (ne_of_gt hn)]
            exact hacc
          · obtain rfl : n = s.queue := le_antisymm hstage.1 (not_lt.mp hn)
            rw [pending_of_current hloop hn, hitems] at hacc
            rw [if_pos rfl]
            exact hacc
      · next hitems =>
          simp only [Option.ite_none_right_eq_some, Option.some.injEq] at hs
          obtain ⟨hshut, rfl⟩ := hs
          rw [pending_of_old hloop ((h.queues.shut n).mp hshut), hitems] at hacc
          exact h.queues.nextRound hacc

/-! ### Starting and stopping -/

theorem startRecording_eq (s : RecordingService α) : s.startRecording true =
    { s with
      polling := s.polling.subscribe (.recording s.queue)
      recordings := []
      session := []
      recordingRunning := true
      loop := if s.recordingRunning then s.loop else s.loop.wake } := by
  unfold startRecording setRecordingRunning
  cases s.recordingRunning <;> simp

theorem startRecording_items (s : RecordingService α) (n : ℕ) :
    (s.startRecording true).items n = s.items n := by
  rw [startRecording_eq, items, items]
  dsimp only
  rw [PollingService.subscribe_queues]

/-- Starting the recorder changes nothing about what its loop will take. -/
theorem startRecording_pending (s : RecordingService α) :
    (s.startRecording true).pending = s.pending := by
  have hloop : (s.startRecording true).loop =
      if s.recordingRunning then s.loop else s.loop.wake := by rw [startRecording_eq]
  have hqueue : (s.startRecording true).queue = s.queue := by rw [startRecording_eq]
  rw [pending, pending, hloop, hqueue]
  simp only [startRecording_items]
  cases s.loop <;> cases s.recordingRunning <;> rfl

/-- A recorder that is started with no successful result to come begins a new session. -/
theorem Inv.startRecording (h : s.Inv) (hpending : successes s.pending = []) :
    (s.startRecording true).Inv := by
  have hsubscribers : (s.startRecording true).polling.subscribers =
      insert (.recording s.queue) s.polling.subscribers := by
    rw [startRecording_eq]
    exact PollingService.subscribe_subscribers _ _
  have hqueues : (s.startRecording true).polling.queues = s.polling.queues := by
    rw [startRecording_eq]
    exact PollingService.subscribe_queues _ _
  have hqueue : (s.startRecording true).queue = s.queue := by rw [startRecording_eq]
  have hrunning : (s.startRecording true).recordingRunning = true := by rw [startRecording_eq]
  refine ⟨⟨?_, fun n => ?_, fun n => ?_, fun hidle => ?_, fun n hn => ?_⟩, ?_, ?_⟩
  · rw [startRecording_eq]
    exact h.queues.polling.subscribe (Bool.eq_false_of_not_eq_true fun hshut =>
      lt_irrefl _ ((h.queues.shut s.queue).mp hshut))
  · rw [hsubscribers, hqueue, hrunning, Finset.mem_insert, h.queues.subscribed,
      QueueName.recording.injEq]
    simp only [and_true, or_iff_left_iff_imp]
    exact And.left
  · rw [hqueues, hqueue]
    exact h.queues.shut n
  · cases hrunning.symm.trans hidle
  · rw [startRecording_items]
    exact h.queues.fresh n (hqueue ▸ hn)
  · have hloop : (s.startRecording true).loop =
        if s.recordingRunning then s.loop else s.loop.wake := by rw [startRecording_eq]
    have hstage := h.stage
    rw [hloop]
    cases hs : s.loop with
    | waiting woken =>
        rw [hs] at hstage
        split_ifs with hwas
        · exact fun _ => hstage hwas
        · exact fun _ => rfl
    | getting n =>
        rw [hs] at hstage
        have hold : n < s.queue → successes ((s.items n).take 1) = [] := by
          intro hn
          rw [pending_of_old hs hn, successes_append, List.append_eq_nil_iff] at hpending
          exact hpending.1
        have hgetting : (s.startRecording true).StageOk (.getting n) := by
          refine ⟨hqueue ▸ hstage.1, fun _ hn => ?_⟩
          rw [startRecording_items]
          exact hold (hqueue ▸ hn)
        split_ifs <;> exact hgetting
  · rw [startRecording_pending, hpending, startRecording_eq]
    rfl

theorem stopRecording_items (s : RecordingService α) (n : ℕ) :
    s.stopRecording.items n = s.items n := by
  unfold items stopRecording shutdownQueue
  dsimp only
  rw [PollingService.unsubscribe_queues]
  by_cases hn : QueueName.recording n = .recording s.queue
  · rw [hn, Function.update_self]
  · rw [Function.update_of_ne hn]

/-- A recorder that is stopped with no successful result to be abandoned ends its session. -/
theorem Inv.stopRecording (h : s.Inv) (habandoned : successes s.abandoned = []) :
    s.stopRecording.Inv := by
  have hstage := h.stage
  have hacc := h.account
  have hfresh : s.stopRecording.items s.stopRecording.queue = [] :=
    (stopRecording_items s _).trans (h.queues.fresh _ (Nat.lt_succ_self _))
  refine ⟨⟨(h.queues.polling.unsubscribe _).shutdown ?_, fun n => ?_, fun n => ?_,
    fun _ => hfresh, fun n hn => ?_⟩, ?_, ?_⟩
  · rw [PollingService.unsubscribe_subscribers]
    exact Finset.notMem_erase _ _
  · have hmem : .recording n ∈ s.stopRecording.polling.subscribers ↔
        .recording n ∈ s.polling.subscribers.erase (.recording s.queue) := by
      rw [← PollingService.unsubscribe_subscribers]
      rfl
    rw [hmem, Finset.mem_erase, h.queues.subscribed]
    refine iff_of_false ?_ (fun hrun => Bool.false_ne_true hrun.2)
    rintro ⟨hne, rfl, -⟩
    exact hne rfl
  · have hshut := h.queues.shut n
    change ((Function.update (s.polling.unsubscribe (.recording s.queue)).queues
      (.recording s.queue) _) (.recording n)).isShutdown = true ↔ n < s.queue + 1
    by_cases hn : n = s.queue
    · rw [hn, Function.update_self]
      exact iff_of_true rfl (Nat.lt_succ_self _)
    · rw [Function.update_of_ne fun heq => hn (QueueName.recording.inj heq),
        PollingService.unsubscribe_queues, hshut]
      omega
  · rw [stopRecording_items]
    exact h.queues.fresh n (Nat.lt_of_succ_lt hn)
  · change s.stopRecording.StageOk s.loop
    cases hs : s.loop with
    | waiting woken => exact nofun
    | getting n =>
        rw [hs] at hstage
        exact ⟨hstage.1.trans (Nat.le_succ _), nofun⟩
  · change s.recordings ++ successes s.stopRecording.pending = successes s.session
    rw [← hacc]
    congr 1
    rw [abandoned] at habandoned
    cases hs : s.loop with
    | waiting woken =>
        rw [hs] at habandoned
        rw [pending_of_waiting hs, pending_of_waiting (s := s.stopRecording) hs, hfresh]
        exact habandoned.symm
    | getting n =>
        rw [hs] at habandoned hstage
        have hle : n < s.stopRecording.queue := Nat.lt_succ_of_le hstage.1
        rw [pending_of_old (s := s.stopRecording) hs hle, hfresh, List.append_nil,
          stopRecording_items]
        by_cases hn : n < s.queue
        · rw [if_neg (fun heq => absurd (RecordingStage.getting.inj heq) (ne_of_lt hn)),
            List.drop_zero] at habandoned
          rw [pending_of_old hs hn, successes_append, habandoned, List.append_nil]
        · obtain rfl : n = s.queue := le_antisymm hstage.1 (not_lt.mp hn)
          rw [if_pos rfl] at habandoned
          rw [pending_of_current hs hn]
          conv_rhs => rw [← List.take_append_drop 1 (s.items s.queue)]
          rw [successes_append, habandoned, List.append_nil]

/-! ### Runs -/

/-- What the polling service and its other subscribers do is recorded in the session exactly
when it gets into the queue. -/
theorem Inv.polling (h : s.Inv) {act : PollingAction QueueName α} (hact : act.isForeign = true)
    {p : PollingService QueueName α} (hp : s.polling.step act = some p) :
    ({ s with
      polling := p
      session := s.session ++
        if s.recordingRunning then (p.polled.drop s.polling.polled.length).map (·.2)
        else [] } : RecordingService α).Inv := by
  have hnames (n : ℕ) : ¬ PollingService.Names (.recording n) act := by
    cases act with
    | subscribe q | unsubscribe q | shutdown q | get _ q =>
        cases q with
        | recording => cases hact
        | client => exact nofun
    | start | stop | resume | fetched | tick => exact not_false
  have hqueue (n : ℕ) := PollingService.step_of_not_names h.queues.polling hp (hnames n)
  obtain ⟨-, polled, hpolled, hcurrent⟩ := hqueue s.queue
  have hdrop : (p.polled.drop s.polling.polled.length).map (·.2) = polled := by
    rw [hpolled, List.drop_left, List.map_map]
    exact List.map_id polled
  rw [hdrop]
  -- what the step adds to the current queue, and to the session
  generalize hmore : (if s.recordingRunning then polled else []) = more
  let t : RecordingService α := { s with polling := p, session := s.session ++ more }
  have hcurrent : t.items s.queue = s.items s.queue ++ more := by
    refine (congrArg StreamQueue.items hcurrent).trans (congrArg (s.items s.queue ++ ·) ?_)
    rw [← hmore]
    simp only [h.queues.subscribed, true_and]
  have hold (n : ℕ) (hn : n ≠ s.queue) : t.items n = s.items n := by
    obtain ⟨-, polled', -, hitems⟩ := hqueue n
    refine (congrArg StreamQueue.items hitems).trans ?_
    dsimp only
    rw [if_neg fun hmem => hn ((h.queues.subscribed n).mp hmem).1, List.append_nil]
    rfl
  have hpending : t.pending = s.pending ++ more := by
    cases hloop : s.loop with
    | waiting =>
        rw [pending_of_waiting hloop, pending_of_waiting (s := t) hloop]
        exact hcurrent
    | getting n =>
        by_cases hn : n < s.queue
        · rw [pending_of_old hloop hn, pending_of_old (s := t) hloop hn, hold n (ne_of_lt hn),
            List.append_assoc]
          exact congrArg _ hcurrent
        · rw [pending_of_current hloop hn, pending_of_current (s := t) hloop hn]
          exact hcurrent
  refine ⟨⟨h.queues.polling.step hp, fun n => (hqueue n).1.trans (h.queues.subscribed n),
    fun n => ?_, fun hidle => ?_, fun n hn => ?_⟩, ?_, ?_⟩
  · obtain ⟨-, polled', -, hitems⟩ := hqueue n
    have hshut : (p.queues (.recording n)).isShutdown =
        (s.polling.queues (.recording n)).isShutdown := by rw [hitems]
    exact hshut ▸ h.queues.shut n
  · refine hcurrent.trans ?_
    rw [h.queues.idle hidle, ← hmore, if_neg (Bool.eq_false_iff.mp hidle), List.nil_append]
  · exact (hold n (ne_of_gt hn)).trans (h.queues.fresh n hn)
  · have hstage := h.stage
    change t.StageOk s.loop
    cases hloop : s.loop with
    | waiting woken =>
        rw [hloop] at hstage
        exact hstage
    | getting n =>
        rw [hloop] at hstage
        refine ⟨hstage.1, fun hrun hn => ?_⟩
        rw [hold n (ne_of_lt hn)]
        exact hstage.2 hrun hn
  · change s.recordings ++ successes t.pending = successes (s.session ++ more)
    rw [hpending, successes_append, successes_append, ← List.append_assoc, h.account]

/-- **Every step that starts and stops the recorder only when it is settled keeps the
invariant.** -/
theorem Inv.step (h : s.Inv) {act : RecordingAction α} (hsettled : s.OnlySettled act)
    (hs : s.step act = some s') : s'.Inv := by
  cases act with
  | polling act =>
      simp only [RecordingService.step, Option.ite_none_right_eq_some, Option.map_eq_some_iff]
        at hs
      obtain ⟨hact, p, hp, rfl⟩ := hs
      exact h.polling hact hp
  | startRecording =>
      cases hs
      exact h.startRecording hsettled
  | stopRecording =>
      cases hs
      exact h.stopRecording hsettled
  | resume => exact h.resumeLoop hs

theorem recordingInv_of_reaches (h : Reaches RecordingService.step OnlySettled {} s) :
    s.Inv := by
  refine h.invariant (P := Inv) ⟨⟨PollingService.inv_initial, ?_, ?_, fun _ => rfl,
    fun _ _ => rfl⟩, nofun, rfl⟩ fun _ _ _ ih hsettled hs => ih.step hsettled hs
  · intro n
    exact iff_of_false (Finset.notMem_empty _) fun hrun => Bool.false_ne_true hrun.2
  · intro n
    exact iff_of_false Bool.false_ne_true (Nat.not_lt_zero n)

/-- A loop that has caught up has nothing left to take. -/
theorem Inv.pending_eq_nil (h : s.Inv) (hcaught : s.CaughtUp) : s.pending = [] := by
  have hstage := h.stage
  unfold CaughtUp RecordingService.resumeLoop at hcaught
  cases hloop : s.loop with
  | waiting woken =>
      cases woken <;> simp only [hloop, reduceCtorEq] at hcaught
      rw [hloop] at hstage
      rw [pending_of_waiting hloop]
      exact h.queues.idle
        (Bool.eq_false_of_not_eq_true fun hrun => Bool.false_ne_true (hstage hrun))
  | getting n =>
      rw [hloop] at hstage
      simp only [hloop] at hcaught
      split at hcaught
      · cases hcaught
      · next hitems =>
          rw [ite_eq_right_iff] at hcaught
          have hn : ¬ n < s.queue := fun hlt =>
            absurd (hcaught ((h.queues.shut n).mpr hlt)) (Option.some_ne_none _)
          rw [pending_of_current hloop hn, ← le_antisymm hstage.1 (not_lt.mp hn), hitems]

/-- **A recording contains exactly its session**: in every run in which the recorder is
started and stopped only when no successful result is waiting to be recorded, a loop that has
caught up has recorded exactly the successful results that were broadcast in the session, in
order. -/
theorem recordings_eq (h : Reaches RecordingService.step OnlySettled {} s)
    (hcaught : s.CaughtUp) : s.recordings = successes s.session := by
  have hinv := recordingInv_of_reaches h
  have hacc := hinv.account
  rwa [hinv.pending_eq_nil hcaught, show successes ([] : List (StreamItem α)) = [] from rfl,
    List.append_nil] at hacc

instance (s : RecordingService α) (act : RecordingAction α) : Decidable (s.OnlySettled act) :=
  match act with
  | .startRecording => decidable_of_iff (successes s.pending).isEmpty List.isEmpty_iff
  | .stopRecording => decidable_of_iff (successes s.abandoned).isEmpty List.isEmpty_iff
  | .polling _ | .resume => .isTrue trivial

/-- One result is recorded before the recorder is stopped. -/
def settledRun : List (RecordingAction ℕ) :=
  [.polling .start, .startRecording, .resume, .polling .resume,
    .polling (.fetched (.ok 7) 10 [.recording 0] none), .resume, .stopRecording, .resume]

theorem settledRun_isSome : (runIn RecordingService.step OnlySettled {} settledRun).isSome := by
  decide +kernel

/-- The recording at the end of `settledRun`. -/
theorem recordings_eq_settledRun :
    let s := (runIn RecordingService.step OnlySettled {} settledRun).get settledRun_isSome
    s.CaughtUp ∧ s.recordings = successes s.session := by
  have hcaught : ((runIn RecordingService.step OnlySettled {} settledRun).get
      settledRun_isSome).CaughtUp :=
    Option.isNone_iff_eq_none.mp (by decide +kernel)
  exact ⟨hcaught, recordings_eq (reaches_get_in settledRun_isSome) hcaught⟩

/-- The recorder is stopped and started again while a result has reached its queue and its loop
has not been resumed yet. -/
def lateRun : List (RecordingAction ℕ) :=
  [.polling .start, .startRecording, .resume, .polling .resume,
    .polling (.fetched (.ok 7) 10 [.recording 0] none), .stopRecording, .startRecording, .resume]

theorem lateRun_isSome : (runFrom RecordingService.step {} lateRun).isSome := by
  decide +kernel

/-- At the end of `lateRun` the recording holds a result of the earlier session. -/
theorem not_recordings_eq : ¬ ∀ s : RecordingService ℕ, s.Reachable → s.CaughtUp →
    s.recordings = successes s.session := by
  intro h
  have heq := h _ (reaches_get lateRun_isSome)
    (Option.isNone_iff_eq_none.mp (by decide +kernel))
  exact absurd heq (by decide +kernel)

end RecordingService

end IoBoard
