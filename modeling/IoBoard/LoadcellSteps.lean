import IoBoard.Loadcells
import IoBoard.SerialCalls

/-!
# Steps of the Loadcell Commands

What one step of the loadcell commands can do, said once: `Loadcells.Stepped` has one
constructor for each thing that can happen, with the state it leaves. The invariants of the
modules after this one are proved by cases on it.

A step of the loadcell commands contains at most one step of the serial layer, and the
constructors carry that step as `Calls` (a new call) or `Stepped` (anything else), so that the
lemmas about the serial layer apply as they are. A step that ends the `fetch` of a task goes on
with the rest of that task. Whether it does is decided by the state of the call after the
serial step, and there are four cases: no call has ended, the call belongs to no task here, to
a request, or to a calibration.

The relation says as much as the step function and not less: where a guard of the function
has to be known later, such as that the gate was free or that the cache did not answer, it is
an argument of the constructor.

## Main results

* `stepped_of_finish`: the serial step of a call, and what follows it in its task.
* `loadcellStepped_of_step`: **every step is one of `Loadcells.Stepped`**.
-/

open Runs

namespace IoBoard

/-! ### Steps -/

variable {cfg : Settings} {m m' : Loadcells}

/-- The task waits for its `fetch`; the end of the `fetch` call is then the end of the task. -/
def LoadcellTask.isFetching : LoadcellTask → Prop
  | .get .fetching | .calibrate .fetching => True
  | _ => False

/-- One step of the loadcell commands: a call starts, is answered from the cache, sends its
request or gives up at the gate, another command is sent, or the serial layer goes on and
ends the `fetch` of no task, of a `get_loadcells` call or of a `calibrate` call. -/
inductive Loadcells.Stepped (cfg : Settings) (m : Loadcells) : LoadcellAction → Loadcells → Prop
  | started {id} (ht : m.tasks id = none) (hc : m.serial.calls id = none) :
      Stepped cfg m (.getLoadcells id) (m.setTask id (.get .acquiring))
  | served {id values} (ht : m.tasks id = some (.get .acquiring)) (hg : m.gate = none)
      (hv : m.served cfg = some values) :
      Stepped cfg m (.acquire id) (m.leave id (.returned values))
  | asked {id s} (ht : m.tasks id = some (.get .acquiring)) (hg : m.gate = none)
      (hv : m.served cfg = none) (hs : Calls cfg m.serial id loadcellWeights s) :
      Stepped cfg m (.acquire id)
        ({ m with gate := some id, serial := s }.setTask id (.get .fetching))
  | calibrating {id s} (ht : m.tasks id = none)
      (hs : Calls cfg m.serial id calibrateCommand s) :
      Stepped cfg m (.calibrate id)
        ({ m with serial := s }.setTask id (.calibrate .fetching))
  | commanded {id c data s} (ht : m.tasks id = none) (hget : c ≠ loadcellWeights)
      (hcal : c ≠ calibrateCommand) (hs : Calls cfg m.serial id c s) :
      Stepped cfg m (.command id c data) { m with serial := s }
  | gaveUp {id} (ht : m.tasks id = some (.get .acquiring)) :
      Stepped cfg m (.cancel id) (m.setTask id (.get (.failed .cancelledError)))
  | wentOn {act sact s} (hs : IoBoard.Stepped cfg.serial m.serial sact s)
      (hcall : ∀ id args, sact ≠ .call id args)
      (hend : ∀ id fetched task, Ends m.serial s id fetched → m.tasks id = some task →
        ¬ task.isFetching) : Stepped cfg m act (m.withSerial s)
  | got {act sact s id fetched ts} (hs : IoBoard.Stepped cfg.serial m.serial sact s)
      (hcall : ∀ id args, sact ≠ .call id args)
      (hothers : ∀ j, j ≠ id → s.calls j = m.serial.calls j)
      (hend : Ends m.serial s id fetched) (ht : m.tasks id = some (.get .fetching)) :
      Stepped cfg m act ((m.withSerial s).finishGet id fetched ts)
  | calibrated {act sact s id fetched} (hs : IoBoard.Stepped cfg.serial m.serial sact s)
      (hcall : ∀ id args, sact ≠ .call id args)
      (hothers : ∀ j, j ≠ id → s.calls j = m.serial.calls j)
      (hend : Ends m.serial s id fetched) (ht : m.tasks id = some (.calibrate .fetching)) :
      Stepped cfg m act ((m.withSerial s).finishCalibrate id fetched)

/-- A command that is sent is a new call, and changes nothing else. A command with wrong
arguments raises before that, and no task here sends one. -/
theorem calls_of_send {id : CallId} {c : Command} {data : RequestDict}
    (h : m.send cfg id c data = some m') :
    ∃ s, Calls cfg m.serial id c s ∧ m' = { m with serial := s } := by
  rw [Loadcells.send] at h
  split at h
  · cases h
  · next args hargs =>
      obtain ⟨s, hs, rfl⟩ := Option.map_eq_some_iff.mp h
      exact ⟨s, calls_of_step hargs hs, rfl⟩

/-- A step of the serial layer that names the call `id`, and the rest of its task. -/
theorem stepped_of_finish {act : LoadcellAction} {sact : Action} {id : CallId} {s : State}
    {w : Wakeup} (hs : Stepped cfg.serial m.serial sact s)
    (hact : sact = .resume id w ∨ sact = .cancel id) (ts : PyFloat) :
    Loadcells.Stepped cfg m act ((m.withSerial s).finish id ts) := by
  obtain ⟨hcall, hothers, hends⟩ := named_of_stepped hs hact
  have hquiet (hself : ∀ fetched task, Ends m.serial s id fetched → m.tasks id = some task →
      ¬ task.isFetching) : Loadcells.Stepped cfg m act (m.withSerial s) := by
    refine .wentOn hs hcall fun j fetched task hend ht => ?_
    obtain rfl := eq_of_ends hothers hend
    exact hself fetched task hend ht
  rw [Loadcells.finish]
  split
  · next hresult =>
      refine hquiet fun fetched task hend _ => ?_
      cases hresult.symm.trans hend.result_eq
  · next fetched hresult =>
      have hend : Ends m.serial s id fetched := hends fetched hresult
      split
      · next ht => exact .got hs hcall hothers hend ht
      · next ht => exact .calibrated hs hcall hothers hend ht
      · next hget hcal =>
          refine hquiet fun _ task _ ht hfetching => ?_
          match task, hfetching with
          | .get .fetching, _ => exact hget ht
          | .calibrate .fetching, _ => exact hcal ht

/-- **Every step is one of `Loadcells.Stepped`**, by the cases of the step function and of the
task that goes on. -/
theorem loadcellStepped_of_step {act : LoadcellAction} (h : m.step cfg act = some m') :
    Loadcells.Stepped cfg m act m' := by
  have went {act : LoadcellAction} (sact : Action)
      (hact : sact.IsEnvironment ∨ ∃ n bs, sact = .receive n bs)
      (hmap : (IoBoard.step cfg.serial m.serial sact).map m.withSerial = some m') :
      Loadcells.Stepped cfg m act m' := by
    obtain ⟨s, hs, rfl⟩ := Option.map_eq_some_iff.mp hmap
    obtain ⟨hcall, hsame⟩ := calls_of_environment (stepped_of_step hs) hact
    refine .wentOn (stepped_of_step hs) hcall fun j fetched task hend _ => ?_
    exact absurd (congrFun hsame j) hend.calls_ne
  cases act with
  | getLoadcells id =>
      simp only [Loadcells.step, Option.ite_none_right_eq_some, Option.isNone_iff_eq_none,
        Option.some.injEq] at h
      obtain ⟨⟨ht, hc⟩, rfl⟩ := h
      exact .started ht hc
  | acquire id =>
      simp only [Loadcells.step, Option.ite_none_right_eq_some] at h
      obtain ⟨⟨ht, hg⟩, h⟩ := h
      rw [Loadcells.enter] at h
      split at h
      · next values hv =>
          cases h
          exact .served ht hg hv
      · next hv =>
          obtain ⟨t, hsend, rfl⟩ := Option.map_eq_some_iff.mp h
          obtain ⟨s, hs, rfl⟩ := calls_of_send hsend
          exact .asked ht hg hv hs
  | calibrate id =>
      simp only [Loadcells.step, Option.ite_none_right_eq_some, Option.isNone_iff_eq_none] at h
      obtain ⟨ht, h⟩ := h
      obtain ⟨t, hsend, rfl⟩ := Option.map_eq_some_iff.mp h
      obtain ⟨s, hs, rfl⟩ := calls_of_send hsend
      exact .calibrating ht hs
  | command id c data =>
      simp only [Loadcells.step, Option.ite_none_right_eq_some, Option.isNone_iff_eq_none] at h
      obtain ⟨⟨ht, hget, hcal⟩, h⟩ := h
      obtain ⟨s, hs, rfl⟩ := calls_of_send h
      exact .commanded ht hget hcal hs
  | resume id w ts =>
      obtain ⟨s, hs, rfl⟩ := Option.map_eq_some_iff.mp h
      exact stepped_of_finish (stepped_of_step hs) (.inl rfl) ts
  | cancel id =>
      simp only [Loadcells.step] at h
      split_ifs at h with ht
      · cases h
        exact .gaveUp ht
      · obtain ⟨s, hs, rfl⟩ := Option.map_eq_some_iff.mp h
        exact stepped_of_finish (w := .ready) (stepped_of_step hs) (.inr rfl) 0
  | tick d => exact went (.tick d) (.inl trivial) h
  | receive n bs => exact went (.receive n bs) (.inr ⟨n, bs, rfl⟩) h
  | closing n => exact went (.closing n) (.inl trivial) h
  | connectionLost n exc => exact went (.connectionLost n exc) (.inl trivial) h

end IoBoard
