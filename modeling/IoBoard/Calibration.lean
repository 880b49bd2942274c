import IoBoard.LoadcellCache

/-!
# Calibration Separates Sessions

`calibrate` resets the loadcell processing without the gate. Its MCLZ transaction has the
serial mutex until the reset, so no RQIW transaction is on the wire at that moment: the
transmissions of every frame of a session stand in that session.

## Conventions

Times are exact rationals on the clock of the event loop, as in the serial model. What an await
of the serial layer ends with (its `Wakeup`) is left to the environment: any await may time out
or raise, in any order, and nothing is assumed about how fast the board is. A call "starts
after" another has returned when it is no task yet in a state in which the other has; from there
on any steps may follow, of other calls too.

The readings of a call are described by the log at the moment at which it returns, which lies
between the two states of the theorem, since the run may go on.

## Why no old frame comes back

A request that waits for the mutex while a calibration is on the wire may hold the gate, and
may have looked at the cache before the reset. What it returns is a frame that it has yet to
ask for, and it is asked for after the reset, since the calibration keeps the mutex up to there
(`call_ne_of_unfinished`). A request that was answered before the reset has returned, or holds the
gate in a step of its own. So there is no third case, and `SessionInv` says so: a call that
has not ended has sent nothing before the last reset.

## Main results

* `Loadcells.SessionInv.step`: the transmissions of a frame stand in the session of the frame.
* `latest_of_returned`: a call returns what the sanitizer has made of the last frame.
* `calibrate_separates`: **a call that starts after a calibration returns a frame whose request
  was sent after the MCLZ answer, as a fresh sanitizer sees it**.
-/

open Runs Sessions

namespace IoBoard

variable {cfg : Settings} {m m' : Loadcells} {id : CallId} {act : LoadcellAction}

/-! ### The serial layer below -/

/-- The rest of a task leaves the serial layer as it is: there is no second `fetch` in a task. -/
theorem finish_serial (m : Loadcells) (id : CallId) (ts : PyFloat) :
    (m.finish id ts).serial = m.serial := by
  rw [Loadcells.finish]
  split
  · rfl
  · next fetched _ =>
      split
      · exact (finishGet_tasks m id fetched ts).1
      · exact (finishCalibrate_tasks m id fetched).1
      · rfl

/-- A command that is sent is one step of the serial layer. -/
theorem step_of_loadcellSend {c : Command} {data : RequestDict}
    (h : m.send cfg id c data = some m') :
    ∃ sact, IoBoard.step cfg.serial m.serial sact = some m'.serial := by
  rw [Loadcells.send] at h
  split at h
  · cases h
  · obtain ⟨s, hs, rfl⟩ := Option.map_eq_some_iff.mp h
    exact ⟨_, hs⟩

/-- In one step of the loadcell commands the serial layer makes at most one. -/
theorem serial_of_loadcellStep (h : m.step cfg act = some m') : m'.serial = m.serial ∨
    ∃ sact, IoBoard.step cfg.serial m.serial sact = some m'.serial := by
  cases act with
  | getLoadcells id =>
      rw [Loadcells.step, Option.ite_none_right_eq_some] at h
      exact .inl (by rw [← Option.some.inj h.2]; rfl)
  | acquire id =>
      rw [Loadcells.step, Option.ite_none_right_eq_some, Loadcells.enter] at h
      obtain ⟨-, h⟩ := h
      split at h
      · exact .inl (by rw [← Option.some.inj h]; rfl)
      · obtain ⟨n, hsend, rfl⟩ := Option.map_eq_some_iff.mp h
        obtain ⟨sact, hs⟩ := step_of_loadcellSend hsend
        exact .inr ⟨sact, hs⟩
  | calibrate id =>
      rw [Loadcells.step, Option.ite_none_right_eq_some] at h
      obtain ⟨n, hsend, rfl⟩ := Option.map_eq_some_iff.mp h.2
      obtain ⟨sact, hs⟩ := step_of_loadcellSend hsend
      exact .inr ⟨sact, hs⟩
  | command id c data =>
      rw [Loadcells.step, Option.ite_none_right_eq_some] at h
      exact .inr (step_of_loadcellSend h.2)
  | resume id wakeup ts =>
      obtain ⟨s, hs, rfl⟩ := Option.map_eq_some_iff.mp h
      exact .inr ⟨_, by rw [hs, finish_serial]; rfl⟩
  | cancel id =>
      rw [Loadcells.step] at h
      split_ifs at h
      · exact .inl (by rw [← Option.some.inj h]; rfl)
      · obtain ⟨s, hs, rfl⟩ := Option.map_eq_some_iff.mp h
        exact .inr ⟨_, by rw [hs, finish_serial]; rfl⟩
  | tick | receive | closing | connectionLost =>
      obtain ⟨s, hs, rfl⟩ := Option.map_eq_some_iff.mp h
      exact .inr ⟨_, hs⟩

/-- The serial layer below a run is in a run of its own. Everything that is known of its
reachable states holds here. -/
theorem serial_of_reachable (h : Loadcells.Reachable cfg m) :
    IoBoard.Reachable cfg.serial m.serial := by
  refine h.invariant (P := fun m => IoBoard.Reachable cfg.serial m.serial) ?_
    fun n act n' ih _ hstep => ?_
  · exact Reaches.refl _
  · rcases serial_of_loadcellStep hstep with heq | ⟨sact, hs⟩
    · rw [heq]
      exact ih
    · exact ih.tail trivial hs

/-- The log only grows, and nothing in it is changed. -/
theorem log_of_loadcellStepped (hs : Loadcells.Stepped cfg m act m') : m.log <+: m'.log := by
  cases hs with
  | started | served | asked | calibrating | commanded | gaveUp => exact List.prefix_refl _
  | wentOn => exact List.prefix_append ..
  | @got _ _ s id fetched ts =>
      rw [finishGet_log]
      exact (List.prefix_append ..).trans (List.prefix_append ..)
  | @calibrated _ _ s id fetched =>
      rcases finishCalibrate_cases (m.withSerial s) id fetched with ⟨e, heq⟩ | ⟨-, heq⟩
      · rw [heq]
        exact List.prefix_append ..
      · rw [heq]
        exact (List.prefix_append ..).trans (List.prefix_append ..)

/-! ### Transmissions and sessions -/

/-- The transmissions in a log, retransmissions by a later attempt included. -/
def transmissions (log : List LoadcellEvent) : List Tx :=
  log.filterMap fun
    | .serial (.tx t) => some t
    | _ => none

@[simp] theorem transmissions_append (log more : List LoadcellEvent) :
    transmissions (log ++ more) = transmissions log ++ transmissions more :=
  List.filterMap_append

/-- They are those of the serial layer. -/
theorem transmissions_eq (h : m.FrameInv) : transmissions m.log = m.serial.transmissions := by
  rw [State.transmissions, ← h.serial, serialEvents, List.filterMap_filterMap]
  refine List.filterMap_congr fun x _ => ?_
  cases x with
  | serial e => cases e <;> rfl
  | frame | reset => rfl

/-- The request of the call has been sent, since the last reset: there is such a transmission in the
current session, and none of the call in the earlier part of the log. -/
def SentSince (log : List LoadcellEvent) (id : CallId) : Prop :=
  (∀ t ∈ transmissions (untilReset log), t.call ≠ id) ∧
    ∃ t ∈ transmissions (sinceReset log), t.call = id ∧
      responseCodes t.message = loadcellWeights.label

/-- The `fetch` call has not ended, or has not begun. -/
def State.Unfinished (s : State) (id : CallId) : Prop :=
  ∀ c, s.calls id = some c → c.stage.result = none

/-- No call goes back: what has not ended after a step had not ended before it. -/
theorem unfinished_of_stepped {cfg : SerialModel} {s s' : State} {act : Action}
    (hs : Stepped cfg s act s') (h : s'.Unfinished id) : s.Unfinished id := by
  intro c hc
  rcases calls_cases hs id with heq | ⟨args, -, hnone, -⟩ | ⟨d, stage', hd, hnone, -⟩
  · exact h c (heq.trans hc)
  · cases hnone.symm.trans hc
  · obtain rfl := Option.some.inj (hc.symm.trans hd)
    exact hnone

/-- The invariant of the sessions: a call that has not ended has sent nothing before the last
reset, the request of every frame of the session was sent in it, and a calibration that has
returned has reset the processing at its MCLZ answer. -/
structure Loadcells.SessionInv (m : Loadcells) : Prop where
  waiting : ∀ id, m.serial.Unfinished id → ∀ t ∈ transmissions (untilReset m.log), t.call ≠ id
  sent : ∀ f ∈ frames (sinceReset m.log), SentSince m.log f.call
  answered : ∀ k, m.tasks k = some (.calibrate .returned) →
    ∃ time, [.serial (.rx k time), .reset k] <:+: m.log

/-- A step without a reset goes on with the session. -/
theorem Loadcells.SessionInv.append (h : m.SessionInv) {more : List LoadcellEvent}
    (hlog : m'.log = m.log ++ more) (hmore : ∀ x ∈ more, x.isReset = false)
    (hcalls : ∀ id, m'.serial.Unfinished id → m.serial.Unfinished id)
    (hframes : ∀ f ∈ frames more, SentSince m'.log f.call)
    (htasks : ∀ k, m'.tasks k = some (.calibrate .returned) →
      m.tasks k = some (.calibrate .returned)) : m'.SessionInv := by
  have huntil : untilReset m'.log = untilReset m.log := by
    rw [hlog]
    exact earlier_append hmore
  have hsince : sinceReset m'.log = sinceReset m.log ++ more := by
    rw [hlog]
    exact current_append hmore
  refine ⟨fun id hid => ?_, fun f hf => ?_, fun k hk => ?_⟩
  · rw [huntil]
    exact h.waiting id (hcalls id hid)
  · rw [hsince, frames_append] at hf
    rcases List.mem_append.mp hf with hf | hf
    · obtain ⟨hno, t, ht, hcall⟩ := h.sent f hf
      refine ⟨huntil ▸ hno, t, ?_, hcall⟩
      rw [hsince, transmissions_append]
      exact List.mem_append_left _ ht
    · exact hframes f hf
  · obtain ⟨time, hinfix⟩ := h.answered k (htasks k hk)
    exact ⟨time, hlog ▸ hinfix.trans (List.prefix_append ..).isInfix⟩

/-- The request of a frame was sent since the last reset, when the call had sent nothing
before. -/
theorem sentSince_of_ends {frame : Bytes} (hr : IoBoard.Reachable cfg.serial m'.serial)
    (hframe : m'.FrameInv) (hasking : m.Asking id) (hend : Ends m.serial m'.serial id (.ok frame))
    (hno : ∀ t ∈ transmissions (untilReset m'.log), t.call ≠ id) : SentSince m'.log id := by
  obtain ⟨c, hc, -, hlabel⟩ := hasking
  obtain ⟨d, hd, -, hc'⟩ := hend
  obtain rfl := Option.some.inj (hc.symm.trans hd)
  obtain ⟨⟨t, hlast, -⟩, -⟩ := frameInv_of_reachable hr id _ hc'
  obtain ⟨hmem, hcall⟩ := List.mem_filter.mp (List.mem_of_getLast? hlast)
  obtain rfl : t.call = id := by simpa using hcall
  refine ⟨hno, t, ?_, rfl, ?_⟩
  · rw [← transmissions_eq hframe, ← earlier_append_current LoadcellEvent.isReset m'.log,
      transmissions_append] at hmem
    rcases List.mem_append.mp hmem with hmem | hmem
    · exact absurd rfl (hno t hmem)
    · exact hmem
  · obtain ⟨d, hd, hmessage, -⟩ := (logInv_of_reachable hr).args t hmem
    obtain rfl := Option.some.inj (hc'.symm.trans hd)
    rw [hmessage]
    exact hlabel

/-- A call that has not ended and has not got the mutex has sent nothing. Every transmission is
by the owner, and the owner keeps the mutex until its call ends. -/
theorem call_ne_of_unfinished {cfg : SerialModel} {s : State} (hr : IoBoard.Reachable cfg s)
    (hmutex : s.mutex ≠ some id) (hid : s.Unfinished id) : ∀ t ∈ s.transmissions, t.call ≠ id := by
  rintro t ht rfl
  obtain ⟨c, hc, -⟩ := (logInv_of_reachable hr).args t ht
  have hcounted := (logInv_of_reachable hr).counted _ c hc
  have hnot : ¬ c.stage.isCritical := fun hcrit => hmutex (owned_of_reachable hr _ c hc hcrit)
  have hnone := hid c hc
  generalize c.stage = stage at hcounted hnot hnone
  cases stage with
  | acquiring => exact hcounted (List.mem_map_of_mem ht)
  | finished => cases hnone
  | connecting | awaitingClose | opening | attempting | resetting => exact hnot trivial

/-- The reset by `calibrate` finds no transaction on the wire. -/
theorem Loadcells.SessionInv.reset (h : m.SessionInv) {sact : Action} {s : State} {frame : Bytes}
    (hs : IoBoard.Stepped cfg.serial m.serial sact s) (hr : IoBoard.Reachable cfg.serial s)
    (hend : Ends m.serial s id (.ok frame)) (hframe : m.FrameInv) :
    (((m.withSerial s).resetLoadcellProcessing id).setTask id
      (.calibrate .returned)).SessionInv := by
  obtain ⟨hlog, -⟩ := log_of_ends_ok hs hend
  have hnlog : (m.withSerial s).log = m.log ++ [.serial (.rx id m.serial.clock)] := by
    rw [Loadcells.withSerial, hlog, List.drop_left]
    rfl
  have hmutex : s.mutex = none := by
    obtain ⟨c, hc, hnone, hc'⟩ := hend
    refine mutex_eq_none_of_ended hs hc (fun r hr => ?_) hc' (by simp)
    rw [hr] at hnone
    cases hnone
  refine ⟨fun j hj t ht => ?_, fun f hf => ?_, fun k hk => ?_⟩
  · refine call_ne_of_unfinished hr (by simp [hmutex]) hj t ?_
    have heq : transmissions (m.log ++ [.serial (.rx id m.serial.clock)]) = s.transmissions := by
      rw [transmissions_append, transmissions_eq hframe, State.transmissions, State.transmissions,
        hlog, List.filterMap_append]
      rfl
    have hall : untilReset ((m.withSerial s).log ++ [.reset id]) =
        (m.withSerial s).log ++ [.reset id] := earlier_mark rfl
    rw [← heq, ← hnlog]
    change t ∈ transmissions (untilReset ((m.withSerial s).log ++ [.reset id])) at ht
    rw [hall, transmissions_append] at ht
    exact (List.mem_append.mp ht).resolve_right List.not_mem_nil
  · have hnone : sinceReset ((m.withSerial s).log ++ [.reset id]) = [] := current_mark rfl
    change f ∈ frames (sinceReset ((m.withSerial s).log ++ [.reset id])) at hf
    rw [hnone] at hf
    cases hf
  · change ∃ time, _ <:+: (m.withSerial s).log ++ [.reset id]
    rw [hnlog]
    by_cases hki : k = id
    · subst hki
      exact ⟨m.serial.clock, by simpa using (List.suffix_append ..).isInfix⟩
    · obtain ⟨time, hinfix⟩ := h.answered k ((Function.update_of_ne hki ..).symm.trans hk)
      refine ⟨time, hinfix.trans ?_⟩
      rw [List.append_assoc]
      exact (List.prefix_append ..).isInfix

/-- **Every step keeps the transmissions of a frame in its session.** The only step that begins
a session is the end of a calibration, and it finds nobody else on the wire. -/
theorem Loadcells.SessionInv.step (h : m.SessionInv) (hinv : m.Inv cfg) (hinv' : m'.FrameInv)
    (hr : IoBoard.Reachable cfg.serial m'.serial) (hs : Loadcells.Stepped cfg m act m') :
    m'.SessionInv := by
  have stays {task : LoadcellTask} (ht : task ≠ .calibrate .returned) {id : CallId} (k : CallId)
      (hk : Function.update m.tasks id (some task) k = some (.calibrate .returned)) :
      m.tasks k = some (.calibrate .returned) :=
    (task_of_update ht hk).2
  have called {id : CallId} {c : Command} {s : State} (hs : Calls cfg m.serial id c s)
      (j : CallId) (hj : s.Unfinished j) : m.serial.Unfinished j := by
    obtain ⟨args, hstep⟩ := hs.stepped
    exact unfinished_of_stepped hstep hj
  have quiet {s : State} {sact : Action} (hs : IoBoard.Stepped cfg.serial m.serial sact s)
      {n : Loadcells} (hserial : n.serial = s) (hlog : n.log = (m.withSerial s).log)
      (htasks : ∀ k, n.tasks k = some (.calibrate .returned) →
        m.tasks k = some (.calibrate .returned)) : n.SessionInv := by
    obtain ⟨more, -, hmore⟩ := exists_withSerial hs
    refine h.append (hlog.trans hmore) (fun _ => isReset_serial) (fun j hj => ?_) ?_ htasks
    · exact unfinished_of_stepped hs (hserial ▸ hj)
    · rw [frames_serial]
      exact List.forall_mem_nil _
  cases hs with
  | started | served | gaveUp =>
      exact h.append (List.append_nil _).symm (List.forall_mem_nil _) (fun _ hj => hj)
        (List.forall_mem_nil _) (stays (by simp))
  | asked _ _ _ hs =>
      exact h.append (List.append_nil _).symm (List.forall_mem_nil _) (called hs)
        (List.forall_mem_nil _) (stays (by simp))
  | calibrating _ hs =>
      exact h.append (List.append_nil _).symm (List.forall_mem_nil _) (called hs)
        (List.forall_mem_nil _) (stays (by simp))
  | commanded _ _ _ hs =>
      exact h.append (List.append_nil _).symm (List.forall_mem_nil _) (called hs)
        (List.forall_mem_nil _) fun _ hk => hk
  | wentOn hs => exact quiet hs rfl rfl fun _ hk => hk
  | @got _ sact s id fetched ts hs hcall hothers hend htask =>
      obtain ⟨hserial, -, stage, -, htasks⟩ := finishGet_tasks (m.withSerial s) id fetched ts
      rw [show (m.withSerial s).serial = s from rfl] at hserial
      have hlog := finishGet_log (m.withSerial s) id fetched ts
      have hstays (k : CallId) (hk : ((m.withSerial s).finishGet id fetched ts).tasks k =
          some (.calibrate .returned)) : m.tasks k = some (.calibrate .returned) := by
        rw [htasks] at hk
        exact stays (by simp) k hk
      cases hvalues : deviceValues fetched with
      | error e =>
          rw [deviceFrame_of_error ts hvalues, List.append_nil] at hlog
          exact quiet hs hserial hlog hstays
      | ok values =>
          obtain ⟨frame, rfl⟩ : ∃ frame, fetched = .ok frame := by
            cases fetched with
            | ok frame => exact ⟨frame, rfl⟩
            | error e => cases hvalues
          have hasking : m.Asking id := (hinv.task.asks id).mp htask
          have hunfinished : m.serial.Unfinished id := by
            obtain ⟨c, hc, hnone, -⟩ := hasking
            intro d hd
            rw [← Option.some.inj (hc.symm.trans hd)]
            exact hnone
          rw [deviceFrame_of_ok ts hvalues, (reception_of_ends ts hs hend hvalues).2,
            List.append_assoc] at hlog
          set f := (m.withSerial s).received id values ts
          have hmarks : ∀ x ∈ [LoadcellEvent.serial f.reception] ++ [.frame f],
              x.isReset = false := by
            intro x hx
            rcases List.mem_pair.mp hx with rfl | rfl <;> rfl
          refine h.append hlog hmarks (fun j hj => ?_) (fun g hg => ?_) hstays
          · rw [hserial] at hj
            exact unfinished_of_stepped hs hj
          · obtain rfl := List.mem_singleton.mp hg
            refine sentSince_of_ends hr hinv' hasking (by rw [hserial]; exact hend) ?_
            rw [hlog, untilReset, earlier_append hmarks]
            exact h.waiting id hunfinished
  | @calibrated _ sact s id fetched hs hcall hothers hend htask =>
      have hserial := (finishCalibrate_tasks (m.withSerial s) id fetched).1
      rcases finishCalibrate_cases (m.withSerial s) id fetched with ⟨e, heq⟩ | ⟨⟨frame, rfl⟩, heq⟩
      · rw [heq]
        exact quiet hs rfl rfl (stays (by simp))
      · rw [hserial] at hr
        rw [heq]
        exact h.reset hs hr hend hinv.frame

/-- The invariant of the sessions holds in every run. -/
theorem sessionInv_of_reachable (h : Loadcells.Reachable cfg m) : m.SessionInv := by
  refine h.induct (P := Loadcells.SessionInv) ⟨nofun, nofun, nofun⟩
    fun n act n' hrun ih _ hstep => ?_
  have hrun' : Loadcells.Reachable cfg n' := hrun.tail trivial hstep
  exact ih.step (inv_of_reachable hrun) (inv_of_reachable hrun').frame (serial_of_reachable hrun')
    (loadcellStepped_of_step hstep)

/-! ### The value of a call -/

/-- A call that returns in a step returns what the sanitizer has made of the last frame: the
cache answers, or the frame has come in this step. -/
theorem latest_of_returned (hinv : m.Inv cfg) (hs : Loadcells.Stepped cfg m act m')
    {values : List Str} (hv : m'.tasks id = some (.get (.returned values))) :
    m.tasks id = some (.get (.returned values)) ∨
    (∃ time, Latest cfg m'.log values time) ∧
      (m.served cfg = some values ∨ ∃ f, frames m'.log = frames m.log ++ [f]) := by
  have moved {j : CallId} {task : LoadcellTask} (ht : task ≠ .get (.returned values))
      (hj : Function.update m.tasks j (some task) id = some (.get (.returned values))) :
      m.tasks id = some (.get (.returned values)) :=
    (task_of_update ht hj).2
  cases hs with
  | started | asked | calibrating | gaveUp => exact .inl (moved (by nofun) hv)
  | commanded | wentOn => exact .inl hv
  | @served j cached _ _ hcached =>
      by_cases hji : id = j
      · subst hji
        have hself : (m.leave id (.returned cached)).tasks id = some (.get (.returned cached)) :=
          Function.update_self ..
        cases hself.symm.trans hv
        exact .inr ⟨⟨m.cacheTs, hinv.throttle.cache _ hcached⟩, .inl hcached⟩
      · exact .inl ((Function.update_of_ne hji ..).symm.trans hv)
  | @got _ sact s j fetched ts hs hcall hothers hend htask =>
      obtain ⟨-, -, stage, -, htasks⟩ := finishGet_tasks (m.withSerial s) j fetched ts
      by_cases hji : id = j
      · subst hji
        have hn := hinv.throttle.withSerial hs
        cases hvalues : deviceValues fetched with
        | error e =>
            rw [finishGet_of_error hvalues] at hv
            cases (Function.update_self ..).symm.trans hv
        | ok frame =>
            cases hresult : (sanitizeLoadcells (m.withSerial s).sanitizer frame ts).2 with
            | error e =>
                rw [finishGet_of_raise hvalues hresult] at hv
                cases (Function.update_self ..).symm.trans hv
            | ok result =>
                rw [finishGet_of_ok hvalues hresult] at hv ⊢
                cases (Function.update_self ..).symm.trans hv
                refine .inr ⟨⟨_, latest_of_ok hn hresult⟩,
                  .inr ⟨(m.withSerial s).received id frame ts, ?_⟩⟩
                rw [← (frames_withSerial hs).2.2]
                exact frames_append _ [.frame _]
      · rw [htasks, Function.update_of_ne hji] at hv
        exact .inl hv
  | @calibrated _ sact s j fetched =>
      obtain ⟨-, -, stage, htasks⟩ := finishCalibrate_tasks (m.withSerial s) j fetched
      rw [htasks] at hv
      exact .inl (moved (by nofun) hv)

/-- The readings come from a frame whose request was sent after the MCLZ answer to the call
`k`; they are what a fresh sanitizer makes of the frames since the last reset, at this answer
or at a later one. -/
def AfterCalibration (cfg : Settings) (log : List LoadcellEvent) (k : CallId)
    (values : List Str) : Prop :=
  ∃ before time after seen f,
    log = before ++ .serial (.rx k time) :: .reset k :: after ∧
    frames (sinceReset after) = seen ++ [f] ∧ sanitized cfg seen f = .ok values ∧
    (∃ t ∈ transmissions (sinceReset after), t.call = f.call ∧
      responseCodes t.message = loadcellWeights.label) ∧
    ∀ t ∈ transmissions before, t.call ≠ f.call

/-- The last frame after a calibration comes from after it. -/
theorem afterCalibration_of_latest (h : m.SessionInv) {k : CallId} {time : ℚ} {values : List Str}
    (hlatest : Latest cfg m.log values time)
    (hk : ∃ time, [.serial (.rx k time), .reset k] <:+: m.log) :
    AfterCalibration cfg m.log k values := by
  obtain ⟨seen, f, hframes, hvalues, -⟩ := hlatest
  obtain ⟨answer, before, after, hlog⟩ := hk
  have hlog' : m.log = (before ++ [.serial (.rx k answer)]) ++ .reset k :: after := by
    rw [← hlog]
    simp
  have hsince : sinceReset m.log = sinceReset after := by
    rw [hlog']
    exact current_append_mark rfl
  have huntil : untilReset m.log =
      (before ++ [.serial (.rx k answer)]) ++ .reset k :: untilReset after := by
    rw [hlog']
    exact earlier_append_mark rfl
  obtain ⟨hno, hsent⟩ := h.sent f (by rw [hframes]; simp)
  rw [hsince] at hframes hsent
  refine ⟨before, answer, after, seen, f, by simpa using hlog', hframes, hvalues, hsent,
    fun t ht => hno t ?_⟩
  rw [huntil, transmissions_append, transmissions_append]
  exact List.mem_append_left _ (List.mem_append_left _ ht)

/-- **Calibration separates sessions.** A `get_loadcells` call `g` that starts after the
calibration `k` has returned yields readings from a frame whose request was sent after the MCLZ
answer, as a fresh sanitizer sees the frames since then. `log` is the log when `g` returns. -/
theorem calibrate_separates {s t : Loadcells} {k g : CallId} {values : List Str}
    (h : Loadcells.Reachable cfg s) (hk : s.tasks k = some (.calibrate .returned))
    (hg : s.tasks g = none) (hrun : Reaches (Loadcells.step cfg) Any s t)
    (hv : t.tasks g = some (.get (.returned values))) :
    ∃ log, s.log <+: log ∧ log <+: t.log ∧ AfterCalibration cfg log k values := by
  obtain ⟨time, hreset⟩ := (sessionInv_of_reachable h).answered k hk
  have hprefix : s.log <+: t.log ∧ (t.tasks g = some (.get (.returned values)) →
      ∃ log, s.log <+: log ∧ log <+: t.log ∧ AfterCalibration cfg log k values) := by
    refine hrun.induct (P := fun t => s.log <+: t.log ∧
      (t.tasks g = some (.get (.returned values)) →
        ∃ log, s.log <+: log ∧ log <+: t.log ∧ AfterCalibration cfg log k values))
      ⟨List.prefix_refl _, fun hv => by cases hg.symm.trans hv⟩ ?_
    rintro m act m' hrun ⟨hlog, ih⟩ - hstep
    have hm : Loadcells.Reachable cfg m := h.trans hrun
    have hs := loadcellStepped_of_step hstep
    have hgrown := hlog.trans (log_of_loadcellStepped hs)
    refine ⟨hgrown, fun hv => ?_⟩
    rcases latest_of_returned (inv_of_reachable hm) hs hv with hold | ⟨⟨last, hlatest⟩, -⟩
    · obtain ⟨log, hbefore, hafter, hsession⟩ := ih hold
      exact ⟨log, hbefore, hafter.trans (log_of_loadcellStepped hs), hsession⟩
    · have hinv := sessionInv_of_reachable (hm.tail trivial hstep)
      exact ⟨m'.log, hgrown, List.prefix_refl _,
        afterCalibration_of_latest hinv hlatest ⟨time, hreset.trans hgrown.isInfix⟩⟩
  exact hprefix.2 hv

/-- The answer to an MCLZ request: an acknowledgement without data. -/
def mclzFrame : Bytes :=
  [2, 77, 67, 76, 90, 3, 27]

/-- A calibration on a port that is not open yet: the call opens it, drains the line for 50 ms,
and gets its answer. -/
def calibrationRun : List LoadcellAction :=
  [.calibrate 0, .resume 0 .ready 0, .resume 0 .ready 0, .resume 0 .ready 0, .resume 0 .ready 0,
    .resume 0 .ready 0, .tick (1 / 20), .resume 0 .timedOut 0, .resume 0 .ready 0,
    .receive 0 mclzFrame, .resume 0 .ready 0, .resume 0 .ready 0, .resume 0 .ready 0]

/-- A call after it, a second later. It goes through the gate and finds the cache empty. -/
def requestRun : List LoadcellAction :=
  [.getLoadcells 1, .acquire 1, .tick 1, .resume 1 .ready 0, .resume 1 .ready 0,
    .resume 1 .ready 0, .resume 1 .ready 0, .tick (1 / 20), .resume 1 .timedOut 0,
    .resume 1 .ready 0, .receive 0 rqiwFrame, .resume 1 .ready 0, .resume 1 .ready 0,
    .resume 1 .ready 0]

theorem calibrationRun_isSome :
    (runFrom (Loadcells.step {}) (Loadcells.configured {}) calibrationRun).isSome := by
  decide +kernel

/-- The state after the calibration. -/
def calibratedState : Loadcells :=
  (runFrom (Loadcells.step {}) (Loadcells.configured {}) calibrationRun).get
    calibrationRun_isSome

theorem requestRun_isSome : (runFrom (Loadcells.step {}) calibratedState requestRun).isSome := by
  decide +kernel

/-- The call after the calibration gets a frame of the new session. -/
theorem calibrate_separates_requestRun : ∃ t log, Loadcells.Reachable {} t ∧
    log <+: t.log ∧
    AfterCalibration {} log 0 (List.replicate 10 ['+', '0', '0', '1', '0', '0']) := by
  have hs : Loadcells.Reachable {} calibratedState := reaches_get calibrationRun_isSome
  have hrun := reaches_get requestRun_isSome
  obtain ⟨log, -, hlog, hsession⟩ := calibrate_separates hs
    (by decide +kernel : calibratedState.tasks 0 = some (.calibrate .returned))
    (by decide +kernel : calibratedState.tasks 1 = none) hrun
    (by decide +kernel : _ = some (LoadcellTask.get (.returned
      (List.replicate 10 ['+', '0', '0', '1', '0', '0']))))
  exact ⟨_, log, hs.trans hrun, hlog, hsession⟩

end IoBoard
