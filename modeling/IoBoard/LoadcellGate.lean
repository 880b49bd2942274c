import IoBoard.LoadcellSteps

/-!
# The Gate of the Loadcell Requests

What a step of the loadcell commands does to the transactions in progress. The log is cut into
sessions by the resets of `calibrate`; a request that ends leaves the gate, and its frame goes
through the sanitizer of the current session.

## Sessions and the sanitizer

The state of the sanitizer is a function of the frames of the current session, from a fresh
one on: `sanitizerAfter` runs a freshly configured sanitizer over a list of frames. That makes
an invariant about the sanitizer one equation, and what a call returns a function of frames
(`sanitized`), without a word about the state in between. Where the sanitizer is switched off
both are the identity on readings.

A frame that makes the sanitizer raise has been seen all the same: the sanitizer has been
stepped as far as it went. So the frame is in the log, while the cache is not filled.

## The gate

A request holds the gate from before it looks at the cache until its readings are in the cache.
An RQIW transaction in progress is a `fetch` call with the codes of RQ/IW that has not ended
(`Asking`); it says nothing about the gate. `TaskInv` relates the two: these transactions are
those of the requests in `fetch`, and such a request has the gate. That there is one at a
time follows. A request that is cancelled in `fetch` ends together with its transaction.

## Main results

* `sanitizerAfter_append`: one more frame is one more step of the sanitizer.
* `finishGet_of_ok`, `finishGet_of_raise`, `finishGet_of_error`: how a request ends.
* `Loadcells.TaskInv.step`: **the gate lets one RQIW transaction through at a time**.
-/

open Runs Sessions

namespace IoBoard

variable {cfg : Settings} {m m' : Loadcells} {id : CallId} {act : LoadcellAction}

/-! ### The log -/

/-- What the serial layer has logged, without the entries of the loadcell commands. -/
def serialEvents (log : List LoadcellEvent) : List Event :=
  log.filterMap fun
    | .serial e => some e
    | _ => none

/-- The frames of the device, in the order in which their requests have ended. -/
def frames (log : List LoadcellEvent) : List DeviceFrame :=
  log.filterMap fun
    | .frame f => some f
    | _ => none

/-- The log since the last reset. -/
def sinceReset (log : List LoadcellEvent) : List LoadcellEvent :=
  current LoadcellEvent.isReset log

/-- The log up to the last reset. -/
def untilReset (log : List LoadcellEvent) : List LoadcellEvent :=
  earlier LoadcellEvent.isReset log

@[simp] theorem frames_append (log more : List LoadcellEvent) :
    frames (log ++ more) = frames log ++ frames more :=
  List.filterMap_append

@[simp] theorem serialEvents_append (log more : List LoadcellEvent) :
    serialEvents (log ++ more) = serialEvents log ++ serialEvents more :=
  List.filterMap_append

@[simp] theorem frames_serial (more : List Event) : frames (more.map .serial) = [] := by
  rw [frames, List.filterMap_map, List.filterMap_eq_nil_iff]
  exact fun _ _ => rfl

@[simp] theorem serialEvents_serial (more : List Event) :
    serialEvents (more.map .serial) = more := by
  rw [serialEvents, List.filterMap_map]
  exact List.filterMap_some

/-- Entries of the serial layer are no resets. -/
theorem isReset_serial {more : List Event} {x : LoadcellEvent}
    (hx : x ∈ more.map LoadcellEvent.serial) : x.isReset = false := by
  obtain ⟨e, -, rfl⟩ := List.mem_map.mp hx
  rfl

/-! ### Steps of the serial layer -/

/-- What a step of the serial layer adds to the log: entries of the serial layer, which are
those that its own log has got. -/
theorem exists_withSerial {s : State} {act : Action}
    (h : Stepped cfg.serial m.serial act s) : ∃ more, s.log = m.serial.log ++ more ∧
      (m.withSerial s).log = m.log ++ more.map .serial := by
  obtain ⟨more, hmore⟩ := h.log_append
  exact ⟨more, hmore, by rw [Loadcells.withSerial, hmore, List.drop_left]⟩

/-- A step of the serial layer adds nothing to the frames, and resets nothing. -/
theorem frames_withSerial {s : State} {act : Action} (h : Stepped cfg.serial m.serial act s) :
    frames (sinceReset (m.withSerial s).log) = frames (sinceReset m.log) ∧
      untilReset (m.withSerial s).log = untilReset m.log ∧
      frames (m.withSerial s).log = frames m.log := by
  obtain ⟨more, -, hlog⟩ := exists_withSerial h
  rw [hlog, sinceReset, current_append fun x => isReset_serial, untilReset,
    earlier_append fun x => isReset_serial, frames_append, frames_serial, List.append_nil,
    frames_append, frames_serial, List.append_nil]
  exact ⟨rfl, rfl, rfl⟩

/-! ### What is made of a frame -/

/-- The sanitizer that has seen exactly these frames. -/
def sanitizerAfter (cfg : Settings) (seen : List DeviceFrame) : Option LoadcellSanitizer :=
  (configureSanitizer cfg.sanitize).map fun s => s.run (seen.map DeviceFrame.frame)

/-- What a freshly configured sanitizer makes of a frame after these. -/
def sanitized (cfg : Settings) (seen : List DeviceFrame) (f : DeviceFrame) :
    Except PyExc (List Str) :=
  (sanitizeLoadcells (sanitizerAfter cfg seen) f.frame.values f.frame.now).2

/-- Before the first frame it is as configured. -/
theorem sanitizerAfter_nil : sanitizerAfter cfg [] = configureSanitizer cfg.sanitize := by
  rw [sanitizerAfter]
  cases configureSanitizer cfg.sanitize <;> rfl

/-- One more frame is one more step of the sanitizer. -/
theorem sanitizerAfter_append (seen : List DeviceFrame) (f : DeviceFrame) :
    sanitizerAfter cfg (seen ++ [f]) =
      (sanitizeLoadcells (sanitizerAfter cfg seen) f.frame.values f.frame.now).1 := by
  rw [sanitizerAfter, sanitizerAfter, configureSanitizer]
  split_ifs
  · simp [sanitizeLoadcells, LoadcellSanitizer.run_append_singleton]
  · rfl

/-- A reset makes the sanitizer forget all frames. -/
theorem resetSanitizer_sanitizerAfter (seen : List DeviceFrame) :
    resetSanitizer (sanitizerAfter cfg seen) = sanitizerAfter cfg [] := by
  rw [sanitizerAfter, sanitizerAfter, configureSanitizer]
  split_ifs
  · exact congrArg some (LoadcellSanitizer.reset_run_new _ _ _)
  · rfl

/-- A transaction that fails does not reach the sanitizer. -/
theorem receiveLoadcells_of_error {sanitizer : Option LoadcellSanitizer}
    {fetched : Except PyExc Bytes} {e : PyExc} (h : deviceValues fetched = .error e)
    (ts : PyFloat) : receiveLoadcells sanitizer fetched ts =
      (sanitizer, .error (IoBoard.session "get_loadcells" [] e)) := by
  rw [deviceValues] at h
  rw [receiveLoadcells]
  cases hr : fetched.bind (receiveResponse (.request .loadcellWeights)) with
  | error e' =>
      rw [hr] at h
      cases h
      rfl
  | ok response =>
      rw [hr] at h
      change response.data.loadcells = .error e at h
      simp only [h]
      rfl

/-- A transaction that succeeds steps the sanitizer once, with the readings of the device. -/
theorem receiveLoadcells_of_ok {sanitizer : Option LoadcellSanitizer}
    {fetched : Except PyExc Bytes} {values : List Str} (h : deviceValues fetched = .ok values)
    (ts : PyFloat) : receiveLoadcells sanitizer fetched ts =
      ((sanitizeLoadcells sanitizer values ts).1,
        (sanitizeLoadcells sanitizer values ts).2.mapError
          (IoBoard.session "get_loadcells" [])) := by
  rw [deviceValues] at h
  rw [receiveLoadcells]
  cases hr : fetched.bind (receiveResponse (.request .loadcellWeights)) with
  | error e' =>
      rw [hr] at h
      cases h
  | ok response =>
      rw [hr] at h
      change response.data.loadcells = .ok values at h
      simp only [h]

/-! ### The end of a request -/

/-- A request whose transaction fails leaves the gate, and changes nothing else. -/
theorem finishGet_of_error {fetched : Except PyExc Bytes} {e : PyExc}
    (h : deviceValues fetched = .error e) (ts : PyFloat) : m.finishGet id fetched ts =
      m.leave id (.failed (IoBoard.session "get_loadcells" [] e)) := by
  rw [Loadcells.finishGet, receiveLoadcells_of_error h, Loadcells.deviceFrame, h]
  dsimp only
  rw [List.append_nil]

/-- The frame that a request has received. -/
def Loadcells.received (m : Loadcells) (id : CallId) (values : List Str) (ts : PyFloat) :
    DeviceFrame :=
  ⟨id, ⟨values, ts⟩, m.serial.clock⟩

/-- A request whose frame the sanitizer accepts is answered, and fills the cache. The readings
that it returns are those it stores. -/
theorem finishGet_of_ok {fetched : Except PyExc Bytes} {values result : List Str} {ts : PyFloat}
    (h : deviceValues fetched = .ok values)
    (hresult : (sanitizeLoadcells m.sanitizer values ts).2 = .ok result) :
    m.finishGet id fetched ts =
      { m.leave id (.returned result) with
        cache := some result
        cacheTs := m.serial.clock
        sanitizer := (sanitizeLoadcells m.sanitizer values ts).1
        log := m.log ++ [.frame (m.received id values ts)] } := by
  rw [Loadcells.finishGet, receiveLoadcells_of_ok h, Loadcells.deviceFrame, h, hresult]
  rfl

/-- A request whose frame makes the sanitizer raise fails with what it raises. The sanitizer has
changed, the cache has not. -/
theorem finishGet_of_raise {fetched : Except PyExc Bytes} {values : List Str} {ts : PyFloat}
    {e : PyExc} (h : deviceValues fetched = .ok values)
    (hresult : (sanitizeLoadcells m.sanitizer values ts).2 = .error e) :
    m.finishGet id fetched ts =
      { m.leave id (.failed (IoBoard.session "get_loadcells" [] e)) with
        sanitizer := (sanitizeLoadcells m.sanitizer values ts).1
        log := m.log ++ [.frame (m.received id values ts)] } := by
  rw [Loadcells.finishGet, receiveLoadcells_of_ok h, Loadcells.deviceFrame, h, hresult]
  rfl

/-- A calibration fails and changes nothing, or resets the loadcell processing. -/
theorem finishCalibrate_cases (m : Loadcells) (id : CallId) (fetched : Except PyExc Bytes) :
    (∃ e, m.finishCalibrate id fetched = m.setTask id (.calibrate (.failed e))) ∨
    (∃ frame, fetched = .ok frame) ∧ m.finishCalibrate id fetched =
      (m.resetLoadcellProcessing id).setTask id (.calibrate .returned) := by
  rw [Loadcells.finishCalibrate]
  cases fetched with
  | error e => exact .inl ⟨_, rfl⟩
  | ok frame =>
      split
      · exact .inr ⟨⟨frame, rfl⟩, rfl⟩
      · next e _ => exact .inl ⟨e, rfl⟩

/-- The end of a request leaves the gate and the serial layer as it is. -/
theorem finishGet_tasks (m : Loadcells) (id : CallId) (fetched : Except PyExc Bytes)
    (ts : PyFloat) : (m.finishGet id fetched ts).serial = m.serial ∧
      (m.finishGet id fetched ts).gate = none ∧
      ∃ stage, stage ≠ .fetching ∧
        (m.finishGet id fetched ts).tasks = Function.update m.tasks id (some (.get stage)) := by
  rw [Loadcells.finishGet]
  dsimp only
  split
  · next values _ => exact ⟨rfl, rfl, .returned values, nofun, rfl⟩
  · next e _ => exact ⟨rfl, rfl, .failed e, nofun, rfl⟩

theorem finishCalibrate_tasks (m : Loadcells) (id : CallId) (fetched : Except PyExc Bytes) :
    (m.finishCalibrate id fetched).serial = m.serial ∧
      (m.finishCalibrate id fetched).gate = m.gate ∧
      ∃ stage, (m.finishCalibrate id fetched).tasks =
        Function.update m.tasks id (some (.calibrate stage)) := by
  obtain ⟨e, heq⟩ | ⟨-, heq⟩ := finishCalibrate_cases m id fetched
  · rw [heq]
    exact ⟨rfl, rfl, .failed e, rfl⟩
  · rw [heq]
    exact ⟨rfl, rfl, .returned, rfl⟩

/-! ### One transaction at a time -/

/-- An RQIW transaction of the call is in progress: from the moment it waits for the serial
mutex. -/
def Loadcells.Asking (m : Loadcells) (id : CallId) : Prop :=
  ∃ c, m.serial.calls id = some c ∧ c.stage.result = none ∧
    responseCodes c.args.message = loadcellWeights.label

/-- The RQIW transaction of the call has ended with these readings. -/
def Loadcells.Received (m : Loadcells) (id : CallId) (values : List Str) : Prop :=
  ∃ c fetched, m.serial.calls id = some c ∧ c.stage.result = some fetched ∧
    responseCodes c.args.message = loadcellWeights.label ∧ deviceValues fetched = .ok values

section Calls

variable {c : Command} {s : State} {j : CallId} {values : List Str}

/-- A transaction is a call in progress, with the codes of RQ/IW in its message. -/
theorem asking_iff : m.Asking j ↔ ∃ args, m.serial.Pending j args ∧
    responseCodes args.message = loadcellWeights.label := by
  refine ⟨?_, ?_⟩
  · rintro ⟨⟨args, stage⟩, hc, hnone, hlabel⟩
    exact ⟨args, ⟨stage, hc, hnone⟩, hlabel⟩
  · rintro ⟨args, ⟨stage, hc, hnone⟩, hlabel⟩
    exact ⟨_, hc, hnone, hlabel⟩

/-- A new call is an RQIW transaction exactly if its command is RQ/IW. -/
theorem asking_of_calls (hs : Calls cfg m.serial id c s) (gate : Option CallId) :
    ({ m with gate := gate, serial := s } : Loadcells).Asking j ↔
      j = id ∧ c = loadcellWeights ∨ j ≠ id ∧ m.Asking j := by
  rw [asking_iff, asking_iff]
  refine ⟨?_, ?_⟩
  · rintro ⟨args, hpending, hlabel⟩
    rcases pending_of_calls hs hpending with ⟨hj, hself⟩ | ⟨hj, hpending⟩
    · exact .inl ⟨hj, Command.label_injective (hself.symm.trans hlabel)⟩
    · exact .inr ⟨hj, args, hpending, hlabel⟩
  · rintro (⟨rfl, rfl⟩ | ⟨-, args, hpending, hlabel⟩)
    · exact hs.pending_self
    · exact ⟨args, (hs.pending hpending).2, hlabel⟩

/-- A new call has ended with nothing. -/
theorem received_of_calls (hs : Calls cfg m.serial id c s) (gate : Option CallId) :
    ({ m with gate := gate, serial := s } : Loadcells).Received j values ↔
      m.Received j values := by
  obtain ⟨data, args, hnew, -, rfl⟩ := hs
  rw [Loadcells.Received, Loadcells.Received, State.goto_calls]
  by_cases hji : j = id
  · subst hji
    refine ⟨?_, ?_⟩
    · rintro ⟨d, fetched, hd, hresult, -⟩
      rw [Function.update_self] at hd
      cases hd
      cases hresult
    · rintro ⟨d, fetched, hd, -⟩
      cases hnew.symm.trans hd
  · rw [Function.update_of_ne hji]

/-- After a step of the serial layer the transactions are those that have not ended in it. -/
theorem asking_of_stepped {sact : Action} (hs : Stepped cfg.serial m.serial sact s)
    (hcall : ∀ id args, sact ≠ .call id args) :
    (m.withSerial s).Asking j ↔ m.Asking j ∧ ∀ fetched, ¬ Ends m.serial s j fetched := by
  rw [asking_iff, asking_iff, show (m.withSerial s).serial = s from rfl]
  simp only [pending_of_stepped hs hcall]
  refine ⟨?_, ?_⟩
  · rintro ⟨args, ⟨hpending, hends⟩, hlabel⟩
    exact ⟨⟨args, hpending, hlabel⟩, hends⟩
  · rintro ⟨⟨args, hpending, hlabel⟩, hends⟩
    exact ⟨args, ⟨hpending, hends⟩, hlabel⟩

/-- After a step of the serial layer the answers are those of before, and that of the
transaction that has ended in it. -/
theorem received_of_stepped {sact : Action} (hs : Stepped cfg.serial m.serial sact s)
    (hcall : ∀ id args, sact ≠ .call id args) : (m.withSerial s).Received j values ↔
      m.Received j values ∨
        m.Asking j ∧ ∃ fetched, Ends m.serial s j fetched ∧ deviceValues fetched = .ok values := by
  change (∃ c fetched, s.calls j = some c ∧ _) ↔ _
  refine ⟨?_, ?_⟩
  · rintro ⟨d, fetched, hd, hresult, hlabel, hvalues⟩
    rcases ends_of_stepped hs hd hresult with hold | hend
    · exact .inl ⟨d, fetched, hold, hresult, hlabel, hvalues⟩
    · obtain ⟨c, hc, hnone, hc'⟩ := id hend
      obtain rfl := Option.some.inj (hd.symm.trans hc')
      exact .inr ⟨⟨c, hc, hnone, hlabel⟩, fetched, hend, hvalues⟩
  · rintro (⟨c, fetched, hc, hresult, hlabel, hvalues⟩ |
      ⟨⟨c, hc, -, hlabel⟩, fetched, ⟨d, hd, -, hc'⟩, hvalues⟩)
    · rcases calls_cases hs j with heq | ⟨args, hact, -⟩ | ⟨d, stage', hd, hnone, -⟩
      · exact ⟨c, fetched, heq.trans hc, hresult, hlabel, hvalues⟩
      · exact absurd hact (hcall _ _)
      · obtain rfl := Option.some.inj (hc.symm.trans hd)
        cases hnone.symm.trans hresult
    · obtain rfl := Option.some.inj (hc.symm.trans hd)
      exact ⟨_, fetched, hc', rfl, hlabel, hvalues⟩

end Calls

/-- The invariant of the tasks: a request in `fetch` has the gate, and the RQIW transactions
are those of such requests. -/
structure Loadcells.TaskInv (m : Loadcells) : Prop where
  gate : ∀ id, m.tasks id = some (.get .fetching) → m.gate = some id
  asks : ∀ id, m.tasks id = some (.get .fetching) ↔ m.Asking id

/-- A task that moves elsewhere leaves the invariant, while the gate is not taken from others
and the other transactions are those of before. -/
theorem Loadcells.TaskInv.update (h : m.TaskInv) {task : LoadcellTask}
    (htasks : m'.tasks = Function.update m.tasks id (some task)) (ht : task ≠ .get .fetching)
    (hgate : m'.gate = m.gate ∨ ∀ j, j ≠ id → m.gate ≠ some j)
    (hasks : ∀ j, m'.Asking j ↔ m.Asking j ∧ j ≠ id) : m'.TaskInv := by
  refine ⟨fun j hj => ?_, fun j => ?_⟩
  · rw [htasks] at hj
    rcases update_eq_some.mp hj with ⟨-, heq⟩ | ⟨hji, hj⟩
    · exact absurd heq ht
    · rcases hgate with heq | hnone
      · rw [heq]
        exact h.gate j hj
      · exact absurd (h.gate j hj) (hnone j hji)
  · rw [hasks, htasks]
    by_cases hji : j = id
    · subst hji
      rw [Function.update_self]
      exact ⟨fun hj => absurd (Option.some.inj hj) ht, fun hj => absurd rfl hj.2⟩
    · rw [Function.update_of_ne hji, h.asks j]
      exact ⟨fun hj => ⟨hj, hji⟩, And.left⟩

/-- A call that is no request in `fetch` is no transaction. -/
theorem Loadcells.TaskInv.not_asking (h : m.TaskInv)
    (ht : m.tasks id ≠ some (.get .fetching)) : ¬ m.Asking id :=
  fun hasking => ht ((h.asks id).mpr hasking)

/-- Nothing changes for the other calls when a call moves that is no transaction. -/
theorem Loadcells.TaskInv.asking_and_ne (h : m.TaskInv)
    (ht : m.tasks id ≠ some (.get .fetching)) (j : CallId) :
    m.Asking j ↔ m.Asking j ∧ j ≠ id := by
  refine ⟨fun hj => ⟨hj, ?_⟩, And.left⟩
  rintro rfl
  exact h.not_asking ht hj

/-- A new call of another command leaves the transactions as they are. -/
theorem asking_of_other {c : Command} {s : State} (hc : c ≠ loadcellWeights)
    (hs : Calls cfg m.serial id c s) (j : CallId) :
    ({ m with gate := m.gate, serial := s } : Loadcells).Asking j ↔ m.Asking j ∧ j ≠ id := by
  rw [asking_of_calls hs m.gate, or_iff_right fun hj => hc hj.2]
  exact and_comm

/-- The transactions after the step that ends the call `id`: those before, without that of the
call. -/
theorem asking_of_ends {sact : Action} {s : State} {fetched : Except PyExc Bytes}
    (hs : Stepped cfg.serial m.serial sact s) (hcall : ∀ id args, sact ≠ .call id args)
    (hothers : ∀ j, j ≠ id → s.calls j = m.serial.calls j) (hend : Ends m.serial s id fetched)
    (j : CallId) : (m.withSerial s).Asking j ↔ m.Asking j ∧ j ≠ id := by
  rw [asking_of_stepped hs hcall]
  refine and_congr_right fun _ => ⟨?_, ?_⟩
  · rintro hends rfl
    exact hends fetched hend
  · exact fun hji _ hend' => hji (eq_of_ends hothers hend')

/-- **Every step keeps one RQIW transaction at a time**, by the cases of the step. -/
theorem Loadcells.TaskInv.step (h : m.TaskInv) (hs : Loadcells.Stepped cfg m act m') :
    m'.TaskInv := by
  cases hs with
  | @started id ht hc =>
      exact h.update rfl nofun (.inl rfl) (h.asking_and_ne (by rw [ht]; nofun))
  | @served id values ht hg hv =>
      exact h.update rfl nofun (.inr fun j _ => by rw [hg]; nofun)
        (h.asking_and_ne (by rw [ht]; nofun))
  | @asked id s ht hg hv hs =>
      refine ⟨fun j hj => ?_, fun j => ?_⟩
      · by_cases hji : j = id
        · rw [hji]
          rfl
        · have hold : m.tasks j = some (.get .fetching) := by
            rw [← hj]
            exact (Function.update_of_ne hji _ _).symm
          cases hg.symm.trans (h.gate j hold)
      · refine Iff.trans ?_ (asking_of_calls hs (some id)).symm
        by_cases hji : j = id
        · subst hji
          exact ⟨fun _ => .inl ⟨rfl, rfl⟩, fun _ => Function.update_self ..⟩
        · change Function.update m.tasks id (some (.get .fetching)) j = _ ↔ _
          rw [Function.update_of_ne hji, h.asks j]
          exact ⟨fun hj => .inr ⟨hji, hj⟩,
            fun hj => hj.elim (fun hj => absurd hj.1 hji) And.right⟩
  | @calibrating id s ht hs =>
      exact h.update rfl nofun (.inl rfl) (asking_of_other (c := calibrateCommand) nofun hs)
  | @commanded id c data s ht hget hcal hs =>
      have hne : m.tasks id ≠ some (.get .fetching) := by rw [ht]; nofun
      refine ⟨h.gate, fun j => (h.asks j).trans ?_⟩
      exact (h.asking_and_ne hne j).trans (asking_of_other hget hs j).symm
  | @gaveUp id ht =>
      exact h.update rfl nofun (.inl rfl) (h.asking_and_ne (by rw [ht]; nofun))
  | wentOn hs hcall hend =>
      refine ⟨h.gate, fun j => Iff.trans ?_ (asking_of_stepped hs hcall).symm⟩
      refine ⟨fun hj => ⟨(h.asks j).mp hj, fun fetched hends => ?_⟩,
        fun hj => (h.asks j).mpr hj.1⟩
      exact hend j fetched _ hends hj trivial
  | @got _ sact s id fetched ts hs hcall hothers hend ht =>
      obtain ⟨hserial, -, stage, hstage, htasks⟩ := finishGet_tasks (m.withSerial s) id fetched ts
      refine h.update htasks (fun heq => hstage (LoadcellTask.get.inj heq)) (.inr fun j hji => ?_)
        fun j => ?_
      · rw [h.gate id ht]
        exact fun heq => hji (Option.some.inj heq).symm
      · rw [Loadcells.Asking, hserial]
        exact asking_of_ends hs hcall hothers hend j
  | @calibrated _ sact s id fetched hs hcall hothers hend ht =>
      obtain ⟨hserial, hgate, stage, htasks⟩ := finishCalibrate_tasks (m.withSerial s) id fetched
      refine h.update htasks nofun (.inl hgate) fun j => ?_
      rw [Loadcells.Asking, hserial]
      exact asking_of_ends hs hcall hothers hend j

/-- One transaction at a time: two calls that are asking are the same one. -/
theorem Loadcells.TaskInv.eq_of_asking (h : m.TaskInv) {a b : CallId} (ha : m.Asking a)
    (hb : m.Asking b) : a = b :=
  Option.some.inj ((h.gate a ((h.asks a).mpr ha)).symm.trans (h.gate b ((h.asks b).mpr hb)))

end IoBoard
