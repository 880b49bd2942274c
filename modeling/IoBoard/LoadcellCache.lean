import IoBoard.LoadcellGate

/-!
# The Throttle Cache

What the module globals of the loadcell commands say about the frames of the device, in every
run. The frames stand in the log in the order of the wire, the sanitizer has seen exactly those
of the current session, and the cache holds what it made of the last one.

## The invariants

There are three, and each uses only those before it.

* `TaskInv`, of the module before: one RQIW transaction at a time.
* `FrameInv`: a frame is in the log exactly once for every answer, next to the reception that
  the serial layer has logged, so that the order of the frames is that of the wire. It does not
  look at the cache or the sanitizer.
* `ThrottleInv`: the sanitizer has seen the frames since the last reset, and the cache, while it
  answers, has what it made of the last of them. While a request is in `fetch` the cache does
  not answer: the request has found it too old, and it only gets older. That is why a reset in
  the middle of a request does not bring old readings back.

## Conventions

The age of the cache is measured from when the request that filled it ended, by the clock of the
event loop; that is also the time of the frame. A call "is answered from the cache" when it
returns in the step in which it gets the gate.

## Main results

* `Loadcells.FrameInv.step`: the log has one frame for each answer.
* `Loadcells.ThrottleInv.step`: what the cache and the sanitizer hold.
* `loadcells_throttled`: **one transaction at a time, the cache answers with the sanitized last
  frame while it is young, the sanitizer is stepped once for each frame, and a failed call
  changes nothing**.
-/

open Runs Sessions

namespace IoBoard

variable {cfg : Settings} {m m' : Loadcells} {id : CallId} {act : LoadcellAction}

/-! ### The frames in the log -/

/-- The entry of the serial layer that a frame follows: the reception by its call, at its time. -/
def DeviceFrame.reception (f : DeviceFrame) : Event :=
  .rx f.call f.time

/-- The invariant of the log: it contains the log of the serial layer, and the frames stand in
it once for each answer and in the order of the wire. -/
structure Loadcells.FrameInv (m : Loadcells) : Prop where
  serial : serialEvents m.log = m.serial.log
  order : ((frames m.log).map DeviceFrame.reception).Sublist m.serial.log
  once : ((frames m.log).map DeviceFrame.call).Nodup
  received : ∀ id values, m.Received id values ↔
    ∃ f ∈ frames m.log, f.call = id ∧ f.frame.values = values

/-- A step that receives no frame leaves the frames as they are. -/
theorem Loadcells.FrameInv.congr (h : m.FrameInv) (more : List Event)
    (hserial : m'.serial.log = m.serial.log ++ more)
    (hevents : serialEvents m'.log = serialEvents m.log ++ more)
    (hframes : frames m'.log = frames m.log)
    (hreceived : ∀ id values, m'.Received id values ↔ m.Received id values) : m'.FrameInv where
  serial := by rw [hevents, hserial, h.serial]
  order := by
    rw [hframes, hserial]
    exact h.order.trans (List.sublist_append_left ..)
  once := hframes ▸ h.once
  received id values := by rw [hreceived, hframes, h.received]

/-- A step that receives a frame adds it. -/
theorem Loadcells.FrameInv.append (h : m.FrameInv) {f : DeviceFrame}
    (hserial : m'.serial.log = m.serial.log ++ [f.reception])
    (hevents : serialEvents m'.log = serialEvents m.log ++ [f.reception])
    (hframes : frames m'.log = frames m.log ++ [f])
    (hnew : ∀ values, ¬ m.Received f.call values)
    (hreceived : ∀ id values, m'.Received id values ↔
      m.Received id values ∨ f.call = id ∧ f.frame.values = values) : m'.FrameInv where
  serial := by rw [hevents, hserial, h.serial]
  order := by
    rw [hframes, hserial, List.map_append]
    exact h.order.append_right _
  once := by
    rw [hframes, List.map_append]
    refine h.once.append (List.nodup_singleton _) fun id hmem hid => ?_
    obtain rfl := List.mem_singleton.mp hid
    obtain ⟨g, hg, hcall⟩ := List.mem_map.mp hmem
    exact hnew g.frame.values ((h.received _ _).mpr ⟨g, hg, hcall, rfl⟩)
  received id values := by
    rw [hreceived, hframes, h.received]
    refine ⟨?_, ?_⟩
    · rintro (⟨g, hg, hcall⟩ | hcall)
      · exact ⟨g, List.mem_append_left _ hg, hcall⟩
      · exact ⟨f, List.mem_append_right _ (List.mem_singleton_self f), hcall⟩
    · rintro ⟨g, hg, hcall⟩
      rcases List.mem_append.mp hg with hg | hg
      · exact .inl ⟨g, hg, hcall⟩
      · obtain rfl := List.mem_singleton.mp hg
        exact .inr hcall

/-- A step of the serial layer that ends no transaction with a frame. -/
theorem Loadcells.FrameInv.withSerial (h : m.FrameInv) {sact : Action} {s : State}
    (hs : IoBoard.Stepped cfg.serial m.serial sact s) (hcall : ∀ id args, sact ≠ .call id args)
    (hquiet : ∀ id fetched values, m.Asking id → Ends m.serial s id fetched →
      deviceValues fetched ≠ .ok values) : (m.withSerial s).FrameInv := by
  obtain ⟨more, hmore, hlog⟩ := exists_withSerial hs
  refine h.congr more hmore ?_ (frames_withSerial hs).2.2 fun id values => ?_
  · rw [hlog, serialEvents_append, serialEvents_serial]
  · rw [received_of_stepped hs hcall]
    refine or_iff_left ?_
    rintro ⟨hasking, fetched, hend, hvalues⟩
    exact hquiet id fetched values hasking hend hvalues

/-- The frame that a request has received, after the log of the serial layer. A request that
fails adds none. -/
theorem finishGet_log (m : Loadcells) (id : CallId) (fetched : Except PyExc Bytes)
    (ts : PyFloat) : (m.finishGet id fetched ts).log = m.log ++ m.deviceFrame id fetched ts := by
  rw [Loadcells.finishGet]
  dsimp only
  split <;> rfl

theorem deviceFrame_of_ok {fetched : Except PyExc Bytes} {values : List Str} (ts : PyFloat)
    (h : deviceValues fetched = .ok values) :
    m.deviceFrame id fetched ts = [.frame (m.received id values ts)] := by
  rw [Loadcells.deviceFrame, h]
  rfl

theorem deviceFrame_of_error {fetched : Except PyExc Bytes} {e : PyExc} (ts : PyFloat)
    (h : deviceValues fetched = .error e) : m.deviceFrame id fetched ts = [] := by
  rw [Loadcells.deviceFrame, h]

/-- The log entries of a frame that a request receives: the step that ends its `fetch` has
logged the reception last. -/
theorem reception_of_ends {sact : Action} {s : State} {fetched : Except PyExc Bytes}
    {values : List Str} (ts : PyFloat) (hs : Stepped cfg.serial m.serial sact s)
    (hend : Ends m.serial s id fetched) (hvalues : deviceValues fetched = .ok values) :
    s.log = m.serial.log ++ [((m.withSerial s).received id values ts).reception] ∧
      (m.withSerial s).log =
        m.log ++ [.serial ((m.withSerial s).received id values ts).reception] := by
  cases fetched with
  | error e => cases hvalues
  | ok frame =>
      obtain ⟨hlog, hclock⟩ := log_of_ends_ok hs hend
      rw [← hclock] at hlog
      exact ⟨hlog, by rw [Loadcells.withSerial, hlog, List.drop_left]; rfl⟩

/-- **Every step keeps the frames in the order of the wire**, one for each answer. A frame is
logged in the step that logs its reception. -/
theorem Loadcells.FrameInv.step (h : m.FrameInv) (ht : m.TaskInv)
    (hs : Loadcells.Stepped cfg m act m') : m'.FrameInv := by
  have unchanged {n n' : Loadcells} (hn : n.FrameInv) (hserial : n'.serial = n.serial)
      (hevents : serialEvents n'.log = serialEvents n.log)
      (hframes : frames n'.log = frames n.log) : n'.FrameInv := by
    refine hn.congr [] ?_ ?_ hframes fun j values => ?_
    · rw [hserial, List.append_nil]
    · rw [hevents, List.append_nil]
    · rw [Loadcells.Received, Loadcells.Received, hserial]
  have called {j : CallId} {c : Command} {s : State} {m' : Loadcells}
      (hs : Calls cfg m.serial j c s) (hserial : m'.serial = s) (hlog : m'.log = m.log) :
      m'.FrameInv := by
    obtain ⟨data, args, hnew, hargs, hgoto⟩ := id hs
    refine h.congr [] ?_ ?_ (by rw [hlog]) fun i values => ?_
    · rw [hserial, hgoto, List.append_nil]
      rfl
    · rw [hlog, List.append_nil]
    · rw [← received_of_calls hs m.gate, Loadcells.Received, hserial]
      rfl
  cases hs with
  | started | served | gaveUp => exact unchanged h rfl rfl rfl
  | asked _ _ _ hs => exact called hs rfl rfl
  | calibrating _ hs => exact called hs rfl rfl
  | commanded _ _ _ hs => exact called hs rfl rfl
  | wentOn hs hcall hend =>
      refine h.withSerial hs hcall fun id fetched values hasking hends => ?_
      exact (hend id fetched _ hends ((ht.asks id).mpr hasking) trivial).elim
  | @got _ sact s id fetched ts hs hcall hothers hend htask =>
      obtain ⟨hserial, -⟩ := finishGet_tasks (m.withSerial s) id fetched ts
      have hlog := finishGet_log (m.withSerial s) id fetched ts
      cases hvalues : deviceValues fetched with
      | error e =>
          rw [deviceFrame_of_error ts hvalues, List.append_nil] at hlog
          refine unchanged (h.withSerial hs hcall fun j fetched' values _ hends => ?_) hserial
            (by rw [hlog]) (by rw [hlog])
          obtain rfl := eq_of_ends hothers hends
          rw [hends.unique hend, hvalues]
          intro hok
          cases hok
      | ok values =>
          rw [deviceFrame_of_ok ts hvalues] at hlog
          obtain ⟨hslog, hnlog⟩ := reception_of_ends ts hs hend hvalues
          refine h.append (f := (m.withSerial s).received id values ts) ?_ ?_ ?_ ?_ ?_
          · rw [hserial]
            exact hslog
          · rw [hlog, hnlog, serialEvents_append, serialEvents_append, List.append_assoc]
            rfl
          · rw [hlog, hnlog, frames_append, frames_append, List.append_assoc]
            rfl
          · rintro values' ⟨c, fetched', hc, hresult, -⟩
            obtain ⟨d, hd, hnone, -⟩ := hend
            obtain rfl := Option.some.inj (hc.symm.trans hd)
            cases hnone.symm.trans hresult
          · intro j values'
            rw [Loadcells.Received, hserial]
            refine (received_of_stepped hs hcall).trans (or_congr_right ⟨?_, ?_⟩)
            · rintro ⟨-, fetched', hends, hvalues'⟩
              obtain rfl := eq_of_ends hothers hends
              rw [hends.unique hend] at hvalues'
              exact ⟨rfl, Except.ok.inj (hvalues.symm.trans hvalues')⟩
            · rintro ⟨rfl, rfl⟩
              exact ⟨(ht.asks _).mp htask, fetched, hend, hvalues⟩
  | @calibrated _ sact s id fetched hs hcall hothers hend htask =>
      have hn := h.withSerial hs hcall fun j fetched' values hasking hends => by
        obtain rfl := eq_of_ends hothers hends
        cases htask.symm.trans ((ht.asks _).mpr hasking)
      rcases finishCalibrate_cases (m.withSerial s) id fetched with ⟨e, heq⟩ | ⟨-, heq⟩
      · rw [heq]
        exact unchanged hn rfl rfl rfl
      · rw [heq]
        refine unchanged hn rfl ?_ ?_
        · exact (serialEvents_append _ _).trans (List.append_nil _)
        · exact (frames_append _ _).trans (List.append_nil _)

/-! ### What the cache holds -/

/-- The readings are what the sanitizer has made of the last frame since the last reset, which
has come at `time`. -/
def Latest (cfg : Settings) (log : List LoadcellEvent) (values : List Str) (time : ℚ) : Prop :=
  ∃ seen f, frames (sinceReset log) = seen ++ [f] ∧ sanitized cfg seen f = .ok values ∧
    f.time = time

/-- The invariant of the throttle: the sanitizer has seen the frames since the last reset, the
cache answers with the last of them, and with nothing while a request is in `fetch`. -/
structure Loadcells.ThrottleInv (cfg : Settings) (m : Loadcells) : Prop where
  sanitizer : m.sanitizer = sanitizerAfter cfg (frames (sinceReset m.log))
  cache : ∀ values, m.served cfg = some values → Latest cfg m.log values m.cacheTs
  fetching : ∀ id, m.tasks id = some (.get .fetching) → m.served cfg = none

/-- The cache answers with the cached readings while they are young. -/
theorem served_eq_some_iff {values : List Str} : m.served cfg = some values ↔
    m.cache = some values ∧ 0 < cfg.polling.loadcellsMinRequestGap ∧
      m.serial.clock - m.cacheTs < cfg.polling.loadcellsMinRequestGap := by
  rw [Loadcells.served]
  cases m.cache with
  | none => simp
  | some cached => simp [and_comm]

/-- The cache answers no longer than before, while its content stays and the clock goes on. -/
theorem served_mono {values : List Str} (hcache : m'.cache = m.cache)
    (hts : m'.cacheTs = m.cacheTs) (hclock : m.serial.clock ≤ m'.serial.clock)
    (h : m'.served cfg = some values) : m.served cfg = some values := by
  rw [served_eq_some_iff, hcache, hts] at h
  obtain ⟨hvalues, hgap, hyoung⟩ := h
  exact served_eq_some_iff.mpr ⟨hvalues, hgap, by linarith⟩

/-- Nothing changes while no frame comes and nothing is reset. -/
theorem Loadcells.ThrottleInv.congr (h : m.ThrottleInv cfg) (hcache : m'.cache = m.cache)
    (hts : m'.cacheTs = m.cacheTs) (hsanitizer : m'.sanitizer = m.sanitizer)
    (hframes : frames (sinceReset m'.log) = frames (sinceReset m.log))
    (hclock : m.serial.clock ≤ m'.serial.clock)
    (htasks : ∀ id, m'.tasks id = some (.get .fetching) →
      m.tasks id = some (.get .fetching) ∨ m.served cfg = none) : m'.ThrottleInv cfg where
  sanitizer := by rw [hsanitizer, hframes, h.sanitizer]
  cache values hserved := by
    rw [Latest, hframes, hts]
    exact h.cache values (served_mono hcache hts hclock hserved)
  fetching id hid := by
    have hnone : m.served cfg = none := (htasks id hid).elim (h.fetching id) fun hnone => hnone
    cases hserved : m'.served cfg with
    | none => rfl
    | some values => cases hnone.symm.trans (served_mono hcache hts hclock hserved)

/-- Only one task moves, and it moves elsewhere: a task in that other stage was in it before. -/
theorem task_of_update {tasks : CallId → Option LoadcellTask} {task other : LoadcellTask}
    (ht : task ≠ other) {j : CallId}
    (hj : Function.update tasks id (some task) j = some other) : j ≠ id ∧ tasks j = some other := by
  rcases update_eq_some.mp hj with ⟨-, heq⟩ | hother
  · exact absurd heq ht
  · exact hother

/-- Time goes on, and the serial layer with it. -/
theorem Loadcells.ThrottleInv.withSerial (h : m.ThrottleInv cfg) {sact : Action} {s : State}
    (hs : IoBoard.Stepped cfg.serial m.serial sact s) : (m.withSerial s).ThrottleInv cfg :=
  h.congr rfl rfl rfl (frames_withSerial hs).1 (clock_le_of_stepped hs) fun _ hid => .inl hid

/-- A frame belongs to the current session, as its last frame. -/
theorem frames_sinceReset_concat (log : List LoadcellEvent) (f : DeviceFrame) :
    frames (sinceReset (log ++ [.frame f])) = frames (sinceReset log) ++ [f] := by
  rw [sinceReset, current_concat rfl, frames_append]
  rfl

/-- A request is answered with what the sanitizer makes of its frame, the last one. -/
theorem latest_of_ok (h : m.ThrottleInv cfg) {values result : List Str} {ts : PyFloat}
    (hresult : (sanitizeLoadcells m.sanitizer values ts).2 = .ok result) :
    Latest cfg (m.log ++ [.frame (m.received id values ts)]) result m.serial.clock := by
  refine ⟨_, _, frames_sinceReset_concat .., ?_, rfl⟩
  rw [sanitized, ← h.sanitizer]
  exact hresult

/-- The end of a request: it fails and changes nothing, or it steps the sanitizer with its
frame and fills the cache. -/
theorem Loadcells.ThrottleInv.finishGet (h : m.ThrottleInv cfg) (fetched : Except PyExc Bytes)
    (ts : PyFloat) (ht : m.tasks id = some (.get .fetching))
    (halone : ∀ j, m.tasks j = some (.get .fetching) → j = id) :
    (m.finishGet id fetched ts).ThrottleInv cfg := by
  have hnone : m.served cfg = none := h.fetching id ht
  have left {tasks : CallId → Option LoadcellTask} {stage : GetStage} (hstage : stage ≠ .fetching)
      (htasks : tasks = Function.update m.tasks id (some (.get stage))) (j : CallId) :
      tasks j ≠ some (.get .fetching) := by
    subst htasks
    intro hj
    obtain ⟨hji, hj⟩ := task_of_update (fun heq => hstage (LoadcellTask.get.inj heq)) hj
    exact hji (halone j hj)
  cases hvalues : deviceValues fetched with
  | error e =>
      rw [finishGet_of_error hvalues]
      exact h.congr rfl rfl rfl rfl le_rfl fun j hj => absurd hj (left (by nofun) rfl j)
  | ok values =>
      have hsanitizer : (sanitizeLoadcells m.sanitizer values ts).1 = sanitizerAfter cfg
          (frames (sinceReset (m.log ++ [.frame (m.received id values ts)]))) := by
        rw [frames_sinceReset_concat, sanitizerAfter_append, h.sanitizer]
        rfl
      cases hresult : (sanitizeLoadcells m.sanitizer values ts).2 with
      | error e =>
          rw [finishGet_of_raise hvalues hresult]
          refine ⟨hsanitizer, fun result hserved => ?_,
            fun j hj => absurd hj (left (by nofun) rfl j)⟩
          cases hnone.symm.trans (served_mono rfl rfl le_rfl hserved)
      | ok result =>
          rw [finishGet_of_ok hvalues hresult]
          refine ⟨hsanitizer, fun result' hserved => ?_,
            fun j hj => absurd hj (left (by nofun) rfl j)⟩
          obtain rfl := Option.some.inj (served_eq_some_iff.mp hserved).1
          exact latest_of_ok h hresult

/-- **Every step keeps what the cache and the sanitizer hold.** Only the end of a request and a
reset change them. -/
theorem Loadcells.ThrottleInv.step (h : m.ThrottleInv cfg) (ht : m.TaskInv)
    (hs : Loadcells.Stepped cfg m act m') : m'.ThrottleInv cfg := by
  have called {j : CallId} {c : Command} {s : State} (hs : Calls cfg m.serial j c s) :
      m.serial.clock ≤ s.clock := by
    obtain ⟨data, args, -, -, rfl⟩ := hs
    exact le_rfl
  cases hs with
  | started | served | gaveUp =>
      exact h.congr rfl rfl rfl rfl le_rfl fun j hj => .inl (task_of_update (by nofun) hj).2
  | asked _ _ hv hs => exact h.congr rfl rfl rfl rfl (called hs) fun _ _ => .inr hv
  | calibrating _ hs =>
      exact h.congr rfl rfl rfl rfl (called hs) fun j hj => .inl (task_of_update (by nofun) hj).2
  | commanded _ _ _ hs => exact h.congr rfl rfl rfl rfl (called hs) fun _ hj => .inl hj
  | wentOn hs => exact h.withSerial hs
  | @got _ sact s id fetched ts hs hcall _ _ htask =>
      refine (h.withSerial hs).finishGet fetched ts htask fun j hj => ?_
      exact ht.eq_of_asking ((ht.asks j).mp hj) ((ht.asks id).mp htask)
  | @calibrated _ sact s id fetched hs =>
      have hn := h.withSerial hs
      rcases finishCalibrate_cases (m.withSerial s) id fetched with ⟨e, heq⟩ | ⟨-, heq⟩
      · rw [heq]
        exact hn.congr rfl rfl rfl rfl le_rfl fun j hj => .inl (task_of_update (by nofun) hj).2
      · rw [heq]
        refine ⟨?_, nofun, fun _ _ => rfl⟩
        change resetSanitizer (m.withSerial s).sanitizer = _
        rw [hn.sanitizer, resetSanitizer_sanitizerAfter]
        exact congrArg (fun log => sanitizerAfter cfg (frames log)) (current_mark rfl).symm

/-! ### Every run -/

/-- The invariants of the loadcell commands together. -/
structure Loadcells.Inv (cfg : Settings) (m : Loadcells) : Prop where
  task : m.TaskInv
  frame : m.FrameInv
  throttle : m.ThrottleInv cfg

/-- They hold after the service has started: there is no frame, no task and no cached reading. -/
theorem inv_configured (cfg : Settings) : (Loadcells.configured cfg).Inv cfg where
  task :=
    { gate := nofun
      asks := fun _ => ⟨nofun, fun ⟨_, hc, _⟩ => nomatch hc⟩ }
  frame :=
    { serial := rfl
      order := .slnil
      once := .nil
      received := fun _ _ =>
        ⟨fun ⟨_, _, hc, _⟩ => (nomatch hc), fun ⟨_, hf, _⟩ => absurd hf List.not_mem_nil⟩ }
  throttle :=
    { sanitizer := sanitizerAfter_nil.symm
      cache := nofun
      fetching := nofun }

/-- They hold in every run, each by its step lemma. -/
theorem inv_of_reachable (h : Loadcells.Reachable cfg m) : m.Inv cfg :=
  h.invariant (inv_configured cfg) fun _ _ _ hinv _ hstep =>
    have hs := loadcellStepped_of_step hstep
    ⟨hinv.task.step hs, hinv.frame.step hinv.task hs, hinv.throttle.step hinv.task hs⟩

/-- A call that returns as soon as it has the gate is answered from the cache. -/
theorem served_of_acquire {values : List Str} (h : m.step cfg (.acquire id) = some m')
    (ht : m'.tasks id = some (.get (.returned values))) : m.served cfg = some values := by
  rw [Loadcells.step, Option.ite_none_right_eq_some, Loadcells.enter] at h
  obtain ⟨-, h⟩ := h
  cases hserved : m.served cfg with
  | some cached =>
      rw [hserved] at h
      obtain rfl := Option.some.inj h
      have hself : (m.leave id (.returned cached)).tasks id = some (.get (.returned cached)) :=
        Function.update_self ..
      cases hself.symm.trans ht
      rfl
  | none =>
      rw [hserved] at h
      obtain ⟨n, -, rfl⟩ := Option.map_eq_some_iff.mp h
      have hself : (n.setTask id (.get .fetching)).tasks id = some (.get .fetching) :=
        Function.update_self ..
      cases hself.symm.trans ht

/-- A call whose transaction fails changes none of the globals: neither the cache and its time
nor the sanitizer. -/
theorem unchanged_of_failed (hs : Loadcells.Stepped cfg m act m')
    {fetched : Except PyExc Bytes} {e : PyExc} (ht : m.tasks id = some (.get .fetching))
    (hend : Ends m.serial m'.serial id fetched)
    (he : deviceValues fetched = .error e) :
    m'.cache = m.cache ∧ m'.cacheTs = m.cacheTs ∧ m'.sanitizer = m.sanitizer ∧
      m'.tasks id = some (.get (.failed (IoBoard.session "get_loadcells" [] e))) := by
  have unmoved {s : State} (hs : s.calls id = m.serial.calls id)
      (hend : Ends m.serial s id fetched) : False := by
    obtain ⟨c, hc, hnone, hc'⟩ := hend
    rw [congrArg Call.stage (Option.some.inj (hc.symm.trans (hs.symm.trans hc')))] at hnone
    cases hnone
  have called {j : CallId} {c : Command} {s : State} (hs : Calls cfg m.serial j c s)
      (hend : Ends m.serial s id fetched) : False := by
    obtain ⟨data, args, hnew, -, rfl⟩ := hs
    refine unmoved (Function.update_of_ne ?_ ..) hend
    rintro rfl
    obtain ⟨c, hc, -⟩ := hend
    cases hnew.symm.trans hc
  cases hs with
  | started | served | gaveUp => exact (unmoved rfl hend).elim
  | asked _ _ _ hs => exact (called hs hend).elim
  | calibrating _ hs => exact (called hs hend).elim
  | commanded _ _ _ hs => exact (called hs hend).elim
  | wentOn _ _ hquiet => exact absurd trivial (hquiet id fetched _ hend ht)
  | @got _ _ s j fetched' ts _ _ hothers hend' =>
      rw [(finishGet_tasks (m.withSerial s) j fetched' ts).1] at hend
      obtain rfl := eq_of_ends hothers hend
      rw [← hend.unique hend', finishGet_of_error he]
      exact ⟨rfl, rfl, rfl, Function.update_self ..⟩
  | @calibrated _ _ s j fetched' _ _ hothers _ htask =>
      rw [(finishCalibrate_tasks (m.withSerial s) j fetched').1] at hend
      obtain rfl := eq_of_ends hothers hend
      cases htask.symm.trans ht

/-- **The throttle gate.** In every run one RQIW transaction is in progress at a time; a call
that is answered from the cache gets what a fresh sanitizer makes of the last frame since the
last reset, which is younger than the minimum gap; the sanitizer has seen each frame since the
last reset once, in the order of the wire; and a call whose transaction fails changes nothing. -/
theorem loadcells_throttled (h : Loadcells.Reachable cfg m) :
    (∀ a b, m.Asking a → m.Asking b → a = b) ∧
    (∀ id m' values, m.step cfg (.acquire id) = some m' →
      m'.tasks id = some (.get (.returned values)) →
      ∃ seen f, frames (sinceReset m.log) = seen ++ [f] ∧ sanitized cfg seen f = .ok values ∧
        m.serial.clock - f.time < cfg.polling.loadcellsMinRequestGap) ∧
    (m.sanitizer = sanitizerAfter cfg (frames (sinceReset m.log)) ∧ m.FrameInv) ∧
    ∀ act m' id fetched e, m.step cfg act = some m' → m.tasks id = some (.get .fetching) →
      Ends m.serial m'.serial id fetched → deviceValues fetched = .error e →
      m'.cache = m.cache ∧ m'.cacheTs = m.cacheTs ∧ m'.sanitizer = m.sanitizer ∧
        m'.tasks id = some (.get (.failed (IoBoard.session "get_loadcells" [] e))) := by
  obtain ⟨htask, hframe, hthrottle⟩ := inv_of_reachable h
  refine ⟨fun _ _ => htask.eq_of_asking, fun id m' values hstep ht => ?_,
    ⟨hthrottle.sanitizer, hframe⟩, fun act m' id fetched e hstep ht hend he =>
      unchanged_of_failed (loadcellStepped_of_step hstep) ht hend he⟩
  have hserved := served_of_acquire hstep ht
  obtain ⟨seen, f, hframes, hvalues, htime⟩ := hthrottle.cache values hserved
  refine ⟨seen, f, hframes, hvalues, ?_⟩
  rw [htime]
  exact (served_eq_some_iff.mp hserved).2.2

/-- A frame of ten equal readings. -/
def rqiwFrame : Bytes :=
  [2, 82, 81, 73, 87] ++ (List.replicate 10 [43, 48, 48, 49, 48, 48]).flatten ++ [3, 30]

/-- A call receives a frame, and half a second later another call starts. -/
def cachedRun : List LoadcellAction :=
  [.getLoadcells 0, .acquire 0, .resume 0 .ready 0, .resume 0 .ready 0, .resume 0 .ready 0,
    .resume 0 .ready 0, .resume 0 .ready 0, .tick (1 / 20), .resume 0 .timedOut 0,
    .resume 0 .ready 0, .receive 0 rqiwFrame, .resume 0 .ready 0, .resume 0 .ready 0,
    .resume 0 .ready 0, .getLoadcells 1, .tick (1 / 2)]

theorem cachedRun_isSome :
    (runFrom (Loadcells.step {}) (Loadcells.configured {}) cachedRun).isSome := by
  decide +kernel

/-- The second call of `cachedRun` gets the frame of the first. -/
theorem loadcells_throttled_cachedRun : ∃ m seen f, Loadcells.Reachable {} m ∧
    frames (sinceReset m.log) = seen ++ [f] ∧
    sanitized {} seen f = .ok (List.replicate 10 ['+', '0', '0', '1', '0', '0']) ∧
    m.serial.clock - f.time < 3 / 4 := by
  have hm : Loadcells.Reachable {}
      ((runFrom (Loadcells.step {}) (Loadcells.configured {}) cachedRun).get cachedRun_isSome) :=
    reaches_get cachedRun_isSome
  have hacquire : (Loadcells.step {} ((runFrom (Loadcells.step {}) (Loadcells.configured {})
      cachedRun).get cachedRun_isSome) (.acquire 1)).map (fun m => m.tasks 1) =
        some (some (.get (.returned (List.replicate 10 ['+', '0', '0', '1', '0', '0'])))) := by
    decide +kernel
  obtain ⟨m', hstep, ht⟩ := Option.map_eq_some_iff.mp hacquire
  obtain ⟨seen, f, hseen⟩ := (loadcells_throttled hm).2.1 1 m' _ hstep ht
  exact ⟨_, seen, f, hm, hseen⟩

end IoBoard
