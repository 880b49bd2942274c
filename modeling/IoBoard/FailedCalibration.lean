import IoBoard.Calibration

/-!
# Failed Calibrations

`calibrate` resets the loadcell processing once its command has succeeded. A command that has
put MCLZ on the wire and fails leaves the cache and the sanitizer as they are, while the device
may have been zeroed. What a later call returns is then free of older readings as far as there
are none: none has come since the last reset, or the processing has been reset since, or there is
no sanitizer to keep them and the cache does not answer.

## What counts as free of older readings

`AfterTransmission` describes the readings of a later call by the log only: they come from the
last frame, which was requested after the MCLZ transmission, and they are what a fresh sanitizer
makes of frames after it. `NothingStale` is a condition on the state in which the calibration
has failed, and on its log. It does not mention what a later call returns.

The calibration may have been retried, and every attempt transmits. The transmission of the
theorem is any of them; for the last one the condition is the weakest.

## The other calls

The calibration holds the serial mutex from its first attempt to its last, so the calls that
have sent something before an MCLZ transmission are done by then (`WireInv`). A call whose
transaction was still to come asks after it. That is all that is needed about interleavings.

## Main results

* `Loadcells.WireInv.step`: a call that is not done when another one transmits has sent nothing.
* `failedCalibration_fresh`: **without anything stale at the MCLZ, a call that starts after the
  failure returns a frame requested after it, as a fresh sanitizer sees it**.
* `not_failedCalibrationsForget`: readings from before the MCLZ in the answer of a later call.
-/

open Runs Sessions

namespace IoBoard

variable {cfg : Settings} {m m' : Loadcells} {id : CallId} {act : LoadcellAction}

/-! ### One transmission -/

/-- What a step of the serial layer logs: nothing, one entry that is no transmission, or one
transmission, by the owner of the mutex, and then no call ends. -/
theorem log_cases {cfg : SerialModel} {s s' : State} {act : Action} (ho : Owned s)
    (h : Stepped cfg s act s') :
    (∃ more, s'.log = s.log ++ more ∧ ∀ t, .tx t ∉ more) ∨
    ∃ t, s'.log = s.log ++ [.tx t] ∧ s'.mutex = some t.call ∧ ∀ id r, ¬ Ends s s' id r := by
  have quiet (heq : s'.log = s.log) : ∃ more, s'.log = s.log ++ more ∧ ∀ t, .tx t ∉ more :=
    ⟨[], by rw [heq, List.append_nil], fun _ => List.not_mem_nil⟩
  have single {e : Event} (heq : s'.log = s.log ++ [e]) (he : ∀ t, e ≠ .tx t) :
      ∃ more, s'.log = s.log ++ more ∧ ∀ t, .tx t ∉ more :=
    ⟨[e], heq, fun t ht => he t (List.mem_singleton.mp ht).symm⟩
  cases h with
  | @resumed id w c stage' _ hc hr =>
      rcases hr.booked_cases.2 with ⟨-, -, heq | heq | heq⟩ | ⟨a, d, hstage, rfl⟩ | ⟨-, -, heq⟩
      · exact .inl (quiet heq)
      · exact .inl (single heq nofun)
      · exact .inl (single heq nofun)
      · refine .inr ⟨s.txNow id c a, rfl, ho id c hc (by rw [hstage]; trivial), fun j r hend => ?_⟩
        obtain ⟨d, hd, hnone, hd'⟩ := hend
        change Function.update s.calls id _ j = _ at hd'
        rcases update_eq_some.mp hd' with ⟨-, heq⟩ | ⟨-, heq⟩
        · cases congrArg Call.stage heq
        · rw [congrArg Call.stage (Option.some.inj (hd.symm.trans heq))] at hnone
          cases hnone
      · exact .inl (single heq nofun)
  | called | cancelledWaiting | cancelled | ticked | received | closing | lost =>
      exact .inl (quiet rfl)

/-! ### What is on the wire -/

/-- The calls that are done: they have ended, and their frame is not among these entries. -/
def Loadcells.DoneBefore (m : Loadcells) (after : List LoadcellEvent) (j : CallId) : Prop :=
  ¬ m.serial.Unfinished j ∧ ∀ f ∈ frames after, f.call ≠ j

/-- The invariant of the wire: where a call transmits, another one that has sent something is
done. -/
def Loadcells.WireInv (m : Loadcells) : Prop :=
  ∀ before t after, m.log = before ++ .serial (.tx t) :: after →
    ∀ t' ∈ transmissions before, t'.call ≠ t.call → m.DoneBefore after t'.call

/-- What a step adds to the log: the frames of calls that were in progress, and a transmission
only of the owner of the mutex and only by itself. -/
structure LogStep (m m' : Loadcells) (more : List LoadcellEvent) : Prop where
  log : m'.log = m.log ++ more
  calls : ∀ j, m'.serial.Unfinished j → m.serial.Unfinished j
  frames : ∀ f ∈ frames more, m.serial.Unfinished f.call
  sent : ∀ t, .serial (.tx t) ∈ more → more = [.serial (.tx t)] ∧ m'.serial.mutex = some t.call

/-- A call that ends in a step was in progress before it. -/
theorem unfinished_of_ends {s s' : State} {r : Except PyExc Bytes} (h : Ends s s' id r) :
    s.Unfinished id := by
  obtain ⟨c, hc, hnone, -⟩ := h
  intro d hd
  rw [← Option.some.inj (hc.symm.trans hd)]
  exact hnone

/-- The step that ends a call transmits nothing. -/
theorem exists_withSerial_of_ends {s : State} {sact : Action} {fetched : Except PyExc Bytes}
    (ho : Owned m.serial) (hs : IoBoard.Stepped cfg.serial m.serial sact s)
    (hend : Ends m.serial s id fetched) : ∃ more, (m.withSerial s).log = m.log ++ more ∧
      frames more = [] ∧ ∀ t, .serial (.tx t) ∉ more := by
  obtain ⟨more, hmore, hlog⟩ := exists_withSerial hs
  refine ⟨_, hlog, frames_serial more, fun t ht => ?_⟩
  rcases log_cases ho hs with ⟨more', hmore', hno⟩ | ⟨t', -, -, hnone⟩
  · obtain rfl := List.append_cancel_left (hmore.symm.trans hmore')
    obtain ⟨e, he, heq⟩ := List.mem_map.mp ht
    cases heq
    exact hno t he
  · exact hnone id fetched hend

/-- Every step adds such entries, and often none. -/
theorem exists_logStep (ho : Owned m.serial) (hs : Loadcells.Stepped cfg m act m') :
    ∃ more, LogStep m m' more := by
  have quiet {m' : Loadcells} (hlog : m'.log = m.log)
      (hcalls : ∀ j, m'.serial.Unfinished j → m.serial.Unfinished j) : ∃ more, LogStep m m' more :=
    ⟨[], by rw [hlog, List.append_nil], hcalls, List.forall_mem_nil _,
      fun _ ht => absurd ht List.not_mem_nil⟩
  have called {j : CallId} {c : Command} {s : State} (hs : Calls cfg m.serial j c s)
      (i : CallId) (hi : s.Unfinished i) : m.serial.Unfinished i := by
    obtain ⟨args, hstep⟩ := hs.stepped
    exact unfinished_of_stepped hstep hi
  cases hs with
  | started | served | gaveUp => exact quiet rfl fun _ hj => hj
  | asked _ _ _ hs => exact quiet rfl (called hs)
  | calibrating _ hs => exact quiet rfl (called hs)
  | commanded _ _ _ hs => exact quiet rfl (called hs)
  | @wentOn _ sact s hs =>
      obtain ⟨more, hmore, hlog⟩ := exists_withSerial hs
      refine ⟨_, hlog, fun j => unfinished_of_stepped hs, ?_, fun t ht => ?_⟩
      · rw [frames_serial]
        exact List.forall_mem_nil _
      · obtain ⟨e, he, heq⟩ := List.mem_map.mp ht
        cases heq
        rcases log_cases ho hs with ⟨more', hmore', hno⟩ | ⟨t', hlog', hmutex, -⟩
        · obtain rfl := List.append_cancel_left (hmore.symm.trans hmore')
          exact absurd he (hno t)
        · obtain rfl := List.append_cancel_left (hmore.symm.trans hlog')
          obtain rfl : t = t' := by simpa using he
          exact ⟨rfl, hmutex⟩
  | @got _ sact s id fetched ts hs _ _ hend =>
      obtain ⟨more, hlog, hframes, hno⟩ := exists_withSerial_of_ends ho hs hend
      have hserial := (finishGet_tasks (m.withSerial s) id fetched ts).1
      refine ⟨more ++ (m.withSerial s).deviceFrame id fetched ts, ?_, fun j hj => ?_, ?_,
        fun t ht => ?_⟩
      · rw [finishGet_log, hlog, List.append_assoc]
      · rw [hserial] at hj
        exact unfinished_of_stepped hs hj
      · intro f hf
        rw [frames_append, hframes, List.nil_append] at hf
        cases hvalues : deviceValues fetched with
        | error e =>
            rw [deviceFrame_of_error ts hvalues] at hf
            cases hf
        | ok values =>
            rw [deviceFrame_of_ok ts hvalues] at hf
            obtain rfl := List.mem_singleton.mp hf
            exact unfinished_of_ends hend
      · rcases List.mem_append.mp ht with ht | ht
        · exact absurd ht (hno t)
        · rw [Loadcells.deviceFrame] at ht
          split at ht <;> simp at ht
  | @calibrated _ sact s id fetched hs _ _ hend =>
      obtain ⟨more, hlog, hframes, hno⟩ := exists_withSerial_of_ends ho hs hend
      rcases finishCalibrate_cases (m.withSerial s) id fetched with ⟨e, heq⟩ | ⟨-, heq⟩
      · rw [heq]
        refine ⟨more, hlog, fun j => unfinished_of_stepped hs, ?_, fun t ht => absurd ht (hno t)⟩
        rw [hframes]
        exact List.forall_mem_nil _
      · rw [heq]
        refine ⟨more ++ [.reset id], ?_, fun j => unfinished_of_stepped hs, ?_, fun t ht => ?_⟩
        · rw [← List.append_assoc, ← hlog]
          rfl
        · rw [frames_append, hframes]
          exact List.forall_mem_nil _
        · rcases List.mem_append.mp ht with ht | ht
          · exact absurd ht (hno t)
          · cases List.mem_singleton.mp ht

/-- **Every step keeps the invariant of the wire.** A new transmission is by the owner of the
mutex, and the others that have sent something are done. -/
theorem Loadcells.WireInv.step (h : m.WireInv) {more : List LoadcellEvent}
    (hlog : LogStep m m' more) (hframe' : m'.FrameInv)
    (hr' : IoBoard.Reachable cfg.serial m'.serial) : m'.WireInv := by
  intro before t after hsplit t' ht' hne
  rw [hlog.log] at hsplit
  rcases split_append hsplit with ⟨pre, rfl, hmore⟩ | ⟨rest, hm, rfl⟩
  · -- the transmission is this step's, and all others are without the mutex
    obtain ⟨heq, hmutex⟩ := hlog.sent t (by rw [hmore]; simp)
    have hnone : pre = [] ∧ after = [] := by
      rw [hmore] at heq
      cases pre with
      | nil => exact ⟨rfl, (List.cons.inj heq).2⟩
      | cons x pre => simpa using congrArg List.length heq
    obtain ⟨rfl, rfl⟩ := hnone
    refine ⟨fun hun => ?_, List.forall_mem_nil _⟩
    have hmem : t' ∈ m'.serial.transmissions := by
      rw [← transmissions_eq hframe', hlog.log, transmissions_append]
      exact List.mem_append_left _ (by simpa using ht')
    have hfree : m'.serial.mutex ≠ some t'.call := fun hown =>
      hne (Option.some.inj (hown.symm.trans hmutex))
    exact call_ne_of_unfinished hr' hfree hun t' hmem rfl
  · obtain ⟨hdone, hframes⟩ := h before t rest hm t' ht' hne
    refine ⟨mt (hlog.calls _) hdone, fun f hf => ?_⟩
    rw [frames_append] at hf
    rcases List.mem_append.mp hf with hf | hf
    · exact hframes f hf
    · rintro heq
      exact hdone (heq ▸ hlog.frames f hf)

theorem wireInv_of_reachable (h : Loadcells.Reachable cfg m) : m.WireInv := by
  refine h.induct (P := Loadcells.WireInv) ?_ fun n act n' hrun ih _ hstep => ?_
  · intro before t after hlog
    exact absurd hlog.symm (by simp [Loadcells.configured])
  · have hrun' : Loadcells.Reachable cfg n' := hrun.tail trivial hstep
    obtain ⟨more, hlog⟩ := exists_logStep (owned_of_reachable (serial_of_reachable hrun))
      (loadcellStepped_of_step hstep)
    exact ih.step hlog (inv_of_reachable hrun').frame (serial_of_reachable hrun')

/-! ### What stays of older readings -/

/-- The call `k` of `calibrate` has failed, and the log has its transmission `t` of MCLZ. -/
structure FailedCalibration (m : Loadcells) (k : CallId) (before : List LoadcellEvent) (t : Tx)
    (after : List LoadcellEvent) : Prop where
  failed : ∃ e, m.tasks k = some (.calibrate (.failed e))
  log : m.log = before ++ .serial (.tx t) :: after
  call : t.call = k
  message : responseCodes t.message = calibrateCommand.label

/-- The readings come from a frame whose request was sent after the transmission `t`; they are
what a fresh sanitizer makes of the frames since then, or since the last reset after it. `log`
is the log when the readings are returned. -/
def AfterTransmission (cfg : Settings) (log before : List LoadcellEvent) (t : Tx)
    (values : List Str) : Prop :=
  ∃ after seen f, log = before ++ .serial (.tx t) :: after ∧
    frames (sinceReset after) = seen ++ [f] ∧ sanitized cfg seen f = .ok values ∧
    (∃ t' ∈ transmissions after, t'.call = f.call ∧
      responseCodes t'.message = loadcellWeights.label) ∧
    ∀ t' ∈ transmissions before, t'.call ≠ f.call

/-- Nothing stale is left: the processing has been reset after the transmission, or no frame had
come since the last reset before it, or there is no sanitizer and the cache does not answer with
an older frame. -/
def NothingStale (cfg : Settings) (m : Loadcells) (before after : List LoadcellEvent) : Prop :=
  (∃ x ∈ after, x.isReset = true) ∨ frames (sinceReset before) = [] ∨
    cfg.sanitize.enabled = false ∧ (m.served cfg = none ∨ frames after ≠ [])

/-- A reset in the later part decides about the session. -/
theorem sinceReset_append_of_reset {log more : List LoadcellEvent}
    (h : ∃ x ∈ more, x.isReset = true) : sinceReset (log ++ more) = sinceReset more := by
  obtain ⟨x, hx, hreset⟩ := h
  obtain ⟨front, back, rfl⟩ := List.append_of_mem hx
  rw [← List.append_assoc, sinceReset, current_append_mark hreset, sinceReset,
    current_append_mark hreset]

/-- The frames of the session are the last ones of all frames. -/
theorem frames_sinceReset_suffix {log : List LoadcellEvent} :
    frames (sinceReset log) <:+ frames log := by
  have hsuffix := congrArg frames (earlier_append_current LoadcellEvent.isReset log)
  rw [frames_append] at hsuffix
  exact ⟨_, hsuffix⟩

/-- Without a sanitizer the readings of a frame are returned as they are. -/
theorem sanitized_of_disabled (h : cfg.sanitize.enabled = false) (seen : List DeviceFrame)
    (f : DeviceFrame) : sanitized cfg seen f = .ok f.frame.values := by
  have hnone : configureSanitizer cfg.sanitize = none := by
    rw [configureSanitizer, h]
    rfl
  rw [sanitized, sanitizerAfter, hnone]
  rfl

/-- The last frame of a log with nothing stale is the last one since the transmission, as a fresh
sanitizer sees it. -/
theorem exists_sanitized {before after : List LoadcellEvent} {x : LoadcellEvent}
    (hx : x.isReset = false ∧ frames [x] = [])
    {old : List DeviceFrame} {f : DeviceFrame} {values : List Str}
    (hframes : frames (sinceReset (before ++ x :: after)) = old ++ [f])
    (hvalues : sanitized cfg old f = .ok values)
    (h : (∃ x ∈ after, x.isReset = true) ∨ frames (sinceReset before) = [] ∨
      cfg.sanitize.enabled = false ∧ frames after ≠ []) :
    ∃ seen, frames (sinceReset after) = seen ++ [f] ∧ sanitized cfg seen f = .ok values := by
  by_cases hreset : ∃ x ∈ after, x.isReset = true
  · have hsince : sinceReset (before ++ x :: after) = sinceReset after := by
      rw [List.append_cons, sinceReset_append_of_reset hreset]
    exact ⟨old, by rw [← hsince, hframes], hvalues⟩
  · have hmarks : ∀ y ∈ after, y.isReset = false := by simpa using hreset
    have hsince : sinceReset (before ++ x :: after) = sinceReset before ++ x :: after := by
      refine current_append fun y hy => ?_
      rcases List.mem_cons.mp hy with rfl | hy
      · exact hx.1
      · exact hmarks y hy
    have hall : sinceReset ([] ++ after) = sinceReset [] ++ after := current_append hmarks
    have hnil : sinceReset [] = [] := rfl
    rw [hnil, List.nil_append] at hall
    rw [hsince, List.append_cons, frames_append, frames_append, hx.2, List.append_nil] at hframes
    rw [hall]
    rcases h with h | hnone | ⟨hoff, hsome⟩
    · exact absurd h hreset
    · rw [hnone, List.nil_append] at hframes
      exact ⟨old, hframes, hvalues⟩
    · obtain ⟨seen, g, hseen⟩ := (frames after).eq_nil_or_concat.resolve_left hsome
      rw [List.concat_eq_append] at hseen
      rw [hseen, ← List.append_assoc] at hframes
      obtain ⟨-, heq⟩ := List.append_inj' hframes rfl
      obtain rfl : g = f := by simpa using heq
      rw [sanitized_of_disabled hoff] at hvalues
      exact ⟨seen, hseen, by rw [sanitized_of_disabled hoff, hvalues]⟩

/-- The last frame after the transmission was requested after it. -/
theorem afterTransmission_of_latest (h : Loadcells.Reachable cfg m)
    {before after : List LoadcellEvent} {t : Tx} {time : ℚ} {values : List Str}
    (hlog : m.log = before ++ .serial (.tx t) :: after)
    (hmessage : responseCodes t.message = calibrateCommand.label)
    (hlatest : Latest cfg m.log values time)
    (hstale : (∃ x ∈ after, x.isReset = true) ∨ frames (sinceReset before) = [] ∨
      cfg.sanitize.enabled = false ∧ frames after ≠ []) :
    AfterTransmission cfg m.log before t values := by
  obtain ⟨old, f, hframes, hvalues, -⟩ := hlatest
  have hlogInv := logInv_of_reachable (serial_of_reachable h)
  obtain ⟨-, t', ht', hcall, hlabel⟩ :=
    (sessionInv_of_reachable h).sent f (by rw [hframes]; simp)
  rw [hlog] at hframes
  obtain ⟨seen, hseen, hsanitized⟩ := exists_sanitized ⟨rfl, rfl⟩ hframes hvalues hstale
  have hmem : f ∈ frames after := frames_sinceReset_suffix.subset (by rw [hseen]; simp)
  -- the messages tell the call of the frame from that of the transmission
  have hall : ∀ u ∈ transmissions m.log, ∃ c, m.serial.calls u.call = some c ∧
      u.message = c.args.message := by
    intro u hu
    rw [transmissions_eq (inv_of_reachable h).frame] at hu
    obtain ⟨c, hc, hmsg, -⟩ := hlogInv.args u hu
    exact ⟨c, hc, hmsg⟩
  have htmem : t ∈ transmissions m.log := by
    rw [hlog, transmissions_append]
    exact List.mem_append_right _ (List.mem_cons_self ..)
  have hlast : t' ∈ transmissions m.log := by
    rw [← earlier_append_current LoadcellEvent.isReset m.log, transmissions_append]
    exact List.mem_append_right _ ht'
  have hne : f.call ≠ t.call := by
    intro heq
    obtain ⟨c, hc, hmsg⟩ := hall t htmem
    obtain ⟨d, hd, hmsg'⟩ := hall t' hlast
    rw [hcall, heq] at hd
    obtain rfl := Option.some.inj (hc.symm.trans hd)
    rw [hmsg', ← hmsg, hmessage] at hlabel
    exact absurd (Command.label_injective hlabel) (by decide)
  have hnot : ∀ u ∈ transmissions before, u.call ≠ f.call := by
    rintro u hu heq
    exact ((wireInv_of_reachable h) before t after hlog u hu (heq ▸ hne)).2 f hmem heq.symm
  refine ⟨after, seen, f, hlog, hseen, hsanitized, ⟨t', ?_, hcall, hlabel⟩, hnot⟩
  rw [hlog, transmissions_append] at hlast
  rcases List.mem_append.mp hlast with hold | hnew
  · exact absurd hcall (hnot t' hold)
  · rcases List.mem_cons.mp hnew with rfl | hnew
    · exact absurd hcall.symm hne
    · exact hnew

/-- A cache that does not answer goes on not to, until a frame comes: time only makes it older,
and a reset empties it. -/
theorem served_of_loadcellStepped (hs : Loadcells.Stepped cfg m act m')
    (hnone : m.served cfg = none) :
    m'.served cfg = none ∨ ∃ f, frames m'.log = frames m.log ++ [f] := by
  have stays {m' : Loadcells} (hcache : m'.cache = m.cache) (hts : m'.cacheTs = m.cacheTs)
      (hclock : m.serial.clock ≤ m'.serial.clock) : m'.served cfg = none := by
    cases hserved : m'.served cfg with
    | none => rfl
    | some values => cases hnone.symm.trans (served_mono hcache hts hclock hserved)
  have called {j : CallId} {c : Command} {s : State} (hs : Calls cfg m.serial j c s) :
      m.serial.clock ≤ s.clock := by
    obtain ⟨data, args, -, -, rfl⟩ := hs
    exact le_rfl
  cases hs with
  | started | served | gaveUp => exact .inl (stays rfl rfl le_rfl)
  | asked _ _ _ hs => exact .inl (stays rfl rfl (called hs))
  | calibrating _ hs => exact .inl (stays rfl rfl (called hs))
  | commanded _ _ _ hs => exact .inl (stays rfl rfl (called hs))
  | wentOn hs => exact .inl (stays rfl rfl (clock_le_of_stepped hs))
  | @got _ sact s id fetched ts hs =>
      cases hvalues : deviceValues fetched with
      | error e =>
          rw [finishGet_of_error hvalues]
          exact .inl (stays rfl rfl (clock_le_of_stepped hs))
      | ok values =>
          refine .inr ⟨(m.withSerial s).received id values ts, ?_⟩
          rw [finishGet_log, deviceFrame_of_ok ts hvalues, frames_append,
            (frames_withSerial hs).2.2]
          rfl
  | @calibrated _ sact s id fetched hs =>
      rcases finishCalibrate_cases (m.withSerial s) id fetched with ⟨e, heq⟩ | ⟨-, heq⟩
      · rw [heq]
        exact .inl (stays rfl rfl (clock_le_of_stepped hs))
      · rw [heq]
        exact .inl rfl

/-- What was not stale does not become so, whatever entries the log gets. -/
theorem NothingStale.step {before after more : List LoadcellEvent}
    (h : NothingStale cfg m before after) (hs : Loadcells.Stepped cfg m act m')
    (hlog : m'.log = m.log ++ more) : NothingStale cfg m' before (after ++ more) := by
  rcases h with ⟨x, hx, hreset⟩ | hnone | ⟨hoff, hserved | hframes⟩
  · exact .inl ⟨x, List.mem_append_left _ hx, hreset⟩
  · exact .inr (.inl hnone)
  · rcases served_of_loadcellStepped hs hserved with hserved' | ⟨f, hf⟩
    · exact .inr (.inr ⟨hoff, .inl hserved'⟩)
    · rw [hlog, frames_append] at hf
      rw [NothingStale, frames_append, List.append_cancel_left hf]
      exact .inr (.inr ⟨hoff, .inr (by simp)⟩)
  · refine .inr (.inr ⟨hoff, .inr ?_⟩)
    rw [frames_append]
    exact List.append_ne_nil_of_left_ne_nil hframes _

/-- **Without anything stale, a failed calibration is as good as none.** A `get_loadcells` call
`g` that starts after the calibration `k` has failed returns readings from a frame requested after
the MCLZ transmission, as a sanitizer sees it that has seen no frame from before. -/
theorem failedCalibration_fresh {s u : Loadcells} {k g : CallId}
    {before after : List LoadcellEvent} {t : Tx} {values : List Str}
    (h : Loadcells.Reachable cfg s) (hk : FailedCalibration s k before t after)
    (hstale : NothingStale cfg s before after) (hg : s.tasks g = none)
    (hrun : Reaches (Loadcells.step cfg) Any s u)
    (hv : u.tasks g = some (.get (.returned values))) :
    ∃ log, s.log <+: log ∧ log <+: u.log ∧ AfterTransmission cfg log before t values := by
  have hinv : (∃ more, u.log = before ++ .serial (.tx t) :: (after ++ more) ∧
      NothingStale cfg u before (after ++ more)) ∧ (u.tasks g = some (.get (.returned values)) →
        ∃ log, s.log <+: log ∧ log <+: u.log ∧ AfterTransmission cfg log before t values) := by
    refine hrun.induct (P := fun u => (∃ more,
      u.log = before ++ .serial (.tx t) :: (after ++ more) ∧
        NothingStale cfg u before (after ++ more)) ∧
      (u.tasks g = some (.get (.returned values)) →
        ∃ log, s.log <+: log ∧ log <+: u.log ∧ AfterTransmission cfg log before t values))
      ⟨⟨[], by rw [hk.log, List.append_nil], by rwa [List.append_nil]⟩,
        fun hv => by cases hg.symm.trans hv⟩ ?_
    rintro m act m' hrun ⟨⟨more, hlog, hnothing⟩, ih⟩ - hstep
    have hm : Loadcells.Reachable cfg m := h.trans hrun
    have hm' : Loadcells.Reachable cfg m' := hm.tail trivial hstep
    have hs := loadcellStepped_of_step hstep
    obtain ⟨new, hnew⟩ := exists_logStep (owned_of_reachable (serial_of_reachable hm)) hs
    have hlog' : m'.log = before ++ .serial (.tx t) :: (after ++ (more ++ new)) := by
      rw [hnew.log, hlog]
      simp
    have hnothing' := hnothing.step hs hnew.log
    rw [List.append_assoc] at hnothing'
    refine ⟨⟨more ++ new, hlog', hnothing'⟩, fun hv => ?_⟩
    rcases latest_of_returned (inv_of_reachable hm) hs hv with hold | ⟨⟨time, hlatest⟩, hnewer⟩
    · obtain ⟨log, hbefore, hafter, hfresh⟩ := ih hold
      exact ⟨log, hbefore, hafter.trans (log_of_loadcellStepped hs), hfresh⟩
    · refine ⟨m'.log, ?_, List.prefix_refl _,
        afterTransmission_of_latest hm' hlog' hk.message hlatest ?_⟩
      · rw [hlog', hk.log]
        exact ⟨more ++ new, by simp⟩
      · rcases hnothing with ⟨x, hx, hreset⟩ | hnone | ⟨hoff, hcache⟩
        · exact .inl ⟨x, by rw [← List.append_assoc]; exact List.mem_append_left _ hx, hreset⟩
        · exact .inr (.inl hnone)
        · refine .inr (.inr ⟨hoff, ?_⟩)
          rw [← List.append_assoc, frames_append]
          rcases hnewer with hserved | ⟨f, hf⟩
          · have hframes := hcache.resolve_left (by rw [hserved]; simp)
            exact List.append_ne_nil_of_left_ne_nil hframes _
          · rw [hnew.log, frames_append] at hf
            rw [List.append_cancel_left hf]
            simp
  exact hinv.2 hv

/-! ### A calibration whose answers are lost -/

/-- An answer to MCLZ with a wrong checksum: the last byte should be 27. -/
def corruptFrame : Bytes :=
  [2, 77, 67, 76, 90, 3, 28]

/-- An attempt of the call `id` that receives the corrupt answer, from its drain on. -/
def corruptAttempt (id : CallId) : List LoadcellAction :=
  [.tick (1 / 20), .resume id .timedOut 0, .resume id .ready 0, .receive 0 corruptFrame,
    .resume id .ready 0, .resume id .ready 0, .resume id .ready 0]

/-- The attempt after a sleep of `delay`. -/
def nextCorruptAttempt (id : CallId) (delay : ℚ) : List LoadcellAction :=
  .tick delay :: .resume id .ready 0 :: .resume id .ready 0 :: .resume id .ready 0 ::
    corruptAttempt id

/-- All attempts of a calibration receive the corrupt answer, and it fails. -/
def corruptAttempts (id : CallId) : List LoadcellAction :=
  corruptAttempt id ++ nextCorruptAttempt id (1 / 10) ++ nextCorruptAttempt id (1 / 5) ++
    [.connectionLost 0 none, .resume id .ready 0]

/-- A calibration that fails before any reading. -/
def failedRun : List LoadcellAction :=
  [.calibrate 0, .resume 0 .ready 0, .resume 0 .ready 0, .resume 0 .ready 0, .resume 0 .ready 0,
    .resume 0 .ready 0] ++ corruptAttempts 0

/-- A reading, and a calibration that fails right after it. Its three attempts take less than
the minimum gap, as the answers come at once. -/
def staleRun : List LoadcellAction :=
  [.getLoadcells 0, .acquire 0, .resume 0 .ready 0, .resume 0 .ready 0, .resume 0 .ready 0,
    .resume 0 .ready 0, .resume 0 .ready 0, .tick (1 / 20), .resume 0 .timedOut 0,
    .resume 0 .ready 0, .receive 0 rqiwFrame, .resume 0 .ready 0, .resume 0 .ready 0,
    .resume 0 .ready 0, .calibrate 1, .resume 1 .ready 0, .resume 1 .ready 0,
    .resume 1 .ready 0, .tick (1 / 10), .resume 1 .ready 0, .resume 1 .ready 0] ++
    corruptAttempts 1

theorem failedRun_isSome :
    (runFrom (Loadcells.step {}) (Loadcells.configured {}) failedRun).isSome := by
  decide +kernel

theorem staleRun_isSome :
    (runFrom (Loadcells.step {}) (Loadcells.configured {}) staleRun).isSome := by
  decide +kernel

/-- The state after the failed calibration, with a reading right before it. -/
def staleState : Loadcells :=
  (runFrom (Loadcells.step {}) (Loadcells.configured {}) staleRun).get staleRun_isSome

/-- The state after the failed calibration, without a reading. -/
def failedState : Loadcells :=
  (runFrom (Loadcells.step {}) (Loadcells.configured {}) failedRun).get failedRun_isSome

/-- The transmission that is the entry `n` of a log. -/
def sentAt (log : List LoadcellEvent) (n : ℕ) : Option Tx :=
  match log[n]? with
  | some (.serial (.tx t)) => some t
  | _ => none

theorem log_of_sentAt {log : List LoadcellEvent} {n : ℕ} {t : Tx} (h : sentAt log n = some t) :
    log = log.take n ++ .serial (.tx t) :: log.drop (n + 1) := by
  rw [sentAt] at h
  split at h
  · rename_i heq
    cases h
    obtain ⟨hlt, hget⟩ := List.getElem?_eq_some_iff.mp heq
    rw [← hget, List.getElem_cons_drop, List.take_append_drop]
  · cases h

/-- A calibration that has failed, with its transmission as the entry `n` of the log. -/
theorem exists_failedCalibration {m : Loadcells} {k : CallId} {n : ℕ}
    (htask : (m.tasks k).all (fun task => task matches .calibrate (.failed _)) &&
      (m.tasks k).isSome = true)
    (hsent : (sentAt m.log n).map (fun t => (t.call, responseCodes t.message)) =
      some (k, calibrateCommand.label)) :
    ∃ t, FailedCalibration m k (m.log.take n) t (m.log.drop (n + 1)) := by
  obtain ⟨t, ht, heq⟩ := Option.map_eq_some_iff.mp hsent
  obtain ⟨hcall, hmessage⟩ := Prod.mk.inj heq
  refine ⟨t, ?_, log_of_sentAt ht, hcall, hmessage⟩
  cases htasks : m.tasks k with
  | none => simp [htasks] at htask
  | some task =>
      cases task with
      | get stage => simp [htasks] at htask
      | calibrate stage =>
          cases stage with
          | failed e => exact ⟨e, rfl⟩
          | fetching | returned => simp [htasks] at htask

/-- A call after the failed calibration, on a new connection. -/
def retriedRequestRun : List LoadcellAction :=
  [.getLoadcells 1, .acquire 1, .resume 1 .ready 0, .resume 1 .ready 0, .resume 1 .ready 0,
    .resume 1 .ready 0, .tick (1 / 10), .resume 1 .ready 0, .resume 1 .ready 0, .tick (1 / 20),
    .resume 1 .timedOut 0, .resume 1 .ready 0, .receive 1 rqiwFrame, .resume 1 .ready 0,
    .resume 1 .ready 0, .resume 1 .ready 0]

theorem retriedRequestRun_isSome :
    (runFrom (Loadcells.step {}) failedState retriedRequestRun).isSome := by
  decide +kernel

/-- The call after the failed calibration gets a frame requested after it. -/
theorem failedCalibration_fresh_retriedRequestRun : ∃ u t log, Loadcells.Reachable {} u ∧
    log <+: u.log ∧ AfterTransmission {} log (failedState.log.take 1) t
      (List.replicate 10 ['+', '0', '0', '1', '0', '0']) := by
  have hs : Loadcells.Reachable {} failedState := reaches_get failedRun_isSome
  have hrun := reaches_get retriedRequestRun_isSome
  obtain ⟨t, ht⟩ := exists_failedCalibration (m := failedState) (k := 0) (n := 1)
    (by decide +kernel) (by decide +kernel)
  have hnone : (frames (sinceReset (failedState.log.take 1))).length = 0 := by decide +kernel
  obtain ⟨log, -, hlog, hfresh⟩ := failedCalibration_fresh hs ht
    (.inr (.inl (List.length_eq_zero_iff.mp hnone)))
    (by decide +kernel : failedState.tasks 1 = none) hrun
    (by decide +kernel : _ = some (LoadcellTask.get (.returned
      (List.replicate 10 ['+', '0', '0', '1', '0', '0']))))
  exact ⟨_, t, log, hs.trans hrun, hlog, hfresh⟩

/-- A failed calibration leaves nothing behind that a later call could return: whatever a call
that starts after the failure returns was requested after the MCLZ transmission, and sanitized
afresh. -/
def FailedCalibrationsForget : Prop :=
  ∀ (cfg : Settings) (s u : Loadcells) (k g : CallId) (before after : List LoadcellEvent) (t : Tx)
    (values : List Str), Loadcells.Reachable cfg s → FailedCalibration s k before t after →
      s.tasks g = none → Reaches (Loadcells.step cfg) Any s u →
      u.tasks g = some (.get (.returned values)) →
        ∃ log, s.log <+: log ∧ log <+: u.log ∧ AfterTransmission cfg log before t values

/-- A call right after the failed calibration, within the minimum gap of the reading. -/
def cachedRequestRun : List LoadcellAction :=
  [.getLoadcells 2, .acquire 2]

theorem cachedRequestRun_isSome :
    (runFrom (Loadcells.step {}) staleState cachedRequestRun).isSome := by
  decide +kernel

/-- With the default settings the three attempts of a calibration can fail before the reading
from before them has left the cache. -/
theorem not_failedCalibrationsForget : ¬ FailedCalibrationsForget := by
  intro h
  have hs : Loadcells.Reachable {} staleState := reaches_get staleRun_isSome
  have hrun := reaches_get cachedRequestRun_isSome
  obtain ⟨t, ht⟩ := exists_failedCalibration (m := staleState) (k := 1) (n := 5)
    (by decide +kernel) (by decide +kernel)
  obtain ⟨log, -, hlog, after, seen, f, heq, hframes, -⟩ := h {} staleState _ 1 2 _ _ t
    (List.replicate 10 ['+', '0', '0', '1', '0', '0']) hs ht (by decide +kernel) hrun
    (by decide +kernel)
  -- no frame follows the transmission
  have hnone : (frames (((runFrom (Loadcells.step {}) staleState cachedRequestRun).get
      cachedRequestRun_isSome).log.drop 6)).length = 0 := by
    decide +kernel
  have hlen : (staleState.log.take 5).length = 5 := by decide +kernel
  obtain ⟨rest, hrest⟩ := hlog
  have hdrop : (log ++ rest).drop 6 = after ++ rest := by
    rw [heq, List.append_assoc, List.cons_append, List.drop_append, hlen,
      List.drop_eq_nil_of_le (by rw [hlen]; norm_num)]
    rfl
  rw [hrest] at hdrop
  rw [hdrop, frames_append, List.length_append, Nat.add_eq_zero_iff] at hnone
  have hmem : f ∈ frames after := frames_sinceReset_suffix.subset (by rw [hframes]; simp)
  rw [List.length_eq_zero_iff.mp hnone.1] at hmem
  cases hmem

end IoBoard
