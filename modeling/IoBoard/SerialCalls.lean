import IoBoard.FetchErrors
import IoBoard.Line

/-!
# Calls of the Serial Layer

What a step of the serial layer does to the `fetch` calls, for the code that waits for them.
A command above sees of its `fetch` call only whether it is in progress, and what it has
returned or raised once it is not. This module says how these change, so that the layers above
need not look at the stages of a call.

A call ends in at most one step (`Ends`), and its result stays. A step names at most one call,
the one that it starts, resumes or cancels; no other call moves in it, and only that one can
end. What the environment does (time passes, bytes arrive, a transport is lost) moves none.
From this the calls in progress after a step are known exactly: those of before without the one
that has ended, or with the one that has started.

## New calls

`Calls` is the step in which a command of the upper layer becomes a `fetch` call: the number of
the call is unused, the arguments are those that `_send_command` computes from the command and
its data, and the call waits for the mutex.

## Main results

* `calls_cases`: a step leaves a call as it is, starts it, or moves it on.
* `ends_of_stepped`: a call that is finished was finished before, or ends in this step.
* `named_of_stepped`: **resuming or cancelling a call moves no other**.
* `pending_of_stepped`, `pending_of_calls`: the calls in progress after a step.
* `log_of_ends_ok`: the frame that a call returns was received in the step that ends it.
-/

open Runs

namespace IoBoard

variable {cfg : SerialModel} {s s' : State} {id : CallId} {act : Action}

/-- The call ends in the step from `s` to `s'`: it was in progress, and now it is finished with
this result. -/
def Ends (s s' : State) (id : CallId) (fetched : Except PyExc Bytes) : Prop :=
  ∃ c, s.calls id = some c ∧ c.stage.result = none ∧
    s'.calls id = some ⟨c.args, .finished fetched⟩

theorem result_eq_none_of_critical {stage : Stage} (h : stage.isCritical) :
    stage.result = none := by
  cases stage with
  | finished => exact h.elim
  | _ => rfl

theorem finished_of_result {stage : Stage} {fetched : Except PyExc Bytes}
    (h : stage.result = some fetched) : stage = .finished fetched := by
  cases stage with
  | finished => exact congrArg Stage.finished (Option.some.inj h)
  | _ => cases h

/-- Only a call that is not finished is resumed. -/
theorem Resumed.result_eq_none {c : Call} {stage stage' : Stage}
    (h : Resumed cfg s id c stage stage' s') : stage.result = none := by
  obtain ⟨rfl, -⟩ | ⟨hcrit, -⟩ | ⟨hcrit, -⟩ := h.mutex_cases
  · rfl
  · exact result_eq_none_of_critical hcrit
  · exact result_eq_none_of_critical hcrit

/-- A step leaves a call as it is, starts it, or moves it on while it is not finished. -/
theorem calls_cases (h : Stepped cfg s act s') (id : CallId) : s'.calls id = s.calls id ∨
    (∃ args, act = .call id args ∧ s.calls id = none ∧
      s'.calls id = some ⟨args, .acquiring⟩) ∨
    ∃ c stage', s.calls id = some c ∧ c.stage.result = none ∧
      s'.calls id = some ⟨c.args, stage'⟩ := by
  have moved {j : CallId} {c : Call} {stage' : Stage} (hc : s.calls j = some c)
      (hnone : c.stage.result = none)
      (hcalls : s'.calls = Function.update s.calls j (some ⟨c.args, stage'⟩)) :
      s'.calls id = s.calls id ∨ ∃ c stage', s.calls id = some c ∧ c.stage.result = none ∧
        s'.calls id = some ⟨c.args, stage'⟩ := by
    rw [hcalls]
    by_cases hj : id = j
    · subst hj
      exact .inr ⟨c, stage', hc, hnone, Function.update_self ..⟩
    · exact .inl (Function.update_of_ne hj ..)
  cases h with
  | @called j args hnew =>
      by_cases hj : id = j
      · subst hj
        exact .inr (.inl ⟨args, rfl, hnew, Function.update_self ..⟩)
      · exact .inl (Function.update_of_ne hj ..)
  | resumed hc hr => exact (moved hc hr.result_eq_none hr.calls_eq).imp_right .inr
  | cancelledWaiting hc hstage => exact (moved hc (by rw [hstage]; rfl) rfl).imp_right .inr
  | cancelled hc hcrit =>
      exact (moved hc (result_eq_none_of_critical hcrit) rfl).imp_right .inr
  | ticked | received | closing | lost => exact .inl rfl

/-- A call that is finished after a step was finished before, or ends in it. -/
theorem ends_of_stepped (h : Stepped cfg s act s') {c' : Call} {fetched : Except PyExc Bytes}
    (hc' : s'.calls id = some c') (hresult : c'.stage.result = some fetched) :
    s.calls id = some c' ∨ Ends s s' id fetched := by
  rcases calls_cases h id with heq | ⟨args, -, -, heq⟩ | ⟨c, stage', hc, hnone, heq⟩
  · exact .inl (heq ▸ hc')
  · obtain rfl := Option.some.inj (hc'.symm.trans heq)
    cases hresult
  · obtain rfl := Option.some.inj (hc'.symm.trans heq)
    obtain rfl : stage' = .finished fetched := finished_of_result hresult
    exact .inr ⟨c, hc, hnone, heq⟩

/-- The call that a step resumes or cancels is not finished before the step. -/
theorem exists_unfinished {w : Wakeup} (h : Stepped cfg s act s')
    (hact : act = .resume id w ∨ act = .cancel id) :
    ∃ c, s.calls id = some c ∧ c.stage.result = none := by
  cases h with
  | resumed hc hr =>
      obtain hact | hact := hact <;> cases hact
      exact ⟨_, hc, hr.result_eq_none⟩
  | cancelledWaiting hc hstage =>
      obtain hact | hact := hact <;> cases hact
      exact ⟨_, hc, by rw [hstage]; rfl⟩
  | cancelled hc hcrit =>
      obtain hact | hact := hact <;> cases hact
      exact ⟨_, hc, result_eq_none_of_critical hcrit⟩
  | called | ticked | received | closing | lost =>
      obtain hact | hact := hact <;> cases hact

/-- Only the call that a step names moves. -/
theorem calls_of_stepped (h : Stepped cfg s act s') (hcall : ∀ args, act ≠ .call id args)
    (hresume : ∀ w, act ≠ .resume id w) (hcancel : act ≠ .cancel id) :
    s'.calls id = s.calls id := by
  cases h with
  | @called j args =>
      refine Function.update_of_ne ?_ _ _
      rintro rfl
      exact hcall args rfl
  | @resumed j w _ _ _ _ hr =>
      rw [hr.calls_eq]
      refine Function.update_of_ne ?_ _ _
      rintro rfl
      exact hresume w rfl
  | @cancelledWaiting j | @cancelled j =>
      refine Function.update_of_ne ?_ _ _
      rintro rfl
      exact hcancel rfl
  | ticked | received | closing | lost => rfl

/-- The log of the serial layer only grows. -/
theorem Stepped.log_append (h : Stepped cfg s act s') : ∃ more, s'.log = s.log ++ more := by
  cases h with
  | resumed _ hr => exact hr.log_append
  | called | cancelledWaiting | cancelled | ticked | received | closing | lost =>
      exact ⟨[], (List.append_nil _).symm⟩

/-- Bytes that arrive and what the environment does move no call, even where a call waits for
them. -/
theorem calls_of_environment (h : Stepped cfg s act s')
    (hact : act.IsEnvironment ∨ ∃ n bs, act = .receive n bs) :
    (∀ j args, act ≠ .call j args) ∧ s'.calls = s.calls := by
  cases h with
  | ticked | received | closing | lost => exact ⟨by rintro _ _ ⟨⟩, rfl⟩
  | called | resumed | cancelledWaiting | cancelled =>
      obtain henv | ⟨_, _, hact⟩ := hact
      · exact henv.elim
      · cases hact

/-- A call that ends moves. -/
theorem Ends.calls_ne {fetched : Except PyExc Bytes} (h : Ends s s' id fetched) :
    s'.calls id ≠ s.calls id := by
  obtain ⟨c, hc, hnone, hc'⟩ := h
  intro heq
  rw [heq, hc] at hc'
  rw [congrArg Call.stage (Option.some.inj hc')] at hnone
  cases hnone

/-- Only the call that a step names ends in it. -/
theorem eq_of_ends (hothers : ∀ j, j ≠ id → s'.calls j = s.calls j) {j : CallId}
    {fetched : Except PyExc Bytes} (h : Ends s s' j fetched) : j = id := by
  by_contra hji
  exact h.calls_ne (hothers j hji)

/-- A call ends once, with one result. -/
theorem Ends.unique {r r' : Except PyExc Bytes} (h : Ends s s' id r)
    (h' : Ends s s' id r') : r = r' := by
  obtain ⟨_, _, _, hc⟩ := h
  obtain ⟨_, _, _, hc'⟩ := h'
  have heq := congrArg Call.stage (Option.some.inj (hc.symm.trans hc'))
  exact Stage.finished.inj heq

/-- The clock does not go back; only `tick` moves it. -/
theorem clock_le_of_stepped (h : Stepped cfg s act s') : s.clock ≤ s'.clock := by
  cases h with
  | resumed _ hr => exact hr.booked_cases.1.ge
  | ticked hd => exact le_add_of_nonneg_right hd
  | called | cancelledWaiting | cancelled | received | closing | lost => exact le_rfl

/-- The step that ends a call with a frame books its reception, as the last entry of the log. -/
theorem log_of_ends_ok (h : Stepped cfg s act s') {frame : Bytes}
    (hend : Ends s s' id (.ok frame)) :
    s'.log = s.log ++ [.rx id s.clock] ∧ s'.clock = s.clock := by
  have unmoved : s'.calls id ≠ s.calls id := hend.calls_ne
  obtain ⟨c, hc, hnone, hc'⟩ := hend
  cases h with
  | @called j args hnew =>
      refine (unmoved (Function.update_of_ne ?_ _ _)).elim
      rintro rfl
      cases hnew.symm.trans hc
  | @resumed j w d stage' _ hd hr =>
      by_cases hj : id = j
      · subst hj
        rw [hr.calls_eq, Function.update_self] at hc'
        obtain rfl : stage' = .finished (.ok frame) :=
          congrArg Call.stage (Option.some.inj hc')
        generalize d.stage = stage at hr
        cases hr with
        | accepted => exact ⟨rfl, rfl⟩
        | moved hm => cases hm
      · exact (unmoved (hr.calls_eq ▸ Function.update_of_ne hj ..)).elim
  | @cancelledWaiting j d hd | @cancelled j d hd =>
      by_cases hj : id = j
      · subst hj
        simp only [State.finish_calls, State.goto_calls, Function.update_self] at hc'
        cases congrArg Call.stage (Option.some.inj hc')
      · exact (unmoved (Function.update_of_ne hj ..)).elim
  | ticked | received | closing | lost => exact (unmoved rfl).elim

/-- A step that resumes or cancels a call moves no other call, and ends the call if it is
finished after it. -/
theorem named_of_stepped {w : Wakeup} (h : Stepped cfg s act s')
    (hact : act = .resume id w ∨ act = .cancel id) : (∀ j args, act ≠ .call j args) ∧
      (∀ j, j ≠ id → s'.calls j = s.calls j) ∧
      ∀ fetched, ((s'.calls id).bind fun c => c.stage.result) = some fetched →
        Ends s s' id fetched := by
  have hcall : ∀ j args, act ≠ .call j args := by
    rintro j args rfl
    obtain hact | hact := hact <;> cases hact
  refine ⟨hcall, fun j hj => ?_, fun fetched hresult => ?_⟩
  · refine calls_of_stepped h (hcall j) ?_ ?_
    · rintro w' rfl
      obtain hact | hact := hact <;> cases hact
      exact hj rfl
    · rintro rfl
      obtain hact | hact := hact <;> cases hact
      exact hj rfl
  · obtain ⟨c, hc, hnone⟩ := exists_unfinished h hact
    obtain ⟨c', hc', hresult⟩ := Option.bind_eq_some_iff.mp hresult
    rcases ends_of_stepped h hc' hresult with hold | hend
    · obtain rfl := Option.some.inj (hc.symm.trans hold)
      cases hnone.symm.trans hresult
    · exact hend

/-- The call is in progress, with these arguments, at whatever stage. -/
def State.Pending (s : State) (id : CallId) (args : FetchArgs) : Prop :=
  ∃ stage, s.calls id = some ⟨args, stage⟩ ∧ stage.result = none

/-- The calls in progress after a step are those of before that have not ended in it. -/
theorem pending_of_stepped (h : Stepped cfg s act s') (hcall : ∀ id args, act ≠ .call id args)
    {args : FetchArgs} :
    s'.Pending id args ↔ s.Pending id args ∧ ∀ fetched, ¬ Ends s s' id fetched := by
  refine ⟨?_, ?_⟩
  · rintro ⟨stage, hc, hnone⟩
    refine ⟨?_, ?_⟩
    · rcases calls_cases h id with heq | ⟨args', hact, -⟩ | ⟨c, stage', hc', hcnone, heq⟩
      · exact ⟨stage, heq ▸ hc, hnone⟩
      · exact absurd hact (hcall _ _)
      · cases hc.symm.trans heq
        exact ⟨c.stage, hc', hcnone⟩
    · rintro fetched ⟨c, -, -, hc'⟩
      cases hc.symm.trans hc'
      cases hnone
  · rintro ⟨⟨stage, hc, hnone⟩, hends⟩
    rcases calls_cases h id with heq | ⟨args', hact, -⟩ | ⟨c, stage', hc', -, heq⟩
    · exact ⟨stage, heq.trans hc, hnone⟩
    · exact absurd hact (hcall _ _)
    · obtain rfl := Option.some.inj (hc.symm.trans hc')
      refine ⟨stage', heq, ?_⟩
      cases hresult : stage'.result with
      | none => rfl
      | some fetched =>
          rw [finished_of_result hresult] at heq
          exact absurd ⟨_, hc, hnone, heq⟩ (hends fetched)

/-- What a call has returned or raised, when it has ended. -/
def State.result (s : State) (id : CallId) : Option (Except PyExc Bytes) :=
  (s.calls id).bind fun c => c.stage.result

/-- It stays so, whatever step follows. -/
theorem result_of_stepped (h : Stepped cfg s act s') {r : Except PyExc Bytes}
    (hr : s.result id = some r) : s'.result id = some r := by
  obtain ⟨c, hc, hresult⟩ := Option.bind_eq_some_iff.mp hr
  rw [State.result]
  rcases calls_cases h id with heq | ⟨args, -, hnone, -⟩ | ⟨d, stage', hd, hnone, -⟩
  · rw [heq, hc, Option.bind_some, hresult]
  · cases hnone.symm.trans hc
  · obtain rfl := Option.some.inj (hc.symm.trans hd)
    cases hnone.symm.trans hresult

theorem Ends.result_eq {r : Except PyExc Bytes} (h : Ends s s' id r) : s'.result id = some r := by
  obtain ⟨c, -, -, hc'⟩ := h
  rw [State.result, hc']
  rfl

/-- Only a call that has not ended sends its message, and it is not ended by that step. -/
theorem call_of_transmitted (h : Stepped cfg s act s') {more : List Event}
    (hlog : s'.log = s.log ++ more) {t : Tx} (ht : .tx t ∈ more) :
    ∃ c, s.calls t.call = some c ∧ c.stage.result = none ∧ t.message = c.args.message := by
  have quiet (heq : s'.log = s.log) : .tx t ∉ more := by
    rw [List.self_eq_append_right.mp (heq.symm.trans hlog)]
    exact List.not_mem_nil
  have single {e : Event} (heq : s'.log = s.log ++ [e]) : .tx t = e := by
    rw [List.append_cancel_left (hlog.symm.trans heq)] at ht
    exact List.mem_singleton.mp ht
  cases h with
  | resumed hc hr =>
      rcases hr.booked_cases.2 with ⟨-, -, heq | heq | heq⟩ | ⟨a, d, -, rfl⟩ | ⟨-, -, heq⟩
      · exact absurd ht (quiet heq)
      · cases single heq
      · cases single heq
      · cases single rfl
        exact ⟨_, hc, hr.result_eq_none, rfl⟩
      · cases single heq
  | called | cancelledWaiting | cancelled | ticked | received | closing | lost =>
      exact absurd ht (quiet rfl)

/-! ### New calls -/

/-- A command that is sent becomes a new call of `fetch`, which waits for the mutex. Nothing
else changes. -/
def Calls (cfg : Settings) (s : State) (id : CallId) (c : Command) (s' : State) : Prop :=
  ∃ data args, s.calls id = none ∧
    sendCommand cfg.polling.loadcellsMinRequestGap c data = .ok args ∧
    s' = s.goto id ⟨args, .acquiring⟩ .acquiring

/-- A step that enters `fetch` with a command. -/
theorem calls_of_step {cfg : Settings} {c : Command} {data : RequestDict} {args : FetchArgs}
    (hargs : sendCommand cfg.polling.loadcellsMinRequestGap c data = .ok args)
    (h : step cfg.serial s (.call id args) = some s') : Calls cfg s id c s' := by
  cases stepped_of_step h with
  | called hnew => exact ⟨data, args, hnew, hargs, rfl⟩

/-- After a new call the calls in progress are those of before, and the new one. -/
theorem pending_of_calls {cfg : Settings} {c : Command} {j : CallId} {args : FetchArgs}
    (h : Calls cfg s id c s') : s'.Pending j args →
      j = id ∧ responseCodes args.message = c.label ∨ j ≠ id ∧ s.Pending j args := by
  obtain ⟨data, args', -, hargs, rfl⟩ := h
  rintro ⟨stage, hc, hnone⟩
  rw [State.goto_calls] at hc
  rcases update_eq_some.mp hc with ⟨rfl, heq⟩ | ⟨hj, hc⟩
  · cases heq
    exact .inl ⟨rfl, label_of_sendCommand hargs⟩
  · exact .inr ⟨hj, stage, hc, hnone⟩

/-- A call in progress is not the new one, and goes on. -/
theorem Calls.pending {cfg : Settings} {c : Command} {j : CallId} {args : FetchArgs}
    (h : Calls cfg s id c s') (hj : s.Pending j args) : j ≠ id ∧ s'.Pending j args := by
  obtain ⟨data, args', hnew, -, rfl⟩ := h
  obtain ⟨stage, hc, hnone⟩ := hj
  have hne : j ≠ id := by
    rintro rfl
    cases hnew.symm.trans hc
  exact ⟨hne, stage, (Function.update_of_ne hne ..).trans hc, hnone⟩

/-- The new call is in progress. -/
theorem Calls.pending_self {cfg : Settings} {c : Command} (h : Calls cfg s id c s') :
    ∃ args, s'.Pending id args ∧ responseCodes args.message = c.label := by
  obtain ⟨data, args, -, hargs, rfl⟩ := h
  exact ⟨args, ⟨.acquiring, Function.update_self .., rfl⟩, label_of_sendCommand hargs⟩

/-- A new call is a step of the serial layer. -/
theorem Calls.stepped {cfg : Settings} {c : Command} (h : Calls cfg s id c s') :
    ∃ args, Stepped cfg.serial s (.call id args) s' := by
  obtain ⟨data, args, hnew, -, rfl⟩ := h
  exact ⟨args, .called hnew⟩

end IoBoard
