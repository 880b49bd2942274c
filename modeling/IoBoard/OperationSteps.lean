import IoBoard.Operations
import IoBoard.SerialCalls

/-!
# Steps of the Deadbolt Operations

What one step of the deadbolt operations can do, said once: `Operations.Stepped` has one
constructor for each thing that can happen, with the state it leaves. The invariants of the
modules after this one are proved by cases on it.

There are two kinds of steps. Some concern a request outside `fetch`: it arrives, gets the
lock and sends MC/DC, wakes up and asks for the status, or is cancelled at the lock or in a
sleep. The others are those of the serial layer: they end no `fetch` that a request waits
for, or end one, and then the request goes on up to its next await. In the second case it
depends on the outcome where that is; `finishControl_cases` and `finishStatus_cases` list the
possibilities, so that no proof has to look into the routes again.

The states after a step are written with named updates (`controlling`, `verifying`, `leave`), whose
fields are simp lemmas by definition.

## Main results

* `operationStepped_of_step`: **every step is one of `Operations.Stepped`**.
* `finishControl_cases`, `finishStatus_cases`: how a request goes on when its `fetch` has ended.
-/

open Runs

namespace IoBoard

variable {cfg : Settings} {m m' : Operations}

/-- The `fetch` call that a request waits for, if it waits for one. -/
def PostStage.call : PostStage → Option CallId
  | .controlling call | .verifying call _ => some call
  | _ => none

/-- The request has the operation lock: it has got it, and has not ended. -/
def PostStage.isInside : PostStage → Prop
  | .controlling _ | .settling _ | .verifying _ _ | .pausing _ _ => True
  | _ => False

/-- The request sleeps, and waits for the sensor until `deadline` when it wakes up now. After
the settle sleep the deadline is a new one, after a pause it is the one the request has. -/
inductive Sleeps (m : Operations) : PostStage → ℚ → Prop
  | settling (wake : ℚ) :
      Sleeps m (.settling wake) (m.serial.clock + m.errorState.deadboltApplyTimeoutSeconds)
  | pausing (wake deadline : ℚ) : Sleeps m (.pausing wake deadline) deadline

/-- The request `p` has got the lock, has recorded its target and has called `set_deadbolt`. -/
def Operations.controlling (m : Operations) (p : PostId) (post : Post) (id : CallId) (now : ℚ)
    (s : State) : Operations :=
  ({ m with
      serial := s
      operationLock := some p
      callers := Function.update m.callers id (some p) }.record p post.action now).setPost p
    { post with control := some id } (.controlling id)

/-- The request `p` has called `get_status`. -/
def Operations.verifying (m : Operations) (p : PostId) (post : Post) (id : CallId) (deadline : ℚ)
    (s : State) : Operations :=
  ({ m with
      serial := s
      callers := Function.update m.callers id (some p) }.setPost p post
    (.verifying id deadline)).note p (.asked id m.serial.clock)

/-- One step of the deadbolt operations: a request arrives, gets the lock and sends MC/DC, asks
for the status, gives up at the lock or while it sleeps, another command is sent, the loop of
the error-state service takes an item, or the serial layer goes on and ends no `fetch` that a
request waits for, its MC/DC command or its `get_status`. -/
inductive Operations.Stepped (cfg : Settings) (m : Operations) : OperationAction → Operations → Prop
  | posted {p action} (hp : m.posts p = none) :
      Stepped cfg m (.post p action) (m.setPost p { action := action } .acquiring)
  | acquired {p post id now s} (hp : m.posts p = some post) (hstage : post.stage = .acquiring)
      (hlock : m.operationLock = none) (hs : Calls cfg m.serial id deadboltControl s) :
      Stepped cfg m (.acquire p id now) (m.controlling p post id now s)
  | asked {p post id deadline s} (hp : m.posts p = some post)
      (hsleeps : Sleeps m post.stage deadline) (hs : Calls cfg m.serial id ioStatus s) :
      Stepped cfg m (.wake p id) (m.verifying p post id deadline s)
  | gaveUp {p post} (hp : m.posts p = some post) (hstage : post.stage = .acquiring) :
      Stepped cfg m (.cancelPost p) (m.setPost p post (.failed .cancelledError))
  | left {p post} (hp : m.posts p = some post)
      (hsleeps : ∃ deadline, Sleeps m post.stage deadline) :
      Stepped cfg m (.cancelPost p) (m.leave p post (.failed .cancelledError))
  | commanded {id c data s} (hc : c ≠ deadboltControl) (hs : Calls cfg m.serial id c s) :
      Stepped cfg m (.command id c data) { m with serial := s }
  | consumed {item} : Stepped cfg m (.consume item) (m.consume item)
  | wentOn {act sact s} (hs : IoBoard.Stepped cfg.serial m.serial sact s)
      (hcall : ∀ id args, sact ≠ .call id args)
      (hend : ∀ id fetched p post, Ends m.serial s id fetched → m.caller id = some (p, post) →
        post.stage.call ≠ some id) : Stepped cfg m act (m.withSerial s)
  | controlled {act sact s id fetched p post} (hs : IoBoard.Stepped cfg.serial m.serial sact s)
      (hcall : ∀ id args, sact ≠ .call id args)
      (hothers : ∀ j, j ≠ id → s.calls j = m.serial.calls j)
      (hend : Ends m.serial s id fetched) (hcaller : m.caller id = some (p, post))
      (hstage : post.stage = .controlling id) :
      Stepped cfg m act ((m.withSerial s).finishControl p post fetched)
  | verified {act sact s id fetched p post deadline}
      (hs : IoBoard.Stepped cfg.serial m.serial sact s)
      (hcall : ∀ id args, sact ≠ .call id args)
      (hothers : ∀ j, j ≠ id → s.calls j = m.serial.calls j)
      (hend : Ends m.serial s id fetched) (hcaller : m.caller id = some (p, post))
      (hstage : post.stage = .verifying id deadline) :
      Stepped cfg m act ((m.withSerial s).finishStatus p post id deadline fetched)

variable {p : PostId} {post : Post} {id : CallId}

/-- A command that is sent is a new call, and changes nothing else. The arguments of the routes
are always valid. -/
theorem calls_of_operationSend {c : Command} {data : RequestDict}
    (h : m.send cfg id c data = some m') : ∃ s, Calls cfg m.serial id c s ∧
      m' = { m with serial := s } := by
  rw [Operations.send] at h
  split at h
  · cases h
  · next args hargs =>
      obtain ⟨s, hs, rfl⟩ := Option.map_eq_some_iff.mp h
      exact ⟨s, calls_of_step hargs hs, rfl⟩

/-- A step of the serial layer that names the call `id`, and the rest of its task. -/
theorem operationStepped_of_finish {act : OperationAction} {sact : Action} {s : State} {w : Wakeup}
    (hs : Stepped cfg.serial m.serial sact s) (hact : sact = .resume id w ∨ sact = .cancel id) :
    Operations.Stepped cfg m act ((m.withSerial s).finish id) := by
  obtain ⟨hcall, hothers, hends⟩ := named_of_stepped hs hact
  have hquiet (hself : ∀ fetched p post, Ends m.serial s id fetched →
      m.caller id = some (p, post) → post.stage.call ≠ some id) :
      Operations.Stepped cfg m act (m.withSerial s) := by
    refine .wentOn hs hcall fun j fetched p post hend hcaller => ?_
    obtain rfl := eq_of_ends hothers hend
    exact hself fetched p post hend hcaller
  rw [Operations.finish]
  split
  · next hresult =>
      refine hquiet fun fetched _ _ hend _ => ?_
      cases hresult.symm.trans hend.result_eq
  · next fetched hresult =>
      have hend : Ends m.serial s id fetched := hends fetched hresult
      split
      · next hnone =>
          exact hquiet fun _ _ _ _ hcaller => by cases hnone.symm.trans hcaller
      · next p post hcaller =>
          have hself : m.caller id = some (p, post) := hcaller
          have hother (hne : post.stage.call ≠ some id) :
              Operations.Stepped cfg m act (m.withSerial s) := by
            refine hquiet fun _ q post' _ hcaller' => ?_
            cases hself.symm.trans hcaller'
            exact hne
          split
          · next call hstage =>
              split_ifs with hcallid
              · subst hcallid
                exact .controlled hs hcall hothers hend hself hstage
              · refine hother fun heq => hcallid ?_
                rw [hstage] at heq
                exact Option.some.inj heq
          · next call deadline hstage =>
              split_ifs with hcallid
              · subst hcallid
                exact .verified hs hcall hothers hend hself hstage
              · refine hother fun heq => hcallid ?_
                rw [hstage] at heq
                exact Option.some.inj heq
          · next hcontrolling hverifying =>
              refine hother fun heq => ?_
              generalize hstage : post.stage = stage at heq
              cases stage with
              | controlling call => exact hcontrolling call hstage
              | verifying call deadline => exact hverifying call deadline hstage
              | acquiring | settling | pausing | returned | failed => cases heq

/-- **Every step is one of `Operations.Stepped`**, by the cases of the step function and of the
request that goes on. -/
theorem operationStepped_of_step {act : OperationAction} (h : m.step cfg act = some m') :
    Operations.Stepped cfg m act m' := by
  have went {act : OperationAction} (sact : Action)
      (hact : sact.IsEnvironment ∨ ∃ n bs, sact = .receive n bs)
      (hmap : (IoBoard.step cfg.serial m.serial sact).map m.withSerial = some m') :
      Operations.Stepped cfg m act m' := by
    obtain ⟨s, hs, rfl⟩ := Option.map_eq_some_iff.mp hmap
    obtain ⟨hcall, hsame⟩ := calls_of_environment (stepped_of_step hs) hact
    refine .wentOn (stepped_of_step hs) hcall fun j fetched p post hend _ => ?_
    exact absurd (congrFun hsame j) hend.calls_ne
  cases act with
  | post p action =>
      rw [Operations.step, Option.ite_none_right_eq_some, Option.isNone_iff_eq_none] at h
      obtain ⟨hp, h⟩ := h
      cases h
      exact .posted hp
  | acquire p id now =>
      obtain ⟨post, hp, h⟩ := Option.bind_eq_some_iff.mp h
      rw [Option.ite_none_right_eq_some] at h
      obtain ⟨⟨hstage, hlock⟩, h⟩ := h
      obtain ⟨n, hsend, rfl⟩ := Option.map_eq_some_iff.mp h
      obtain ⟨s, hs, rfl⟩ := calls_of_operationSend hsend
      exact .acquired hp hstage hlock hs
  | wake p id =>
      obtain ⟨post, hp, h⟩ := Option.bind_eq_some_iff.mp h
      have woke {deadline : ℚ} (hsleeps : Sleeps m post.stage deadline)
          (hask : m.ask cfg p post id deadline = some m') :
          Operations.Stepped cfg m (.wake p id) m' := by
        obtain ⟨n, hsend, rfl⟩ := Option.map_eq_some_iff.mp hask
        obtain ⟨s, hs, rfl⟩ := calls_of_operationSend hsend
        have hclock : s.clock = m.serial.clock := by
          obtain ⟨data, args, -, -, rfl⟩ := hs
          rfl
        have hstep := Operations.Stepped.asked hp hsleeps hs
        rw [Operations.verifying, ← hclock] at hstep
        exact hstep
      split at h
      · next wake hstage =>
          rw [Option.ite_none_right_eq_some] at h
          exact woke (hstage ▸ .settling wake) h.2
      · next wake deadline hstage =>
          rw [Option.ite_none_right_eq_some] at h
          exact woke (hstage ▸ .pausing wake deadline) h.2
      · cases h
  | cancelPost p =>
      obtain ⟨post, hp, h⟩ := Option.bind_eq_some_iff.mp h
      split at h
      · next hstage =>
          cases h
          exact .gaveUp hp hstage
      · next wake hstage =>
          cases h
          exact .left hp ⟨_, hstage ▸ Sleeps.settling wake⟩
      · next wake deadline hstage =>
          cases h
          exact .left hp ⟨_, hstage ▸ Sleeps.pausing wake deadline⟩
      · cases h
  | command id c data =>
      rw [Operations.step, Option.ite_none_left_eq_some] at h
      obtain ⟨s, hs, rfl⟩ := calls_of_operationSend h.2
      exact .commanded h.1 hs
  | consume item =>
      cases h
      exact .consumed
  | resume id w =>
      obtain ⟨s, hs, rfl⟩ := Option.map_eq_some_iff.mp h
      exact operationStepped_of_finish (stepped_of_step hs) (.inl rfl)
  | cancel id =>
      obtain ⟨s, hs, rfl⟩ := Option.map_eq_some_iff.mp h
      exact operationStepped_of_finish (w := .ready) (stepped_of_step hs) (.inr rfl)
  | tick d => exact went (.tick d) (.inl trivial) h
  | receive n bs => exact went (.receive n bs) (.inr ⟨n, bs, rfl⟩) h
  | closing n => exact went (.closing n) (.inl trivial) h
  | connectionLost n exc => exact went (.connectionLost n exc) (.inl trivial) h

/-! ### How a request goes on -/

/-- After MC/DC a request settles, or fails and leaves the lock. -/
theorem finishControl_cases (m : Operations) (p : PostId) (post : Post)
    (fetched : Except PyExc Bytes) :
    m.finishControl p post fetched =
      (m.setPost p post (.settling (m.serial.clock + deadboltSettleSeconds))).note p .controlled ∨
    ∃ e, m.finishControl p post fetched = m.leave p post (.failed e) := by
  rw [Operations.finishControl]
  split
  · exact .inl rfl
  · next e _ => exact .inr ⟨e, rfl⟩

/-- With a status a request returns or pauses; without one it fails. It pauses only while the
bolt is not where it should be and the deadline has not passed. -/
theorem finishStatus_cases (m : Operations) (p : PostId) (post : Post) (id : CallId)
    (deadline : ℚ) (fetched : Except PyExc Bytes) :
    (∃ status, receiveStatus fetched = .ok status ∧
      (status.deadbolt = post.action.expectedState ∨ deadline ≤ m.serial.clock) ∧
      m.finishStatus p post id deadline fetched =
        (m.note p (.read id status m.serial.clock)).leave p post
          (.returned id status.deadbolt)) ∨
    (∃ status, receiveStatus fetched = .ok status ∧
      status.deadbolt ≠ post.action.expectedState ∧ m.serial.clock < deadline ∧
      m.finishStatus p post id deadline fetched =
        (m.note p (.read id status m.serial.clock)).setPost p post
          (.pausing (m.serial.clock + deadboltStatusPollSeconds) deadline)) ∨
    ∃ e, m.finishStatus p post id deadline fetched = m.leave p post (.failed e) := by
  rw [Operations.finishStatus]
  split
  · next status hstatus =>
      by_cases hdone : status.deadbolt = post.action.expectedState ∨ deadline ≤ m.serial.clock
      · exact .inl ⟨status, hstatus, hdone, if_pos hdone⟩
      · obtain ⟨hne, hlt⟩ := not_or.mp hdone
        exact .inr (.inl ⟨status, hstatus, hne, not_le.mp hlt, if_neg hdone⟩)
  · next e _ => exact .inr (.inr ⟨e, rfl⟩)

end IoBoard
