import IoBoard.Machine
import IoBoard.SerialProgress

/-!
# Steps of the Machine

What one step of the machine can do, said once: `Machine.Stepped` has one constructor for
each thing that can happen, with the state it leaves.

The constructors are grouped by the part that moves. A step of the serial layer keeps its
`Resumed` derivation, and is split by what it means for the line: nothing, a transmission, or an
accepted frame. A step of a request is one of `PostStepped`, which has its own constructors for
the ways through the code between two awaits. A step of the line or the board changes nothing of
the service.

The invariants of `IoBoard.Line` and `IoBoard.Deadbolt` are proved by cases on these relations
and unfold neither `Machine.step` nor `resumePost`.

## Main results

* `sends_of_send`: a command that is sent is a new call of `fetch`, and nothing else.
* `machineStepped_of_step`: **every step is one of `Machine.Stepped`**.
-/

open Runs

namespace IoBoard

variable {cfg : Settings} {m m' : Machine} {act : MachineAction}

/-- The tasks of the service that can go on at any time without a `fetch` call: time passes,
or a transport closes or is lost. -/
def Action.IsEnvironment : Action → Prop
  | .tick _ | .closing _ | .connectionLost _ _ => True
  | _ => False

/-- A command that is sent becomes a new call of `fetch`, which waits for the mutex. Its data is
whatever the command function has built. -/
def Sends (cfg : Settings) (m : Machine) (id : CallId) (c : Command) (s : State) : Prop :=
  ∃ data args, m.serial.calls id = none ∧
    sendCommand cfg.polling.loadcellsMinRequestGap c data = .ok args ∧
    s = m.serial.goto id ⟨args, .acquiring⟩ .acquiring

theorem sends_of_send {id : CallId} {c : Command} {data : RequestDict}
    (h : m.send cfg id c data = some m') :
    ∃ s, Sends cfg m id c s ∧ m' = { m with serial := s } := by
  rw [Machine.send] at h
  split at h
  · cases h
  · rename_i args hargs
    obtain ⟨s, hs, rfl⟩ := Option.map_eq_some_iff.mp h
    cases stepped_of_step hs with
    | called hnew => exact ⟨_, ⟨data, args, hnew, hargs, rfl⟩, rfl⟩

/-- A new call is not in an attempt. -/
theorem sameAttempts_of_sends {id : CallId} {c : Command} {s : State} (h : Sends cfg m id c s) :
    SameAttempts m.serial s := by
  obtain ⟨data, args, hnew, -, rfl⟩ := h
  intro j d hd
  rw [State.goto_calls, Function.update_apply]
  split_ifs with hj
  · rw [hj, hnew]
    refine ⟨fun hd' => ?_, nofun⟩
    cases hd'
    exact hd.elim
  · rfl

/-- One step of a `POST /deadbolt` request, by the stage it was suspended at. The conditions are
those of the code: the lock is free, the sleep is over, the call has a result. -/
inductive PostStepped (cfg : Settings) (m : Machine) (p : PostId) (post : Post) (id : CallId) :
    PostStage → Machine → Prop
  | acquired {s} (h : m.operationLock = none) (hs : Sends cfg m id deadboltControl s) :
      PostStepped cfg m p post id .acquiring
        ({ m with
            serial := s
            operationLock := some p
            engaged := some (post.action.expectedState, m.serial.clock) }.setPost p
          { post with control := some id } (.controlling id))
  | controlled {call fetched state} (h : m.result call = some fetched)
      (hok : receiveDeadbolt post.action fetched = .ok state) :
      PostStepped cfg m p post id (.controlling call)
        (m.setPost p post (.settling (m.serial.clock + deadboltSettleSeconds)))
  | controlFailed {call fetched e} (h : m.result call = some fetched)
      (herror : receiveDeadbolt post.action fetched = .error e) :
      PostStepped cfg m p post id (.controlling call) (m.leave p post (.failed e))
  | asked {stage deadline s}
      (h : (∃ wake, stage = .settling wake) ∨ ∃ wake, stage = .pausing wake deadline)
      (hs : Sends cfg m id ioStatus s) :
      PostStepped cfg m p post id stage
        ({ m with serial := s }.setPost p post (.verifying id deadline))
  | verified {call deadline fetched status} (h : m.result call = some fetched)
      (hok : receiveStatus fetched = .ok status) :
      PostStepped cfg m p post id (.verifying call deadline)
        (m.leave p post (.returned call status.deadbolt))
  | paused {call deadline fetched status} (h : m.result call = some fetched)
      (hok : receiveStatus fetched = .ok status) :
      PostStepped cfg m p post id (.verifying call deadline)
        (m.setPost p post (.pausing (m.serial.clock + deadboltStatusPollSeconds) deadline))
  | verifyFailed {call deadline fetched e} (h : m.result call = some fetched)
      (herror : receiveStatus fetched = .error e) :
      PostStepped cfg m p post id (.verifying call deadline) (m.leave p post (.failed e))

theorem postStepped_of_resumePost {p : PostId} {post : Post} {id : CallId} {stage : PostStage}
    (h : m.resumePost cfg p post id stage = some m') :
    PostStepped cfg m p post id stage m' := by
  cases stage with
  | acquiring =>
      rw [Machine.resumePost, Option.ite_none_right_eq_some] at h
      obtain ⟨hlock, h⟩ := h
      obtain ⟨m₁, hsend, rfl⟩ := Option.map_eq_some_iff.mp h
      obtain ⟨s, hs, rfl⟩ := sends_of_send hsend
      exact .acquired hlock hs
  | controlling call =>
      obtain ⟨fetched, hresult, rfl⟩ := Option.map_eq_some_iff.mp h
      split
      · rename_i hok
        exact .controlled hresult hok
      · rename_i herror
        exact .controlFailed hresult herror
  | settling wake =>
      rw [Machine.resumePost, Option.ite_none_right_eq_some] at h
      obtain ⟨m₁, hsend, rfl⟩ := Option.map_eq_some_iff.mp h.2
      obtain ⟨s, hs, rfl⟩ := sends_of_send hsend
      exact .asked (.inl ⟨wake, rfl⟩) hs
  | verifying call deadline =>
      obtain ⟨fetched, hresult, rfl⟩ := Option.map_eq_some_iff.mp h
      split
      · rename_i hok
        split_ifs
        · exact .verified hresult hok
        · exact .paused hresult hok
      · rename_i herror
        exact .verifyFailed hresult herror
  | pausing wake deadline =>
      rw [Machine.resumePost, Option.ite_none_right_eq_some] at h
      obtain ⟨m₁, hsend, rfl⟩ := Option.map_eq_some_iff.mp h.2
      obtain ⟨s, hs, rfl⟩ := sends_of_send hsend
      exact .asked (.inr ⟨wake, rfl⟩) hs
  | returned | failed => cases h

/-- **One step of the machine**, with what is needed of the serial layer, the line and the
request that takes it. -/
inductive Machine.Stepped (cfg : Settings) (m : Machine) : MachineAction → Machine → Prop
  | sent {id c data s} (hs : Sends cfg m id c s) (hc : c ≠ deadboltControl) :
      Stepped cfg m (.command id c data) { m with serial := s }
  | environment {act act' s} (hs : IoBoard.Stepped cfg.serial m.serial act s)
      (hact : act.IsEnvironment) : Stepped cfg m act' { m with serial := s }
  | resumed {id wakeup c stage' s} (hc : m.serial.calls id = some c)
      (hr : Resumed cfg.serial m.serial id c c.stage stage' s)
      (htx : s.transmissions = m.serial.transmissions)
      (hok : ∀ frame, stage' ≠ .finished (.ok frame))
      (hcancel : stage' ≠ .finished (.error .cancelledError)) :
      Stepped cfg m (.resume id wakeup) { m with serial := s }
  | transmitted {id wakeup c a d} (hc : m.serial.calls id = some c)
      (hstage : c.stage = .attempting a (.draining d))
      (hr : Resumed cfg.serial m.serial id c c.stage (.attempting a .flushing)
        (m.serial.transmit id c a)) :
      Stepped cfg m (.resume id wakeup) { m with
        serial := m.serial.transmit id c a
        requests := m.requests ++ [m.serial.txNow id c a]
        arrived := [] }
  | accepted {id wakeup c frame s} (hc : m.serial.calls id = some c)
      (hr : Resumed cfg.serial m.serial id c c.stage (.finished (.ok frame)) s) :
      Stepped cfg m (.resume id wakeup) { m with
        serial := s
        arrived := m.arrived.tail
        taken := Function.update m.taken id m.arrived.head? }
  | lostRequest {t requests} (h : m.requests = t :: requests) :
      Stepped cfg m .loseRequest { m with requests := requests }
  | unanswered {t requests} (h : m.requests = t :: requests) :
      Stepped cfg m (.handle none) { m with requests := requests, handled := m.handled ++ [t] }
  | answered {t requests frame} (h : m.requests = t :: requests)
      (hv : validAnswer m.bolt t.message frame) :
      Stepped cfg m (.handle (some frame)) { m with
        requests := requests
        handled := m.handled ++ [t]
        line := m.line ++ [⟨t, m.bolt, frame⟩] }
  | lostAnswer {a line} (h : m.line = a :: line) :
      Stepped cfg m .loseAnswer { m with line := line }
  | delivered {a line} (h : m.line = a :: line)
      (hs : IoBoard.Stepped cfg.serial m.serial (.receive a.request.conn a.frame)
        (m.serial.setConn a.request.conn
          ((m.serial.conns a.request.conn).feed a.frame))) :
      Stepped cfg m .deliver { m with
        serial := m.serial.setConn a.request.conn
          ((m.serial.conns a.request.conn).feed a.frame)
        line := line
        arrived :=
          if m.serial.connection = some a.request.conn then m.arrived ++ [a] else m.arrived }
  | moved {state} : Stepped cfg m (.move state) { m with bolt := state }
  | posted {p action} (h : m.posts p = none) :
      Stepped cfg m (.post p action) (m.setPost p { action := action } .acquiring)
  | resumedPost {p post id m'} (hp : m.posts p = some post)
      (h : PostStepped cfg m p post id post.stage m') : Stepped cfg m (.resumePost p id) m'
  | withdrawn {p post} (hp : m.posts p = some post) (hstage : post.stage = .acquiring) :
      Stepped cfg m (.cancelPost p) (m.setPost p post (.failed .cancelledError))
  | cancelledPost {p post} (hp : m.posts p = some post)
      (hstage : (∃ wake, post.stage = .settling wake) ∨
        ∃ wake deadline, post.stage = .pausing wake deadline) :
      Stepped cfg m (.cancelPost p) (m.leave p post (.failed .cancelledError))

/-- What `resumed` makes of a resumption. -/
theorem machineStepped_of_resumed {id : CallId} {wakeup : Wakeup} {c : Call} {stage' : Stage}
    {s : State} (hc : m.serial.calls id = some c)
    (hr : Resumed cfg.serial m.serial id c c.stage stage' s)
    (h : m.resumed id s = some m') : Machine.Stepped cfg m (.resume id wakeup) m' := by
  have hstage : (s.calls id).map Call.stage = some stage' := by
    rw [hr.calls_eq, Function.update_self, Option.map_some]
  rw [Machine.resumed, hstage] at h
  split at h
  · cases h
  · rename_i frame heq
    obtain rfl := Option.some.inj heq
    obtain rfl := Option.some.inj h
    exact .accepted hc hr
  · rename_i hcancel hok
    obtain rfl := Option.some.inj h
    have hok' : ∀ frame, stage' ≠ .finished (.ok frame) := by
      rintro frame rfl
      exact hok frame rfl
    have hcancel' : stage' ≠ .finished (.error .cancelledError) := by
      rintro rfl
      exact hcancel rfl
    obtain htx | ⟨a, d, hdrained, rfl, rfl⟩ := hr.transmissions_cases
    · rw [htx, List.drop_length, List.append_nil, if_pos rfl]
      exact .resumed hc hr htx hok' hcancel'
    · rw [State.transmit_transmissions, List.drop_left, if_neg (List.cons_ne_nil _ _)]
      exact .transmitted hc hdrained hr

/-- **Every step is one of `Machine.Stepped`**, by the cases of the step function and of the
stage of the request. -/
theorem machineStepped_of_step (h : m.step cfg act = some m') :
    Machine.Stepped cfg m act m' := by
  cases act with
  | command id c data =>
      rw [Machine.step, Option.ite_none_left_eq_some] at h
      obtain ⟨s, hs, rfl⟩ := sends_of_send h.2
      exact .sent hs h.1
  | resume id wakeup =>
      obtain ⟨s, hs, hm⟩ := Option.bind_eq_some_iff.mp h
      cases stepped_of_step hs with
      | resumed hc hr => exact machineStepped_of_resumed hc hr hm
  | tick | closing | connectionLost =>
      obtain ⟨s, hs, rfl⟩ := Option.map_eq_some_iff.mp h
      exact .environment (stepped_of_step hs) trivial
  | loseRequest =>
      rw [Machine.step] at h
      split at h
      · cases h
      · rename_i hreq
        obtain rfl := Option.some.inj h
        exact .lostRequest hreq
  | handle answer =>
      simp only [Machine.step] at h
      split at h
      · cases h
      · rename_i hreq
        obtain rfl := Option.some.inj h
        exact .unanswered hreq
      · rename_i hreq
        rw [Option.ite_none_right_eq_some] at h
        obtain ⟨hv, h⟩ := h
        obtain rfl := Option.some.inj h
        exact .answered hreq hv
  | loseAnswer =>
      rw [Machine.step] at h
      split at h
      · cases h
      · rename_i hline
        obtain rfl := Option.some.inj h
        exact .lostAnswer hline
  | deliver =>
      rw [Machine.step] at h
      split at h
      · cases h
      · rename_i a line hline
        obtain ⟨s, hs, rfl⟩ := Option.map_eq_some_iff.mp h
        have hstep := stepped_of_step hs
        cases hstep with
        | received hn hc => exact .delivered hline (.received hn hc)
  | move state =>
      obtain rfl := Option.some.inj h
      exact .moved
  | post p action =>
      rw [Machine.step, Option.ite_none_right_eq_some, Option.isNone_iff_eq_none] at h
      obtain rfl := Option.some.inj h.2
      exact .posted h.1
  | resumePost p id =>
      obtain ⟨post, hp, h⟩ := Option.bind_eq_some_iff.mp h
      exact .resumedPost hp (postStepped_of_resumePost h)
  | cancelPost p =>
      obtain ⟨post, hp, h⟩ := Option.bind_eq_some_iff.mp h
      cases hstage : post.stage with
      | acquiring =>
          rw [hstage] at h
          obtain rfl := Option.some.inj h
          exact .withdrawn hp hstage
      | settling wake =>
          rw [hstage] at h
          obtain rfl := Option.some.inj h
          exact .cancelledPost hp (.inl ⟨wake, hstage⟩)
      | pausing wake deadline =>
          rw [hstage] at h
          obtain rfl := Option.some.inj h
          exact .cancelledPost hp (.inr ⟨wake, deadline, hstage⟩)
      | controlling | verifying | returned | failed =>
          rw [hstage] at h
          cases h

end IoBoard
