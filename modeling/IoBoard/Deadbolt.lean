import IoBoard.SerialCalls

/-!
# Deadbolt Verification

What the `POST /deadbolt` requests know about the line. Answers are told apart by their codes
only, so the argument is about who may have an MC/DC answer outstanding: the operation lock
lets only one request at a time send MC/DC, and a request that goes on to the end keeps the
lock until an RQ/ID answer, or the loss of the connection, has cleared the line of the answers
to its own MC/DC frames.

A request does not always go on to the end. Where it is cancelled in its settle time, or gets
an MC/DC frame that cannot be parsed, it leaves the `async with operation_lock` block with the
answers to its retransmissions still on the line, and the next request takes one of them for
the answer to its own MC/DC. `ReleasesClear` is the condition under which this does not
happen: where a request gives the lock up so early, no MC/DC answer can still be read.

## What a request knows

`StageOk` says what holds of a request at each stage. Up to the MC/DC answer it is about the
call of `fetch` alone; from there on it carries a fact `C` about the line, on which the proof
that the RQ/ID answer is younger rests. Here `C` is `Controlled`: the board has handled an
MC/DC frame of the request. `DeadboltRuns` uses the same steps with a weaker fact.

## Main definitions and results

* `Machine.ReleasesClear`: the condition on a step.
* `Machine.PostInv`: the lock, the stages, the owners of the MC/DC calls, and to whom every
  outstanding MC/DC answer is owed.
* `StageOk.accepted`: what a request knows once a call has taken its frame.
* `postInv_of_reaches`: the invariant holds in every run of such steps.
-/

open Fifo Runs

namespace IoBoard

variable {cfg : Settings} {m m' : Machine}

/-! ### What a request knows -/

/-- The request holds the operation lock: it is behind its `acquire` and has not ended. -/
def PostStage.Active : PostStage → Prop
  | .controlling _ | .settling _ | .verifying _ _ | .pausing _ _ => True
  | _ => False

/-- Answers to MC/DC frames of a request at this stage may be outstanding, by the results of
the calls. -/
def PostStage.MayOwe (result : CallId → Option (Except PyExc Bytes)) : PostStage → Prop
  | .controlling id => ∀ e, result id ≠ some (.error e)
  | .settling _ => True
  | .verifying id _ => result id = none
  | _ => False

/-- A frame is an MC/DC frame of the request. A retransmission is one too, and a request without
a command has none. -/
def Post.Sent (post : Post) (t : Tx) : Prop :=
  post.control = some t.call ∧ t.label = deadboltControl.label

/-- The board has handled an MC/DC frame of the request before all requests of other commands whose
answers can still be read. It is a fact about the line, and it stays as the line goes on. -/
def Machine.Controlled (m : Machine) (post : Post) : Prop :=
  ∃ r ∈ m.handled, post.Sent r ∧ ∀ a ∈ m.arrived ++ m.line, m.serial.Usable a.request.conn →
    a.request.label ≠ deadboltControl.label → Before m.handled r a.request

/-- The frame of the call is an answer that reports the bolt, from after the board had handled
an MC/DC frame of the request. -/
def Machine.Confirmed (m : Machine) (post : Post) (id : CallId) (frame : Bytes) : Prop :=
  ∃ a r, m.taken id = some a ∧ a.frame = frame ∧
    (receiveStatus (.ok frame)).toOption.map (·.deadbolt) = some a.bolt ∧
    post.Sent r ∧ Before m.handled r a.request

/-- What holds of a request at its stage. `C` is what it knows from the moment at which
`set_deadbolt` has its frame; at the end, of a request that has returned, it is `Confirmed`. -/
def Machine.StageOk (C : Machine → Post → Prop) (m : Machine) (post : Post) : Prop :=
  match post.stage with
  | .acquiring => post.control = none
  | .controlling id => post.control = some id ∧
      ∃ c, m.serial.calls id = some c ∧ responseCodes c.args.message = deadboltControl.label ∧
        ∀ frame, m.result id = some (.ok frame) → C m post
  | .settling _ | .pausing _ _ => C m post
  | .verifying id _ => C m post ∧
      ∃ c, m.serial.calls id = some c ∧ responseCodes c.args.message = ioStatus.label ∧
        ∀ frame, m.result id = some (.ok frame) → m.Confirmed post id frame
  | .returned id state => ∃ frame, m.result id = some (.ok frame) ∧
      (receiveStatus (.ok frame)).toOption.map (·.deadbolt) = some state ∧
      m.Confirmed post id frame
  | .failed _ => True

/-- The invariant of the `POST /deadbolt` requests: who holds the lock, what each of them knows,
whose the MC/DC calls are, and to whom every outstanding MC/DC answer is owed. -/
structure Machine.PostInv (m : Machine) : Prop where
  /-- An active request holds the operation lock. -/
  locked : ∀ p post, m.posts p = some post → post.stage.Active → m.operationLock = some p
  stageOk : ∀ p post, m.posts p = some post → m.StageOk Controlled post
  /-- Every MC/DC call is that of a request, which waits for it. -/
  owner : ∀ id c, m.serial.calls id = some c →
    responseCodes c.args.message = deadboltControl.label →
    ∃ p post, m.posts p = some post ∧ post.control = some id ∧
      (m.result id = none → post.stage = .controlling id)
  /-- Every outstanding MC/DC answer is owed to the request that holds the lock. -/
  owed : ∀ n t, m.serial.Usable n → t ∈ m.outstandingOn n → t.label = deadboltControl.label →
    ∃ p post, m.operationLock = some p ∧ m.posts p = some post ∧ post.Sent t ∧
      post.stage.MayOwe m.result

/-- No answer to an MC/DC frame can still be read: none is outstanding on a connection that may
still be used. -/
def Machine.ControlClear (m : Machine) : Prop :=
  ∀ n t, m.serial.Usable n → t ∈ m.outstandingOn n → t.label ≠ deadboltControl.label

/-- A request that gives the operation lock up between its MC/DC command and its first status,
because it is cancelled in its settle time or cannot parse the MC/DC answer, does so when no
answer to an MC/DC frame can still be read. -/
def Machine.ReleasesClear (m : Machine) : MachineAction → Prop
  | .cancelPost p => ∀ post wake, m.posts p = some post → post.stage = .settling wake →
      m.ControlClear
  | .resumePost p _ => ∀ post call frame e, m.posts p = some post →
      post.stage = .controlling call → m.result call = some (.ok frame) →
      receiveDeadbolt post.action (.ok frame) = .error e → m.ControlClear
  | _ => True

/-! ### Steps that leave the requests alone -/

theorem Machine.Controlled.mono {post : Post} (h : m.Controlled post)
    (hhandled : m.handled.Sublist m'.handled)
    (hfresh : ∀ a ∈ m'.arrived ++ m'.line, m'.serial.Usable a.request.conn →
      (a ∈ m.arrived ++ m.line ∧ m.serial.Usable a.request.conn) ∨
        ∀ r ∈ m.handled, Before m'.handled r a.request) : m'.Controlled post := by
  obtain ⟨r, hr, hsent, hbefore⟩ := h
  refine ⟨r, hhandled.subset hr, hsent, fun a ha hn hlabel => ?_⟩
  rcases hfresh a ha hn with ⟨ha', hn'⟩ | hnew
  · exact (hbefore a ha' hn' hlabel).mono hhandled
  · exact hnew r hr

theorem Machine.Confirmed.mono {post : Post} {id : CallId} {frame : Bytes}
    (h : m.Confirmed post id frame) (hhandled : m.handled.Sublist m'.handled)
    (htaken : m'.taken id = m.taken id) : m'.Confirmed post id frame := by
  obtain ⟨a, r, ha, hframe, hbolt, hsent, hbefore⟩ := h
  exact ⟨a, r, htaken.trans ha, hframe, hbolt, hsent, hbefore.mono hhandled⟩

variable {C : Machine → Post → Prop}

/-- What holds of a request goes on to hold while no call gets a frame. -/
theorem Machine.StageOk.mono {post : Post} (h : m.StageOk C post)
    (hcalls : ∀ id c, m.serial.calls id = some c →
      ∃ c', m'.serial.calls id = some c' ∧ c'.args = c.args)
    (hok : ∀ id frame, m'.result id = some (.ok frame) ↔ m.result id = some (.ok frame))
    (htaken : m'.taken = m.taken) (hhandled : m.handled.Sublist m'.handled)
    (hC : C m post → C m' post) : m'.StageOk C post := by
  rw [Machine.StageOk] at h ⊢
  cases hstage : post.stage with
  | acquiring | failed =>
      rw [hstage] at h
      exact h
  | controlling id =>
      rw [hstage] at h
      obtain ⟨hcontrol, c, hc, hlabel, hframe⟩ := h
      obtain ⟨c', hc', hargs⟩ := hcalls id c hc
      exact ⟨hcontrol, c', hc', hargs ▸ hlabel, fun frame hf =>
        hC (hframe frame ((hok id frame).mp hf))⟩
  | settling | pausing =>
      rw [hstage] at h
      exact hC h
  | verifying id deadline =>
      rw [hstage] at h
      obtain ⟨hctl, c, hc, hlabel, hframe⟩ := h
      obtain ⟨c', hc', hargs⟩ := hcalls id c hc
      exact ⟨hC hctl, c', hc', hargs ▸ hlabel, fun frame hf =>
        (hframe frame ((hok id frame).mp hf)).mono hhandled
          (congrFun htaken id)⟩
  | returned id state =>
      rw [hstage] at h
      obtain ⟨frame, hresult, hstate, hconf⟩ := h
      exact ⟨frame, (hok id frame).mpr hresult, hstate,
        hconf.mono hhandled (congrFun htaken id)⟩

namespace Machine

/-- A call of a state has a result when it is finished. -/
theorem result_eq {id : CallId} {c : Call} (hc : m.serial.calls id = some c) :
    m.result id = c.stage.result := by
  rw [result, hc, Option.bind_some]

/-- An MC/DC frame that a call has sent for the request that waits for it. So the transmissions
of MC/DC are those of the requests, and of one of them at a time. -/
theorem PostInv.sent_of_owner (h : m.PostInv) {id : CallId} {c : Call} {t : Tx}
    (hc : m.serial.calls id = some c) (hresult : m.result id = none) (hcall : t.call = id)
    (hmessage : t.message = c.args.message) (hlabel : t.label = deadboltControl.label) :
    ∃ p post, m.operationLock = some p ∧ m.posts p = some post ∧ post.Sent t ∧
      post.stage = .controlling id := by
  obtain ⟨p, post, hp, hcontrol, hstage⟩ := h.owner id c hc (hmessage ▸ hlabel)
  refine ⟨p, post, h.locked p post hp ?_, hp, ⟨hcall ▸ hcontrol, hlabel⟩, hstage hresult⟩
  rw [hstage hresult]
  trivial

/-- Steps that leave the requests alone keep their invariant while no call gets a frame. -/
theorem PostInv.of_quiet (h : m.PostInv) (hposts : m'.posts = m.posts)
    (hlock : m'.operationLock = m.operationLock) (htaken : m'.taken = m.taken)
    (hcalls : ∀ id c, m.serial.calls id = some c →
      ∃ c', m'.serial.calls id = some c' ∧ c'.args = c.args)
    (hnew : ∀ id c', m'.serial.calls id = some c' →
      responseCodes c'.args.message = deadboltControl.label →
      ∃ c, m.serial.calls id = some c ∧ c.args = c'.args ∧
        (m'.result id = none → m.result id = none))
    (hok : ∀ id frame, m'.result id = some (.ok frame) ↔ m.result id = some (.ok frame))
    (hhandled : m.handled.Sublist m'.handled)
    (hfresh : ∀ a ∈ m'.arrived ++ m'.line, m'.serial.Usable a.request.conn →
      (a ∈ m.arrived ++ m.line ∧ m.serial.Usable a.request.conn) ∨
        ∀ r ∈ m.handled, Before m'.handled r a.request)
    (howed : ∀ n t, m'.serial.Usable n → t ∈ m'.outstandingOn n →
      t.label = deadboltControl.label → ∃ p post, m.operationLock = some p ∧
        m.posts p = some post ∧ post.Sent t ∧ post.stage.MayOwe m'.result) : m'.PostInv := by
  refine ⟨hposts ▸ hlock ▸ h.locked, fun p post hp => ?_, fun id c' hc' hlabel => ?_, ?_⟩
  · exact (h.stageOk p post (hposts ▸ hp)).mono hcalls hok htaken hhandled
      (Controlled.mono · hhandled hfresh)
  · obtain ⟨c, hc, hargs, hresult⟩ := hnew id c' hc' hlabel
    obtain ⟨p, post, hp, hcontrol, hstage⟩ := h.owner id c hc (hargs ▸ hlabel)
    exact ⟨p, post, hposts ▸ hp, hcontrol, fun hr => hstage (hresult hr)⟩
  · rw [hposts, hlock]
    exact howed

/-- The same where the line only loses what can be read. -/
theorem PostInv.of_sublist (h : m.PostInv) (hserial : m'.serial = m.serial)
    (hposts : m'.posts = m.posts) (hlock : m'.operationLock = m.operationLock)
    (htaken : m'.taken = m.taken) (hhandled : m.handled.Sublist m'.handled)
    (hout : m'.outstanding.Sublist m.outstanding)
    (hfresh : ∀ a ∈ m'.arrived ++ m'.line, a ∈ m.arrived ++ m.line ∨
        ∀ r ∈ m.handled, Before m'.handled r a.request) : m'.PostInv := by
  have hresult : m'.result = m.result := by
    funext id
    rw [result, result, hserial]
  refine h.of_quiet hposts hlock htaken (fun id c hc => ⟨c, hserial ▸ hc, rfl⟩)
    (fun id c' hc' _ => ⟨c', hserial ▸ hc', rfl, fun hr => hresult ▸ hr⟩)
    (fun id frame => by rw [hresult]) hhandled
    (fun a ha hn => (hfresh a ha).imp_left fun ha' => ⟨ha', hserial ▸ hn⟩)
    fun n t hn ht hlabel => ?_
  obtain ⟨p, post, hp, hpost, hsent, howe⟩ :=
    h.owed n t (hserial ▸ hn) ((outstandingOn_sublist hout n).subset ht) hlabel
  exact ⟨p, post, hp, hpost, hsent, hresult ▸ howe⟩

/-! ### Steps of the serial layer -/

variable {id : CallId} {c : Call} {stage' : Stage} {s : State}

/-- What a step of the serial layer in which no call gets a frame leaves as it is: the calls
keep their arguments and their frames, and no connection that was of no use is one. -/
structure SerialKept (m : Machine) (s : State) : Prop where
  calls : ∀ id c, m.serial.calls id = some c → ∃ c', s.calls id = some c' ∧ c'.args = c.args
  ok : ∀ id frame, result { m with serial := s } id = some (.ok frame) ↔
    m.result id = some (.ok frame)
  usable : ∀ n, s.Usable n → m.serial.Usable n ∨ n = m.serial.nextConn

/-- The answers that can be read after such a step could be read before. -/
theorem SerialKept.usable_of_mem (h : m.SerialKept s) (hl : m.LineInv cfg) :
    ∀ t ∈ m.outstanding, s.Usable t.conn → m.serial.Usable t.conn := fun _ ht hn =>
  (h.usable _ hn).resolve_right (hl.conn_ne_nextConn ht)

theorem mem_outstanding {a : Answer} (ha : a ∈ m.arrived ++ m.line) :
    a.request ∈ m.outstanding :=
  List.mem_append_left _ (List.mem_map_of_mem ha)

/-- A step of the serial layer alone, in which no call gets a frame. Where a connection stays
usable, no call gets an error either. -/
theorem PostInv.of_serial (h : m.PostInv) (hl : m.LineInv cfg) (hkept : m.SerialKept s)
    (hnew : ∀ id c', s.calls id = some c' → responseCodes c'.args.message = deadboltControl.label →
      ∃ c, m.serial.calls id = some c ∧ c.args = c'.args ∧
        (result { m with serial := s } id = none → m.result id = none))
    (hresult : ∀ n, s.Usable n → n ≠ m.serial.nextConn →
      result { m with serial := s } = m.result) : PostInv { m with serial := s } := by
  refine h.of_quiet rfl rfl rfl hkept.calls hnew hkept.ok (List.Sublist.refl _)
    (fun a ha hn => .inl ⟨ha, hkept.usable_of_mem hl _ (mem_outstanding ha) hn⟩)
    fun n t hn ht hlabel => ?_
  obtain ⟨hout, hconn⟩ := List.mem_filter.mp ht
  have hne : n ≠ m.serial.nextConn := of_decide_eq_true hconn ▸ hl.conn_ne_nextConn hout
  obtain ⟨p, post, hp, hpost, hsent, howe⟩ :=
    h.owed n t ((hkept.usable n hn).resolve_right hne) ht hlabel
  exact ⟨p, post, hp, hpost, hsent, (hresult n hn hne).symm ▸ howe⟩

/-- A new call of `fetch` has no result, and the others keep theirs. -/
theorem result_of_sends {cmd : Command} (hsend : Sends cfg m id cmd s)
    (hserial : m'.serial = s) : m'.result = m.result := by
  obtain ⟨data, args, hnew, -, rfl⟩ := hsend
  funext j
  rw [result, result, hserial, State.goto_calls, Function.update_apply]
  split_ifs with hj
  · rw [hj, hnew]
    rfl
  · rfl

/-- The calls there are go on when there is a new one. -/
theorem calls_of_sends {cmd : Command} (hsend : Sends cfg m id cmd s) {j : CallId} {d : Call}
    (hj : m.serial.calls j = some d) : s.calls j = some d := by
  obtain ⟨data, args, hnew, -, rfl⟩ := hsend
  have hne : j ≠ id := by
    rintro rfl
    cases hnew.symm.trans hj
  rw [State.goto_calls, Function.update_of_ne hne]
  exact hj

/-- A new call is one of its command. -/
theorem calls_or_of_sends {cmd : Command} (hsend : Sends cfg m id cmd s) {j : CallId} {d : Call}
    (hj : s.calls j = some d) :
    m.serial.calls j = some d ∨ j = id ∧ responseCodes d.args.message = cmd.label := by
  obtain ⟨data, args, hnew, hargs, rfl⟩ := hsend
  rw [State.goto_calls, Function.update_apply] at hj
  split_ifs at hj with hji
  · cases hj
    exact .inr ⟨hji, label_of_sendCommand hargs⟩
  · exact .inl hj

theorem serialKept_of_sends {cmd : Command} (hsend : Sends cfg m id cmd s) :
    m.SerialKept s := by
  have hresult : result { m with serial := s } = m.result := result_of_sends hsend rfl
  have hsame := sameAttempts_of_sends hsend
  refine ⟨fun j d hj => ⟨d, calls_of_sends hsend hj, rfl⟩, fun j frame => by rw [hresult],
    fun n hn => .inl ?_⟩
  obtain ⟨data, args, hnew, hargs, rfl⟩ := hsend
  exact hsame.usable rfl (fun hc => hc) hn

/-- A new call of `fetch` other than MC/DC. -/
theorem PostInv.sends (h : m.PostInv) (hl : m.LineInv cfg) {cmd : Command}
    (hsend : Sends cfg m id cmd s) (hcmd : cmd ≠ deadboltControl) :
    PostInv { m with serial := s } := by
  have hresult : result { m with serial := s } = m.result := result_of_sends hsend rfl
  refine h.of_serial hl (serialKept_of_sends hsend)
    (fun j d hj hlabel => ⟨d, ?_, rfl, fun hr => hresult ▸ hr⟩) fun _ _ _ => hresult
  exact (calls_or_of_sends hsend hj).resolve_right fun hnew =>
    hcmd (Command.label_injective (hnew.2.symm.trans hlabel))

theorem result_of_environment {act : Action}
    (hstep : IoBoard.Stepped cfg.serial m.serial act s) (hact : act.IsEnvironment) :
    result { m with serial := s } = m.result := by
  funext j
  rw [result, result, (calls_of_environment hstep (.inl hact)).2]

theorem serialKept_of_environment {act : Action}
    (hstep : IoBoard.Stepped cfg.serial m.serial act s) (hact : act.IsEnvironment) :
    m.SerialKept s := by
  have hcalls := (calls_of_environment hstep (.inl hact)).2
  have hresult := result_of_environment hstep hact
  refine ⟨fun j d hj => ⟨d, hcalls ▸ hj, rfl⟩, fun j frame => by rw [hresult],
    fun n hn => .inl ?_⟩
  have hsame : s.connection = m.serial.connection ∧
      ((s.conns n).closing = false → (m.serial.conns n).closing = false) := by
    cases hstep with
    | called | resumed | cancelledWaiting | cancelled | received => exact hact.elim
    | ticked => exact ⟨rfl, fun hn => hn⟩
    | closing | lost =>
        exact ⟨rfl, m.serial.setConn_rel
          (R := fun n n' => n'.closing = false → n.closing = false) (fun _ hn => hn)
          (fun hn => by cases hn) n⟩
  have hattempts : SameAttempts m.serial s := fun j d _ => by rw [hcalls]
  exact hattempts.usable hsame.1 hsame.2 hn

/-- Time passes, or a transport closes or is lost. -/
theorem PostInv.environment (h : m.PostInv) (hl : m.LineInv cfg) {act : Action}
    (hstep : IoBoard.Stepped cfg.serial m.serial act s) (hact : act.IsEnvironment) :
    PostInv { m with serial := s } := by
  have hcalls := (calls_of_environment hstep (.inl hact)).2
  have hresult := result_of_environment hstep hact
  exact h.of_serial hl (serialKept_of_environment hstep hact)
    (fun j d hj _ => ⟨d, hcalls ▸ hj, rfl, fun hr => hresult ▸ hr⟩) fun _ _ _ => hresult

/-- A resumption decides the result of its call only. -/
theorem result_of_resumed (hr : Resumed cfg.serial m.serial id c c.stage stage' s)
    (hserial : m'.serial = s) : m'.result = Function.update m.result id stage'.result := by
  funext j
  rw [result, hserial, hr.calls_eq, Function.update_apply, Function.update_apply]
  split_ifs <;> rfl

/-- The calls of a resumption are the ones there were. -/
theorem exists_of_resumed (hc : m.serial.calls id = some c)
    (hr : Resumed cfg.serial m.serial id c c.stage stage' s) (j : CallId) (d : Call) :
    (m.serial.calls j = some d → ∃ d', s.calls j = some d' ∧ d'.args = d.args) ∧
    (s.calls j = some d → ∃ d', m.serial.calls j = some d' ∧ d'.args = d.args) := by
  rw [hr.calls_eq]
  by_cases hj : j = id
  · subst hj
    rw [Function.update_self, hc]
    constructor <;> rintro ⟨⟩
    · exact ⟨_, rfl, rfl⟩
    · exact ⟨_, rfl, rfl⟩
  · rw [Function.update_of_ne hj]
    exact ⟨fun h => ⟨d, h, rfl⟩, fun h => ⟨d, h, rfl⟩⟩

theorem serialKept_of_resumed (hl : m.LineInv cfg) (hc : m.serial.calls id = some c)
    (hr : Resumed cfg.serial m.serial id c c.stage stage' s)
    (hok : ∀ frame, stage' ≠ .finished (.ok frame)) : m.SerialKept s := by
  refine ⟨fun j d => (exists_of_resumed hc hr j d).1, fun j frame => ?_,
    fun n hn => usable_of_resumed hl.serial hc hr hn⟩
  rw [result_of_resumed hr rfl, Function.update_apply]
  split_ifs with hji
  · subst hji
    rw [(result_eq hc).trans hr.result_eq_none]
    refine iff_of_false (fun heq => ?_) nofun
    cases stage' with
    | finished r =>
        obtain rfl := Option.some.inj heq
        exact hok frame rfl
    | _ => cases heq
  · rfl

/-- A resumption that gives its call no frame. -/
theorem PostInv.resumed (h : m.PostInv) (hl : m.LineInv cfg) (hc : m.serial.calls id = some c)
    (hr : Resumed cfg.serial m.serial id c c.stage stage' s)
    (hok : ∀ frame, stage' ≠ .finished (.ok frame))
    (hcancel : stage' ≠ .finished (.error .cancelledError)) :
    PostInv { m with serial := s } := by
  have hnone : m.result id = none := (result_eq hc).trans hr.result_eq_none
  have hresult : result { m with serial := s } = Function.update m.result id stage'.result :=
    result_of_resumed hr rfl
  refine h.of_serial hl (serialKept_of_resumed hl hc hr hok) (fun j d hj _ => ?_)
    fun n hn hne => ?_
  · obtain ⟨d', hd', hargs⟩ := (exists_of_resumed hc hr j d).2 hj
    refine ⟨d', hd', hargs, fun hj => ?_⟩
    rw [hresult, Function.update_apply] at hj
    split_ifs at hj with hji
    · exact hji ▸ hnone
    · exact hj
  · rw [hresult, Function.update_eq_self_iff, hnone]
    cases stage' with
    | finished r =>
        cases r with
        | ok frame => exact absurd rfl (hok frame)
        | error e =>
            refine absurd (not_usable_of_failed hl.serial hc hr ?_ hn) hne
            rintro rfl
            exact hcancel rfl
    | _ => rfl

/-- A transmission: an MC/DC frame is one of the request that waits for its call. -/
theorem PostInv.transmitted (h : m.PostInv) (hl : m.LineInv cfg) {a : Attempt}
    (hc : m.serial.calls id = some c)
    (hr : Resumed cfg.serial m.serial id c c.stage (.attempting a .flushing)
      (m.serial.transmit id c a)) :
    PostInv { m with
      serial := m.serial.transmit id c a
      requests := m.requests ++ [m.serial.txNow id c a]
      arrived := [] } := by
  have hnone : m.result id = none := (result_eq hc).trans hr.result_eq_none
  have hresult : result { m with
      serial := m.serial.transmit id c a
      requests := m.requests ++ [m.serial.txNow id c a]
      arrived := [] } = m.result := by
    rw [result_of_resumed hr rfl, Function.update_eq_self_iff, hnone]
    rfl
  have hkept : m.SerialKept (m.serial.transmit id c a) :=
    serialKept_of_resumed hl hc hr (by rintro frame ⟨⟩)
  refine h.of_quiet rfl rfl rfl hkept.calls (fun j e hj _ => ?_)
    (fun j frame => by rw [hresult]) (List.Sublist.refl _) (fun x hx hn => .inl ?_)
    fun n t hn ht hlabel => ?_
  · obtain ⟨d', hd', hargs⟩ := (exists_of_resumed hc hr j e).2 hj
    exact ⟨d', hd', hargs, fun hj => hresult ▸ hj⟩
  · have hx' : x ∈ m.arrived ++ m.line := List.mem_append_right _ hx
    exact ⟨hx', hkept.usable_of_mem hl _ (mem_outstanding hx') hn⟩
  · rw [hresult]
    obtain ⟨hout, hconn⟩ := List.mem_filter.mp ht
    have hout' : t ∈ m.outstanding ∨ t = m.serial.txNow id c a := by
      rcases List.mem_append.mp hout with ht | ht
      · obtain ⟨x, hx, rfl⟩ := List.mem_map.mp ht
        exact .inl (List.mem_append_left _ (List.mem_map_of_mem (List.mem_append_right _ hx)))
      · rcases List.mem_append.mp ht with ht | ht
        · exact .inl (List.mem_append_right _ ht)
        · exact .inr (List.mem_singleton.mp ht)
    rcases hout' with hold | rfl
    · obtain rfl : t.conn = n := of_decide_eq_true hconn
      exact h.owed t.conn t (hkept.usable_of_mem hl t hold hn)
        (List.mem_filter.mpr ⟨hold, hconn⟩) hlabel
    · obtain ⟨p, post, hp, hpost, hsent, hstage⟩ := h.sent_of_owner hc hnone rfl rfl hlabel
      refine ⟨p, post, hp, hpost, hsent, ?_⟩
      rw [hstage]
      intro e
      rw [hnone]
      exact nofun

/-- The first answer that has arrived is the one a call takes, and `taken` records it. -/
theorem LineInv.exists_taken (hl : m.LineInv cfg) {frame : Bytes}
    (hc : m.serial.calls id = some c)
    (hr : Resumed cfg.serial m.serial id c c.stage (.finished (.ok frame)) s) :
    ∃ x, m.arrived.head? = some x ∧ x.frame = frame ∧
      x.request.label = responseCodes c.args.message ∧ m.serial.Usable x.request.conn ∧
      x.request ∈ m.outstandingOn x.request.conn ∧ x ∈ m.arrived ++ m.line ∧
      x.request ∈ m.handled ∧
      ∀ y ∈ m.arrived.tail ++ m.line, Before m.handled x.request y.request := by
  obtain ⟨a, p, x, tail, hstage, hx, hframe, hconn, hlabel⟩ := hl.exists_arrived hc hr
  have hcached := usesCached_of_reachable hl.serial id c hc
  rw [hstage] at hcached
  have hordered := hl.ordered
  rw [hx] at hordered ⊢
  refine ⟨x, rfl, hframe, hlabel, ⟨hconn ▸ hcached, .inr ⟨id, c, hc, hstage ▸ trivial⟩⟩, ?_,
    List.mem_cons_self, hordered.subset List.mem_cons_self,
    fun y hy => before_of_sublist hordered (List.mem_map_of_mem hy)⟩
  refine List.mem_filter.mpr ⟨?_, decide_eq_true rfl⟩
  rw [outstanding, hx]
  exact List.mem_cons_self

/-- A state of `set_deadbolt` comes from a frame. -/
theorem exists_of_receiveDeadbolt {action : DeadboltAction} {fetched : Except PyExc Bytes}
    {state : DeadboltState} (h : receiveDeadbolt action fetched = .ok state) :
    ∃ frame, fetched = .ok frame := by
  cases fetched with
  | ok frame => exact ⟨frame, rfl⟩
  | error e => cases h

/-- A status of `get_status` comes from a frame. -/
theorem exists_of_receiveStatus {fetched : Except PyExc Bytes} {status : IOStatusData}
    (h : receiveStatus fetched = .ok status) : ∃ frame, fetched = .ok frame := by
  cases fetched with
  | ok frame => exact ⟨frame, rfl⟩
  | error e => cases h

/-- What a request knows once a call has taken its frame: `hcontrol` when it is the frame of its
`set_deadbolt`, `hconfirm` when it is one of its `get_status`. The two cases are the hypotheses that
the two developments of this module and `DeadboltRuns` prove differently. -/
theorem StageOk.accepted (hl : m.LineInv cfg) {frame : Bytes}
    (hc : m.serial.calls id = some c)
    (hr : Resumed cfg.serial m.serial id c c.stage (.finished (.ok frame)) s) {post : Post}
    (hok : m.StageOk C post)
    (hC : C m post → C { m with
      serial := s
      arrived := m.arrived.tail
      taken := Function.update m.taken id m.arrived.head? } post)
    (hcontrol : post.stage = .controlling id → post.control = some id →
      responseCodes c.args.message = deadboltControl.label → C { m with
        serial := s
        arrived := m.arrived.tail
        taken := Function.update m.taken id m.arrived.head? } post)
    (hconfirm : C m post → ∀ x ∈ m.arrived ++ m.line, m.serial.Usable x.request.conn →
      x.request.label ≠ deadboltControl.label → ∃ r, post.Sent r ∧ Before m.handled r x.request) :
    StageOk C { m with
      serial := s
      arrived := m.arrived.tail
      taken := Function.update m.taken id m.arrived.head? } post := by
  have hnone : m.result id = none := (result_eq hc).trans hr.result_eq_none
  have hresult : result { m with
      serial := s
      arrived := m.arrived.tail
      taken := Function.update m.taken id m.arrived.head? } =
        Function.update m.result id (some (.ok frame)) := result_of_resumed hr rfl
  rw [StageOk] at hok ⊢
  rw [hresult]
  generalize hstage : post.stage = stage at hok
  cases stage with
  | acquiring | failed => exact hok
  | controlling id₀ =>
      obtain ⟨hcontrols, c₀, hc₀, hlabel, hframe₀⟩ := hok
      obtain ⟨c', hc', hargs⟩ := (exists_of_resumed hc hr id₀ c₀).1 hc₀
      refine ⟨hcontrols, c', hc', hargs ▸ hlabel, fun f hf => ?_⟩
      rw [Function.update_apply] at hf
      split_ifs at hf with hid
      · subst hid
        cases hc.symm.trans hc₀
        exact hcontrol hstage hcontrols hlabel
      · exact hC (hframe₀ f hf)
  | settling | pausing => exact hC hok
  | verifying id₀ deadline =>
      obtain ⟨hctl, c₀, hc₀, hlabel, hframe₀⟩ := hok
      obtain ⟨c', hc', hargs⟩ := (exists_of_resumed hc hr id₀ c₀).1 hc₀
      refine ⟨hC hctl, c', hc', hargs ▸ hlabel, fun f hf => ?_⟩
      rw [Function.update_apply] at hf
      split_ifs at hf with hid
      · subst hid
        cases hc.symm.trans hc₀
        cases hf
        obtain ⟨x, hx, hframe, hxlabel, hxusable, -, hxmem, -⟩ := hl.exists_taken hc hr
        have hstatus : x.request.label = ioStatus.label := hxlabel.trans hlabel
        obtain ⟨r, hsent, hbefore⟩ := hconfirm hctl x hxmem hxusable fun hcontrols => by
          cases Command.label_injective (hstatus.symm.trans hcontrols)
        refine ⟨x, r, (Function.update_self ..).trans hx, hframe, ?_, hsent, hbefore⟩
        rw [← hframe]
        exact (hl.valid x hxmem).2.2.2 hstatus
      · exact (hframe₀ f hf).mono (List.Sublist.refl _) (Function.update_of_ne hid ..)
  | returned id₀ state =>
      obtain ⟨f, hf, hstate, hconf⟩ := hok
      have hid : id₀ ≠ id := by
        rintro rfl
        cases hnone.symm.trans hf
      exact ⟨f, (Function.update_of_ne hid ..).trans hf, hstate,
        hconf.mono (List.Sublist.refl _) (Function.update_of_ne hid ..)⟩

/-- The same for a request that knows that the board has handled one of its MC/DC frames: the
MC/DC frame whose answer its `set_deadbolt` takes is its own. -/
theorem PostInv.stageOk_of_accepted (h : m.PostInv) (hl : m.LineInv cfg) {frame : Bytes}
    (hc : m.serial.calls id = some c)
    (hr : Resumed cfg.serial m.serial id c c.stage (.finished (.ok frame)) s)
    {p : PostId} {post : Post} (hp : m.posts p = some post) :
    StageOk Controlled { m with
      serial := s
      arrived := m.arrived.tail
      taken := Function.update m.taken id m.arrived.head? } post := by
  refine StageOk.accepted hl hc hr (h.stageOk p post hp) (fun hctl => ?_)
    (fun hstage _ hlabel => ?_) fun hctl x hx hn hlabel => ?_
  · refine hctl.mono (List.Sublist.refl _) fun y hy hn => .inl ?_
    have hy' : y ∈ m.arrived ++ m.line :=
      ((List.tail_sublist _).append (List.Sublist.refl _)).subset hy
    exact ⟨hy', (usable_of_resumed hl.serial hc hr hn).resolve_right
      (hl.conn_ne_nextConn (List.mem_append_left _ (List.mem_map_of_mem hy')))⟩
  · obtain ⟨x, hx, hframe, hxlabel, hxusable, hxout, hxmem, hxhandled, hbefore⟩ :=
      hl.exists_taken hc hr
    obtain ⟨p', post', hp', hpost', hsent, -⟩ := h.owed _ _ hxusable hxout (hxlabel.trans hlabel)
    have hheld : m.operationLock = some p := h.locked p post hp (hstage ▸ trivial)
    obtain rfl := Option.some.inj (hheld.symm.trans hp')
    obtain rfl := Option.some.inj (hp.symm.trans hpost')
    exact ⟨x.request, hxhandled, hsent, fun y hy _ _ => hbefore y hy⟩
  · obtain ⟨r, -, hsent, hafter⟩ := hctl
    exact ⟨r, hsent, hafter x hx hn hlabel⟩

/-- **An accepted frame**: once a request has taken its RQ/ID answer, no answer to its MC/DC
frames is outstanding, since the line is uniform behind an accepted frame. -/
theorem PostInv.accepted (h : m.PostInv) (hl : m.LineInv cfg) {frame : Bytes}
    (hc : m.serial.calls id = some c)
    (hr : Resumed cfg.serial m.serial id c c.stage (.finished (.ok frame)) s) :
    PostInv { m with
      serial := s
      arrived := m.arrived.tail
      taken := Function.update m.taken id m.arrived.head? } := by
  have hresult : result { m with
      serial := s
      arrived := m.arrived.tail
      taken := Function.update m.taken id m.arrived.head? } =
        Function.update m.result id (some (.ok frame)) := result_of_resumed hr rfl
  have hout : ((m.arrived.tail ++ m.line).map (·.request) ++ m.requests).Sublist m.outstanding :=
    (((List.tail_sublist _).append (List.Sublist.refl _)).map _).append (List.Sublist.refl _)
  refine ⟨h.locked, fun p post hp => h.stageOk_of_accepted hl hc hr hp, fun j d hj hlabel => ?_,
    fun n t hn ht hlabel => ?_⟩
  · obtain ⟨d', hd', hargs⟩ := (exists_of_resumed hc hr j d).2 hj
    obtain ⟨p, post, hp, hcontrol, hstage⟩ := h.owner j d' hd' (hargs ▸ hlabel)
    refine ⟨p, post, hp, hcontrol, fun hnone => hstage ?_⟩
    rw [hresult, Function.update_apply] at hnone
    split_ifs at hnone
    exact hnone
  · -- the call is an MC/DC call too
    have hcontrols : responseCodes c.args.message = deadboltControl.label :=
      (hl.uniform_of_accepted hc hr hn t ht).symm.trans hlabel
    obtain ⟨ht, hconn⟩ := List.mem_filter.mp ht
    have hn' : m.serial.Usable n := by
      refine (usable_of_resumed hl.serial hc hr hn).resolve_right ?_
      exact of_decide_eq_true hconn ▸ hl.conn_ne_nextConn (hout.subset ht)
    obtain ⟨p, post, hp, hpost, hsent, howe⟩ :=
      h.owed n t hn' (List.mem_filter.mpr ⟨hout.subset ht, hconn⟩) hlabel
    refine ⟨p, post, hp, hpost, hsent, ?_⟩
    have hok := h.stageOk p post hpost
    rw [StageOk] at hok
    rw [hresult]
    generalize post.stage = stage at hok howe
    cases stage with
    | controlling id₀ =>
        intro e
        rw [Function.update_apply]
        split_ifs
        · exact nofun
        · exact howe e
    | settling => trivial
    | verifying id₀ deadline =>
        obtain ⟨-, c₀, hc₀, hstatus, -⟩ := hok
        have hid : id₀ ≠ id := by
          rintro rfl
          cases hc.symm.trans hc₀
          cases Command.label_injective (hcontrols.symm.trans hstatus)
        exact (Function.update_of_ne hid ..).trans howe
    | _ => exact howe

/-- An answer arrives. -/
theorem PostInv.delivered (h : m.PostInv) {x : Answer} {line : List Answer}
    (hx : m.line = x :: line) : PostInv { m with
      serial := m.serial.setConn x.request.conn
        ((m.serial.conns x.request.conn).feed x.frame)
      line := line
      arrived :=
        if m.serial.connection = some x.request.conn then m.arrived ++ [x] else m.arrived } := by
  have hsub := LineInv.delivered_sublist hx
  refine h.of_quiet rfl rfl rfl (fun j d hj => ⟨d, hj, rfl⟩)
    (fun j d hj _ => ⟨d, hj, rfl, fun hr => hr⟩) (fun _ _ => Iff.rfl) (List.Sublist.refl _)
    (fun y hy hn => .inl ⟨hsub.subset hy, usable_of_feed hn⟩) fun n t hn ht hlabel => ?_
  have hout := (hsub.map (·.request)).append (List.Sublist.refl m.requests)
  exact h.owed n t (usable_of_feed hn) ((hout.filter _).subset ht) hlabel

/-- What happens on the line and at the board: frames get lost, the board handles one and may
answer, and the order of what it has handled only grows. -/
theorem PostInv.handled (h : m.PostInv) {t : Tx} {requests : List Tx} {answers : List Answer}
    (hreq : m.requests = t :: requests) (ha : ∀ a ∈ answers, a.request = t)
    (hlen : answers.length ≤ 1) : PostInv { m with
      requests := requests
      handled := m.handled ++ [t]
      line := m.line ++ answers } := by
  refine h.of_sublist rfl rfl rfl rfl (List.sublist_append_left _ _) ?_ fun a hmem => ?_
  · rw [outstanding, outstanding, hreq]
    have hsub : (answers.map (·.request)).Sublist [t] := by
      rcases answers with - | ⟨a, - | ⟨b, rest⟩⟩
      · exact List.nil_sublist _
      · rw [List.map_singleton, ha a List.mem_cons_self]
      · simp at hlen
    simpa using (List.Sublist.refl (m.arrived.map (·.request))).append
      ((List.Sublist.refl (m.line.map (·.request))).append
        (hsub.append (List.Sublist.refl requests)))
  · rw [← List.append_assoc] at hmem
    rcases List.mem_append.mp hmem with hmem | hmem
    · exact .inl hmem
    · exact .inr fun r hr => ha a hmem ▸ before_concat hr t

/-! ### Steps of the requests -/

variable {p : PostId} {post : Post} {stage : PostStage}

@[simp] theorem setPost_posts : (m.setPost p post stage).posts =
    Function.update m.posts p (some { post with stage := stage }) :=
  rfl

/-- A new request. -/
theorem PostInv.posted (h : m.PostInv) (hnew : m.posts p = none) {action : DeadboltAction} :
    (m.setPost p { action := action } .acquiring).PostInv := by
  have hposts : ∀ q post', (m.setPost p { action := action } .acquiring).posts q = some post' →
      m.posts q = some post' ∨ post' = { action := action } := fun q post' hq => by
    rw [setPost_posts, Function.update_apply] at hq
    split_ifs at hq with hqp
    · exact .inr (Option.some.inj hq).symm
    · exact .inl hq
  have hold : ∀ q post', m.posts q = some post' →
      (m.setPost p { action := action } .acquiring).posts q = some post' := by
    rintro q post' hq
    refine (Function.update_of_ne ?_ ..).trans hq
    rintro rfl
    cases hnew.symm.trans hq
  refine ⟨fun q post' hq hactive => ?_, fun q post' hq => ?_, fun j d hj hlabel => ?_,
    fun n t hn ht hlabel => ?_⟩
  · rcases hposts q post' hq with hq | rfl
    · exact h.locked q post' hq hactive
    · exact hactive.elim
  · rcases hposts q post' hq with hq | rfl
    · exact h.stageOk q post' hq
    · rfl
  · obtain ⟨q, post', hq, howner⟩ := h.owner j d hj hlabel
    exact ⟨q, post', hold q post' hq, howner⟩
  · obtain ⟨q, post', hlock, hq, howe⟩ := h.owed n t hn ht hlabel
    exact ⟨q, post', hlock, hold q post' hq, howe⟩

/-- A request that has its lock goes on, and keeps the lock or leaves it. -/
theorem PostInv.moved (h : m.PostInv) (hp : m.posts p = some post) (hactive : post.stage.Active)
    (hresult : ∀ call, post.stage = .controlling call → m.result call ≠ none)
    (hok : m.StageOk Controlled { post with stage := stage }) {lock : Option PostId}
    (hlock : lock = some p ∨ lock = none ∧ ¬ stage.Active)
    (howe : ¬ m.ControlClear → post.stage.MayOwe m.result →
      lock = some p ∧ stage.MayOwe m.result) :
    PostInv { m.setPost p post stage with operationLock := lock } := by
  have hheld := h.locked p post hp hactive
  have hself : (m.setPost p post stage).posts p = some { post with stage := stage } :=
    Function.update_self ..
  have hothers : ∀ q, q ≠ p → (m.setPost p post stage).posts q = m.posts q := fun q hqp =>
    Function.update_of_ne hqp ..
  refine ⟨fun q post' hq hactive' => ?_, fun q post' hq => ?_, fun j d hj hlabel => ?_,
    fun n t hn ht hlabel => ?_⟩
  · by_cases hqp : q = p
    · subst hqp
      cases hself.symm.trans hq
      exact hlock.resolve_right fun hnone => hnone.2 hactive'
    · have hheld' := h.locked q post' ((hothers q hqp).symm.trans hq) hactive'
      exact absurd (Option.some.inj (hheld'.symm.trans hheld)) hqp
  · by_cases hqp : q = p
    · subst hqp
      cases hself.symm.trans hq
      exact hok
    · exact h.stageOk q post' ((hothers q hqp).symm.trans hq)
  · obtain ⟨q, post', hq, hcontrol, hstage⟩ := h.owner j d hj hlabel
    by_cases hqp : q = p
    · subst hqp
      cases hp.symm.trans hq
      exact ⟨q, _, hself, hcontrol, fun hnone => absurd hnone (hresult j (hstage hnone))⟩
    · exact ⟨q, post', (hothers q hqp).trans hq, hcontrol, hstage⟩
  · obtain ⟨q, post', hheld', hq, hsent, howe'⟩ := h.owed n t hn ht hlabel
    obtain rfl := Option.some.inj (hheld.symm.trans hheld')
    cases hp.symm.trans hq
    obtain ⟨hkeep, hmay⟩ := howe (fun hclear => hclear n t hn ht hlabel) howe'
    exact ⟨p, _, hkeep, hself, hsent, hmay⟩

/-- A request gets the lock and sends its MC/DC command. -/
theorem PostInv.acquired (h : m.PostInv) (hp : m.posts p = some post)
    (hstage : post.stage = .acquiring) (hfree : m.operationLock = none)
    (hsend : Sends cfg m id deadboltControl s) {engaged : Option (DeadboltState × ℚ)} :
    PostInv ({ m with
      serial := s
      operationLock := some p
      engaged := engaged }.setPost p { post with control := some id } (.controlling id)) := by
  set m₁ := { m with
    serial := s
    operationLock := some p
    engaged := engaged }.setPost p { post with control := some id } (.controlling id) with hm₁
  have hself : m₁.posts p = some { post with control := some id, stage := .controlling id } :=
    Function.update_self ..
  have hothers : ∀ q, q ≠ p → m₁.posts q = m.posts q := fun q hqp => Function.update_of_ne hqp ..
  have hresult : m₁.result = m.result := result_of_sends hsend rfl
  have husable : ∀ n, s.Usable n → m.serial.Usable n := by
    intro n hn
    have hsame := sameAttempts_of_sends hsend
    obtain ⟨data, args, hnew, hargs, rfl⟩ := hsend
    exact hsame.usable rfl (fun hc => hc) hn
  have hnone : m.result id = none := by
    obtain ⟨data, args, hnew, -, -⟩ := hsend
    rw [result, hnew, Option.bind_none]
  have hcontrol : post.control = none := by
    have hok := h.stageOk p post hp
    rwa [StageOk, hstage] at hok
  refine ⟨fun q post' hq hactive => ?_, fun q post' hq => ?_, fun j d hj hlabel => ?_,
    fun n t hn ht hlabel => ?_⟩
  · by_cases hqp : q = p
    · rw [hqp]
      rfl
    · have hheld := h.locked q post' ((hothers q hqp).symm.trans hq) hactive
      cases hheld.symm.trans hfree
  · by_cases hqp : q = p
    · subst hqp
      cases hself.symm.trans hq
      obtain ⟨data, args, hnew, hargs, hs⟩ := hsend
      refine ⟨rfl, ⟨args, .acquiring⟩, ?_, label_of_sendCommand hargs, fun frame hf => ?_⟩
      · exact (congrFun (congrArg State.calls hs) id).trans (Function.update_self ..)
      · rw [hresult, hnone] at hf
        cases hf
    · refine (h.stageOk q post' ((hothers q hqp).symm.trans hq)).mono
        (fun j d hj => ⟨d, calls_of_sends hsend hj, rfl⟩) (fun j frame => by rw [hresult]) rfl
        (List.Sublist.refl _)
        (Controlled.mono · (List.Sublist.refl _) fun a ha hn => .inl ⟨ha, husable _ hn⟩)
  · rcases calls_or_of_sends hsend hj with hj | ⟨rfl, -⟩
    · obtain ⟨q, post', hq, hcontrol', hstage'⟩ := h.owner j d hj hlabel
      have hqp : q ≠ p := by
        rintro rfl
        cases hp.symm.trans hq
        cases hcontrol.symm.trans hcontrol'
      exact ⟨q, post', (hothers q hqp).trans hq, hcontrol', fun hr => hstage' (hresult ▸ hr)⟩
    · exact ⟨p, _, hself, rfl, fun _ => rfl⟩
  · obtain ⟨q, -, hheld, -⟩ := h.owed n t (husable n hn) ht hlabel
    cases hheld.symm.trans hfree

/-- A request sends its RQ/ID command. -/
theorem PostInv.asked (h : m.PostInv) (hl : m.LineInv cfg) (hp : m.posts p = some post)
    {deadline : ℚ} (hstage : (∃ wake, post.stage = .settling wake) ∨
      ∃ wake, post.stage = .pausing wake deadline) (hsend : Sends cfg m id ioStatus s) :
    PostInv ({ m with serial := s }.setPost p post (.verifying id deadline)) := by
  have hsent : PostInv { m with serial := s } := h.sends hl hsend nofun
  have hnone : result { m with serial := s } id = none := by
    rw [result_of_sends hsend rfl]
    obtain ⟨data, args, hnew, -, -⟩ := hsend
    rw [result, hnew, Option.bind_none]
  have hactive : post.stage.Active := by
    obtain ⟨wake, hstage⟩ | ⟨wake, hstage⟩ := hstage <;> exact hstage ▸ trivial
  have hcontrolled : Controlled { m with serial := s } post := by
    have hok := hsent.stageOk p post hp
    rw [StageOk] at hok
    obtain ⟨wake, hstage⟩ | ⟨wake, hstage⟩ := hstage <;> rwa [hstage] at hok
  obtain ⟨data, args, hnew, hargs, hs⟩ := hsend
  have hcall : s.calls id = some ⟨args, .acquiring⟩ :=
    (congrFun (congrArg State.calls hs) id).trans (Function.update_self ..)
  have hok : StageOk Controlled { m with serial := s }
      { post with stage := .verifying id deadline } := by
    refine ⟨hcontrolled, _, hcall, label_of_sendCommand hargs, fun frame hf => ?_⟩
    cases hnone.symm.trans hf
  have hheld : m.operationLock = some p := hsent.locked p post hp hactive
  refine hsent.moved hp hactive (fun call hcall => ?_) hok (.inl hheld) fun _ _ => ⟨hheld, hnone⟩
  obtain ⟨wake, hstage⟩ | ⟨wake, hstage⟩ := hstage <;> cases hstage.symm.trans hcall

/-- A request that goes on or ends when its call has a result, and keeps the lock or leaves it. -/
theorem PostInv.answered (h : m.PostInv) (stage : PostStage) (hp : m.posts p = some post)
    {call : CallId} {fetched : Except PyExc Bytes} (hresult : m.result call = some fetched)
    (hstage : post.stage = .controlling call ∨ ∃ deadline, post.stage = .verifying call deadline)
    (hok : m.StageOk Controlled { post with stage := stage }) {lock : Option PostId}
    (hlock : lock = m.operationLock ∨ lock = none ∧ ¬ stage.Active)
    (howe : ¬ m.ControlClear → post.stage.MayOwe m.result →
      lock = some p ∧ stage.MayOwe m.result) :
    PostInv { m.setPost p post stage with operationLock := lock } := by
  have hactive : post.stage.Active := by
    obtain hstage | ⟨deadline, hstage⟩ := hstage <;> exact hstage ▸ trivial
  refine h.moved hp hactive (fun call' hcall' => ?_) hok
    (hlock.imp_left fun hlock => hlock.trans (h.locked p post hp hactive)) howe
  obtain hstage | ⟨deadline, hstage⟩ := hstage
  · cases hstage.symm.trans hcall'
    rw [hresult]
    exact Option.some_ne_none _
  · cases hstage.symm.trans hcall'

/-- Every step of a request keeps the invariant, where a request whose `set_deadbolt` cannot
parse its frame leaves no MC/DC answer behind. -/
theorem PostInv.resumedPost (h : m.PostInv) (hl : m.LineInv cfg) (hp : m.posts p = some post)
    (hstep : PostStepped cfg m p post id post.stage m')
    (hclear : ∀ call frame e, post.stage = .controlling call →
      m.result call = some (.ok frame) → receiveDeadbolt post.action (.ok frame) = .error e →
      m.ControlClear) : m'.PostInv := by
  have hok := h.stageOk p post hp
  rw [StageOk] at hok
  have hmay : ∀ call deadline fetched, m.result call = some fetched →
      post.stage = .verifying call deadline → ¬ post.stage.MayOwe m.result := by
    intro call deadline fetched hresult hstage howe
    rw [hstage] at howe
    cases hresult.symm.trans howe
  generalize hstage : post.stage = stage at hstep hok
  cases hstep with
  | acquired hfree hsend => exact h.acquired hp hstage hfree hsend
  | asked hasked hsend => exact h.asked hl hp (hstage ▸ hasked) hsend
  | @controlled call fetched state hresult hreceived =>
      obtain ⟨-, c, -, -, hframe⟩ := hok
      obtain ⟨frame, rfl⟩ := exists_of_receiveDeadbolt hreceived
      have hheld : m.operationLock = some p := h.locked p post hp (hstage ▸ trivial)
      exact h.answered (.settling _) hp hresult (.inl hstage) (hframe frame hresult) (.inl rfl)
        fun _ _ => ⟨hheld, trivial⟩
  | @controlFailed call fetched e hresult herror =>
      refine h.answered (.failed e) hp hresult (.inl hstage) trivial
        (.inr ⟨rfl, fun hactive => hactive⟩) fun hleft howe => ?_
      rw [hstage] at howe
      cases fetched with
      | ok frame => exact absurd (hclear call frame e hstage hresult herror) hleft
      | error e => exact absurd hresult (howe e)
  | @verified call deadline fetched status hresult hreceived =>
      obtain ⟨-, c, -, -, hframe⟩ := hok
      obtain ⟨frame, rfl⟩ := exists_of_receiveStatus hreceived
      have hstatus : (receiveStatus (.ok frame)).toOption.map (·.deadbolt) =
          some status.deadbolt := by
        rw [hreceived]
        rfl
      exact h.answered (.returned call _) hp hresult (.inr ⟨deadline, hstage⟩)
        ⟨frame, hresult, hstatus, hframe frame hresult⟩ (.inr ⟨rfl, fun hactive => hactive⟩)
        fun _ howe => absurd howe (hmay call deadline _ hresult hstage)
  | @paused call deadline fetched status hresult hreceived =>
      exact h.answered (.pausing _ _) hp hresult (.inr ⟨deadline, hstage⟩) hok.1 (.inl rfl)
        fun _ howe => absurd howe (hmay call deadline _ hresult hstage)
  | @verifyFailed call deadline fetched e hresult herror =>
      exact h.answered (.failed e) hp hresult (.inr ⟨deadline, hstage⟩) trivial
        (.inr ⟨rfl, fun hactive => hactive⟩)
        fun _ howe => absurd howe (hmay call deadline _ hresult hstage)

/-- A request that is cancelled while it waits for the lock. -/
theorem PostInv.withdrawn (h : m.PostInv) (hp : m.posts p = some post)
    (hstage : post.stage = .acquiring) {e : PyExc} : (m.setPost p post (.failed e)).PostInv := by
  have hcontrol : post.control = none := by
    have hok := h.stageOk p post hp
    rwa [StageOk, hstage] at hok
  have hself : (m.setPost p post (.failed e)).posts p = some { post with stage := .failed e } :=
    Function.update_self ..
  have hothers : ∀ q, q ≠ p → (m.setPost p post (.failed e)).posts q = m.posts q :=
    fun q hqp => Function.update_of_ne hqp ..
  refine ⟨fun q post' hq hactive => ?_, fun q post' hq => ?_, fun j d hj hlabel => ?_,
    fun n t hn ht hlabel => ?_⟩
  · by_cases hqp : q = p
    · subst hqp
      cases hself.symm.trans hq
      exact hactive.elim
    · exact h.locked q post' ((hothers q hqp).symm.trans hq) hactive
  · by_cases hqp : q = p
    · subst hqp
      cases hself.symm.trans hq
      trivial
    · exact h.stageOk q post' ((hothers q hqp).symm.trans hq)
  · -- it has sent no MC/DC command, and owes no answer
    obtain ⟨q, post', hq, hcontrol', howner⟩ := h.owner j d hj hlabel
    have hqp : q ≠ p := by
      rintro rfl
      cases hp.symm.trans hq
      cases hcontrol.symm.trans hcontrol'
    exact ⟨q, post', (hothers q hqp).trans hq, hcontrol', howner⟩
  · obtain ⟨q, post', hheld, hq, hsent, howe⟩ := h.owed n t hn ht hlabel
    have hqp : q ≠ p := by
      rintro rfl
      cases hp.symm.trans hq
      cases hcontrol.symm.trans hsent.1
    exact ⟨q, post', hheld, (hothers q hqp).trans hq, hsent, howe⟩

/-- A request that is cancelled in a sleep, where it leaves no MC/DC answer behind. -/
theorem PostInv.cancelledPost (h : m.PostInv) (hp : m.posts p = some post)
    (hstage : (∃ wake, post.stage = .settling wake) ∨
      ∃ wake deadline, post.stage = .pausing wake deadline)
    (hclear : ∀ wake, post.stage = .settling wake → m.ControlClear) {e : PyExc} :
    (m.leave p post (.failed e)).PostInv := by
  have hactive : post.stage.Active := by
    obtain ⟨wake, hstage⟩ | ⟨wake, deadline, hstage⟩ := hstage <;> exact hstage ▸ trivial
  have hok : m.StageOk Controlled { post with stage := .failed e } := trivial
  refine h.moved hp hactive (fun call hcall => ?_) hok
    (.inr ⟨rfl, fun hactive => hactive⟩) fun hleft howe => ?_
  · obtain ⟨wake, hstage⟩ | ⟨wake, deadline, hstage⟩ := hstage <;> cases hstage.symm.trans hcall
  · obtain ⟨wake, hstage⟩ | ⟨wake, deadline, hstage⟩ := hstage
    · exact absurd (hclear wake hstage) hleft
    · rw [hstage] at howe
      exact howe.elim

end Machine

/-! ### Runs -/

/-- Every step that meets `ReleasesClear` keeps the invariant of the requests, by the cases of
`Machine.Stepped`. -/
theorem Machine.PostInv.step (h : m.PostInv) (hl : m.LineInv cfg) {act : MachineAction}
    (hclear : m.ReleasesClear act) (hstep : Machine.Stepped cfg m act m') : m'.PostInv := by
  cases hstep with
  | sent hsend hc => exact h.sends hl hsend hc
  | environment henv hact => exact h.environment hl henv hact
  | resumed hc hr htx hok hcancel => exact h.resumed hl hc hr hok hcancel
  | transmitted hc hstage hr => exact h.transmitted hl hc hr
  | accepted hc hr => exact h.accepted hl hc hr
  | lostRequest hreq =>
      refine h.of_sublist rfl rfl rfl rfl (List.Sublist.refl _) ?_ fun a ha => .inl ha
      rw [Machine.outstanding, Machine.outstanding, hreq]
      exact (List.Sublist.refl _).append (List.sublist_cons_self _ _)
  | unanswered hreq =>
      have hhandled := h.handled hreq (List.forall_mem_nil _) (Nat.zero_le 1)
      rwa [List.append_nil] at hhandled
  | answered hreq hv =>
      exact h.handled hreq (List.forall_mem_singleton.mpr rfl) (Nat.le_refl 1)
  | lostAnswer hline =>
      have hsub : (m.arrived ++ _).Sublist (m.arrived ++ m.line) :=
        (List.Sublist.refl _).append (hline ▸ List.sublist_cons_self _ _)
      exact h.of_sublist rfl rfl rfl rfl (List.Sublist.refl _)
        ((hsub.map _).append (List.Sublist.refl _)) fun a ha => .inl (hsub.subset ha)
  | delivered hline => exact h.delivered hline
  | moved =>
      exact h.of_sublist rfl rfl rfl rfl (List.Sublist.refl _) (List.Sublist.refl _)
        fun a ha => .inl ha
  | posted hnew => exact h.posted hnew
  | resumedPost hp hpost => exact h.resumedPost hl hp hpost (hclear _ · · · hp)
  | withdrawn hp hstage => exact h.withdrawn hp hstage
  | cancelledPost hp hstage => exact h.cancelledPost hp hstage (hclear _ · hp)

/-- **The invariant of the requests holds in every run of such steps.** It goes along with that
of the line. -/
theorem postInv_of_reaches (h : Reaches (Machine.step cfg) Machine.ReleasesClear {} m) :
    m.PostInv := by
  refine h.induct (P := Machine.PostInv) ?_ fun m act m' hm ih hclear hstep =>
    ih.step (lineInv_of_reachable (hm.mono fun _ _ _ => trivial)) hclear
      (machineStepped_of_step hstep)
  exact ⟨fun _ _ hp => (by cases hp), fun _ _ hp => (by cases hp), fun _ _ hc => (by cases hc),
    fun _ _ hn => (by cases hn.1)⟩

end IoBoard
