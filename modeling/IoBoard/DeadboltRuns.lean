import IoBoard.Deadbolt

/-!
# Deadbolt Verification in Runs

When the state that `POST /deadbolt` returns is younger than its own MC/DC command, however
late the answers come. There are two ways in which it is, and a run in which it is not.

## The two conditions

`ReleasesClear` is about the service: no request gives the operation lock up between its MC/DC
command and its first status while an answer to MC/DC can still be read. Then the MC/DC answer
that a request takes is one to its own frame, which the board has handled.

`KeepsControls` is about the line: no MC/DC frame is lost on its way to the board. Then a
request may take the MC/DC answer of another one. Its own MC/DC frame is still on its way, but
ahead of its RQ/ID frames, and nothing but MC/DC answers and requests are ahead of it: what
comes back before the board has handled it is no answer to RQ/ID. Neither the operation lock
nor the parse of the MC/DC answer matters here.

Where neither holds this fails: in `surplusRun` a request is cancelled in its settle time
with an answer to its second MC/DC frame on the line, the MC/DC frame of the next request gets
lost, and that request takes the left-over answer and returns what RQ/ID says.

## Main results

* `keptInv_of_reaches`: what the requests know in every run of `KeepsControls`.
* `deadbolt_verified`: **the returned state is that of the bolt at a moment after the board
  had handled an MC/DC frame of the same request**, in every run of either kind.
-/

open Fifo Runs

namespace IoBoard

variable {cfg : Settings} {m m' : Machine} {act : MachineAction}

/-- No MC/DC frame is lost on its way to the board. -/
def Machine.KeepsControls (m : Machine) : MachineAction → Prop
  | .loseRequest => ∀ t ∈ m.requests.head?, t.label ≠ deadboltControl.label
  | _ => True

instance (m : Machine) (act : MachineAction) : Decidable (m.KeepsControls act) :=
  match act with
  | .loseRequest =>
      inferInstanceAs (Decidable (∀ t ∈ m.requests.head?, t.label ≠ deadboltControl.label))
  | .command .. | .resume .. | .tick _ | .closing _ | .connectionLost .. | .handle _
  | .loseAnswer | .deliver | .move _ | .post .. | .resumePost .. | .cancelPost _ =>
      .isTrue trivial

/-- An MC/DC frame of the request is on its way to the board, and nothing is ahead of it but
MC/DC frames and their answers. -/
def Machine.Underway (m : Machine) (post : Post) : Prop :=
  ∃ r pre suf, m.requests = pre ++ r :: suf ∧ post.Sent r ∧
    ∀ t ∈ (m.arrived ++ m.line).map (·.request) ++ pre, m.serial.Usable t.conn →
      t.label = deadboltControl.label

/-- An MC/DC frame of the request precedes all requests of other commands whose answers can
still be read: the board has handled it already, or it is on its way with nothing but MC/DC
ahead of it. -/
def Machine.Led (m : Machine) (post : Post) : Prop :=
  m.Controlled post ∨ m.Underway post

/-- What holds of the requests while no MC/DC frame is lost on its way to the board. Neither the
operation lock nor the owners of the answers are part of it. -/
structure Machine.KeptInv (m : Machine) : Prop where
  stageOk : ∀ p post, m.posts p = some post → m.StageOk Led post
  /-- The board handles every MC/DC frame. -/
  kept : ∀ t ∈ m.serial.transmissions, t.label = deadboltControl.label →
    t ∈ m.handled ∨ t ∈ m.requests

namespace Machine

variable {post : Post}

/-! ### What is ahead of a frame -/

/-- What a request knows stays while answers get lost and requests join the end of the line. -/
theorem Led.mono (h : m.Led post) (hhandled : m'.handled = m.handled)
    (hanswers : ∀ a ∈ m'.arrived ++ m'.line, a ∈ m.arrived ++ m.line)
    (hrequests : ∃ more, m'.requests = m.requests ++ more)
    (husable : ∀ t ∈ m.outstanding, m'.serial.Usable t.conn → m.serial.Usable t.conn) :
    m'.Led post := by
  rcases h with hctl | ⟨r, pre, suf, hr, hsent, hahead⟩
  · exact .inl (hctl.mono (hhandled ▸ List.Sublist.refl _) fun a ha hn =>
      .inl ⟨hanswers a ha, husable _ (mem_outstanding (hanswers a ha)) hn⟩)
  · obtain ⟨more, hmore⟩ := hrequests
    refine .inr ⟨r, pre, suf ++ more, by rw [hmore, hr]; simp, hsent, fun t ht hn => ?_⟩
    rcases List.mem_append.mp ht with ht | ht
    · obtain ⟨a, ha, rfl⟩ := List.mem_map.mp ht
      have ha' := hanswers a ha
      exact hahead _ (List.mem_append_left _ (List.mem_map_of_mem ha'))
        (husable _ (mem_outstanding ha') hn)
    · have hout : t ∈ m.outstanding := by
        rw [outstanding, hr]
        exact List.mem_append_right _ (List.mem_append_left _ ht)
      exact hahead t (List.mem_append_right _ ht) (husable t hout hn)

/-- A request other than MC/DC gets lost on its way. -/
theorem Led.lost (h : m.Led post) {t : Tx} {requests : List Tx} (hreq : m.requests = t :: requests)
    (ht : t.label ≠ deadboltControl.label) : Led { m with requests := requests } post := by
  rcases h with hctl | ⟨r, pre, suf, hr, hsent, hahead⟩
  · exact .inl hctl
  · obtain ⟨rfl, heq⟩ | ⟨pre', rfl, rfl⟩ := List.cons_eq_append_iff.mp (hreq.symm.trans hr)
    · obtain ⟨rfl, -⟩ := List.cons.inj heq
      exact absurd hsent.2 ht
    · exact .inr ⟨r, pre', suf, rfl, hsent, fun u hu => hahead u
        (((List.Sublist.refl _).append (List.sublist_cons_self _ _)).subset hu)⟩

/-- The board handles a request. Where it is the MC/DC frame itself, all that can still be read
is behind it; where it is another one ahead of it, it is MC/DC. -/
theorem Led.handled (h : m.Led post) {t : Tx} {requests : List Tx} {answers : List Answer}
    (hreq : m.requests = t :: requests) (ha : ∀ a ∈ answers, a.request = t) :
    Led { m with
      requests := requests
      handled := m.handled ++ [t]
      line := m.line ++ answers } post := by
  have hsplit : ∀ a ∈ m.arrived ++ (m.line ++ answers),
      a ∈ m.arrived ++ m.line ∨ a.request = t := by
    intro a hmem
    rw [← List.append_assoc] at hmem
    exact (List.mem_append.mp hmem).imp_right (ha a)
  rcases h with hctl | ⟨r, pre, suf, hr, hsent, hahead⟩
  · refine .inl (hctl.mono (List.sublist_append_left _ _) fun a hmem hn => ?_)
    refine (hsplit a hmem).imp (fun hmem => ⟨hmem, hn⟩) fun hat r hr => ?_
    rw [hat]
    exact before_concat hr t
  · obtain ⟨rfl, heq⟩ | ⟨pre', rfl, rfl⟩ := List.cons_eq_append_iff.mp (hreq.symm.trans hr)
    · -- it is the frame itself: what can be read are answers to MC/DC
      obtain ⟨rfl, -⟩ := List.cons.inj heq
      refine .inl ⟨r, List.mem_append_right _ (List.mem_singleton_self r), hsent,
        fun a hmem hn hlabel => absurd ?_ hlabel⟩
      rcases hsplit a hmem with hmem | hat
      · exact hahead _ (List.mem_append_left _ (List.mem_map_of_mem hmem)) hn
      · exact hat ▸ hsent.2
    · refine .inr ⟨r, pre', suf, rfl, hsent, fun u hu hn => ?_⟩
      rcases List.mem_append.mp hu with hu | hu
      · obtain ⟨a, hmem, rfl⟩ := List.mem_map.mp hu
        rcases hsplit a hmem with hmem | hat
        · exact hahead _ (List.mem_append_left _ (List.mem_map_of_mem hmem)) hn
        · rw [hat] at hn ⊢
          exact hahead t (List.mem_append_right _ List.mem_cons_self) hn
      · exact hahead u (List.mem_append_right _ (List.mem_cons_of_mem _ hu)) hn

/-! ### Steps -/

variable {id : CallId} {c : Call} {stage' : Stage} {s : State}

/-- Steps that leave the requests alone, in which no call gets a frame. -/
theorem KeptInv.of_quiet (h : m.KeptInv) (hposts : m'.posts = m.posts)
    (htaken : m'.taken = m.taken) (hkept : m.SerialKept m'.serial)
    (hhandled : m.handled.Sublist m'.handled) (hled : ∀ post, m.Led post → m'.Led post)
    (htx : ∀ t ∈ m'.serial.transmissions, t.label = deadboltControl.label →
      t ∈ m'.handled ∨ t ∈ m'.requests) : m'.KeptInv :=
  ⟨fun p post hp => (h.stageOk p post (hposts ▸ hp)).mono hkept.calls hkept.ok htaken hhandled
    (hled post), htx⟩

/-- A step of the serial layer alone, in which no call gets a frame. -/
theorem KeptInv.of_serial (h : m.KeptInv) (hl : m.LineInv cfg) (hkept : m.SerialKept s)
    (htx : s.transmissions = m.serial.transmissions) : KeptInv { m with serial := s } :=
  h.of_quiet rfl rfl hkept (List.Sublist.refl _)
    (fun _ hled => hled.mono rfl (fun _ ha => ha) ⟨[], (List.append_nil _).symm⟩
      (hkept.usable_of_mem hl)) fun t ht => h.kept t (htx ▸ ht)

/-- The call that gets the frame of an MC/DC answer has sent an MC/DC frame. -/
theorem exists_sent_of_accepted (hl : m.LineInv cfg) {frame : Bytes}
    (hc : m.serial.calls id = some c)
    (hr : Resumed cfg.serial m.serial id c c.stage (.finished (.ok frame)) s)
    (hlabel : responseCodes c.args.message = deadboltControl.label) :
    ∃ t ∈ m.serial.transmissions, t.call = id ∧ t.label = deadboltControl.label := by
  obtain ⟨a, p, x, tail, hstage, -⟩ := hl.exists_arrived hc hr
  have hframe := frameInv_of_reachable hl.serial id c hc
  have hlog := logInv_of_reachable hl.serial
  generalize hst : c.stage = stage at hr
  cases progress_of_resumed hr with
  | outside _ _ hok => exact absurd rfl (hok frame)
  | @accepted a response d b rest =>
      rw [FrameOk, hst] at hframe
      obtain ⟨t, ht, -⟩ := hframe response rfl
      obtain ⟨hmem, hcall⟩ := List.mem_filter.mp (List.mem_of_getLast? ht)
      obtain rfl := of_decide_eq_true hcall
      obtain ⟨c', hc', hmessage, -⟩ := hlog.args t hmem
      obtain rfl := Option.some.inj (hc.symm.trans hc')
      exact ⟨t, hmem, rfl, by rw [Tx.label, hmessage, hlabel]⟩

/-- An accepted frame: behind it, all that can be read are answers of its command. -/
theorem KeptInv.accepted (h : m.KeptInv) (hl : m.LineInv cfg) {frame : Bytes}
    (hc : m.serial.calls id = some c)
    (hr : Resumed cfg.serial m.serial id c c.stage (.finished (.ok frame)) s) :
    KeptInv { m with
      serial := s
      arrived := m.arrived.tail
      taken := Function.update m.taken id m.arrived.head? } := by
  set m₁ := { m with
    serial := s
    arrived := m.arrived.tail
    taken := Function.update m.taken id m.arrived.head? } with hm₁
  have hsub : (m.arrived.tail ++ m.line).Sublist (m.arrived ++ m.line) :=
    (List.tail_sublist _).append (List.Sublist.refl _)
  have htx : s.transmissions = m.serial.transmissions := by
    obtain htx | ⟨_, _, -, hflushing, -⟩ := hr.transmissions_cases
    · exact htx
    · cases hflushing
  refine ⟨fun p post hp => StageOk.accepted hl hc hr (h.stageOk p post hp) (fun hled => ?_)
    (fun _ hcontrol hlabel => ?_) fun hled x hx hn hlabel => ?_, fun t ht => h.kept t (htx ▸ ht)⟩
  · exact hled.mono rfl (fun a ha => hsub.subset ha) ⟨[], (List.append_nil _).symm⟩
      fun t ht hn => (usable_of_resumed hl.serial hc hr hn).resolve_right (hl.conn_ne_nextConn ht)
  · -- one of the MC/DC frames of the call has been handled, or is on its way
    obtain ⟨t, ht, rfl, hcontrols⟩ := exists_sent_of_accepted hl hc hr hlabel
    have huniform : ∀ u ∈ m₁.outstanding, s.Usable u.conn → u.label = deadboltControl.label :=
      fun u hu hn => (hl.uniform_of_accepted hc hr hn u
        (List.mem_filter.mpr ⟨hu, decide_eq_true rfl⟩)).trans hlabel
    rcases h.kept t ht hcontrols with hhandled | hrequested
    · exact .inl ⟨t, hhandled, ⟨hcontrol, hcontrols⟩, fun a ha hn hother =>
        absurd (huniform _ (mem_outstanding ha) hn) hother⟩
    · obtain ⟨pre, suf, hsplit⟩ := List.append_of_mem hrequested
      refine .inr ⟨t, pre, suf, hsplit, ⟨hcontrol, hcontrols⟩, fun u hu => huniform u ?_⟩
      have hsplit' : m₁.requests = pre ++ t :: suf := hsplit
      rw [outstanding, hsplit']
      exact ((List.Sublist.refl _).append (List.sublist_append_left _ _)).subset hu
  · rcases hled with ⟨r, -, hsent, hafter⟩ | ⟨r, pre, suf, -, -, hahead⟩
    · exact ⟨r, hsent, hafter x hx hn hlabel⟩
    · exact absurd (hahead _ (List.mem_append_left _ (List.mem_map_of_mem hx)) hn) hlabel

/-- What happens to one request alone. -/
theorem KeptInv.moved (h : m.KeptInv) {p : PostId} (post' : Post) (hok : m.StageOk Led post')
    {lock : Option PostId} {engaged : Option (DeadboltState × ℚ)} :
    KeptInv { m with
      posts := Function.update m.posts p (some post')
      operationLock := lock
      engaged := engaged } := by
  refine ⟨fun q post hq => ?_, h.kept⟩
  obtain ⟨rfl, rfl⟩ | ⟨-, hq⟩ := update_eq_some.mp hq
  · exact hok
  · exact h.stageOk q post hq

/-- Every step of a request keeps the invariant. -/
theorem KeptInv.resumedPost (h : m.KeptInv) (hl : m.LineInv cfg) {p : PostId}
    (hp : m.posts p = some post) (hstep : PostStepped cfg m p post id post.stage m') :
    m'.KeptInv := by
  have hok := h.stageOk p post hp
  have hsends : ∀ {cmd s}, Sends cfg m id cmd s → KeptInv { m with serial := s } := by
    intro cmd s hsend
    have htx : s.transmissions = m.serial.transmissions := by
      obtain ⟨data, args, -, -, rfl⟩ := hsend
      rfl
    exact h.of_serial hl (serialKept_of_sends hsend) htx
  have hnew : ∀ {cmd s}, Sends cfg m id cmd s → ∃ c, s.calls id = some c ∧
      responseCodes c.args.message = cmd.label ∧
      ∀ frame, result { m with serial := s } id ≠ some (.ok frame) := by
    rintro cmd s ⟨data, args, hnone, hargs, rfl⟩
    have hcall : (m.serial.goto id ⟨args, .acquiring⟩ .acquiring).calls id =
        some ⟨args, .acquiring⟩ := Function.update_self ..
    refine ⟨_, hcall, label_of_sendCommand hargs, fun frame hf => ?_⟩
    cases (result_eq (m := { m with serial := _ }) hcall).symm.trans hf
  rw [StageOk] at hok
  generalize hstage : post.stage = stage at hstep hok
  cases hstep with
  | acquired hfree hsend =>
      obtain ⟨c, hc, hlabel, hnone⟩ := hnew hsend
      exact (hsends hsend).moved { post with control := some id, stage := .controlling id }
        ⟨rfl, c, hc, hlabel, fun frame hf => absurd hf (hnone frame)⟩
  | @asked stage deadline s hasked hsend =>
      have hled := (hsends hsend).stageOk p post hp
      have hled : Led { m with serial := s } post := by
        rw [StageOk, hstage] at hled
        obtain ⟨wake, rfl⟩ | ⟨wake, rfl⟩ := hasked <;> exact hled
      obtain ⟨c, hc, hlabel, hnone⟩ := hnew hsend
      exact (hsends hsend).moved { post with stage := .verifying id deadline }
        ⟨hled, c, hc, hlabel, fun frame hf => absurd hf (hnone frame)⟩
  | @controlled call fetched state hresult hreceived =>
      obtain ⟨-, c, -, -, hframe⟩ := hok
      obtain ⟨frame, rfl⟩ := exists_of_receiveDeadbolt hreceived
      exact h.moved { post with stage := .settling _ } (hframe frame hresult)
  | @verified call deadline fetched status hresult hreceived =>
      obtain ⟨-, c, -, -, hframe⟩ := hok
      obtain ⟨frame, rfl⟩ := exists_of_receiveStatus hreceived
      have hstatus : (receiveStatus (.ok frame)).toOption.map (·.deadbolt) =
          some status.deadbolt := by
        rw [hreceived]
        rfl
      exact h.moved { post with stage := .returned call status.deadbolt }
        ⟨frame, hresult, hstatus, hframe frame hresult⟩
  | paused => exact h.moved { post with stage := .pausing _ _ } hok.1
  | controlFailed | verifyFailed =>
      exact h.moved { post with stage := .failed _ } trivial

/-- Every step in which no MC/DC frame is lost on its way to the board keeps the invariant. -/
theorem KeptInv.step (h : m.KeptInv) (hl : m.LineInv cfg) (hkeeps : m.KeepsControls act)
    (hstep : Stepped cfg m act m') : m'.KeptInv := by
  have hsame : ∀ {s : State}, s.calls = m.serial.calls → (∀ n, s.Usable n → m.serial.Usable n) →
      m.SerialKept s := fun hcalls husable =>
    ⟨fun j d hj => ⟨d, hcalls ▸ hj, rfl⟩, fun j frame => by rw [result, result, hcalls],
      fun n hn => .inl (husable n hn)⟩
  have hself : m.SerialKept m.serial := hsame rfl fun _ hn => hn
  cases hstep with
  | sent hsend hc =>
      refine h.of_serial hl (serialKept_of_sends hsend) ?_
      obtain ⟨data, args, -, -, rfl⟩ := hsend
      rfl
  | environment henv hact =>
      refine h.of_serial hl (serialKept_of_environment henv hact) ?_
      cases henv with
      | called | resumed | cancelledWaiting | cancelled | received => exact hact.elim
      | ticked | closing | lost => rfl
  | resumed hc hr htx hok => exact h.of_serial hl (serialKept_of_resumed hl hc hr hok) htx
  | @transmitted id _ c a d hc hstage hr =>
      have hkept := serialKept_of_resumed hl hc hr (by simp)
      refine h.of_quiet rfl rfl hkept (List.Sublist.refl _)
        (fun _ hled => hled.mono rfl (fun x hx => List.mem_append_right _ hx) ⟨_, rfl⟩
          (hkept.usable_of_mem hl)) fun t ht hlabel => ?_
      rw [State.transmit_transmissions] at ht
      rcases List.mem_append.mp ht with ht | ht
      · exact (h.kept t ht hlabel).imp_right (List.mem_append_left _)
      · exact .inr (List.mem_append_right _ ht)
  | accepted hc hr => exact h.accepted hl hc hr
  | @lostRequest t requests hreq =>
      have hother : t.label ≠ deadboltControl.label := hkeeps t (by rw [hreq]; rfl)
      refine h.of_quiet rfl rfl hself (List.Sublist.refl _) (fun _ hled => hled.lost hreq hother)
        fun u hu hlabel => (h.kept u hu hlabel).imp_right fun hmem => ?_
      rw [hreq] at hmem
      exact (List.mem_cons.mp hmem).resolve_left fun hut => hother (hut ▸ hlabel)
  | @unanswered t requests hreq =>
      refine h.of_quiet rfl rfl hself (List.sublist_append_left _ _) (fun post hled => ?_)
        fun u hu hlabel => ?_
      · have hhandled := hled.handled hreq (List.forall_mem_nil _)
        rwa [List.append_nil] at hhandled
      · have hmem := h.kept u hu hlabel
        rw [hreq] at hmem
        simpa [or_assoc] using hmem
  | @answered t requests frame hreq hv =>
      refine h.of_quiet rfl rfl hself (List.sublist_append_left _ _)
        (fun post hled => hled.handled hreq (List.forall_mem_singleton.mpr rfl))
        fun u hu hlabel => ?_
      have hmem := h.kept u hu hlabel
      rw [hreq] at hmem
      simpa [or_assoc] using hmem
  | lostAnswer hline =>
      have hsub : (m.arrived ++ _).Sublist (m.arrived ++ m.line) :=
        (List.Sublist.refl _).append (hline ▸ List.sublist_cons_self _ _)
      exact h.of_quiet rfl rfl hself (List.Sublist.refl _)
        (fun _ hled => hled.mono rfl (fun a ha => hsub.subset ha) ⟨[], (List.append_nil _).symm⟩
          fun _ _ hn => hn) h.kept
  | delivered hline =>
      exact h.of_quiet rfl rfl (hsame rfl fun n hn => usable_of_feed hn) (List.Sublist.refl _)
        (fun _ hled => hled.mono rfl (fun a ha => (LineInv.delivered_sublist hline).subset ha)
          ⟨[], (List.append_nil _).symm⟩ fun _ _ hn => usable_of_feed hn) h.kept
  | moved =>
      exact h.of_quiet rfl rfl hself (List.Sublist.refl _) (fun _ hled => hled) h.kept
  | posted hnew => exact h.moved { action := _ } rfl
  | resumedPost hp hpost => exact h.resumedPost hl hp hpost
  | @withdrawn p post | @cancelledPost p post =>
      exact h.moved { post with stage := .failed _ } trivial

end Machine

/-! ### Runs -/

/-- **The invariant holds in every run in which no MC/DC frame is lost on its way.** -/
theorem keptInv_of_reaches (h : Reaches (Machine.step cfg) Machine.KeepsControls {} m) :
    m.KeptInv := by
  refine h.induct (P := Machine.KeptInv) ?_ fun m act m' hm ih hkeeps hstep =>
    ih.step (lineInv_of_reachable (hm.mono fun _ _ _ => trivial)) hkeeps
      (machineStepped_of_step hstep)
  exact ⟨fun _ _ hp => (by cases hp), List.forall_mem_nil _⟩

/-- **Fresh deadbolt verification.** In every run of the service and the board, however late
the answers come and however many of them are left over, in which no request gives the
operation lock up between its MC/DC command and its first status while an MC/DC answer can
still be read, or in which no MC/DC frame is lost on its way to the board, the frame from which
a `POST /deadbolt` request takes the state it returns was produced by the board after it had
handled an MC/DC frame of the same request, and reports the bolt at that moment. -/
theorem deadbolt_verified
    (h : Reaches (Machine.step cfg) Machine.ReleasesClear {} m ∨
      Reaches (Machine.step cfg) Machine.KeepsControls {} m)
    {p : PostId} {post : Post} {call : CallId} {state : DeadboltState}
    (hp : m.posts p = some post) (hs : post.stage = .returned call state) :
    ∃ frame a r, m.result call = some (.ok frame) ∧
      (receiveStatus (.ok frame)).toOption.map (·.deadbolt) = some state ∧
      m.taken call = some a ∧ a.frame = frame ∧ a.bolt = state ∧
      post.Sent r ∧ Before m.handled r a.request := by
  have hreturned : ∃ frame, m.result call = some (.ok frame) ∧
      (receiveStatus (.ok frame)).toOption.map (·.deadbolt) = some state ∧
      m.Confirmed post call frame := by
    rcases h with h | h
    · have hok := (postInv_of_reaches h).stageOk p post hp
      rwa [Machine.StageOk, hs] at hok
    · have hok := (keptInv_of_reaches h).stageOk p post hp
      rwa [Machine.StageOk, hs] at hok
  obtain ⟨frame, hresult, hstate, a, r, ha, hframe, hbolt, hsent, hbefore⟩ := hreturned
  exact ⟨frame, a, r, hresult, hstate, ha, hframe, Option.some.inj (hbolt.symm.trans hstate),
    hsent, hbefore⟩

/-- An answer to MC/DC OPEN. -/
def controlAnswer : Bytes := [2, 77, 67, 68, 67, 79, 3, 69]

/-- An answer to RQ/ID: the door is closed, and the bolt unlocked. -/
def statusAnswer : Bytes :=
  [2, 82, 81, 73, 68, 67, 76, 79, 83, 69, 68, 85, 78, 76, 79, 67, 75, 3, 15]

/-- A `POST /deadbolt` request whose first MC/DC frame is answered late: `set_deadbolt` takes
that answer for the one to its second frame, and the answer to the second frame is still on the
line when the settle time is over. -/
def settledRun : List MachineAction :=
  [.post 0 .open, .resumePost 0 0, .resume 0 .ready, .resume 0 .ready, .resume 0 .ready,
    .resume 0 .ready, .resume 0 .ready, .tick (1 / 20), .resume 0 .timedOut, .resume 0 .ready,
    .handle (some controlAnswer), .tick 1, .resume 0 .timedOut, .tick 1, .resume 0 .ready,
    .resume 0 .ready, .resume 0 .ready, .tick (1 / 20), .resume 0 .timedOut, .resume 0 .ready,
    .move .unlock, .handle (some controlAnswer), .deliver, .resume 0 .ready, .resume 0 .ready,
    .resume 0 .ready, .resumePost 0 1, .tick 1]

/-- The request goes on: the answer to its second frame reaches `get_status`, which drops it
and asks again. -/
def lateRun : List MachineAction :=
  settledRun ++
  [.resumePost 0 1, .resume 1 .ready, .resume 1 .ready, .resume 1 .ready, .resume 1 .ready,
    .tick (1 / 20), .resume 1 .timedOut, .resume 1 .ready, .handle (some statusAnswer), .deliver,
    .resume 1 .ready, .resume 1 .ready, .resume 1 .ready, .tick 1, .resume 1 .ready,
    .resume 1 .ready, .resume 1 .ready, .tick (1 / 20), .resume 1 .timedOut, .resume 1 .ready,
    .deliver, .resume 1 .ready, .resume 1 .ready, .resume 1 .ready, .resumePost 0 2]

theorem lateRun_isSome : (runIn (Machine.step {}) Machine.KeepsControls {} lateRun).isSome := by
  decide +kernel

/-- The state that `lateRun` ends in. -/
def lateState : Machine :=
  (runIn (Machine.step {}) Machine.KeepsControls {} lateRun).get lateRun_isSome

theorem lateState_reaches : Reaches (Machine.step {}) Machine.KeepsControls {} lateState :=
  reaches_get_in lateRun_isSome

theorem lateState_posts : lateState.posts 0 = some ⟨.open, some 0, .returned 1 .unlock⟩ := by
  decide +kernel

/-- The state that is returned at the end of `lateRun`. -/
theorem deadbolt_verified_lateRun :
    ∃ frame a r, lateState.result 1 = some (.ok frame) ∧
      (receiveStatus (.ok frame)).toOption.map (·.deadbolt) = some .unlock ∧
      lateState.taken 1 = some a ∧ a.frame = frame ∧ a.bolt = .unlock ∧
      Post.Sent ⟨.open, some 0, .returned 1 .unlock⟩ r ∧
      Before lateState.handled r a.request :=
  deadbolt_verified (.inr lateState_reaches) lateState_posts rfl

/-- The request is cancelled in its settle time instead, and the next one gets the lock. Its
MC/DC frame gets lost, the answer to the second frame of the cancelled request arrives, and
RQ/ID is answered. -/
def surplusRun : List MachineAction :=
  settledRun ++
  [.cancelPost 0, .post 1 .open, .resumePost 1 1, .resume 1 .ready, .resume 1 .ready,
    .resume 1 .ready, .resume 1 .ready, .tick (1 / 20), .resume 1 .timedOut, .resume 1 .ready,
    .loseRequest, .deliver, .resume 1 .ready, .resume 1 .ready, .resume 1 .ready,
    .resumePost 1 2, .tick 1, .resumePost 1 2, .resume 2 .ready, .resume 2 .ready,
    .resume 2 .ready, .resume 2 .ready, .tick (1 / 20), .resume 2 .timedOut, .resume 2 .ready,
    .handle (some statusAnswer), .deliver, .resume 2 .ready, .resume 2 .ready, .resume 2 .ready,
    .resumePost 1 3]

theorem surplusRun_isSome : (runFrom (Machine.step {}) {} surplusRun).isSome := by
  decide +kernel

/-- The state that `surplusRun` ends in. -/
def surplusState : Machine := (runFrom (Machine.step {}) {} surplusRun).get surplusRun_isSome

theorem surplusState_posts :
    surplusState.posts 1 = some ⟨.open, some 1, .returned 2 .unlock⟩ := by
  decide +kernel

theorem surplusState_handled : surplusState.handled.map Tx.call = [0, 0, 2] := by
  decide +kernel

/-- At the end of `surplusRun` a request has returned a state, and the board has handled no
MC/DC frame of it. The frame from which it took that state is the answer to its RQ/ID, as the
bolt was then, but from before any of its own MC/DC frames. -/
theorem surplusRun_unverified :
    ¬ ∀ m : Machine, m.Reachable {} → ∀ p post call state, m.posts p = some post →
      post.stage = .returned call state →
      ∃ a r, m.taken call = some a ∧ post.Sent r ∧ Before m.handled r a.request := by
  intro hall
  obtain ⟨a, r, -, hsent, hbefore⟩ :=
    hall surplusState (reaches_get surplusRun_isSome) 1 _ 2 .unlock surplusState_posts rfl
  have hmem : r.call ∈ surplusState.handled.map Tx.call :=
    List.mem_map_of_mem (hbefore.subset List.mem_cons_self)
  have hcall : r.call = 1 := (Option.some.inj hsent.1).symm
  rw [surplusState_handled, hcall] at hmem
  exact absurd hmem (by decide)

end IoBoard
