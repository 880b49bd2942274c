import IoBoard.MachineSteps
import IoBoard.Lib.Fifo

/-!
# The Line

What is on the line between the service and the board, in every run of the machine. An
answer is outstanding while it can still be read: its request is on the way to the board, or
it is itself on the way back, or it has arrived since the last transmission.

## The invariant

The fields of `Machine.LineInv` say three things.

* *Order.* The board handles requests in their order and answers come back in theirs, so the
  requests of the outstanding answers are a sublist of what the board has handled.
* *Bytes.* What a call has read since its last transmission, and what it finds in the buffer,
  are the frames that have arrived since, one after the other. So a frame that it cuts off the
  input is one of the answers, and not a piece of two.
* *Labels.* Between two transactions all outstanding answers of the connection carry one label,
  that of the last accepted frame. During a transaction those with another label come first.
  This is the use of a labelled line in the sense of `IoBoard.Lib.Fifo`, with the calls as its
  owners, and it holds because a call that gives up closes its connection.

From these it follows which answer a call takes: the first that has arrived since its last
transmission. It carries the right label, or the call would have discarded it.

## Main results

* `lineInv_of_reachable`: the invariant holds in every run.
* `LineInv.exists_arrived`: **the frame that a call accepts is the first answer that has
  arrived since its last transmission**.
* `LineInv.uniform_of_accepted`: behind it the line is uniform.
-/

open Fifo Framing Runs

namespace IoBoard

variable {cfg : Settings} {m m' : Machine}

/-! ### Reading answers -/

/-- What follows a frame is not read with it. -/
theorem readFrame_append {xs response rest : Bytes} (h : readFrame xs = some (response, rest))
    (ys : Bytes) : readFrame (xs ++ ys) = some (response, rest ++ ys) := by
  obtain ⟨b, body, lrc, hbody, rfl, rfl⟩ := readFrame_eq_some_iff.mp h
  exact readFrame_eq_some_iff.mpr ⟨b, body, lrc, hbody, rfl, by simp⟩

/-- A complete frame that is read from a list of answers is the first of them, for every answer is a
complete frame and no more. -/
theorem exists_eq_cons_of_read {answers : List Answer}
    (hv : ∀ a ∈ answers, readFrame a.frame = some (a.frame, [])) {response rest : Bytes}
    {b : UInt8} (hshape : ∃ b body, ETX ∉ body ∧ response = b :: body ++ [ETX])
    (h : answers.flatMap (·.frame) = response ++ b :: rest) :
    ∃ a tail, answers = a :: tail ∧ a.frame = response ++ [b] := by
  obtain ⟨b₀, body, hbody, rfl⟩ := hshape
  have hread : readFrame (b₀ :: body ++ [ETX] ++ b :: rest) =
      some (b₀ :: body ++ [ETX] ++ [b], rest) :=
    readFrame_eq_some_iff.mpr ⟨b₀, body, b, hbody, by simp, by simp⟩
  cases answers with
  | nil => simp at h
  | cons a tail =>
      refine ⟨a, tail, rfl, ?_⟩
      have hfirst := readFrame_append (hv a List.mem_cons_self) (tail.flatMap (·.frame))
      rw [← List.flatMap_cons, h, hread] at hfirst
      exact (Prod.mk.inj (Option.some.inj hfirst)).1.symm

/-- A request that is built carries the codes of its command. -/
theorem label_of_sendCommand {minGap : ℚ} {c : Command} {data : RequestDict} {args : FetchArgs}
    (h : sendCommand minGap c data = .ok args) : responseCodes args.message = c.label := by
  refine responseCodes_eq_command_iff.mpr ⟨args.message.drop 5, ?_⟩
  rw [← take_sendCommand h, List.take_append_drop]

/-! ### Outstanding answers -/

/-- The requests whose answers can still be read, oldest first. A request counts before it is
handled: its answer is still to come. -/
def Machine.outstanding (m : Machine) : List Tx :=
  (m.arrived ++ m.line).map (·.request) ++ m.requests

/-- Those of one connection, to which alone the answer comes back. -/
def Machine.outstandingOn (m : Machine) (n : ConnId) : List Tx :=
  m.outstanding.filter (·.conn = n)

theorem outstandingOn_sublist (h : m'.outstanding.Sublist m.outstanding) (n : ConnId) :
    (m'.outstandingOn n).Sublist (m.outstandingOn n) :=
  h.filter _

/-- The invariant of the line. It is about every connection that is usable; of the others
nothing is read. -/
structure Machine.LineInv (cfg : Settings) (m : Machine) : Prop where
  serial : IoBoard.Reachable cfg.serial m.serial
  /-- Every call waits for the codes of its own message. -/
  expects : ∀ id c, m.serial.calls id = some c → ∃ cmd : Command,
    c.args.expectedCommand = some cmd.cmd ∧ c.args.expectedSubcommand = some cmd.subcmd ∧
    responseCodes c.args.message = cmd.label
  /-- Answers come back in the order in which the board has handled the requests. -/
  ordered : ((m.arrived ++ m.line).map (·.request)).Sublist m.handled
  valid : ∀ a ∈ m.arrived ++ m.line, validAnswer a.bolt a.request.message a.frame
  sent : ∀ t ∈ m.outstanding, t ∈ m.serial.transmissions
  /-- What a call reads are the answers that have arrived since its last transmission. -/
  reading : ∀ id c a p response, m.serial.calls id = some c → c.stage = .attempting a p →
    p.response = some response → (m.serial.conns a.conn).exception = none →
    m.arrived.flatMap (·.frame) = response ++ (m.serial.conns a.conn).buffer ∧
      ∀ x ∈ m.arrived, x.request.conn = a.conn
  /-- Between two transactions all outstanding answers carry one label. -/
  idle : ∀ n, m.serial.Usable n → ¬ m.serial.Busy → ∃ k, Uniform Tx.label k (m.outstandingOn n)
  /-- During a transaction the answers to its own requests come last. -/
  busy : ∀ id c a p, m.serial.calls id = some c → c.stage = .attempting a p →
    ∃ k, Mixed Tx.label k (responseCodes c.args.message) (m.outstandingOn a.conn)

namespace Machine.LineInv

/-- Nothing is outstanding on a connection that is not open yet. -/
theorem conn_ne_nextConn (h : m.LineInv cfg) {t : Tx} (ht : t ∈ m.outstanding) :
    t.conn ≠ m.serial.nextConn :=
  (conn_lt_of_mem_transmissions h.serial t (h.sent t ht)).ne

theorem outstandingOn_nextConn (h : m.LineInv cfg) :
    m.outstandingOn m.serial.nextConn = [] :=
  List.filter_eq_nil_iff.mpr fun _ ht => by simpa using h.conn_ne_nextConn ht

/-- What happens to the tasks alone leaves the line as it is. -/
theorem congr (h : m.LineInv cfg) (hserial : m'.serial = m.serial)
    (harrived : m'.arrived = m.arrived) (hline : m'.line = m.line)
    (hrequests : m'.requests = m.requests) (hhandled : m'.handled = m.handled) :
    m'.LineInv cfg := by
  have hout : m'.outstanding = m.outstanding := by
    rw [outstanding, harrived, hline, hrequests, outstanding]
  refine ⟨hserial ▸ h.serial, hserial ▸ h.expects, ?_, ?_, ?_, ?_, ?_, ?_⟩
  · rw [harrived, hline, hhandled]; exact h.ordered
  · rw [harrived, hline]; exact h.valid
  · rw [hout, hserial]; exact h.sent
  · rw [hserial, harrived]; exact h.reading
  · simp only [outstandingOn, hout, hserial]; exact h.idle
  · simp only [outstandingOn, hout, hserial]; exact h.busy

/-- The line loses frames, or the board handles them. -/
theorem of_sublist (h : m.LineInv cfg) (hserial : m'.serial = m.serial)
    (harrived : m'.arrived = m.arrived) (hout : m'.outstanding.Sublist m.outstanding)
    (hordered : ((m'.arrived ++ m'.line).map (·.request)).Sublist m'.handled)
    (hvalid : ∀ a ∈ m'.line, a ∈ m.line ∨ validAnswer a.bolt a.request.message a.frame) :
    m'.LineInv cfg := by
  refine ⟨hserial ▸ h.serial, hserial ▸ h.expects, hordered, ?_, ?_, ?_, ?_, ?_⟩
  · intro a ha
    rw [harrived] at ha
    rcases List.mem_append.mp ha with ha | ha
    · exact h.valid a (List.mem_append_left _ ha)
    · exact (hvalid a ha).elim (fun ha => h.valid a (List.mem_append_right _ ha)) id
  · rw [hserial]
    exact fun t ht => h.sent t (hout.subset ht)
  · rw [hserial, harrived]; exact h.reading
  · rw [hserial]
    exact fun n hn hb => (h.idle n hn hb).imp fun k hk => hk.sublist (outstandingOn_sublist hout n)
  · rw [hserial]
    exact fun id c a p hc hs =>
      (h.busy id c a p hc hs).imp fun k hk => hk.sublist (outstandingOn_sublist hout a.conn)

/-! ### Steps of the serial layer -/

variable {id : CallId} {c : Call} {stage' : Stage} {s : State}

/-- A resumed call is the only one that can be in an attempt. -/
theorem not_isAttempt_of_ne (h : m.LineInv cfg) (hc : m.serial.calls id = some c)
    (hr : Resumed cfg.serial m.serial id c c.stage stage' s) {j : CallId} {d : Call}
    (hji : j ≠ id) (hd : m.serial.calls j = some d) : ¬ d.stage.isAttempt := fun hd' =>
  (owned_of_reachable h.serial).others hc hr hd hji (Stage.isCritical_of_isAttempt hd')

/-- A property of the calls in an attempt is one of the resumed call. -/
theorem forall_attempts (h : m.LineInv cfg) (hc : m.serial.calls id = some c)
    (hr : Resumed cfg.serial m.serial id c c.stage stage' s)
    {P : CallId → Call → Attempt → Phase → Prop}
    (hP : ∀ a p, stage' = .attempting a p → P id ⟨c.args, stage'⟩ a p) :
    ∀ j d a p, s.calls j = some d → d.stage = .attempting a p → P j d a p := by
  rw [hr.calls_eq]
  intro j d a p hj hd
  rcases update_eq_some.mp hj with ⟨rfl, rfl⟩ | ⟨hji, hj⟩
  · exact hP a p hd
  · exact absurd (hd ▸ trivial) (h.not_isAttempt_of_ne hc hr hji hj)

/-- The calls wait for the codes of their messages. -/
theorem expects_of_resumed (h : m.LineInv cfg) (hc : m.serial.calls id = some c)
    (hr : Resumed cfg.serial m.serial id c c.stage stage' s) :
    ∀ j d, s.calls j = some d → ∃ cmd : Command,
      d.args.expectedCommand = some cmd.cmd ∧ d.args.expectedSubcommand = some cmd.subcmd ∧
      responseCodes d.args.message = cmd.label := by
  rw [hr.calls_eq]
  exact forall_calls_update (P := fun _ d => ∃ cmd : Command,
    d.args.expectedCommand = some cmd.cmd ∧ d.args.expectedSubcommand = some cmd.subcmd ∧
    responseCodes d.args.message = cmd.label) (h.expects id c hc) fun j d _ hj => h.expects j d hj

/-- Between two transactions before a resumption, or on a connection that it has opened. -/
theorem uniform_of_started (h : m.LineInv cfg) (hc : m.serial.calls id = some c)
    (hr : Resumed cfg.serial m.serial id c c.stage stage' s) (hstage : ¬ c.stage.isAttempt)
    {n : ConnId} (hn : m.serial.Usable n ∨ n = m.serial.nextConn) :
    ∃ k, Uniform Tx.label k (m.outstandingOn n) := by
  rcases hn with hn | rfl
  · refine h.idle n hn ?_
    rintro ⟨j, d, hj, hd⟩
    by_cases hji : j = id
    · subst hji
      cases hc.symm.trans hj
      exact hstage hd
    · exact h.not_isAttempt_of_ne hc hr hji hj hd
  · refine ⟨none, ?_⟩
    rw [h.outstandingOn_nextConn]
    exact List.forall_mem_nil _

/-- A resumption that neither transmits nor accepts a frame. -/
theorem resumed (h : m.LineInv cfg) (hc : m.serial.calls id = some c)
    (hr : Resumed cfg.serial m.serial id c c.stage stage' s) (hs : IoBoard.Reachable cfg.serial s)
    (htx : s.transmissions = m.serial.transmissions)
    (hok : ∀ frame, stage' ≠ .finished (.ok frame))
    (hcancel : stage' ≠ .finished (.error .cancelledError)) :
    LineInv cfg { m with serial := s } := by
  have huses := (usesCached_of_reachable h.serial id c hc).resumed hr
  have hidle : ¬ stage'.isAttempt → ¬ s.Busy :=
    not_busy_of_resumed (owned_of_reachable h.serial) hc hr
  have hused := hr.conns_used
  refine ⟨hs, h.expects_of_resumed hc hr, h.ordered, h.valid, fun t ht => htx ▸ h.sent t ht,
    fun j d a p response hj hd => ?_, fun n hn hbusy => ?_, ?_⟩
  · refine h.forall_attempts hc hr (P := fun _ _ a p => ∀ response, p.response = some response →
      (s.conns a.conn).exception = none → m.arrived.flatMap (·.frame) =
        response ++ (s.conns a.conn).buffer ∧ ∀ x ∈ m.arrived, x.request.conn = a.conn)
      (fun a p hstage response hp he => ?_) j d a p hj hd response
    subst hstage
    have hreading := h.reading id c
    generalize c.stage = stage at hr hreading
    cases progress_of_resumed hr with
    | outside _ h' => exact absurd trivial h'
    | started => cases hp
    | @kept a₀ p₀ _ _ _ hconn hread =>
        obtain ⟨response₀, hp₀, hbuf⟩ := hread response hp
        rw [hconn] at he ⊢
        rw [hbuf]
        exact hreading a₀ p₀ response₀ hc rfl hp₀ ((hused _).exception.symm.trans he)
    | transmitted => simp at htx
  · have hstart := h.uniform_of_started hc hr (n := n)
    have husable := usable_of_resumed h.serial hc hr hn
    generalize hstage : c.stage = stage at hr hstart
    cases progress_of_resumed hr with
    | outside h' => exact hstart h' husable
    | started | kept | transmitted =>
        have hcall := congrFun hr.calls_eq id
        rw [Function.update_self] at hcall
        exact absurd ⟨id, _, hcall, trivial⟩ hbusy
    | accepted => exact absurd rfl (hok _)
    | failed hclosing =>
        obtain ⟨hcached, hlive⟩ := hn
        obtain rfl := Option.some.inj (huses.1.symm.trans hcached)
        rw [huses.2] at hlive
        cases hlive.resolve_right hbusy
    | cancelled => exact absurd rfl hcancel
  · refine h.forall_attempts hc hr (P := fun _ d a _ => ∃ k, Mixed Tx.label k
      (responseCodes d.args.message) (m.outstandingOn a.conn)) fun a p hstage => ?_
    subst hstage
    have hbusy := h.busy id c
    have hstart := h.uniform_of_started hc hr
    generalize c.stage = stage at hr hbusy hstart
    cases progress_of_resumed hr with
    | outside _ h' => exact absurd trivial h'
    | @started _ n _ h' hn =>
        have hn' := hn.imp_left fun hn => (⟨hn.1, .inl hn.2⟩ : m.serial.Usable n)
        exact (hstart h' hn').imp fun k hk => hk.mixed _
    | kept hconn => exact hconn ▸ hbusy _ _ hc rfl
    | transmitted => simp at htx

/-- A transmission: what has arrived before it is not read any more, and the request joins the
end of what is outstanding. -/
theorem transmitted (h : m.LineInv cfg) {a : Attempt} {d : ℚ}
    (hc : m.serial.calls id = some c) (hstage : c.stage = .attempting a (.draining d))
    (hr : Resumed cfg.serial m.serial id c c.stage (.attempting a .flushing)
      (m.serial.transmit id c a))
    (hs : IoBoard.Reachable cfg.serial (m.serial.transmit id c a)) :
    LineInv cfg { m with
      serial := m.serial.transmit id c a
      requests := m.requests ++ [m.serial.txNow id c a]
      arrived := [] } := by
  have hline : (m.line.map (·.request)).Sublist ((m.arrived ++ m.line).map (·.request)) :=
    (List.sublist_append_right _ _).map _
  have hout : (m.line.map (·.request) ++ m.requests).Sublist m.outstanding :=
    hline.append (List.Sublist.refl _)
  have hconn := usesCached_of_reachable h.serial id c hc
  refine ⟨hs, h.expects_of_resumed hc hr, hline.trans h.ordered,
    fun x hx => h.valid x (List.mem_append_right _ hx), fun t ht => ?_, ?_, fun n _ hbusy => ?_, ?_⟩
  · rw [State.transmit_transmissions]
    rcases List.mem_append.mp ht with ht | ht
    · exact List.mem_append_left _ (h.sent t (hout.subset (List.mem_append_left _ ht)))
    · rcases List.mem_append.mp ht with ht | ht
      · exact List.mem_append_left _ (h.sent t (hout.subset (List.mem_append_right _ ht)))
      · exact List.mem_append_right _ ht
  · intro j e b p response hj hd
    refine h.forall_attempts hc hr (P := fun _ _ b p => ∀ response, p.response = some response →
      (m.serial.conns b.conn).exception = none →
      ([] : List Answer).flatMap (·.frame) = response ++ (m.serial.conns b.conn).buffer ∧
        ∀ x ∈ ([] : List Answer), x.request.conn = b.conn)
      (fun b p hb response hp he => ?_) j e b p hj hd response
    cases hb
    cases hp
    refine ⟨?_, List.forall_mem_nil _⟩
    rw [hstage] at hr
    cases progress_of_resumed hr with
    | outside hout => exact absurd trivial hout
    | transmitted hempty => rw [hempty.resolve_right fun hne => hne he]; rfl
    | kept _ hread => obtain ⟨_, hdraining, -⟩ := hread [] rfl; cases hdraining
  · have hcall := congrFun hr.calls_eq id
    rw [Function.update_self] at hcall
    exact absurd ⟨id, _, hcall, trivial⟩ hbusy
  · refine h.forall_attempts hc hr (P := fun _ d b _ => ∃ k, Mixed Tx.label k
      (responseCodes d.args.message)
      (((m.line.map (·.request)) ++ (m.requests ++ [m.serial.txNow id c a])).filter
        (·.conn = b.conn))) fun b p hb => ?_
    cases hb
    obtain ⟨k, hk⟩ := h.busy id c a _ hc hstage
    refine ⟨k, ?_⟩
    rw [← List.append_assoc, List.filter_append, List.filter_singleton]
    have hsublist := hk.sublist (hout.filter (·.conn = a.conn))
    simpa [State.txNow] using hsublist.send (x := m.serial.txNow id c a) rfl

/-- **The frame that a call accepts is the first answer that has arrived since its last
transmission**, and carries its label. -/
theorem exists_arrived (h : m.LineInv cfg) {frame : Bytes}
    (hc : m.serial.calls id = some c)
    (hr : Resumed cfg.serial m.serial id c c.stage (.finished (.ok frame)) s) :
    ∃ a p x tail, c.stage = .attempting a p ∧ m.arrived = x :: tail ∧ x.frame = frame ∧
      x.request.conn = a.conn ∧ x.request.label = responseCodes c.args.message := by
  have hshaped := shaped_of_reachable h.serial id c hc
  have hreading := h.reading id c
  obtain ⟨cmd, hcmd, hsub, hlabel⟩ := h.expects id c hc
  generalize c.stage = stage at hr hshaped hreading
  cases progress_of_resumed hr with
  | outside _ _ hok => exact absurd rfl (hok frame)
  | @accepted a response d b rest _ he hb ha =>
      obtain ⟨harrived, hconn⟩ := hreading a _ response hc rfl rfl he
      rw [hb] at harrived
      obtain ⟨x, tail, hx, hframe⟩ := exists_eq_cons_of_read
        (fun a ha => (h.valid a (List.mem_append_left _ ha)).1) hshaped harrived
      have hmem : x ∈ m.arrived := hx ▸ List.mem_cons_self
      refine ⟨a, _, x, tail, rfl, hx, hframe, hconn x hmem, ?_⟩
      rw [Tx.label, ← (h.valid x (List.mem_append_left _ hmem)).2.2.1, hframe, hlabel]
      rw [hcmd, hsub, acceptsResponse, Bool.and_eq_true, decide_eq_true_eq] at ha
      exact ha.2

/-- **The line is uniform behind an accepted frame**: what can still be read carries the label
of the call. -/
theorem uniform_of_accepted (h : m.LineInv cfg) {frame : Bytes}
    (hc : m.serial.calls id = some c)
    (hr : Resumed cfg.serial m.serial id c c.stage (.finished (.ok frame)) s) {n : ConnId}
    (hn : s.Usable n) :
    Uniform Tx.label (responseCodes c.args.message)
      (((m.arrived.tail ++ m.line).map (·.request) ++ m.requests).filter (·.conn = n)) := by
  obtain ⟨a, p, x, tail, hstage, hx, -, hconn, hlabel⟩ := h.exists_arrived hc hr
  rcases usable_of_resumed h.serial hc hr hn with hn | rfl
  · obtain rfl : a.conn = n := by
      have huses := usesCached_of_reachable h.serial id c hc
      rw [hstage] at huses
      exact Option.some.inj (huses.symm.trans hn.1)
    obtain ⟨k, hk⟩ := h.busy id c a p hc hstage
    rw [outstandingOn, outstanding, hx, List.cons_append, List.map_cons, List.cons_append,
      List.filter_cons_of_pos (by simpa using hconn)] at hk
    rw [hx]
    exact hk.take hlabel
  · intro t ht
    obtain ⟨ht, hconn⟩ := List.mem_filter.mp ht
    have hout : ((m.arrived.tail ++ m.line).map (·.request) ++ m.requests).Sublist
        m.outstanding :=
      (((List.tail_sublist _).append (List.Sublist.refl _)).map _).append (List.Sublist.refl _)
    exact absurd (of_decide_eq_true hconn) (h.conn_ne_nextConn (hout.subset ht))

/-- An accepted frame. -/
theorem accepted (h : m.LineInv cfg) {frame : Bytes} {taken : CallId → Option Answer}
    (hc : m.serial.calls id = some c)
    (hr : Resumed cfg.serial m.serial id c c.stage (.finished (.ok frame)) s)
    (hs : IoBoard.Reachable cfg.serial s) :
    LineInv cfg { m with serial := s, arrived := m.arrived.tail, taken := taken } := by
  have hsub : (m.arrived.tail ++ m.line).Sublist (m.arrived ++ m.line) :=
    (List.tail_sublist _).append (List.Sublist.refl _)
  have hout : ((m.arrived.tail ++ m.line).map (·.request) ++ m.requests).Sublist m.outstanding :=
    (hsub.map _).append (List.Sublist.refl _)
  have hbusy : ¬ s.Busy :=
    not_busy_of_resumed (owned_of_reachable h.serial) hc hr not_false
  have htx : s.transmissions = m.serial.transmissions := by
    obtain htx | ⟨_, _, -, hflushing, -⟩ := hr.transmissions_cases
    · exact htx
    · cases hflushing
  exact ⟨hs, h.expects_of_resumed hc hr, (hsub.map _).trans h.ordered,
    fun y hy => h.valid y (hsub.subset hy), fun t ht => htx ▸ h.sent t (hout.subset ht),
    fun j d b q response hj hd => absurd ⟨j, d, hj, hd ▸ trivial⟩ hbusy,
    fun n hn _ => ⟨_, h.uniform_of_accepted hc hr hn⟩,
    fun j d b q hj hd => absurd ⟨j, d, hj, hd ▸ trivial⟩ hbusy⟩

/-- A step of the serial layer outside the attempts, which loses no byte that can be read, and
so leaves the line as it is. -/
theorem of_serial (h : m.LineInv cfg) (hs : IoBoard.Reachable cfg.serial s)
    (hexpects : ∀ j d, s.calls j = some d → ∃ cmd : Command,
      d.args.expectedCommand = some cmd.cmd ∧ d.args.expectedSubcommand = some cmd.subcmd ∧
      responseCodes d.args.message = cmd.label)
    (hcalls : SameAttempts m.serial s) (hcached : s.connection = m.serial.connection)
    (htx : s.transmissions = m.serial.transmissions)
    (hconns : ∀ n, ((s.conns n).closing = false → (m.serial.conns n).closing = false) ∧
      ((s.conns n).exception = none → (m.serial.conns n).exception = none ∧
        (s.conns n).buffer = (m.serial.conns n).buffer)) :
    LineInv cfg { m with serial := s } := by
  refine ⟨hs, hexpects, h.ordered, h.valid, fun t ht => htx ▸ h.sent t ht,
    fun j d a p response hj hd hp he => ?_, fun n hn hidle => ?_, fun j d a p hj hd => ?_⟩
  · obtain ⟨he', hbuf⟩ := (hconns a.conn).2 he
    rw [hbuf]
    exact h.reading j d a p response ((hcalls j d (hd ▸ trivial)).mp hj) hd hp he'
  · exact h.idle n (hcalls.usable hcached (hconns n).1 hn) (mt hcalls.busy_iff.mpr hidle)
  · exact h.busy j d a p ((hcalls j d (hd ▸ trivial)).mp hj) hd

/-- A new call of `fetch`. -/
theorem sends (h : m.LineInv cfg) {cmd : Command} (hsend : Sends cfg m id cmd s)
    (hs : IoBoard.Reachable cfg.serial s) : LineInv cfg { m with serial := s } := by
  have hcalls := sameAttempts_of_sends hsend
  obtain ⟨data, args, hnew, hargs, rfl⟩ := hsend
  refine h.of_serial hs ?_ hcalls rfl rfl fun n => ⟨fun hc => hc, fun he => ⟨he, rfl⟩⟩
  refine forall_calls_update (P := fun _ d => ∃ cmd : Command,
    d.args.expectedCommand = some cmd.cmd ∧ d.args.expectedSubcommand = some cmd.subcmd ∧
    responseCodes d.args.message = cmd.label) ⟨cmd, ?_⟩ fun j d _ hj => h.expects j d hj
  obtain ⟨hcmd, hsub⟩ := sendCommand_expected hargs
  exact ⟨hcmd, hsub, label_of_sendCommand hargs⟩

/-- Time passes, or a transport closes or is lost. -/
theorem environment (h : m.LineInv cfg) {act : Action}
    (hstep : IoBoard.Stepped cfg.serial m.serial act s) (hact : act.IsEnvironment)
    (hs : IoBoard.Reachable cfg.serial s) : LineInv cfg { m with serial := s } := by
  cases hstep with
  | called | resumed | cancelledWaiting | cancelled | received => exact hact.elim
  | ticked =>
      exact h.of_serial hs h.expects (fun _ _ _ => Iff.rfl) rfl rfl
        fun n => ⟨fun hc => hc, fun he => ⟨he, rfl⟩⟩
  | @closing n =>
      refine h.of_serial hs h.expects (fun _ _ _ => Iff.rfl) rfl rfl fun k => ?_
      rw [State.setConn_conns, Function.update_apply]
      split_ifs with hk
      · subst hk
        exact ⟨nofun, fun he => ⟨he, rfl⟩⟩
      · exact ⟨fun hc => hc, fun he => ⟨he, rfl⟩⟩
  | @lost n exc _ hclosed =>
      refine h.of_serial hs h.expects (fun _ _ _ => Iff.rfl) rfl rfl fun k => ?_
      rw [State.setConn_conns, Function.update_apply]
      split_ifs with hk
      · subst hk
        exact ⟨nofun, fun _ => ⟨(connsOk_of_reachable h.serial k).2 hclosed, rfl⟩⟩
      · exact ⟨fun hc => hc, fun he => ⟨he, rfl⟩⟩

/-- The answers that can be read when one has arrived. -/
theorem delivered_sublist {x : Answer} {line : List Answer} (hx : m.line = x :: line) :
    ((if m.serial.connection = some x.request.conn then m.arrived ++ [x] else m.arrived) ++
      line).Sublist (m.arrived ++ m.line) := by
  rw [hx]
  split_ifs
  · rw [List.append_assoc, List.singleton_append]
  · exact (List.Sublist.refl _).append (List.sublist_cons_self _ _)

/-- An answer arrives. It joins the end of the input of its connection, or is lost with it. -/
theorem delivered (h : m.LineInv cfg) {x : Answer} {line : List Answer} (hx : m.line = x :: line)
    (hs : IoBoard.Reachable cfg.serial (m.serial.setConn x.request.conn
      ((m.serial.conns x.request.conn).feed x.frame))) :
    LineInv cfg { m with
      serial := m.serial.setConn x.request.conn
        ((m.serial.conns x.request.conn).feed x.frame)
      line := line
      arrived :=
        if m.serial.connection = some x.request.conn then m.arrived ++ [x] else m.arrived } := by
  have hsub := delivered_sublist hx
  have hout : (((if m.serial.connection = some x.request.conn then m.arrived ++ [x]
      else m.arrived) ++ line).map (·.request) ++ m.requests).Sublist m.outstanding :=
    (hsub.map _).append (List.Sublist.refl _)
  refine ⟨hs, h.expects, (hsub.map _).trans h.ordered, fun y hy => h.valid y (hsub.subset hy),
    fun t ht => h.sent t (hout.subset ht), fun j d a p response hj hd hp he => ?_,
    fun n hn hidle => ?_, fun j d a p hj hd => ?_⟩
  · have hcached : m.serial.connection = some a.conn := by
      have huses := usesCached_of_reachable h.serial j d hj
      rwa [hd] at huses
    have hconn : x.request.conn = a.conn ↔ m.serial.connection = some x.request.conn := by
      rw [hcached, Option.some.injEq, eq_comm]
    dsimp only at he ⊢
    rw [State.setConn_conns, Function.update_apply] at he ⊢
    by_cases hxa : a.conn = x.request.conn
    · rw [if_pos hxa] at he ⊢
      rw [← hxa] at he ⊢
      obtain ⟨hframes, hconns⟩ := h.reading j d a p response hj hd hp he
      rw [if_pos hcached, List.flatMap_append, hframes, List.flatMap_singleton,
        Connection.buffer_feed (connsOk_of_reachable h.serial a.conn).1, List.append_assoc]
      refine ⟨rfl, fun y hy => ?_⟩
      rcases List.mem_append.mp hy with hy | hy
      · exact hconns y hy
      · rw [List.mem_singleton.mp hy, hxa]
    · rw [if_neg hxa] at he ⊢
      rw [if_neg (mt hconn.mpr (Ne.symm hxa))]
      exact h.reading j d a p response hj hd hp he
  · exact (h.idle n (usable_of_feed hn) hidle).imp fun k hk => hk.sublist (hout.filter _)
  · exact (h.busy j d a p hj hd).imp fun k hk => hk.sublist (hout.filter _)

/-- Every step keeps the invariant of the line. -/
theorem step (h : m.LineInv cfg) (hs : IoBoard.Reachable cfg.serial m'.serial)
    {act : MachineAction} (hstep : Stepped cfg m act m') : m'.LineInv cfg := by
  cases hstep with
  | sent hsend => exact h.sends hsend hs
  | environment henv hact => exact h.environment henv hact hs
  | resumed hc hr htx hok hcancel => exact h.resumed hc hr hs htx hok hcancel
  | transmitted hc hstage hr => exact h.transmitted hc hstage hr hs
  | accepted hc hr => exact h.accepted hc hr hs
  | lostRequest hreq =>
      refine h.of_sublist rfl rfl ?_ h.ordered fun a ha => .inl ha
      rw [outstanding, outstanding, hreq]
      exact (List.Sublist.refl _).append (List.sublist_cons_self _ _)
  | unanswered hreq =>
      refine h.of_sublist rfl rfl ?_ (h.ordered.trans (List.sublist_append_left _ _))
        fun a ha => .inl ha
      rw [outstanding, outstanding, hreq]
      exact (List.Sublist.refl _).append (List.sublist_cons_self _ _)
  | answered hreq hv =>
      refine h.of_sublist rfl rfl ?_ ?_ fun a ha => ?_
      · rw [outstanding, outstanding, hreq]
        simp
      · simpa using h.ordered.append (List.Sublist.refl _)
      · rcases List.mem_append.mp ha with ha | ha
        · exact .inl ha
        · rw [List.mem_singleton.mp ha]
          exact .inr hv
  | lostAnswer hline =>
      have hsub : (m.arrived ++ _).Sublist (m.arrived ++ m.line) :=
        (List.Sublist.refl _).append (hline ▸ List.sublist_cons_self _ _)
      exact h.of_sublist rfl rfl ((hsub.map _).append (List.Sublist.refl _))
        ((hsub.map _).trans h.ordered) fun a ha => .inl (hline ▸ List.mem_cons_of_mem _ ha)
  | delivered hline => exact h.delivered hline hs
  | moved | posted | withdrawn | cancelledPost => exact h.congr rfl rfl rfl rfl rfl
  | @resumedPost _ post _ _ _ hpost =>
      generalize post.stage = stage at hpost
      cases hpost with
      | acquired _ hsend | asked _ hsend =>
          exact (h.sends hsend hs).congr rfl rfl rfl rfl rfl
      | _ => exact h.congr rfl rfl rfl rfl rfl

end Machine.LineInv

/-- A task that sends a command enters `fetch`. -/
theorem step_of_send {id : CallId} {c : Command} {data : RequestDict}
    (h : m.send cfg id c data = some m') :
    ∃ act, step cfg.serial m.serial act = some m'.serial := by
  rw [Machine.send] at h
  split at h
  · cases h
  · obtain ⟨s, hs, rfl⟩ := Option.map_eq_some_iff.mp h
    exact ⟨_, hs⟩

/-- In one step of the machine the serial layer makes at most one. -/
theorem serial_of_step {act : MachineAction} (h : m.step cfg act = some m') :
    m'.serial = m.serial ∨ ∃ act, step cfg.serial m.serial act = some m'.serial := by
  cases act with
  | command id c data =>
      rw [Machine.step, Option.ite_none_left_eq_some] at h
      exact .inr (step_of_send h.2)
  | resume id wakeup =>
      obtain ⟨s, hs, hm⟩ := Option.bind_eq_some_iff.mp h
      refine .inr ⟨_, hs.trans (congrArg some ?_)⟩
      rw [Machine.resumed] at hm
      split at hm
      · cases hm
      · rw [← Option.some.inj hm]
      · rw [← Option.some.inj hm]
  | tick | closing | connectionLost =>
      obtain ⟨s, hs, rfl⟩ := Option.map_eq_some_iff.mp h
      exact .inr ⟨_, hs⟩
  | deliver =>
      simp only [Machine.step] at h
      split at h
      · cases h
      · obtain ⟨s, hs, rfl⟩ := Option.map_eq_some_iff.mp h
        exact .inr ⟨_, hs⟩
  | loseRequest | loseAnswer =>
      simp only [Machine.step] at h
      split at h
      · cases h
      · exact .inl (by rw [← Option.some.inj h])
  | handle answer =>
      simp only [Machine.step] at h
      split at h
      · cases h
      · exact .inl (by rw [← Option.some.inj h])
      · rw [Option.ite_none_right_eq_some] at h
        exact .inl (by rw [← Option.some.inj h.2])
  | move state => exact .inl (by rw [← Option.some.inj h])
  | post p action =>
      rw [Machine.step, Option.ite_none_right_eq_some] at h
      exact .inl (by rw [← Option.some.inj h.2]; rfl)
  | resumePost p id =>
      obtain ⟨post, -, h⟩ := Option.bind_eq_some_iff.mp h
      generalize post.stage = stage at h
      cases stage with
      | acquiring | settling | pausing =>
          rw [Machine.resumePost, Option.ite_none_right_eq_some] at h
          obtain ⟨m₁, hsend, rfl⟩ := Option.map_eq_some_iff.mp h.2
          obtain ⟨act, hs⟩ := step_of_send hsend
          exact .inr ⟨act, hs⟩
      | controlling | verifying =>
          obtain ⟨fetched, -, rfl⟩ := Option.map_eq_some_iff.mp h
          refine .inl ?_
          split
          · try split
            all_goals rfl
          · rfl
      | returned | failed => cases h
  | cancelPost p =>
      obtain ⟨post, -, h⟩ := Option.bind_eq_some_iff.mp h
      refine .inl ?_
      split at h
      · rw [← Option.some.inj h]
        rfl
      · rw [← Option.some.inj h]
        rfl
      · rw [← Option.some.inj h]
        rfl
      · cases h

/-- **The invariant of the line holds in every run**, with retries, time-outs and cancellations. -/
theorem lineInv_of_reachable (h : m.Reachable cfg) : m.LineInv cfg := by
  refine h.invariant (P := Machine.LineInv cfg) ?_ fun m act m' ih _ hstep => ?_
  · exact ⟨Reaches.refl _, fun _ _ hc => (by cases hc), List.Sublist.refl _,
      List.forall_mem_nil _, List.forall_mem_nil _, fun _ _ _ _ _ hc => (by cases hc),
      fun _ hn => (by cases hn.1), fun _ _ _ _ hc => (by cases hc)⟩
  · refine ih.step ?_ (machineStepped_of_step hstep)
    obtain heq | ⟨act, hs⟩ := serial_of_step hstep
    · rw [heq]
      exact ih.serial
    · exact ih.serial.tail trivial hs

end IoBoard
