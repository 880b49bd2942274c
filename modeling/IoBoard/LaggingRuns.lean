import IoBoard.LaggingBoard

/-!
# Runs with a Lagging Board

Every call of every run with a lagging board gets an answer with its codes after at most `d + 1`
transmissions, whichever commands come in which order, and between two attempts the backlog is
what it was after the first call.

## From one attempt to runs

The module before follows one call through its attempts. Here the invariant is that of a whole
state: all calls are on their way, and whenever none of them waits for an answer the backlog is
level. Only the owner of the mutex can wait for an answer, so a step of one call cannot disturb
another one; a call outside the block sees nothing of the line. The port is opened once and
never closed, since no call fails.

## There are such runs

`fetch_laggingBoard` also says that the assumption is met: every sequence of calls to which there
are valid answers can be made one after the other, on a board of this kind. The run is built with
the pieces for one attempt, by induction on the attempts that are left and on the calls. The times
in it are those of the sleeps; nothing is assumed of the settings except that `d` is less than
`max_retries`.

## Main results

* `lagInv_of_reaches`: the invariant holds in every run with such a board.
* `exists_lagRun`: any sequence of calls can be made.
* `fetch_laggingBoard`: **every call is answered with its codes, and the backlog does not grow**.
-/

open Runs Framing

namespace IoBoard

variable {cfg : SerialModel} {d : ℕ} {s s' : State} {id : CallId} {args : FetchArgs} {c : Call}
  {stage stage' : Stage} {w : Wakeup} {act : Action}

/-- **The invariant of a run with a lagging board**: there is one connection, all calls are on
their way to their answers, and the backlog is level between two attempts. -/
structure LagInv (d : ℕ) (s : State) : Prop where
  opened : s.connection = none ∧ s.nextConn = 0 ∨ s.connection = some 0 ∧ s.nextConn = 1
  matched : ∀ id c, s.calls id = some c → c.args.Matched
  calls : ∀ id c, s.calls id = some c → LagCall d s id c
  /-- Between two attempts the backlog is what it should be. -/
  level : (∀ id c, s.calls id = some c → ¬ c.stage.awaits) → Level d s s.transmissions.length

/-- Nothing has been sent, and nothing has arrived: the backlog is that of the first `d`
transmissions. -/
theorem lagInv_start (d : ℕ) : LagInv d {} where
  opened := .inl ⟨rfl, rfl⟩
  matched _ _ h := by cases h
  calls _ _ h := by cases h
  level _ := ⟨[], (Nat.zero_sub d).symm, ⟨rfl, by simp⟩, .start⟩

theorem Stage.isCritical_of_awaits (h : stage.awaits) : stage.isCritical := by
  cases stage with
  | attempting => trivial
  | _ => exact h.elim

/-- A call outside the block does not notice the transmissions of others, or what arrives for
them. -/
theorem LagCall.of_not_critical (txs : List Tx) (h : LagCall d s id c)
    (hout : ¬ c.stage.isCritical) (htx : s'.transmissions = s.transmissions ++ txs)
    (hne : ∀ t ∈ txs, t.call ≠ id) : LagCall d s' id c := by
  obtain ⟨args, stage⟩ := c
  cases stage with
  | acquiring => trivial
  | finished r =>
      obtain ⟨hr, hcount, hlate⟩ := h
      have hothers : (txs.map Tx.call).count id = 0 := by
        refine List.count_eq_zero_of_not_mem fun hmem => ?_
        obtain ⟨t, ht, hid⟩ := List.mem_map.mp hmem
        exact hne t ht hid
      refine ⟨hr, ?_, ?_⟩
      · rw [State.owners, htx, List.map_append, List.count_append, hothers]
        exact hcount
      · rw [htx, List.length_append]
        omega
  | _ => exact absurd trivial hout

/-- While one call moves and does not wait for an answer, nobody does. -/
theorem LagInv.level_of_resumed (h : LagInv d s) (ho : Owned s) (hc : s.calls id = some c)
    (hr : Resumed cfg s id c c.stage stage' s') (hnot : ¬ c.stage.awaits) :
    Level d s s.transmissions.length := by
  refine h.level fun j e hj => ?_
  by_cases hji : j = id
  · subst hji
    obtain rfl := Option.some.inj (hc.symm.trans hj)
    exact hnot
  · exact fun hawaits => ho.others hc hr hj hji (Stage.isCritical_of_awaits hawaits)

/-- One call has moved, and everything else is as it was. -/
theorem LagInv.resumed (h : LagInv d s) (ho : Owned s) (hc : s.calls id = some c)
    (hr : Resumed cfg s id c c.stage stage' s') (hafter : After d s' id c.args)
    (hopened : s'.connection = none ∧ s'.nextConn = 0 ∨ s'.connection = some 0 ∧ s'.nextConn = 1) :
    LagInv d s' := by
  obtain ⟨stage'', hc', hcall, hlevel⟩ := hafter
  have hstage : stage' = stage'' := by
    rw [hr.calls_eq, Function.update_self] at hc'
    exact congrArg Call.stage (Option.some.inj hc')
  subst hstage
  refine ⟨hopened, ?_, ?_, fun hall => hlevel (hall id _ hc')⟩
  · rw [hr.calls_eq]
    exact forall_calls_update (h.matched id c hc) fun j e _ hj => h.matched j e hj
  · rw [hr.calls_eq]
    refine forall_calls_update hcall fun j e hji hj => ?_
    obtain heq | ⟨a, deadline, -, -, rfl⟩ := hr.transmissions_cases
    · exact (h.calls j e hj).of_not_critical [] (ho.others hc hr hj hji)
        (by rw [heq, List.append_nil]) (List.forall_mem_nil _)
    · refine (h.calls j e hj).of_not_critical _ (ho.others hc hr hj hji)
        (State.transmit_transmissions ..) ?_
      simpa [State.txNow] using hji.symm

/-- A call that begins its first attempt has sent nothing yet. -/
theorem lagAttempt_firstAttempt (n : ConnId) (hid : id ∉ s.owners) :
    LagAttempt d s id (firstAttempt cfg n) .interCommandGap :=
  ⟨le_rfl, Nat.succ_le_succ (Nat.zero_le d), nofun, s.owners, (List.append_nil _).symm, hid⟩

/-! ### Every resumption -/

/-- The call waits for the mutex, or looks for a connection. -/
theorem after_of_connecting (h : LagInv d s) (hlevel : Level d s s.transmissions.length)
    (hid : id ∉ s.owners) (hs : resume cfg s id c .connecting w = some s') :
    After d s' id c.args ∧ s'.connection = s.connection ∧ s'.nextConn = s.nextConn := by
  cases w <;> simp only [resume, reduceCtorEq, Option.some.injEq] at hs
  subst hs
  obtain ⟨hnone, -⟩ | ⟨hn, -⟩ := h.opened
  · rw [State.getSerialConnection]
    simp only [hnone]
    have htx : ((s.record (.opening id)).goto id c .opening).transmissions = s.transmissions :=
      State.record_transmissions s (.opening id) (by simp)
    exact ⟨⟨_, Function.update_self .., trivial, fun _ => htx ▸ hlevel.congr rfl htx⟩, hnone, rfl⟩
  · have hclosing : (s.conns 0).closing = false := by
      obtain ⟨frames, -, -, hholds⟩ := hlevel
      exact hholds.closing
    rw [State.getSerialConnection]
    simp only [hn, hclosing, Bool.false_eq_true, if_false]
    have htx : (s.record (.reuse id)).transmissions = s.transmissions :=
      State.record_transmissions s (.reuse id) (by simp)
    have hattempt : LagAttempt d (s.record (.reuse id)) id (firstAttempt cfg 0) .interCommandGap :=
      (lagAttempt_firstAttempt 0 hid).congr htx
    have hline : Level d (s.record (.reuse id)) (s.record (.reuse id)).transmissions.length :=
      htx ▸ hlevel.congr rfl htx
    exact ⟨hattempt.after hline, hn, rfl⟩

/-- The port is opened for the first time. -/
theorem after_of_opening (hzero : s.nextConn = 0) (hlevel : Level d s s.transmissions.length)
    (hid : id ∉ s.owners) (hw : w = .ready ∨ w = .lowLatency .notImplementedError)
    (hs : resume cfg s id c .opening w = some s') :
    After d s' id c.args ∧ s'.connection = some 0 ∧ s'.nextConn = 1 := by
  have heq : s' =
      s.connected.goto id c (.attempting (firstAttempt cfg s.nextConn) .interCommandGap) := by
    obtain rfl | rfl := hw <;> exact (Option.some.inj hs).symm
  rw [hzero] at heq
  have hattempt : LagAttempt d s.connected id (firstAttempt cfg 0) .interCommandGap :=
    (lagAttempt_firstAttempt 0 hid).congr rfl
  have hline : Level d s.connected s.connected.transmissions.length := hlevel.congr rfl rfl
  subst heq
  refine ⟨hattempt.after hline, ?_, ?_⟩
  · simp [hzero]
  · simp [hzero]

/-- **Every resumption keeps the invariant**, inside the attempts by the lemmas about these. -/
theorem LagInv.resume (h : LagInv d s) (hd : d < cfg.maxRetries) (hreach : Reachable cfg s)
    (hc : s.calls id = some c) (hs : resume cfg s id c c.stage w = some s')
    (hw : c.Follows s ((lagging d).allowed s) w) : LagInv d s' := by
  have ho := owned_of_reachable hreach
  have hlog := logInv_of_reachable hreach
  obtain ⟨stage', hr⟩ := resumed_of_resume hs
  suffices hafter : After d s' id c.args ∧
      (s'.connection = none ∧ s'.nextConn = 0 ∨ s'.connection = some 0 ∧ s'.nextConn = 1) from
    h.resumed ho hc hr hafter.1 hafter.2
  have hlevel := h.level_of_resumed ho hc hr
  have hcounted := hlog.counted id c hc
  have hcall := h.calls id c hc
  have hcached := usesCached_of_reachable hreach id c hc
  have hcaches := (cacheInv_of_reachable hreach).caches id c hc
  have hm := h.matched id c hc
  obtain ⟨args, stage⟩ := c
  cases stage with
  | acquiring =>
      cases w <;> simp only [IoBoard.resume, reduceCtorEq] at hs
      split_ifs at hs
      cases hs
      exact ⟨⟨_, Function.update_self .., trivial, fun _ => (hlevel not_false).congr rfl rfl⟩,
        h.opened⟩
  | connecting =>
      obtain ⟨hafter, hconn, hnext⟩ := after_of_connecting h (hlevel not_false) hcounted hs
      exact ⟨hafter, by rw [hconn, hnext]; exact h.opened⟩
  | opening =>
      have hzero : s.nextConn = 0 := by
        obtain ⟨-, hzero⟩ | ⟨hn, -⟩ := h.opened
        · exact hzero
        · cases hcaches.symm.trans hn
      obtain ⟨hafter, hconn⟩ := after_of_opening hzero (hlevel not_false) hcounted hw hs
      exact ⟨hafter, .inr hconn⟩
  | attempting a p =>
      have hn : s.connection = some a.conn := hcached
      have hconn : a.conn = 0 := by
        obtain ⟨hnone, -⟩ | ⟨hzero, -⟩ := h.opened
        · cases hnone.symm.trans hn
        · exact (Option.some.inj (hzero.symm.trans hn)).symm
      refine ⟨after_of_resumeAttempt hcall.1 hcall.2 hconn hd hlog hc hm hw hs, ?_⟩
      obtain ⟨hsame, hnext⟩ : s'.connection = s.connection ∧ s'.nextConn = s.nextConn := by
        cases hr with
        | startOpen hst => simp at hst
        | _ => exact ⟨rfl, rfl⟩
      rw [hsame, hnext]
      exact h.opened
  | awaitingClose | resetting => exact hcall.elim
  | finished => cases w <;> cases hs

/-! ### Every step -/

/-- Where the line and the transmissions are the same, a call is where it was. -/
theorem LagCall.congr (h : LagCall d s id c) (hconn : s'.conns 0 = s.conns 0)
    (htx : s'.transmissions = s.transmissions) : LagCall d s' id c := by
  obtain ⟨args, stage⟩ := c
  cases stage with
  | attempting => exact ⟨h.1.congr htx, h.2.congr hconn htx⟩
  | finished =>
      have howners : s'.owners = s.owners := congrArg (List.map Tx.call) htx
      exact ⟨h.1, howners ▸ h.2.1, htx ▸ h.2.2⟩
  | awaitingClose | resetting => exact h
  | _ => trivial

/-- A new call. It waits for the mutex, and has sent nothing. -/
theorem LagInv.call (h : LagInv d s) (hc : s.calls id = none) (hm : args.Matched) :
    LagInv d (s.goto id ⟨args, .acquiring⟩ .acquiring) := by
  refine ⟨h.opened, ?_, ?_, fun hall => Level.congr (h.level fun j e hj => ?_) rfl rfl⟩
  · exact forall_calls_update hm fun j e _ hj => h.matched j e hj
  · exact forall_calls_update trivial fun j e _ hj => (h.calls j e hj).congr rfl rfl
  · refine hall j e ?_
    rw [State.goto_calls, Function.update_of_ne]
    · exact hj
    · rintro rfl
      cases hc.symm.trans hj

/-- Time passes. The invariant does not speak of the clock. -/
theorem LagInv.tick (h : LagInv d s) (clock : ℚ) : LagInv d { s with clock := clock } :=
  ⟨h.opened, h.matched, fun j e hj => (h.calls j e hj).congr rfl rfl,
    fun hall => (h.level hall).congr rfl rfl⟩

/-- Bytes arrive, as an answer that is due. -/
theorem LagInv.receive {n : ConnId} {bs : Bytes} (h : LagInv d s) (hn : n < s.nextConn)
    (hreceive : (lagging d).environment s (.receive n bs)) :
    LagInv d (s.setConn n ((s.conns n).feed bs)) := by
  have hzero : n = 0 := by
    obtain ⟨-, hnext⟩ | ⟨-, hnext⟩ := h.opened <;> rw [hnext] at hn
    · exact absurd hn (Nat.not_lt_zero n)
    · exact Nat.lt_one_iff.mp hn
  refine ⟨h.opened, h.matched, fun j e hj => ?_, fun hall => ?_⟩
  · have hcall := h.calls j e hj
    obtain ⟨args, stage⟩ := e
    cases stage with
    | attempting a p => exact ⟨hcall.1.congr rfl, (hcall.2.receive (a := a) hzero hreceive).1⟩
    | finished => exact hcall
    | awaitingClose | resetting => exact hcall
    | _ => trivial
  · subst hzero
    exact absurd hreceive (h.level hall).not_receive

/-- **Every step keeps the invariant.** The environment may only do what a lagging board does. -/
theorem LagInv.step (h : LagInv d s) (hd : d < cfg.maxRetries) (hreach : Reachable cfg s)
    (hC : Undisturbed (lagging d) s act) (hs : step cfg s act = some s') : LagInv d s' := by
  cases stepped_of_step hs with
  | called hc => exact h.call hc hC
  | @resumed id w c _ _ hc =>
      rw [IoBoard.step, hc] at hs
      exact h.resume hd hreach hc hs (hC trivial c hc)
  | cancelledWaiting | cancelled => exact absurd trivial hC
  | ticked => exact h.tick _
  | received hn => exact h.receive hn hC
  | closing | lost => exact hC.elim

/-- The runs with a lagging board are runs of the serial layer. -/
theorem reachable_of_lagging (h : Reaches (step cfg) (Undisturbed (lagging d)) {} s) :
    Reachable cfg s :=
  h.mono fun _ _ _ => trivial

/-- **The invariant holds in every run with a lagging board**, from the state in which nothing
has happened. -/
theorem lagInv_of_reaches (hd : d < cfg.maxRetries)
    (h : Reaches (step cfg) (Undisturbed (lagging d)) {} s) : LagInv d s := by
  refine h.induct (P := LagInv d) (lagInv_start d) fun t act t' hrun ih hC ht => ?_
  exact ih.step hd (reachable_of_lagging hrun) hC ht

/-! ### Calls can be made -/

/-- A caller that expects the codes of its message, to which there is a valid answer. The
message of a command always has one. -/
def FetchArgs.Answerable (args : FetchArgs) : Prop :=
  args.Matched ∧ ∃ frame, Answers args.message frame

/-- The calls of commands. -/
theorem answerable_of_sendCommand {minGap : ℚ} {command : Command} {data : RequestDict}
    (h : sendCommand minGap command data = .ok args) : args.Answerable := by
  have hcodes : ETX ∉ command.codes ∧ command.codes.length ≤ streamLimit := by
    cases command with
    | managementControl sub => cases sub <;> decide
    | request sub => cases sub <;> decide
  refine ⟨matched_of_sendCommand h,
    STX :: command.codes ++ [ETX, xorSum (command.codes ++ [ETX])],
    ⟨STX, command.codes, _, hcodes.1, hcodes.2, rfl⟩, ?_, ?_⟩
  · exact responseChecksumValid_iff.mpr ⟨_, rfl, command.length_codes_eq.ge⟩
  · rw [label_of_sendCommand h]
    exact responseCodes_eq_command_iff.mpr ⟨_, rfl⟩

/-- Every transmission has a valid answer, so the board can go on answering. -/
def State.AllAnswerable (s : State) : Prop :=
  ∀ t ∈ s.transmissions, ∃ frame, Answers t.message frame

/-- The runs with a lagging board. -/
abbrev LagRun (cfg : SerialModel) (d : ℕ) : State → State → Prop :=
  Reaches (step cfg) (Undisturbed (lagging d))

variable {a : Attempt} {p : Phase} {t : Tx} {f : Bytes} {k : ℕ}

/-- The attempts that have sent, in such a run. -/
theorem LagInv.attempt (h : LagInv d s) (hat : s.At id args a p []) :
    LagAttempt d s id a p ∧ LagPhase d s p :=
  h.calls id _ hat.call

theorem LagInv.conn_eq (h : LagInv d s) (hn : s.connection = some a.conn) : a.conn = 0 := by
  obtain ⟨hnone, -⟩ | ⟨hzero, -⟩ := h.opened
  · cases hnone.symm.trans hn
  · exact (Option.some.inj (hzero.symm.trans hn)).symm

/-- Before the first answer is due the attempt times out, and that is allowed. -/
theorem State.At.endsWith_early (hd : d < cfg.maxRetries) (hinv : LagInv d s)
    (h : s.At id args a .flushing []) (hearly : s.transmissions.length ≤ d) :
    EndsWith cfg (lagging d) s id args a .timeout := by
  refine h.endsWith_timeout ⟨fun u hu => ?_, fun _ hmax => ?_⟩
  · change u.transmissions.length ≤ d
    rw [hu.transmissions, List.append_nil]
    exact hearly
  · obtain ⟨front, -, -, hlen⟩ := (hinv.attempt h).1.exists_front rfl
    omega

/-- The due answer may arrive while the call waits for it. -/
theorem receive_of_header {deadline : ℚ} (hinv : LagInv d s)
    (h : s.At id args a (.readingHeader deadline) []) (hconn : a.conn = 0)
    (hk : k + 1 + d = s.transmissions.length) (ht : s.transmissions[k]? = some t)
    (hf : Answers t.message f) : (lagging d).environment s (.receive a.conn f) := by
  rcases (hinv.attempt h).2 with ⟨frames, hlen, hanswered, -⟩ | ⟨xs, hpending⟩
  · obtain rfl : frames.length = k := by omega
    exact ⟨frames, t, hconn ▸ hanswered, by omega, ht, hf⟩
  · obtain ⟨k', t', -, -, ⟨b, body, lrc, -, -, hxs⟩, -⟩ := hpending.exists_answered
    obtain ⟨frames, -, -, hholds⟩ := hpending
    have hempty : xs = [] := by
      rw [← hholds.buffer, ← hconn]
      exact h.holds.buffer
    rw [hempty] at hxs
    simp at hxs

theorem allowed_ofFrame : (lagging d).allowed s a (.ofFrame args f) := by
  unfold Outcome.ofFrame
  split_ifs <;> trivial

/-- From then on every attempt brings an answer: the one that is due arrives and is read. -/
theorem State.At.endsWith_late (hd : d < cfg.maxRetries) (hrun : LagRun cfg d {} s)
    (h : s.At id args a .flushing []) (hconn : a.conn = 0)
    (hk : k + 1 + d = s.transmissions.length) (ht : s.transmissions[k]? = some t)
    (hf : Answers t.message f) : EndsWith cfg (lagging d) s id args a (.ofFrame args f) := by
  have hinv := lagInv_of_reaches hd hrun
  refine h.endsWith_of_frame hf.1 (fun u deadline hu hat => ?_)
    ⟨fun _ _ => allowed_ofFrame, fun hne hmax => ?_⟩
  · have htx : u.transmissions = s.transmissions := hu.transmissions.trans (List.append_nil _)
    exact receive_of_header (lagInv_of_reaches hd (hrun.trans hu.reaches)) hat hconn
      (by rw [htx]; exact hk) (by rw [htx]; exact ht) hf
  · -- the last attempt reads an answer to the call's own message
    by_cases haccepts : acceptsResponse args.expectedCommand args.expectedSubcommand f = true
    · refine absurd ?_ (hne f)
      rw [Outcome.ofFrame, if_neg (by rw [hf.2.1]; simp), if_pos haccepts]
    · have hnumber := (hinv.attempt h).1.number_le rfl
        (logInv_of_reachable (reachable_of_lagging hrun)) h.call (hinv.matched id _ h.call) hk ht hf
        haccepts
      omega

/-- There is a run to the end of an attempt, with one of the outcomes that the board allows. -/
theorem State.At.exists_endsWith_lagging (hd : d < cfg.maxRetries) (hrun : LagRun cfg d {} s)
    (h : s.At id args a .flushing []) (hconn : a.conn = 0) (hall : s.AllAnswerable) :
    ∃ o, EndsWith cfg (lagging d) s id args a o := by
  by_cases hearly : s.transmissions.length ≤ d
  · exact ⟨_, h.endsWith_early hd (lagInv_of_reaches hd hrun) hearly⟩
  · have hk : s.transmissions.length - 1 - d < s.transmissions.length := by omega
    obtain ⟨f, hf⟩ := hall _ (List.getElem_mem hk)
    exact ⟨_, h.endsWith_late hd hrun hconn (by omega) (List.getElem?_eq_getElem hk) hf⟩

/-- A call has returned, and the next one can be made: nothing else has moved, and the line is
idle. -/
structure Returned (cfg : SerialModel) (d : ℕ) (s : State) (id : CallId) (args : FetchArgs)
    (s' : State) : Prop where
  run : LagRun cfg d s s'
  ready : s'.Ready
  finished : ∃ r, s'.calls id = some ⟨args, .finished r⟩
  others : ∀ j, j ≠ id → s'.calls j = s.calls j
  answerable : s'.AllAnswerable

/-- An attempt ends the call, or leads to the next attempt. -/
theorem State.At.exists_attempt_lagging (hd : d < cfg.maxRetries) (hrun : LagRun cfg d {} s)
    (h : s.At id args a .interCommandGap []) (hcached : s.connection = some a.conn)
    (hargs : args.Answerable) (hall : s.AllAnswerable) :
    ∃ s', Returned cfg d s id args s' ∨
      LagRun cfg d s s' ∧ s'.At id args (a.next cfg) .interCommandGap [] ∧
        s'.connection = some a.conn ∧ s'.AllAnswerable ∧ ∀ j, j ≠ id → s'.calls j = s.calls j := by
  obtain ⟨u, t, -, hmessage, hsent, hat⟩ := h.exists_sent cfg (lagging d)
  have hcached' : u.connection = some a.conn := hsent.connection.trans hcached
  have hall' : u.AllAnswerable := by
    intro t' ht'
    rw [hsent.transmissions] at ht'
    rcases List.mem_append.mp ht' with ht' | ht'
    · exact hall t' ht'
    · rw [List.mem_singleton.mp ht', hmessage]
      exact hargs.2
  have hrun' := hrun.trans hsent.reaches
  obtain ⟨o, s', hleads, hended⟩ := hat.exists_endsWith_lagging hd hrun'
    ((lagInv_of_reaches hd hrun').conn_eq hcached') hall'
  have hall'' : s'.AllAnswerable := by
    rw [State.AllAnswerable, hleads.transmissions, List.append_nil]
    exact hall'
  have hinv := lagInv_of_reaches hd (hrun'.trans hleads.reaches)
  have hothers (j : CallId) (hj : j ≠ id) : s'.calls j = s.calls j :=
    (hleads.calls j hj).trans (hsent.calls j hj)
  refine ⟨s', ?_⟩
  cases hverdict : o.verdict cfg args with
  | ok frame =>
      rw [hverdict] at hended
      obtain ⟨hc, hmutex, hholds⟩ := hended
      have hopened : a.conn < s'.nextConn := by
        rw [hleads.nextConn]
        exact hat.opened
      exact .inl ⟨hsent.reaches.trans hleads.reaches, ⟨hmutex, .inr ⟨a.conn,
        hleads.connection.trans hcached', hholds, hopened⟩⟩, ⟨_, hc⟩, hothers, hall''⟩
  | error e =>
      rw [hverdict, Ended] at hended
      split_ifs at hended
      · exact .inr ⟨hsent.reaches.trans hleads.reaches, hended,
          hleads.connection.trans hcached', hall'', hothers⟩
      · -- no call fails
        obtain ⟨⟨frame, hframe, -⟩, -⟩ := hinv.calls id _ hended
        cases hframe

/-- From an attempt on a call can get its answer. -/
theorem State.At.exists_returned {m : ℕ} (hd : d < cfg.maxRetries) (hm : d + 1 ≤ a.number + m)
    (hrun : LagRun cfg d {} s) (h : s.At id args a .interCommandGap [])
    (hcached : s.connection = some a.conn) (hargs : args.Answerable) (hall : s.AllAnswerable) :
    ∃ s', Returned cfg d s id args s' := by
  induction m generalizing s a with
  | zero =>
      obtain ⟨s', hs' | ⟨hrun', hnext, -⟩⟩ :=
        h.exists_attempt_lagging hd hrun hcached hargs hall
      · exact ⟨s', hs'⟩
      · -- there is no further attempt
        have hnumber := ((lagInv_of_reaches hd (hrun.trans hrun')).attempt hnext).1.number
        change a.number + 1 ≤ d + 1 at hnumber
        omega
  | succ m ih =>
      obtain ⟨u, hu | ⟨hrun', hnext, hcached', hall', hothers⟩⟩ :=
        h.exists_attempt_lagging hd hrun hcached hargs hall
      · exact ⟨u, hu⟩
      · have hm' : d + 1 ≤ (a.next cfg).number + m := by
          change d + 1 ≤ a.number + 1 + m
          omega
        obtain ⟨s', hs'⟩ := ih hm' (hrun.trans hrun') hnext hcached' hall'
        exact ⟨s', hrun'.trans hs'.run, hs'.ready, hs'.finished,
          fun j hj => (hs'.others j hj).trans (hothers j hj), hs'.answerable⟩

/-- **A call that is made when no other is under way returns**, after as many attempts as the
lag takes. -/
theorem State.Ready.exists_returned (hd : d < cfg.maxRetries) (hrun : LagRun cfg d {} s)
    (h : s.Ready) (hc : s.calls id = none) (hargs : args.Answerable) (hall : s.AllAnswerable) :
    ∃ s', Returned cfg d s id args s' := by
  have hcall : (lagging d).environment s (.call id args) := hargs.1
  obtain ⟨u, n, hu⟩ : ∃ u n, Started cfg (lagging d) s id args u n :=
    h.exists_started hc hcall
  have hall' : u.AllAnswerable := by
    rw [State.AllAnswerable, hu.transmissions]
    exact hall
  obtain ⟨s', hs'⟩ := hu.started.exists_returned (m := d) hd (Nat.add_comm d 1).le
    (hrun.trans hu.reaches) hu.connection hargs hall'
  exact ⟨s', hu.reaches.trans hs'.run, hs'.ready, hs'.finished,
    fun j hj => (hs'.others j hj).trans (hu.calls j hj), hs'.answerable⟩

/-- **Any sequence of calls can be made**, one after the other, by induction on the sequence. -/
theorem exists_lagRun (hd : d < cfg.maxRetries) (calls : List FetchArgs)
    (hargs : ∀ args ∈ calls, args.Answerable) :
    ∃ s, LagRun cfg d {} s ∧ s.Ready ∧ s.AllAnswerable ∧
      (∀ j, calls.length ≤ j → s.calls j = none) ∧
      ∀ (i : ℕ) (args : FetchArgs), calls[i]? = some args →
        ∃ r, s.calls i = some ⟨args, .finished r⟩ := by
  induction calls using List.reverseRecOn with
  | nil =>
      exact ⟨{}, Reaches.refl _, ready_start, List.forall_mem_nil _, fun _ _ => rfl,
        fun i args h => by simp at h⟩
  | append_singleton calls args ih =>
      obtain ⟨s, hrun, hready, hall, hnone, hfinished⟩ :=
        ih fun args' h => hargs args' (List.mem_append_left _ h)
      obtain ⟨s', hs'⟩ := hready.exists_returned hd hrun (hnone _ le_rfl)
        (hargs args (by simp)) hall
      refine ⟨s', hrun.trans hs'.run, hs'.ready, hs'.answerable, fun j hj => ?_,
        fun i args' hi => ?_⟩
      · rw [List.length_append, List.length_singleton] at hj
        rw [hs'.others j (Nat.lt_of_succ_le hj).ne']
        exact hnone j (by omega)
      · rcases Nat.lt_trichotomy i calls.length with hlt | rfl | hlt
        · rw [List.getElem?_append_left hlt] at hi
          rw [hs'.others i hlt.ne]
          exact hfinished i args' hi
        · rw [List.getElem?_concat_length] at hi
          obtain rfl := Option.some.inj hi
          exact hs'.finished
        · rw [List.getElem?_eq_none (by simp; omega)] at hi
          cases hi

/-! ### The lagging board is recovered from -/

/-- As many answers are outstanding: of these transmissions no answer has arrived yet. -/
def State.Outstanding (s : State) (m : ℕ) : Prop :=
  ∃ frames, s.Answered 0 frames ∧ s.transmissions.length = frames.length + m

/-- The call has returned a frame with the codes that it expects. It has not raised. -/
def FetchArgs.AnsweredBy (args : FetchArgs) (r : Except PyExc Bytes) : Prop :=
  ∃ frame cmd subcmd, r = .ok frame ∧ args.expectedCommand = some cmd ∧
    args.expectedSubcommand = some subcmd ∧ responseCodes frame = some (cmd, subcmd)

/-- **Recovery from a lagging board.** In every run every call that has ended has returned a frame
with its codes after at most `d + 1` transmissions, and from the first one on `d` answers are
outstanding whenever no call waits for one; and all sequences of calls have such runs. -/
theorem fetch_laggingBoard (cfg : SerialModel) (d : ℕ) (hd : d < cfg.maxRetries) :
    (∀ s, LagRun cfg d {} s →
      (∀ id c r, s.calls id = some c → c.stage = .finished r →
        c.args.AnsweredBy r ∧ s.owners.count id ≤ d + 1) ∧
      ((∃ id c r, s.calls id = some c ∧ c.stage = .finished r) →
        (∀ id c, s.calls id = some c → ¬ c.stage.awaits) → s.Outstanding d)) ∧
    ∀ calls : List FetchArgs, (∀ args ∈ calls, args.Answerable) →
      ∃ s, LagRun cfg d {} s ∧ ∀ (i : ℕ) (args : FetchArgs), calls[i]? = some args →
        ∃ r, s.calls i = some ⟨args, .finished r⟩ := by
  refine ⟨fun s hrun => ?_, fun calls hargs => ?_⟩
  · have hinv := lagInv_of_reaches hd hrun
    have hfinished (id : CallId) (c : Call) (r : Except PyExc Bytes) (hc : s.calls id = some c)
        (hr : c.stage = .finished r) :
        c.args.AnsweredBy r ∧ s.owners.count id ≤ d + 1 ∧ d < s.transmissions.length := by
      have hcall := hinv.calls id c hc
      rw [LagCall, hr] at hcall
      obtain ⟨⟨frame, hframe, hcodes⟩, hcount, hlate⟩ := hcall
      obtain ⟨cmd, subcmd, hcmd, hsubcmd, hmessage⟩ := hinv.matched id c hc
      exact ⟨⟨frame, cmd, subcmd, hframe, hcmd, hsubcmd, hcodes.trans hmessage⟩, hcount, hlate⟩
    refine ⟨fun id c r hc hr => ?_, ?_⟩
    · obtain ⟨hanswered, hcount, -⟩ := hfinished id c r hc hr
      exact ⟨hanswered, hcount⟩
    · rintro ⟨id, c, r, hc, hr⟩ hidle
      obtain ⟨-, -, hlate⟩ := hfinished id c r hc hr
      obtain ⟨frames, hlen, hframes, -⟩ := hinv.level hidle
      exact ⟨frames, hframes, by omega⟩
  · obtain ⟨s, hrun, -, -, -, hfinished⟩ := exists_lagRun hd calls hargs
    exact ⟨s, hrun, hfinished⟩

theorem rqiwArgs_answerable : rqiwArgs.Answerable :=
  answerable_of_sendCommand sendCommand_loadcellWeights

theorem rqidArgs_answerable : rqidArgs.Answerable := by
  have hsend : sendCommand (3 / 4) ioStatus [] = .ok rqidArgs := by
    decide +kernel
  exact answerable_of_sendCommand hsend

/-- With the documented lag of one transmission, a request for the weights and one for the status
both get answers with their codes. -/
theorem fetch_laggingBoard_rqiw_rqid : ∃ s, LagRun {} 1 {} s ∧
    (∃ r, s.calls 0 = some ⟨rqiwArgs, .finished r⟩ ∧ rqiwArgs.AnsweredBy r) ∧
    ∃ r, s.calls 1 = some ⟨rqidArgs, .finished r⟩ ∧ rqidArgs.AnsweredBy r := by
  have hboard := fetch_laggingBoard {} 1 (by decide)
  have hargs : ∀ args ∈ [rqiwArgs, rqidArgs], args.Answerable := by
    simpa using And.intro rqiwArgs_answerable rqidArgs_answerable
  obtain ⟨s, hrun, hfinished⟩ := hboard.2 _ hargs
  obtain ⟨r, hr⟩ := hfinished 0 rqiwArgs rfl
  obtain ⟨r', hr'⟩ := hfinished 1 rqidArgs rfl
  exact ⟨s, hrun, ⟨r, hr, ((hboard.1 s hrun).1 0 _ r hr rfl).1⟩,
    r', hr', ((hboard.1 s hrun).1 1 _ r' hr' rfl).1⟩

end IoBoard
