import IoBoard.FetchProgress

/-!
# The Drain Loop

`_drain_stale_input` reads until a read has waited 50 ms for nothing, or until the stream ends.
It counts nothing and has no deadline of its own: each read sets a new one. What ends it is what
the line does, and bytes that never pause for 50 ms keep it, and the mutex, forever.

## Conventions

Executions are infinite and fair in the sense of the module before: time goes on, and the event
loop serves every call that can go on. Times are exact rationals. A *silence* is a stretch of the
execution, from one state to a later one, with at least 50 ms between their clocks and no byte on
the connection in between; it is a statement about the actions of the environment. With which
`Wakeup` a read ends is not assumed, except that a read that waits with an empty buffer can only
end at its deadline, at the end of the stream, or by a cancellation.

## The two directions

* If a drain ends, the line has paused: the last read of the drain began with an empty buffer and
  had waited for its deadline, and nothing arrived since (`ReadSince` follows the read).
* If the line falls silent during a drain, the drain ends. An endless drain takes a step
  whenever it can, so before time passes the buffer is read out (`SilentSince`), the last of these
  reads waits with an empty buffer, and its deadline comes within the silence.

Then no drain is endless, and by the progress of `fetch` every call ends. A call that has ended
has released the mutex, and the bound on its attempts is the one that holds in every run.

## Main results

* `drain_cases`: what a step does to a call that is draining.
* `linePauses_of_drainsEnd`, `drainsEnd_of_linePauses`: a drain ends if and only if the line falls
  silent for 50 ms, the stream ends or the call is cancelled.
* `fetch_finishes_iff`: **every call finishes exactly if the line pauses in every drain**.
* `not_fetch_finishes`: on a noisy line a call drains forever.
-/

open Runs Execution

namespace IoBoard

variable {cfg : SerialModel} {s s' s₀ : State} {id : CallId} {act : Action} {args : FetchArgs}
  {a : Attempt} {d : ℚ}

/-! ### One step of a drain -/

/-- The stream has ended or raises: every read returns at once. -/
def Connection.Ended (n : Connection) : Prop :=
  n.eof = true ∨ n.exception.isSome

/-- It stays so. A new port is another connection. -/
theorem ended_of_stepped (h : Stepped cfg s act s') {n : ConnId} (hn : (s.conns n).Ended) :
    (s'.conns n).Ended := by
  have kept {m : ConnId} {k : Connection} (hk : (s.conns m).Ended → k.Ended) :
      ((s.setConn m k).conns n).Ended :=
    s.setConn_rel (R := fun n n' => n.Ended → n'.Ended) (fun _ hn => hn) hk n hn
  cases h with
  | resumed _ hr =>
      have hused := hr.conns_used n
      rw [Connection.Ended, hused.eof, hused.exception]
      exact hn
  | @cancelled id c =>
      obtain ⟨m, b, heq⟩ := s.exists_cancelWaiter c.stage
      rw [heq]
      exact kept fun hk => hk
  | received | closing => exact kept fun hk => hk
  | @lost m exc =>
      refine kept fun _ => ?_
      cases exc with
      | none => exact .inl (by simp [Connection.lose])
      | some e => exact .inr rfl
  | called | cancelledWaiting | ticked => exact hn

/-- A step that the drain of the call outlasts: the deadline after it. A read that has returned
something sets a new one, any other step keeps the old one. -/
inductive DrainMove (s s' : State) (id : CallId) (n : ConnId) (d : ℚ) : Action → ℚ → Prop
  | read {w} (hbuffer : (s.conns n).buffer ≠ []) (hclock : s'.clock = s.clock) :
      DrainMove s s' id n d (.resume id w) (s.clock + 1 / 20)
  | ticked {t} (hclock : s.clock ≤ s'.clock) (hbuffer : (s'.conns n).buffer = (s.conns n).buffer) :
      DrainMove s s' id n d (.tick t) d
  | received {bs} (hclock : s'.clock = s.clock)
      (hbuffer : (s'.conns n).buffer = (s.conns n).buffer ++ bs) :
      DrainMove s s' id n d (.receive n bs) d
  | kept {x : Action} (hx : ¬ (Resumes id x ∨ x = .cancel id)) (hn : ∀ bs, x ≠ .receive n bs)
      (hclock : s'.clock = s.clock) (hbuffer : (s'.conns n).buffer = (s.conns n).buffer) :
      DrainMove s s' id n d x d

/-- What ends a drain: the call is cancelled, the stream has ended, or a read has waited until
its deadline for nothing. -/
def DrainOver (s : State) (id : CallId) (n : ConnId) (d : ℚ) (act : Action) : Prop :=
  act = .cancel id ∨ (s.conns n).Ended ∨ (s.conns n).buffer = [] ∧ d ≤ s.clock

/-- A drain is left at its deadline, or because the stream has ended. The step that leaves it
transmits. -/
theorem drainOver_of_transmitted {c : Call} {w : Wakeup}
    (h : resumeAttempt cfg s id c a (.draining d) w = some s')
    (hb : (s.conns a.conn).buffer = [] ∨ (s.conns a.conn).exception = some .timeoutError) :
    (s.conns a.conn).Ended ∨ (s.conns a.conn).buffer = [] ∧ d ≤ s.clock := by
  cases w <;> simp only [resumeAttempt, reduceCtorEq] at h
  case ready =>
    cases hr : (s.conns a.conn).read with
    | none => simp only [hr, reduceCtorEq] at h
    | some q =>
        obtain ⟨e, he, -⟩ | ⟨-, -, heof, -⟩ | ⟨he, hne, -⟩ := Connection.read_eq_some hr
        · exact .inl (.inr (by rw [he]; rfl))
        · exact .inl (.inl heof)
        · obtain hnil | he' := hb
          · exact absurd hnil hne
          · cases he.symm.trans he'
  case timedOut =>
    rw [Option.ite_none_right_eq_some, Option.isNone_iff_eq_none,
      Connection.read_eq_none_iff] at h
    exact .inr ⟨h.1.1.2.1, h.1.2⟩

/-- A draining call that is resumed reads on, or leaves the drain. -/
theorem drain_resumed {w : Wakeup} (hc : s.Drains id args a d)
    (h : step cfg s (.resume id w) = some s') :
    (∃ d', s'.Drains id args a d' ∧ DrainMove s s' id a.conn d (.resume id w) d') ∨
      (∀ d', ¬ s'.Drains id args a d') ∧ DrainOver s id a.conn d (.resume id w) := by
  rw [State.Drains] at hc
  simp only [step, hc, Option.bind_some] at h
  have left {stage : Stage} (hcalls : s'.calls = Function.update s.calls id (some ⟨args, stage⟩))
      (hne : ∀ d', stage ≠ .attempting a (.draining d')) : ∀ d', ¬ s'.Drains id args a d' := by
    intro d' hd'
    rw [State.Drains, hcalls, Function.update_self] at hd'
    exact hne d' (congrArg Call.stage (Option.some.inj hd'))
  have ended {e : PyExc} {k : ℕ} (hf : Fails (s.conns a.conn) (.draining d) e k) :
      DrainOver s id a.conn d (.resume id w) := by
    cases hf with
    | raised he => exact .inr (.inl (.inr (by rw [he]; rfl)))
    | timedOut hp | incomplete hp => exact hp.elim
  obtain ⟨stage', hr⟩ := resumed_of_resume h
  have hcalls := hr.calls_eq
  cases hr with
  | moved hm => cases hm
  | read _ hread =>
      cases hread with
      | drained hb =>
          refine .inl ⟨s.clock + 1 / 20, ?_, .read hb rfl⟩
          rw [State.Drains, hcalls, Function.update_self]
  | transmitted hb =>
      exact .inr ⟨left hcalls (by simp), .inr (drainOver_of_transmitted h hb)⟩
  | retried hf | failed hf | cancelledInside hf =>
      exact .inr ⟨left hcalls (by simp), ended hf⟩
  | startOpen hst => obtain ⟨h, -⟩ | ⟨_, h, -⟩ := hst <;> cases h

/-- While a call drains, no other is inside the block, so nobody else reads from the connection. -/
theorem not_inside_of_drains (hs : Reachable cfg s) (hc : s.Drains id args a d) {j : CallId}
    {c : Call} (hj : s.calls j = some c) (hji : j ≠ id) : ¬ c.stage.isCritical :=
  (owned_of_reachable hs).exclusive hc trivial hj hji

/-- **What a step does to a call that is draining**: the drain outlasts the step, or what ends a
drain was there. -/
theorem drain_cases (hs : Reachable cfg s) (hc : s.Drains id args a d)
    (h : step cfg s act = some s') :
    (∃ d', s'.Drains id args a d' ∧ DrainMove s s' id a.conn d act d') ∨
      (∀ d', ¬ s'.Drains id args a d') ∧ DrainOver s id a.conn d act := by
  have hmutex : s.mutex = some id := owned_of_reachable hs id _ hc trivial
  have other {j : CallId} {c : Call} (hji : j ≠ id)
      (hcalls : s'.calls = Function.update s.calls j (some c)) : s'.Drains id args a d := by
    rw [State.Drains, hcalls, Function.update_of_ne hji.symm]
    exact hc
  cases stepped_of_step h with
  | @called j _ hnew =>
      have hji : j ≠ id := by
        rintro rfl
        cases hnew.symm.trans hc
      exact .inl ⟨d, other hji rfl, .kept (by simp [Resumes]) (by simp) rfl rfl⟩
  | @resumed j w c stage' _ hj hr =>
      by_cases hji : j = id
      · subst hji
        exact drain_resumed hc h
      · obtain ⟨-, -, hnone, -⟩ | ⟨hin, -⟩ | ⟨hin, -⟩ := hr.mutex_cases
        · cases hmutex.symm.trans hnone
        · exact absurd hin (not_inside_of_drains hs hc hj hji)
        · exact absurd hin (not_inside_of_drains hs hc hj hji)
  | @cancelledWaiting j c hj hstage =>
      have hji : j ≠ id := by
        rintro rfl
        obtain rfl := Option.some.inj (hj.symm.trans hc)
        cases hstage
      exact .inl ⟨d, other hji rfl, .kept (by simpa [Resumes] using hji) (by simp) rfl rfl⟩
  | @cancelled j c hj hin =>
      by_cases hji : j = id
      · subst hji
        refine .inr ⟨fun d' hd' => ?_, .inl rfl⟩
        rw [State.Drains, State.finish_calls, State.goto_calls, Function.update_self] at hd'
        cases congrArg Call.stage (Option.some.inj hd')
      · exact absurd hin (not_inside_of_drains hs hc hj hji)
  | ticked ht => exact .inl ⟨d, hc, .ticked (le_add_of_nonneg_right ht) rfl⟩
  | @received n bs =>
      by_cases hn : n = a.conn
      · subst hn
        refine .inl ⟨d, hc, .received rfl ?_⟩
        rw [State.setConn_conns, Function.update_self,
          Connection.buffer_feed (connsOk_of_reachable hs _).1]
      · refine .inl ⟨d, hc, .kept (by simp [Resumes]) (by simp [hn]) rfl ?_⟩
        rw [State.setConn_conns, Function.update_of_ne (Ne.symm hn)]
  | @closing n | @lost n =>
      refine .inl ⟨d, hc, .kept (by simp [Resumes]) (by simp) rfl ?_⟩
      refine s.setConn_rel (R := fun n n' => n'.buffer = n.buffer) (fun _ => rfl) ?_ a.conn
      rfl

/-! ### What ends a drain -/

section

variable (ρ : Execution (step cfg) s₀)

/-- From time `i` on no bytes arrive on the connection for 50 ms. The clock is that of the event
loop. -/
def SilentFrom (n : ConnId) (i : ℕ) : Prop :=
  ∃ j ≥ i, (ρ.state i).clock + 1 / 20 ≤ (ρ.state j).clock ∧
    ∀ k, i ≤ k → k < j → ∀ bs, ρ.action k = .receive n bs → bs = []

/-- **The line pauses in every drain**: after each read of a drain has begun, the line falls silent
for 50 ms at some time, or the stream ends, or the call is cancelled. -/
def LinePauses : Prop :=
  ∀ n id args a, (ρ.state n).Drains id args a ((ρ.state n).clock + 1 / 20) →
    ∃ i ≥ n, ρ.action i = .cancel id ∨ ((ρ.state i).conns a.conn).Ended ∨ SilentFrom ρ a.conn i

end

variable {ρ : Execution (step cfg) s₀} {n : ℕ}

/-- A draining call at the time `m`, in a read that began at the time `i`: nothing has arrived
since, unless it is still in the buffer. -/
structure ReadSince (ρ : Execution (step cfg) s₀) (id : CallId) (args : FetchArgs) (a : Attempt)
    (i m : ℕ) : Prop where
  le : i ≤ m
  drains : (ρ.state m).Drains id args a ((ρ.state i).clock + 1 / 20)
  silent : ((ρ.state m).conns a.conn).buffer = [] →
    ∀ k, i ≤ k → k < m → ∀ bs, ρ.action k = .receive a.conn bs → bs = []

/-- The read goes on, or the next one begins, and then nothing has arrived since it began. -/
theorem ReadSince.move {i m : ℕ} {d' : ℚ} (h : ReadSince ρ id args a i m)
    (hd' : (ρ.state (m + 1)).Drains id args a d')
    (hmove : DrainMove (ρ.state m) (ρ.state (m + 1)) id a.conn ((ρ.state i).clock + 1 / 20)
      (ρ.action m) d') :
    ReadSince ρ id args a i (m + 1) ∨ ReadSince ρ id args a (m + 1) (m + 1) := by
  generalize hact : ρ.action m = act at hmove
  have on (hbuffer : ((ρ.state (m + 1)).conns a.conn).buffer = [] →
      ((ρ.state m).conns a.conn).buffer = [] ∧ ∀ bs, act = .receive a.conn bs → bs = [])
      (hdrains : (ρ.state (m + 1)).Drains id args a ((ρ.state i).clock + 1 / 20)) :
      ReadSince ρ id args a i (m + 1) := by
    refine ⟨Nat.le_succ_of_le h.le, hdrains, fun hempty k hk hkm => ?_⟩
    obtain ⟨hbefore, hnow⟩ := hbuffer hempty
    rcases Nat.lt_succ_iff_lt_or_eq.mp hkm with hlt | rfl
    · exact h.silent hbefore k hk hlt
    · exact hact ▸ hnow
  cases hmove with
  | read _ hclock =>
      exact .inr ⟨le_rfl, hclock.symm ▸ hd', fun _ k hk hkm => absurd hkm (Nat.not_lt.mpr hk)⟩
  | ticked _ hbuffer => exact .inl (on (fun hempty => ⟨hbuffer ▸ hempty, by simp⟩) hd')
  | @received bs _ hbuffer =>
      refine .inl (on (fun hempty => ?_) hd')
      obtain ⟨hbefore, hnow⟩ := List.append_eq_nil_iff.mp (hbuffer.symm.trans hempty)
      refine ⟨hbefore, fun bs' hbs => ?_⟩
      cases hbs
      exact hnow
  | kept _ hn _ hbuffer =>
      exact .inl (on (fun hempty => ⟨hbuffer ▸ hempty, fun bs hbs => absurd hbs (hn bs)⟩) hd')

/-- **A drain ends only when the line has paused.** Follow the drain to the step that ends it,
with the read that is going on. -/
theorem linePauses_of_drainsEnd (h₀ : Reachable cfg s₀) (h : DrainsEnd ρ) : LinePauses ρ := by
  intro n id args a hn
  have hread : ReadSince ρ id args a n n :=
    ⟨le_rfl, hn, fun _ k hk hkn => absurd hkn (Nat.not_lt.mpr hk)⟩
  rcases forall_or_exists (P := fun m => ∃ i ≥ n, ReadSince ρ id args a i m) ⟨n, le_rfl, hread⟩
    with hall | ⟨m, hm, hupto, hleft⟩
  · obtain ⟨m, hm, hends⟩ := h n id args a _ hn
    obtain ⟨i, -, hi⟩ := hall m hm
    exact absurd hi.drains (hends _)
  · obtain ⟨i, hi, hread⟩ := hupto m hm le_rfl
    rcases drain_cases (reachable_state h₀ m) hread.drains (ρ.next m) with
      ⟨d', hd', hmove⟩ | ⟨-, hcancel | hended | ⟨hempty, htime⟩⟩
    · refine absurd ?_ hleft
      rcases hread.move hd' hmove with hsame | hnew
      · exact ⟨i, hi, hsame⟩
      · exact ⟨m + 1, hm.trans m.le_succ, hnew⟩
    · exact ⟨m, hm, .inl hcancel⟩
    · exact ⟨m, hm, .inr (.inl hended)⟩
    · exact ⟨i, hi, .inr (.inr ⟨m, hread.le, htime, hread.silent hempty⟩)⟩

/-! ### Drains that go on forever -/

/-- The call never leaves the drain. The deadlines of its reads may all be different. -/
def DrainsFrom (ρ : Execution (step cfg) s₀) (id : CallId) (args : FetchArgs) (a : Attempt)
    (n : ℕ) : Prop :=
  ∀ m ≥ n, ∃ d, (ρ.state m).Drains id args a d

/-- Every step of an endless drain is outlasted by it. -/
theorem DrainsFrom.move (h : DrainsFrom ρ id args a n) (h₀ : Reachable cfg s₀) {m : ℕ}
    (hm : n ≤ m) (hd : (ρ.state m).Drains id args a d) :
    ∃ d', (ρ.state (m + 1)).Drains id args a d' ∧
      DrainMove (ρ.state m) (ρ.state (m + 1)) id a.conn d (ρ.action m) d' := by
  rcases drain_cases (reachable_state h₀ m) hd (ρ.next m) with hmove | ⟨hleft, -⟩
  · exact hmove
  · obtain ⟨d', hd'⟩ := h (m + 1) (hm.trans m.le_succ)
    exact absurd hd' (hleft d')

/-- **A drain that could always go on would stop the clock**, since it would read before any
time passes. -/
theorem DrainsFrom.not_resumable (h : DrainsFrom ρ id args a n) (hfair : Fair ρ)
    (h₀ : Reachable cfg s₀) : ¬ ∀ m ≥ n, (ρ.state m).Resumable cfg id := by
  intro hresumable
  have stopped : ∀ m ≥ n, (ρ.state m).clock = (ρ.state n).clock := by
    intro m hm
    induction m, hm using Nat.le_induction with
    | base => rfl
    | succ m hm ih =>
        obtain ⟨d, hd⟩ := h m hm
        obtain ⟨d', -, hmove⟩ := h.move h₀ hm hd
        have hprompt := hfair.prompt m id args a d hd (hresumable m hm)
        rw [← ih]
        generalize ρ.action m = act at hmove hprompt
        cases hmove with
        | ticked => exact absurd trivial hprompt
        | read _ hclock | received hclock | kept _ _ hclock => exact hclock
  obtain ⟨m, hm⟩ := hfair.time ((ρ.state n).clock + 1)
  have hlate : (ρ.state n).clock + 1 ≤ (ρ.state n).clock :=
    (hm.trans (clock_mono (le_max_left m n))).trans (stopped _ (le_max_right m n)).le
  linarith

/-- A draining call whose stream has ended can go on, whatever is in the buffer. -/
theorem resumable_of_ended (hd : s.Drains id args a d) (h : (s.conns a.conn).Ended) :
    s.Resumable cfg id := by
  refine resumable_of_resume hd .ready (isSome_of_read cfg s id _ a d ?_)
  rw [Option.isSome_iff_ne_none, Ne, Connection.read_eq_none_iff]
  rintro ⟨he, -, heof⟩
  obtain h | h := h
  · cases heof.symm.trans h
  · rw [he] at h
    cases h

/-- A draining call whose deadline has passed can go on: the read times out, or returns what is
there. -/
theorem resumable_of_deadline (hd : s.Drains id args a d) (h : d ≤ s.clock) :
    s.Resumable cfg id :=
  resumable_of_due hd fun _ ht => Option.some.inj ht ▸ h

/-- The stream of an endless drain does not end: it would be left with the next read. -/
theorem DrainsFrom.not_ended (h : DrainsFrom ρ id args a n) (hfair : Fair ρ)
    (h₀ : Reachable cfg s₀) : ¬ ((ρ.state n).conns a.conn).Ended := by
  intro hn
  have ended : ∀ m ≥ n, ((ρ.state m).conns a.conn).Ended := by
    intro m hm
    induction m, hm using Nat.le_induction with
    | base => exact hn
    | succ m _ ih => exact ended_of_stepped (stepped_state m) ih
  refine h.not_resumable hfair h₀ fun m hm => ?_
  obtain ⟨d, hd⟩ := h m hm
  exact resumable_of_ended hd (ended m hm)

/-- **An endless drain does not come to a deadline with an empty buffer.** It could be left
there, and by fairness the call would be resumed. -/
theorem DrainsFrom.not_deadline (h : DrainsFrom ρ id args a n) (hfair : Fair ρ)
    (h₀ : Reachable cfg s₀) (hd : (ρ.state n).Drains id args a d)
    (hempty : ((ρ.state n).conns a.conn).buffer = []) : ¬ d ≤ (ρ.state n).clock := by
  intro htime
  have waiting : ∀ m ≥ n, (ρ.state m).Drains id args a d ∧
      ((ρ.state m).conns a.conn).buffer = [] ∧ d ≤ (ρ.state m).clock := by
    intro m hm
    induction m, hm using Nat.le_induction with
    | base => exact ⟨hd, hempty, htime⟩
    | succ m hm ih =>
        obtain ⟨hd, hempty, htime⟩ := ih
        obtain ⟨d', hd', hmove⟩ := h.move h₀ hm hd
        have hprompt := hfair.prompt m id args a d hd (resumable_of_deadline hd htime)
        generalize ρ.action m = act at hmove hprompt
        cases hmove with
        | read hbuffer => exact absurd hempty hbuffer
        | ticked => exact absurd trivial hprompt
        | received => exact absurd rfl hprompt
        | kept _ _ hclock hbuffer =>
            exact ⟨hd', hbuffer.trans hempty, hclock ▸ htime⟩
  exact h.not_resumable hfair h₀ fun m hm =>
    resumable_of_deadline (waiting m hm).1 (waiting m hm).2.2

/-- A read waits for 50 ms at most, from now on. -/
theorem DrainsFrom.deadline_le (h : DrainsFrom ρ id args a n) (h₀ : Reachable cfg s₀)
    (hd : (ρ.state n).Drains id args a ((ρ.state n).clock + 1 / 20)) :
    ∀ m ≥ n, ∃ d, (ρ.state m).Drains id args a d ∧ d ≤ (ρ.state m).clock + 1 / 20 := by
  intro m hm
  induction m, hm using Nat.le_induction with
  | base => exact ⟨_, hd, le_rfl⟩
  | succ m hm ih =>
      obtain ⟨d, hd, hle⟩ := ih
      obtain ⟨d', hd', hmove⟩ := h.move h₀ hm hd
      refine ⟨d', hd', ?_⟩
      have hclock : (ρ.state m).clock ≤ (ρ.state (m + 1)).clock := clock_mono m.le_succ
      generalize ρ.action m = act at hmove
      cases hmove with
      | read | ticked | received | kept => linarith

/-- At the time `m` of a silence that began at the time `n`: no time has passed and there is still
something to read, or the drain waits with an empty buffer in a read that began by then. -/
def SilentSince (ρ : Execution (step cfg) s₀) (id : CallId) (args : FetchArgs) (a : Attempt)
    (n m : ℕ) : Prop :=
  ∃ d, (ρ.state m).Drains id args a d ∧
    (((ρ.state m).conns a.conn).buffer = [] ∧ d ≤ (ρ.state n).clock + 1 / 20 ∨
      ((ρ.state m).conns a.conn).buffer ≠ [] ∧ (ρ.state m).clock = (ρ.state n).clock)

/-- A draining call with a full buffer can go on: the read returns at once. -/
theorem resumable_of_buffer (hd : s.Drains id args a d) (h : (s.conns a.conn).buffer ≠ []) :
    s.Resumable cfg id := by
  refine resumable_of_resume hd .ready (isSome_of_read cfg s id _ a d ?_)
  rw [Option.isSome_iff_ne_none, Ne, Connection.read_eq_none_iff]
  exact fun hnone => h hnone.2.1

/-- A step of the silence: before time passes the buffer is read out, and after that no read
begins. -/
theorem DrainsFrom.silent_move (h : DrainsFrom ρ id args a n) (hfair : Fair ρ)
    (h₀ : Reachable cfg s₀) {m : ℕ} (hm : n ≤ m)
    (hquiet : ∀ bs, ρ.action m = .receive a.conn bs → bs = [])
    (hsince : SilentSince ρ id args a n m) : SilentSince ρ id args a n (m + 1) := by
  obtain ⟨d, hd, hstate⟩ := hsince
  obtain ⟨d', hd', hmove⟩ := h.move h₀ hm hd
  refine ⟨d', hd', ?_⟩
  have hprompt := hfair.prompt m id args a d hd
  generalize ρ.action m = act at hmove hquiet hprompt
  cases hmove with
  | read hbuffer hclock =>
      obtain ⟨hempty, -⟩ | ⟨-, hnow⟩ := hstate
      · exact absurd hempty hbuffer
      · by_cases hempty : ((ρ.state (m + 1)).conns a.conn).buffer = []
        · exact .inl ⟨hempty, (congrArg (· + 1 / 20) hnow).le⟩
        · exact .inr ⟨hempty, hclock.trans hnow⟩
  | ticked _ hbuffer =>
      obtain ⟨hempty, hle⟩ | ⟨hne, -⟩ := hstate
      · exact .inl ⟨hbuffer.trans hempty, hle⟩
      · exact absurd trivial (hprompt (resumable_of_buffer hd hne))
  | received hclock hbuffer =>
      obtain rfl := hquiet _ rfl
      rw [hbuffer, List.append_nil, hclock]
      exact hstate
  | kept _ _ hclock hbuffer =>
      rw [hbuffer, hclock]
      exact hstate

/-- **In an endless drain the line never falls silent for 50 ms.** At the end of the silence the
drain would wait with an empty buffer at its deadline. -/
theorem DrainsFrom.not_silent (h : DrainsFrom ρ id args a n) (hfair : Fair ρ)
    (h₀ : Reachable cfg s₀) (hd : (ρ.state n).Drains id args a d)
    (hle : d ≤ (ρ.state n).clock + 1 / 20) : ¬ SilentFrom ρ a.conn n := by
  rintro ⟨j, hj, htime, hsilent⟩
  have since : ∀ m ≥ n, m ≤ j → SilentSince ρ id args a n m := by
    intro m hm
    induction m, hm using Nat.le_induction with
    | base =>
        intro _
        refine ⟨d, hd, ?_⟩
        by_cases hempty : ((ρ.state n).conns a.conn).buffer = []
        · exact .inl ⟨hempty, hle⟩
        · exact .inr ⟨hempty, rfl⟩
    | succ m hm ih =>
        intro hmj
        exact h.silent_move hfair h₀ hm (hsilent m hm hmj) (ih (Nat.le_of_succ_le hmj))
  obtain ⟨d', hd', ⟨hempty, hle'⟩ | ⟨-, hclock⟩⟩ := since j hj le_rfl
  · exact DrainsFrom.not_deadline (fun m hm => h m (hj.trans hm)) hfair h₀ hd' hempty
      (hle'.trans htime)
  · linarith

/-- In an endless drain one read begins after the other. Between them the line may pause, but
not for 50 ms. -/
theorem DrainsFrom.exists_read (h : DrainsFrom ρ id args a n) (hfair : Fair ρ)
    (h₀ : Reachable cfg s₀) :
    ∃ m ≥ n, (ρ.state m).Drains id args a ((ρ.state m).clock + 1 / 20) := by
  obtain ⟨d, hd⟩ := h n le_rfl
  obtain ⟨m, hm, hd', hact⟩ :=
    exists_moved hfair hd fun m _ hc => exists_due hfair h₀ hc trivial
  obtain ⟨d'', hd'', hmove⟩ := h.move h₀ hm hd'
  refine ⟨m + 1, hm.trans m.le_succ, ?_⟩
  generalize ρ.action m = act at hmove hact
  cases hmove with
  | read _ hclock => exact hclock.symm ▸ hd''
  | kept hx => exact absurd hact hx
  | ticked | received => obtain ⟨w, hw⟩ | hw := hact <;> cases hw

/-- **If the line pauses in every drain, no drain goes on forever.** An endless one would have a
read after which the line pauses. -/
theorem drainsEnd_of_linePauses (hfair : Fair ρ) (h₀ : Reachable cfg s₀) (h : LinePauses ρ) :
    DrainsEnd ρ := by
  intro n id args a d _
  by_contra hforever
  push Not at hforever
  obtain ⟨m, hm, hread⟩ := DrainsFrom.exists_read hforever hfair h₀
  have hfrom : DrainsFrom ρ id args a m := fun k hk => hforever k (hm.trans hk)
  obtain ⟨i, hi, hpause⟩ := h m id args a hread
  have hlast : DrainsFrom ρ id args a i := fun k hk => hfrom k (hi.trans hk)
  obtain ⟨d', hd', hle⟩ := hfrom.deadline_le h₀ hread i hi
  rcases hpause with hcancel | hended | hsilent
  · obtain ⟨d'', -, hmove⟩ := hlast.move h₀ le_rfl hd'
    rw [hcancel] at hmove
    cases hmove with
    | kept hx => exact hx (.inr rfl)
  · exact hlast.not_ended hfair h₀ hended
  · exact hlast.not_silent hfair h₀ hd' hle hsilent

/-! ### Termination of fetch -/

/-- **Fetch always finishes**: every drain stops, every call makes at most `max_retries` attempts,
ends and releases the mutex. -/
structure Finishes (ρ : Execution (step cfg) s₀) : Prop where
  drains : DrainsEnd ρ
  attempts : ∀ n id args a p, (ρ.state n).calls id = some ⟨args, .attempting a p⟩ →
    a.number ≤ cfg.maxRetries
  transmissions : ∀ n id, (ρ.state n).owners.count id ≤ cfg.maxRetries
  ends : ∀ n id, ((ρ.state n).calls id).isSome →
    ∃ m ≥ n, ((ρ.state m).result id).isSome ∧ (ρ.state m).mutex ≠ some id

/-- **Every call finishes exactly if the line pauses in every drain**, whatever the schedule of
the tasks, of time and of the bytes that arrive. -/
theorem fetch_finishes_iff (cfg : SerialModel) {s₀ : State} (ρ : Execution (step cfg) s₀)
    (h₀ : Reachable cfg s₀) (hfair : Fair ρ) : Finishes ρ ↔ LinePauses ρ := by
  constructor
  · exact fun h => linePauses_of_drainsEnd h₀ h.drains
  · intro h
    have hdrain := drainsEnd_of_linePauses hfair h₀ h
    refine ⟨hdrain, fun n id args a p hc => ?_, fun n id => ?_, fun n id hc => ?_⟩
    · exact ((logInv_of_reachable (reachable_state h₀ n)).counted id _ hc).1
    · exact (logInv_of_reachable (reachable_state h₀ n)).blocks.count_le id
    · obtain ⟨m, hm, hends⟩ := callEnds_of_drainsEnd hfair h₀ hdrain hc
      exact ⟨m, hm, hends, mutex_ne_of_result (reachable_state h₀ m) hends⟩

/-! ### A noisy line and a silent one -/

/-- The first attempt on the first connection, with the default delay. -/
def noiseAttempt : Attempt where
  conn := 0
  number := 1
  retryDelay := 1 / 10

/-- A call drains a line on which a byte arrives every 10 ms: `received` bytes so far, of which
`consumed` have been read. -/
@[simps] def noise (clock deadline : ℚ) (received consumed : ℕ) : State where
  clock := clock
  mutex := some 0
  connection := some 0
  conns := Function.update (fun _ => {}) 0
    { received := List.replicate received 85, consumed := consumed }
  nextConn := 1
  calls := Function.update (fun _ => none) 0
    (some ⟨rqiwArgs, .attempting noiseAttempt (.draining deadline)⟩)
  log := [.opening 0]

theorem noise_call (t d : ℚ) (k l : ℕ) : (noise t d k l).calls 0 =
    some ⟨rqiwArgs, .attempting noiseAttempt (.draining d)⟩ := by
  rw [noise_calls, Function.update_self]

theorem noise_conn (t d : ℚ) (k l : ℕ) :
    (noise t d k l).conns 0 = { received := List.replicate k 85, consumed := l } := by
  rw [noise_conns, Function.update_self]

/-- Time passes on a noisy line. The read that waits has not come to its deadline. -/
theorem noise_tick (t d : ℚ) (k l : ℕ) {x : ℚ} (hx : 0 ≤ x) :
    step {} (noise t d k l) (.tick x) = some (noise (t + x) d k l) := by
  rw [step, if_pos hx]
  rfl

/-- A byte arrives on it. -/
theorem noise_receive (t d : ℚ) (k l : ℕ) :
    step {} (noise t d k l) (.receive 0 [85]) = some (noise t d (k + 1) l) := by
  have hopen : 0 < (noise t d k l).nextConn ∧ ((noise t d k l).conns 0).closing = false := by
    rw [noise_conn]
    exact ⟨Nat.zero_lt_one, rfl⟩
  rw [step, if_pos hopen, noise_conn]
  simp only [noise, State.setConn, Connection.feed, Function.update_idem, List.replicate_succ']

/-- The drain reads the byte, and waits for the next one. -/
theorem noise_read (t d : ℚ) (k : ℕ) : step {} (noise t d (k + 1) k) (.resume 0 .ready) =
    some (noise t (t + 1 / 20) (k + 1) (k + 1)) := by
  have hbuffer : ((noise t d (k + 1) k).conns 0).buffer = [85] := by
    rw [noise_conn, Connection.buffer, List.drop_replicate, Nat.add_sub_cancel_left]
    rfl
  have hread : ((noise t d (k + 1) k).conns 0).read =
      some (.ok [85], ((noise t d (k + 1) k).conns 0).consume 1) := by
    rw [Connection.read, hbuffer, noise_conn]
    rfl
  have hconn : noiseAttempt.conn = 0 := rfl
  simp only [step, noise_call, Option.bind_some, resume, resumeAttempt, hconn, hread]
  simp only [noise, State.drain, State.goto, State.setConn, Connection.consume,
    Function.update_idem, Function.update_self]

/-- A read that waits cannot be resumed before its deadline. -/
theorem noise_waits {t d : ℚ} (k : ℕ) (h : t < d) : ¬ (noise t d k k).Resumable {} 0 := by
  rintro ⟨_, ⟨w, rfl⟩, hw⟩
  have hread : ((noise t d k k).conns 0).read = none := by
    rw [Connection.read_eq_none_iff, noise_conn]
    exact ⟨rfl, by simp [Connection.buffer], rfl⟩
  have hconn : noiseAttempt.conn = 0 := rfl
  simp only [step, noise_call, Option.bind_some, resume] at hw
  cases w with
  | ready => simp only [resumeAttempt, hconn, hread, Option.isSome_none, Bool.false_eq_true] at hw
  | timedOut =>
      have hlate : ¬ d ≤ (noise t d k k).clock := not_le.mpr h
      simp only [resumeAttempt, hlate, and_false, if_false, Option.isSome_none,
        Bool.false_eq_true] at hw
  | raised | lowLatency => cases hw

/-- A call that waits for the port to open, on its way to its first drain. -/
def noiseOpening : State where
  mutex := some 0
  calls := Function.update (fun _ => none) 0 (some ⟨rqiwArgs, .opening⟩)
  log := [.opening 0]

theorem runFrom_noiseOpening : runFrom (step {}) {}
    [.call 0 rqiwArgs, .resume 0 .ready, .resume 0 .ready] = some noiseOpening := by
  simp only [runFrom, step, resume, Option.isNone_none, if_true, Option.bind_some, State.goto,
    State.record, State.getSerialConnection, Function.update_self, Function.update_idem,
    List.nil_append, noiseOpening]

theorem interCommandWake_eq_none (h : s.lastRxCompleteTime = none) :
    s.interCommandWake cfg = none := by
  simp only [State.interCommandWake, h, Option.bind_none, ite_self]

theorem wireMinGapWake_eq_none (h : s.lastRequestTx = fun _ => none) :
    s.wireMinGapWake args = none := by
  simp only [State.wireMinGapWake, h, Option.bind_none, ite_self]

theorem runFrom_noise : runFrom (step {}) noiseOpening
    [.resume 0 .ready, .resume 0 .ready, .resume 0 .ready] = some (noise 0 (1 / 20) 0 0) := by
  simp only [runFrom, step, resume, resumeAttempt, Option.bind_some, State.goto, State.connected,
    State.drain, Function.update_self, Function.update_idem, interCommandWake_eq_none,
    wireMinGapWake_eq_none, noiseOpening, firstAttempt, zero_add]
  simp only [noise, noiseAttempt, List.replicate_zero, Function.update_eq_self]

/-- The first drain on the noisy line is a state of a run. -/
theorem noise_reachable : Reachable {} (noise 0 (1 / 20) 0 0) :=
  (reaches_of_runFrom runFrom_noiseOpening).trans (reaches_of_runFrom runFrom_noise)

/-- Before the byte `k` of a noisy line time passes, then it arrives, then it is read. -/
def noiseAt (k : ℕ) : ℕ → State
  | 0 => noise (k / 100) (k / 100 + 1 / 20) k k
  | 1 => noise (k / 100 + 1 / 100) (k / 100 + 1 / 20) k k
  | _ => noise (k / 100 + 1 / 100) (k / 100 + 1 / 20) (k + 1) k

/-- The action in each of these states, the three in turn. -/
def noiseAction : ℕ → Action
  | 0 => .tick (1 / 100)
  | 1 => .receive 0 [85]
  | _ => .resume 0 .ready

theorem noiseAt_zero : noiseAt 0 0 = noise 0 (1 / 20) 0 0 := by
  simp [noiseAt]

theorem noise_next (n : ℕ) : step {} (noiseAt (n / 3) (n % 3)) (noiseAction (n % 3)) =
    some (noiseAt ((n + 1) / 3) ((n + 1) % 3)) := by
  have hcases : n % 3 = 0 ∨ n % 3 = 1 ∨ n % 3 = 2 := by omega
  rcases hcases with hmod | hmod | hmod
  · have hnext : (n + 1) / 3 = n / 3 ∧ (n + 1) % 3 = 1 := by omega
    rw [hmod, hnext.1, hnext.2]
    exact noise_tick _ _ _ _ (by norm_num)
  · have hnext : (n + 1) / 3 = n / 3 ∧ (n + 1) % 3 = 2 := by omega
    rw [hmod, hnext.1, hnext.2]
    exact noise_receive ..
  · have hnext : (n + 1) / 3 = n / 3 + 1 ∧ (n + 1) % 3 = 0 := by omega
    have htime : ((n / 3 + 1 : ℕ) : ℚ) / 100 = ((n / 3 : ℕ) : ℚ) / 100 + 1 / 100 := by
      rw [Nat.cast_add, Nat.cast_one, add_div]
    rw [hmod, hnext.1, hnext.2, noiseAt, htime]
    exact noise_read ..

/-- **A noisy line**: a byte every 10 ms, each of which is read at once. -/
def noiseRun : Execution (step {}) (noise 0 (1 / 20) 0 0) where
  state n := noiseAt (n / 3) (n % 3)
  action n := noiseAction (n % 3)
  start := noiseAt_zero
  next := noise_next

/-- Every state of the noisy line is one of `noise`: the only call is in its drain. -/
theorem exists_noise (n : ℕ) : ∃ t d k l, noiseRun.state n = noise t d k l := by
  have hcases : n % 3 = 0 ∨ n % 3 = 1 ∨ n % 3 = 2 := by omega
  change ∃ t d k l, noiseAt (n / 3) (n % 3) = noise t d k l
  rcases hcases with hmod | hmod | hmod <;> rw [hmod] <;> exact ⟨_, _, _, _, rfl⟩

/-- There is no other call on the noisy line. -/
theorem noise_call_cases {t d : ℚ} {k l : ℕ} {id : CallId} {c : Call}
    (h : (noise t d k l).calls id = some c) :
    id = 0 ∧ c = ⟨rqiwArgs, .attempting noiseAttempt (.draining d)⟩ := by
  rw [noise_calls] at h
  rcases update_eq_some.mp h with ⟨rfl, rfl⟩ | ⟨-, h⟩
  · exact ⟨rfl, rfl⟩
  · cases h

/-- The event loop serves the call as it should, and the noise goes on. -/
theorem noiseRun_fair : Fair noiseRun := by
  refine ⟨fun t => ?_, fun id n henabled => ?_, fun n m hclosing => ?_,
    fun n id args a d hd hresumable => ?_⟩
  · obtain ⟨k, hk⟩ := exists_nat_ge (t * 100)
    refine ⟨3 * k, ?_⟩
    have hstate : noiseRun.state (3 * k) = noise (k / 100) (k / 100 + 1 / 20) k k := by
      change noiseAt (3 * k / 3) (3 * k % 3) = _
      rw [Nat.mul_div_cancel_left k (Nat.succ_pos 2), Nat.mul_mod_right]
      rfl
    rw [hstate, noise_clock]
    linarith
  · obtain ⟨k, -, _, ⟨w, rfl⟩, hw⟩ := henabled n le_rfl
    obtain ⟨t, d, i, j, hstate⟩ := exists_noise k
    rw [hstate] at hw
    obtain ⟨s', hs'⟩ := Option.isSome_iff_exists.mp hw
    obtain ⟨c, hc, -⟩ := Option.bind_eq_some_iff.mp hs'
    obtain ⟨rfl, -⟩ := noise_call_cases hc
    refine ⟨3 * n + 2, by omega, .ready, ?_⟩
    have hmod : (3 * n + 2) % 3 = 2 := by omega
    change noiseAction ((3 * n + 2) % 3) = _
    rw [hmod]
    rfl
  · obtain ⟨t, d, i, j, hstate⟩ := exists_noise n
    rw [hstate, noise_conns, Function.update_apply] at hclosing
    split_ifs at hclosing
  · have hcases : n % 3 = 0 ∨ n % 3 = 1 ∨ n % 3 = 2 := by omega
    have hid : id = 0 := by
      obtain ⟨t, d', i, j, hstate⟩ := exists_noise n
      rw [State.Drains, hstate] at hd
      exact (noise_call_cases hd).1
    subst hid
    change (noiseAt (n / 3) (n % 3)).Resumable {} 0 at hresumable
    change ¬ (noiseAction (n % 3)).Delays a.conn
    rcases hcases with hmod | hmod | hmod <;> rw [hmod] at hresumable ⊢
    · exact absurd hresumable (noise_waits _ (by linarith))
    · exact absurd hresumable (noise_waits _ (by linarith))
    · exact not_false

/-- Not every call finishes: a byte every 10 ms keeps the drain, and the mutex, forever. -/
theorem not_fetch_finishes : ¬ ∀ (cfg : SerialModel) (s₀ : State) (ρ : Execution (step cfg) s₀),
    Reachable cfg s₀ → Fair ρ → Finishes ρ := by
  intro h
  have hnoise := h {} _ noiseRun noise_reachable noiseRun_fair
  obtain ⟨n, -, hends, -⟩ := hnoise.ends 0 0 (by rw [noiseRun.start, noise_call]; rfl)
  obtain ⟨t, d, k, l, hstate⟩ := exists_noise n
  rw [State.result, hstate, noise_call] at hends
  cases hends

/-- The state after 50 ms of silence: the message is sent. -/
def quietSent : State :=
  (noise (1 / 20) (1 / 20) 0 0).transmit 0 ⟨rqiwArgs, .attempting noiseAttempt (.draining (1 / 20))⟩
    noiseAttempt

theorem quietSent_call :
    quietSent.calls 0 = some ⟨rqiwArgs, .attempting noiseAttempt .flushing⟩ := by
  rw [quietSent, State.transmit_calls, State.goto_calls, Function.update_self]

theorem quietSent_call_of_ne {id : CallId} (h : id ≠ 0) : quietSent.calls id = none := by
  rw [quietSent, State.transmit_calls, State.goto_calls, Function.update_of_ne h,
    State.record_calls, noise_calls, Function.update_of_ne h]

theorem step_quietSent :
    step {} (noise (1 / 20) (1 / 20) 0 0) (.resume 0 .timedOut) = some quietSent := by
  have hread : ((noise (1 / 20) (1 / 20) 0 0).conns 0).read = none := by
    rw [Connection.read_eq_none_iff, noise_conn]
    exact ⟨rfl, rfl, rfl⟩
  have hconn : noiseAttempt.conn = 0 := rfl
  simp only [step, noise_call, Option.bind_some, resume, resumeAttempt, hconn, hread, noise_clock,
    Option.isNone_none, le_refl, and_self, if_true, quietSent]

/-- The call is cancelled while it waits for `writer.drain()`. -/
def quietEnd : State :=
  quietSent.finish 0 ⟨rqiwArgs, .attempting noiseAttempt .flushing⟩ (.error .cancelledError)

theorem step_quietEnd : step {} quietSent (.cancel 0) = some quietEnd := by
  simp only [step, quietSent_call, Option.bind_some, cancel, quietEnd]
  rfl

theorem quietEnd_idle : quietEnd.Idle := by
  refine ⟨fun id c hc => ?_, fun n hn => ?_⟩
  · rw [quietEnd, State.finish_calls, State.goto_calls] at hc
    rcases update_eq_some.mp hc with ⟨-, rfl⟩ | ⟨hid, hc⟩
    · exact ⟨_, rfl⟩
    · cases (quietSent_call_of_ne hid).symm.trans hc
  · change ((noise (1 / 20) (1 / 20) 0 0).conns n).closing = true at hn
    rw [noise_conns, Function.update_apply] at hn
    split_ifs at hn

theorem step_quietTick :
    step {} (noise 0 (1 / 20) 0 0) (.tick (1 / 20)) = some (noise (1 / 20) (1 / 20) 0 0) := by
  rw [noise_tick _ _ _ _ (by norm_num), zero_add]

/-- A line that falls silent: the drain ends, the message is sent, and the call is cancelled.
After that nothing is left to be done. -/
def quietRun : Execution (step {}) (noise 0 (1 / 20) 0 0) :=
  .cons step_quietTick (.cons step_quietSent (.cons step_quietEnd (idle {} quietEnd)))

theorem quietRun_fair : Fair quietRun := by
  refine (((fair_idle {} quietEnd_idle).cons step_quietEnd ?_).cons step_quietSent ?_).cons
    step_quietTick ?_
  · exact fun _ _ _ _ _ _ => not_false
  · exact fun _ _ _ _ _ _ => not_false
  · intro id args a d hd hresumable
    obtain ⟨rfl, -⟩ := noise_call_cases hd
    exact absurd hresumable (noise_waits 0 (by norm_num))

theorem quietRun_linePauses : LinePauses quietRun := by
  intro n id args a hd
  rcases n with _ | _ | _ | n
  · have hsilent : SilentFrom quietRun a.conn 0 := by
      refine ⟨1, Nat.zero_le 1, ?_, fun k _ hk bs hact => ?_⟩
      · change (0 : ℚ) + 1 / 20 ≤ 1 / 20
        rw [zero_add]
      · obtain rfl : k = 0 := by omega
        cases hact
    exact ⟨0, le_rfl, .inr (.inr hsilent)⟩
  · have hcall := congrArg Call.stage (noise_call_cases hd).2
    obtain ⟨-, hdeadline⟩ := Stage.attempting.inj hcall
    have hclock : (1 / 20 : ℚ) + 1 / 20 = 1 / 20 := Phase.draining.inj hdeadline
    norm_num at hclock
  · by_cases hid : id = 0
    · subst hid
      cases quietSent_call.symm.trans hd
    · cases (quietSent_call_of_ne hid).symm.trans hd
  · obtain ⟨r, hr⟩ := quietEnd_idle.calls id _ hd
    cases hr

/-- On a silent line the call finishes. -/
theorem fetch_finishes_quietRun : Finishes quietRun :=
  (fetch_finishes_iff {} quietRun noise_reachable quietRun_fair).mpr quietRun_linePauses

end IoBoard
