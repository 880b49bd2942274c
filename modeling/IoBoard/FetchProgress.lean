import IoBoard.Lib.Executions
import IoBoard.SerialCalls
import Mathlib.Algebra.Order.Archimedean.Basic

/-!
# Progress of Fetch

What an event loop that serves every task makes of a `fetch` call, over infinite runs. Every
stage of a call but one can be left at some time that the stage itself sets: a sleep has a wake
time, a read a deadline, a transport that closes is lost. The reads of a drain have deadlines as
well, but a new one each, so the drain is the only stage that can hold a call forever.

## What is assumed of the environment

`Fair` is what the theorems assume of an execution, and it is about the event loop and the
platform, not about the board: time goes on beyond every bound, a call that can be resumed again
and again is resumed, a transport that closes is lost at some time, and a drain that can read on
does so before time passes and before more bytes arrive. The last one says that the loop is not
too busy to read: without it a byte could arrive before every read, and no pause of the line
would ever be seen.

Times are exact rationals. With which `Wakeup` a call is resumed is left to the execution: a read
whose deadline has come may time out, and one that has its bytes may return them at any time. Any
call may also be cancelled at any time, which ends it. Nothing is assumed about what arrives.

## The measure

`Stage.rest` counts the stages that a call may still have to go through, for the attempts that are
left. Every resumption makes it smaller, except for the reads of a drain, which leave it. The
number of attempts is bounded by the transmissions that are counted in the state, by
the invariant of the serial model.

## Main results

* `resumable_of_due`: a call whose await is over can be resumed.
* `rest_lt_of_resumed`: every resumption brings the call closer to its end, but for the reads of
  a drain.
* `callEnds_of_drainsEnd`: **if no drain goes on forever, every call ends**.
-/

open Runs Execution

namespace IoBoard

variable {cfg : SerialModel} {s s' s₀ : State} {id : CallId} {c : Call} {stage stage' : Stage}
  {act : Action}

/-! ### When a call can be resumed -/

/-- The action resumes the call, with some wakeup. -/
def Resumes (id : CallId) (act : Action) : Prop :=
  ∃ w, act = .resume id w

/-- The call can be resumed: the await that it is suspended at can be over now, one way or
another. -/
def State.Resumable (s : State) (cfg : SerialModel) (id : CallId) : Prop :=
  Enabled (step cfg) (Resumes id) s

theorem resumable_of_resume (hc : s.calls id = some c) (w : Wakeup)
    (h : (resume cfg s id c c.stage w).isSome) : s.Resumable cfg id :=
  ⟨.resume id w, ⟨w, rfl⟩, by simpa only [step, hc, Option.bind_some] using h⟩

/-- The wake time or the deadline of an await. The phases without one do not wait for time. -/
def Phase.time : Phase → Option ℚ
  | .interCommandSleep wake | .wireMinGapSleep wake | .backoff wake => some wake
  | .draining d | .readingHeader d | .readingBody _ d | .readingChecksum _ d => some d
  | .interCommandGap | .wireMinGap | .flushing => none

/-- The await of a stage is over: the mutex is free, `wait_closed` does not wait any more, or the
time has come. -/
def Stage.Due (s : State) : Stage → Prop
  | .acquiring => s.mutex = none
  | .awaitingClose n | .resetting n _ => (s.conns n).waitClosed.isSome
  | .attempting _ p => ∀ t, p.time = some t → t ≤ s.clock
  | .finished _ => False
  | .connecting | .opening => True

/-- A drain that does not have to wait goes on. -/
theorem isSome_of_read (cfg : SerialModel) (s : State) (id : CallId) (c : Call) (a : Attempt)
    (d : ℚ) (h : (s.conns a.conn).read.isSome) :
    (resumeAttempt cfg s id c a (.draining d) .ready).isSome := by
  obtain ⟨⟨r, n⟩, hr⟩ := Option.isSome_iff_exists.mp h
  cases r with
  | error e => cases e <;> simp [resumeAttempt, hr]
  | ok bs => cases bs <;> simp [resumeAttempt, hr]

/-- An attempt whose await is over goes on with some wakeup: a timeout where there was a
deadline, and otherwise what it has waited for. -/
theorem exists_resumeAttempt (cfg : SerialModel) (s : State) (id : CallId) (c : Call)
    (a : Attempt) {p : Phase} (h : ∀ t, p.time = some t → t ≤ s.clock) :
    ∃ w, (resumeAttempt cfg s id c a p w).isSome := by
  cases p with
  | interCommandGap =>
      refine ⟨.ready, ?_⟩
      cases hw : s.interCommandWake cfg <;> simp only [resumeAttempt, hw, Option.isSome_some]
  | wireMinGap =>
      refine ⟨.ready, ?_⟩
      cases hw : s.wireMinGapWake c.args <;> simp only [resumeAttempt, hw, Option.isSome_some]
  | interCommandSleep wake | wireMinGapSleep wake | backoff wake =>
      have hwake : wake ≤ s.clock := h wake rfl
      exact ⟨.ready, by simp only [resumeAttempt, hwake, if_true, Option.isSome_some]⟩
  | flushing => exact ⟨.ready, rfl⟩
  | draining d =>
      have hd : d ≤ s.clock := h d rfl
      cases hr : (s.conns a.conn).read with
      | none => exact ⟨.timedOut, by simp [resumeAttempt, hr, hd]⟩
      | some q => exact ⟨.ready, isSome_of_read cfg s id c a d (by rw [hr]; rfl)⟩
  | readingHeader d | readingChecksum _ d =>
      have hd : d ≤ s.clock := h d rfl
      cases hr : (s.conns a.conn).readexactly with
      | none => exact ⟨.timedOut, by simp [resumeAttempt, hr, hd]⟩
      | some q =>
          refine ⟨.ready, ?_⟩
          obtain ⟨_ | _, n⟩ := q <;> simp [resumeAttempt, hr]
  | readingBody _ d =>
      have hd : d ≤ s.clock := h d rfl
      cases hr : (s.conns a.conn).readuntil with
      | none => exact ⟨.timedOut, by simp [resumeAttempt, hr, hd]⟩
      | some q =>
          refine ⟨.ready, ?_⟩
          obtain ⟨_ | _, n⟩ := q <;> simp [resumeAttempt, hr]

/-- **A call whose await is over can be resumed**, by the cases of its stage. -/
theorem resumable_of_due (hc : s.calls id = some c) (h : c.stage.Due s) : s.Resumable cfg id := by
  obtain ⟨args, stage⟩ := c
  cases stage with
  | acquiring =>
      have hmutex : s.mutex = none := h
      exact resumable_of_resume hc .ready (by simp [resume, hmutex])
  | connecting | opening => exact resumable_of_resume hc .ready rfl
  | awaitingClose n | resetting n e =>
      obtain ⟨exc, hexc⟩ := Option.isSome_iff_exists.mp h
      refine resumable_of_resume hc .ready ?_
      cases exc <;> simp [resume, hexc]
  | attempting a p =>
      obtain ⟨w, hw⟩ := exists_resumeAttempt cfg s id ⟨args, .attempting a p⟩ a h
      exact resumable_of_resume hc w hw
  | finished => exact h.elim

/-! ### How far a call is from its end -/

/-- How many phases an attempt still has. A backoff is counted with the attempt before it. -/
def Phase.rest : Phase → ℕ
  | .interCommandGap => 9
  | .interCommandSleep _ => 8
  | .wireMinGap => 7
  | .wireMinGapSleep _ => 6
  | .draining _ => 5
  | .flushing => 4
  | .readingHeader _ => 3
  | .readingBody _ _ => 2
  | .readingChecksum _ _ => 1
  | .backoff _ => 0

/-- How many stages a call still has, with at most `m` attempts. An attempt has ten phases at
most. -/
def Stage.rest (m : ℕ) : Stage → ℕ
  | .acquiring => 10 * m + 5
  | .connecting => 10 * m + 4
  | .awaitingClose _ => 10 * m + 3
  | .opening => 10 * m + 2
  | .attempting a p => 10 * (m - a.number) + p.rest + 2
  | .resetting _ _ => 1
  | .finished _ => 0

/-- How many stages the call still has. A call that does not exist has none. -/
def State.rest (s : State) (cfg : SerialModel) (id : CallId) : ℕ :=
  (s.calls id).elim 0 fun c => c.stage.rest cfg.maxRetries

theorem rest_of_calls (hc : s.calls id = some c) :
    s.rest cfg id = c.stage.rest cfg.maxRetries := by
  rw [State.rest, hc, Option.elim_some]

/-- The retry loop begins with its first attempt, and that is closer to the end than the opening
of the port. -/
theorem rest_firstAttempt_lt (cfg : SerialModel) (n : ConnId) :
    (Stage.attempting (firstAttempt cfg n) .interCommandGap).rest cfg.maxRetries <
      10 * cfg.maxRetries + 2 := by
  have hone := cfg.validateMaxRetries
  simp only [Stage.rest, Phase.rest, firstAttempt]
  omega

/-- A phase that can fail is not the last one. -/
theorem Fails.rest_pos {n : Connection} {p : Phase} {e : PyExc} {k : ℕ} (h : Fails n p e k) :
    0 < p.rest := by
  have reading (hp : p.isReading) : 0 < p.rest := by
    cases p with
    | readingHeader | readingBody | readingChecksum => exact Nat.succ_pos _
    | _ => exact hp.elim
  cases h with
  | raised _ hp =>
      obtain hp | ⟨d, rfl⟩ := hp
      · exact reading hp
      · exact Nat.succ_pos _
  | flushing | overrun => exact Nat.succ_pos _
  | timedOut hp | incomplete hp => exact reading hp

/-- **A resumption brings a call closer to its end**, but for the reads of a drain. A new
attempt is paid for by the one before it. -/
theorem rest_lt_of_resumed (hcounted : Counted cfg.maxRetries s.owners id stage)
    (h : Resumed cfg s id c stage stage' s') :
    stage'.rest cfg.maxRetries < stage.rest cfg.maxRetries ∨
      ∃ a d, stage = .attempting a (.draining d) ∧
        stage' = .attempting a (.draining (s.clock + 1 / 20)) := by
  cases h with
  | acquired => exact .inl (by simp only [Stage.rest]; omega)
  | moved hm =>
      cases hm with
      | @nextAttempt a wake _ =>
          have hlt : a.number < cfg.maxRetries := hcounted.2.1 wake rfl
          refine .inl ?_
          simp only [Stage.rest, Phase.rest, Attempt.next]
          omega
      | _ => exact .inl (by simp only [Stage.rest, Phase.rest]; omega)
  | reused | opened =>
      refine .inl (lt_of_lt_of_le (rest_firstAttempt_lt cfg _) ?_)
      simp only [Stage.rest]
      omega
  | startOpen hst =>
      obtain ⟨rfl, -⟩ | ⟨n, rfl, -⟩ := hst <;>
        exact .inl (by simp only [Stage.rest]; omega)
  | openFailed | lowLatencyFailed | closeRaised | resetDone | cancelledInside | accepted =>
      exact .inl (by simp only [Stage.rest]; omega)
  | read _ hread =>
      cases hread with
      | drained => exact .inr ⟨_, _, rfl, rfl⟩
      | header | body => exact .inl (by simp only [Stage.rest, Phase.rest]; omega)
  | transmitted => exact .inl (by simp only [Stage.rest, Phase.rest]; omega)
  | retried hf =>
      refine .inl ?_
      simp only [Stage.rest]
      exact Nat.add_lt_add_right (Nat.add_lt_add_left hf.rest_pos _) 2
  | failed | rejected => exact .inl (by simp only [Stage.rest]; omega)
  | discarded => exact .inl (by simp only [Stage.rest, Phase.rest]; omega)

/-! ### Executions -/

/-- The call is in the drain of the attempt, in a read with this deadline. The read before it
has returned something, or there was none. -/
def State.Drains (s : State) (id : CallId) (args : FetchArgs) (a : Attempt) (d : ℚ) : Prop :=
  s.calls id = some ⟨args, .attempting a (.draining d)⟩

section

variable (ρ : Execution (step cfg) s₀)

/-- The action lets time pass, or bytes arrive on the connection. These are the two that may not
come before a read that can go on. -/
def Action.Delays (n : ConnId) : Action → Prop
  | .tick _ => True
  | .receive m _ => m = n
  | _ => False

/-- **An event loop that serves every task**, on a platform that does what it is asked to. The
fields are the four assumptions on an execution; none of them is about the board. -/
structure Fair : Prop where
  /-- Time goes on. -/
  time : ∀ t, ∃ n, t ≤ (ρ.state n).clock
  /-- A call that can be resumed again and again is resumed; `asyncio.Lock` is fair. -/
  resumes : ∀ id, ρ.StronglyFair (Resumes id)
  /-- A transport that closes is lost at some time. -/
  closes : ∀ n m, ((ρ.state n).conns m).closing = true →
    ∃ k ≥ n, ((ρ.state k).conns m).closed.isSome
  /-- A drain that can go on does so before time passes and before more bytes arrive. -/
  prompt : ∀ n id args a d, (ρ.state n).Drains id args a d → (ρ.state n).Resumable cfg id →
    ¬ (ρ.action n).Delays a.conn

end

variable {ρ : Execution (step cfg) s₀} {n : ℕ}

theorem reachable_state (h₀ : Reachable cfg s₀) (n : ℕ) : Reachable cfg (ρ.state n) :=
  h₀.trans (ρ.reaches n)

theorem stepped_state (n : ℕ) : Stepped cfg (ρ.state n) (ρ.action n) (ρ.state (n + 1)) :=
  stepped_of_step (ρ.next n)

/-- The clock does not go back. -/
theorem clock_mono {m : ℕ} (h : n ≤ m) : (ρ.state n).clock ≤ (ρ.state m).clock := by
  induction m, h using Nat.le_induction with
  | base => exact le_rfl
  | succ m _ ih => exact ih.trans (clock_le_of_stepped (stepped_state m))

/-- A call inside the block is due at some time: its time comes, or its transport is lost, or it
leaves the stage before. -/
theorem exists_due (hfair : Fair ρ) (h₀ : Reachable cfg s₀)
    (hc : (ρ.state n).calls id = some c) (hin : c.stage.isCritical) :
    ∃ m ≥ n, c.stage.Due (ρ.state m) := by
  have huses := usesCached_of_reachable (reachable_state h₀ n) id c hc
  obtain ⟨args, stage⟩ := c
  cases stage with
  | acquiring | finished => exact hin.elim
  | connecting | opening => exact ⟨n, le_rfl, trivial⟩
  | awaitingClose | resetting =>
      obtain ⟨m, hm, hclosed⟩ := hfair.closes n _ huses.2
      exact ⟨m, hm, Connection.isSome_waitClosed hclosed⟩
  | attempting a p =>
      cases ht : p.time with
      | none => exact ⟨n, le_rfl, fun t h => by cases ht.symm.trans h⟩
      | some t =>
          obtain ⟨m, hm⟩ := hfair.time t
          refine ⟨max n m, le_max_left n m, fun t' h => ?_⟩
          obtain rfl := Option.some.inj (ht.symm.trans h)
          exact hm.trans (clock_mono (le_max_right n m))

/-- A call that is not resumed or cancelled stays where it is. -/
theorem moves_of_ne (h : Stepped cfg s act s') (hc : s.calls id = some c)
    (hne : s'.calls id ≠ some c) : Resumes id act ∨ act = .cancel id := by
  by_contra hact
  push Not at hact
  refine hne ((calls_of_stepped h ?_ (fun w hw => hact.1 ⟨w, hw⟩) hact.2).trans hc)
  rintro args rfl
  cases h with
  | called hnone => cases hnone.symm.trans hc

/-- **A call that is due again and again moves.** This is the fairness of the loop, used for one
call. -/
theorem exists_moved (hfair : Fair ρ) (hc : (ρ.state n).calls id = some c)
    (hdue : ∀ m ≥ n, (ρ.state m).calls id = some c → ∃ k ≥ m, c.stage.Due (ρ.state k)) :
    ∃ m ≥ n, (ρ.state m).calls id = some c ∧
      (Resumes id (ρ.action m) ∨ ρ.action m = .cancel id) := by
  obtain ⟨m, hm, hupto, hmoved⟩ := exists_of_stronglyFair
    (P := fun m => (ρ.state m).calls id = some c) (hfair.resumes id) hc fun hall m hm => by
      obtain ⟨k, hk, hk'⟩ := hdue m hm (hall m hm)
      exact ⟨k, hk, resumable_of_due (hall k (hm.trans hk)) hk'⟩
  refine ⟨m, hm, hupto m hm le_rfl, ?_⟩
  rcases hmoved with hresumes | hne
  · exact .inl hresumes
  · exact moves_of_ne (stepped_state m) (hupto m hm le_rfl) hne

/-! ### Calls end -/

/-- A call that has not ended has stages left. -/
theorem rest_pos {m : ℕ} (h : stage.result = none) : 0 < stage.rest m := by
  cases stage with
  | finished => cases h
  | _ => exact Nat.succ_pos _

/-- What becomes of a call that is resumed or cancelled. -/
theorem moved_cases (hs : Reachable cfg s) (h : Stepped cfg s act s')
    (hc : s.calls id = some c) (hact : Resumes id act ∨ act = .cancel id) :
    ∃ stage', s'.calls id = some ⟨c.args, stage'⟩ ∧
      (stage'.isCritical ∨ ∃ r, stage' = .finished r) ∧
      (stage'.rest cfg.maxRetries < c.stage.rest cfg.maxRetries ∨
        ∃ a d, c.stage = .attempting a (.draining d) ∧
          stage' = .attempting a (.draining (s.clock + 1 / 20))) := by
  have ended {r : Except PyExc Bytes} (hnone : c.stage.result = none) :
      (Stage.finished r).rest cfg.maxRetries < c.stage.rest cfg.maxRetries := rest_pos hnone
  have named {j : CallId} (hj : (∃ w, act = .resume j w) ∨ act = .cancel j) : j = id := by
    obtain ⟨w, rfl⟩ | rfl := hj <;> obtain ⟨w', hw⟩ | hw := hact <;> cases hw <;> rfl
  cases h with
  | @resumed j w d stage' _ hd hr =>
      obtain rfl := named (.inl ⟨w, rfl⟩)
      obtain rfl := Option.some.inj (hd.symm.trans hc)
      refine ⟨stage', ?_, ?_, ?_⟩
      · rw [hr.calls_eq, Function.update_self]
      · obtain ⟨-, hin, -⟩ | ⟨-, hin, -⟩ | ⟨-, hin, -⟩ := hr.mutex_cases
        · exact .inl hin
        · exact .inl hin
        · exact .inr hin
      · exact rest_lt_of_resumed ((logInv_of_reachable hs).counted _ _ hc) hr
  | @cancelledWaiting j d hd hstage =>
      obtain rfl := named (.inr rfl)
      obtain rfl := Option.some.inj (hd.symm.trans hc)
      exact ⟨_, Function.update_self .., .inr ⟨_, rfl⟩, .inl (ended (by rw [hstage]; rfl))⟩
  | @cancelled j d hd hin =>
      obtain rfl := named (.inr rfl)
      obtain rfl := Option.some.inj (hd.symm.trans hc)
      exact ⟨_, Function.update_self .., .inr ⟨_, rfl⟩,
        .inl (ended (result_eq_none_of_critical hin))⟩
  | called | ticked | received | closing | lost =>
      obtain ⟨w', hw⟩ | hw := hact <;> cases hw

/-- The call is inside the `async with _serial_mutex` block. There is one at most. -/
def State.Inside (s : State) (id : CallId) : Prop :=
  ∃ c, s.calls id = some c ∧ c.stage.isCritical

section

variable (ρ)

/-- No drain goes on forever: after every state in a drain there is one in which the call is not
in it. -/
def DrainsEnd : Prop :=
  ∀ n id args a d, (ρ.state n).Drains id args a d →
    ∃ m ≥ n, ∀ d', ¬ (ρ.state m).Drains id args a d'

/-- From some time on the call has ended. Its result stays from then on. -/
def CallEnds (id : CallId) (n : ℕ) : Prop :=
  ∃ m ≥ n, ((ρ.state m).result id).isSome

end

/-- The call goes on towards its end, or has reached it. -/
theorem inside_or_ends {args : FetchArgs} (hc : s.calls id = some ⟨args, stage⟩)
    (h : stage.isCritical ∨ ∃ r, stage = .finished r) :
    (s.result id).isSome ∨ s.Inside id := by
  obtain hin | ⟨r, rfl⟩ := h
  · exact .inr ⟨_, hc, hin⟩
  · refine .inl ?_
    rw [State.result, hc]
    rfl

/-- A drain that ends brings its call closer to its end: to the write, or out of the attempt. -/
theorem exists_rest_lt_of_drains (h₀ : Reachable cfg s₀) {args : FetchArgs} {a : Attempt}
    {d : ℚ} (hc : (ρ.state n).Drains id args a d)
    (hends : ∃ m ≥ n, ∀ d', ¬ (ρ.state m).Drains id args a d') :
    ∃ m ≥ n, (((ρ.state m).result id).isSome ∨ (ρ.state m).Inside id) ∧
      (ρ.state m).rest cfg id < (ρ.state n).rest cfg id := by
  obtain ⟨j, hj, hleft⟩ := hends
  rcases forall_or_exists (P := fun m => ∃ d', (ρ.state m).Drains id args a d') ⟨d, hc⟩ with
    hall | ⟨m, hm, hupto, hnot⟩
  · obtain ⟨d', hd'⟩ := hall j hj
    exact absurd hd' (hleft d')
  · push Not at hnot
    obtain ⟨d', hd'⟩ := hupto m hm le_rfl
    obtain ⟨stage', hc', hin, hless⟩ := moved_cases (reachable_state h₀ m) (stepped_state m) hd'
      (moves_of_ne (stepped_state m) hd' (hnot d'))
    refine ⟨m + 1, hm.trans m.le_succ, inside_or_ends hc' hin, ?_⟩
    obtain hless | ⟨_, _, heq, rfl⟩ := hless
    · rw [rest_of_calls hc, rest_of_calls hc']
      exact hless
    · cases heq
      exact absurd hc' (hnot _)

/-- **A call inside the block gets closer to its end**, if its drain ends. It is due again and
again until it moves. -/
theorem exists_rest_lt (hfair : Fair ρ) (h₀ : Reachable cfg s₀) (hdrain : DrainsEnd ρ)
    (hin : (ρ.state n).Inside id) :
    ∃ m ≥ n, (((ρ.state m).result id).isSome ∨ (ρ.state m).Inside id) ∧
      (ρ.state m).rest cfg id < (ρ.state n).rest cfg id := by
  obtain ⟨⟨args, stage⟩, hc, hcrit⟩ := hin
  obtain ⟨m, hm, hc', hact⟩ := exists_moved hfair hc fun m _ hc' => exists_due hfair h₀ hc' hcrit
  obtain ⟨stage', hc'', hin', hless | ⟨a, d, rfl, -⟩⟩ :=
    moved_cases (reachable_state h₀ m) (stepped_state m) hc' hact
  · refine ⟨m + 1, hm.trans m.le_succ, inside_or_ends hc'' hin', ?_⟩
    rw [rest_of_calls hc, rest_of_calls hc'']
    exact hless
  · exact exists_rest_lt_of_drains h₀ hc (hdrain n id args a d hc)

theorem callEnds_of_inside (hfair : Fair ρ) (h₀ : Reachable cfg s₀) (hdrain : DrainsEnd ρ)
    (hin : (ρ.state n).Inside id) : CallEnds ρ id n := by
  refine exists_of_rank (P := fun m => (ρ.state m).Inside id) (fun m => (ρ.state m).rest cfg id)
    (fun m hm => ?_) hin
  obtain ⟨k, hk, hends | hin', hless⟩ := exists_rest_lt hfair h₀ hdrain hm
  · exact ⟨k, hk, .inl hends⟩
  · exact ⟨k, hk, .inr ⟨hin', hless⟩⟩

/-! ### The mutex becomes free -/

/-- Only a free mutex is acquired, and only its owner gives it back. -/
theorem mutex_of_stepped (h : Stepped cfg s act s') (hm : s.mutex = some id) :
    s'.mutex = some id ∨ s'.mutex = none := by
  cases h with
  | resumed _ hr =>
      obtain ⟨-, -, hnone, -⟩ | ⟨-, -, heq⟩ | ⟨-, -, hnone⟩ := hr.mutex_cases
      · cases hm.symm.trans hnone
      · exact .inl (heq.trans hm)
      · exact .inr hnone
  | cancelled => exact .inr rfl
  | called | cancelledWaiting | ticked | received | closing | lost => exact .inl hm

/-- A call that has ended does not hold the mutex. -/
theorem mutex_ne_of_result (hs : Reachable cfg s) (h : (s.result id).isSome) :
    s.mutex ≠ some id := by
  intro hm
  obtain ⟨c, hc, hin⟩ := (callsInv_of_reachable hs).held id hm
  rw [State.result, hc, Option.bind_some, result_eq_none_of_critical hin] at h
  cases h

/-- The mutex is free again and again, since each owner comes to its end. So a call that waits
for it is due again and again. -/
theorem exists_mutex_eq_none (hfair : Fair ρ) (h₀ : Reachable cfg s₀) (hdrain : DrainsEnd ρ)
    (n : ℕ) : ∃ m ≥ n, (ρ.state m).mutex = none := by
  cases hm : (ρ.state n).mutex with
  | none => exact ⟨n, le_rfl, hm⟩
  | some id =>
      obtain ⟨k, hk, hends⟩ := callEnds_of_inside hfair h₀ hdrain
        ((callsInv_of_reachable (reachable_state h₀ n)).held id hm)
      rcases forall_or_exists (P := fun m => (ρ.state m).mutex = some id) hm with
        hall | ⟨m, hnm, hupto, hleft⟩
      · exact absurd (hall k hk) (mutex_ne_of_result (reachable_state h₀ k) hends)
      · exact ⟨m + 1, hnm.trans m.le_succ, (mutex_of_stepped (stepped_state m)
          (hupto m hnm le_rfl)).resolve_left hleft⟩

/-- **If no drain goes on forever, every call ends.** It gets the mutex at some time, by the
fairness of the lock, and then its measure decreases. -/
theorem callEnds_of_drainsEnd (hfair : Fair ρ) (h₀ : Reachable cfg s₀) (hdrain : DrainsEnd ρ)
    (hc : ((ρ.state n).calls id).isSome) : CallEnds ρ id n := by
  obtain ⟨⟨args, stage⟩, hc⟩ := Option.isSome_iff_exists.mp hc
  have inside {m : ℕ} (hm : m ≥ n) (h : ((ρ.state m).result id).isSome ∨
      (ρ.state m).Inside id) : CallEnds ρ id n := by
    obtain hends | hin := h
    · exact ⟨m, hm, hends⟩
    · obtain ⟨k, hk, hends⟩ := callEnds_of_inside hfair h₀ hdrain hin
      exact ⟨k, hm.trans hk, hends⟩
  cases stage with
  | finished r => exact inside le_rfl (inside_or_ends hc (.inr ⟨r, rfl⟩))
  | acquiring =>
      obtain ⟨m, hm, hc', hact⟩ := exists_moved hfair hc fun m _ _ =>
        exists_mutex_eq_none hfair h₀ hdrain m
      obtain ⟨stage', hc'', hin, -⟩ :=
        moved_cases (reachable_state h₀ m) (stepped_state m) hc' hact
      exact inside (hm.trans m.le_succ) (inside_or_ends hc'' hin)
  | _ => exact inside le_rfl (.inr ⟨_, hc, trivial⟩)

/-! ### Fair executions -/

/-- One more step at the beginning of a fair execution. Fairness is about what happens in the
long run. -/
theorem Fair.cons {ρ : Execution (step cfg) s'} (hfair : Fair ρ) (h : step cfg s act = some s')
    (hprompt : ∀ id args a d, s.Drains id args a d → s.Resumable cfg id →
      ¬ act.Delays a.conn) : Fair (Execution.cons h ρ) := by
  refine ⟨fun t => ?_, fun id n henabled => ?_, fun n m hclosing => ?_, fun n => ?_⟩
  · obtain ⟨n, hn⟩ := hfair.time t
    exact ⟨n + 1, hn⟩
  · obtain ⟨m, hm, hact⟩ := hfair.resumes id n fun m hm => by
      obtain ⟨k, hk, hen⟩ := henabled (m + 1) (hm.trans m.le_succ)
      obtain ⟨k, rfl⟩ := Nat.exists_eq_add_of_lt hk
      exact ⟨m + k, Nat.le_add_right m k, hen⟩
    exact ⟨m + 1, hm.trans m.le_succ, hact⟩
  · cases n with
    | zero =>
        have hnext : ((ρ.state 0).conns m).closing = true := by
          rw [ρ.start]
          exact closing_of_stepped (stepped_of_step h) hclosing
        obtain ⟨k, -, hk⟩ := hfair.closes 0 m hnext
        exact ⟨k + 1, Nat.zero_le _, hk⟩
    | succ n =>
        obtain ⟨k, hk, hclosed⟩ := hfair.closes n m hclosing
        exact ⟨k + 1, Nat.succ_le_succ hk, hclosed⟩
  · cases n with
    | zero => exact hprompt
    | succ n => exact hfair.prompt n

/-- Nothing is left to be done: every call has ended and every transport that closes is lost.
Then only the environment can act. -/
structure State.Idle (s : State) : Prop where
  calls : ∀ id c, s.calls id = some c → ∃ r, c.stage = .finished r
  closed : ∀ n, (s.conns n).closing = true → (s.conns n).closed.isSome

theorem step_idle (cfg : SerialModel) (s : State) (n : ℕ) :
    step cfg { s with clock := s.clock + (n : ℚ) } (.tick 1) =
      some { s with clock := s.clock + ((n + 1 : ℕ) : ℚ) } := by
  rw [step, if_pos zero_le_one, Nat.cast_succ, add_assoc]

theorem start_idle (s : State) : { s with clock := s.clock + ((0 : ℕ) : ℚ) } = s := by
  rw [Nat.cast_zero, add_zero]

/-- Time passes, a second at each step, and nothing else happens. -/
def idle (cfg : SerialModel) (s : State) : Execution (step cfg) s where
  state n := { s with clock := s.clock + (n : ℚ) }
  action _ := .tick 1
  start := start_idle s
  next := step_idle cfg s

/-- With nothing left to be done it is fair that nothing is. -/
theorem fair_idle (cfg : SerialModel) (h : s.Idle) : Fair (idle cfg s) := by
  refine ⟨fun t => ?_, fun id n henabled => ?_,
    fun n m hclosing => ⟨n, le_rfl, h.closed m hclosing⟩, fun n id args a d hd => ?_⟩
  · obtain ⟨n, hn⟩ := exists_nat_ge (t - s.clock)
    exact ⟨n, sub_le_iff_le_add'.mp hn⟩
  · obtain ⟨k, -, _, ⟨w, rfl⟩, hw⟩ := henabled n le_rfl
    obtain ⟨s', hs'⟩ := Option.isSome_iff_exists.mp hw
    obtain ⟨c, hc, hresume⟩ := Option.bind_eq_some_iff.mp hs'
    obtain ⟨r, hr⟩ := h.calls id c hc
    rw [hr] at hresume
    cases hresume
  · obtain ⟨r, hr⟩ := h.calls id _ hd
    cases hr

end IoBoard
