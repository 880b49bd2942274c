import IoBoard.Commands
import IoBoard.SerialSafety
import Mathlib.Tactic.Linarith

/-!
# Wire Spacing

The two gates in front of a transmission, `_respect_inter_command_gap` and
`_respect_wire_min_gap`, read two module globals: the time of the last complete reception
and the time of the last transmission of a message with the same first five bytes. The
invariant ties these globals to the log of the run, and what a call has already waited for
to the globals; mutual exclusion keeps the globals fixed while a call is between a gate and
its transmission.

## What is measured

Between a gate and the transmission lies the drain, which may take long. The distances are
therefore inequalities, and they hold for the times that the program itself books: `tx_time`
is taken after the drain, right before the write.

The first gate is passed before the second. It stays open while the second sleeps, for time
only passes and nobody else can read a frame meanwhile; but it is this order of events, and
not the code of the gates, that makes both hold at once, and the invariant `Gated` says so
stage by stage.

A retry passes both gates again. A failed attempt has booked its transmission, though not a
reception, so the repetition of a throttled request waits for its own predecessor.

## Main results

* `spacingInv_of_reachable`: the bookkeeping invariant of every run.
* `spaced_of_reachable`: **every transmission keeps its distance** from the receptions and
  the transmissions before it.
* `wire_spacing`: the same in terms of the calls, and for the loadcell requests.
-/

open Runs

namespace IoBoard

variable {cfg : SerialModel} {s s' : State} {id : CallId} {c : Call} {stage stage' : Stage}
  {act : Action}

/-! ### What is booked -/

/-- The globals bound the times of the log, and the clock bounds the globals. The log may have
more entries than the globals remember: of each kind the last one counts. -/
structure Booked (s : State) : Prop where
  tx : ∀ t, .tx t ∈ s.log → ∃ v, s.lastRequestTx (t.message.take 5) = some v ∧ t.time ≤ v
  rx : ∀ id time, .rx id time ∈ s.log → ∃ v, s.lastRxCompleteTime = some v ∧ time ≤ v
  txClock : ∀ key v, s.lastRequestTx key = some v → v ≤ s.clock
  rxClock : ∀ v, s.lastRxCompleteTime = some v → v ≤ s.clock

/-- At `time` the inter-command gap after the last reception is over. -/
def RxGate (cfg : SerialModel) (s : State) (time : ℚ) : Prop :=
  ∀ v, s.lastRxCompleteTime = some v → v + cfg.interCommandGap ≤ time

/-- At `time` the gap of a call after the last transmission of its request is over. A call without
a gap has nothing to wait for. -/
def TxGate (s : State) (args : FetchArgs) (time : ℚ) : Prop :=
  ∀ v, s.lastRequestTx (args.message.take 5) = some v → 0 < args.minSendInterval →
    v + args.minSendInterval ≤ time

/-- The gates a call has passed, or will have passed when it wakes up. A stage that is not listed
promises nothing: the call is before the gates or behind its transmission. -/
def Gated (cfg : SerialModel) (s : State) (args : FetchArgs) : Stage → Prop
  | .attempting _ (.interCommandSleep wake) => RxGate cfg s wake
  | .attempting _ .wireMinGap => RxGate cfg s s.clock
  | .attempting _ (.wireMinGapSleep wake) => RxGate cfg s s.clock ∧ TxGate s args wake
  | .attempting _ (.draining _) => RxGate cfg s s.clock ∧ TxGate s args s.clock
  | _ => True

/-- The distance that a transmission keeps from an earlier event: its own gap from a
transmission with the same first five bytes, the inter-command gap from a reception. -/
def Spaced (cfg : SerialModel) : Event → Event → Prop
  | .tx t, .tx u => t.time ≤ u.time ∧
      (t.message.take 5 = u.message.take 5 → 0 < u.minSendInterval →
        t.time + u.minSendInterval ≤ u.time)
  | .rx _ time, .tx u => time + cfg.interCommandGap ≤ u.time
  | _, _ => True

/-- The invariant of the bookkeeping: what the source keeps is what the log says, and the
entries of the log keep their distances. -/
structure SpacingInv (cfg : SerialModel) (s : State) : Prop where
  booked : Booked s
  gated : ∀ id c, s.calls id = some c → Gated cfg s c.args c.stage
  spaced : s.log.Pairwise (Spaced cfg)

/-! ### The gates -/

/-- The sleep of `_respect_inter_command_gap` ends after the gap. -/
theorem rxGate_of_wake {wake : ℚ} (h : s.interCommandWake cfg = some wake) :
    RxGate cfg s wake := by
  intro v hv
  rw [State.interCommandWake] at h
  split at h
  · cases h
  · rw [hv, Option.bind_some] at h
    simp only [Option.ite_none_right_eq_some, Option.some.injEq] at h
    obtain ⟨-, rfl⟩ := h
    linarith

/-- Where `_respect_inter_command_gap` does not sleep the gap is over. -/
theorem rxGate_of_pass (hb : Booked s) (h : s.interCommandWake cfg = none) :
    RxGate cfg s s.clock := by
  intro v hv
  have hclock := hb.rxClock v hv
  rw [State.interCommandWake] at h
  split at h
  · linarith
  · rw [hv, Option.bind_some] at h
    simp only [ite_eq_right_iff, reduceCtorEq, imp_false, not_lt] at h
    linarith

/-- The sleep of `_respect_wire_min_gap` ends after the gap. -/
theorem txGate_of_wake {args : FetchArgs} {wake : ℚ}
    (h : s.wireMinGapWake args = some wake) : TxGate s args wake := by
  intro v hv _
  rw [State.wireMinGapWake] at h
  split at h
  · cases h
  · rw [hv, Option.bind_some] at h
    simp only [Option.ite_none_right_eq_some, Option.some.injEq] at h
    obtain ⟨-, rfl⟩ := h
    linarith

/-- Where `_respect_wire_min_gap` does not sleep the gap is over. -/
theorem txGate_of_pass {args : FetchArgs} (h : s.wireMinGapWake args = none) :
    TxGate s args s.clock := by
  intro v hv hpos
  rw [State.wireMinGapWake, if_neg (not_le.mpr hpos), hv, Option.bind_some] at h
  simp only [ite_eq_right_iff, reduceCtorEq, imp_false, not_lt] at h
  linarith

/-- A gate stays open. -/
theorem RxGate.mono {time time' : ℚ} (h : RxGate cfg s time) (hle : time ≤ time') :
    RxGate cfg s time' :=
  fun v hv => (h v hv).trans hle

theorem TxGate.mono {args : FetchArgs} {time time' : ℚ} (h : TxGate s args time)
    (hle : time ≤ time') : TxGate s args time' :=
  fun v hv hpos => (h v hv hpos).trans hle

/-- The resumed call passes its gates one after the other, and no step that leads from a gate to
the drain books anything. -/
theorem Gated.resumed (hb : Booked s) (h : Gated cfg s c.args stage)
    (hr : Resumed cfg s id c stage stage' s') : Gated cfg s' c.args stage' := by
  cases hr with
  | moved hm =>
      cases hm with
      | gapWait hw => exact rxGate_of_wake hw
      | gapPass hw => exact (rxGate_of_pass hb hw : RxGate cfg s s.clock)
      | gapWoken hle => exact RxGate.mono h hle
      | wireWait hw => exact ⟨h, txGate_of_wake hw⟩
      | wirePass hw => exact ⟨h, txGate_of_pass hw⟩
      | wireWoken hle => exact ⟨h.1, h.2.mono hle⟩
      | awaitClose | flushed | nextAttempt => trivial
  | read he hread =>
      cases hread with
      | drained => exact h
      | header | body => trivial
  | _ => trivial

/-! ### The invariant -/

/-- The bookkeeping reads nothing but the globals, the clock and the log. -/
theorem Booked.frame (h : Booked s) (hclock : s'.clock = s.clock)
    (htx : s'.lastRequestTx = s.lastRequestTx)
    (hrx : s'.lastRxCompleteTime = s.lastRxCompleteTime) (hlog : s'.log = s.log) :
    Booked s' := by
  constructor
  · rw [hlog, htx]
    exact h.tx
  · rw [hlog, hrx]
    exact h.rx
  · rw [htx, hclock]
    exact h.txClock
  · rw [hrx, hclock]
    exact h.rxClock

/-- The globals stay as they are while the log gains an entry that is no transmission and
no reception. -/
theorem Booked.append {e : Event} (h : Booked s) (hclock : s'.clock = s.clock)
    (htx : s'.lastRequestTx = s.lastRequestTx)
    (hrx : s'.lastRxCompleteTime = s.lastRxCompleteTime)
    (hlog : s'.log = s.log ++ [e])
    (he : (∀ t, e ≠ .tx t) ∧ ∀ i time, e ≠ .rx i time) : Booked s' := by
  constructor
  · intro t ht
    rw [hlog, List.mem_append, List.mem_singleton] at ht
    rw [htx]
    rcases ht with ht | ht
    · exact h.tx t ht
    · exact absurd ht.symm (he.1 t)
  · intro i time ht
    rw [hlog, List.mem_append, List.mem_singleton] at ht
    rw [hrx]
    rcases ht with ht | ht
    · exact h.rx i time ht
    · exact absurd ht.symm (he.2 i time)
  · rw [htx, hclock]
    exact h.txClock
  · rw [hrx, hclock]
    exact h.rxClock

/-- Booking a transmission at the present time. -/
theorem Booked.transmit (h : Booked s) {a : Attempt} : Booked (s.transmit id c a) := by
  constructor
  · intro t ht
    rcases List.mem_append.mp ht with ht | ht
    · obtain ⟨v, hv, hle⟩ := h.tx t ht
      by_cases hkey : t.message.take 5 = c.args.message.take 5
      · refine ⟨s.clock, ?_, hle.trans (h.txClock _ v hv)⟩
        rw [State.transmit_lastRequestTx, hkey, Function.update_self]
      · refine ⟨v, ?_, hle⟩
        rw [State.transmit_lastRequestTx, Function.update_of_ne hkey, hv]
    · obtain rfl : t = s.txNow id c a := by simpa using ht
      exact ⟨s.clock, Function.update_self .., le_rfl⟩
  · intro i time ht
    exact h.rx i time (by simpa using ht)
  · intro key v hv
    by_cases hkey : key = c.args.message.take 5
    · rw [State.transmit_lastRequestTx, hkey, Function.update_self] at hv
      exact (Option.some.inj hv).ge
    · rw [State.transmit_lastRequestTx, Function.update_of_ne hkey] at hv
      exact h.txClock key v hv
  · exact h.rxClock

/-- Booking a reception at the present time. -/
theorem Booked.complete (h : Booked s) (hclock : s'.clock = s.clock)
    (htx : s'.lastRequestTx = s.lastRequestTx) (hrx : s'.lastRxCompleteTime = some s.clock)
    (hlog : s'.log = s.log ++ [.rx id s.clock]) : Booked s' := by
  constructor
  · intro t ht
    rw [hlog] at ht
    rw [htx]
    exact h.tx t (by simpa using ht)
  · intro i time ht
    rw [hlog, List.mem_append] at ht
    refine ⟨s.clock, hrx, ?_⟩
    rcases ht with ht | ht
    · obtain ⟨v, hv, hle⟩ := h.rx i time ht
      exact hle.trans (h.rxClock v hv)
    · obtain ⟨rfl, rfl⟩ : i = id ∧ time = s.clock := by simpa using ht
      exact le_rfl
  · rw [htx, hclock]
    exact h.txClock
  · intro v hv
    rw [hrx] at hv
    rw [hclock]
    exact (Option.some.inj hv).ge

/-- Every resumption books what it does. -/
theorem Booked.resumed (h : Booked s) (hr : Resumed cfg s id c stage stage' s') :
    Booked s' := by
  obtain ⟨hclock, ⟨htx, hrx, hlog⟩ | ⟨a, d, -, rfl⟩ | ⟨htx, hrx, hlog⟩⟩ := hr.booked_cases
  · rcases hlog with hlog | hlog | hlog
    · exact h.frame hclock htx hrx hlog
    · exact h.append hclock htx hrx hlog ⟨nofun, nofun⟩
    · exact h.append hclock htx hrx hlog ⟨nofun, nofun⟩
  · exact h.transmit
  · exact h.complete hclock htx hrx hlog

/-- A transmission through both gates keeps its distance from everything before it: the gates were
about the last events, and the earlier ones are further away. -/
theorem spaced_txNow {a : Attempt} {d : ℚ} (hb : Booked s)
    (h : Gated cfg s c.args (.attempting a (.draining d))) {e : Event} (he : e ∈ s.log) :
    Spaced cfg e (.tx (s.txNow id c a)) := by
  obtain ⟨hrx, htx⟩ := h
  cases e with
  | reuse | opening => trivial
  | tx t =>
      obtain ⟨v, hv, hle⟩ := hb.tx t he
      refine ⟨hle.trans (hb.txClock _ v hv), fun hkey hpos => ?_⟩
      have := htx v (hkey ▸ hv) hpos
      change t.time + c.args.minSendInterval ≤ s.clock
      linarith
  | rx i time =>
      obtain ⟨v, hv, hle⟩ := hb.rx i time he
      have := hrx v hv
      change time + cfg.interCommandGap ≤ s.clock
      linarith

/-- Whatever is not a transmission keeps every distance. -/
theorem spaced_append {e : Event} (h : s.log.Pairwise (Spaced cfg))
    (he : ∀ f ∈ s.log, Spaced cfg f e) : (s.log ++ [e]).Pairwise (Spaced cfg) := by
  rw [List.pairwise_append]
  refine ⟨h, List.pairwise_singleton _ _, fun f hf g hg => ?_⟩
  obtain rfl := List.mem_singleton.mp hg
  exact he f hf

/-- Every resumption keeps the distances of the log. -/
theorem spaced_resumed (h : SpacingInv cfg s) (hg : Gated cfg s c.args stage)
    (hr : Resumed cfg s id c stage stage' s') : s'.log.Pairwise (Spaced cfg) := by
  obtain ⟨-, ⟨-, -, hlog⟩ | ⟨a, d, rfl, rfl⟩ | ⟨-, -, hlog⟩⟩ := hr.booked_cases
  · rcases hlog with hlog | hlog | hlog <;> rw [hlog]
    · exact h.spaced
    · exact spaced_append h.spaced fun f _ => by cases f <;> trivial
    · exact spaced_append h.spaced fun f _ => by cases f <;> trivial
  · exact spaced_append h.spaced fun f hf => spaced_txNow h.booked hg hf
  · rw [hlog]
    exact spaced_append h.spaced fun f _ => by cases f <;> trivial

/-- Outside the block no gate has been passed; this is the case of all calls but one. -/
theorem gated_of_not_critical {args : FetchArgs} (h : ¬ stage.isCritical) :
    Gated cfg s args stage := by
  cases stage with
  | acquiring | finished => trivial
  | _ => exact absurd trivial h

/-- Time does not close a gate. -/
theorem Gated.tick {args : FetchArgs} {d : ℚ} (hd : 0 ≤ d) (h : Gated cfg s args stage) :
    Gated cfg { s with clock := s.clock + d } args stage := by
  have hle : s.clock ≤ s.clock + d := by linarith
  cases stage with
  | attempting a p =>
      cases p with
      | wireMinGap => exact RxGate.mono h hle
      | wireMinGapSleep wake => exact ⟨RxGate.mono h.1 hle, h.2⟩
      | draining deadline => exact ⟨RxGate.mono h.1 hle, TxGate.mono h.2 hle⟩
      | _ => exact h
  | _ => exact h

/-- Every step keeps the invariant of the bookkeeping. -/
theorem SpacingInv.step (h : SpacingInv cfg s) (ho : Owned s) (hs : Stepped cfg s act s') :
    SpacingInv cfg s' := by
  cases hs with
  | called =>
      exact ⟨h.booked.frame rfl rfl rfl rfl,
        forall_calls_update trivial fun j d _ hj => h.gated j d hj, h.spaced⟩
  | @resumed id _ c stage' _ hc hr =>
      have hg := h.gated id c hc
      have hg' := Gated.resumed h.booked hg hr
      refine ⟨h.booked.resumed hr, ?_, spaced_resumed h hg hr⟩
      rw [hr.calls_eq]
      refine forall_calls_update hg' fun j d hji hj => ?_
      exact gated_of_not_critical (ho.others hc hr hj hji)
  | cancelledWaiting | cancelled =>
      exact ⟨h.booked.frame rfl rfl rfl rfl,
        forall_calls_update trivial fun j d _ hj => h.gated j d hj, h.spaced⟩
  | @ticked d hd =>
      refine ⟨⟨h.booked.tx, h.booked.rx, ?_, ?_⟩, fun id c hc => (h.gated id c hc).tick hd,
        h.spaced⟩
      · intro key v hv
        exact (h.booked.txClock key v hv).trans (le_add_of_nonneg_right hd)
      · intro v hv
        exact (h.booked.rxClock v hv).trans (le_add_of_nonneg_right hd)
  | received | closing | lost => exact ⟨h.booked.frame rfl rfl rfl rfl, h.gated, h.spaced⟩

theorem spacingInv_of_reachable (h : Reachable cfg s) : SpacingInv cfg s := by
  refine h.induct ⟨⟨nofun, nofun, nofun, nofun⟩, forall_calls_start, List.Pairwise.nil⟩ ?_
  intro t _ t' hr ih _ ht
  exact ih.step (owned_of_reachable hr) (stepped_of_step ht)

/-- **Every transmission keeps its distance** from the events before it, in every run. -/
theorem spaced_of_reachable (h : Reachable cfg s) : s.log.Pairwise (Spaced cfg) :=
  (spacingInv_of_reachable h).spaced

/-! ### Wire spacing -/

/-- `e` is in the log of the run before `f`; the two are different entries, though they may be
equal as values. -/
def State.Before (s : State) (e f : Event) : Prop :=
  ∃ front middle back, s.log = front ++ e :: middle ++ f :: back

/-- Two events of a run in their order keep their distance. -/
theorem spaced_of_before {e f : Event} (h : Reachable cfg s) (hef : s.Before e f) :
    Spaced cfg e f := by
  obtain ⟨front, middle, back, hlog⟩ := hef
  have hpair := spaced_of_reachable h
  rw [hlog, List.append_assoc, List.pairwise_append] at hpair
  obtain ⟨-, hpair, -⟩ := hpair
  rw [List.cons_append, List.pairwise_cons] at hpair
  exact hpair.1 f (by simp)

/-- Whatever is before something else has happened. -/
theorem State.Before.mem {e f : Event} (h : s.Before e f) : e ∈ s.log ∧ f ∈ s.log := by
  obtain ⟨front, middle, back, hlog⟩ := h
  rw [hlog]
  simp

/-- A transmission in the log carries the arguments of its call. -/
theorem args_of_mem_log {t : Tx} (h : Reachable cfg s) (ht : .tx t ∈ s.log)
    (hc : s.calls t.call = some c) :
    t.message = c.args.message ∧ t.minSendInterval = c.args.minSendInterval := by
  have hmem : t ∈ s.transmissions := List.mem_filterMap.mpr ⟨.tx t, ht, rfl⟩
  obtain ⟨d, hd, hmsg, hgap⟩ := (logInv_of_reachable h).args t hmem
  obtain rfl : c = d := Option.some.inj (hc.symm.trans hd)
  exact ⟨hmsg, hgap⟩

/-- **Wire spacing.** In every run, (a) a transmission of a call with a positive
`min_send_interval` comes at least that long after every earlier transmission of a message
with the same first five bytes, (b) every transmission comes at least `inter_command_gap`
after every earlier complete reception, and so (c) two RQIW requests that `_send_command`
has issued are at least `loadcells_min_request_gap` apart. -/
theorem wire_spacing {cfg : SerialModel} {s : State} (h : Reachable cfg s) :
    (∀ t u c, s.Before (.tx t) (.tx u) → t.message.take 5 = u.message.take 5 →
      s.calls u.call = some c → 0 < c.args.minSendInterval →
      t.time + c.args.minSendInterval ≤ u.time) ∧
    (∀ id time u, s.Before (.rx id time) (.tx u) → time + cfg.interCommandGap ≤ u.time) ∧
    ∀ (polling : PollingModel) t u c d, s.Before (.tx t) (.tx u) →
      s.calls t.call = some c → s.calls u.call = some d →
      sendCommand polling.loadcellsMinRequestGap (.request .loadcellWeights) [] = .ok c.args →
      sendCommand polling.loadcellsMinRequestGap (.request .loadcellWeights) [] = .ok d.args →
      t.time + polling.loadcellsMinRequestGap ≤ u.time := by
  have hkey : ∀ t u c, s.Before (.tx t) (.tx u) → t.message.take 5 = u.message.take 5 →
      s.calls u.call = some c → 0 < c.args.minSendInterval →
      t.time + c.args.minSendInterval ≤ u.time := by
    intro t u c htu hkey hc hpos
    obtain ⟨-, hgap⟩ := args_of_mem_log h htu.mem.2 hc
    rw [← hgap] at hpos ⊢
    exact (spaced_of_before h htu).2 hkey hpos
  refine ⟨hkey, fun id time u hbefore => spaced_of_before h hbefore, ?_⟩
  intro polling t u c d htu hc hd hsend hsend'
  obtain ⟨hmsg, -⟩ := args_of_mem_log h htu.mem.1 hc
  obtain ⟨hmsg', -⟩ := args_of_mem_log h htu.mem.2 hd
  have hgap : d.args.minSendInterval = polling.loadcellsMinRequestGap := by
    rw [sendCommand] at hsend'
    split at hsend'
    · cases hsend'
    · rw [← Except.ok.inj hsend']
      rfl
  rcases polling.validateMinRequestGap.eq_or_lt with hzero | hpos
  · rw [← hzero, add_zero]
    exact (spaced_of_before h htu).1
  · rw [← hgap] at hpos ⊢
    refine hkey t u d htu ?_ hd hpos
    rw [hmsg, hmsg', take_sendCommand hsend, take_sendCommand hsend']

/-- Two callers ask for RQIW at once; the board answers the first with seven bytes. -/
def twoRequestsRun : List Action :=
  [.call 0 rqiwArgs, .call 1 rqiwArgs, .resume 0 .ready, .resume 0 .ready, .resume 0 .ready,
    .resume 0 .ready, .resume 0 .ready, .tick (1 / 20), .resume 0 .timedOut, .resume 0 .ready,
    .receive 0 [2, 82, 81, 73, 87, 3, 30], .resume 0 .ready, .resume 0 .ready,
    .resume 0 .ready, .resume 1 .ready, .resume 1 .ready, .resume 1 .ready, .tick (1 / 10),
    .resume 1 .ready, .resume 1 .ready, .tick (13 / 20), .resume 1 .ready, .tick (1 / 20),
    .resume 1 .timedOut]

/-- The transmissions of `twoRequestsRun`. -/
def twoRequestsTx (call : CallId) (time : ℚ) (mark : ℕ) : Tx :=
  ⟨call, rqiwArgs.message, 3 / 4, time, 0, mark⟩

theorem twoRequestsRun_isSome : (runFrom (step {}) {} twoRequestsRun).isSome := by
  decide +kernel

/-- Wire spacing at the end of `twoRequestsRun`. -/
theorem wire_spacing_twoRequestsRun :
    ∃ s, Reachable {} s ∧
      s.Before (.tx (twoRequestsTx 0 (1 / 20) 0)) (.tx (twoRequestsTx 1 (17 / 20) 7)) ∧
      (twoRequestsTx 0 (1 / 20) 0).time + 3 / 4 ≤ (twoRequestsTx 1 (17 / 20) 7).time := by
  have hs : Reachable {} ((runFrom (step {}) {} twoRequestsRun).get twoRequestsRun_isSome) :=
    reaches_get twoRequestsRun_isSome
  have hlog : ((runFrom (step {}) {} twoRequestsRun).get twoRequestsRun_isSome).log =
      [.opening 0] ++ .tx (twoRequestsTx 0 (1 / 20) 0) :: [.rx 0 (1 / 20), .reuse 1] ++
        .tx (twoRequestsTx 1 (17 / 20) 7) :: [] := by
    decide +kernel
  have hcall : (((runFrom (step {}) {} twoRequestsRun).get twoRequestsRun_isSome).calls 0).map
      Call.args = some rqiwArgs ∧
      (((runFrom (step {}) {} twoRequestsRun).get twoRequestsRun_isSome).calls 1).map
      Call.args = some rqiwArgs := by
    decide +kernel
  obtain ⟨c, hc, hcargs⟩ := Option.map_eq_some_iff.mp hcall.1
  obtain ⟨d, hd, hdargs⟩ := Option.map_eq_some_iff.mp hcall.2
  exact ⟨_, hs, ⟨_, _, _, hlog⟩, (wire_spacing hs).2.2 {} _ _ c d ⟨_, _, _, hlog⟩ hc hd
    (hcargs ▸ sendCommand_loadcellWeights) (hdargs ▸ sendCommand_loadcellWeights)⟩

end IoBoard
