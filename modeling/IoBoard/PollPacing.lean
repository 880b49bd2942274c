import IoBoard.SseShutdown
import Mathlib.Tactic.Linarith

/-!
# The Pace of the Polls

A polling service sleeps at the end of every round until its interval since the beginning of the
round is over, and a service that has paused does not begin a round before it is woken. So the
board is polled at most once in each interval, in every run, however often the streams and the
other services subscribe and unsubscribe.

## Conventions

A poll counts when its `fetch` has returned and its result is broadcast. The clock is that of the
event loop, an exact rational; how long a `fetch` takes and when the loop is resumed is left to the
environment, so polls may be rarer. The bound is on the polls between any two states of a run: the
time between them, divided by the interval, and two more: one for a round that had begun before
the first state, and one at its time.

The interval of the IO status depends on whether there are subscribers of the loadcells when the
round ends. Its polls are bounded by the shorter of the two intervals, or, over a part of a run
with such subscribers, by the one that is meant for that.

## How it is proved

The invariant of one service (`Paced`) bounds the polls since some state by the stage of the loop:
a round that begins now is not too early. A step of the streams is a run of each of the two
services, a step of its own or calls of the consumers, so the bound for one service gives that for
the streams.

## Main results

* `Paced.step`: a step keeps the pace.
* `polled_pace`: the pace of one service.
* `poll_rate`: **the pace of the two services of the application**, whatever the clients do.
-/

open Runs

namespace IoBoard

/-! ### One service -/

namespace PollingService

variable {κ α : Type*} [DecidableEq κ] {s s' : PollingService κ α} {I c₀ : ℚ} {b : ℕ}

/-- The service is not started again, and a round asks for the interval `I` at least. Everything
else may happen. -/
def Paces (I : ℚ) (s : PollingService κ α) : PollingAction κ α → Prop
  | .start => False
  | .fetched _ _ _ provided => I ≤ provided.getD s.interval
  | _ => True

/-- The polls since there were `b`, as a number that can be compared with times. -/
def pollsSince (s : PollingService κ α) (b : ℕ) : ℚ :=
  s.polled.length - b

/-- What the stage of the loop says of the pace since the time `c₀`: a round that begins now is
not too early. A round that began before `c₀` is the first to be counted. -/
def stagePaced (I : ℚ) (b : ℕ) (c₀ : ℚ) (s : PollingService κ α) : Prop :=
  match s.loop with
  | .stopped => True
  | .waiting _ => (s.pollsSince b - 1) * I ≤ s.clock - c₀
  | .polling t => (s.pollsSince b - 1) * I ≤ s.clock - c₀ ∧
      (s.pollsSince b ≤ 0 ∨ (s.pollsSince b - 1) * I ≤ t - c₀)
  | .sleeping wake => (s.pollsSince b - 1) * I ≤ max wake s.clock - c₀

/-- **The pace of a service** since the time `c₀`, when there were `b` polls: those since then
are bounded by the time that has passed. -/
structure Paced (I : ℚ) (b : ℕ) (c₀ : ℚ) (s : PollingService κ α) : Prop where
  since : c₀ ≤ s.clock
  bound : (s.pollsSince b - 2) * I ≤ s.clock - c₀
  stage : s.stagePaced I b c₀

omit [DecidableEq κ] in
/-- Every service is on its pace when counting starts. -/
theorem paced_refl (hI : 0 ≤ I) (s : PollingService κ α) :
    s.Paced I s.polled.length s.clock := by
  have hsince : s.pollsSince s.polled.length = 0 := sub_self _
  refine ⟨le_rfl, by rw [hsince]; linarith, ?_⟩
  unfold stagePaced
  rw [hsince]
  split
  · trivial
  · linarith
  · exact ⟨by linarith, .inl le_rfl⟩
  · next wake _ =>
      have hle := le_max_right wake s.clock
      linarith

omit [DecidableEq κ] in
/-- What the pace depends on. -/
theorem Paced.congr (h : s.Paced I b c₀) (hpolled : s'.polled = s.polled)
    (hclock : s'.clock = s.clock) (hloop : s'.loop = s.loop) : s'.Paced I b c₀ := by
  have hsince : s'.pollsSince b = s.pollsSince b := by rw [pollsSince, hpolled, pollsSince]
  refine ⟨hclock ▸ h.since, by rw [hsince, hclock]; exact h.bound, ?_⟩
  have hstage := h.stage
  unfold stagePaced at hstage ⊢
  rw [hsince, hclock, hloop]
  exact hstage

omit [DecidableEq κ] in
/-- A loop that is woken keeps the pace: it has slept before it waited. -/
theorem Paced.setHasSubscribers (h : s.Paced I b c₀) : s.setHasSubscribers.Paced I b c₀ := by
  unfold PollingService.setHasSubscribers
  split_ifs
  · exact h
  · refine ⟨h.since, h.bound, ?_⟩
    have hstage := h.stage
    unfold stagePaced at hstage ⊢
    cases hloop : s.loop <;> rw [hloop] at hstage <;> exact hstage

theorem Paced.subscribe (h : s.Paced I b c₀) (q : κ) : (s.subscribe q).Paced I b c₀ := by
  unfold PollingService.subscribe
  dsimp only
  have hset : ({ s with subscribers := insert q s.subscribers } :
      PollingService κ α).Paced I b c₀ := h.congr rfl rfl rfl
  split_ifs
  · exact hset.setHasSubscribers
  · exact hset

theorem Paced.unsubscribe (h : s.Paced I b c₀) (q : κ) : (s.unsubscribe q).Paced I b c₀ := by
  unfold PollingService.unsubscribe
  dsimp only
  split_ifs <;> exact h.congr rfl rfl rfl

omit [DecidableEq κ] in
/-- A round begins when the sleep of the one before is over. -/
theorem Paced.beginRound (h : s.Paced I b c₀)
    (hready : (s.pollsSince b - 1) * I ≤ s.clock - c₀) : s.beginRound.Paced I b c₀ := by
  refine ⟨h.since, h.bound, ?_⟩
  rw [PollingService.beginRound]
  split_ifs
  · exact ⟨hready, .inr hready⟩
  · exact hready

/-- **A round that is finished** is counted, and the service sleeps for the interval since the
round began. -/
theorem Paced.finishRound (h : s.Paced I b c₀) (hinv : s.Inv) {began : ℚ}
    (hloop : s.loop = .polling began) (item : StreamItem α) {order : List κ}
    (hnodup : order.Nodup) (horder : order.toFinset = s.subscribers) {provided : Option ℚ}
    (hI : I ≤ provided.getD s.interval) :
    (s.finishRound began item order provided).Paced I b c₀ := by
  rw [finishRound_eq hinv.live hnodup horder]
  have hstage := h.stage
  unfold stagePaced at hstage
  rw [hloop] at hstage
  obtain ⟨hclock, hbegan⟩ := hstage
  have hcount (s' : PollingService κ α)
      (hpolled : s'.polled = s.polled ++ [(s.subscribers, item)]) :
      s'.pollsSince b = s.pollsSince b + 1 := by
    rw [pollsSince, hpolled, List.length_append, pollsSince]
    push_cast
    simp only [List.length_singleton, Nat.cast_one]
    ring
  have hwake : began + I ≤
      s.clock + max 0 (provided.getD s.interval - (s.clock - began)) := by
    have hle := le_max_right 0 (provided.getD s.interval - (s.clock - began))
    linarith
  refine ⟨h.since, ?_, ?_⟩
  · rw [hcount _ rfl]
    dsimp only
    linarith
  · unfold stagePaced
    rw [hcount _ rfl]
    dsimp only
    obtain hfirst | hnext := hbegan
    · have hle := le_max_right
        (s.clock + max 0 (provided.getD s.interval - (s.clock - began))) s.clock
      have hzero : s.pollsSince b * I ≤ s.clock - c₀ := by
        rcases le_or_gt 0 I with hpos | hneg
        · exact (mul_nonpos_of_nonpos_of_nonneg hfirst hpos).trans (sub_nonneg.mpr h.since)
        · linarith
      rw [add_sub_cancel_right]
      linarith
    · have hle := le_max_left
        (s.clock + max 0 (provided.getD s.interval - (s.clock - began))) s.clock
      linarith

/-- **Every step keeps the pace.** Only the end of a round counts a poll, and it puts the loop
to sleep. -/
theorem Paced.step (h : s.Paced I b c₀) (hinv : s.Inv) {act : PollingAction κ α}
    (hact : Paces I s act) (hs : s.step act = some s') : s'.Paced I b c₀ := by
  have hstage := h.stage
  unfold stagePaced at hstage
  cases act with
  | start => exact hact.elim
  | stop =>
      cases hs
      exact ⟨h.since, h.bound, trivial⟩
  | subscribe q =>
      simp only [PollingService.step, Option.ite_none_left_eq_some, Option.some.injEq] at hs
      obtain ⟨-, rfl⟩ := hs
      exact h.subscribe q
  | unsubscribe q =>
      cases hs
      exact h.unsubscribe q
  | shutdown q =>
      simp only [PollingService.step, Option.ite_none_left_eq_some, Option.some.injEq] at hs
      obtain ⟨-, rfl⟩ := hs
      exact h.congr rfl rfl rfl
  | resume =>
      cases hloop : s.loop with
      | stopped | polling => simp only [PollingService.step, hloop, reduceCtorEq] at hs
      | waiting woken =>
          cases woken <;> simp only [PollingService.step, hloop, reduceCtorEq] at hs
          cases hs
          rw [hloop] at hstage
          exact ⟨h.since, h.bound, hstage, .inr hstage⟩
      | sleeping wake =>
          simp only [PollingService.step, hloop, Option.ite_none_right_eq_some,
            Option.some.injEq] at hs
          obtain ⟨hwake, rfl⟩ := hs
          rw [hloop] at hstage
          dsimp only at hstage
          rw [max_eq_right hwake] at hstage
          exact h.beginRound hstage
  | fetched outcome timestamp order provided =>
      simp only [PollingService.step] at hs
      split at hs
      · cases hs
        exact ⟨h.since, h.bound, trivial⟩
      · next began item hloop _ =>
          simp only [Option.ite_none_right_eq_some, Option.some.injEq] at hs
          obtain ⟨⟨hnodup, horder⟩, rfl⟩ := hs
          exact h.finishRound hinv hloop item hnodup horder hact
      · cases hs
  | get consumer q =>
      simp only [PollingService.step] at hs
      split at hs
      · cases hs
        exact h.congr rfl rfl rfl
      · simp only [Option.ite_none_right_eq_some, Option.some.injEq] at hs
        obtain ⟨-, rfl⟩ := hs
        exact h
  | tick d =>
      simp only [PollingService.step, Option.ite_none_right_eq_some, Option.some.injEq] at hs
      obtain ⟨hd, rfl⟩ := hs
      have hsince := h.since
      have hbound := h.bound
      refine ⟨by dsimp only; linarith, by
        change (s.pollsSince b - 2) * I ≤ s.clock + d - c₀
        linarith, ?_⟩
      unfold stagePaced
      change match s.loop with
        | .stopped => True
        | .waiting _ => (s.pollsSince b - 1) * I ≤ s.clock + d - c₀
        | .polling t => (s.pollsSince b - 1) * I ≤ s.clock + d - c₀ ∧
            (s.pollsSince b ≤ 0 ∨ (s.pollsSince b - 1) * I ≤ t - c₀)
        | .sleeping wake => (s.pollsSince b - 1) * I ≤ max wake (s.clock + d) - c₀
      cases hloop : s.loop with
      | stopped => trivial
      | waiting woken =>
          rw [hloop] at hstage
          dsimp only at hstage ⊢
          linarith
      | polling t =>
          rw [hloop] at hstage
          exact ⟨by linarith [hstage.1], hstage.2⟩
      | sleeping wake =>
          rw [hloop] at hstage
          have hle : max wake s.clock ≤ max wake (s.clock + d) :=
            max_le_max_left wake (by linarith)
          dsimp only at hstage ⊢
          linarith

/-- **The pace of the polls**: at most one in each interval, and two more, for any two states of
a run. -/
theorem polled_pace (hinv : s.Inv) (hI : 0 ≤ I)
    (hrun : Reaches PollingService.step (Paces I) s s') :
    ((s'.polled.length : ℚ) - s.polled.length - 2) * I ≤ s'.clock - s.clock := by
  have hpaced : s'.Inv ∧ s'.Paced I s.polled.length s.clock :=
    hrun.invariant (P := fun t => t.Inv ∧ t.Paced I s.polled.length s.clock)
      ⟨hinv, paced_refl hI s⟩ fun t act t' ⟨ht, hpaced⟩ hact hs =>
        ⟨ht.step hs, hpaced.step ht hact hs⟩
  exact hpaced.2.bound

end PollingService

/-! ### The streams as runs of the services -/

/-- The calls of the consumers, and the passing of time. -/
def PollingService.Quiet {κ α : Type*} (_ : PollingService κ α) : PollingAction κ α → Prop
  | .subscribe _ | .unsubscribe _ | .shutdown _ | .get _ _ | .tick _ => True
  | _ => False

theorem PollingService.paces_of_quiet {κ α : Type*} {I : ℚ} (s : PollingService κ α)
    (act : PollingAction κ α) (h : s.Quiet act) : Paces I s act := by
  cases act <;> first | exact trivial | exact h.elim

/-- No step changes the interval, which the constructor sets. -/
theorem PollingService.step_interval {κ α : Type*} [DecidableEq κ] {s s' : PollingService κ α}
    {act : PollingAction κ α} (hs : s.step act = some s') : s'.interval = s.interval := by
  cases act with
  | start =>
      simp only [PollingService.step, Option.ite_none_right_eq_some, Option.some.injEq] at hs
      obtain ⟨-, rfl⟩ := hs
      rfl
  | stop =>
      cases hs
      rfl
  | unsubscribe q =>
      cases hs
      unfold PollingService.unsubscribe
      dsimp only
      split_ifs <;> rfl
  | subscribe q =>
      simp only [PollingService.step, Option.ite_none_left_eq_some, Option.some.injEq] at hs
      obtain ⟨-, rfl⟩ := hs
      unfold PollingService.subscribe PollingService.setHasSubscribers
      dsimp only
      split_ifs <;> rfl
  | shutdown q =>
      simp only [PollingService.step, Option.ite_none_left_eq_some, Option.some.injEq] at hs
      obtain ⟨-, rfl⟩ := hs
      rfl
  | resume =>
      simp only [PollingService.step] at hs
      split at hs
      · cases hs
        rfl
      · rw [Option.ite_none_right_eq_some, Option.some.injEq] at hs
        obtain ⟨-, rfl⟩ := hs
        rfl
      · cases hs
  | fetched outcome timestamp order provided =>
      simp only [PollingService.step] at hs
      split at hs
      · cases hs
        rfl
      · rw [Option.ite_none_right_eq_some, Option.some.injEq] at hs
        obtain ⟨-, rfl⟩ := hs
        rw [PollingService.finishRound]
        split <;> rfl
      · cases hs
  | get consumer q =>
      simp only [PollingService.step] at hs
      split at hs
      · cases hs
        rfl
      · rw [Option.ite_none_right_eq_some, Option.some.injEq] at hs
        obtain ⟨-, rfl⟩ := hs
        rfl
  | tick d =>
      simp only [PollingService.step, Option.ite_none_right_eq_some, Option.some.injEq] at hs
      obtain ⟨-, rfl⟩ := hs
      rfl

theorem PollingService.reaches_interval {κ α : Type*} [DecidableEq κ]
    {s s' : PollingService κ α} {C : PollingService κ α → PollingAction κ α → Prop}
    (h : Reaches PollingService.step C s s') : s'.interval = s.interval :=
  h.invariant (P := fun t => t.interval = s.interval) rfl fun _ _ _ hsame _ hs =>
    (step_interval hs).trans hsame

section Quiet

variable {α : Type*} {p : PollingService SubscriberName α} {n : ℕ}

theorem PollingService.reaches_subscribe (h : (p.queues (.stream n)).isShutdown = false) :
    Reaches PollingService.step Quiet p (p.subscribe (.stream n)) := by
  refine Reaches.single (.subscribe (.stream n)) trivial ?_
  rw [PollingService.step, h]
  rfl

theorem PollingService.reaches_close :
    Reaches PollingService.step Quiet p (p.close (.stream n)) := by
  refine (Reaches.single (.unsubscribe (.stream n)) trivial rfl).tail
    (a := .shutdown (.stream n)) trivial ?_
  have hnot : SubscriberName.stream n ∉ (p.unsubscribe (.stream n)).subscribers := by simp
  rw [PollingService.step, if_neg hnot]
  rfl

theorem PollingService.reaches_take {item : StreamItem α} {rest : List (StreamItem α)}
    (h : (p.queues (.stream n)).items = item :: rest) :
    Reaches PollingService.step Quiet p (p.take n (.stream n) item rest) := by
  refine Reaches.single (.get n (.stream n)) trivial ?_
  rw [PollingService.step, h]
  rfl

end Quiet

namespace Streams

variable {u : CharDatabase} {polling : PollingModel} {s s' : Streams} {n : ℕ} {c : Client}

/-- Consumers call the services, or time passes. No poll is made by that. -/
def QuietRun (s s' : Streams) : Prop :=
  Reaches PollingService.step PollingService.Quiet s.loadcells s'.loadcells ∧
    Reaches PollingService.step PollingService.Quiet s.ioStatus s'.ioStatus

theorem quietRun_finish (s : Streams) (n : ℕ) (c : Client) : QuietRun s (s.finish n c) := by
  unfold QuietRun Streams.finish
  constructor
  · dsimp only
    split_ifs
    · exact PollingService.reaches_close
    · exact Reaches.refl _
  · dsimp only
    split_ifs
    · exact PollingService.reaches_close
    · exact Reaches.refl _

theorem quietRun_loopHead (s : Streams) (n : ℕ) (c : Client) : QuietRun s (s.loopHead n c) := by
  unfold Streams.loopHead
  split_ifs
  · exact quietRun_finish s n c
  · exact ⟨Reaches.refl _, Reaches.refl _⟩

theorem Inv.quietRun_connect (h : s.Inv u) (hn : s.clients n = none) (request : SseRequest)
    (enabledStreams : List Str) (detector : Option (LoadcellChangeDetector PyFloat)) :
    QuietRun s (s.connect n request enabledStreams detector) := by
  have hloadcells := (h.holdsLoadcells n).shut
  have hioStatus := (h.holdsIoStatus n).shut
  rw [hn] at hloadcells hioStatus
  rw [Streams.connect]
  have hloop := quietRun_loopHead { s with
    loadcells := if detector.isSome then s.loadcells.subscribe (.stream n) else s.loadcells
    ioStatus := if "doors".toList ∈ enabledStreams then s.ioStatus.subscribe (.stream n)
      else s.ioStatus } n {
    request := request
    loadcells := detector.map fun d => { initial := d, detector := d }
    doors := if "doors".toList ∈ enabledStreams then some {} else none }
  refine ⟨Reaches.trans ?_ hloop.1, Reaches.trans ?_ hloop.2⟩
  · dsimp only
    split_ifs
    · exact PollingService.reaches_subscribe (by simpa using hloadcells)
    · exact Reaches.refl _
  · dsimp only
    split_ifs
    · exact PollingService.reaches_subscribe (by simpa using hioStatus)
    · exact Reaches.refl _

theorem quietRun_resumeLoadcells {t : LoadcellsTask} {disconnected : Bool} {now : ℚ}
    (hs : s.resumeLoadcells n c t disconnected now = some s') : QuietRun s s' := by
  obtain ⟨move, hmove, rfl⟩ := Option.map_eq_some_iff.mp hs
  cases move with
  | takes item rest =>
      exact ⟨PollingService.reaches_take ((TaskStage.of_resume hmove).2.1 item rest rfl),
        Reaches.refl _⟩
  | _ => exact ⟨Reaches.refl _, Reaches.refl _⟩

theorem quietRun_resumeDoors {t : DoorsTask} {disconnected : Bool}
    (hs : s.resumeDoors n c t disconnected = some s') : QuietRun s s' := by
  obtain ⟨move, hmove, rfl⟩ := Option.map_eq_some_iff.mp hs
  cases move with
  | takes item rest =>
      exact ⟨Reaches.refl _,
        PollingService.reaches_take ((TaskStage.of_resume hmove).2.1 item rest rfl)⟩
  | _ => exact ⟨Reaches.refl _, Reaches.refl _⟩

theorem quietRun_resumeGenerator {disconnected : Bool}
    (hs : s.resumeGenerator n c disconnected = some s') : QuietRun s s' := by
  unfold Streams.resumeGenerator at hs
  split at hs
  · cases hs
    split_ifs
    · exact quietRun_finish s n c
    · exact ⟨Reaches.refl _, Reaches.refl _⟩
  · cases hs
    exact ⟨Reaches.refl _, Reaches.refl _⟩
  · cases hs
  · cases hs
    exact quietRun_loopHead s n c
  · cases hs

/-- **A step of the streams is a run of each polling service**: a step of its own, or calls of
the consumers. -/
theorem Inv.step_cases (h : s.Inv u) {act : StreamsAction} (hs : s.step u polling act = some s') :
    (∃ a, act = .loadcells a ∧ a.ofService none = true ∧
        s.loadcells.step a = some s'.loadcells ∧ s'.ioStatus = s.ioStatus) ∨
      (∃ a, act = .ioStatus a ∧ a.ofService (some (s.ioStatusInterval polling)) = true ∧
        s.ioStatus.step a = some s'.ioStatus ∧ s'.loadcells = s.loadcells) ∨
      QuietRun s s' := by
  cases act with
  | loadcells act =>
      simp only [Streams.step, Option.ite_none_right_eq_some, Option.map_eq_some_iff] at hs
      obtain ⟨hact, p, hp, rfl⟩ := hs
      exact .inl ⟨act, rfl, hact, hp, rfl⟩
  | ioStatus act =>
      simp only [Streams.step, Option.ite_none_right_eq_some, Option.map_eq_some_iff] at hs
      obtain ⟨hact, p, hp, rfl⟩ := hs
      exact .inr (.inl ⟨act, rfl, hact, hp, rfl⟩)
  | tick d =>
      obtain ⟨p, hp, hs⟩ := Option.bind_eq_some_iff.mp hs
      obtain ⟨q, hq, hs⟩ := Option.bind_eq_some_iff.mp hs
      cases hs
      exact .inr (.inr
        ⟨Reaches.single (.tick d) trivial hp, Reaches.single (.tick d) trivial hq⟩)
  | stop =>
      cases hs
      exact .inr (.inr ⟨Reaches.refl _, Reaches.refl _⟩)
  | connect n request =>
      simp only [Streams.step] at hs
      split at hs
      · next hn hrequest =>
          cases hs
          exact .inr (.inr (h.quietRun_connect hn _ _ _))
      · cases hs
  | pollLoadcells n disconnected now =>
      obtain ⟨c, -, hs⟩ := Option.bind_eq_some_iff.mp hs
      obtain ⟨t, -, hs⟩ := Option.bind_eq_some_iff.mp hs
      exact .inr (.inr (quietRun_resumeLoadcells hs))
  | pollDoors n disconnected =>
      obtain ⟨c, -, hs⟩ := Option.bind_eq_some_iff.mp hs
      obtain ⟨t, -, hs⟩ := Option.bind_eq_some_iff.mp hs
      exact .inr (.inr (quietRun_resumeDoors hs))
  | generator n disconnected =>
      obtain ⟨c, -, hs⟩ := Option.bind_eq_some_iff.mp hs
      exact .inr (.inr (quietRun_resumeGenerator hs))
  | timeout n =>
      obtain ⟨c, -, hs⟩ := Option.bind_eq_some_iff.mp hs
      rw [Option.ite_none_right_eq_some, Option.some.injEq] at hs
      obtain ⟨-, rfl⟩ := hs
      exact .inr (.inr (quietRun_loopHead s n c))
  | cancel n =>
      obtain ⟨c, -, hs⟩ := Option.bind_eq_some_iff.mp hs
      rw [Option.ite_none_left_eq_some, Option.some.injEq] at hs
      obtain ⟨-, rfl⟩ := hs
      exact .inr (.inr (quietRun_finish s n c))

/-! ### The two services -/

/-- A polling service is started again. -/
def Restarts (_ : Streams) : StreamsAction → Bool
  | .loadcells .start | .ioStatus .start => true
  | _ => false

/-- The services are only started once. -/
def NoRestart (s : Streams) (act : StreamsAction) : Prop :=
  s.Restarts act = false

/-- The services are only started once, and somebody is subscribed to the loadcells. -/
def WhileActive (s : Streams) (act : StreamsAction) : Prop :=
  NoRestart s act ∧ s.loadcells.subscribers.Nonempty

/-- The intervals of the settings, which no step changes. -/
structure HasIntervals (polling : PollingModel) (s : Streams) : Prop where
  loadcells : s.loadcells.interval = polling.loadcellsPollInterval
  ioStatus : s.ioStatus.interval = polling.ioStatusPollInterval

theorem HasIntervals.step (h : s.Inv u) (hintervals : HasIntervals polling s)
    {act : StreamsAction} (hs : s.step u polling act = some s') : HasIntervals polling s' := by
  obtain ⟨a, -, -, hstep, hsame⟩ | ⟨a, -, -, hstep, hsame⟩ | ⟨hloadcells, hioStatus⟩ :=
    h.step_cases hs
  · exact ⟨(PollingService.step_interval hstep).trans hintervals.loadcells,
      hsame ▸ hintervals.ioStatus⟩
  · exact ⟨hsame ▸ hintervals.loadcells,
      (PollingService.step_interval hstep).trans hintervals.ioStatus⟩
  · exact ⟨(PollingService.reaches_interval hloadcells).trans hintervals.loadcells,
      (PollingService.reaches_interval hioStatus).trans hintervals.ioStatus⟩

theorem hasIntervals_of_reachable (h : s.Reachable u polling) : HasIntervals polling s :=
  (Reaches.invariant (P := fun s : Streams => s.Inv u ∧ HasIntervals polling s) h
    ⟨inv_initial u polling, rfl, rfl⟩ fun _ _ _ ⟨hinv, hintervals⟩ _ hs =>
      ⟨hinv.step hs, hintervals.step hinv hs⟩).2

/-- A run of the streams under the condition `C` is a run of each polling service at its pace. -/
theorem reaches_paced (h : s.Reachable u polling) {C : Streams → StreamsAction → Prop}
    (hC : ∀ s act, C s act → NoRestart s act) {I : ℚ}
    (hI : ∀ s act, C s act → I ≤ s.ioStatusInterval polling)
    (hrun : Reaches (step u polling) C s s') :
    Reaches PollingService.step (PollingService.Paces polling.loadcellsPollInterval)
        s.loadcells s'.loadcells ∧
      Reaches PollingService.step (PollingService.Paces I) s.ioStatus s'.ioStatus := by
  let follows (t : Streams) : Prop := (t.Inv u ∧ HasIntervals polling t) ∧
    Reaches PollingService.step (PollingService.Paces polling.loadcellsPollInterval)
        s.loadcells t.loadcells ∧
      Reaches PollingService.step (PollingService.Paces I) s.ioStatus t.ioStatus
  suffices hfollows : follows s' from hfollows.2
  refine hrun.invariant (P := follows)
    ⟨⟨streamsInv_of_reachable h, hasIntervals_of_reachable h⟩, Reaches.refl _, Reaches.refl _⟩ ?_
  rintro t act t' ⟨⟨hinv, hintervals⟩, hloadcells, hioStatus⟩ hact hs
  refine ⟨⟨hinv.step hs, hintervals.step hinv hs⟩, ?_⟩
  have hrestart := hC t act hact
  obtain ⟨a, rfl, hservice, hstep, hsame⟩ | ⟨a, rfl, hservice, hstep, hsame⟩ |
    ⟨hquiet, hquiet'⟩ := hinv.step_cases hs
  · rw [hsame]
    refine ⟨hloadcells.tail ?_ hstep, hioStatus⟩
    cases a with
    | start => cases hrestart
    | fetched outcome timestamp order provided =>
        obtain rfl := of_decide_eq_true hservice
        exact hintervals.loadcells.ge
    | _ => trivial
  · rw [hsame]
    refine ⟨hloadcells, hioStatus.tail ?_ hstep⟩
    cases a with
    | start => cases hrestart
    | fetched outcome timestamp order provided =>
        obtain rfl := of_decide_eq_true hservice
        exact hI t _ hact
    | _ => trivial
  · exact ⟨hloadcells.trans (hquiet.mono PollingService.paces_of_quiet),
      hioStatus.trans (hquiet'.mono PollingService.paces_of_quiet)⟩

/-- **The poll rate.** In every run after the services have been started, whatever the clients and
the other services do, the loadcells are polled at most once in each of their intervals, and the
IO status at most once in the shorter of its two intervals, with two polls more; while somebody
is subscribed to the loadcells, it is the interval that is meant for that. -/
theorem poll_rate (h : s.Reachable u polling) (hrun : Reaches (step u polling) NoRestart s s') :
    ((s'.loadcells.polled.length : ℚ) - s.loadcells.polled.length - 2) *
          polling.loadcellsPollInterval ≤ s'.loadcells.clock - s.loadcells.clock ∧
      ((s'.ioStatus.polled.length : ℚ) - s.ioStatus.polled.length - 2) *
          min polling.ioStatusPollInterval polling.ioStatusPollIntervalWhileLoadcellsActive ≤
        s'.ioStatus.clock - s.ioStatus.clock ∧
      (Reaches (step u polling) WhileActive s s' →
        ((s'.ioStatus.polled.length : ℚ) - s.ioStatus.polled.length - 2) *
            polling.ioStatusPollIntervalWhileLoadcellsActive ≤
          s'.ioStatus.clock - s.ioStatus.clock) := by
  obtain ⟨hpos, hpos', hpos''⟩ := polling.validateIntervals
  have hinv := streamsInv_of_reachable h
  obtain ⟨hloadcells, hioStatus⟩ := reaches_paced h (fun _ _ => id)
    (I := min polling.ioStatusPollInterval polling.ioStatusPollIntervalWhileLoadcellsActive)
    (fun s act _ => by
      unfold ioStatusInterval
      split_ifs
      · exact min_le_right ..
      · exact min_le_left ..) hrun
  refine ⟨PollingService.polled_pace hinv.loadcells hpos.le hloadcells,
    PollingService.polled_pace hinv.ioStatus (le_min hpos'.le hpos''.le) hioStatus,
    fun hactive => ?_⟩
  obtain ⟨-, hioStatus'⟩ := reaches_paced h (fun _ _ hact => hact.1)
    (I := polling.ioStatusPollIntervalWhileLoadcellsActive)
    (fun s act hact => by rw [ioStatusInterval, if_pos hact.2]) hactive
  exact PollingService.polled_pace hinv.ioStatus hpos''.le hioStatus'

instance (s : Streams) (act : StreamsAction) : Decidable (NoRestart s act) :=
  inferInstanceAs (Decidable (_ = _))

instance (s : Streams) (act : StreamsAction) : Decidable (WhileActive s act) :=
  inferInstanceAs (Decidable (_ ∧ _))

/-- Another client comes, and the one that is left goes; the loadcells are polled twice more, and
the IO status once. -/
def changingRun : List StreamsAction :=
  [.tick (4 / 5), .loadcells .resume,
    .loadcells (.fetched (.ok (List.replicate 10 "+00100".toList)) 2 [.stream 0] none),
    .connect 2 bothRequest, .cancel 0, .tick (4 / 5), .loadcells .resume,
    .loadcells (.fetched (.error .timeoutError) 3 [.stream 2] none), .tick (2 / 5),
    .ioStatus .resume, .ioStatus (.fetched (.ok ⟨.closed, .locked⟩) 4 [.stream 2] (some 2))]

theorem changingRun_isSome :
    (runIn (step .latin1 {}) WhileActive twoClients changingRun).isSome := by
  decide +kernel

/-- The pace of the polls in `changingRun`. -/
theorem poll_rate_changingRun :
    let s' := (runIn (step .latin1 {}) WhileActive twoClients changingRun).get changingRun_isSome
    s'.loadcells.polled.length = 3 ∧ s'.ioStatus.polled.length = 2 ∧
      ((s'.loadcells.polled.length : ℚ) - twoClients.loadcells.polled.length - 2) * (8 / 10) ≤
        s'.loadcells.clock - twoClients.loadcells.clock ∧
      ((s'.ioStatus.polled.length : ℚ) - twoClients.ioStatus.polled.length - 2) * 2 ≤
        s'.ioStatus.clock - twoClients.ioStatus.clock := by
  have hactive := reaches_get_in changingRun_isSome
  obtain ⟨hloadcells, -, hioStatus⟩ :=
    poll_rate (reaches_get twoClientsRun_isSome) (hactive.mono fun _ _ hact => hact.1)
  exact ⟨by decide +kernel, by decide +kernel, hloadcells, hioStatus hactive⟩

end Streams

end IoBoard
