import IoBoard.SseDelivery

/-!
# The End of the Streams

What the streams leave behind, and how they end when the server is shut down. A polling service
without subscribers pauses: `_has_subscribers` is only looked at between two rounds, so the
round that is going on is completed.

## After the streams

A generator ends in one step, which unsubscribes its queues, so when all generators are over no
stream is subscribed. That nothing else subscribes is a condition on the run after that
(`NoSubscriber`). The polls that a loop still completes are counted by its stage: one if it is in
the middle of a round, or has been woken, and none otherwise.

## After `stop_event`

Every loop of a client looks at the event when it comes to its head, so what a task or a
generator still does is bounded by its stage. `Winds` is the relation between two states of a
client while the server shuts down: what was sent and may still be sent does not grow, and so for
the items of the tasks and the resumptions of the generator. It composes along a run. These are
bounds on what happens, not on when: the theorem says nothing about time, only that a
generator which is not over can always be resumed, at the latest when its `wait_for` times out.

## Main results

* `polled_le_of_no_subscribers`: a service without subscribers completes at most one more poll.
* `no_polls_after_streams`: **when all streams are over and nothing else is subscribed, the board
  is asked for its loadcells at most once more**, until somebody subscribes again.
* `stop_ends_streams`: **after `stop_event` a client is sent at most one more event, a task takes
  at most one more item, and a generator is over after three more resumptions**.
-/

open Runs

namespace IoBoard

/-! ### A service without subscribers -/

namespace PollingService

variable {κ α : Type*} [DecidableEq κ] {s s' : PollingService κ α}

/-- The polls that the loop completes before it looks at `_has_subscribers` again: one, or none. -/
def pollsLeft (s : PollingService κ α) : ℕ :=
  match s.loop with
  | .polling _ | .waiting true => 1
  | _ => 0

omit [DecidableEq κ] in
theorem pollsLeft_le_one (s : PollingService κ α) : s.pollsLeft ≤ 1 := by
  unfold pollsLeft
  split <;> decide

/-- The action subscribes a queue. -/
def subscribes : PollingAction κ α → Bool
  | .subscribe _ => true
  | _ => false

/-- The action subscribes no queue. -/
def NoSubscribe (_ : PollingService κ α) (act : PollingAction κ α) : Prop :=
  subscribes act = false

/-- A service without subscribers stays so, and a poll it completes is one of those it had
left. -/
theorem Inv.step_of_no_subscribers (h : s.Inv) (hempty : s.subscribers = ∅)
    {act : PollingAction κ α} (hact : NoSubscribe s act) (hs : s.step act = some s') :
    s'.subscribers = ∅ ∧ s'.polled.length + s'.pollsLeft ≤ s.polled.length + s.pollsLeft := by
  have hflag : s.hasSubscribers = false := by
    have hnot : ¬ s.hasSubscribers = true := by
      rw [h.flag, hempty]
      exact Finset.not_nonempty_empty
    exact Bool.eq_false_of_not_eq_true hnot
  have hbegin : s.beginRound.pollsLeft = 0 := by
    rw [pollsLeft, PollingService.beginRound, hflag]
    rfl
  cases act with
  | start =>
      simp only [PollingService.step, Option.ite_none_right_eq_some, Option.some.injEq] at hs
      obtain ⟨-, rfl⟩ := hs
      refine ⟨hempty, ?_⟩
      rw [hbegin]
      exact Nat.le_add_right ..
  | stop =>
      cases hs
      exact ⟨hempty, Nat.le_add_right ..⟩
  | subscribe q => cases hact
  | unsubscribe q =>
      cases hs
      have hnot : q ∉ s.subscribers := by simp [hempty]
      rw [PollingService.unsubscribe, if_neg hnot]
      exact ⟨hempty, le_rfl⟩
  | shutdown q =>
      simp only [PollingService.step, Option.ite_none_left_eq_some, Option.some.injEq] at hs
      obtain ⟨-, rfl⟩ := hs
      exact ⟨hempty, le_rfl⟩
  | resume =>
      cases hloop : s.loop with
      | stopped | polling => simp only [PollingService.step, hloop, reduceCtorEq] at hs
      | waiting woken =>
          cases woken <;> simp only [PollingService.step, hloop, reduceCtorEq] at hs
          cases hs
          simp [pollsLeft, hloop, hempty]
      | sleeping wake =>
          simp only [PollingService.step, hloop, Option.ite_none_right_eq_some,
            Option.some.injEq] at hs
          obtain ⟨-, rfl⟩ := hs
          refine ⟨hempty, ?_⟩
          rw [hbegin]
          exact Nat.le_add_right ..
  | fetched outcome timestamp order provided =>
      simp only [PollingService.step] at hs
      split at hs
      · cases hs
        exact ⟨hempty, Nat.le_add_right ..⟩
      · next began item hloop _ =>
          simp only [Option.ite_none_right_eq_some, Option.some.injEq] at hs
          obtain ⟨⟨hnodup, horder⟩, rfl⟩ := hs
          rw [finishRound_eq h.live hnodup horder]
          refine ⟨hempty, ?_⟩
          simp [pollsLeft, hloop]
      · cases hs
  | get consumer q =>
      simp only [PollingService.step] at hs
      split at hs
      · cases hs
        exact ⟨hempty, le_rfl⟩
      · simp only [Option.ite_none_right_eq_some, Option.some.injEq] at hs
        obtain ⟨-, rfl⟩ := hs
        exact ⟨hempty, le_rfl⟩
  | tick d =>
      simp only [PollingService.step, Option.ite_none_right_eq_some, Option.some.injEq] at hs
      obtain ⟨-, rfl⟩ := hs
      exact ⟨hempty, le_rfl⟩

/-- **A service without subscribers completes at most one more poll**, until somebody
subscribes. -/
theorem polled_le_of_no_subscribers (h : s.Inv) (hempty : s.subscribers = ∅)
    (hrun : Reaches PollingService.step NoSubscribe s s') :
    s'.subscribers = ∅ ∧ s'.polled.length ≤ s.polled.length + 1 := by
  let bound (t : PollingService κ α) : Prop := t.Inv ∧ t.subscribers = ∅ ∧
    t.polled.length + t.pollsLeft ≤ s.polled.length + s.pollsLeft
  have hbound : bound s' := by
    refine hrun.invariant (P := bound) ⟨h, hempty, le_rfl⟩ ?_
    rintro t act t' ⟨hinv, ht, hle⟩ hact hs
    obtain ⟨ht', hle'⟩ := hinv.step_of_no_subscribers ht hact hs
    exact ⟨hinv.step hs, ht', hle'.trans hle⟩
  obtain ⟨-, hempty', hle⟩ := hbound
  have hone := s.pollsLeft_le_one
  exact ⟨hempty', by omega⟩

end PollingService

/-! ### Other clients -/

/-- The client that an action is about, if it is about one. -/
def StreamsAction.client : StreamsAction → Option ℕ
  | .connect n _ | .pollLoadcells n _ _ | .pollDoors n _ | .generator n _ | .timeout n
  | .cancel n => some n
  | _ => none

namespace Streams

variable {u : CharDatabase} {polling : PollingModel} {s s' : Streams} {n m : ℕ} {c : Client}

@[simp] theorem setClient_clients_self (s : Streams) (n : ℕ) (c : Client) :
    (s.setClient n c).clients n = some c :=
  Function.update_self ..

theorem setClient_clients_of_ne (hne : m ≠ n) (s : Streams) (c : Client) :
    (s.setClient n c).clients m = s.clients m :=
  Function.update_of_ne hne ..

@[simp] theorem finish_clients_self (s : Streams) (n : ℕ) (c : Client) :
    (s.finish n c).clients n = some c.finish :=
  Function.update_self ..

theorem finish_clients_of_ne (hne : m ≠ n) (s : Streams) (c : Client) :
    (s.finish n c).clients m = s.clients m :=
  Function.update_of_ne hne ..

theorem loopHead_clients_of_ne (hne : m ≠ n) (s : Streams) (c : Client) :
    (s.loopHead n c).clients m = s.clients m := by
  unfold loopHead
  split_ifs
  · exact finish_clients_of_ne hne s c
  · exact setClient_clients_of_ne hne s _

theorem clients_of_resumeLoadcells {t : LoadcellsTask} {disconnected : Bool} {now : ℚ}
    (hne : m ≠ n) (hs : s.resumeLoadcells n c t disconnected now = some s') :
    s'.clients m = s.clients m := by
  obtain ⟨move, -, rfl⟩ := Option.map_eq_some_iff.mp hs
  cases move <;> exact setClient_clients_of_ne hne _ _

theorem clients_of_resumeDoors {t : DoorsTask} {disconnected : Bool} (hne : m ≠ n)
    (hs : s.resumeDoors n c t disconnected = some s') : s'.clients m = s.clients m := by
  obtain ⟨move, -, rfl⟩ := Option.map_eq_some_iff.mp hs
  cases move <;> exact setClient_clients_of_ne hne _ _

theorem clients_of_resumeGenerator {disconnected : Bool} (hne : m ≠ n)
    (hs : s.resumeGenerator n c disconnected = some s') : s'.clients m = s.clients m := by
  unfold Streams.resumeGenerator at hs
  split at hs
  · cases hs
    split_ifs
    · exact finish_clients_of_ne hne s c
    · exact setClient_clients_of_ne hne s _
  · cases hs
    exact setClient_clients_of_ne hne s _
  · cases hs
  · cases hs
    exact loopHead_clients_of_ne hne s c
  · cases hs

/-- **An action about another client leaves a client as it is**: the streams only share the
services. -/
theorem clients_of_ne {act : StreamsAction} (hs : s.step u polling act = some s')
    (hact : act.client ≠ some m) : s'.clients m = s.clients m := by
  have hne {n : ℕ} (h : some n ≠ some m) : m ≠ n := fun hmn => h (congrArg some hmn.symm)
  cases act with
  | loadcells act | ioStatus act =>
      simp only [Streams.step, Option.ite_none_right_eq_some, Option.map_eq_some_iff] at hs
      obtain ⟨-, p, -, rfl⟩ := hs
      rfl
  | tick d =>
      obtain ⟨p, -, hs⟩ := Option.bind_eq_some_iff.mp hs
      obtain ⟨q, -, hs⟩ := Option.bind_eq_some_iff.mp hs
      cases hs
      rfl
  | stop =>
      cases hs
      rfl
  | connect n request =>
      simp only [Streams.step] at hs
      split at hs
      · cases hs
        exact loopHead_clients_of_ne (hne hact) _ _
      · cases hs
  | pollLoadcells n disconnected now =>
      obtain ⟨c, -, hs⟩ := Option.bind_eq_some_iff.mp hs
      obtain ⟨t, -, hs⟩ := Option.bind_eq_some_iff.mp hs
      exact clients_of_resumeLoadcells (hne hact) hs
  | pollDoors n disconnected =>
      obtain ⟨c, -, hs⟩ := Option.bind_eq_some_iff.mp hs
      obtain ⟨t, -, hs⟩ := Option.bind_eq_some_iff.mp hs
      exact clients_of_resumeDoors (hne hact) hs
  | generator n disconnected =>
      obtain ⟨c, -, hs⟩ := Option.bind_eq_some_iff.mp hs
      exact clients_of_resumeGenerator (hne hact) hs
  | timeout n =>
      obtain ⟨c, -, hs⟩ := Option.bind_eq_some_iff.mp hs
      rw [Option.ite_none_right_eq_some, Option.some.injEq] at hs
      exact hs.2 ▸ loopHead_clients_of_ne (hne hact) s c
  | cancel n =>
      obtain ⟨c, -, hs⟩ := Option.bind_eq_some_iff.mp hs
      rw [Option.ite_none_left_eq_some, Option.some.injEq] at hs
      exact hs.2 ▸ finish_clients_of_ne (hne hact) s c

/-- A client that no action of a run is about. -/
theorem clients_of_runFrom {acts : List StreamsAction}
    (hrun : runFrom (step u polling) s acts = some s')
    (hacts : ∀ act ∈ acts, act.client ≠ some m) : s'.clients m = s.clients m := by
  induction acts generalizing s with
  | nil =>
      cases hrun
      rfl
  | cons act acts ih =>
      obtain ⟨t, ht, hrest⟩ := Option.bind_eq_some_iff.mp hrun
      obtain ⟨hact, hacts⟩ := List.forall_mem_cons.mp hacts
      exact (ih hrest hacts).trans (clients_of_ne ht hact)

end Streams

/-! ### When all streams are over -/

/-- A client connects, or another service subscribes to the loadcells. -/
def StreamsAction.subscribes : StreamsAction → Bool
  | .connect _ _ => true
  | .loadcells act => PollingService.subscribes act
  | _ => false

namespace Streams

variable {u : CharDatabase} {polling : PollingModel} {s s' : Streams} {n : ℕ} {c : Client}

/-- Every generator is over, however it has ended. -/
def Over (s : Streams) : Prop :=
  ∀ n c, s.clients n = some c → c.generator = .ended

/-- Nobody subscribes to the loadcells. -/
def NoSubscriber (_ : Streams) (act : StreamsAction) : Prop :=
  act.subscribes = false

instance (s : Streams) (act : StreamsAction) : Decidable (s.NoSubscriber act) :=
  inferInstanceAs (Decidable (_ = _))

/-- A stream that is over stays as it is, and takes no part in what happens. -/
theorem Inv.step_of_over (h : s.Inv u) (hover : s.Over) {act : StreamsAction}
    (hact : NoSubscriber s act) (hs : s.step u polling act = some s') :
    s'.clients = s.clients ∧
      Reaches PollingService.step PollingService.NoSubscribe s.loadcells s'.loadcells := by
  have hdone (n : ℕ) (c : Client) (hc : s.clients n = some c) := (h.client n c hc).ended
    (by simp [Client.live, hover n c hc])
  cases act with
  | loadcells act =>
      simp only [Streams.step, Option.ite_none_right_eq_some, Option.map_eq_some_iff] at hs
      obtain ⟨-, p, hp, rfl⟩ := hs
      exact ⟨rfl, Reaches.single act hact hp⟩
  | ioStatus act =>
      simp only [Streams.step, Option.ite_none_right_eq_some, Option.map_eq_some_iff] at hs
      obtain ⟨-, p, hp, rfl⟩ := hs
      exact ⟨rfl, Reaches.refl _⟩
  | tick d =>
      obtain ⟨p, hp, hs⟩ := Option.bind_eq_some_iff.mp hs
      obtain ⟨q, hq, hs⟩ := Option.bind_eq_some_iff.mp hs
      cases hs
      exact ⟨rfl, Reaches.single (.tick d) rfl hp⟩
  | stop =>
      cases hs
      exact ⟨rfl, Reaches.refl _⟩
  | connect n request => cases hact
  | pollLoadcells n disconnected now =>
      obtain ⟨c, hc, hs⟩ := Option.bind_eq_some_iff.mp hs
      obtain ⟨t, ht, hs⟩ := Option.bind_eq_some_iff.mp hs
      obtain ⟨move, hmove, -⟩ := Option.map_eq_some_iff.mp hs
      exact absurd ((hdone n c hc).1 t ht) (TaskStage.of_resume hmove).1
  | pollDoors n disconnected =>
      obtain ⟨c, hc, hs⟩ := Option.bind_eq_some_iff.mp hs
      obtain ⟨t, ht, hs⟩ := Option.bind_eq_some_iff.mp hs
      obtain ⟨move, hmove, -⟩ := Option.map_eq_some_iff.mp hs
      exact absurd ((hdone n c hc).2 t ht) (TaskStage.of_resume hmove).1
  | generator n disconnected =>
      obtain ⟨c, hc, hs⟩ := Option.bind_eq_some_iff.mp hs
      simp only [Streams.resumeGenerator, hover n c hc, reduceCtorEq] at hs
  | timeout n =>
      obtain ⟨c, hc, hs⟩ := Option.bind_eq_some_iff.mp hs
      simp only [hover n c hc, reduceCtorEq, if_false] at hs
  | cancel n =>
      obtain ⟨c, hc, hs⟩ := Option.bind_eq_some_iff.mp hs
      simp only [hover n c hc, if_true, reduceCtorEq] at hs

/-- **No polls after the streams.** Once the generators of all clients are over, however they
ended, and no other service is subscribed, the loadcells have no subscriber, and they are polled
at most once more, until a client connects or another service subscribes. -/
theorem no_polls_after_streams (h : s.Reachable u polling) (hover : s.Over)
    (hservices : ∀ n, .service n ∉ s.loadcells.subscribers)
    (hrun : Reaches (step u polling) NoSubscriber s s') :
    s'.loadcells.subscribers = ∅ ∧
      s'.loadcells.polled.length ≤ s.loadcells.polled.length + 1 := by
  have hempty : s.loadcells.subscribers = ∅ := by
    refine Finset.eq_empty_of_forall_notMem fun q hq => ?_
    cases q with
    | service n => exact hservices n hq
    | stream n =>
        obtain ⟨c, hc, -, hlive⟩ := (subscribed_iff h n).1.mp hq
        exact hlive (hover n c hc)
  let follows (t : Streams) : Prop := t.Inv u ∧ t.Over ∧
    Reaches PollingService.step PollingService.NoSubscribe s.loadcells t.loadcells
  have hfollows : follows s' := by
    refine hrun.invariant (P := follows) ⟨streamsInv_of_reachable h, hover, Reaches.refl _⟩ ?_
    rintro t act t' ⟨hinv, hover', hpolls⟩ hact hs
    obtain ⟨hclients, hstep⟩ := hinv.step_of_over hover' hact hs
    refine ⟨hinv.step hs, ?_, hpolls.trans hstep⟩
    unfold Over
    rw [hclients]
    exact hover'
  exact PollingService.polled_le_of_no_subscribers (streamsInv_of_reachable h).loadcells hempty
    hfollows.2.2

/-- Both clients of `twoClientsRun` go while the loadcells are being polled. -/
def overRun : List StreamsAction :=
  twoClientsRun ++ [.tick 1, .loadcells .resume, .cancel 0]

theorem overRun_isSome : (runFrom (step .latin1 {}) (initial {}) overRun).isSome := by
  decide +kernel

/-- The state at the end of `overRun`. -/
def overState : Streams :=
  (runFrom (step .latin1 {}) (initial {}) overRun).get overRun_isSome

theorem over_overState : overState.Over := by
  intro n c hc
  by_cases hn : n < 2
  · have hall : ∀ n < 2, (overState.clients n).all (·.generator = .ended) = true := by
      decide +kernel
    have hended := hall n hn
    rw [hc] at hended
    exact of_decide_eq_true hended
  · have hacts : overRun.all (fun act => act.client.all (· < 2)) = true := by decide +kernel
    have hnone : overState.clients n = none := by
      refine clients_of_runFrom (Option.some_get overRun_isSome).symm fun act hact hclient => hn ?_
      have hlt := List.all_eq_true.mp hacts act hact
      rw [hclient] at hlt
      exact of_decide_eq_true hlt
    rw [hnone] at hc
    cases hc

theorem subscribers_overState : overState.loadcells.subscribers = ∅ := by
  decide +kernel

/-- The poll that was going on, and the next round of the loop. -/
def afterRun : List StreamsAction :=
  [.loadcells (.fetched (.ok []) 2 [] none), .tick 1, .loadcells .resume]

theorem afterRun_isSome :
    (runIn (step .latin1 {}) NoSubscriber overState afterRun).isSome := by
  decide +kernel

/-- The poll that was going on is the last one. -/
theorem no_polls_after_streams_overState :
    let s' := (runIn (step .latin1 {}) NoSubscriber overState afterRun).get afterRun_isSome
    s'.loadcells.polled.length = 2 ∧ s'.loadcells.subscribers = ∅ ∧
      s'.loadcells.polled.length ≤ overState.loadcells.polled.length + 1 :=
  ⟨by decide +kernel, no_polls_after_streams (reaches_get overRun_isSome) over_overState
    (fun n hn => by rw [subscribers_overState] at hn; cases hn)
    (reaches_get_in afterRun_isSome)⟩

end Streams

/-! ### Shutting down -/

/-- The items that a task still takes once `stop_event` is set: one, where it is past the head
of its loop. -/
def TaskStage.takesLeft : TaskStage → ℕ
  | .probing | .getting => 1
  | .starting | .done => 0

/-- How often a generator is still resumed once `stop_event` is set. -/
def GeneratorStage.resumptionsLeft : GeneratorStage → ℕ
  | .probing => 3
  | .waiting => 2
  | .yielding => 1
  | .ended => 0

/-- The events that a generator still yields. -/
def GeneratorStage.sendsLeft : GeneratorStage → ℕ
  | .probing | .waiting => 1
  | .yielding | .ended => 0

namespace Client

/-- What `poll_loadcells` has taken, and still takes, by its stage. -/
def loadcellsWork (c : Client) : ℕ :=
  c.loadcells.elim 0 fun t => t.taken.length + t.stage.takesLeft

/-- What `poll_doors` has taken, and still takes. -/
def doorsWork (c : Client) : ℕ :=
  c.doors.elim 0 fun t => t.taken.length + t.stage.takesLeft

/-- A client goes on towards its end, in a part of a run in which its generator is resumed
`resumptions` times. -/
structure Winds (c c' : Client) (resumptions : ℕ) : Prop where
  sends : c'.sent.length + c'.generator.sendsLeft ≤ c.sent.length + c.generator.sendsLeft
  generator : resumptions + c'.generator.resumptionsLeft ≤ c.generator.resumptionsLeft
  loadcells : c'.loadcellsWork ≤ c.loadcellsWork
  doors : c'.doorsWork ≤ c.doorsWork

theorem Winds.refl (c : Client) : Winds c c 0 :=
  ⟨le_rfl, (Nat.zero_add _).le, le_rfl, le_rfl⟩

theorem Winds.trans {c c' c'' : Client} {k k' : ℕ} (h : Winds c c' k) (h' : Winds c' c'' k') :
    Winds c c'' (k + k') where
  sends := h'.sends.trans h.sends
  generator := by
    have hk := h.generator
    have hk' := h'.generator
    omega
  loadcells := h'.loadcells.trans h.loadcells
  doors := h'.doors.trans h.doors

theorem winds_finish {c : Client} (hlive : c.generator ≠ .ended) : Winds c c.finish 1 where
  sends := Nat.le_add_right ..
  generator := by
    change 1 ≤ c.generator.resumptionsLeft
    cases hstage : c.generator with
    | ended => exact absurd hstage hlive
    | _ => decide
  loadcells := by
    unfold loadcellsWork finish
    cases c.loadcells with
    | none => exact le_rfl
    | some t => exact Nat.le_add_right ..
  doors := by
    unfold doorsWork finish
    cases c.doors with
    | none => exact le_rfl
    | some t => exact Nat.le_add_right ..

/-- A generator that may yield yields. -/
theorem winds_yieldEvent {c : Client} (hstage : c.generator = .probing ∨ c.generator = .waiting)
    (event : UnifiedEvent) (rest : List UnifiedEvent) : Winds c (c.yieldEvent event rest) 1 where
  sends := by
    obtain hstage | hstage := hstage <;>
      simp [hstage, yieldEvent, GeneratorStage.sendsLeft]
  generator := by
    obtain hstage | hstage := hstage <;>
      simp [hstage, yieldEvent, GeneratorStage.resumptionsLeft]
  loadcells := le_rfl
  doors := le_rfl

end Client

/-- A resumption of a task while the server shuts down. -/
theorem TaskStage.takesLeft_of_resume {α : Type*} {stage : TaskStage} {queue : StreamQueue α}
    {disconnected : Bool} {move : TaskMove α}
    (h : stage.resume queue true disconnected = some move) :
    (∀ stage', move = .suspends stage' → stage'.takesLeft ≤ stage.takesLeft) ∧
      ∀ item rest, move = .takes item rest → stage.takesLeft = 1 := by
  have get (hone : stage.takesLeft = 1) :
      (∀ stage', TaskMove.get queue = .suspends stage' → stage'.takesLeft ≤ stage.takesLeft) ∧
      ∀ item rest, TaskMove.get queue = .takes item rest → stage.takesLeft = 1 := by
    refine ⟨fun stage' hstage' => ?_, fun _ _ _ => hone⟩
    unfold TaskMove.get at hstage'
    split at hstage'
    · cases hstage'
    · split_ifs at hstage'
      cases hstage'
      exact hone.ge
  cases stage with
  | starting =>
      cases h
      simp [loopHead, takesLeft]
  | probing =>
      cases disconnected with
      | true =>
          cases h
          simp [takesLeft]
      | false =>
          cases h
          exact get rfl
  | getting =>
      rw [resume, Option.ite_none_left_eq_some] at h
      obtain ⟨-, h⟩ := h
      cases h
      exact get rfl
  | done => cases h

/-- The action resumes the generator of `n`, or ends it. -/
def StreamsAction.resumes (n : ℕ) : StreamsAction → Bool
  | .generator m _ | .timeout m | .cancel m => m = n
  | _ => false

namespace Client

variable {c : Client}

/-- A pass of `poll_loadcells` is its last one. -/
theorem winds_loadcellsPass {t t' : LoadcellsTask} (ht : c.loadcells = some t)
    (hwork : t'.taken.length ≤ t.taken.length + t.stage.takesLeft)
    (result : LoadcellChangeDetector PyFloat × Except PyExc (List (SseEvent PyFloat))) :
    Winds c (c.loadcellsPass t' true result) 0 := by
  obtain ⟨detector, events | events⟩ := result <;>
    refine ⟨le_rfl, (Nat.zero_add _).le, ?_, le_rfl⟩ <;>
    simpa [loadcellsWork, ht, loadcellsPass, TaskStage.loopHead, TaskStage.takesLeft] using hwork

/-- A pass of `poll_doors` is its last one. -/
theorem winds_doorsPass {t t' : DoorsTask} (ht : c.doors = some t)
    (hwork : t'.taken.length ≤ t.taken.length + t.stage.takesLeft)
    (result : Except PyExc (List UnifiedEvent)) :
    Winds c (c.doorsPass t' true result) 0 := by
  obtain events | events := result <;>
    refine ⟨le_rfl, (Nat.zero_add _).le, le_rfl, ?_⟩ <;>
    simpa [doorsWork, ht, doorsPass, TaskStage.loopHead, TaskStage.takesLeft] using hwork

end Client

namespace Streams

variable {u : CharDatabase} {polling : PollingModel} {s s' : Streams} {n : ℕ} {c : Client}

theorem winds_resumeLoadcells (hstop : s.stopEvent = true) {t : LoadcellsTask}
    (ht : c.loadcells = some t) {disconnected : Bool} {now : ℚ}
    (hs : s.resumeLoadcells n c t disconnected now = some s') :
    ∃ c', s'.clients n = some c' ∧ c.Winds c' 0 := by
  rw [resumeLoadcells, hstop] at hs
  obtain ⟨move, hmove, rfl⟩ := Option.map_eq_some_iff.mp hs
  obtain ⟨hsuspends, htakes⟩ := TaskStage.takesLeft_of_resume hmove
  cases move with
  | suspends stage =>
      refine ⟨_, setClient_clients_self .., le_rfl, (Nat.zero_add _).le, ?_, le_rfl⟩
      simpa [Client.loadcellsWork, ht] using hsuspends stage rfl
  | takes item rest =>
      refine ⟨_, setClient_clients_self .., Client.winds_loadcellsPass ht ?_ _⟩
      simp [htakes item rest rfl]
  | raises =>
      exact ⟨_, setClient_clients_self ..,
        Client.winds_loadcellsPass ht (Nat.le_add_right ..) _⟩

theorem winds_resumeDoors (hstop : s.stopEvent = true) {t : DoorsTask}
    (ht : c.doors = some t) {disconnected : Bool}
    (hs : s.resumeDoors n c t disconnected = some s') :
    ∃ c', s'.clients n = some c' ∧ c.Winds c' 0 := by
  rw [resumeDoors, hstop] at hs
  obtain ⟨move, hmove, rfl⟩ := Option.map_eq_some_iff.mp hs
  obtain ⟨hsuspends, htakes⟩ := TaskStage.takesLeft_of_resume hmove
  cases move with
  | suspends stage =>
      refine ⟨_, setClient_clients_self .., le_rfl, (Nat.zero_add _).le, le_rfl, ?_⟩
      simpa [Client.doorsWork, ht] using hsuspends stage rfl
  | takes item rest =>
      refine ⟨_, setClient_clients_self .., Client.winds_doorsPass ht ?_ _⟩
      simp [htakes item rest rfl]
  | raises =>
      exact ⟨_, setClient_clients_self .., Client.winds_doorsPass ht (Nat.le_add_right ..) _⟩

/-- The loop of a generator ends at its head. -/
theorem loopHead_of_stop (hstop : s.stopEvent = true) (n : ℕ) (c : Client) :
    s.loopHead n c = s.finish n c := by
  rw [loopHead, if_pos hstop]

theorem winds_resumeGenerator (hstop : s.stopEvent = true) {disconnected : Bool}
    (hs : s.resumeGenerator n c disconnected = some s') :
    ∃ c', s'.clients n = some c' ∧ c.Winds c' 1 := by
  cases hstage : c.generator with
  | probing =>
      have hlive : c.generator ≠ .ended := by simp [hstage]
      simp only [resumeGenerator, hstage, Option.some.injEq] at hs
      split_ifs at hs
      · subst hs
        exact ⟨c.finish, finish_clients_self .., Client.winds_finish hlive⟩
      · subst hs
        refine ⟨_, setClient_clients_self .., ?_⟩
        split
        · refine ⟨?_, ?_, le_rfl, le_rfl⟩ <;> rw [hstage] <;> exact le_rfl
        · exact Client.winds_yieldEvent (.inl hstage) _ _
  | waiting =>
      cases hqueue : c.eventQueue with
      | nil => simp only [resumeGenerator, hstage, hqueue, reduceCtorEq] at hs
      | cons event rest =>
          simp only [resumeGenerator, hstage, hqueue, Option.some.injEq] at hs
          subst hs
          exact ⟨_, setClient_clients_self .., Client.winds_yieldEvent (.inr hstage) _ _⟩
  | yielding =>
      have hlive : c.generator ≠ .ended := by simp [hstage]
      simp only [resumeGenerator, hstage, Option.some.injEq] at hs
      rw [loopHead_of_stop hstop] at hs
      subst hs
      exact ⟨c.finish, finish_clients_self .., Client.winds_finish hlive⟩
  | ended => simp only [resumeGenerator, hstage, reduceCtorEq] at hs

/-- **What a step does to a client while the server shuts down**: it only takes from what is
left. -/
theorem winds_step (hstop : s.stopEvent = true) (hc : s.clients n = some c)
    {act : StreamsAction} (hs : s.step u polling act = some s') :
    ∃ c', s'.clients n = some c' ∧ c.Winds c' (if act.resumes n then 1 else 0) := by
  by_cases hact : act.client = some n
  · cases act with
    | loadcells | ioStatus | tick | stop => cases hact
    | connect m request =>
        obtain rfl := Option.some.inj hact
        simp only [Streams.step, hc, reduceCtorEq] at hs
    | pollLoadcells m disconnected now =>
        obtain rfl := Option.some.inj hact
        obtain ⟨c', hc', hs⟩ := Option.bind_eq_some_iff.mp hs
        obtain rfl := Option.some.inj (hc.symm.trans hc')
        obtain ⟨t, ht, hs⟩ := Option.bind_eq_some_iff.mp hs
        exact winds_resumeLoadcells hstop ht hs
    | pollDoors m disconnected =>
        obtain rfl := Option.some.inj hact
        obtain ⟨c', hc', hs⟩ := Option.bind_eq_some_iff.mp hs
        obtain rfl := Option.some.inj (hc.symm.trans hc')
        obtain ⟨t, ht, hs⟩ := Option.bind_eq_some_iff.mp hs
        exact winds_resumeDoors hstop ht hs
    | generator m disconnected =>
        obtain rfl := Option.some.inj hact
        simp only [Streams.step, hc] at hs
        simpa [StreamsAction.resumes] using winds_resumeGenerator hstop hs
    | timeout m =>
        obtain rfl := Option.some.inj hact
        simp only [Streams.step, hc] at hs
        obtain ⟨hstage, hs⟩ := Option.ite_none_right_eq_some.mp hs
        have hlive : c.generator ≠ .ended := by simp [hstage]
        rw [loopHead_of_stop hstop, Option.some.injEq] at hs
        subst hs
        simpa [StreamsAction.resumes] using Client.winds_finish hlive
    | cancel m =>
        obtain rfl := Option.some.inj hact
        simp only [Streams.step, hc] at hs
        obtain ⟨hlive, hs⟩ := Option.ite_none_left_eq_some.mp hs
        rw [Option.some.injEq] at hs
        subst hs
        simpa [StreamsAction.resumes] using Client.winds_finish hlive
  · refine ⟨c, (clients_of_ne hs hact).trans hc, ?_⟩
    have hresumes : act.resumes n = false := by
      cases act with
      | generator m | timeout m | cancel m =>
          exact decide_eq_false fun hm => hact (congrArg some hm)
      | _ => rfl
    rw [hresumes]
    exact .refl c

@[simp] theorem loopHead_stopEvent (s : Streams) (n : ℕ) (c : Client) :
    (s.loopHead n c).stopEvent = s.stopEvent := by
  unfold loopHead
  split_ifs <;> rfl

/-- `stop_event` stays set; nothing in the application clears it. -/
theorem stopEvent_of_step (hstop : s.stopEvent = true) {act : StreamsAction}
    (hs : s.step u polling act = some s') : s'.stopEvent = true := by
  cases act with
  | loadcells act | ioStatus act =>
      simp only [Streams.step, Option.ite_none_right_eq_some, Option.map_eq_some_iff] at hs
      obtain ⟨-, p, -, rfl⟩ := hs
      exact hstop
  | tick d =>
      obtain ⟨p, -, hs⟩ := Option.bind_eq_some_iff.mp hs
      obtain ⟨q, -, hs⟩ := Option.bind_eq_some_iff.mp hs
      cases hs
      exact hstop
  | stop =>
      cases hs
      rfl
  | connect n request =>
      simp only [Streams.step] at hs
      split at hs
      · cases hs
        exact (loopHead_stopEvent ..).trans hstop
      · cases hs
  | pollLoadcells n disconnected now =>
      obtain ⟨c, -, hs⟩ := Option.bind_eq_some_iff.mp hs
      obtain ⟨t, -, hs⟩ := Option.bind_eq_some_iff.mp hs
      obtain ⟨move, -, rfl⟩ := Option.map_eq_some_iff.mp hs
      cases move <;> exact hstop
  | pollDoors n disconnected =>
      obtain ⟨c, -, hs⟩ := Option.bind_eq_some_iff.mp hs
      obtain ⟨t, -, hs⟩ := Option.bind_eq_some_iff.mp hs
      obtain ⟨move, -, rfl⟩ := Option.map_eq_some_iff.mp hs
      cases move <;> exact hstop
  | generator n disconnected =>
      obtain ⟨c, -, hs⟩ := Option.bind_eq_some_iff.mp hs
      unfold Streams.resumeGenerator at hs
      split at hs <;> cases hs
      · split_ifs <;> exact hstop
      · exact hstop
      · exact (loopHead_stopEvent ..).trans hstop
  | timeout n =>
      obtain ⟨c, -, hs⟩ := Option.bind_eq_some_iff.mp hs
      rw [Option.ite_none_right_eq_some, Option.some.injEq] at hs
      exact hs.2 ▸ (loopHead_stopEvent ..).trans hstop
  | cancel n =>
      obtain ⟨c, -, hs⟩ := Option.bind_eq_some_iff.mp hs
      rw [Option.ite_none_left_eq_some, Option.some.injEq] at hs
      exact hs.2 ▸ hstop

/-- The rest of a run in which the server shuts down, as long as it may be. -/
theorem winds_runFrom (hstop : s.stopEvent = true) (hc : s.clients n = some c)
    {acts : List StreamsAction} (hrun : runFrom (step u polling) s acts = some s') :
    ∃ c', s'.clients n = some c' ∧ c.Winds c' (acts.countP (·.resumes n)) := by
  induction acts generalizing s c with
  | nil =>
      cases hrun
      exact ⟨c, hc, .refl c⟩
  | cons act acts ih =>
      obtain ⟨t, ht, hrest⟩ := Option.bind_eq_some_iff.mp hrun
      obtain ⟨d, hd, hwinds⟩ := winds_step hstop hc ht
      obtain ⟨c', hc', hwinds'⟩ := ih (stopEvent_of_step hstop ht) hd hrest
      refine ⟨c', hc', ?_⟩
      rw [List.countP_cons, Nat.add_comm]
      exact hwinds.trans hwinds'

/-- A generator that is not over can go on: its `wait_for` times out if nothing else happens. -/
theorem exists_resumption (hc : s.clients n = some c) (hlive : c.generator ≠ .ended) :
    ∃ act : StreamsAction, act.resumes n = true ∧ (s.step u polling act).isSome = true := by
  cases hstage : c.generator with
  | probing | yielding =>
      exact ⟨.generator n false, decide_eq_true rfl, by
        simp [Streams.step, hc, resumeGenerator, hstage]⟩
  | waiting => exact ⟨.timeout n, decide_eq_true rfl, by simp [Streams.step, hc, hstage]⟩
  | ended => exact absurd hstage hlive

/-- **Shutting down.** After `stop_event` is set, a client is sent at most one more event, and
each of its tasks takes at most one more item; its generator can go on until it is over, which
it is after at most three resumptions. -/
theorem stop_ends_streams (hstop : s.stopEvent = true) (hc : s.clients n = some c)
    {acts : List StreamsAction} (hrun : runFrom (step u polling) s acts = some s') :
    ∃ c', s'.clients n = some c' ∧ c'.sent.length ≤ c.sent.length + 1 ∧
      (∀ t t', c.loadcells = some t → c'.loadcells = some t' →
        t'.taken.length ≤ t.taken.length + 1) ∧
      (∀ t t', c.doors = some t → c'.doors = some t' → t'.taken.length ≤ t.taken.length + 1) ∧
      acts.countP (·.resumes n) ≤ 3 ∧
      (c'.generator = .ended ∨ acts.countP (·.resumes n) < 3 ∧
        ∃ act : StreamsAction, act.resumes n = true ∧ (s'.step u polling act).isSome = true) := by
  obtain ⟨c', hc', hwinds⟩ := winds_runFrom hstop hc hrun
  obtain ⟨hsends, hgenerator, hloadcells, hdoors⟩ := hwinds
  have htakes : ∀ stage : TaskStage, stage.takesLeft ≤ 1 := by
    intro stage
    cases stage <;> decide
  have hone : c.generator.sendsLeft ≤ 1 := by
    cases c.generator <;> decide
  have hthree : c.generator.resumptionsLeft ≤ 3 := by
    cases c.generator <;> decide
  refine ⟨c', hc', by omega, fun t t' ht ht' => ?_, fun t t' ht ht' => ?_, by omega, ?_⟩
  · simp only [Client.loadcellsWork, ht, ht', Option.elim_some] at hloadcells
    have := htakes t.stage
    omega
  · simp only [Client.doorsWork, ht, ht', Option.elim_some] at hdoors
    have := htakes t.stage
    omega
  · by_cases hended : c'.generator = .ended
    · exact .inl hended
    · have hleft : 1 ≤ c'.generator.resumptionsLeft := by
        cases hstage : c'.generator with
        | ended => exact absurd hstage hended
        | _ => decide
      exact .inr ⟨by omega, exists_resumption hc' hended⟩

/-- The state of `twoClientsRun` when the server is shut down. -/
def stoppedState : Streams :=
  { twoClients with stopEvent := true }

theorem stoppedState_isSome : (stoppedState.clients 0).isSome := by
  decide +kernel

/-- The generator of the first client yields once more and is over. -/
def stopRun : List StreamsAction :=
  [.generator 0 false, .pollDoors 0 false, .generator 0 false]

theorem stopRun_isSome : (runFrom (step .latin1 {}) stoppedState stopRun).isSome := by
  decide +kernel

/-- The first client of `stoppedState` has been sent one event before and one after. -/
theorem stop_ends_streams_stoppedState :
    let s' := (runFrom (step .latin1 {}) stoppedState stopRun).get stopRun_isSome
    ((stoppedState.clients 0).get stoppedState_isSome).sent.length = 1 ∧
      ∃ c', s'.clients 0 = some c' ∧ c'.sent.length ≤ 2 ∧
        (c'.generator = .ended ∨ stopRun.countP (·.resumes 0) < 3 ∧
          ∃ act : StreamsAction, act.resumes 0 = true ∧
            (s'.step .latin1 {} act).isSome = true) := by
  have hsent : ((stoppedState.clients 0).get stoppedState_isSome).sent.length = 1 := by
    decide +kernel
  obtain ⟨c', hc', hle, -, -, -, hended⟩ := stop_ends_streams
    (rfl : stoppedState.stopEvent = true) (Option.some_get stoppedState_isSome).symm
    (Option.some_get stopRun_isSome).symm
  rw [hsent] at hle
  exact ⟨hsent, c', hc', hle, hended⟩

end Streams

end IoBoard
