import IoBoard.Lib.Runs
import IoBoard.Polling
import Mathlib.Algebra.Order.Ring.Unbundled.Rat
import Mathlib.Data.Finset.Card
import Mathlib.Data.List.Sublists

/-!
# The Polling Service

`services/polling/polling_service.py` with the queues of its subscribers and the tasks that
consume them. The loop of the service waits for the event `_has_subscribers`, fetches from its
data source, puts the result into every subscribed queue, and sleeps until the next round.
`κ` are the queue objects, `α` is the data of the source. Everything that reads the board
periodically stands on this service: the recorder, the error state, the health checks and
each SSE client.

## The queues

A queue is unbounded, so `put` never suspends and a broadcast is one step. Its owner shuts a
queue down right after it has unsubscribed it, and never subscribes it again; no `await`
between the two suspends, so a subscribed queue that is shut down is never seen by the loop.
The steps of the model allow just that. `order` is the order in which the set of subscribers is
iterated. It is a parameter of the step, since the iteration order of a Python set is not fixed,
and it lists every subscriber once.

## What is left to the environment

What the data source returns or raises, the timestamp it puts on that, the order of the set and
the answer of `interval_provider` are given with the step that ends a `fetch`. Times are exact
rationals. The clock of the event loop only goes forward, by the step `tick`; the timestamp of a
result is read from another clock, and nothing is assumed to relate the two.

`polled` and `consumed` are not part of the program: they record the results of the completed
polls with the queues that were subscribed at the moment of the broadcast, and what the
consumers got or saw raised. No step looks at them.

## The invariant

A queue holds what was broadcast to it and is not consumed yet. That is one equation for each
queue between the two records and the items of the queue, and every step changes at most one side
of it by what it adds to the other.

## Main results

* `broadcast_eq`: a broadcast adds the result to each queue it goes through, and to no other.
* `pollingInv_of_reachable`: the invariant of the service, in every run.
* `polling_broadcast`: **the flag tells whether there are subscribers, and every queue passes
  on exactly the results that were broadcast while it was subscribed, in order**.
-/

open Runs

namespace IoBoard

/-! ### Queues -/

/-- `StreamQueue`, an unbounded `asyncio.Queue`. An item is the result of a poll with its
timestamp, or the exception that the poll has raised. -/
structure StreamQueue (α : Type*) where
  items : List (StreamItem α) := []
  isShutdown : Bool := false

/-- `put_nowait`. It never finds the queue full, and it raises once the queue has been shut down. -/
def StreamQueue.putNowait {α : Type*} (q : StreamQueue α) (item : StreamItem α) :
    Except PyExc (StreamQueue α) :=
  if q.isShutdown then .error .queueShutDown else .ok { q with items := q.items ++ [item] }

variable {κ α : Type*} [DecidableEq κ]

/-- The loop that puts `item` into the queues of `order`. A queue that raises ends it, and those
before it have got the item. -/
def broadcast (item : StreamItem α) :
    List κ → (κ → StreamQueue α) → (κ → StreamQueue α) × Option PyExc
  | [], queues => (queues, none)
  | q :: order, queues =>
      match (queues q).putNowait item with
      | .ok q' => broadcast item order (Function.update queues q q')
      | .error e => (queues, some e)

/-! ### The service -/

/-- Where the loop is suspended: at `_has_subscribers.wait()`, woken by `set()` or not, in the
`fetch` of a round that began at `timestamp`, or asleep. A waiter that has been woken goes on
even if the event is cleared again before its turn. -/
inductive LoopStage
  | stopped
  | waiting (woken : Bool)
  | polling (timestamp : ℚ)
  | sleeping (wake : ℚ)
  deriving DecidableEq

/-- `PollingService`, the queues, the clock of the event loop, and the two records. `interval`
is the one that counts where no `interval_provider` is given. -/
structure PollingService (κ α : Type*) where
  subscribers : Finset κ := ∅
  interval : ℚ := 1
  hasSubscribers : Bool := false
  loop : LoopStage := .stopped
  queues : κ → StreamQueue α := fun _ => {}
  clock : ℚ := 0
  polled : List (Finset κ × StreamItem α) := []
  consumed : List (ℕ × κ × Except PyExc (α × ℚ)) := []

namespace PollingService

variable (s : PollingService κ α)

/-- `_has_subscribers.set()`, which wakes the loop if it waits. An event that is set already
wakes nobody. -/
def setHasSubscribers : PollingService κ α :=
  if s.hasSubscribers then s
  else
    { s with
      hasSubscribers := true
      loop := match s.loop with
        | .waiting _ => .waiting true
        | stage => stage }

/-- `subscribe`. The first subscriber sets the event. Subscribing a queue once more changes
nothing. -/
def subscribe (q : κ) : PollingService κ α :=
  let s := { s with subscribers := insert q s.subscribers }
  if s.subscribers.card = 1 then s.setHasSubscribers else s

/-- `unsubscribe`. The last subscriber clears the event; a queue that is not subscribed is
ignored. -/
def unsubscribe (q : κ) : PollingService κ α :=
  if q ∈ s.subscribers then
    let s := { s with subscribers := s.subscribers.erase q }
    if s.subscribers.card = 0 then { s with hasSubscribers := false } else s
  else s

/-- The start of a round: `wait()` passes when the event is set, without suspending; the time is
taken behind it. -/
def beginRound : PollingService κ α :=
  { s with loop := if s.hasSubscribers then .polling s.clock else .waiting false }

/-- The rest of the round that began at `timestamp`, after its `fetch`: the broadcast, and the
sleep until the next round. `provided` is what `interval_provider` returns, if there is one.
After a `put` that raises the loop sleeps for its own interval. -/
def finishRound (timestamp : ℚ) (item : StreamItem α) (order : List κ) (provided : Option ℚ) :
    PollingService κ α :=
  let s' := { s with polled := s.polled ++ [(s.subscribers, item)] }
  match broadcast item order s.queues with
  | (queues, none) =>
      { s' with
        queues := queues
        loop := .sleeping
          (s.clock + max 0 (provided.getD s.interval - (s.clock - timestamp))) }
  | (queues, some _) => { s' with queues := queues, loop := .sleeping (s.clock + s.interval) }

end PollingService

/-- What can happen next: the service is started or stopped, a queue is subscribed,
unsubscribed or shut down, the loop is resumed or its `fetch` returns, a consumer takes an
item, or time passes. -/
inductive PollingAction (κ α : Type*)
  | start
  | stop
  | subscribe (q : κ)
  | unsubscribe (q : κ)
  | shutdown (q : κ)
  | resume
  | fetched (outcome : Except PyExc α) (timestamp : ℚ) (order : List κ) (provided : Option ℚ)
  | get (consumer : ℕ) (q : κ)
  | tick (d : ℚ)

/-- One step of the service. A `fetch` that is cancelled ends the loop, any other exception is
broadcast like a result; a consumer of an empty queue that is shut down sees `QueueShutDown`,
and one of an empty queue that is not stays suspended. -/
def PollingService.step (s : PollingService κ α) :
    PollingAction κ α → Option (PollingService κ α)
  | .start => if s.loop = .stopped then some s.beginRound else none
  | .stop => some { s with loop := .stopped }
  | .subscribe q => if (s.queues q).isShutdown then none else some (s.subscribe q)
  | .unsubscribe q => some (s.unsubscribe q)
  | .shutdown q =>
      if q ∈ s.subscribers then none
      else some { s with
        queues := Function.update s.queues q { s.queues q with isShutdown := true } }
  | .resume =>
      match s.loop with
      | .waiting true => some { s with loop := .polling s.clock }
      | .sleeping wake => if wake ≤ s.clock then some s.beginRound else none
      | _ => none
  | .fetched outcome timestamp order provided =>
      match s.loop, DataSource.fetch outcome timestamp with
      | .polling _, .error _ => some { s with loop := .stopped }
      | .polling began, .ok item =>
          if order.Nodup ∧ order.toFinset = s.subscribers then
            some (s.finishRound began item order provided)
          else none
      | _, _ => none
  | .get consumer q =>
      match (s.queues q).items with
      | item :: items =>
          some { s with
            queues := Function.update s.queues q { s.queues q with items := items }
            consumed := s.consumed ++ [(consumer, q, StreamQueue.getNowait item)] }
      | [] => if (s.queues q).isShutdown then some s else none
  | .tick d => if 0 ≤ d then some { s with clock := s.clock + d } else none

/-- The states of the service in every run, from the one that its constructor makes. -/
def PollingService.Reachable (s : PollingService κ α) : Prop :=
  Reaches PollingService.step Any {} s

namespace PollingService

variable (s : PollingService κ α)

/-- The results that were broadcast while `q` was subscribed, in order. This is what the queue
is for, said without the queue. -/
def polledFor (q : κ) : List (StreamItem α) :=
  (s.polled.filter (q ∈ ·.1)).map (·.2)

/-- What the consumers of `q` got or saw raised, in order. -/
def consumedFrom (q : κ) : List (Except PyExc (α × ℚ)) :=
  (s.consumed.filter (·.2.1 = q)).map (·.2.2)

/-- What one consumer got or saw raised from `q`, in order. -/
def consumedBy (consumer : ℕ) (q : κ) : List (Except PyExc (α × ℚ)) :=
  (s.consumed.filter fun c => c.1 = consumer ∧ c.2.1 = q).map (·.2.2)

end PollingService

/-! ### Subscriptions -/

namespace PollingService

omit [DecidableEq κ] in
@[simp] theorem setHasSubscribers_queues (s : PollingService κ α) :
    s.setHasSubscribers.queues = s.queues := by
  unfold setHasSubscribers
  split_ifs <;> rfl

omit [DecidableEq κ] in
@[simp] theorem setHasSubscribers_subscribers (s : PollingService κ α) :
    s.setHasSubscribers.subscribers = s.subscribers := by
  unfold setHasSubscribers
  split_ifs <;> rfl

omit [DecidableEq κ] in
@[simp] theorem setHasSubscribers_polled (s : PollingService κ α) :
    s.setHasSubscribers.polled = s.polled := by
  unfold setHasSubscribers
  split_ifs <;> rfl

@[simp] theorem subscribe_queues (s : PollingService κ α) (q : κ) :
    (s.subscribe q).queues = s.queues := by
  unfold subscribe
  dsimp only
  split_ifs <;> simp

@[simp] theorem subscribe_subscribers (s : PollingService κ α) (q : κ) :
    (s.subscribe q).subscribers = insert q s.subscribers := by
  unfold subscribe
  dsimp only
  split_ifs <;> simp

@[simp] theorem subscribe_polled (s : PollingService κ α) (q : κ) :
    (s.subscribe q).polled = s.polled := by
  unfold subscribe
  dsimp only
  split_ifs <;> simp

@[simp] theorem unsubscribe_queues (s : PollingService κ α) (q : κ) :
    (s.unsubscribe q).queues = s.queues := by
  unfold unsubscribe
  dsimp only
  split_ifs <;> rfl

@[simp] theorem unsubscribe_polled (s : PollingService κ α) (q : κ) :
    (s.unsubscribe q).polled = s.polled := by
  unfold unsubscribe
  dsimp only
  split_ifs <;> rfl

@[simp] theorem unsubscribe_subscribers (s : PollingService κ α) (q : κ) :
    (s.unsubscribe q).subscribers = s.subscribers.erase q := by
  unfold unsubscribe
  dsimp only
  split_ifs with hq
  · rfl
  · rfl
  · exact (Finset.erase_eq_of_notMem hq).symm

end PollingService

/-! ### Broadcasts -/

/-- The queues after `item` has been put into those of `order`, as one function. It is what the
loop of puts comes to where none of them raises. -/
def putInto (item : StreamItem α) (order : List κ) (queues : κ → StreamQueue α) (q : κ) :
    StreamQueue α :=
  if q ∈ order then { queues q with items := (queues q).items ++ [item] } else queues q

/-- **A broadcast to queues that are not shut down** puts the item once into each of them, and
into no other. -/
theorem broadcast_eq {item : StreamItem α} {order : List κ} {queues : κ → StreamQueue α}
    (hnodup : order.Nodup) (hlive : ∀ q ∈ order, (queues q).isShutdown = false) :
    broadcast item order queues = (putInto item order queues, none) := by
  induction order generalizing queues with
  | nil => simp [broadcast, putInto, funext_iff]
  | cons q order ih =>
      obtain ⟨hq, hnodup⟩ := List.nodup_cons.mp hnodup
      obtain ⟨hliveq, hlive⟩ := List.forall_mem_cons.mp hlive
      have hother : ∀ r ∈ order, r ≠ q := fun r hr hrq => hq (hrq ▸ hr)
      rw [broadcast, StreamQueue.putNowait, hliveq]
      simp only [Bool.false_eq_true, if_false]
      rw [ih hnodup fun r hr => by rw [Function.update_of_ne (hother r hr)]; exact hlive r hr]
      refine Prod.ext (funext fun r => ?_) rfl
      by_cases hr : r = q
      · subst hr
        simp [putInto, hq, hliveq]
      · simp [putInto, hr]

/-! ### The invariant -/

namespace PollingService

variable {s s' : PollingService κ α} {q : κ}

/-- The invariant of the service: the flag tells whether there are subscribers, a loop that is
not woken has none, subscribed queues are not shut down, and a queue holds what was broadcast
to it and is not consumed yet. -/
structure Inv (s : PollingService κ α) : Prop where
  flag : s.hasSubscribers = true ↔ s.subscribers.Nonempty
  awake : s.loop = .waiting false → s.hasSubscribers = false
  live : ∀ q ∈ s.subscribers, (s.queues q).isShutdown = false
  account : ∀ q, ∃ taken, s.polledFor q = taken ++ (s.queues q).items ∧
    s.consumedFrom q = taken.map StreamQueue.getNowait

theorem Inv.setHasSubscribers (h : s.Inv) {subscribers : Finset κ} (hs : subscribers.Nonempty)
    (hlive : ∀ q ∈ subscribers, (s.queues q).isShutdown = false) :
    ({ s with subscribers := subscribers } : PollingService κ α).setHasSubscribers.Inv := by
  rw [PollingService.setHasSubscribers]
  split_ifs with hflag
  · exact ⟨⟨fun _ => hs, fun _ => hflag⟩, h.awake, hlive, h.account⟩
  · refine ⟨⟨fun _ => hs, fun _ => rfl⟩, fun hloop => ?_, hlive, h.account⟩
    dsimp only at hloop
    split at hloop
    · cases hloop
    · next hnot => exact absurd hloop (hnot false)

theorem Inv.subscribe (h : s.Inv) (hq : (s.queues q).isShutdown = false) :
    (s.subscribe q).Inv := by
  have hlive : ∀ r ∈ insert q s.subscribers, (s.queues r).isShutdown = false := by
    intro r hr
    obtain rfl | hr := Finset.mem_insert.mp hr
    · exact hq
    · exact h.live r hr
  unfold PollingService.subscribe
  dsimp only
  split_ifs with hcard
  · exact h.setHasSubscribers (Finset.insert_nonempty q _) hlive
  · -- a queue that is not the only one now joins others, or was there before
    have hne : s.subscribers.Nonempty := by
      by_contra hempty
      rw [Finset.not_nonempty_iff_eq_empty.mp hempty] at hcard
      exact hcard rfl
    exact ⟨⟨fun _ => Finset.insert_nonempty q _, fun _ => h.flag.mpr hne⟩, h.awake, hlive,
      h.account⟩

theorem Inv.unsubscribe (h : s.Inv) (q : κ) : (s.unsubscribe q).Inv := by
  have hlive : ∀ r ∈ s.subscribers.erase q, (s.queues r).isShutdown = false :=
    fun r hr => h.live r (Finset.mem_of_mem_erase hr)
  unfold PollingService.unsubscribe
  dsimp only
  split_ifs with hq hcard
  · have hempty := Finset.card_eq_zero.mp hcard
    refine ⟨⟨nofun, fun hne => ?_⟩, fun _ => rfl, hlive, h.account⟩
    dsimp only at hne
    rw [hempty] at hne
    exact absurd hne Finset.not_nonempty_empty
  · refine ⟨⟨fun _ => ?_, fun _ => h.flag.mpr ⟨q, hq⟩⟩, h.awake, hlive, h.account⟩
    exact Finset.card_pos.mp (Nat.pos_of_ne_zero hcard)
  · exact h

theorem Inv.beginRound (h : s.Inv) : s.beginRound.Inv := by
  refine ⟨h.flag, fun hloop => ?_, h.live, h.account⟩
  unfold PollingService.beginRound at hloop ⊢
  dsimp only at hloop ⊢
  split_ifs at hloop with hflag
  exact Bool.eq_false_of_not_eq_true hflag

/-- What one more broadcast adds to the results of a queue: the item, if it was subscribed. -/
theorem polledFor_append (s : PollingService κ α) (item : StreamItem α) (q : κ) :
    ({ s with polled := s.polled ++ [(s.subscribers, item)] } : PollingService κ α).polledFor q =
      s.polledFor q ++ if q ∈ s.subscribers then [item] else [] := by
  rw [polledFor, polledFor, List.filter_append, List.map_append]
  congr 1
  by_cases hq : q ∈ s.subscribers <;> simp [hq]

/-- The rest of a round, while no subscribed queue is shut down. There is no exception, and the
loop goes to sleep. -/
theorem finishRound_eq {order : List κ}
    (hlive : ∀ q ∈ s.subscribers, (s.queues q).isShutdown = false)
    (hnodup : order.Nodup) (horder : order.toFinset = s.subscribers) (timestamp : ℚ)
    (item : StreamItem α) (provided : Option ℚ) :
    s.finishRound timestamp item order provided =
      { s with
        polled := s.polled ++ [(s.subscribers, item)]
        queues := putInto item order s.queues
        loop := .sleeping
          (s.clock + max 0 (provided.getD s.interval - (s.clock - timestamp))) } := by
  have hlive' : ∀ q ∈ order, (s.queues q).isShutdown = false :=
    fun q hq => hlive q (horder ▸ List.mem_toFinset.mpr hq)
  rw [finishRound, broadcast_eq hnodup hlive']

theorem Inv.finishRound (h : s.Inv) {order : List κ} (hnodup : order.Nodup)
    (horder : order.toFinset = s.subscribers) (timestamp : ℚ) (item : StreamItem α)
    (provided : Option ℚ) : (s.finishRound timestamp item order provided).Inv := by
  have hmem (q : κ) : q ∈ order ↔ q ∈ s.subscribers := by rw [← horder, List.mem_toFinset]
  rw [finishRound_eq h.live hnodup horder]
  refine ⟨h.flag, nofun, fun q hq => ?_, fun q => ?_⟩
  · have hshut := h.live q hq
    unfold putInto
    dsimp only
    split_ifs <;> exact hshut
  · obtain ⟨taken, hpolled, hconsumed⟩ := h.account q
    refine ⟨taken, ?_, hconsumed⟩
    have happend := polledFor_append s item q
    rw [hpolled] at happend
    refine happend.trans ?_
    rw [List.append_assoc]
    congr 1
    unfold putInto
    simp only [hmem]
    split_ifs
    · rfl
    · exact List.append_nil _

theorem Inv.shutdown (h : s.Inv) (hq : q ∉ s.subscribers) :
    ({ s with queues := Function.update s.queues q { s.queues q with isShutdown := true } } :
      PollingService κ α).Inv := by
  refine ⟨h.flag, h.awake, fun r hr => ?_, fun r => ?_⟩
  · have hrq : r ≠ q := fun hrq => hq (hrq ▸ hr)
    dsimp only
    rw [Function.update_of_ne hrq]
    exact h.live r hr
  · obtain ⟨taken, hpolled, hconsumed⟩ := h.account r
    refine ⟨taken, ?_, hconsumed⟩
    dsimp only
    by_cases hrq : r = q
    · rw [hrq] at hpolled ⊢
      rw [Function.update_self]
      exact hpolled
    · rw [Function.update_of_ne hrq]
      exact hpolled

/-- A consumer takes the first item of a queue, and nothing else. -/
theorem Inv.get (h : s.Inv) {item : StreamItem α} {items : List (StreamItem α)}
    (hitems : (s.queues q).items = item :: items) (consumer : ℕ) :
    ({ s with
      queues := Function.update s.queues q { s.queues q with items := items }
      consumed := s.consumed ++ [(consumer, q, StreamQueue.getNowait item)] } :
      PollingService κ α).Inv := by
  refine ⟨h.flag, h.awake, fun r hr => ?_, fun r => ?_⟩
  · have hlive := h.live r hr
    dsimp only
    by_cases hrq : r = q
    · rw [hrq, Function.update_self]
      rw [hrq] at hlive
      exact hlive
    · rwa [Function.update_of_ne hrq]
  · obtain ⟨taken, hpolled, hconsumed⟩ := h.account r
    rw [consumedFrom] at hconsumed
    simp only [consumedFrom, List.filter_append, List.map_append, hconsumed]
    by_cases hrq : r = q
    · subst hrq
      refine ⟨taken ++ [item], ?_, by simp⟩
      rw [Function.update_self, List.append_assoc, List.singleton_append, ← hitems]
      exact hpolled
    · refine ⟨taken, ?_, by simp [Ne.symm hrq]⟩
      rw [Function.update_of_ne hrq]
      exact hpolled

/-- **Every step keeps the invariant.** -/
theorem Inv.step (h : s.Inv) {act : PollingAction κ α} (hs : s.step act = some s') :
    s'.Inv := by
  cases act with
  | start =>
      simp only [PollingService.step, Option.ite_none_right_eq_some, Option.some.injEq] at hs
      obtain ⟨-, rfl⟩ := hs
      exact h.beginRound
  | stop =>
      cases hs
      exact ⟨h.flag, nofun, h.live, h.account⟩
  | subscribe q =>
      simp only [PollingService.step, Option.ite_none_left_eq_some, Option.some.injEq,
        Bool.not_eq_true] at hs
      obtain ⟨hq, rfl⟩ := hs
      exact h.subscribe hq
  | unsubscribe q =>
      cases hs
      exact h.unsubscribe q
  | shutdown q =>
      simp only [PollingService.step, Option.ite_none_left_eq_some, Option.some.injEq] at hs
      obtain ⟨hq, rfl⟩ := hs
      exact h.shutdown hq
  | resume =>
      cases hloop : s.loop with
      | stopped | polling => simp only [PollingService.step, hloop, reduceCtorEq] at hs
      | waiting woken =>
          cases woken <;> simp only [PollingService.step, hloop, reduceCtorEq] at hs
          cases hs
          exact ⟨h.flag, nofun, h.live, h.account⟩
      | sleeping wake =>
          simp only [PollingService.step, hloop, Option.ite_none_right_eq_some,
            Option.some.injEq] at hs
          obtain ⟨-, rfl⟩ := hs
          exact h.beginRound
  | fetched outcome timestamp order provided =>
      simp only [PollingService.step] at hs
      split at hs
      · cases hs
        exact ⟨h.flag, nofun, h.live, h.account⟩
      · simp only [Option.ite_none_right_eq_some, Option.some.injEq] at hs
        obtain ⟨⟨hnodup, horder⟩, rfl⟩ := hs
        exact h.finishRound hnodup horder _ _ _
      · cases hs
  | get consumer q =>
      simp only [PollingService.step] at hs
      split at hs
      · next item items hitems =>
          cases hs
          exact h.get hitems consumer
      · simp only [Option.ite_none_right_eq_some, Option.some.injEq] at hs
        obtain ⟨-, rfl⟩ := hs
        exact h
  | tick d =>
      simp only [PollingService.step, Option.ite_none_right_eq_some, Option.some.injEq] at hs
      obtain ⟨-, rfl⟩ := hs
      exact ⟨h.flag, h.awake, h.live, h.account⟩

theorem inv_initial : ({} : PollingService κ α).Inv :=
  ⟨by simp, nofun, nofun, fun _ => ⟨[], rfl, rfl⟩⟩

theorem pollingInv_of_reachable (h : s.Reachable) : s.Inv :=
  Reaches.invariant h inv_initial fun _ _ _ ih _ hs => ih.step hs

/-- The action is a call or a get that names the queue. Rounds of the loop name none. -/
def Names (q : κ) : PollingAction κ α → Prop
  | .subscribe r | .unsubscribe r | .shutdown r | .get _ r => r = q
  | _ => False

/-- **What a step does to a queue it does not name**: it leaves the subscription as it is, and
puts into the queue what it broadcasts, if the queue is subscribed. -/
theorem step_of_not_names (h : s.Inv) {act : PollingAction κ α} (hs : s.step act = some s')
    (hq : ¬ Names q act) : (q ∈ s'.subscribers ↔ q ∈ s.subscribers) ∧
      ∃ items, s'.polled = s.polled ++ items.map (Prod.mk s.subscribers) ∧
        s'.queues q = { s.queues q with
          items := (s.queues q).items ++ if q ∈ s.subscribers then items else [] } := by
  have same (hsub : q ∈ s'.subscribers ↔ q ∈ s.subscribers) (hpolled : s'.polled = s.polled)
      (hqueue : s'.queues q = s.queues q) : (q ∈ s'.subscribers ↔ q ∈ s.subscribers) ∧
      ∃ items, s'.polled = s.polled ++ items.map (Prod.mk s.subscribers) ∧
        s'.queues q = { s.queues q with
          items := (s.queues q).items ++ if q ∈ s.subscribers then items else [] } :=
    ⟨hsub, [], by rw [hpolled, List.map_nil, List.append_nil], by
      rw [hqueue, ite_self, List.append_nil]⟩
  cases act with
  | start =>
      simp only [PollingService.step, Option.ite_none_right_eq_some, Option.some.injEq] at hs
      obtain ⟨-, rfl⟩ := hs
      exact same Iff.rfl rfl rfl
  | stop =>
      cases hs
      exact same Iff.rfl rfl rfl
  | subscribe r =>
      simp only [PollingService.step, Option.ite_none_left_eq_some, Option.some.injEq] at hs
      obtain ⟨-, rfl⟩ := hs
      have hrq : q ≠ r := fun hqr => hq hqr.symm
      exact same (by simp [hrq]) (by simp) (by simp)
  | unsubscribe r =>
      cases hs
      have hrq : q ≠ r := fun hqr => hq hqr.symm
      exact same (by simp [hrq]) (by simp) (by simp)
  | shutdown r =>
      simp only [PollingService.step, Option.ite_none_left_eq_some, Option.some.injEq] at hs
      obtain ⟨-, rfl⟩ := hs
      have hrq : q ≠ r := fun hqr => hq hqr.symm
      exact same Iff.rfl rfl (Function.update_of_ne hrq ..)
  | resume =>
      cases hloop : s.loop with
      | stopped | polling => simp only [PollingService.step, hloop, reduceCtorEq] at hs
      | waiting woken =>
          cases woken <;> simp only [PollingService.step, hloop, reduceCtorEq] at hs
          cases hs
          exact same Iff.rfl rfl rfl
      | sleeping wake =>
          simp only [PollingService.step, hloop, Option.ite_none_right_eq_some,
            Option.some.injEq] at hs
          obtain ⟨-, rfl⟩ := hs
          exact same Iff.rfl rfl rfl
  | fetched outcome timestamp order provided =>
      simp only [PollingService.step] at hs
      split at hs
      · cases hs
        exact same Iff.rfl rfl rfl
      · next began item _ _ =>
          simp only [Option.ite_none_right_eq_some, Option.some.injEq] at hs
          obtain ⟨⟨hnodup, horder⟩, rfl⟩ := hs
          rw [finishRound_eq h.live hnodup horder]
          refine ⟨Iff.rfl, [item], rfl, ?_⟩
          simp only [putInto, ← horder, List.mem_toFinset]
          split_ifs
          · rfl
          · rw [List.append_nil]
      · cases hs
  | get consumer r =>
      have hrq : q ≠ r := fun hqr => hq hqr.symm
      simp only [PollingService.step] at hs
      split at hs
      · cases hs
        exact same Iff.rfl rfl (Function.update_of_ne hrq ..)
      · simp only [Option.ite_none_right_eq_some, Option.some.injEq] at hs
        obtain ⟨-, rfl⟩ := hs
        exact same Iff.rfl rfl rfl
  | tick d =>
      simp only [PollingService.step, Option.ite_none_right_eq_some, Option.some.injEq] at hs
      obtain ⟨-, rfl⟩ := hs
      exact same Iff.rfl rfl rfl

/-- **Polling broadcast.** The flag is set exactly when there are subscribers, and a loop that
is not woken has none to serve. Each queue holds exactly the results that were broadcast while
it was subscribed, without those its consumers have taken from its front; each of these was
got as its data and timestamp, or raised as its error, and every consumer saw its share of
them in the order of the polls. -/
theorem polling_broadcast (h : s.Reachable) :
    (s.hasSubscribers = true ↔ s.subscribers.Nonempty) ∧
      (s.loop = .waiting false → s.subscribers = ∅) ∧
      ∀ q, ∃ n, (s.queues q).items = (s.polledFor q).drop n ∧
        s.consumedFrom q = ((s.polledFor q).take n).map StreamQueue.getNowait ∧
        ∀ consumer, (s.consumedBy consumer q).Sublist (s.consumedFrom q) := by
  have hinv := pollingInv_of_reachable h
  refine ⟨hinv.flag, fun hloop => ?_, fun q => ?_⟩
  · rw [← Finset.not_nonempty_iff_eq_empty, ← hinv.flag, hinv.awake hloop]
    exact Bool.false_ne_true
  · obtain ⟨taken, hpolled, hconsumed⟩ := hinv.account q
    refine ⟨taken.length, ?_, ?_, fun consumer => ?_⟩
    · rw [hpolled, List.drop_left]
    · rw [hpolled, List.take_left, hconsumed]
    · refine List.Sublist.map _ (List.monotone_filter_right _ fun c hc => ?_)
      simp only [decide_eq_true_eq] at hc ⊢
      exact hc.2

/-- Two queues are subscribed, one of them twice; the first poll succeeds and the second one
fails after one of the queues has been unsubscribed. -/
def failingRun : List (PollingAction ℕ ℕ) :=
  [.start, .subscribe 0, .subscribe 1, .subscribe 0, .resume,
    .fetched (.ok 7) 10 [0, 1] none, .unsubscribe 1, .unsubscribe 2, .tick 1, .resume,
    .fetched (.error .timeoutError) 11 [0] none, .get 5 0, .get 5 0]

theorem failingRun_isSome : (runFrom PollingService.step {} failingRun).isSome := by
  decide +kernel

/-- The broadcasts at the end of `failingRun`. -/
theorem polling_broadcast_failingRun :
    let s := (runFrom PollingService.step {} failingRun).get failingRun_isSome
    (s.hasSubscribers = true ↔ s.subscribers.Nonempty) ∧
      (s.loop = .waiting false → s.subscribers = ∅) ∧
      ∀ q, ∃ n, (s.queues q).items = (s.polledFor q).drop n ∧
        s.consumedFrom q = ((s.polledFor q).take n).map StreamQueue.getNowait ∧
        ∀ consumer, (s.consumedBy consumer q).Sublist (s.consumedFrom q) :=
  polling_broadcast (reaches_get failingRun_isSome)

end PollingService

end IoBoard
