import IoBoard.SseStream

/-!
# What the Streams Deliver

The invariant of the unified stream. The two tasks of a client put their events into one queue,
in any interleaving, while other clients connect, disconnect and time out; each event tells the
stream it belongs to, and the events of one stream are those of its own polls.

## From the poll to the client

An event goes through three queues: that of the polling service, from which a task takes the
results; the event queue of the client; and the generator, which sends what it takes from there.
The first is the subject of the polling service, whose invariant says what was broadcast to a
queue and is still in it (`Holding`). Between the first and the second stands the task, and its
invariant is that what it has put is what its detector makes of what it has taken
(`Client.Inv`). The third keeps the order. Since every event names its stream, the events of one
stream are a sublist of those of the client, and that of the two tasks each has its own is not
disturbed by the interleaving.

Every pass of a task puts its events, whatever it has consumed: what a detector raises is an
`Exception`, and the task catches it. That is where the types of the errors are needed, and why
a stream ends only with its generator.

## Other clients

They are the environment: a step about one stream leaves what holds of the others
(`Streams.Inv.update`), and a step of a polling service adds to a queue what it broadcasts to it.

## Main results

* `streamsInv_of_reachable`: the invariant, in every run with any number of clients.
* `stream_delivery`: **the events of a stream are exactly those of the polls that were broadcast
  to the client and that its task has taken, in order**.
* `subscribed_iff`: **a stream is subscribed exactly while its generator is not over**.
-/

open Runs

namespace IoBoard

/-! ### The queue of a stream -/

section Holding

variable {α : Type*} {p p' : PollingService SubscriberName α} {n m : ℕ}
  {taken : Option (List (StreamItem α))} {live : Bool}

/-- What a polling service holds for the stream `n`: `taken` is what its task has taken, if it
has one, and `live` tells whether its generator is not over. -/
structure Holding (p : PollingService SubscriberName α) (n : ℕ)
    (taken : Option (List (StreamItem α))) (live : Bool) : Prop where
  subscribed : .stream n ∈ p.subscribers ↔ taken.isSome = true ∧ live = true
  shut : (p.queues (.stream n)).isShutdown = true ↔ taken.isSome = true ∧ live = false
  account : p.polledFor (.stream n) = taken.getD [] ++ (p.queues (.stream n)).items

/-- Nothing happens to the stream `n`, and so nothing to what the service holds for it. -/
theorem Holding.congr (h : Holding p n taken live)
    (hsub : .stream n ∈ p'.subscribers ↔ .stream n ∈ p.subscribers)
    (hqueue : p'.queues (.stream n) = p.queues (.stream n)) (hpolled : p'.polled = p.polled) :
    Holding p' n taken live := by
  have hfor : p'.polledFor (.stream n) = p.polledFor (.stream n) := by
    rw [PollingService.polledFor, PollingService.polledFor, hpolled]
  refine ⟨hsub.trans h.subscribed, ?_, ?_⟩
  · rw [hqueue]
    exact h.shut
  · rw [hfor, hqueue]
    exact h.account

/-- Whatever does not name the queue adds to it what is broadcast to it. -/
theorem Holding.step (h : Holding p n taken live) (hp : p.Inv)
    {act : PollingAction SubscriberName α} (hs : p.step act = some p')
    (hact : ¬ PollingService.Names (.stream n) act) : Holding p' n taken live := by
  obtain ⟨hsub, items, hpolled, hqueue⟩ := PollingService.step_of_not_names hp hs hact
  refine ⟨hsub.trans h.subscribed, ?_, ?_⟩
  · rw [hqueue]
    exact h.shut
  · have hfor : p'.polledFor (.stream n) = p.polledFor (.stream n) ++
        if .stream n ∈ p.subscribers then items else [] := by
      rw [PollingService.polledFor, PollingService.polledFor, hpolled, List.filter_append,
        List.map_append]
      congr 1
      by_cases hmem : SubscriberName.stream n ∈ p.subscribers <;>
        simp [hmem, List.filter_map, Function.comp_def]
    rw [hfor, hqueue, h.account, List.append_assoc]

/-- A queue that is used for the first time is empty, and open. -/
theorem Holding.subscribe (h : Holding p n none live) :
    Holding (p.subscribe (.stream n)) n (some []) true := by
  refine ⟨by simp, ?_, ?_⟩
  · have hshut : (p.queues (.stream n)).isShutdown ≠ true := fun hshut =>
      Bool.false_ne_true (h.shut.mp hshut).1
    simp [hshut]
  · have haccount := h.account
    rw [PollingService.polledFor, PollingService.subscribe_polled,
      PollingService.subscribe_queues]
    exact haccount

theorem Holding.subscribe_of_ne (h : Holding p n taken live) (hne : n ≠ m) :
    Holding (p.subscribe (.stream m)) n taken live := by
  have hname : SubscriberName.stream n ≠ .stream m := fun heq =>
    hne (SubscriberName.stream.inj heq)
  exact h.congr (by simp [hname]) (by simp) (by simp)

/-- The task of the stream takes an item. -/
theorem Holding.take {items rest : List (StreamItem α)} {item : StreamItem α}
    (h : Holding p n (some items) live)
    (hitems : (p.queues (.stream n)).items = item :: rest) (consumer : ℕ) :
    Holding (p.take consumer (.stream n) item rest) n (some (items ++ [item])) live := by
  refine ⟨h.subscribed, ?_, ?_⟩
  · rw [PollingService.take_queues_self]
    exact h.shut
  · have haccount := h.account
    rw [hitems] at haccount
    rw [PollingService.take_queues_self]
    exact haccount.trans (List.append_cons ..)

theorem Holding.take_of_ne (h : Holding p n taken live) (hne : n ≠ m) (consumer : ℕ)
    (item : StreamItem α) (rest : List (StreamItem α)) :
    Holding (p.take consumer (.stream m) item rest) n taken live :=
  h.congr Iff.rfl
    (p.take_queues_of_ne (fun heq => hne (SubscriberName.stream.inj heq)) consumer item rest) rfl

/-- The end of the stream: its queue is unsubscribed and shut down, and keeps its items. -/
theorem Holding.close {items : List (StreamItem α)} (h : Holding p n (some items) live) :
    Holding (p.close (.stream n)) n (some items) false := by
  refine ⟨by simp, by simp, ?_⟩
  have haccount := h.account
  rw [PollingService.close_queues_self, PollingService.polledFor, PollingService.close_polled]
  exact haccount

theorem Holding.close_of_ne (h : Holding p n taken live) (hne : n ≠ m) :
    Holding (p.close (.stream m)) n taken live := by
  have hname : SubscriberName.stream n ≠ .stream m := fun heq =>
    hne (SubscriberName.stream.inj heq)
  exact h.congr (by simp [hname]) (p.close_queues_of_ne hname) (by simp)

/-- A stream without a task holds nothing, whether its generator is over or not. -/
theorem Holding.of_none (h : Holding p n none live) (live' : Bool) : Holding p n none live' :=
  ⟨by simpa using h.subscribed, by simpa using h.shut, h.account⟩

theorem PollingService.Inv.close (h : p.Inv) (q : SubscriberName) : (p.close q).Inv :=
  (h.unsubscribe q).shutdown (by simp)

/-- A service that has just been made. -/
theorem inv_start (interval : ℚ) :
    ({ interval := interval } : PollingService SubscriberName α).Inv :=
  ⟨by simp, nofun, nofun, fun _ => ⟨[], rfl, rfl⟩⟩

theorem holding_start (interval : ℚ) (n : ℕ) :
    Holding ({ interval := interval } : PollingService SubscriberName α) n none false :=
  ⟨by simp, by simp, rfl⟩

/-- The other services leave the queues of the streams alone, by the guards of the steps. -/
theorem not_names_of_ofService {provided : Option ℚ} {act : PollingAction SubscriberName α}
    (hact : act.ofService provided = true) (n : ℕ) :
    ¬ PollingService.Names (.stream n) act := by
  intro hnames
  cases act with
  | subscribe q | unsubscribe q | shutdown q | get _ q =>
      obtain rfl : q = .stream n := hnames
      cases hact
  | _ => exact hnames

end Holding

/-! ### The tasks go on -/

section Polls

variable {F : Type*} [PyNumber F]

theorem eq_error_of_map {ε β γ : Type*} {f : β → γ} {x : Except ε β} {e : ε}
    (h : x.map f = .error e) : x = .error e := by
  cases x with
  | error e' => exact congrArg _ (Except.error.inj h)
  | ok b => cases h

theorem isException_of_formatValue {x : F} {e : PyExc} (h : formatValue x = .error e) :
    e.isException = true := by
  unfold formatValue at h
  dsimp only at h
  split at h
  · cases h
  · split at h
    · cases h
    · cases h
      split_ifs <;> rfl

theorem isException_of_filter {f : LoadcellFilter F} {value : Str} {e : PyExc}
    (h : (f.filter value).2 = .error e) : e.isException = true := by
  rw [LoadcellFilter.filter] at h
  split at h
  · cases h
  · next numeric _ =>
      split at h
      · cases h
      · exact isException_of_formatValue (eq_error_of_map h)

theorem isException_of_change {threshold compareValue previousValue : Option F} {e : PyExc}
    (h : DetectorChannel.change threshold compareValue previousValue = .error e) :
    e.isException = true := by
  unfold DetectorChannel.change at h
  split at h
  · dsimp only at h
    split at h
    · cases h
      rfl
    · cases h
  · cases h

theorem isException_of_channel {scope : ThresholdScope} {threshold : Option F}
    {ch : DetectorChannel F} {raw : Str} {e : PyExc}
    (h : (ch.process scope threshold raw).2 = .error e) : e.isException = true := by
  rw [DetectorChannel.process] at h
  split at h
  · next hfilter =>
      cases h
      exact isException_of_filter (congrArg Prod.snd hfilter)
  · cases scope <;> dsimp only at h <;> split at h
    · next hchange =>
        cases h
        exact isException_of_change hchange
    · cases h
    · next hchange =>
        cases h
        exact isException_of_change hchange
    · cases h

theorem isException_of_processChannels {scope : ThresholdScope} {thresholds : List F}
    {chs : List (DetectorChannel F)} {raws : List Str} {e : PyExc}
    (h : (processChannels scope thresholds chs raws).2 = .error e) : e.isException = true := by
  induction chs generalizing thresholds raws with
  | nil => cases h
  | cons ch chs ih =>
      cases raws with
      | nil => cases h
      | cons raw raws =>
          rw [processChannels] at h
          split at h
          · next hchannel =>
              cases h
              exact isException_of_channel (congrArg Prod.snd hchannel)
          · exact ih (eq_error_of_map h)

namespace LoadcellChangeDetector

variable (d : LoadcellChangeDetector F)

/-- A frame is never the end of the task that processes it: what it raises is an `Exception`. -/
theorem isException_of_process {raws : List Str} {e : PyExc}
    (h : (d.process raws).2 = .error e) : e.isException = true := by
  rw [process] at h
  split at h
  · cases h
    rfl
  · exact isException_of_processChannels (eq_error_of_map h)

theorem exists_failed {e : PyExc} (he : e.isException = true) (now : ℚ) :
    ∃ events, (d.failed e now).2 = .ok events := by
  cases e with
  | cancelledError => cases he
  | _ => exact ⟨_, rfl⟩

/-- **A pass of `poll_loadcells` always puts its events**, whatever it has consumed. -/
theorem exists_poll (item : StreamItem (List Str)) (now : ℚ) :
    ∃ events, (d.poll item now).2 = .ok events := by
  rw [poll]
  cases item with
  | error e => exact d.exists_failed e.isException now
  | result r =>
      have hprocess : ∀ e, (d.process r.data).2 = .error e → e.isException = true :=
        fun _ => d.isException_of_process
      simp only [StreamQueue.getNowait]
      split
      · next hp => exact exists_failed _ (hprocess _ (congrArg Prod.snd hp)) now
      · exact ⟨_, rfl⟩

/-- The detector after the items of a run, from a given one on. -/
def after (items : List (StreamItem (List Str) × ℚ)) : LoadcellChangeDetector F :=
  items.foldl (fun d entry => (d.poll entry.1 entry.2).1) d

end LoadcellChangeDetector

/-- The events of the polls of a run. -/
def pollEvents (d : LoadcellChangeDetector F) (items : List (StreamItem (List Str) × ℚ)) :
    List (SseEvent F) :=
  (pollLoadcells d items).flatMap Polled.events

/-- One more item adds the events of its own poll. -/
theorem pollEvents_concat (d : LoadcellChangeDetector F)
    (items : List (StreamItem (List Str) × ℚ)) {item : StreamItem (List Str)} {now : ℚ}
    {events : List (SseEvent F)} (h : ((d.after items).poll item now).2 = .ok events) :
    pollEvents d (items ++ [(item, now)]) = pollEvents d items ++ events := by
  induction items generalizing d with
  | nil =>
      change ((d.poll item now).2) = .ok events at h
      simp [pollEvents, pollLoadcells, h, Polled.events, Except.toOption]
  | cons entry items ih =>
      obtain ⟨first, before⟩ := entry
      obtain ⟨firstEvents, hfirst⟩ := d.exists_poll first before
      have hih := ih (d.poll first before).1 h
      unfold pollEvents at hih ⊢
      rw [List.cons_append, pollLoadcells, pollLoadcells]
      simp only [hfirst, List.flatMap_cons, hih, List.append_assoc]

/-- What the doors task puts for an item. -/
def doorEvents (item : StreamItem IOStatusData) : List UnifiedEvent :=
  (pollDoors item).toOption.getD []

/-- **A pass of `poll_doors` always puts one event**: the update, or the error of the poll. -/
theorem exists_pollDoors (item : StreamItem IOStatusData) :
    ∃ event, pollDoors item = .ok [event] ∧ event.stream = "doors" := by
  cases item with
  | result r => exact ⟨_, rfl, rfl⟩
  | error e =>
      obtain ⟨exc, timestamp, he⟩ := e
      cases exc with
      | cancelledError => cases he
      | _ => exact ⟨_, rfl, rfl⟩

/-- The events of a poll belong to the loadcells. -/
theorem stream_of_poll {d : LoadcellChangeDetector PyFloat} {item : StreamItem (List Str)}
    {now : ℚ} {events : List (SseEvent PyFloat)} (h : (d.poll item now).2 = .ok events) :
    ∀ e ∈ events, (UnifiedEvent.sse e).stream = "loadcells" := by
  have hfailed : ∀ (d : LoadcellChangeDetector PyFloat) (exc : PyExc),
      (d.failed exc now).2 = .ok events →
        ∀ e ∈ events, (UnifiedEvent.sse e).stream = "loadcells" := by
    intro d exc hexc
    cases exc with
    | cancelledError => cases hexc
    | ioBoard err =>
        cases hexc
        simp [UnifiedEvent.stream]
    | _ =>
        cases hexc
        simp [UnifiedEvent.stream]
  rw [LoadcellChangeDetector.poll] at h
  split at h
  · exact hfailed d _ h
  · split at h
    · exact hfailed _ _ h
    · cases h
      intro e he
      simp only [LoadcellChangeDetector.frameEvents, List.mem_append, List.mem_cons] at he
      obtain (rfl | hchange) | huncertain := he
      · rfl
      · split_ifs at hchange with hnone
        · cases hchange
        · obtain rfl := List.mem_singleton.mp hchange
          rfl
      · split_ifs at huncertain with hnone
        · cases huncertain
        · obtain rfl := List.mem_singleton.mp huncertain
          rfl

end Polls

/-! ### One client -/

/-- What a resumed task finds in its queue. A task that has ended is not resumed. -/
theorem TaskStage.of_resume {α : Type*} {stage : TaskStage} {queue : StreamQueue α}
    {stopped disconnected : Bool} {move : TaskMove α}
    (h : stage.resume queue stopped disconnected = some move) : stage ≠ .done ∧
      (∀ item rest, move = .takes item rest → queue.items = item :: rest) ∧
      (move = .raises → queue.isShutdown = true) := by
  have get : (∀ item rest, TaskMove.get queue = .takes item rest → queue.items = item :: rest) ∧
      (TaskMove.get queue = .raises → queue.isShutdown = true) := by
    unfold TaskMove.get
    split
    · next hitems => simp [hitems]
    · split_ifs with hshut <;> simp [hshut]
  cases stage with
  | starting =>
      cases h
      simp
  | probing =>
      cases disconnected with
      | true =>
          cases h
          simp
      | false =>
          cases h
          exact ⟨nofun, get⟩
  | getting =>
      rw [resume, Option.ite_none_left_eq_some] at h
      obtain ⟨-, h⟩ := h
      cases h
      exact ⟨nofun, get⟩
  | done => cases h

namespace Client

variable {u : CharDatabase} {c : Client}

/-- The generator is not over. -/
def live (c : Client) : Bool :=
  c.generator ≠ .ended

/-- The events of a stream, those that were sent and those that are still to be sent. -/
def events (c : Client) (stream : String) : List UnifiedEvent :=
  (c.sent ++ c.eventQueue).filter (·.stream = stream)

/-- What `poll_loadcells` has taken, if it is there. -/
def loadcellsTaken (c : Client) : Option (List (StreamItem (List Str))) :=
  c.loadcells.map fun t => t.taken.map Prod.fst

/-- What `poll_doors` has taken, if it is there. -/
def doorsTaken (c : Client) : Option (List (StreamItem IOStatusData)) :=
  c.doors.map (·.taken)

/-- The invariant of a client: its streams are those of its query, its detector is where the
items have led it, and its events are those of the items. -/
structure Inv (u : CharDatabase) (c : Client) : Prop where
  request : ∃ enabledStreams,
    handleUnifiedSse u c.request = .stream enabledStreams (c.loadcells.map (·.initial)) ∧
      (c.doors.isSome = true ↔ "doors".toList ∈ enabledStreams)
  detector : ∀ t, c.loadcells = some t → t.detector = t.initial.after t.taken
  loadcellEvents : c.events "loadcells" =
    (c.loadcells.elim [] fun t => pollEvents t.initial t.taken).map .sse
  doorEvents : c.events "doors" = c.doors.elim [] fun t => t.taken.flatMap doorEvents
  streams : ∀ e ∈ c.sent ++ c.eventQueue, e.stream = "loadcells" ∨ e.stream = "doors"
  ended : c.live = false → (∀ t, c.loadcells = some t → t.stage = .done) ∧
    ∀ t, c.doors = some t → t.stage = .done

/-- A task suspends again. -/
theorem Inv.loadcellsStage (h : c.Inv u) (hlive : c.live = true) {t : LoadcellsTask}
    (ht : c.loadcells = some t) (stage : TaskStage) :
    ({ c with loadcells := some { t with stage := stage } } : Client).Inv u where
  request := by
    have hrequest := h.request
    rw [ht] at hrequest
    exact hrequest
  detector := by
    rintro _ ⟨⟩
    exact h.detector t ht
  loadcellEvents := by
    have hevents := h.loadcellEvents
    rw [ht] at hevents
    exact hevents
  doorEvents := h.doorEvents
  streams := h.streams
  ended := fun hended => absurd (hlive.symm.trans hended) (Bool.noConfusion)

theorem Inv.doorsStage (h : c.Inv u) (hlive : c.live = true) {t : DoorsTask}
    (ht : c.doors = some t) (stage : TaskStage) :
    ({ c with doors := some { t with stage := stage } } : Client).Inv u where
  request := by
    have hrequest := h.request
    rw [ht] at hrequest
    exact hrequest
  detector := h.detector
  loadcellEvents := h.loadcellEvents
  doorEvents := by
    have hevents := h.doorEvents
    rw [ht] at hevents
    exact hevents
  streams := h.streams
  ended := fun hended => absurd (hlive.symm.trans hended) (Bool.noConfusion)

/-- The events of a stream after others have been put: those of the stream among them are added. -/
theorem events_put (c : Client) (more : List UnifiedEvent) (stream : String) :
    ({ c with eventQueue := c.eventQueue ++ more } : Client).events stream =
      c.events stream ++ more.filter (·.stream = stream) := by
  rw [events, events, ← List.filter_append, List.append_assoc]

/-- A pass of `poll_loadcells`. -/
theorem Inv.loadcellsPass (h : c.Inv u) (hlive : c.live = true) {t : LoadcellsTask}
    (ht : c.loadcells = some t) (stopped : Bool) (item : StreamItem (List Str)) (now : ℚ) :
    (c.loadcellsPass { t with taken := t.taken ++ [(item, now)] } stopped
      (t.detector.poll item now)).Inv u := by
  obtain ⟨events, hevents⟩ := t.detector.exists_poll item now
  have hstream := stream_of_poll hevents
  have hdetector := h.detector t ht
  have hrequest := h.request
  have hloadcells := h.loadcellEvents
  rw [ht] at hrequest hloadcells
  have hpass : c.loadcellsPass { t with taken := t.taken ++ [(item, now)] } stopped
      (t.detector.poll item now) =
      { c with
        loadcells := some { t with
          detector := (t.detector.poll item now).1
          taken := t.taken ++ [(item, now)]
          stage := .loopHead stopped }
        eventQueue := c.eventQueue ++ events.map .sse } := by
    rw [← Prod.mk.eta (p := t.detector.poll item now), hevents]
    rfl
  rw [hpass]
  refine ⟨hrequest, ?_, ?_, ?_, ?_, ?_⟩
  · rintro _ ⟨⟩
    simp only [LoadcellChangeDetector.after, List.foldl_append, hdetector]
    rfl
  · have hall : (events.map UnifiedEvent.sse).filter (·.stream = "loadcells") =
        events.map .sse := by
      rw [List.filter_eq_self]
      intro e he
      obtain ⟨e', he', rfl⟩ := List.mem_map.mp he
      exact decide_eq_true (hstream e' he')
    refine (c.events_put _ _).trans ?_
    rw [hdetector] at hevents
    rw [hall, hloadcells]
    simp only [Option.elim, pollEvents_concat t.initial t.taken hevents, List.map_append]
  · have hnone : (events.map UnifiedEvent.sse).filter (·.stream = "doors") = [] := by
      rw [List.filter_eq_nil_iff]
      intro e he
      obtain ⟨e', he', rfl⟩ := List.mem_map.mp he
      rw [hstream e' he']
      decide
    refine (c.events_put _ _).trans ?_
    rw [hnone, List.append_nil]
    exact h.doorEvents
  · intro e he
    rw [← List.append_assoc] at he
    obtain he | he := List.mem_append.mp he
    · exact h.streams e he
    · obtain ⟨e', he', rfl⟩ := List.mem_map.mp he
      exact .inl (hstream e' he')
  · exact fun hended => absurd (hlive.symm.trans hended) (Bool.noConfusion)

/-- A pass of `poll_doors`. -/
theorem Inv.doorsPass (h : c.Inv u) (hlive : c.live = true) {t : DoorsTask}
    (ht : c.doors = some t) (stopped : Bool) (item : StreamItem IOStatusData) :
    (c.doorsPass { t with taken := t.taken ++ [item] } stopped (pollDoors item)).Inv u := by
  obtain ⟨event, hevent, hstream⟩ := exists_pollDoors item
  have hrequest := h.request
  have hdoors := h.doorEvents
  rw [ht] at hrequest hdoors
  have hpass : c.doorsPass { t with taken := t.taken ++ [item] } stopped (pollDoors item) =
      { c with
        doors := some { taken := t.taken ++ [item], stage := .loopHead stopped }
        eventQueue := c.eventQueue ++ [event] } := by
    rw [hevent]
    rfl
  rw [hpass]
  refine ⟨hrequest, h.detector, ?_, ?_, ?_, ?_⟩
  · refine (c.events_put _ _).trans ?_
    have hnone : [event].filter (·.stream = "loadcells") = [] := by
      simp [hstream]
    rw [hnone, List.append_nil]
    exact h.loadcellEvents
  · refine (c.events_put _ _).trans ?_
    have hall : [event].filter (·.stream = "doors") = [event] := by
      simp [hstream]
    have hone : IoBoard.doorEvents item = [event] := by
      rw [IoBoard.doorEvents, hevent]
      rfl
    rw [hall, hdoors]
    simp only [Option.elim, List.flatMap_append, List.flatMap_cons, List.flatMap_nil,
      List.append_nil, hone]
  · intro e he
    rw [← List.append_assoc] at he
    obtain he | he := List.mem_append.mp he
    · exact h.streams e he
    · obtain rfl := List.mem_singleton.mp he
      exact .inr hstream
  · exact fun hended => absurd (hlive.symm.trans hended) (Bool.noConfusion)

/-- The generator suspends again. -/
theorem Inv.generatorStage (h : c.Inv u) {stage : GeneratorStage} (hstage : stage ≠ .ended) :
    ({ c with generator := stage } : Client).Inv u :=
  ⟨h.request, h.detector, h.loadcellEvents, h.doorEvents, h.streams,
    fun hended => absurd (of_decide_eq_false hended) (not_not_intro hstage)⟩

/-- An event that is sent leaves the events as they are. -/
theorem Inv.yieldEvent (h : c.Inv u) {event : UnifiedEvent} {rest : List UnifiedEvent}
    (hqueue : c.eventQueue = event :: rest) : (c.yieldEvent event rest).Inv u := by
  have hsent : (c.yieldEvent event rest).sent ++ (c.yieldEvent event rest).eventQueue =
      c.sent ++ c.eventQueue := by
    rw [hqueue]
    exact (List.append_cons ..).symm
  have hevents (stream : String) :
      (c.yieldEvent event rest).events stream = c.events stream := by
    rw [events, events, hsent]
  refine ⟨h.request, h.detector, ?_, ?_, ?_, ?_⟩
  · rw [hevents]
    exact h.loadcellEvents
  · rw [hevents]
    exact h.doorEvents
  · rw [hsent]
    exact h.streams
  · exact fun hended => absurd (of_decide_eq_false hended) (not_not_intro nofun)

theorem Inv.finish (h : c.Inv u) : c.finish.Inv u where
  request := by simpa [Client.finish, Function.comp_def] using h.request
  detector := by
    intro t ht
    obtain ⟨t', ht', rfl⟩ := Option.map_eq_some_iff.mp ht
    exact h.detector t' ht'
  loadcellEvents := by
    refine h.loadcellEvents.trans ?_
    simp only [Client.finish]
    cases c.loadcells <;> rfl
  doorEvents := by
    refine h.doorEvents.trans ?_
    simp only [Client.finish]
    cases c.doors <;> rfl
  streams := h.streams
  ended := by
    refine fun _ => ⟨fun t ht => ?_, fun t ht => ?_⟩
    · obtain ⟨t', -, rfl⟩ := Option.map_eq_some_iff.mp ht
      rfl
    · obtain ⟨t', -, rfl⟩ := Option.map_eq_some_iff.mp ht
      rfl

end Client

/-! ### All clients -/

namespace Streams

variable {u : CharDatabase} {polling : PollingModel} {s s' : Streams} {n : ℕ} {c c' : Client}

/-- The generator of the stream `n` is there and not over. -/
def live (s : Streams) (n : ℕ) : Bool :=
  (s.clients n).elim false Client.live

/-- The invariant of the streams: that of the polling services and of every client, and what the
services hold for every stream, connected or not. -/
structure Inv (u : CharDatabase) (s : Streams) : Prop where
  loadcells : s.loadcells.Inv
  ioStatus : s.ioStatus.Inv
  client : ∀ n c, s.clients n = some c → c.Inv u
  holdsLoadcells : ∀ n,
    Holding s.loadcells n ((s.clients n).bind Client.loadcellsTaken) (s.live n)
  holdsIoStatus : ∀ n, Holding s.ioStatus n ((s.clients n).bind Client.doorsTaken) (s.live n)

theorem inv_initial (u : CharDatabase) (polling : PollingModel) : (initial polling).Inv u :=
  ⟨inv_start _, inv_start _, fun _ _ hc => absurd hc (Option.some_ne_none _).symm,
    holding_start _, holding_start _⟩

theorem Inv.holds (h : s.Inv u) (hc : s.clients n = some c) :
    Holding s.loadcells n c.loadcellsTaken c.live ∧ Holding s.ioStatus n c.doorsTaken c.live := by
  have hloadcells := h.holdsLoadcells n
  have hioStatus := h.holdsIoStatus n
  rw [live, hc] at hloadcells hioStatus
  exact ⟨hloadcells, hioStatus⟩

/-- What a step about the stream `n` has to keep: nothing happens to the other streams. -/
theorem Inv.update (h : s.Inv u) {loadcells : PollingService SubscriberName (List Str)}
    {ioStatus : PollingService SubscriberName IOStatusData} (hc : c.Inv u)
    (hloadcells : loadcells.Inv) (hioStatus : ioStatus.Inv)
    (hself : Holding loadcells n c.loadcellsTaken c.live ∧ Holding ioStatus n c.doorsTaken c.live)
    (hothers : ∀ m ≠ n, (∀ taken live, Holding s.loadcells m taken live →
        Holding loadcells m taken live) ∧
      ∀ taken live, Holding s.ioStatus m taken live → Holding ioStatus m taken live) :
    Inv u { s with
      loadcells := loadcells
      ioStatus := ioStatus
      clients := Function.update s.clients n (some c) } := by
  refine ⟨hloadcells, hioStatus, fun m c' hc' => ?_, fun m => ?_, fun m => ?_⟩
  · dsimp only at hc'
    by_cases hm : m = n
    · subst hm
      rw [Function.update_self] at hc'
      obtain rfl := Option.some.inj hc'
      exact hc
    · rw [Function.update_of_ne hm] at hc'
      exact h.client m c' hc'
  · by_cases hm : m = n
    · subst hm
      simp only [live, Function.update_self, Option.bind_some, Option.elim_some]
      exact hself.1
    · simp only [live, Function.update_of_ne hm]
      exact (hothers m hm).1 _ _ (h.holdsLoadcells m)
  · by_cases hm : m = n
    · subst hm
      simp only [live, Function.update_self, Option.bind_some, Option.elim_some]
      exact hself.2
    · simp only [live, Function.update_of_ne hm]
      exact (hothers m hm).2 _ _ (h.holdsIoStatus m)

/-- A step that takes nothing from a polling service. -/
theorem Inv.setClient (h : s.Inv u) (hc : s.clients n = some c) (hc' : c'.Inv u)
    (hloadcells : c'.loadcellsTaken = c.loadcellsTaken) (hdoors : c'.doorsTaken = c.doorsTaken)
    (hlive : c'.live = c.live) : (s.setClient n c').Inv u := by
  refine h.update hc' h.loadcells h.ioStatus ?_ fun _ _ => ⟨fun _ _ => id, fun _ _ => id⟩
  rw [hloadcells, hdoors, hlive]
  exact h.holds hc

/-- The end of a stream. -/
theorem Inv.finish (h : s.Inv u) (hc : s.clients n = some c) : (s.finish n c).Inv u := by
  obtain ⟨hloadcells, hioStatus⟩ := h.holds hc
  refine h.update (h.client n c hc).finish ?_ ?_ ⟨?_, ?_⟩ fun m hm => ⟨fun _ _ hother => ?_,
    fun _ _ hother => ?_⟩
  · split_ifs
    · exact h.loadcells.close _
    · exact h.loadcells
  · split_ifs
    · exact h.ioStatus.close _
    · exact h.ioStatus
  · have htaken : c.finish.loadcellsTaken = c.loadcellsTaken := by
      simp [Client.finish, Client.loadcellsTaken, Function.comp_def]
    rw [htaken]
    rw [Client.loadcellsTaken] at hloadcells ⊢
    cases hl : c.loadcells with
    | none =>
        rw [hl] at hloadcells
        exact hloadcells.of_none _
    | some t =>
        rw [hl] at hloadcells
        exact hloadcells.close
  · have htaken : c.finish.doorsTaken = c.doorsTaken := by
      simp [Client.finish, Client.doorsTaken, Function.comp_def]
    rw [htaken]
    rw [Client.doorsTaken] at hioStatus ⊢
    cases hd : c.doors with
    | none =>
        rw [hd] at hioStatus
        exact hioStatus.of_none _
    | some t =>
        rw [hd] at hioStatus
        exact hioStatus.close
  · split_ifs
    · exact hother.close_of_ne hm
    · exact hother
  · split_ifs
    · exact hother.close_of_ne hm
    · exact hother

/-- The condition of the loop of a generator that is not over. -/
theorem Inv.loopHead (h : s.Inv u) (hc : s.clients n = some c) (hlive : c.live = true) :
    (s.loopHead n c).Inv u := by
  unfold Streams.loopHead
  split_ifs
  · exact h.finish hc
  · exact h.setClient hc ((h.client n c hc).generatorStage nofun) rfl rfl (Eq.symm hlive)

/-- A new client. -/
theorem Inv.connect (h : s.Inv u) (hn : s.clients n = none) {request : SseRequest}
    {enabledStreams : List Str} {detector : Option (LoadcellChangeDetector PyFloat)}
    (hrequest : handleUnifiedSse u request = .stream enabledStreams detector) :
    (s.connect n request enabledStreams detector).Inv u := by
  have hloadcells := h.holdsLoadcells n
  have hioStatus := h.holdsIoStatus n
  rw [hn] at hloadcells hioStatus
  let c : Client := {
    request := request
    loadcells := detector.map fun d => { initial := d, detector := d }
    doors := if "doors".toList ∈ enabledStreams then some {} else none }
  have hc : c.Inv u := by
    refine ⟨⟨enabledStreams, ?_, ?_⟩, ?_, ?_, ?_, nofun, nofun⟩
    · rw [hrequest]
      simp [c, Function.comp_def]
    · dsimp only [c]
      split_ifs with hdoors <;> simpa using hdoors
    · intro t ht
      obtain ⟨d, -, rfl⟩ := Option.map_eq_some_iff.mp ht
      rfl
    · cases detector <;> rfl
    · dsimp only [c]
      split_ifs <;> rfl
  have hinv : Inv u { s with
      loadcells := if detector.isSome then s.loadcells.subscribe (.stream n) else s.loadcells
      ioStatus := if "doors".toList ∈ enabledStreams then s.ioStatus.subscribe (.stream n)
        else s.ioStatus
      clients := Function.update s.clients n (some c) } := by
    refine h.update hc ?_ ?_ ⟨?_, ?_⟩ fun m hm => ⟨fun _ _ hother => ?_, fun _ _ hother => ?_⟩
    · have hshut := hloadcells.shut
      split_ifs
      · exact h.loadcells.subscribe (by simpa using hshut)
      · exact h.loadcells
    · have hshut := hioStatus.shut
      split_ifs
      · exact h.ioStatus.subscribe (by simpa using hshut)
      · exact h.ioStatus
    · cases detector with
      | none => exact hloadcells.of_none _
      | some d => exact hloadcells.subscribe
    · by_cases hdoors : "doors".toList ∈ enabledStreams
      · simp only [c, hdoors, if_true]
        exact hioStatus.subscribe
      · simp only [c, hdoors, if_false]
        exact hioStatus.of_none _
    · split_ifs
      · exact hother.subscribe_of_ne hm
      · exact hother
    · split_ifs
      · exact hother.subscribe_of_ne hm
      · exact hother
  have hloop := hinv.loopHead (n := n) (c := c) (Function.update_self ..) rfl
  unfold Streams.loopHead Streams.finish Streams.setClient at hloop
  simp only [Function.update_idem] at hloop
  exact hloop

/-- A task that is not over belongs to a generator that is not over. -/
theorem Inv.live_of_stage (h : s.Inv u) (hc : s.clients n = some c)
    (hstage : (∃ t, c.loadcells = some t ∧ t.stage ≠ .done) ∨
      ∃ t, c.doors = some t ∧ t.stage ≠ .done) : c.live = true := by
  by_contra hlive
  obtain ⟨hloadcells, hdoors⟩ := (h.client n c hc).ended (Bool.eq_false_of_not_eq_true hlive)
  obtain ⟨t, ht, hdone⟩ | ⟨t, ht, hdone⟩ := hstage
  · exact hdone (hloadcells t ht)
  · exact hdone (hdoors t ht)

/-- A resumption of `poll_loadcells`. Its queue is not shut down before the task is over. -/
theorem Inv.resumeLoadcells (h : s.Inv u) (hc : s.clients n = some c) {t : LoadcellsTask}
    (ht : c.loadcells = some t) {disconnected : Bool} {now : ℚ}
    (hs : s.resumeLoadcells n c t disconnected now = some s') : s'.Inv u := by
  obtain ⟨move, hmove, rfl⟩ := Option.map_eq_some_iff.mp hs
  obtain ⟨hstage, htakes, hraises⟩ := TaskStage.of_resume hmove
  have hlive := h.live_of_stage hc (.inl ⟨t, ht, hstage⟩)
  have hclient := h.client n c hc
  obtain ⟨hloadcells, hioStatus⟩ := h.holds hc
  have htaken : c.loadcellsTaken = some (t.taken.map Prod.fst) := by
    rw [Client.loadcellsTaken, ht, Option.map_some]
  cases move with
  | suspends stage =>
      exact h.setClient hc (hclient.loadcellsStage hlive ht stage) htaken.symm rfl rfl
  | takes item rest =>
      have hitems := htakes item rest rfl
      rw [htaken] at hloadcells
      obtain ⟨events, hevents⟩ := t.detector.exists_poll item now
      refine h.update (hclient.loadcellsPass hlive ht s.stopEvent item now)
        (h.loadcells.get hitems n) h.ioStatus ⟨?_, ?_⟩
        fun m hm => ⟨fun _ _ hother => hother.take_of_ne hm n item rest, fun _ _ => id⟩
      · rw [← Prod.mk.eta (p := t.detector.poll item now), hevents]
        have htake := hloadcells.take hitems n
        rw [show [item] = [(item, now)].map Prod.fst from rfl, ← List.map_append] at htake
        exact htake
      · rw [← Prod.mk.eta (p := t.detector.poll item now), hevents]
        exact hioStatus
  | raises =>
      have hshut := hloadcells.shut.mp (hraises rfl)
      exact absurd (hlive.symm.trans hshut.2) Bool.noConfusion

/-- A resumption of `poll_doors`. -/
theorem Inv.resumeDoors (h : s.Inv u) (hc : s.clients n = some c) {t : DoorsTask}
    (ht : c.doors = some t) {disconnected : Bool}
    (hs : s.resumeDoors n c t disconnected = some s') : s'.Inv u := by
  obtain ⟨move, hmove, rfl⟩ := Option.map_eq_some_iff.mp hs
  obtain ⟨hstage, htakes, hraises⟩ := TaskStage.of_resume hmove
  have hlive := h.live_of_stage hc (.inr ⟨t, ht, hstage⟩)
  have hclient := h.client n c hc
  obtain ⟨hloadcells, hioStatus⟩ := h.holds hc
  have htaken : c.doorsTaken = some t.taken := by
    rw [Client.doorsTaken, ht, Option.map_some]
  cases move with
  | suspends stage =>
      exact h.setClient hc (hclient.doorsStage hlive ht stage) rfl htaken.symm rfl
  | takes item rest =>
      have hitems := htakes item rest rfl
      rw [htaken] at hioStatus
      obtain ⟨event, hevent, -⟩ := exists_pollDoors item
      refine h.update (hclient.doorsPass hlive ht s.stopEvent item)
        h.loadcells (h.ioStatus.get hitems n) ⟨?_, ?_⟩
        fun m hm => ⟨fun _ _ => id, fun _ _ hother => hother.take_of_ne hm n item rest⟩
      · rw [hevent]
        exact hloadcells
      · rw [hevent]
        exact hioStatus.take hitems n
  | raises =>
      have hshut := hioStatus.shut.mp (hraises rfl)
      exact absurd (hlive.symm.trans hshut.2) Bool.noConfusion

/-- A resumption of a generator. -/
theorem Inv.resumeGenerator (h : s.Inv u) (hc : s.clients n = some c) {disconnected : Bool}
    (hs : s.resumeGenerator n c disconnected = some s') : s'.Inv u := by
  have hclient := h.client n c hc
  have yields {event : UnifiedEvent} {rest : List UnifiedEvent}
      (hqueue : c.eventQueue = event :: rest) (hlive : c.live = true) :
      (s.setClient n (c.yieldEvent event rest)).Inv u :=
    h.setClient hc (hclient.yieldEvent hqueue) rfl rfl (Eq.symm hlive)
  cases hstage : c.generator with
  | probing =>
      have hlive : c.live = true := by simp [Client.live, hstage]
      simp only [Streams.resumeGenerator, hstage, Option.some.injEq] at hs
      split_ifs at hs
      · exact hs ▸ h.finish hc
      · split at hs
        · subst hs
          exact h.setClient hc (hclient.generatorStage nofun) rfl rfl (Eq.symm hlive)
        · next hqueue => exact hs ▸ yields hqueue hlive
  | waiting =>
      have hlive : c.live = true := by simp [Client.live, hstage]
      cases hqueue : c.eventQueue with
      | nil => simp only [Streams.resumeGenerator, hstage, hqueue, reduceCtorEq] at hs
      | cons event rest =>
          simp only [Streams.resumeGenerator, hstage, hqueue, Option.some.injEq] at hs
          exact hs ▸ yields hqueue hlive
  | yielding =>
      simp only [Streams.resumeGenerator, hstage, Option.some.injEq] at hs
      exact hs ▸ h.loopHead hc (by simp [Client.live, hstage])
  | ended => simp only [Streams.resumeGenerator, hstage, reduceCtorEq] at hs

/-- A step of the polling service of the loadcells that names no stream. -/
theorem Inv.loadcellsStep (h : s.Inv u) {act : PollingAction SubscriberName (List Str)}
    {p : PollingService SubscriberName (List Str)} (hp : s.loadcells.step act = some p)
    (hact : ∀ n, ¬ PollingService.Names (.stream n) act) : Inv u { s with loadcells := p } :=
  ⟨h.loadcells.step hp, h.ioStatus, h.client,
    fun n => (h.holdsLoadcells n).step h.loadcells hp (hact n), h.holdsIoStatus⟩

theorem Inv.ioStatusStep (h : s.Inv u) {act : PollingAction SubscriberName IOStatusData}
    {p : PollingService SubscriberName IOStatusData} (hp : s.ioStatus.step act = some p)
    (hact : ∀ n, ¬ PollingService.Names (.stream n) act) : Inv u { s with ioStatus := p } :=
  ⟨h.loadcells, h.ioStatus.step hp, h.client, h.holdsLoadcells,
    fun n => (h.holdsIoStatus n).step h.ioStatus hp (hact n)⟩

/-- **Every step keeps the invariant.** -/
theorem Inv.step (h : s.Inv u) {act : StreamsAction} (hs : s.step u polling act = some s') :
    s'.Inv u := by
  cases act with
  | loadcells act =>
      simp only [Streams.step, Option.ite_none_right_eq_some, Option.map_eq_some_iff] at hs
      obtain ⟨hact, p, hp, rfl⟩ := hs
      exact h.loadcellsStep hp (not_names_of_ofService hact)
  | ioStatus act =>
      simp only [Streams.step, Option.ite_none_right_eq_some, Option.map_eq_some_iff] at hs
      obtain ⟨hact, p, hp, rfl⟩ := hs
      exact h.ioStatusStep hp (not_names_of_ofService hact)
  | tick d =>
      obtain ⟨p, hp, hs⟩ := Option.bind_eq_some_iff.mp hs
      obtain ⟨q, hq, hs⟩ := Option.bind_eq_some_iff.mp hs
      cases hs
      exact (h.loadcellsStep hp fun _ => id).ioStatusStep hq fun _ => id
  | stop =>
      cases hs
      exact ⟨h.loadcells, h.ioStatus, h.client, h.holdsLoadcells, h.holdsIoStatus⟩
  | connect n request =>
      simp only [Streams.step] at hs
      split at hs
      · next hn hrequest =>
          cases hs
          exact h.connect hn hrequest
      · cases hs
  | pollLoadcells n disconnected now =>
      obtain ⟨c, hc, hs⟩ := Option.bind_eq_some_iff.mp hs
      obtain ⟨t, ht, hs⟩ := Option.bind_eq_some_iff.mp hs
      exact h.resumeLoadcells hc ht hs
  | pollDoors n disconnected =>
      obtain ⟨c, hc, hs⟩ := Option.bind_eq_some_iff.mp hs
      obtain ⟨t, ht, hs⟩ := Option.bind_eq_some_iff.mp hs
      exact h.resumeDoors hc ht hs
  | generator n disconnected =>
      obtain ⟨c, hc, hs⟩ := Option.bind_eq_some_iff.mp hs
      exact h.resumeGenerator hc hs
  | timeout n =>
      obtain ⟨c, hc, hs⟩ := Option.bind_eq_some_iff.mp hs
      rw [Option.ite_none_right_eq_some, Option.some.injEq] at hs
      obtain ⟨hstage, rfl⟩ := hs
      exact h.loopHead hc (by simp [Client.live, hstage])
  | cancel n =>
      obtain ⟨c, hc, hs⟩ := Option.bind_eq_some_iff.mp hs
      rw [Option.ite_none_left_eq_some, Option.some.injEq] at hs
      obtain ⟨-, rfl⟩ := hs
      exact h.finish hc

theorem streamsInv_of_reachable (h : s.Reachable u polling) : s.Inv u :=
  Reaches.invariant h (inv_initial u polling) fun _ _ _ ih _ hs => ih.step hs

/-! ### Delivery -/

/-- Where a stream has no task, no event belongs to it. -/
theorem not_stream_of_events_eq_nil {stream : String} (h : c.events stream = [])
    {e : UnifiedEvent} (he : e ∈ c.sent ++ c.eventQueue) : e.stream ≠ stream := by
  intro hstream
  have hmem : e ∈ c.events stream := List.mem_filter.mpr ⟨he, decide_eq_true hstream⟩
  rw [h] at hmem
  cases hmem

/-- What a client gets: it has the tasks of the streams of its query, and every event, sent or
still to be sent, belongs to one of these. What was broadcast to the client is what the task of
the stream has taken and then what is still in its queue, and the events of the stream are those
of the items that were taken, in order, each once. -/
structure Delivers (u : CharDatabase) (s : Streams) (n : ℕ) (c : Client) : Prop where
  request : ∃ enabledStreams,
    handleUnifiedSse u c.request = .stream enabledStreams (c.loadcells.map (·.initial)) ∧
      (c.doors.isSome = true ↔ "doors".toList ∈ enabledStreams)
  loadcells : ∀ t, c.loadcells = some t →
    s.loadcells.polledFor (.stream n) =
      t.taken.map Prod.fst ++ (s.loadcells.queues (.stream n)).items ∧
    c.events "loadcells" = (pollEvents t.initial t.taken).map .sse
  doors : ∀ t, c.doors = some t →
    s.ioStatus.polledFor (.stream n) = t.taken ++ (s.ioStatus.queues (.stream n)).items ∧
    c.events "doors" = t.taken.flatMap doorEvents
  streams : ∀ e ∈ c.sent ++ c.eventQueue, (e.stream = "loadcells" ∧ c.loadcells.isSome = true) ∨
    (e.stream = "doors" ∧ c.doors.isSome = true)

/-- **Delivery.** In every run, whatever the other stream and the other clients do, a client
gets the events of what was broadcast to it, and no others. -/
theorem stream_delivery (h : s.Reachable u polling) (hc : s.clients n = some c) :
    Delivers u s n c := by
  have hinv := streamsInv_of_reachable h
  obtain ⟨hloadcells, hioStatus⟩ := hinv.holds hc
  have hclient := hinv.client n c hc
  refine ⟨hclient.request, fun t ht => ⟨?_, ?_⟩, fun t ht => ⟨?_, ?_⟩, fun e he => ?_⟩
  · have haccount := hloadcells.account
    rwa [Client.loadcellsTaken, ht] at haccount
  · have hevents := hclient.loadcellEvents
    rwa [ht] at hevents
  · have haccount := hioStatus.account
    rwa [Client.doorsTaken, ht] at haccount
  · have hevents := hclient.doorEvents
    rwa [ht] at hevents
  · refine (hclient.streams e he).imp (fun hstream => ⟨hstream, ?_⟩) fun hstream => ⟨hstream, ?_⟩
    · by_contra hnone
      have hevents := hclient.loadcellEvents
      rw [Option.not_isSome_iff_eq_none.mp hnone] at hevents
      exact not_stream_of_events_eq_nil hevents he hstream
    · by_contra hnone
      have hevents := hclient.doorEvents
      rw [Option.not_isSome_iff_eq_none.mp hnone] at hevents
      exact not_stream_of_events_eq_nil hevents he hstream

/-- A request for both streams. -/
def bothRequest : SseRequest :=
  { loadcellsRequest fiveThreshold with streams := "loadcells, doors".toList }

/-- Two clients connect. One of them gets a frame and a status, and is sent the first event;
the other one, which has asked for the loadcells only, disconnects. -/
def twoClientsRun : List StreamsAction :=
  [.loadcells .start, .ioStatus .start, .connect 0 bothRequest,
    .connect 1 (loadcellsRequest fiveThreshold), .pollLoadcells 0 false 0,
    .pollDoors 0 false, .pollLoadcells 0 false 0, .loadcells .resume,
    .loadcells (.fetched (.ok (List.replicate 10 "+00100".toList)) 1 [.stream 0, .stream 1] none),
    .pollLoadcells 0 false 1, .ioStatus .resume,
    .ioStatus (.fetched (.ok ⟨.closed, .locked⟩) 1 [.stream 0] (some 2)), .pollDoors 0 false,
    .generator 1 true, .generator 0 false, .generator 0 false]

theorem twoClientsRun_isSome :
    (runFrom (step .latin1 {}) (initial {}) twoClientsRun).isSome := by
  decide +kernel

/-- The state at the end of `twoClientsRun`. -/
def twoClients : Streams :=
  (runFrom (step .latin1 {}) (initial {}) twoClientsRun).get twoClientsRun_isSome

theorem twoClients_isSome : (twoClients.clients 0).isSome := by
  decide +kernel

/-- The first client of `twoClientsRun` has been sent one event, and one is still to be sent. -/
theorem stream_delivery_twoClients : ∃ c, twoClients.clients 0 = some c ∧
    c.sent.length = 1 ∧ c.eventQueue.length = 1 ∧ Delivers .latin1 twoClients 0 c :=
  ⟨(twoClients.clients 0).get twoClients_isSome, (Option.some_get _).symm, by decide +kernel,
    by decide +kernel,
    stream_delivery (reaches_get twoClientsRun_isSome) (Option.some_get _).symm⟩

/-- **A stream is subscribed exactly while its generator is not over**: no run leaks a
subscription, whatever ended the generator. -/
theorem subscribed_iff (h : s.Reachable u polling) (n : ℕ) :
    (.stream n ∈ s.loadcells.subscribers ↔
      ∃ c, s.clients n = some c ∧ c.loadcells.isSome = true ∧ c.generator ≠ .ended) ∧
    (.stream n ∈ s.ioStatus.subscribers ↔
      ∃ c, s.clients n = some c ∧ c.doors.isSome = true ∧ c.generator ≠ .ended) := by
  have hinv := streamsInv_of_reachable h
  cases hc : s.clients n with
  | none =>
      have hloadcells := (hinv.holdsLoadcells n).subscribed
      have hioStatus := (hinv.holdsIoStatus n).subscribed
      rw [hc] at hloadcells hioStatus
      exact ⟨hloadcells.trans (by simp), hioStatus.trans (by simp)⟩
  | some c =>
      obtain ⟨hloadcells, hioStatus⟩ := hinv.holds hc
      rw [hloadcells.subscribed, hioStatus.subscribed]
      simp [Client.loadcellsTaken, Client.doorsTaken, Client.live]

end Streams

end IoBoard
