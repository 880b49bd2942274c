import IoBoard.SerialSteps
import IoBoard.Lib.Blocks

/-!
# Transaction Safety

What the serial mutex, the drain and the two checks of `fetch` give together, in every run
of the serial layer: any number of callers, any interleaving, cancellations at every await,
and a device that sends what it likes.

## Three invariants

Each is proved from the one before.

* `Owned`: only the holder of the mutex is inside the critical section. The mutex is taken
  in one place and given back on every way out, so this is a matter of the stages alone.
* `LogInv`: the transmissions are blocks of at most `max_retries` copies of one call's
  message. A call inside the block has the last block of the log, if it has one, for while
  it is inside nobody else transmits; an attempt transmits once, after its drain.
* `FrameInv`: the bytes of the frame a call is reading arrived after its last transmission.
  The drain has emptied the buffer right before the transmission, without an await between
  the two, so what is read from then on is younger. This holds also for a frame that no
  check would find fault with: it is the drain that protects against an old answer, and the
  codes only against the answer to another command.

That a frame belongs to *this* transmission, and not to an earlier one of the same request
whose answer is late, is more than these checks can give; `IoBoard.Deadbolt` and
`IoBoard.LaggingBoard` say when it is so.

## Main results

* `Owned.exclusive`: **mutual exclusion** of the calls inside the critical section.
* `logInv_of_reachable`, `frameInv_of_reachable`: the invariants of the log and of frames.
* `fetch_transactionSafe`: **the wire log is made of uninterrupted blocks, and every frame
  a call returns is well formed, its own, and newer than its last transmission**.
-/

open Blocks Framing Runs

namespace IoBoard

variable {cfg : SerialModel} {s s' : State} {id : CallId} {c : Call} {stage stage' : Stage}
  {act : Action}

/-! ### Ownership of the mutex -/

/-- At the start there are no calls. -/
theorem forall_calls_start {P : CallId → Call → Prop} (id : CallId) (c : Call)
    (h : ({} : State).calls id = some c) : P id c := by
  cases h

/-- What a table has at a key after one key has changed. -/
theorem update_eq_some {κ α : Type*} [DecidableEq κ] {f : κ → Option α} {k j : κ} {x y : α} :
    Function.update f k (some x) j = some y ↔ j = k ∧ x = y ∨ j ≠ k ∧ f j = some y := by
  by_cases hjk : j = k
  · subst hjk
    simp
  · simp [hjk]

/-- A property of all calls survives the update of one call that has it. What the property says of
the shared state has to be known of the others already. -/
theorem forall_calls_update {P : CallId → Call → Prop} {calls : CallId → Option Call}
    (hself : P id c) (hother : ∀ j d, j ≠ id → calls j = some d → P j d) :
    ∀ j d, Function.update calls id (some c) j = some d → P j d := by
  intro j d hj
  rcases update_eq_some.mp hj with ⟨rfl, rfl⟩ | ⟨hji, hj⟩
  · exact hself
  · exact hother j d hji hj

/-- Only the holder of the mutex is inside the `async with` block. The converse fails: between two
actions of a finishing call nobody need hold it. -/
def Owned (s : State) : Prop :=
  ∀ id c, s.calls id = some c → c.stage.isCritical → s.mutex = some id

/-- Every step keeps the ownership of the mutex. -/
theorem Owned.step (h : Owned s) (hs : Stepped cfg s act s') : Owned s' := by
  cases hs with
  | called => exact forall_calls_update (fun hcrit => hcrit.elim) fun j d _ hj => h j d hj
  | @resumed id _ c stage' _ hc hr =>
      rw [Owned, hr.calls_eq]
      obtain ⟨-, -, hnone, hsome⟩ | ⟨hin, -, hmutex⟩ | ⟨hin, ⟨r, rfl⟩, -⟩ := hr.mutex_cases
      · refine forall_calls_update (fun _ => hsome) fun j d _ hj hcrit => ?_
        have := h j d hj hcrit
        rw [hnone] at this
        cases this
      · rw [hmutex]
        exact forall_calls_update (fun _ => h id c hc hin) fun j d _ hj => h j d hj
      · refine forall_calls_update (fun hcrit => hcrit.elim) fun j d hji hj hcrit => ?_
        have := (h j d hj hcrit).symm.trans (h id c hc hin)
        exact absurd (Option.some.inj this) hji
  | cancelledWaiting =>
      exact forall_calls_update (fun hcrit => hcrit.elim) fun j d _ hj => h j d hj
  | @cancelled id c hc hin =>
      refine forall_calls_update (fun hcrit => hcrit.elim) fun j d hji hj hcrit => ?_
      have := (h j d hj hcrit).symm.trans (h id c hc hin)
      exact absurd (Option.some.inj this) hji
  | ticked | received | closing | lost => exact h

theorem owned_of_reachable (h : Reachable cfg s) : Owned s :=
  h.invariant (fun _ _ hc => by cases hc) fun _ _ _ ih _ hs => ih.step (stepped_of_step hs)

/-- **Mutual exclusion.** No two calls are inside the `async with` block at once. -/
theorem Owned.exclusive (h : Owned s) {j : CallId} {d : Call} (hc : s.calls id = some c)
    (hin : c.stage.isCritical) (hd : s.calls j = some d) (hji : j ≠ id) :
    ¬ d.stage.isCritical := by
  intro hjin
  have := (h j d hd hjin).symm.trans (h id c hc hin)
  exact hji (Option.some.inj this)

/-- While one call is resumed, no other is inside the block, and so no invariant of the block has
to be kept for another call. -/
theorem Owned.others (h : Owned s) {j : CallId} {d : Call} (hc : s.calls id = some c)
    (hr : Resumed cfg s id c c.stage stage' s') (hd : s.calls j = some d) (hji : j ≠ id) :
    ¬ d.stage.isCritical := by
  obtain ⟨-, -, hnone, -⟩ | ⟨hin, -⟩ | ⟨hin, -⟩ := hr.mutex_cases
  · intro hjin
    have := h j d hd hjin
    rw [hnone] at this
    cases this
  · exact h.exclusive hc hin hd hji
  · exact h.exclusive hc hin hd hji

/-! ### The blocks of the wire log -/

/-- The calls that made the transmissions, oldest first. -/
def State.owners (s : State) : List CallId :=
  s.transmissions.map Tx.call

/-- Whether the message of an attempt is on the wire. -/
def Phase.hasSent : Phase → Bool
  | .flushing | .readingHeader _ | .readingBody _ _ | .readingChecksum _ _ | .backoff _ => true
  | _ => false

/-- What a call has put on the wire so far: nothing before its first attempt, and during an
attempt at most one message for each attempt, as the last block. A call that has left is not
counted any more; its block is closed. -/
def Counted (m : ℕ) (owners : List CallId) (id : CallId) : Stage → Prop
  | .acquiring | .connecting | .awaitingClose _ | .opening => id ∉ owners
  | .attempting a p =>
      a.number ≤ m ∧ (∀ wake, p = .backoff wake → a.number < m) ∧
      owners.count id + (if p.hasSent then 0 else 1) ≤ a.number ∧
      (id ∈ owners → owners.getLast? = some id)
  | .resetting _ _ | .finished _ => True

/-- The first attempt of a call that has sent nothing. -/
theorem counted_firstAttempt {owners : List CallId} (n : ConnId) (h : id ∉ owners) :
    Counted cfg.maxRetries owners id (.attempting (firstAttempt cfg n) .interCommandGap) := by
  refine ⟨cfg.validateMaxRetries, nofun, ?_, fun hmem => absurd hmem h⟩
  rw [List.count_eq_zero_of_not_mem h]
  exact le_rfl

/-- The failure of an attempt, before or after its transmission, at the backoff. -/
theorem counted_backoff {m : ℕ} {owners : List CallId} {a : Attempt} {p : Phase} (wake : ℚ)
    (h : Counted m owners id (.attempting a p)) (hn : a.number < m) :
    Counted m owners id (.attempting a (.backoff wake)) := by
  obtain ⟨hle, -, hcount, hlast⟩ := h
  exact ⟨hle, fun _ _ => hn, Nat.le_trans (Nat.le_add_right _ _) hcount, hlast⟩

/-- A drained attempt extends the block of its call, or starts it. The attempt has not sent yet,
so there is room in the block. -/
theorem Counted.transmit {m : ℕ} {owners : List CallId} {a : Attempt} {d : ℚ}
    (h : Counted m owners id (.attempting a (.draining d))) :
    Counted m (owners ++ [id]) id (.attempting a .flushing) := by
  obtain ⟨hle, -, hcount, -⟩ := h
  refine ⟨hle, nofun, ?_, fun _ => List.getLast?_concat⟩
  rw [List.count_append, List.count_singleton_self]
  exact hcount

/-- The log stays made of blocks when a drained attempt transmits. -/
theorem Counted.isBlockLog {m : ℕ} {owners : List CallId} {a : Attempt} {d : ℚ}
    (h : Counted m owners id (.attempting a (.draining d))) (hlog : IsBlockLog m owners) :
    IsBlockLog m (owners ++ [id]) := by
  obtain ⟨hle, -, hcount, hlast⟩ := h
  have hlt : owners.count id < m := Nat.lt_of_lt_of_le (Nat.lt_of_succ_le hcount) hle
  by_cases hmem : id ∈ owners
  · exact hlog.extend (hlast hmem) hlt
  · exact hlog.start hmem (by omega)

/-- The resumed call keeps its own count. -/
theorem Counted.resumed (h : Counted cfg.maxRetries s.owners id stage)
    (hr : Resumed cfg s id c stage stage' s') : Counted cfg.maxRetries s'.owners id stage' := by
  obtain heq | ⟨a, d, rfl, rfl, rfl⟩ := hr.transmissions_cases
  · have howners : s'.owners = s.owners := congrArg (List.map Tx.call) heq
    rw [howners]
    cases hr with
    | acquired => exact h
    | moved hm =>
        cases hm with
        | awaitClose => exact h
        | nextAttempt =>
            obtain ⟨-, hback, hcount, hlast⟩ := h
            exact ⟨hback _ rfl, nofun, Nat.succ_le_succ hcount, hlast⟩
        | flushed | gapWait | gapPass | gapWoken | wireWait | wirePass | wireWoken =>
            obtain ⟨hle, -, hcount, hlast⟩ := h
            exact ⟨hle, nofun, hcount, hlast⟩
    | startOpen hst =>
        obtain ⟨rfl, -⟩ | ⟨n, rfl, -⟩ := hst <;> exact h
    | reused | opened => exact counted_firstAttempt _ h
    | openFailed | lowLatencyFailed | closeRaised | resetDone | cancelledInside | accepted |
      failed | rejected => trivial
    | read he hread =>
        obtain ⟨hle, -, hcount, hlast⟩ := h
        cases hread <;> exact ⟨hle, nofun, hcount, hlast⟩
    | transmitted => simp at heq
    | retried _ _ hn | discarded _ _ _ hn => exact counted_backoff _ h hn
  · rw [State.owners, State.transmit_transmissions, List.map_append]
    exact h.transmit

/-- A call that is not inside the block is not affected by what others transmit. -/
theorem Counted.append {m : ℕ} {owners : List CallId} {i : CallId} (hi : i ≠ id)
    (hout : ¬ stage.isCritical) (h : Counted m owners id stage) :
    Counted m (owners ++ [i]) id stage := by
  cases stage with
  | acquiring =>
      intro hmem
      rcases List.mem_append.mp hmem with hmem | hmem
      · exact h hmem
      · exact hi (List.mem_singleton.mp hmem).symm
  | finished => trivial
  | _ => exact absurd trivial hout

/-- The invariant of the wire log: its transmissions are in uninterrupted blocks, one for each
call, and every call knows its own. -/
structure LogInv (cfg : SerialModel) (s : State) : Prop where
  /-- The log is made of uninterrupted blocks. -/
  blocks : IsBlockLog cfg.maxRetries s.owners
  /-- Every transmission carries the message and the gap of its call. -/
  args : ∀ t ∈ s.transmissions, ∃ c, s.calls t.call = some c ∧ t.message = c.args.message ∧
    t.minSendInterval = c.args.minSendInterval
  /-- Every call knows its block. -/
  counted : ∀ id c, s.calls id = some c → Counted cfg.maxRetries s.owners id c.stage

/-- The calls of a log keep their arguments when one of them moves. -/
theorem args_update {txs : List Tx} {calls : CallId → Option Call}
    (h : ∀ t ∈ txs, ∃ c, calls t.call = some c ∧ t.message = c.args.message ∧
      t.minSendInterval = c.args.minSendInterval)
    (hc : calls id = some c ∨ calls id = none) :
    ∀ t ∈ txs, ∃ d, Function.update calls id (some ⟨c.args, stage'⟩) t.call = some d ∧
      t.message = d.args.message ∧ t.minSendInterval = d.args.minSendInterval := by
  intro t ht
  obtain ⟨d, hd, hmsg, hgap⟩ := h t ht
  by_cases hid : t.call = id
  · rw [hid] at hd ⊢
    rcases hc with hc | hc
    · obtain rfl : c = d := Option.some.inj (hc.symm.trans hd)
      exact ⟨_, Function.update_self .., hmsg, hgap⟩
    · cases hc.symm.trans hd
  · exact ⟨d, by rw [Function.update_of_ne hid, hd], hmsg, hgap⟩

/-- Every step keeps the invariant of the wire log. -/
theorem LogInv.step (h : LogInv cfg s) (ho : Owned s) (hs : Stepped cfg s act s') :
    LogInv cfg s' := by
  cases hs with
  | @called id args hnew =>
      refine ⟨h.blocks, args_update h.args (.inr hnew),
        forall_calls_update ?_ fun j d _ hj => h.counted j d hj⟩
      intro hmem
      obtain ⟨t, ht, rfl⟩ := List.mem_map.mp hmem
      obtain ⟨d, hd, -⟩ := h.args t ht
      cases hnew.symm.trans hd
  | @resumed id _ c stage' _ hc hr =>
      have hown := (h.counted id c hc).resumed hr
      obtain heq | ⟨a, d, hstage, rfl, rfl⟩ := hr.transmissions_cases
      · have howners : s'.owners = s.owners := congrArg (List.map Tx.call) heq
        refine ⟨howners ▸ h.blocks, ?_, ?_⟩
        · rw [heq, hr.calls_eq]
          exact args_update h.args (.inl hc)
        · rw [hr.calls_eq]
          exact forall_calls_update hown fun j d _ hj => howners ▸ h.counted j d hj
      · have howners : (s.transmit id c a).owners = s.owners ++ [id] := by
          rw [State.owners, State.transmit_transmissions, List.map_append]
          rfl
        have hcount := h.counted id c hc
        rw [hstage] at hcount
        refine ⟨howners ▸ hcount.isBlockLog h.blocks, ?_, ?_⟩
        · rw [State.transmit_transmissions, hr.calls_eq]
          intro t ht
          rcases List.mem_append.mp ht with ht | ht
          · exact args_update h.args (.inl hc) t ht
          · obtain rfl := List.mem_singleton.mp ht
            exact ⟨_, Function.update_self .., rfl, rfl⟩
        · rw [hr.calls_eq]
          refine forall_calls_update hown fun j d hji hj => howners ▸ ?_
          exact (h.counted j d hj).append hji.symm (ho.others hc hr hj hji)
  | @cancelledWaiting id c hc | @cancelled id c hc =>
      exact ⟨h.blocks, args_update h.args (.inl hc),
        forall_calls_update trivial fun j d _ hj => h.counted j d hj⟩
  | ticked | received | closing | lost => exact ⟨h.blocks, h.args, h.counted⟩

/-- **The wire log of every run is made of blocks**, and no call has more transmissions than it
may. -/
theorem logInv_of_reachable (h : Reachable cfg s) : LogInv cfg s := by
  refine h.induct ⟨isBlockLog_nil _, List.forall_mem_nil _, forall_calls_start⟩ ?_
  intro t _ t' hr ih _ ht
  exact ih.step (owned_of_reachable hr) (stepped_of_step ht)

/-! ### The bytes of a frame -/

/-- What every connection keeps: nothing is read before it has arrived, and only a lost transport
raises. -/
def ConnsOk (s : State) : Prop :=
  ∀ n, (s.conns n).consumed ≤ (s.conns n).received.length ∧
    ((s.conns n).closed = none → (s.conns n).exception = none)

/-- A connection that is updated within its bounds keeps the bounds of all. -/
theorem ConnsOk.update (h : ConnsOk s) {n : ConnId} {k : Connection}
    (hk : k.consumed ≤ k.received.length) (he : k.closed = none → k.exception = none) :
    ConnsOk (s.setConn n k) := by
  intro m
  by_cases hm : m = n
  · subst hm
    simpa using ⟨hk, he⟩
  · simpa [Function.update_of_ne hm] using h m

/-- Every step keeps the connections in order. -/
theorem ConnsOk.step (h : ConnsOk s) (hs : Stepped cfg s act s') : ConnsOk s' := by
  cases hs with
  | resumed hc hr =>
      intro n
      have hu := hr.conns_used n
      obtain ⟨k, hk, hconsumed⟩ := hu.consumed
      rw [Connection.buffer, List.length_drop] at hk
      refine ⟨?_, hu.closed ▸ hu.exception ▸ (h n).2⟩
      rw [hconsumed, hu.received]
      have := (h n).1
      omega
  | @received n bs hn =>
      refine h.update ?_ (h n).2
      have := (h n).1
      simp only [Connection.feed, List.length_append]
      omega
  | @closing n hn => exact h.update (h n).1 (h n).2
  | @lost n exc hn hclosed => exact h.update (h n).1 nofun
  | @cancelled id c =>
      obtain ⟨n, b, heq⟩ := s.exists_cancelWaiter c.stage
      rw [heq]
      exact h.update (h n).1 (h n).2
  | _ => exact h

theorem connsOk_of_reachable (h : Reachable cfg s) : ConnsOk s :=
  h.invariant (fun _ => ⟨le_rfl, fun _ => rfl⟩) fun _ _ _ ih _ hs =>
    ih.step (stepped_of_step hs)

/-- The last transmission of a call: the one whose answer it waits for, or has got. -/
def State.lastTx (s : State) (id : CallId) : Option Tx :=
  (s.transmissions.filter (·.call = id)).getLast?

/-- What an attempt has read of the answer to its transmission; `none` where it has not
transmitted, or has given up. -/
def Phase.response : Phase → Option Bytes
  | .flushing | .readingHeader _ => some []
  | .readingBody response _ | .readingChecksum response _ => some response
  | _ => none

/-- `bs` is a stretch of what the connection received after its first `mark` bytes, without gaps. -/
def Connection.Received (n : Connection) (mark : ℕ) (bs : Bytes) : Prop :=
  ∃ front back, n.received = front ++ bs ++ back ∧ mark ≤ front.length

/-- While a call reads, what it has read so far is the last stretch of the bytes read from
its connection, and arrived after its last transmission. The frame that a call has returned
is such a stretch, and passed the checks. -/
def FrameOk (s : State) (id : CallId) (c : Call) : Prop :=
  match c.stage with
  | .attempting a p => ∀ response, p.response = some response →
      ∃ t, s.lastTx id = some t ∧ t.conn = a.conn ∧
        ((s.conns a.conn).exception = none →
          ∃ front, (s.conns a.conn).received = front ++ response ++ (s.conns a.conn).buffer ∧
            t.mark ≤ front.length)
  | .finished (.ok frame) =>
      (∃ t, s.lastTx id = some t ∧ (s.conns t.conn).Received t.mark frame) ∧
        acceptsResponse c.args.expectedCommand c.args.expectedSubcommand frame = true
  | _ => True

/-- The invariant of frames: what a call has read of its answer came without gaps on its
connection, behind its own last transmission. -/
def FrameInv (s : State) : Prop :=
  ∀ id c, s.calls id = some c → FrameOk s id c

/-- Reading takes bytes off the front of the buffer. -/
theorem Connection.buffer_consume (n : Connection) (k : ℕ) :
    (n.consume k).buffer = n.buffer.drop k := by
  simp only [Connection.buffer, Connection.consume, List.drop_drop]

/-- Bytes that arrive join the end of the buffer. -/
theorem Connection.buffer_feed {n : Connection} (h : n.consumed ≤ n.received.length)
    (bs : Bytes) : (n.feed bs).buffer = n.buffer ++ bs := by
  simp only [Connection.buffer, Connection.feed]
  rw [List.drop_append_of_le_length h]

/-- What was received stays received. -/
theorem Connection.Received.append {n n' : Connection} {mark : ℕ} {bs more : Bytes}
    (h : n.Received mark bs) (hr : n'.received = n.received ++ more) : n'.Received mark bs := by
  obtain ⟨front, back, heq, hmark⟩ := h
  exact ⟨front, back ++ more, by rw [hr, heq, List.append_assoc], hmark⟩

/-- A call outside the block keeps its frame whatever others do: the input only grows, and the
transmissions of others are not its own. -/
theorem FrameOk.frame {s s' : State} (hout : ¬ c.stage.isCritical)
    (hl : s'.lastTx id = s.lastTx id)
    (hr : ∀ n, ∃ more, (s'.conns n).received = (s.conns n).received ++ more)
    (h : FrameOk s id c) : FrameOk s' id c := by
  obtain ⟨args, stage⟩ := c
  cases stage with
  | acquiring => trivial
  | finished r =>
      cases r with
      | error => trivial
      | ok frame =>
          obtain ⟨⟨t, ht, hrec⟩, ha⟩ := h
          obtain ⟨more, hmore⟩ := hr t.conn
          exact ⟨⟨t, hl ▸ ht, hrec.append hmore⟩, ha⟩
  | _ => exact absurd trivial hout

/-- A stage that has nothing to say about frames. -/
theorem frameOk_of_response {args : FetchArgs} {a : Attempt} {p : Phase}
    (h : p.response = none) : FrameOk s id ⟨args, .attempting a p⟩ := by
  intro response hp
  cases h.symm.trans hp

/-- A read moves the bytes it takes from the buffer to the frame. -/
theorem received_of_read {n : Connection} {front response taken rest : Bytes}
    (h : n.received = front ++ response ++ n.buffer) (hb : n.buffer = taken ++ rest) :
    (n.consume taken.length).received =
      front ++ (response ++ taken) ++ (n.consume taken.length).buffer := by
  change n.received = _
  rw [Connection.buffer_consume, hb, List.drop_left, h, hb]
  simp only [List.append_assoc]

/-- The last transmissions are read off the transmissions. -/
theorem lastTx_congr (h : s'.transmissions = s.transmissions) (id : CallId) :
    s'.lastTx id = s.lastTx id := by
  rw [State.lastTx, h, State.lastTx]

/-- A resumption leaves the last transmissions of the other calls alone. -/
theorem lastTx_of_resumed {j : CallId} (hr : Resumed cfg s id c stage stage' s')
    (hji : j ≠ id) : s'.lastTx j = s.lastTx j := by
  obtain heq | ⟨a, d, -, -, rfl⟩ := hr.transmissions_cases
  · exact lastTx_congr heq j
  · have hne : ([s.txNow id c a].filter fun t => t.call = j) = [] := by
      simpa [State.txNow] using hji.symm
    rw [State.lastTx, State.transmit_transmissions, List.filter_append, hne, List.append_nil,
      State.lastTx]

/-- The transmission that a drained attempt makes is the last one of its call. -/
theorem lastTx_transmit {a : Attempt} :
    (s.transmit id c a).lastTx id = some (s.txNow id c a) := by
  rw [State.lastTx, State.transmit_transmissions, List.filter_append]
  simp [State.txNow]

/-- The resumed call keeps its frame. The transmission starts it with an empty buffer, each read
moves bytes from the buffer to its end, and the checks turn it into a result. -/
theorem FrameOk.resumed {args : FetchArgs}
    (h : FrameOk s id ⟨args, stage⟩) (hr : Resumed cfg s id ⟨args, stage⟩ stage stage' s') :
    FrameOk s' id ⟨args, stage'⟩ := by
  cases hr with
  | moved hm =>
      cases hm with
      | awaitClose => trivial
      | flushed =>
          intro response hp
          cases hp
          exact h [] rfl
      | _ => exact frameOk_of_response rfl
  | @read a p k p' he hread =>
      cases hread with
      | drained => exact frameOk_of_response rfl
      | header hb =>
          intro response hp
          cases hp
          obtain ⟨t, ht, hconn, hf⟩ := h [] rfl
          obtain ⟨front, hrec, hmark⟩ := hf he
          refine ⟨t, ht, hconn, fun _ => ⟨front, ?_, hmark⟩⟩
          have := received_of_read hrec (show _ = [_] ++ _ from hb)
          simpa using this
      | @body response d chunk rest hb =>
          intro response' hp
          cases hp
          obtain ⟨t, ht, hconn, hf⟩ := h response rfl
          obtain ⟨front, hrec, hmark⟩ := hf he
          refine ⟨t, ht, hconn, fun _ => ⟨front, ?_, hmark⟩⟩
          have := received_of_read hrec (append_of_readUntil hb).symm
          simpa using this
  | @transmitted a d hb =>
      intro response hp
      cases hp
      refine ⟨_, lastTx_transmit, rfl, fun he => ⟨(s.conns a.conn).received, ?_, le_rfl⟩⟩
      rcases hb with hb | hb
      · change (s.conns a.conn).received = _ ++ [] ++ (s.conns a.conn).buffer
        rw [hb, List.append_nil, List.append_nil]
      · cases he.symm.trans hb
  | @accepted a response d b rest he hb hv ha =>
      obtain ⟨t, ht, hconn, hf⟩ := h response rfl
      obtain ⟨front, hrec, hmark⟩ := hf he
      refine ⟨⟨t, (lastTx_congr (State.complete_transmissions _ _) id).trans ht, front, rest,
        ?_, hmark⟩, ha⟩
      change (Function.update s.conns a.conn _ t.conn).received = _
      rw [hconn, Function.update_self]
      change (s.conns a.conn).received = _
      rw [hrec, hb]
      simp only [List.append_assoc, List.singleton_append]
  | retried | discarded | reused | opened => exact frameOk_of_response rfl
  | _ => trivial

/-- Updates of a connection outside a read keep every frame. -/
theorem FrameOk.setConn {n : ConnId} {k : Connection} {more : Bytes} (h : FrameOk s id c)
    (hr : k.received = (s.conns n).received ++ more)
    (hb : k.exception = none → (s.conns n).exception = none ∧
      k.buffer = (s.conns n).buffer ++ more) : FrameOk (s.setConn n k) id c := by
  obtain ⟨args, stage⟩ := c
  cases stage with
  | attempting a p =>
      intro response hp
      obtain ⟨t, ht, hconn, hf⟩ := h response hp
      refine ⟨t, ht, hconn, fun he => ?_⟩
      by_cases hn : a.conn = n
      · subst hn
        simp only [State.setConn_conns, Function.update_self] at he ⊢
        obtain ⟨he', hbuf⟩ := hb he
        obtain ⟨front, hrec, hmark⟩ := hf he'
        exact ⟨front, by rw [hr, hrec, hbuf, List.append_assoc], hmark⟩
      · simp only [State.setConn_conns, Function.update_of_ne hn] at he ⊢
        exact hf he
  | finished r =>
      refine h.frame (s := s) (fun hcrit => hcrit) rfl fun m => ?_
      by_cases hm : m = n
      · subst hm
        exact ⟨more, by rw [State.setConn_conns, Function.update_self, hr]⟩
      · exact ⟨[], by simp [Function.update_of_ne hm]⟩
  | _ => trivial

/-- Every step keeps the invariant of frames. -/
theorem FrameInv.step (h : FrameInv s) (ho : Owned s) (hk : ConnsOk s)
    (hs : Stepped cfg s act s') : FrameInv s' := by
  cases hs with
  | @called id args hnew =>
      exact forall_calls_update trivial fun j d _ hj => h j d hj
  | @resumed id _ c stage' _ hc hr =>
      rw [FrameInv, hr.calls_eq]
      refine forall_calls_update ((h id c hc).resumed hr) fun j d hji hj => ?_
      refine (h j d hj).frame (ho.others hc hr hj hji) (lastTx_of_resumed hr hji) fun n => ?_
      exact ⟨[], by rw [(hr.conns_used n).received, List.append_nil]⟩
  | cancelledWaiting => exact forall_calls_update trivial fun j d _ hj => h j d hj
  | @cancelled id c =>
      obtain ⟨n, b, heq⟩ := s.exists_cancelWaiter c.stage
      rw [heq]
      exact forall_calls_update trivial fun j d _ hj =>
        (h j d hj).setConn (List.append_nil _).symm fun he => ⟨he, (List.append_nil _).symm⟩
  | ticked => exact h
  | @received n bs hn hclosing =>
      intro j d hj
      exact (h j d hj).setConn rfl fun he => ⟨he, Connection.buffer_feed (hk n).1 bs⟩
  | @closing n hn =>
      intro j d hj
      exact (h j d hj).setConn (List.append_nil _).symm fun he => ⟨he, (List.append_nil _).symm⟩
  | @lost n exc hn hclosed =>
      intro j d hj
      refine (h j d hj).setConn (List.append_nil _).symm fun _ => ?_
      exact ⟨(hk n).2 hclosed, (List.append_nil _).symm⟩

theorem frameInv_of_reachable (h : Reachable cfg s) : FrameInv s := by
  refine h.induct forall_calls_start ?_
  intro t _ t' hr ih _ ht
  exact ih.step (owned_of_reachable hr) (connsOk_of_reachable hr) (stepped_of_step ht)

/-! ### Transaction safety -/

/-- The message of a call. -/
def State.message (s : State) (id : CallId) : Bytes :=
  match s.calls id with
  | some c => c.args.message
  | none => []

/-- The wire log is determined by who transmitted. -/
theorem LogInv.transmissions_eq (h : LogInv cfg s) :
    s.transmissions.map (fun t => (t.call, t.message)) =
      s.owners.map fun id => (id, s.message id) := by
  rw [State.owners, List.map_map]
  refine List.map_congr_left fun t ht => ?_
  obtain ⟨c, hc, hmsg, -⟩ := h.args t ht
  simp only [Function.comp, State.message, hc, hmsg]

/-- The frame that a call with expected codes accepts: marks, checksum and codes are right. -/
theorem shape_of_accepts {cmd subcmd : Str} {frame : Bytes}
    (h : acceptsResponse (some cmd) (some subcmd) frame = true) :
    (∃ body, frame = STX :: body ++ [ETX, xorSum (body ++ [ETX])]) ∧
      responseCodes frame = some (cmd, subcmd) := by
  rw [acceptsResponse, Bool.and_eq_true, decide_eq_true_eq] at h
  obtain ⟨body, hframe, -⟩ := responseChecksumValid_iff.mp h.1
  exact ⟨⟨body, hframe⟩, h.2⟩

/-- **Transaction safety.** In every run the wire log is a concatenation of blocks, at most
one for each call, each with at most `max_retries` copies of that call's message. A frame
that a call with expected codes returns is `STX … ETX LRC` with the exclusive or of its
bytes from CMD through ETX as LRC, carries the expected codes, and is a stretch of the input
that arrived after the last transmission of that call. -/
theorem fetch_transactionSafe {cfg : SerialModel} {s : State} (h : Reachable cfg s) :
    (∃ blocks : List (CallId × ℕ), (blocks.map Prod.fst).Nodup ∧
      (∀ b ∈ blocks, b.2 ≤ cfg.maxRetries ∧ (s.calls b.1).isSome) ∧
      s.transmissions.map (fun t => (t.call, t.message)) =
        blocks.flatMap fun b => List.replicate b.2 (b.1, s.message b.1)) ∧
    ∀ id c frame cmd subcmd, s.calls id = some c → c.stage = .finished (.ok frame) →
      c.args.expectedCommand = some cmd → c.args.expectedSubcommand = some subcmd →
      (∃ body, frame = STX :: body ++ [ETX, xorSum (body ++ [ETX])]) ∧
      responseCodes frame = some (cmd, subcmd) ∧
      ∃ t, s.lastTx id = some t ∧ (s.conns t.conn).Received t.mark frame := by
  constructor
  · have hlog := logInv_of_reachable h
    obtain ⟨blocks, hnodup, hlen, howners⟩ := hlog.blocks
    refine ⟨blocks, hnodup, fun b hb => ⟨(hlen b hb).2, ?_⟩, ?_⟩
    · have hmem : b.1 ∈ s.owners := by
        rw [howners, mem_expand fun b hb => (hlen b hb).1]
        exact List.mem_map_of_mem hb
      obtain ⟨t, ht, hcall⟩ := List.mem_map.mp hmem
      obtain ⟨c, hc, -⟩ := hlog.args t ht
      rw [← hcall, hc, Option.isSome_some]
    · rw [hlog.transmissions_eq, howners, map_expand]
  · intro id c frame cmd subcmd hc hstage hcmd hsub
    obtain ⟨args, stage⟩ := c
    subst hstage
    obtain ⟨hrec, ha⟩ := frameInv_of_reachable h id _ hc
    rw [hcmd, hsub] at ha
    obtain ⟨hshape, hcodes⟩ := shape_of_accepts ha
    exact ⟨hshape, hcodes, hrec⟩

/-- An RQID request. -/
def rqidArgs : FetchArgs where
  message := [2, 82, 81, 73, 68, 3, 13]
  expectedCommand := some ['R', 'Q']
  expectedSubcommand := some ['I', 'D']

/-- An answer to an RQID request, all of whose status characters are zeros. It passes every check of
`fetch`. -/
def rqidFrame : Bytes :=
  [2, 82, 81, 73, 68] ++ List.replicate 12 48 ++ [3, 13]

/-- Two callers ask for RQID at once; the first to get the mutex reads an answer to another
command, sends its request again and reads the right answer. -/
def mismatchRun : List Action :=
  [.call 0 rqidArgs, .call 1 rqidArgs, .resume 0 .ready, .resume 0 .ready, .resume 0 .ready,
    .resume 0 .ready, .resume 0 .ready, .tick (1 / 20), .resume 0 .timedOut, .resume 0 .ready,
    .receive 0 [2, 77, 67, 80, 68, 3, 25], .resume 0 .ready, .resume 0 .ready,
    .resume 0 .ready, .tick (1 / 10), .resume 0 .ready, .resume 0 .ready, .resume 0 .ready,
    .tick (1 / 20), .resume 0 .timedOut, .resume 0 .ready, .receive 0 rqidFrame,
    .resume 0 .ready, .resume 0 .ready, .resume 0 .ready]

theorem mismatchRun_isSome : (runFrom (step {}) {} mismatchRun).isSome := by
  decide +kernel

/-- Transaction safety at the end of `mismatchRun`. -/
theorem fetch_transactionSafe_mismatchRun :
    ∃ s, Reachable {} s ∧ s.transmissions.map Tx.call = [0, 0] ∧
      s.calls 0 = some ⟨rqidArgs, .finished (.ok rqidFrame)⟩ ∧
      responseCodes rqidFrame = some (['R', 'Q'], ['I', 'D']) ∧
      ∃ t, s.lastTx 0 = some t ∧ (s.conns t.conn).Received t.mark rqidFrame := by
  have hs : Reachable {} ((runFrom (step {}) {} mismatchRun).get mismatchRun_isSome) :=
    reaches_get mismatchRun_isSome
  have hcall : ((runFrom (step {}) {} mismatchRun).get mismatchRun_isSome).calls 0 =
      some ⟨rqidArgs, .finished (.ok rqidFrame)⟩ := by
    decide +kernel
  have hsafe := (fetch_transactionSafe hs).2 0 _ rqidFrame _ _ hcall rfl rfl rfl
  exact ⟨_, hs, by decide +kernel, hcall, hsafe.2⟩

end IoBoard
