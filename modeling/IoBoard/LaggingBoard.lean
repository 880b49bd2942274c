import IoBoard.AttemptRuns
import IoBoard.Line

/-!
# A Lagging Board

A board that answers every transmission with one valid frame of the same codes, but delivers the
answer to a transmission only `d` transmissions later. The known defect of the board is `d = 1`.
`fetch` takes the first frames for answers to other commands, discards them and sends its request
again; every transmission delivers one answer, so that the backlog stays what it was.

## The board as a condition on runs

The board is no part of the model. `lagging d` says which steps of the environment are those of
such a board: bytes arrive only as complete answers, one for each transmission, in their order,
and the answer to the transmission `n` arrives between the transmission `n + d` and the next one.
Until the first answer is due attempts time out; after that they do not, since the board is fast
enough. An answer arrives in one piece, at any moment while the call waits. No call is cancelled,
and the port opens and stays open.

## The invariant

`Level d s m` says that of the first `m` transmissions all but the last `d` are answered and read:
between attempts nothing lies in the buffer, and `d` answers are outstanding. While a call waits
for an answer the one more that is due may be on its way (`Pending`). A call makes its
transmissions one after the other and alone, so after `d + 1` of them the answer that is due is to
a message of its own, and has its codes. With less it may accept a frame earlier, if an older
command had the same codes; that is a frame with its codes all the same.

## Main results

* `LagAttempt.own`: at its transmission `d + 1` a call gets its own answer.
* `after_of_resumeAttempt`: **every resumption of an attempt keeps the call on its way to its
  answer**, and the backlog at `d`.
-/

open Runs Framing

namespace IoBoard

variable {cfg : SerialModel} {d : ℕ} {s s' : State} {id : CallId} {args : FetchArgs} {c : Call}
  {a : Attempt} {p : Phase} {w : Wakeup} {f response xs : Bytes} {frames : List Bytes}

/-! ### The board -/

/-- A valid answer to a message: one frame with the same codes and a right checksum, which the
reads of an attempt take as one. -/
def Answers (message frame : Bytes) : Prop :=
  Readable frame ∧ responseChecksumValid frame = true ∧
    responseCodes frame = responseCodes message

/-- The caller expects the codes of its own message, as all commands do. -/
def FetchArgs.Matched (args : FetchArgs) : Prop :=
  ∃ cmd subcmd, args.expectedCommand = some cmd ∧ args.expectedSubcommand = some subcmd ∧
    responseCodes args.message = some (cmd, subcmd)

/-- These frames have arrived on the connection, the answers to the first transmissions in their
order, and nothing else. -/
structure State.Answered (s : State) (n : ConnId) (frames : List Bytes) : Prop where
  received : (s.conns n).received = frames.flatten
  answers : ∀ (i : ℕ) (f : Bytes), frames[i]? = some f →
    ∃ t : Tx, s.transmissions[i]? = some t ∧ Answers t.message f

/-- The answer to the transmission `n` arrives upon the transmission `n + d`: until then an
attempt times out, and from then on it does not. Nothing else disturbs the calls, and they are
those of commands. -/
def lagging (d : ℕ) : Conditions where
  watched _ := True
  allowed s _
    | .timeout => s.transmissions.length ≤ d
    | .shortRead => False
    | _ => True
  environment s
    | .call _ args => args.Matched
    | .receive n bs => ∃ (frames : List Bytes) (t : Tx), s.Answered n frames ∧
        frames.length + d < s.transmissions.length ∧
        s.transmissions[frames.length]? = some t ∧ Answers t.message bs
    | _ => False

/-- The calls of commands expect the codes of their messages. -/
theorem matched_of_sendCommand {minGap : ℚ} {command : Command} {data : RequestDict}
    (h : sendCommand minGap command data = .ok args) : args.Matched :=
  ⟨_, _, (sendCommand_expected h).1, (sendCommand_expected h).2, label_of_sendCommand h⟩

/-- A call accepts the answer to its own message, with any payload. -/
theorem accepts_of_answers (hm : args.Matched) (hf : Answers args.message f) :
    acceptsResponse args.expectedCommand args.expectedSubcommand f = true := by
  obtain ⟨cmd, subcmd, hcmd, hsubcmd, hcodes⟩ := hm
  simp [acceptsResponse, hcmd, hsubcmd, hf.2.1, hf.2.2, hcodes]

/-- What a call accepts has its codes. -/
theorem codes_of_accepts (hm : args.Matched)
    (hf : acceptsResponse args.expectedCommand args.expectedSubcommand f = true) :
    responseCodes f = responseCodes args.message := by
  obtain ⟨cmd, subcmd, hcmd, hsubcmd, hcodes⟩ := hm
  simp only [acceptsResponse, hcmd, hsubcmd, Bool.and_eq_true, decide_eq_true_eq] at hf
  exact hf.2.trans hcodes.symm

/-! ### Frames in a stream -/

theorem Readable.readFrame_eq (h : Readable f) : readFrame f = some (f, []) := by
  obtain ⟨b, body, lrc, hbody, -, rfl⟩ := h
  exact readFrame_eq_some_iff.mpr ⟨b, body, lrc, hbody, rfl, by simp⟩

/-- A stream can be cut into frames in one way only, so the bytes that have arrived determine
the answers. -/
theorem flatten_inj {frames' : List Bytes} (h : frames.flatten = frames'.flatten)
    (hf : ∀ f ∈ frames, Readable f) (hf' : ∀ f ∈ frames', Readable f) : frames = frames' := by
  induction frames generalizing frames' with
  | nil =>
      cases frames' with
      | nil => rfl
      | cons f' rest' =>
          obtain ⟨b, body, lrc, -, -, rfl⟩ := hf' f' List.mem_cons_self
          simp at h
  | cons f rest ih =>
      have hread := readFrame_append (hf f List.mem_cons_self).readFrame_eq rest.flatten
      cases frames' with
      | nil =>
          obtain ⟨b, body, lrc, -, -, rfl⟩ := hf f List.mem_cons_self
          simp at h
      | cons f' rest' =>
          have hread' := readFrame_append (hf' f' List.mem_cons_self).readFrame_eq rest'.flatten
          rw [List.flatten_cons, List.flatten_cons] at h
          rw [h, hread'] at hread
          obtain ⟨rfl, hrest⟩ := Prod.mk.inj (Option.some.inj hread)
          rw [ih hrest.symm (fun g hg => hf g (List.mem_cons_of_mem _ hg))
            fun g hg => hf' g (List.mem_cons_of_mem _ hg)]

namespace State.Answered

theorem readable {n : ConnId} (h : s.Answered n frames) : ∀ f ∈ frames, Readable f := by
  intro f hf
  obtain ⟨i, hi, rfl⟩ := List.mem_iff_getElem.mp hf
  obtain ⟨t, -, ht⟩ := h.answers i _ (List.getElem?_eq_getElem hi)
  exact ht.1

/-- How many answers have arrived is in the bytes, not in the proof that they have. -/
theorem unique {n : ConnId} {frames' : List Bytes} (h : s.Answered n frames)
    (h' : s.Answered n frames') : frames = frames' :=
  flatten_inj (h.received.symm.trans h'.received) h.readable h'.readable

/-- Later transmissions do not matter. -/
theorem mono {n : ConnId} (txs : List Tx) (h : s.Answered n frames)
    (hconn : (s'.conns n).received = (s.conns n).received)
    (htx : s'.transmissions = s.transmissions ++ txs) : s'.Answered n frames := by
  refine ⟨hconn.trans h.received, fun i f hf => ?_⟩
  obtain ⟨t, ht, hanswers⟩ := h.answers i f hf
  obtain ⟨hi, -⟩ := List.getElem?_eq_some_iff.mp ht
  exact ⟨t, by rw [htx, List.getElem?_append_left hi, ht], hanswers⟩

/-- One more answer arrives. -/
theorem concat {n : ConnId} {t : Tx} (h : s.Answered n frames)
    (hconn : (s'.conns n).received = (s.conns n).received ++ f)
    (htx : s'.transmissions = s.transmissions) (ht : s.transmissions[frames.length]? = some t)
    (hf : Answers t.message f) : s'.Answered n (frames ++ [f]) := by
  refine ⟨?_, fun i g hg => ?_⟩
  · rw [hconn, h.received, List.flatten_append, List.flatten_singleton]
  · rw [htx]
    rcases Nat.lt_trichotomy i frames.length with hi | rfl | hi
    · rw [List.getElem?_append_left hi] at hg
      exact h.answers i g hg
    · rw [List.getElem?_concat_length] at hg
      obtain rfl := Option.some.inj hg
      exact ⟨t, ht, hf⟩
    · rw [List.getElem?_eq_none (by simp; omega)] at hg
      cases hg

end State.Answered

/-! ### The backlog -/

/-- The answers to all but the last `d` of the first `m` transmissions have arrived and have been
read. -/
def Level (d : ℕ) (s : State) (m : ℕ) : Prop :=
  ∃ frames, frames.length = m - d ∧ s.Answered 0 frames ∧ (s.conns 0).Holds []

/-- The answer that the last transmission has brought has been read as far as `response`, and
the rest of it lies in the buffer. -/
def Pending (d : ℕ) (s : State) (response xs : Bytes) : Prop :=
  ∃ frames, frames.length + 1 + d = s.transmissions.length ∧
    s.Answered 0 (frames ++ [response ++ xs]) ∧ (s.conns 0).Holds xs

/-- What the phase of an attempt says about the line. Before the transmission and in the backoff the
backlog is level. -/
def LagPhase (d : ℕ) (s : State) : Phase → Prop
  | .flushing | .readingHeader _ =>
      Level d s (s.transmissions.length - 1) ∨ ∃ xs, Pending d s [] xs
  | .readingBody response _ => response.length = 1 ∧ ∃ xs, Pending d s response xs
  | .readingChecksum response _ => ∃ lrc, Pending d s response [lrc]
  | _ => Level d s s.transmissions.length

/-- How often the call has transmitted, in this phase of an attempt. -/
def Attempt.sent (a : Attempt) (p : Phase) : ℕ :=
  if p.hasSent then a.number else a.number - 1

/-- A call in an attempt: its transmissions are the last ones, and no more than `d + 1`. So
nobody else has sent in between. -/
structure LagAttempt (d : ℕ) (s : State) (id : CallId) (a : Attempt) (p : Phase) : Prop where
  pos : 1 ≤ a.number
  number : a.number ≤ d + 1
  backoff : ∀ wake, p = .backoff wake → a.number ≤ d
  sent : ∃ front, s.owners = front ++ List.replicate (a.sent p) id ∧ id ∉ front

/-- What is true of a call. One that has finished has returned a frame with its codes, within `d
+ 1` transmissions. -/
def LagCall (d : ℕ) (s : State) (id : CallId) (c : Call) : Prop :=
  match c.stage with
  | .attempting a p => LagAttempt d s id a p ∧ LagPhase d s p
  | .awaitingClose _ | .resetting _ _ => False
  | .finished r => (∃ frame, r = .ok frame ∧ responseCodes frame = responseCodes c.args.message) ∧
      s.owners.count id ≤ d + 1 ∧ d < s.transmissions.length
  | _ => True

/-- The call is waiting for an answer: it has sent its message, and does not sleep. -/
def Stage.awaits : Stage → Prop
  | .attempting _ p => p.hasSent = true ∧ ∀ wake, p ≠ .backoff wake
  | _ => False

/-- Where the line and the transmissions are the same, a call is where it was. -/
theorem Level.congr {m : ℕ} (h : Level d s m) (hconn : s'.conns 0 = s.conns 0)
    (htx : s'.transmissions = s.transmissions) : Level d s' m := by
  obtain ⟨frames, hlen, hanswered, hholds⟩ := h
  refine ⟨frames, hlen, hanswered.mono [] (by rw [hconn]) (by rw [htx, List.append_nil]), ?_⟩
  rw [hconn]
  exact hholds

theorem Pending.congr (h : Pending d s response xs) (hconn : s'.conns 0 = s.conns 0)
    (htx : s'.transmissions = s.transmissions) : Pending d s' response xs := by
  obtain ⟨frames, hlen, hanswered, hholds⟩ := h
  refine ⟨frames, htx ▸ hlen, hanswered.mono [] (by rw [hconn]) (by rw [htx, List.append_nil]), ?_⟩
  rw [hconn]
  exact hholds

theorem LagPhase.congr (h : LagPhase d s p) (hconn : s'.conns 0 = s.conns 0)
    (htx : s'.transmissions = s.transmissions) : LagPhase d s' p := by
  cases p with
  | flushing | readingHeader =>
      rcases h with h | ⟨xs, h⟩
      · exact .inl (htx ▸ h.congr hconn htx)
      · exact .inr ⟨xs, h.congr hconn htx⟩
  | readingBody =>
      obtain ⟨hlen, xs, h⟩ := h
      exact ⟨hlen, xs, h.congr hconn htx⟩
  | readingChecksum =>
      obtain ⟨lrc, h⟩ := h
      exact ⟨lrc, h.congr hconn htx⟩
  | _ =>
      have hlevel : Level d s' s'.transmissions.length := htx ▸ Level.congr h hconn htx
      exact hlevel

theorem LagAttempt.congr (h : LagAttempt d s id a p)
    (htx : s'.transmissions = s.transmissions) : LagAttempt d s' id a p := by
  have howners : s'.owners = s.owners := congrArg (List.map Tx.call) htx
  exact ⟨h.pos, h.number, h.backoff, howners ▸ h.sent⟩

/-- While the call does not wait for an answer, the backlog is what it should be. -/
theorem LagPhase.level (h : LagPhase d s p) (hp : ¬ (Stage.attempting a p).awaits) :
    Level d s s.transmissions.length := by
  cases p with
  | flushing | readingHeader | readingBody | readingChecksum =>
      exact absurd ⟨rfl, by simp⟩ hp
  | _ => exact h

/-! ### The answers arrive -/

/-- A due answer arrives: the one that the last transmission has brought. -/
theorem Level.receive {n : ConnId} (h : Level d s (s.transmissions.length - 1)) (hn : n = 0)
    (hreceive : (lagging d).environment s (.receive n f)) :
    Pending d (s.setConn n ((s.conns n).feed f)) [] f := by
  subst hn
  obtain ⟨frames, hlen, hanswered, hholds⟩ := h
  obtain ⟨frames', t, hanswered', hdue, ht, hf⟩ := hreceive
  obtain rfl := hanswered.unique hanswered'
  refine ⟨frames, ?_, hanswered.concat ?_ rfl ht hf, ?_⟩
  · change frames.length + 1 + d = s.transmissions.length
    omega
  · rw [State.setConn_conns, Function.update_self]
    rfl
  · rw [State.setConn_conns, Function.update_self]
    exact hholds.feed f

/-- At other times no answer is due, so nothing arrives. -/
theorem Level.not_receive (h : Level d s s.transmissions.length) :
    ¬ (lagging d).environment s (.receive 0 f) := by
  rintro ⟨frames', t, hanswered', hdue, -⟩
  obtain ⟨frames, hlen, hanswered, -⟩ := h
  obtain rfl := hanswered.unique hanswered'
  omega

theorem Pending.not_receive (h : Pending d s response xs) :
    ¬ (lagging d).environment s (.receive 0 f) := by
  rintro ⟨frames', t, hanswered', hdue, -⟩
  obtain ⟨frames, hlen, hanswered, -⟩ := h
  obtain rfl := hanswered.unique hanswered'
  rw [List.length_append, List.length_singleton] at hdue
  omega

/-- What arrives during an attempt. -/
theorem LagPhase.receive {n : ConnId} (h : LagPhase d s p) (hn : n = 0)
    (hreceive : (lagging d).environment s (.receive n f)) :
    LagPhase d (s.setConn n ((s.conns n).feed f)) p ∧ (Stage.attempting a p).awaits := by
  subst hn
  cases p with
  | flushing | readingHeader =>
      rcases h with h | ⟨xs, h⟩
      · exact ⟨.inr ⟨f, h.receive rfl hreceive⟩, rfl, by simp⟩
      · exact absurd hreceive h.not_receive
  | readingBody =>
      obtain ⟨-, xs, h⟩ := h
      exact absurd hreceive h.not_receive
  | readingChecksum =>
      obtain ⟨lrc, h⟩ := h
      exact absurd hreceive h.not_receive
  | _ => exact absurd hreceive (Level.not_receive h)

/-! ### The attempts -/

/-- Where a resumption leaves the call. If it does not wait for an answer now, the backlog is
level. -/
def After (d : ℕ) (s : State) (id : CallId) (args : FetchArgs) : Prop :=
  ∃ stage, s.calls id = some ⟨args, stage⟩ ∧ LagCall d s id ⟨args, stage⟩ ∧
    (¬ stage.awaits → Level d s s.transmissions.length)

theorem LagAttempt.after (h : LagAttempt d s id a p) (hline : LagPhase d s p) :
    After d (s.goto id c (.attempting a p)) id c.args := by
  have hline' : LagPhase d (s.goto id c (.attempting a p)) p := hline.congr rfl rfl
  exact ⟨_, Function.update_self .., ⟨h.congr rfl, hline'⟩, fun hp => hline'.level hp⟩

/-- The attempt goes on. -/
theorem LagAttempt.pass (p' : Phase) (h : LagAttempt d s id a p) (hsent : p'.hasSent = p.hasSent)
    (hp' : ∀ wake, p' ≠ .backoff wake) : LagAttempt d s id a p' := by
  refine ⟨h.pos, h.number, fun wake heq => absurd heq (hp' wake), ?_⟩
  rw [Attempt.sent, hsent]
  exact h.sent

/-- The next attempt. -/
theorem LagAttempt.next {wake : ℚ} (h : LagAttempt d s id a (.backoff wake)) :
    LagAttempt d s id (a.next cfg) .interCommandGap :=
  ⟨Nat.succ_le_succ (Nat.zero_le _), Nat.succ_le_succ (h.backoff wake rfl), nofun, h.sent⟩

/-- The transmission, by the call itself. -/
theorem LagAttempt.transmit {deadline : ℚ} (h : LagAttempt d s id a (.draining deadline)) :
    LagAttempt d (s.transmit id c a) id a .flushing := by
  have howners : (s.transmit id c a).owners = s.owners ++ [id] := by
    rw [State.owners, State.transmit_transmissions, List.map_append]
    rfl
  have hnumber : a.sent .flushing = a.sent (.draining deadline) + 1 :=
    (Nat.sub_add_cancel h.pos).symm
  obtain ⟨front, hfront, hid⟩ := h.sent
  refine ⟨h.pos, h.number, fun wake hwake => ?_, front, ?_, hid⟩
  · cases hwake
  · rw [howners, hfront, hnumber, List.replicate_succ', List.append_assoc]

/-- The transmission makes one more answer due, namely the oldest of those outstanding. -/
theorem Level.transmit (h : Level d s s.transmissions.length) :
    LagPhase d (s.transmit id c a) .flushing := by
  obtain ⟨frames, hlen, hanswered, hholds⟩ := h
  have htx : (s.transmit id c a).transmissions = s.transmissions ++ [s.txNow id c a] :=
    State.transmit_transmissions ..
  refine .inl ⟨frames, ?_, hanswered.mono _ rfl htx, hholds⟩
  rw [htx, List.length_append, List.length_singleton, Nat.add_sub_cancel]
  exact hlen

/-- The transmissions of the call in an attempt that has sent. -/
theorem LagAttempt.exists_front (h : LagAttempt d s id a p) (hsent : p.hasSent = true) :
    ∃ front, s.owners = front ++ List.replicate a.number id ∧ id ∉ front ∧
      front.length + a.number = s.transmissions.length := by
  obtain ⟨front, hfront, hid⟩ := h.sent
  rw [Attempt.sent, if_pos hsent] at hfront
  have hlen := congrArg List.length hfront
  rw [State.owners, List.length_map, List.length_append, List.length_replicate] at hlen
  exact ⟨front, hfront, hid, hlen.symm⟩

/-- A failed attempt that is not the last one. -/
theorem LagAttempt.retryOr {e : PyExc} (h : LagAttempt d s id a p) (hsent : p.hasSent = true)
    (hd : d < cfg.maxRetries) (hnumber : a.number ≤ d)
    (hlevel : Level d s s.transmissions.length) :
    After d (s.retryOr cfg id c a e) id c.args := by
  rw [State.retryOr, if_pos (by omega)]
  refine LagAttempt.after ⟨h.pos, h.number, fun _ _ => hnumber, ?_⟩ hlevel
  have hsame : a.sent (.backoff (s.clock + a.retryDelay)) = a.sent p := by
    rw [Attempt.sent, Attempt.sent, hsent]
    rfl
  rw [hsame]
  exact h.sent

/-- An attempt that times out, before the first answer arrives. There is another one. -/
theorem LagAttempt.timeout {e : PyExc} (h : LagAttempt d s id a p) (hsent : p.hasSent = true)
    (hd : d < cfg.maxRetries) (hearly : s.transmissions.length ≤ d)
    (hlevel : Level d s (s.transmissions.length - 1)) :
    After d (s.retryOr cfg id c a e) id c.args := by
  obtain ⟨frames, hlen, hanswered, hholds⟩ := hlevel
  obtain ⟨front, -, -, hnumber⟩ := h.exists_front hsent
  refine h.retryOr hsent hd (by omega) ⟨frames, ?_, hanswered, hholds⟩
  omega

/-- **At its last attempt the answer is to the call's own message**: the one that is due answers
the first of its `d + 1` transmissions. -/
theorem LagAttempt.own (h : LagAttempt d s id a p) (hsent : p.hasSent = true)
    (hnumber : a.number = d + 1) {k : ℕ} {t : Tx} (hk : k + 1 + d = s.transmissions.length)
    (ht : s.transmissions[k]? = some t) : t.call = id := by
  obtain ⟨front, hfront, -, hlen⟩ := h.exists_front hsent
  obtain rfl : k = front.length := by omega
  have howner : s.owners[front.length]? = some t.call := by
    rw [State.owners, List.getElem?_map, ht]
    rfl
  rw [hfront, List.getElem?_append_right le_rfl, Nat.sub_self, hnumber,
    List.replicate_succ] at howner
  exact (Option.some.inj howner).symm

/-- An answer that is not accepted is not the last one that the call will get, because the last
one is its own. -/
theorem LagAttempt.number_le (h : LagAttempt d s id a p) (hsent : p.hasSent = true)
    (hlog : LogInv cfg s) (hc : s.calls id = some c) (hm : c.args.Matched) {k : ℕ} {t : Tx}
    (hk : k + 1 + d = s.transmissions.length) (ht : s.transmissions[k]? = some t)
    (hf : Answers t.message f)
    (haccepts : acceptsResponse c.args.expectedCommand c.args.expectedSubcommand f ≠ true) :
    a.number ≤ d := by
  by_contra hlt
  have hnumber : a.number = d + 1 := by
    have := h.number
    omega
  have hown := h.own hsent hnumber hk ht
  obtain ⟨c', hc', hmessage, -⟩ := hlog.args t (List.mem_of_getElem? ht)
  rw [hown] at hc'
  obtain rfl := Option.some.inj (hc.symm.trans hc')
  exact haccepts (accepts_of_answers hm (hmessage ▸ hf))

/-- The last byte of an answer. -/
theorem Pending.level {lrc : UInt8} (h : Pending d s response [lrc]) (hs' : s'.conns 0 =
    (s.conns 0).consume 1) (htx : s'.transmissions = s.transmissions) :
    Level d s' s'.transmissions.length := by
  obtain ⟨frames, hlen, hanswered, hholds⟩ := h
  have hrest : (s.conns 0).Holds ([lrc] ++ []) := hholds
  refine ⟨_, ?_, hanswered.mono [] (by rw [hs']; rfl) (by rw [htx, List.append_nil]), ?_⟩
  · rw [htx, List.length_append, List.length_singleton]
    omega
  · rw [hs']
    exact hrest.consume

/-- The transmission that is answered. -/
theorem Pending.exists_answered (h : Pending d s response xs) :
    ∃ (k : ℕ) (t : Tx), k + 1 + d = s.transmissions.length ∧ s.transmissions[k]? = some t ∧
      Answers t.message (response ++ xs) := by
  obtain ⟨frames, hlen, hanswered, -⟩ := h
  obtain ⟨t, ht, hf⟩ := hanswered.answers frames.length _ List.getElem?_concat_length
  exact ⟨_, t, hlen, ht, hf⟩

/-- The call has its answer, and the connection is idle again. -/
theorem LagAttempt.finish (h : LagAttempt d s id a p) (hsent : p.hasSent = true)
    (hlate : d < s.transmissions.length) (hcodes : responseCodes f = responseCodes c.args.message)
    (hlevel : Level d s s.transmissions.length) :
    After d (s.finish id c (.ok f)) id c.args := by
  obtain ⟨front, hfront, hid, -⟩ := h.exists_front hsent
  have hcount : s.owners.count id = a.number := by
    rw [hfront, List.count_append, List.count_eq_zero_of_not_mem hid, List.count_replicate_self,
      Nat.zero_add]
  refine ⟨_, Function.update_self .., ⟨⟨f, rfl, hcodes⟩, ?_, hlate⟩, fun _ => hlevel.congr rfl rfl⟩
  change s.owners.count id ≤ d + 1
  rw [hcount]
  exact h.number

/-- **A complete answer is accepted, or the call tries again.** It is not discarded at the last
attempt, where it is its own. -/
theorem LagAttempt.judge {lrc : UInt8} (h : LagAttempt d s id a p) (hsent : p.hasSent = true)
    (hd : d < cfg.maxRetries) (hlog : LogInv cfg s) (hc : s.calls id = some c)
    (hm : c.args.Matched) (hline : Pending d s response [lrc]) :
    After d (((s.setConn 0 ((s.conns 0).consume 1)).complete id).judge cfg id c a
      (response ++ [lrc])) id c.args := by
  let u := (s.setConn 0 ((s.conns 0).consume 1)).complete id
  have htx : u.transmissions = s.transmissions := State.complete_transmissions _ id
  have hconn : u.conns 0 = (s.conns 0).consume 1 := by simp [u]
  have hlevel : Level d u u.transmissions.length := hline.level hconn htx
  have hu : LagAttempt d u id a p := h.congr htx
  obtain ⟨k, t, hk, ht, hf⟩ := hline.exists_answered
  have hvalid : responseChecksumValid (response ++ [lrc]) ≠ false := by
    rw [hf.2.1]
    simp
  rw [State.judge, if_neg hvalid]
  split_ifs with haccepts
  · refine hu.finish hsent ?_ (codes_of_accepts hm haccepts) hlevel
    rw [htx]
    omega
  · exact hu.retryOr hsent hd (h.number_le hsent hlog hc hm hk ht hf haccepts) hlevel

/-! ### Every resumption of an attempt -/

/-- Before the transmission, and in the backoff. -/
theorem after_of_waiting (h : LagAttempt d s id a p) (hline : LagPhase d s p)
    (hp : p = .interCommandGap ∨ (∃ wake, p = .interCommandSleep wake) ∨ p = .wireMinGap ∨
      (∃ wake, p = .wireMinGapSleep wake) ∨ ∃ wake, p = .backoff wake)
    (hs : resumeAttempt cfg s id c a p w = some s') : After d s' id c.args := by
  have pass {p' : Phase} (hp' : p'.hasSent = false) (hsent : p.hasSent = false)
      (hline' : LagPhase d s p') : After d (s.goto id c (.attempting a p')) id c.args := by
    refine (h.pass p' (hp'.trans hsent.symm) fun wake heq => ?_).after hline'
    rw [heq] at hp'
    cases hp'
  obtain rfl | ⟨wake, rfl⟩ | rfl | ⟨wake, rfl⟩ | ⟨wake, rfl⟩ := hp
  · cases w <;> simp only [resumeAttempt, reduceCtorEq] at hs
    cases hwake : s.interCommandWake cfg <;> simp only [hwake, Option.some.injEq] at hs <;>
      exact hs ▸ pass rfl rfl hline
  · cases w <;> simp only [resumeAttempt, reduceCtorEq] at hs
    split_ifs at hs
    cases hs
    exact pass rfl rfl hline
  · cases w <;> simp only [resumeAttempt, reduceCtorEq] at hs
    cases hwake : s.wireMinGapWake c.args <;> simp only [hwake, Option.some.injEq] at hs <;>
      exact hs ▸ pass rfl rfl hline
  · cases w <;> simp only [resumeAttempt, reduceCtorEq] at hs
    split_ifs at hs
    cases hs
    exact pass rfl rfl hline
  · cases w <;> simp only [resumeAttempt, reduceCtorEq] at hs
    split_ifs at hs
    cases hs
    exact h.next.after hline

/-- The drain finds nothing, and the message is sent. A stale frame would be drained here, but
there is none. -/
theorem after_of_draining {deadline : ℚ} (h : LagAttempt d s id a (.draining deadline))
    (hline : LagPhase d s (.draining deadline)) (hconn : a.conn = 0)
    (hs : resumeAttempt cfg s id c a (.draining deadline) w = some s') :
    After d s' id c.args := by
  have hlevel : Level d s s.transmissions.length := hline
  obtain ⟨frames, -, -, hholds⟩ := hlevel
  cases w <;> simp only [resumeAttempt, hconn, hholds.read_eq_none, reduceCtorEq] at hs
  split_ifs at hs
  cases hs
  exact ⟨_, Function.update_self .., ⟨h.transmit, Level.transmit hline⟩,
    fun hp => absurd ⟨rfl, by simp⟩ hp⟩

/-- After the transmission nothing raises but the timeouts before the first answer. -/
theorem early_of_follows (hfail : p.failure (s.conns a.conn) w = some .timeoutError)
    (hp : ∀ deadline, p ≠ .draining deadline)
    (hw : (⟨args, .attempting a p⟩ : Call).Follows s ((lagging d).allowed s) w) :
    s.transmissions.length ≤ d := by
  simp only [Call.Follows, Phase.attemptStep_of_failure hfail, Phase.caught_of_ne hp,
    Outcome.ofException] at hw
  exact hw

/-- The message is written; an answer may have arrived already. -/
theorem after_of_flushing (h : LagAttempt d s id a .flushing) (hline : LagPhase d s .flushing)
    (hd : d < cfg.maxRetries)
    (hw : (⟨args, .attempting a .flushing⟩ : Call).Follows s ((lagging d).allowed s) w)
    (hs : resumeAttempt cfg s id c a .flushing w = some s') : After d s' id c.args := by
  cases w <;> simp only [resumeAttempt, reduceCtorEq, Option.some.injEq] at hs
  case ready =>
    subst hs
    have hnext : LagAttempt d s id a (.readingHeader (s.clock + cfg.headerTimeout)) :=
      h.pass _ rfl (by simp)
    exact hnext.after hline
  case raised e =>
    subst hs
    cases e with
    | timeoutError =>
        have hearly := early_of_follows rfl (by simp) hw
        rcases hline with hline | ⟨xs, frames, hlen, -⟩
        · exact h.timeout rfl hd hearly hline
        · omega
    | _ => exact hw.elim

/-- The first byte. -/
theorem after_of_header {deadline : ℚ} (h : LagAttempt d s id a (.readingHeader deadline))
    (hline : LagPhase d s (.readingHeader deadline)) (hd : d < cfg.maxRetries) (hconn : a.conn = 0)
    (hw : (⟨args, .attempting a (.readingHeader deadline)⟩ : Call).Follows s
      ((lagging d).allowed s) w)
    (hs : resumeAttempt cfg s id c a (.readingHeader deadline) w = some s') :
    After d s' id c.args := by
  rcases hline with hlevel | ⟨xs, hpending⟩
  · -- nothing has arrived
    have hearly (heq : w = .timedOut) : s.transmissions.length ≤ d := by
      subst heq
      exact early_of_follows rfl (by simp) hw
    have hnone : (s.conns 0).readexactly = none := by
      obtain ⟨frames, -, -, hholds⟩ := hlevel
      exact hholds.readexactly_eq_none
    cases w <;> simp only [resumeAttempt, hconn, hnone, reduceCtorEq] at hs
    split_ifs at hs
    cases hs
    exact h.timeout rfl hd (hearly rfl) hlevel
  · -- the answer has arrived
    obtain ⟨k, t, -, -, ⟨b, body, lrc, -, -, hxs⟩, -⟩ := hpending.exists_answered
    obtain rfl : xs = b :: (body ++ [ETX, lrc]) := hxs
    obtain ⟨frames, hlen, hanswered, hholds⟩ := hpending
    have hread := hholds.readexactly_cons
    cases w <;> simp only [resumeAttempt, hconn, hread, reduceCtorEq] at hs
    case ready =>
      cases hs
      have hrest : (s.conns 0).Holds ([b] ++ (body ++ [ETX, lrc])) := hholds
      have hbody : LagPhase d (s.setConn 0 ((s.conns 0).consume 1))
          (.readingBody [b] (s.clock + cfg.bodyTimeout)) := by
        refine ⟨rfl, _, frames, hlen, hanswered.mono [] ?_ (List.append_nil _).symm, ?_⟩
        · simp [Connection.consume]
        · rw [State.setConn_conns, Function.update_self]
          exact hrest.consume
      have hattempt : LagAttempt d (s.setConn 0 ((s.conns 0).consume 1)) id a
          (.readingBody [b] (s.clock + cfg.bodyTimeout)) :=
        (h.pass (.readingBody [b] (s.clock + cfg.bodyTimeout)) rfl (by simp)).congr rfl
      exact hattempt.after hbody
    case timedOut =>
      simp at hs

/-- The body. -/
theorem after_of_body {deadline : ℚ} (h : LagAttempt d s id a (.readingBody response deadline))
    (hline : LagPhase d s (.readingBody response deadline)) (hconn : a.conn = 0)
    (hs : resumeAttempt cfg s id c a (.readingBody response deadline) w = some s') :
    After d s' id c.args := by
  obtain ⟨hone, xs, hpending⟩ := hline
  obtain ⟨k, t, -, -, ⟨b, body, lrc, hbody, hlimit, hxs⟩, -⟩ := hpending.exists_answered
  obtain ⟨b', rfl⟩ := List.length_eq_one_iff.mp hone
  obtain ⟨rfl, rfl⟩ : b' = b ∧ xs = body ++ [ETX, lrc] := by simpa using hxs
  obtain ⟨frames, hlen, hanswered, hholds⟩ := hpending
  have hread := hholds.readuntil_append hbody hlimit
  cases w <;> simp only [resumeAttempt, hconn, hread, reduceCtorEq] at hs
  case ready =>
    cases hs
    have hrest : (s.conns 0).Holds ((body ++ [ETX]) ++ [lrc]) := by
      simpa using hholds
    have hframe : [b'] ++ (body ++ [ETX]) ++ [lrc] = [b'] ++ (body ++ [ETX, lrc]) := by simp
    have hchecksum : LagPhase d (s.setConn 0 ((s.conns 0).consume (body ++ [ETX]).length))
        (.readingChecksum ([b'] ++ (body ++ [ETX])) (s.clock + cfg.checksumTimeout)) := by
      refine ⟨lrc, frames, hlen, ?_, ?_⟩
      · rw [hframe]
        exact hanswered.mono [] (by simp [Connection.consume]) (List.append_nil _).symm
      · rw [State.setConn_conns, Function.update_self]
        exact hrest.consume
    have hattempt : LagAttempt d (s.setConn 0 ((s.conns 0).consume (body ++ [ETX]).length)) id a
        (.readingChecksum ([b'] ++ (body ++ [ETX])) (s.clock + cfg.checksumTimeout)) :=
      (h.pass (.readingChecksum _ (s.clock + cfg.checksumTimeout)) rfl (by simp)).congr rfl
    exact hattempt.after hchecksum
  case timedOut =>
    simp at hs

/-- The last byte. -/
theorem after_of_checksum {deadline : ℚ}
    (h : LagAttempt d s id a (.readingChecksum response deadline))
    (hline : LagPhase d s (.readingChecksum response deadline)) (hconn : a.conn = 0)
    (hd : d < cfg.maxRetries) (hlog : LogInv cfg s) (hc : s.calls id = some c)
    (hm : c.args.Matched)
    (hs : resumeAttempt cfg s id c a (.readingChecksum response deadline) w = some s') :
    After d s' id c.args := by
  obtain ⟨lrc, hpending⟩ := hline
  have hread : (s.conns 0).readexactly = some (.ok lrc, (s.conns 0).consume 1) := by
    obtain ⟨frames, -, -, hholds⟩ := hpending
    exact hholds.readexactly_cons
  cases w <;> simp only [resumeAttempt, hconn, hread, reduceCtorEq] at hs
  case ready =>
    cases hs
    exact h.judge rfl hd hlog hc hm hpending
  case timedOut =>
    simp at hs

/-- **Every resumption of an attempt keeps the call on its way to its answer**, by the cases of
its phase. -/
theorem after_of_resumeAttempt (h : LagAttempt d s id a p) (hline : LagPhase d s p)
    (hconn : a.conn = 0) (hd : d < cfg.maxRetries) (hlog : LogInv cfg s)
    (hc : s.calls id = some c) (hm : c.args.Matched)
    (hw : (⟨args, .attempting a p⟩ : Call).Follows s ((lagging d).allowed s) w)
    (hs : resumeAttempt cfg s id c a p w = some s') : After d s' id c.args := by
  cases p with
  | draining => exact after_of_draining h hline hconn hs
  | flushing => exact after_of_flushing h hline hd hw hs
  | readingHeader => exact after_of_header h hline hd hconn hw hs
  | readingBody => exact after_of_body h hline hconn hs
  | readingChecksum => exact after_of_checksum h hline hconn hd hlog hc hm hs
  | _ => exact after_of_waiting h hline (by simp) hs

end IoBoard
