import IoBoard.Commands
import IoBoard.SerialSafety

/-!
# The Two Validators of a Frame

A response is judged twice: `fetch` reads it in three stages and makes a light check of its
markers, its exclusive or and its codes, and retries when the check fails; `parse_response`
then holds it against the schema, and its failure is final. Both come down to the shape
`Command.frame c payload`, and they differ in what they ask of the payload.

## What the difference is

The readers take everything up to the first ETX behind the first byte as one frame, so to
`fetch` a payload is any stretch without an ETX. The schema wants the length of the command
and, but for the deadbolt byte, ASCII. A frame that passes the first and fails the second
has the right marks, checksum and codes around the wrong data. The simplest such frame is
the echo of a request: it has the codes of the expected answer and no data, and is accepted
by `fetch` for every command whose answer has data (`not_parse_of_fetch`).

## What a single altered byte does

Replacing one byte of a valid frame can move its end: a byte that becomes an ETX cuts the
frame short, and an ETX that is lost makes the reader wait for the next one. Between the
marks it breaks the exclusive or. `receive_altered` goes through these cases and needs both
validators: where the frame is cut behind a byte that happens to be the right checksum, only
the length that the schema wants is in the way.

## Main results

* `accepts_command_iff`: the frames that `fetch` accepts for a command.
* `parseResponse_frame_iff`: which of them `parse_response` parses.
* `receive_frame`, `receive_altered`: a valid frame is decoded, and **no frame with a single
  altered byte is**.
* `parse_of_fetch_iff`: **when a frame that `fetch` returns is parsed**.
-/

open Ascii Construct Framing Runs

namespace IoBoard

/-- The frame of a command with the given payload: the marks, the codes and the right checksum. -/
def Command.frame (c : Command) (payload : Bytes) : Bytes :=
  STX :: c.codes ++ payload ++ [ETX, xorSum (c.codes ++ payload ++ [ETX])]

/-- The codes contain no frame marker. -/
theorem Command.etx_not_mem_codes (c : Command) : ETX ∉ c.codes := by
  cases c with
  | managementControl sub => cases sub <;> decide
  | request sub => cases sub <;> decide

/-- A frame is as long as its payload and the seven bytes around it. -/
theorem Command.length_frame (c : Command) (payload : Bytes) :
    (c.frame payload).length = payload.length + 7 := by
  simp only [Command.frame, List.length_append, List.length_cons, c.length_codes_eq,
    List.length_nil]
  omega

/-- The reader cuts a frame without an ETX in its payload off the line. -/
theorem readFrame_frame (c : Command) {payload : Bytes} (hetx : ETX ∉ payload) (rest : Bytes) :
    readFrame (c.frame payload ++ rest) = some (c.frame payload, rest) := by
  have hbody : ETX ∉ c.codes ++ payload := by
    rw [List.mem_append]
    exact not_or.mpr ⟨c.etx_not_mem_codes, hetx⟩
  exact readFrame_eq_some_iff.mpr ⟨STX, c.codes ++ payload, xorSum (c.codes ++ payload ++ [ETX]),
    hbody, by simp only [Command.frame, List.cons_append],
    by simp only [Command.frame, List.cons_append, List.append_assoc, List.nil_append]⟩

/-- The check byte makes the exclusive or of every frame the same, whatever its payload; two
frames of different payloads therefore differ in more than one byte. -/
theorem Command.xorSum_frame (c : Command) (payload : Bytes) :
    xorSum (c.frame payload) = STX := by
  have hsplit : c.frame payload =
      STX :: (c.codes ++ payload ++ [ETX]) ++ [xorSum (c.codes ++ payload ++ [ETX])] := by
    simp [Command.frame]
  rw [hsplit, xorSum_append, xorSum_cons, xorSum_cons, xorSum_nil, UInt8.xor_zero,
    UInt8.xor_assoc, UInt8.xor_self, UInt8.xor_zero]

/-! ### What the two validators accept -/

/-- **The frames that `fetch` accepts for a command**, among those it can read: the payload is
anything without an ETX. -/
theorem accepts_command_iff {c : Command} {line frame rest : Bytes}
    (hread : readFrame line = some (frame, rest)) :
    acceptsResponse (some c.cmd) (some c.subcmd) frame = true ↔
      ∃ payload, ETX ∉ payload ∧ frame = c.frame payload := by
  obtain ⟨b, body, lrc, hbody, rfl, -⟩ := readFrame_eq_some_iff.mp hread
  rw [acceptsResponse, Bool.and_eq_true, decide_eq_true_eq, responseChecksumValid_iff,
    responseCodes_eq_command_iff]
  constructor
  · rintro ⟨⟨body', hframe, h4⟩, tail, htail⟩
    have hbody' : b :: body = STX :: body' ∧ [ETX, lrc] = [ETX, xorSum (body' ++ [ETX])] :=
      List.append_inj' hframe rfl
    obtain ⟨⟨rfl, rfl⟩, hlrc⟩ : (b = STX ∧ body = body') ∧ _ := by simpa using hbody'
    -- the codes are the first four bytes of the body
    have hcodes : ∃ payload, body = c.codes ++ payload := by
      have hprefix : c.codes ++ tail = body ++ [ETX, lrc] := by simpa using htail.symm
      rcases List.append_eq_append_iff.mp hprefix with ⟨payload, hbody, -⟩ | ⟨more, hcodes, -⟩
      · exact ⟨payload, hbody⟩
      · have hlen := congrArg List.length hcodes
        rw [List.length_append, c.length_codes_eq] at hlen
        obtain rfl : more = [] := List.length_eq_zero_iff.mp (by omega)
        exact ⟨[], by rw [hcodes, List.append_nil, List.append_nil]⟩
    obtain ⟨payload, rfl⟩ := hcodes
    refine ⟨payload, fun hmem => hbody (List.mem_append_right _ hmem), ?_⟩
    rw [hframe, Command.frame]
    simp
  · rintro ⟨payload, -, hframe⟩
    have h4 : 4 ≤ (c.codes ++ payload).length := by
      rw [List.length_append, c.length_codes_eq]
      omega
    rw [hframe]
    exact ⟨⟨c.codes ++ payload, by simp [Command.frame], h4⟩, _, by
      rw [Command.frame, List.append_assoc]⟩

/-- **The accepted frames that `parse_response` parses**: the payload has the length of the
schema, and is ASCII except for the deadbolt byte. -/
theorem parseResponse_frame_iff {c : Command} {payload : Bytes} (h : ETX ∉ payload) :
    (∃ r, parseResponse (c.frame payload) = .ok r) ↔
      payload.length = payloadLength c.key ∧
        (c.key = "MCDC".toList ∨ ∀ b ∈ payload, b < 128) := by
  rw [← exists_payload_iff]
  constructor
  · rintro ⟨r, hr⟩
    rw [Command.frame, List.append_assoc, parseResponse_command_iff] at hr
    obtain ⟨-, -, payload', back, htail, hp⟩ := hr
    obtain ⟨rfl, -⟩ := eq_of_append_cons_eq h htail
    exact ⟨r.data, hp⟩
  · rintro ⟨data, hp⟩
    refine ⟨⟨c.cmd, c.subcmd, data⟩, ?_⟩
    rw [Command.frame, List.append_assoc, parseResponse_command_iff]
    exact ⟨rfl, rfl, payload, [], rfl, hp⟩

/-! ### Altered bytes -/

/-- One attempt on the bytes of a line: the three stages of `_fetch_with_timeout`, the
checksum and code check of `fetch`, and `parse_response`. -/
def receive (c : Command) (line : Bytes) : Option Response :=
  match readFrame line with
  | none => none
  | some (frame, _) =>
      if acceptsResponse (some c.cmd) (some c.subcmd) frame then (parseResponse frame).toOption
      else none

/-- What an attempt decodes is a frame of its command with a payload of the right length, at
the front of the line. -/
theorem receive_eq_some {c : Command} {line : Bytes} {r : Response}
    (h : receive c line = some r) : ∃ payload rest, line = c.frame payload ++ rest ∧
      payload.length = payloadLength c.key := by
  rw [receive] at h
  cases hread : readFrame line with
  | none => simp only [hread, reduceCtorEq] at h
  | some p =>
      obtain ⟨frame, rest⟩ := p
      simp only [hread] at h
      split at h
      · rename_i haccepts
        obtain ⟨payload, hetx, rfl⟩ := (accepts_command_iff hread).mp haccepts
        have hparse : ∃ r, parseResponse (c.frame payload) = .ok r := by
          cases hp : parseResponse (c.frame payload) with
          | error e => simp [hp, Except.toOption] at h
          | ok r => exact ⟨r, rfl⟩
        exact ⟨payload, rest, (append_of_readFrame hread).symm,
          ((parseResponse_frame_iff hetx).mp hparse).1⟩
      · cases h

/-- **No single altered byte is decoded.** A valid response frame of a command, with any one
byte replaced by another and followed by anything, yields no response: the reader keeps
waiting, or the frame it reads fails one of the checks, or the schema rejects it. -/
theorem receive_altered {c : Command} {payload : Bytes}
    (hlen : payload.length = payloadLength c.key) {i : ℕ} (hi : i < (c.frame payload).length)
    {b : UInt8} (hb : b ≠ (c.frame payload)[i]) (rest : Bytes) :
    receive c ((c.frame payload).set i b ++ rest) = none := by
  by_contra hne
  obtain ⟨r, hr⟩ := Option.ne_none_iff_exists'.mp hne
  obtain ⟨payload', rest', hline, hlen'⟩ := receive_eq_some hr
  -- the frame that was decoded is as long as the altered one, so it is the altered one
  obtain ⟨hframe, -⟩ := List.append_inj hline (by
    rw [List.length_set, c.length_frame, c.length_frame, hlen, hlen'])
  -- but the exclusive or of all frames is the same, and the altered byte changes it
  have hxor : xorSum ((c.frame payload).set i b) = xorSum (c.frame payload) := by
    rw [hframe, c.xorSum_frame, c.xorSum_frame]
  have hsplit : c.frame payload = (c.frame payload).take i ++
      (c.frame payload)[i] :: (c.frame payload).drop (i + 1) := by
    rw [List.getElem_cons_drop, List.take_append_drop]
  rw [List.set_eq_take_append_cons_drop, if_pos hi] at hxor
  nth_rewrite 3 [hsplit] at hxor
  exact hb (xorSum_insert_eq_iff.mp hxor)

/-- A payload byte of an RQID answer turned into an ETX. -/
theorem receive_altered_etx :
    receive (.request .ioStatus)
      (((Command.request .ioStatus).frame (List.replicate 12 48)).set 7 ETX ++ [STX]) = none :=
  receive_altered (by decide) (by decide) (by decide) [STX]

/-- An unaltered valid frame is decoded. -/
theorem receive_frame {c : Command} {payload : Bytes}
    (hlen : payload.length = payloadLength c.key) (hetx : ETX ∉ payload)
    (hascii : ∀ b ∈ payload, b < 128) (rest : Bytes) :
    ∃ r, receive c (c.frame payload ++ rest) = some r := by
  have hread := readFrame_frame c hetx rest
  have haccepts := (accepts_command_iff hread).mpr ⟨payload, hetx, rfl⟩
  obtain ⟨r, hr⟩ := (parseResponse_frame_iff hetx).mpr ⟨hlen, .inr hascii⟩
  refine ⟨r, ?_⟩
  rw [receive, hread]
  simp only [haccepts, if_true, hr, Except.toOption]

/-! ### Frames that `fetch` returns -/

/-- What a call has read has the shape of the three stages: one byte, a stretch that ends in its
only ETX, one byte. -/
def Shaped : Stage → Prop
  | .attempting _ (.readingBody response _) => ∃ b, response = [b]
  | .attempting _ (.readingChecksum response _) =>
      ∃ b body, ETX ∉ body ∧ response = b :: body ++ [ETX]
  | .finished (.ok frame) => ∃ b body lrc, ETX ∉ body ∧ frame = b :: body ++ [ETX, lrc]
  | _ => True

variable {cfg : SerialModel} {s s' : State} {id : CallId} {call : Call} {stage stage' : Stage}

/-- The resumed call keeps the shape of what it has read. -/
theorem Shaped.resumed (h : Shaped stage)
    (hr : Resumed cfg s id call stage stage' s') : Shaped stage' := by
  cases hr with
  | moved hm => cases hm <;> trivial
  | read _ hread =>
      cases hread with
      | drained => trivial
      | header => exact ⟨_, rfl⟩
      | body hb =>
          obtain ⟨b, rfl⟩ := h
          obtain ⟨body, hbody, rfl, -⟩ := readUntil_eq_some_iff.mp hb
          exact ⟨b, body, hbody, rfl⟩
  | @accepted _ _ _ lrc =>
      obtain ⟨b, body, hbody, rfl⟩ := h
      exact ⟨b, body, lrc, hbody, by simp⟩
  | _ => trivial

/-- Every frame of a run has the shape of the three stages. -/
theorem shaped_of_reachable (h : Reachable cfg s) :
    ∀ id call, s.calls id = some call → Shaped call.stage := by
  refine h.invariant (P := fun s => ∀ id call, s.calls id = some call → Shaped call.stage)
    forall_calls_start fun t _ t' ih _ ht => ?_
  cases stepped_of_step ht with
  | called | cancelledWaiting | cancelled =>
      exact forall_calls_update trivial fun j d _ hj => ih j d hj
  | @resumed id _ c stage' _ hc hr =>
      rw [hr.calls_eq]
      exact forall_calls_update (Shaped.resumed (ih id c hc) hr) fun j d _ hj => ih j d hj
  | ticked | received | closing | lost => exact ih

/-- The line has its first ETX behind the first byte where the schema of the command has it, and
nothing but ASCII in a text payload. Nothing is said of the marks, the codes and the checksum:
`fetch` has checked them. -/
def Decodable (c : Command) (line : Bytes) : Prop :=
  ∃ lead codes payload back, line = lead :: codes ++ payload ++ ETX :: back ∧
    ETX ∉ codes ++ payload ∧ codes.length = 4 ∧ payload.length = payloadLength c.key ∧
    (c.key = "MCDC".toList ∨ ∀ b ∈ payload, b < 128)

/-- Among the frames that `fetch` accepts, those of decodable lines are parsed. The frame and the
line are different things: the line goes on behind the frame. -/
theorem parse_iff_decodable {c : Command} {line frame rest : Bytes}
    (hread : readFrame line = some (frame, rest))
    (ha : acceptsResponse (some c.cmd) (some c.subcmd) frame = true) :
    (∃ r, parseResponse frame = .ok r) ↔ Decodable c line := by
  obtain ⟨payload, hetx, rfl⟩ := (accepts_command_iff hread).mp ha
  have hcodes : ETX ∉ c.codes ++ payload := by
    rw [List.mem_append]
    exact not_or.mpr ⟨c.etx_not_mem_codes, hetx⟩
  have hline := append_of_readFrame hread
  rw [parseResponse_frame_iff hetx]
  constructor
  · rintro ⟨hlen, hascii⟩
    refine ⟨STX, c.codes, payload, xorSum (c.codes ++ payload ++ [ETX]) :: rest, ?_, hcodes,
      c.length_codes_eq, hlen, hascii⟩
    rw [← hline, Command.frame]
    simp only [List.append_assoc, List.cons_append, List.nil_append]
  · rintro ⟨lead, codes, payload', back, hline', hetx', hlen, hlen', hascii⟩
    -- the first ETX of a line is in one place
    have hsame : readUntil ETX (c.codes ++ payload ++
        ETX :: xorSum (c.codes ++ payload ++ [ETX]) :: rest) =
        readUntil ETX (codes ++ payload' ++ ETX :: back) := by
      have htail := hline.trans hline'
      rw [Command.frame] at htail
      have := congrArg List.tail htail
      simpa only [List.cons_append, List.append_assoc, List.tail_cons, List.nil_append]
        using congrArg (readUntil ETX) this
    rw [readUntil_append hcodes, readUntil_append hetx', Option.some.injEq, Prod.mk.injEq,
      List.append_left_inj] at hsame
    obtain ⟨-, rfl⟩ := List.append_inj hsame.1 (c.length_codes_eq.trans hlen.symm)
    exact ⟨hlen', hascii⟩

/-- **When a frame that `fetch` returns is parsed.** The frame is what the three stages read
off the line after the last transmission of the call, and `parse_response` succeeds on it
exactly when that line is decodable. -/
theorem parse_of_fetch_iff {cfg : SerialModel} {s : State} (h : Reachable cfg s)
    {minGap : ℚ} {c : Command} {data : RequestDict} {id : CallId} {call : Call} {frame : Bytes}
    (hc : s.calls id = some call) (hsend : sendCommand minGap c data = .ok call.args)
    (hstage : call.stage = .finished (.ok frame)) :
    ∃ t front line rest, s.lastTx id = some t ∧ (s.conns t.conn).received = front ++ line ∧
      t.mark ≤ front.length ∧ readFrame line = some (frame, rest) ∧
      ((∃ r, parseResponse frame = .ok r) ↔ Decodable c line) := by
  obtain ⟨hcmd, hsub⟩ := sendCommand_expected hsend
  have hshape := shaped_of_reachable h id call hc
  have hframe := frameInv_of_reachable h id call hc
  obtain ⟨args, stage⟩ := call
  subst hstage
  obtain ⟨b, body, lrc, hbody, rfl⟩ := hshape
  obtain ⟨⟨t, ht, front, back, hreceived, hmark⟩, ha⟩ := hframe
  rw [hcmd, hsub] at ha
  have hread : readFrame (b :: body ++ [ETX, lrc] ++ back) =
      some (b :: body ++ [ETX, lrc], back) :=
    readFrame_eq_some_iff.mpr ⟨b, body, lrc, hbody, rfl, by simp⟩
  refine ⟨t, front, _, back, ht, ?_, hmark, hread, parse_iff_decodable hread ha⟩
  rw [hreceived, List.append_assoc]

/-- An RQIW request is answered with its own echo. -/
def echoRun : List Action :=
  [.call 0 rqiwArgs, .resume 0 .ready, .resume 0 .ready, .resume 0 .ready, .resume 0 .ready,
    .resume 0 .ready, .tick (1 / 20), .resume 0 .timedOut, .resume 0 .ready,
    .receive 0 rqiwArgs.message, .resume 0 .ready, .resume 0 .ready, .resume 0 .ready]

theorem echoRun_isSome : (runFrom (step {}) {} echoRun).isSome := by
  decide +kernel

theorem echoRun_calls : ((runFrom (step {}) {} echoRun).get echoRun_isSome).calls 0 =
    some ⟨rqiwArgs, .finished (.ok rqiwArgs.message)⟩ := by
  decide +kernel

/-- The echo of `echoRun` is returned, and parsed exactly if its line is decodable. -/
theorem parse_of_fetch_iff_echoRun :
    ∃ s t front line rest, Reachable {} s ∧ s.lastTx 0 = some t ∧
      (s.conns t.conn).received = front ++ line ∧
      readFrame line = some (rqiwArgs.message, rest) ∧
      ((∃ r, parseResponse rqiwArgs.message = .ok r) ↔
        Decodable (.request .loadcellWeights) line) := by
  obtain ⟨t, front, line, rest, ht, hline, -, hread, hiff⟩ :=
    parse_of_fetch_iff (reaches_get echoRun_isSome) echoRun_calls sendCommand_loadcellWeights rfl
  exact ⟨_, t, front, line, rest, reaches_get echoRun_isSome, ht, hline, hread, hiff⟩

/-- **A returned frame need not parse**: `fetch` accepts the echo of an RQIW request, and
`parse_response` rejects it. -/
theorem not_parse_of_fetch :
    ¬ ∀ (cfg : SerialModel) (s : State) (minGap : ℚ) (c : Command) (data : RequestDict)
      (id : CallId) (call : Call) (frame : Bytes), Reachable cfg s →
      s.calls id = some call → sendCommand minGap c data = .ok call.args →
      call.stage = .finished (.ok frame) → ∃ r, parseResponse frame = .ok r := by
  intro h
  obtain ⟨r, hr⟩ := h {} _ (3 / 4) (.request .loadcellWeights) [] 0 _ rqiwArgs.message
    (reaches_get echoRun_isSome) echoRun_calls sendCommand_loadcellWeights rfl
  have hfails : (parseResponse rqiwArgs.message).toOption = none := by decide +kernel
  rw [hr] at hfails
  cases hfails

end IoBoard
