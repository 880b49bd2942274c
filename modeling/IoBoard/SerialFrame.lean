import IoBoard.IoTypes
import IoBoard.Lib.Ascii
import IoBoard.Lib.Framing

/-!
# Frames on the Serial Line

The pure part of `serial_io.py`: the two light checks that `fetch` makes on a complete
response (`responseCodes`, `responseChecksumValid`), and the three read stages of
`_fetch_with_timeout` as a function on the bytes that are available (`readFrame`).

## The frame

A frame is `[STX][CMD][SUBCMD][DATA…][ETX][LRC]`, with two characters for each of the
codes. The readers find the end of a frame by its first ETX after the STX, so DATA never
contains an ETX. The LRC is the exclusive or of everything from CMD through ETX, the ETX
included, and is the one byte behind it; it may have any value, that of an ETX too.

## Two levels of checking

`fetch` decides whether a response is an answer to its request, and tries again if not;
for that it looks at the marks, the checksum and the codes, and at nothing in DATA. The
full parser of `IoBoard.Protocol` comes later, once per call and outside the retries.
The two agree on the checksum, but neither includes the other: a frame may pass here and
have data that the parser refuses.

`readFrame` does not check anything. The first byte of what it returns need not be an STX,
and the frame may be short; such a frame is then refused by `acceptsResponse`. In the
model of the running system (`IoBoard.SerialIo`) the three stages are three suspensions,
with other calls and arriving bytes between them; `IoBoard.FrameReader` connects the two.

## Main results

* `responseChecksumValid_iff`: the frames that pass the checksum test.
* `responseCodes_eq_some_iff`: the frames whose header can be read, and what it says.
* `readFrame_eq_some_iff`: what the three stages return, and what they leave.
-/

open Ascii Framing

namespace IoBoard

/-- Start of text. -/
def STX : UInt8 := 0x02

/-- End of text. -/
def ETX : UInt8 := 0x03

/-- `_MIN_FRAME_LENGTH`: STX, four code bytes, ETX and LRC; the frame of an acknowledgement
without data. -/
def minFrameLength : ℕ := 7

/-- `_RESPONSE_FRAME_LENGTHS`: the length of a complete response by its codes. The source
reads the table for its diagnostics only; that it agrees with the parser is a theorem of
`IoBoard.Protocol`. -/
def responseFrameLengths : List ((Str × Str) × ℕ) :=
  [((['M', 'C'], ['P', 'D']), 7), ((['M', 'C'], ['D', 'C']), 8),
    ((['M', 'C'], ['L', 'Z']), 7), ((['M', 'C'], ['W', 'P']), 18),
    ((['M', 'C'], ['E', 'Z']), 7), ((['M', 'C'], ['R', 'T']), 7),
    ((['R', 'Q'], ['M', 'I']), 20), ((['R', 'Q'], ['I', 'W']), 67),
    ((['R', 'Q'], ['I', 'D']), 19), ((['R', 'Q'], ['E', 'R']), 23)]

/-- `_response_codes`: the CMD and SUBCMD of a frame, if its header can be read. A header that
is no ASCII has no codes, where a decoding with replacement would have had some. -/
def responseCodes (response : Bytes) : Option (Str × Str) :=
  if response.length < 5 ∨ response.take 1 ≠ [STX] then none
  else do
    let cmd ← decodeAscii ((response.drop 1).take 2)
    let subcmd ← decodeAscii ((response.drop 3).take 2)
    pure (cmd, subcmd)

/-- `_xor_checksum`, the loop of the source as a fold. -/
def xorChecksum (data : Bytes) : UInt8 :=
  xorSum data

/-- `_response_checksum_valid`: STX in front, ETX at the last position but one, and the
last byte equal to the exclusive or of everything between. -/
def responseChecksumValid (response : Bytes) : Bool :=
  if response.length < minFrameLength ∨ response.take 1 ≠ [STX] ∨
      response.dropLast.getLast? ≠ some ETX then false
  else decide (some (xorChecksum (response.drop 1).dropLast) = response.getLast?)

/-- The test of `fetch` on a complete response: the checksum, and the codes where the caller
expects some. A frame that fails it is what the source calls a mismatch, and is tried
again within the budget of the call. -/
def acceptsResponse (expectedCommand expectedSubcommand : Option Str) (response : Bytes) :
    Bool :=
  responseChecksumValid response &&
    match expectedCommand, expectedSubcommand with
    | some cmd, some subcmd => decide (responseCodes response = some (cmd, subcmd))
    | _, _ => true

/-- The three read stages of `_fetch_with_timeout` on the bytes of a stream: one byte, up
to and including the next ETX, one byte. `none` when a stage has to wait for more. -/
def readFrame : Bytes → Option (Bytes × Bytes)
  | [] => none
  | b :: bs => do
      let (body, rest) ← readUntil ETX bs
      match rest with
      | [] => none
      | lrc :: rest => pure (b :: body ++ [lrc], rest)

/-! ### The shape of accepted frames -/

/-- **The frames that pass the checksum test**: STX, at least four bytes, ETX, and the
exclusive or of everything from CMD through ETX. -/
theorem responseChecksumValid_iff {response : Bytes} :
    responseChecksumValid response = true ↔
      ∃ body, response = STX :: body ++ [ETX, xorSum (body ++ [ETX])] ∧
        4 ≤ body.length := by
  constructor
  · intro h
    rw [responseChecksumValid] at h
    split at h
    · exact absurd h (by simp)
    · rename_i hshape
      push Not at hshape
      obtain ⟨hlen, hstx, hetx⟩ := hshape
      rw [minFrameLength] at hlen
      -- peel the LRC, the ETX and the STX off
      obtain ⟨front, lrc, rfl⟩ : ∃ front lrc, response = front ++ [lrc] := by
        rcases response.eq_nil_or_concat with rfl | ⟨front, lrc, rfl⟩
        · simp at hlen
        · exact ⟨front, lrc, by simp⟩
      rw [List.dropLast_concat] at hetx
      obtain ⟨front, rfl⟩ : ∃ front', front = front' ++ [ETX] := by
        obtain ⟨front', hfront⟩ := List.getLast?_eq_some_iff.mp hetx
        exact ⟨front', hfront⟩
      cases front with
      | nil => simp at hlen
      | cons stx body =>
          obtain rfl : stx = STX := by simpa using hstx
          refine ⟨body, ?_, by simp at hlen; omega⟩
          have hx : xorSum (body ++ [ETX]) = lrc := by
            have h' := of_decide_eq_true h
            rw [List.getLast?_append, List.getLast?_singleton] at h'
            simpa [xorChecksum, List.dropLast_append_of_ne_nil] using h'
          simp [hx]
  · rintro ⟨body, rfl, hlen⟩
    have hsplit : STX :: body ++ [ETX, xorSum (body ++ [ETX])] =
        (STX :: (body ++ [ETX])) ++ [xorSum (body ++ [ETX])] := by simp
    rw [responseChecksumValid, hsplit, if_neg]
    · rw [decide_eq_true_iff, List.getLast?_concat]
      simp only [List.cons_append, List.drop_succ_cons, List.drop_zero, List.dropLast_concat,
        xorChecksum]
    · push Not
      refine ⟨?_, rfl, ?_⟩
      · simp only [minFrameLength, List.length_append, List.length_cons, List.length_nil]
        omega
      · rw [List.dropLast_concat, ← List.cons_append, List.getLast?_concat]

/-- **The frames whose header can be read**: STX, and behind it two codes of two ASCII
characters each. -/
theorem responseCodes_eq_some_iff {response : Bytes} {cmd subcmd : Str} :
    responseCodes response = some (cmd, subcmd) ↔
      ∃ c₁ c₂ c₃ c₄ rest, response = STX :: c₁ :: c₂ :: c₃ :: c₄ :: rest ∧
        decodeAscii [c₁, c₂] = some cmd ∧ decodeAscii [c₃, c₄] = some subcmd := by
  constructor
  · intro h
    rw [responseCodes] at h
    split at h
    · exact absurd h (by simp)
    · rename_i hshape
      push Not at hshape
      obtain ⟨hlen, hstx⟩ := hshape
      match response with
      | stx :: c₁ :: c₂ :: c₃ :: c₄ :: rest =>
          obtain rfl : stx = STX := by simpa using hstx
          simp only [List.drop_succ_cons, List.drop_zero, List.take_succ_cons, List.take_zero,
            bind, Option.bind_eq_some_iff, pure, Option.some.injEq, Prod.mk.injEq] at h
          obtain ⟨cmd', hcmd, subcmd', hsub, rfl, rfl⟩ := h
          exact ⟨c₁, c₂, c₃, c₄, rest, rfl, hcmd, hsub⟩
      | [] | [_] | [_, _] | [_, _, _] | [_, _, _, _] => simp at hlen
  · rintro ⟨c₁, c₂, c₃, c₄, rest, rfl, hcmd, hsub⟩
    rw [responseCodes, if_neg (by simp)]
    simp [hcmd, hsub]

/-! ### The three read stages -/

/-- **What the three stages return**: the shortest prefix that ends one byte behind an
ETX after its first byte. -/
theorem readFrame_eq_some_iff {xs response rest : Bytes} :
    readFrame xs = some (response, rest) ↔
      ∃ b body lrc, ETX ∉ body ∧ response = b :: body ++ [ETX, lrc] ∧
        xs = b :: body ++ ETX :: lrc :: rest := by
  cases xs with
  | nil => simp [readFrame]
  | cons x xs =>
      simp only [readFrame, bind, Option.bind_eq_some_iff]
      constructor
      · rintro ⟨⟨p, r⟩, hread, h⟩
        obtain ⟨q, hq, rfl, rfl⟩ := readUntil_eq_some_iff.mp hread
        cases r with
        | nil => simp at h
        | cons lrc r =>
            obtain ⟨rfl, rfl⟩ : x :: (q ++ [ETX]) ++ [lrc] = response ∧ r = rest := by
              simpa using h
            exact ⟨x, q, lrc, hq, by simp, by simp⟩
      · rintro ⟨b, body, lrc, hbody, rfl, hxs⟩
        obtain ⟨rfl, rfl⟩ : x = b ∧ xs = body ++ ETX :: lrc :: rest := by simpa using hxs
        exact ⟨_, readUntil_append hbody _, by simp⟩

/-- A separator that one part does not contain stands at its end: two decompositions of a
stream at a separator are the same if the shorter part of one is free of it. -/
theorem eq_of_append_cons_eq {p q : Bytes} {x y : UInt8} {back : Bytes} (hp : ETX ∉ p)
    (h : p ++ [ETX, x] = q ++ ETX :: y :: back) : p = q ∧ x = y ∧ back = [] := by
  rcases List.append_eq_append_iff.mp h with ⟨more, rfl, hmore⟩ | ⟨more, rfl, hmore⟩
  · have hlen := congrArg List.length hmore
    simp only [List.length_append, List.length_cons, List.length_nil] at hlen
    obtain rfl : more = [] := List.length_eq_zero_iff.mp (by omega)
    obtain ⟨rfl, rfl⟩ : x = y ∧ back = [] := by simpa [eq_comm] using hmore
    exact ⟨(List.append_nil p).symm, rfl, rfl⟩
  · cases more with
    | nil =>
        obtain ⟨rfl, rfl⟩ : y = x ∧ back = [] := by simpa using hmore
        exact ⟨List.append_nil q, rfl, rfl⟩
    | cons z more =>
        obtain ⟨rfl, -⟩ : ETX = z ∧ _ := by simpa using hmore
        exact absurd (List.mem_append_right q (List.mem_cons_self ..)) hp

/-- What the stages return and what they leave make up the stream. -/
theorem append_of_readFrame {xs response rest : Bytes}
    (h : readFrame xs = some (response, rest)) : response ++ rest = xs := by
  obtain ⟨b, body, lrc, -, rfl, rfl⟩ := readFrame_eq_some_iff.mp h
  simp

end IoBoard
