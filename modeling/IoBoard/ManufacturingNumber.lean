import IoBoard.Lib.CharDatabase
import IoBoard.Validators

/-!
# Manufacturing Numbers

The number that `ManufacturingNumberRequest` accepts, on its way to the board and back: the
validator looks at characters, the request is built in ASCII bytes with zeros as padding, and
the reader looks for a byte. `str.isalnum` knows letters and digits of all scripts, and only
those of ASCII can be sent.

## The three alphabets

* The validator: eleven characters, of which those that are not blanks are letters or digits of
  any script, and there is one at least. The database of characters is a parameter.
* The request: ASCII. A number with another character raises before anything is sent.
* The frame: any byte but ETX in the payload, and no zero at its end, which would be taken for
  padding.

An ASCII letter, digit or blank is neither a control character nor a zero, so for ASCII numbers
the last condition is met by what the validator accepts. That is the whole proof of one direction;
the other one is that a request which is built is ASCII.

A number comes back when the board echoes the request: the reader finds the frame, whatever
follows it in the stream, `fetch` accepts it, and the command returns the number as it was
given. The echo is what the protocol says the board answers.

## Main results

* `buildRequest_writeProductId`: the request for an ASCII number is a frame without padding.
* `ManufacturingNumberRequest.roundTrips_iff`: **an accepted number comes back exactly when it
  is ASCII**.
-/

open Ascii Construct Framing

namespace IoBoard

/-- `ManufacturingNumberRequest`, with what its validation checks as proofs: a value of this
type is a request that has passed. -/
structure ManufacturingNumberRequest (u : CharDatabase) where
  manufacturingNumber : Str
  length : manufacturingNumber.length = 11
  validateAlphanumeric : u.isAlnumText (manufacturingNumber.filter (· ≠ ' ')) = true

/-- `WRITE_PRODUCT_ID`. -/
abbrev writeProductId : Command := .managementControl .writeProductId

/-- The request for a number can be built: 18 bytes whose first ETX behind the STX is the last
but one. When the board echoes it, whatever follows, the reader returns it, the checks of
`fetch` accept it, and `parse_response` and `set_manufacturing_number` return the number. -/
def RoundTrips (number : Str) : Prop :=
  ∃ message, buildRequest writeProductId.cmd writeProductId.subcmd [("PRODUCT_ID", number)] =
      .ok message ∧ message.length = 18 ∧
    (∃ body lrc, ETX ∉ body ∧ message = STX :: body ++ [ETX, lrc]) ∧
    (∀ rest, readFrame (message ++ rest) = some (message, rest)) ∧
    acceptsResponse (some writeProductId.cmd) (some writeProductId.subcmd) message = true ∧
    parseResponse message =
      .ok ⟨writeProductId.cmd, writeProductId.subcmd, .writeProductId number⟩ ∧
    receiveManufacturingNumber number (.ok message) = .ok number

/-! ### Building the request -/

/-- The request for a number of eleven ASCII characters is a frame without padding. -/
theorem buildRequest_writeProductId {number : Str} {bs : Bytes}
    (hbs : decodeAscii bs = some number) (hlen : bs.length = 11) :
    buildRequest writeProductId.cmd writeProductId.subcmd [("PRODUCT_ID", number)] =
      .ok (writeProductId.frame bs) := by
  have hdata : buildRequestData (writeProductId.cmd ++ writeProductId.subcmd)
      [("PRODUCT_ID", number)] = .ok bs :=
    buildPaddedString_of_length hbs hlen
  obtain ⟨cs, ss, hcodes, hcs, hss, hcmd, hsub, -⟩ := decode_codes writeProductId
  rw [buildRequest, RequestProtocol, buildPaddedString_of_length hcmd hcs,
    buildPaddedString_of_length hsub hss]
  simp only [hdata, Bind.bind, Except.bind, Pure.pure, Except.pure]
  rw [Command.frame, hcodes, calculateChecksum]
  simp only [List.cons_append, List.append_assoc, List.nil_append]

/-- What is sent is ASCII: a request with another character is not built. -/
theorem ascii_of_buildRequest {number : Str} {message : Bytes}
    (h : buildRequest writeProductId.cmd writeProductId.subcmd [("PRODUCT_ID", number)] =
      .ok message) : ∀ c ∈ number, c.toNat < 128 := by
  by_contra! hnot
  obtain ⟨c, hc, hge⟩ := hnot
  have hencode : encodeAscii number = none := by
    rw [encodeAscii, if_neg]
    rw [List.all_eq_true]
    intro hall
    exact absurd (of_decide_eq_true (hall c hc)) hge.not_gt
  have hdata : ∃ e, buildRequestData (writeProductId.cmd ++ writeProductId.subcmd)
      [("PRODUCT_ID", number)] = .error (.encode e) := by
    refine ⟨number, ?_⟩
    have hbuild : buildPaddedString (field (field building "DATA") "PRODUCT_ID") 11 number =
        .error (.encode number) := by
      rw [buildPaddedString, hencode]
    exact hbuild
  obtain ⟨e, hdata⟩ := hdata
  obtain ⟨cs, ss, -, hcs, hss, hcmd, hsub, -⟩ := decode_codes writeProductId
  rw [buildRequest, RequestProtocol, buildPaddedString_of_length hcmd hcs,
    buildPaddedString_of_length hsub hss] at h
  simp only [hdata, Bind.bind, Except.bind] at h
  cases h

/-! ### The three alphabets -/

/-- Data without zeros is not stripped. -/
theorem stripNulls_eq_self {bs : Bytes} (h : ∀ b ∈ bs, b ≠ 0) : stripNulls bs = bs := by
  rw [stripNulls, List.dropWhile_eq_self_iff.mpr, List.reverse_reverse]
  intro hpos hzero
  exact h _ (List.mem_reverse.mp (List.getElem_mem hpos)) (of_decide_eq_true hzero)

/-- ASCII letters and digits lie above all control characters. -/
theorem le_toNat_of_isAlphanum {c : Char} (h : c.isAlphanum = true) : 48 ≤ c.toNat := by
  have hlow {d : Char} (hd : 48 ≤ d.toNat) (hc : d.val ≤ c.val) : 48 ≤ c.toNat :=
    hd.trans (UInt32.le_iff_toNat_le.mp hc)
  rcases Bool.or_eq_true_iff.mp h with halpha | hdigit
  · rcases Bool.or_eq_true_iff.mp halpha with hupper | hlower
    · exact hlow (d := 'A') (by decide) (of_decide_eq_true hupper).1
    · exact hlow (d := 'a') (by decide) (of_decide_eq_true (Bool.and_eq_true_iff.mp hlower).1)
  · exact hlow (d := '0') (by decide) (of_decide_eq_true (Bool.and_eq_true_iff.mp hdigit).1)

variable {u : CharDatabase} (request : ManufacturingNumberRequest u)

/-- An ASCII character of an accepted number is a space, a letter or a digit. -/
theorem ManufacturingNumberRequest.le_toNat {c : Char} (hc : c ∈ request.manufacturingNumber)
    (hascii : c.toNat < 128) : 32 ≤ c.toNat := by
  by_cases hspace : c = ' '
  · rw [hspace]
    decide
  · have hall := request.validateAlphanumeric
    rw [CharDatabase.isAlnumText, Bool.and_eq_true, List.all_eq_true] at hall
    have halnum := hall.2 c (List.mem_filter.mpr ⟨hc, by simpa using hspace⟩)
    rw [u.isAlnum_ascii c hascii] at halnum
    exact (by norm_num : 32 ≤ 48).trans (le_toNat_of_isAlphanum halnum)

/-- The bytes of an accepted ASCII number: eleven, and none of them a control character. So
there is no marker and no padding among them. -/
theorem ManufacturingNumberRequest.exists_bytes
    (hascii : ∀ c ∈ request.manufacturingNumber, c.toNat < 128) :
    ∃ bs : Bytes, decodeAscii bs = some request.manufacturingNumber ∧ bs.length = 11 ∧
      ∀ b ∈ bs, 32 ≤ b ∧ b < 128 := by
  have hbyte : ∀ c ∈ request.manufacturingNumber, (UInt8.ofNat c.toNat).toNat = c.toNat := by
    intro c hc
    have := hascii c hc
    rw [UInt8.toNat_ofNat']
    omega
  refine ⟨request.manufacturingNumber.map fun c => UInt8.ofNat c.toNat, ?_, ?_, ?_⟩
  · rw [← encodeAscii_eq_some_iff, encodeAscii, if_pos]
    rw [List.all_eq_true]
    exact fun c hc => decide_eq_true (hascii c hc)
  · rw [List.length_map, request.length]
  · intro b hb
    obtain ⟨c, hc, rfl⟩ := List.mem_map.mp hb
    rw [UInt8.le_iff_toNat_le, UInt8.lt_iff_toNat_lt, hbyte c hc]
    exact ⟨request.le_toNat hc (hascii c hc), hascii c hc⟩

/-! ### There and back -/

/-- An accepted ASCII number comes back. -/
theorem ManufacturingNumberRequest.roundTrips
    (hascii : ∀ c ∈ request.manufacturingNumber, c.toNat < 128) :
    RoundTrips request.manufacturingNumber := by
  obtain ⟨bs, hdecode, hlen, hbytes⟩ := request.exists_bytes hascii
  have hetx : ETX ∉ bs := fun hmem => absurd (hbytes ETX hmem).1 (by decide)
  have hbody : ETX ∉ writeProductId.codes ++ bs := by
    rw [List.mem_append]
    exact not_or.mpr ⟨writeProductId.etx_not_mem_codes, hetx⟩
  have hstrip : stripNulls bs = bs := stripNulls_eq_self fun b hb hzero =>
    absurd (hbytes b hb).1 (by rw [hzero]; decide)
  have hread := readFrame_frame writeProductId hetx
  have haccepts := (accepts_command_iff (hread [])).mpr ⟨bs, hetx, rfl⟩
  have hparse : parseResponse (writeProductId.frame bs) = .ok ⟨writeProductId.cmd,
      writeProductId.subcmd, .writeProductId request.manufacturingNumber⟩ := by
    rw [Command.frame, List.append_assoc, parseResponse_command_iff]
    exact ⟨rfl, rfl, bs, [], rfl, .writeProductId hlen (by rw [hstrip, hdecode])⟩
  refine ⟨_, buildRequest_writeProductId hdecode hlen, ?_,
    ⟨writeProductId.codes ++ bs, xorSum (writeProductId.codes ++ bs ++ [ETX]), hbody, ?_⟩,
    hread, haccepts, hparse, ?_⟩
  · rw [Command.length_frame, hlen]
  · simp only [Command.frame, List.cons_append]
  · rw [receiveManufacturingNumber, Except.bind,
      receiveResponse_eq_ok_iff.mpr ⟨hparse, rfl, rfl⟩]
    rfl

/-- **An accepted number comes back exactly when it is ASCII**: other numbers raise when the
request is built. -/
theorem ManufacturingNumberRequest.roundTrips_iff :
    RoundTrips request.manufacturingNumber ↔
      ∀ c ∈ request.manufacturingNumber, c.toNat < 128 := by
  refine ⟨?_, request.roundTrips⟩
  rintro ⟨message, hbuild, -⟩
  exact ascii_of_buildRequest hbuild

/-- **A letter that is not ASCII is accepted and cannot be sent**: a number with the letter `Ä`
in front. -/
theorem not_roundTrips : ¬ ∀ (u : CharDatabase) (request : ManufacturingNumberRequest u),
    RoundTrips request.manufacturingNumber := by
  intro h
  obtain ⟨message, hbuild, -⟩ := h .latin1 ⟨"ÄBC12345678".toList, by decide, by decide +kernel⟩
  exact absurd (ascii_of_buildRequest hbuild 'Ä' (by decide)) (by decide)

end IoBoard
