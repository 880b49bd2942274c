import IoBoard.Protocol

/-!
# The Grammar of Complete Responses

`parse_response` on what `_fetch_with_timeout` returns. On its own the schema of
`ResponseProtocol` looks at no byte behind the checksum; on a message whose first ETX behind
the first byte is its last byte but one there is none, and the length of the message is
settled by its codes. `WellFormed` says so in the words of the light checks of `serial_io`:
its length table has exactly the lengths of the schema.

## Slices against grammar

The schema is a parser, and `IoBoard.Protocol` reads it off as a grammar of payloads. Here the
same is said without either, by offsets: which slices of the message have to be ASCII, which
byte the checksum is, how long the message is, and which slices the fields of the response
are. The two descriptions are independent of each other, and the theorem is that they agree.

A subtle point is padding. The codes are padded strings of two bytes to the schema, so `"M\0"`
is a code too, of one character; put together two codes may give the key of a command in more
than one way. They do not: all keys have four characters (`codes_of_key_iff`). A key that is not
of a command has no data, and its message is seven bytes long, which is what the table says by
default.

## Main results

* `codes_of_key_iff`: the codes with their padding and without.
* `lookup_getD_eq`: the length table and the schema agree for all codes.
* `parseResponse_complete_iff`: **the complete messages that `parse_response` parses, and its
  fields as slices of the message**.
-/

open Ascii Construct Framing

namespace IoBoard

/-- A text field of a message: the characters of a slice without the zeros at its end, if they are
ASCII. -/
def textAt (message : Bytes) (offset width : ℕ) : Option Str :=
  decodeAscii (stripNulls (seekAndRead message offset width))

/-- Text fields in a row, by their lengths and without their padding. -/
def textsAt (message : Bytes) (offset width : ℕ) : ℕ → Option (List Str)
  | 0 => some []
  | count + 1 => do
      let text ← textAt message offset width
      let texts ← textsAt message (offset + width) width count
      pure (text :: texts)

/-- The data of the responses that have some, by their codes: offsets into the message, and
lengths. -/
def dataFields (message : Bytes) : List ((Str × Str) × Option ResponseData) :=
  [(("MC".toList, "DC".toList), (message[5]?).map fun b => .deadboltControl (deadboltEnum b)),
    (("MC".toList, "WP".toList), (textAt message 5 11).map .writeProductId),
    (("RQ".toList, "MI".toList), do
      let productId ← textAt message 5 11
      let swVersion ← textAt message 16 2
      pure (.manufacturingInfo productId swVersion)),
    (("RQ".toList, "IW".toList), (textsAt message 5 6 10).map .loadcellWeights),
    (("RQ".toList, "ID".toList), do
      let door ← textAt message 5 6
      let deadbolt ← textAt message 11 6
      pure (.ioStatus door deadbolt)),
    (("RQ".toList, "ER".toList), (textsAt message 5 4 4).map .errorList)]

/-- The data of a message, as slices of it. -/
def dataAt (message : Bytes) : Option ResponseData :=
  (responseCodes message).bind fun codes =>
    ((dataFields message).lookup codes).getD (some .none)

/-- The length that `_RESPONSE_FRAME_LENGTHS` has for the codes of a message, and that of a frame
without data where it has none. So the codes of no command have the length of an acknowledgement. -/
def responseFrameLength (message : Bytes) : ℕ :=
  ((responseCodes message).bind fun codes => responseFrameLengths.lookup codes).getD
    minFrameLength

/-- A message of the shape that `_fetch_with_timeout` returns: its first ETX behind the first
byte is the last byte but one. The first byte may be an ETX itself. -/
def Complete (message : Bytes) : Prop :=
  ∃ b body lrc, ETX ∉ body ∧ message = b :: body ++ [ETX, lrc]

/-- What a complete response looks like: its mark, its codes, its text, its check byte and its
length. The ETX is part of being complete. -/
structure WellFormed (message : Bytes) : Prop where
  stx : message.take 1 = [STX]
  codes : ∀ b ∈ seekAndRead message 1 4, b < 128
  /-- The payload is text, except for that of MC/DC. -/
  text : responseCodes message = some ("MC".toList, "DC".toList) ∨
    ∀ b ∈ seekAndRead message 5 (message.length - 7), b < 128
  lrc : message.getLast? = some (xorSum message.tail.dropLast)
  length : message.length = responseFrameLength message

/-! ### Codes -/

theorem stripNulls_isPrefix (bs : Bytes) : stripNulls bs <+: bs := by
  have hsuffix := List.dropWhile_suffix (l := bs.reverse) (· = 0)
  rw [← List.reverse_prefix, List.reverse_reverse] at hsuffix
  exact hsuffix

theorem length_decodeAscii {bs : Bytes} {s : Str} (h : decodeAscii bs = some s) :
    s.length = bs.length := by
  rw [(decodeAscii_eq_some_iff.mp h).2, List.length_map]

/-- **Padded codes are those of a command exactly when they are not padded.** Four bytes that
decode to four characters have no padding. -/
theorem codes_of_key_iff {cs ss : Bytes} {c s cmd subcmd : Str} (hcs : cs.length = 2)
    (hss : ss.length = 2) (hc : decodeAscii cs = some c) (hs : decodeAscii ss = some s)
    (hcmd : decodeAscii (stripNulls cs) = some cmd)
    (hsub : decodeAscii (stripNulls ss) = some subcmd) (C : Command) :
    cmd ++ subcmd = C.key ↔ c = C.cmd ∧ s = C.subcmd := by
  obtain ⟨cs', ss', hcodes, hcs', hss', hcmd', hsub', hstrip, hstrip'⟩ := decode_codes C
  constructor
  · intro hkey
    have hlenC : C.cmd.length = 2 := (length_decodeAscii hcmd').trans hcs'
    have hlenS : C.subcmd.length = 2 := (length_decodeAscii hsub').trans hss'
    have hle := (stripNulls_isPrefix cs).length_le
    have hle' := (stripNulls_isPrefix ss).length_le
    have hlen := congrArg List.length hkey
    rw [Command.key, List.length_append, List.length_append] at hlen
    have hlencmd := length_decodeAscii hcmd
    have hlensub := length_decodeAscii hsub
    obtain ⟨rfl, rfl⟩ := List.append_inj hkey (by omega)
    have heq := (stripNulls_isPrefix cs).eq_of_length (by omega)
    have heq' := (stripNulls_isPrefix ss).eq_of_length (by omega)
    rw [heq, hc] at hcmd
    rw [heq', hs] at hsub
    exact ⟨Option.some.inj hcmd, Option.some.inj hsub⟩
  · rintro ⟨rfl, rfl⟩
    obtain rfl := decodeAscii_injective hc hcmd'
    obtain rfl := decodeAscii_injective hs hsub'
    rw [hstrip, hc] at hcmd
    rw [hstrip', hs] at hsub
    rw [← Option.some.inj hcmd, ← Option.some.inj hsub, Command.key]

/-- The light table has commands only. -/
theorem exists_command_of_mem {codes : Str × Str} {n : ℕ}
    (h : (codes, n) ∈ responseFrameLengths) : ∃ C : Command, codes = (C.cmd, C.subcmd) := by
  simp only [responseFrameLengths, List.mem_cons, Prod.mk.injEq, List.not_mem_nil,
    or_false] at h
  rcases h with ⟨rfl, -⟩ | ⟨rfl, -⟩ | ⟨rfl, -⟩ | ⟨rfl, -⟩ | ⟨rfl, -⟩ | ⟨rfl, -⟩ | ⟨rfl, -⟩ |
    ⟨rfl, -⟩ | ⟨rfl, -⟩ | ⟨rfl, -⟩
  · exact ⟨.managementControl .initializeBoard, rfl⟩
  · exact ⟨.managementControl .deadboltControl, rfl⟩
  · exact ⟨.managementControl .calibrate, rfl⟩
  · exact ⟨.managementControl .writeProductId, rfl⟩
  · exact ⟨.managementControl .clearErrors, rfl⟩
  · exact ⟨.managementControl .reboot, rfl⟩
  · exact ⟨.request .manufacturingInfo, rfl⟩
  · exact ⟨.request .loadcellWeights, rfl⟩
  · exact ⟨.request .ioStatus, rfl⟩
  · exact ⟨.request .errorList, rfl⟩

/-- Only commands have data. -/
theorem exists_command_of_payloadLength {key : Str} (h : payloadLength key ≠ 0) :
    ∃ C : Command, key = C.key := by
  rw [payloadLength] at h
  cases hlookup : List.lookup key [("MCDC".toList, 1), ("MCWP".toList, 11),
    ("RQMI".toList, 13), ("RQIW".toList, 60), ("RQID".toList, 12), ("RQER".toList, 16)] with
  | none => rw [hlookup] at h; exact absurd rfl h
  | some n =>
      have hmem := mem_of_lookup hlookup
      simp only [List.mem_cons, Prod.mk.injEq, List.not_mem_nil, or_false] at hmem
      rcases hmem with ⟨rfl, -⟩ | ⟨rfl, -⟩ | ⟨rfl, -⟩ | ⟨rfl, -⟩ | ⟨rfl, -⟩ | ⟨rfl, -⟩
      · exact ⟨.managementControl .deadboltControl, rfl⟩
      · exact ⟨.managementControl .writeProductId, rfl⟩
      · exact ⟨.request .manufacturingInfo, rfl⟩
      · exact ⟨.request .loadcellWeights, rfl⟩
      · exact ⟨.request .ioStatus, rfl⟩
      · exact ⟨.request .errorList, rfl⟩

/-- **The length table and the schema agree for all codes**, also for those that neither of them
knows. -/
theorem lookup_getD_eq {cs ss : Bytes} {c s cmd subcmd : Str} (hcs : cs.length = 2)
    (hss : ss.length = 2) (hc : decodeAscii cs = some c) (hs : decodeAscii ss = some s)
    (hcmd : decodeAscii (stripNulls cs) = some cmd)
    (hsub : decodeAscii (stripNulls ss) = some subcmd) :
    (responseFrameLengths.lookup (c, s)).getD minFrameLength =
      payloadLength (cmd ++ subcmd) + minFrameLength := by
  have hkey := codes_of_key_iff hcs hss hc hs hcmd hsub
  by_cases hcommand : ∃ C : Command, c = C.cmd ∧ s = C.subcmd
  · obtain ⟨C, hC⟩ := hcommand
    rw [(hkey C).mpr hC, hC.1, hC.2, lookup_responseFrameLengths]
    rfl
  · have hnone : responseFrameLengths.lookup (c, s) = none := by
      rw [List.lookup_eq_none_iff]
      rintro ⟨codes, n⟩ hmem
      obtain ⟨C, rfl⟩ := exists_command_of_mem hmem
      rw [bne_iff_ne]
      rintro heq
      exact hcommand ⟨C, Prod.mk.inj heq⟩
    have hzero : payloadLength (cmd ++ subcmd) = 0 := by
      by_contra hne
      obtain ⟨C, hC⟩ := exists_command_of_payloadLength hne
      exact hcommand ⟨C, (hkey C).mp hC⟩
    rw [hnone, hzero, Option.getD_none, Nat.zero_add]

/-! ### Slices -/

theorem seekAndRead_append (front mid back : Bytes) :
    seekAndRead (front ++ (mid ++ back)) front.length mid.length = mid := by
  rw [seekAndRead, List.drop_left, List.take_left]

/-- A text field that stands at a known place. -/
theorem textAt_append {mid : Bytes} {text : Str} (h : decodeAscii (stripNulls mid) = some text)
    (front back : Bytes) :
    textAt (front ++ (mid ++ back)) front.length mid.length = some text := by
  rw [textAt, seekAndRead_append, h]

/-- Two text fields that stand next to each other. -/
theorem textAt_append_append {bs cs : Bytes} {text text' : Str}
    (h : decodeAscii (stripNulls bs) = some text)
    (h' : decodeAscii (stripNulls cs) = some text') (front back : Bytes) :
    textAt (front ++ (bs ++ cs ++ back)) front.length bs.length = some text ∧
      textAt (front ++ (bs ++ cs ++ back)) (front.length + bs.length) cs.length =
        some text' := by
  have hfirst := textAt_append h front (cs ++ back)
  have hsecond := textAt_append h' (front ++ bs) back
  rw [List.length_append, List.append_assoc] at hsecond
  rw [List.append_assoc]
  exact ⟨hfirst, hsecond⟩

/-- Text fields of one width that stand in a row. -/
theorem textsAt_append {width : ℕ} {parts : List Bytes} {texts : List Str}
    (h : List.Forall₂ (fun bs text => bs.length = width ∧
      decodeAscii (stripNulls bs) = some text) parts texts) (front back : Bytes) :
    textsAt (front ++ (parts.flatten ++ back)) front.length width parts.length = some texts := by
  induction h generalizing front with
  | nil => rfl
  | @cons part text parts texts hpart _ ih =>
      obtain ⟨rfl, htext⟩ := hpart
      have hfirst := textAt_append htext front (parts.flatten ++ back)
      have hrest := ih (front ++ part)
      rw [List.length_append, List.append_assoc] at hrest
      rw [List.flatten_cons, List.append_assoc, List.length_cons, textsAt, hfirst, hrest]
      rfl

/-- The header of a message with two codes. -/
theorem responseCodes_eq {cs ss : Bytes} {c s : Str} (hcs : cs.length = 2) (hss : ss.length = 2)
    (hc : decodeAscii cs = some c) (hs : decodeAscii ss = some s) (tail : Bytes) :
    responseCodes (STX :: (cs ++ (ss ++ tail))) = some (c, s) := by
  obtain ⟨c₁, c₂, rfl⟩ := List.length_eq_two.mp hcs
  obtain ⟨c₃, c₄, rfl⟩ := List.length_eq_two.mp hss
  exact responseCodes_eq_some_iff.mpr ⟨c₁, c₂, c₃, c₄, tail, rfl, hc, hs⟩

/-- There is no data field for the codes of a payload without data. -/
theorem lookup_dataFields_eq_none {key c s : Str} {message : Bytes}
    (hkey : ∀ d : Command, key = d.key ↔ c = d.cmd ∧ s = d.subcmd)
    (hnone : key ∉ ["MCDC", "MCWP", "RQMI", "RQIW", "RQID", "RQER"].map String.toList) :
    (dataFields message).lookup (c, s) = none := by
  rw [List.lookup_eq_none_iff]
  rintro ⟨codes, d⟩ hmem
  rw [bne_iff_ne]
  rintro rfl
  simp only [dataFields, List.mem_cons, Prod.mk.injEq, List.not_mem_nil, or_false] at hmem
  refine hnone ?_
  rcases hmem with ⟨hcodes, -⟩ | ⟨hcodes, -⟩ | ⟨hcodes, -⟩ | ⟨hcodes, -⟩ | ⟨hcodes, -⟩ |
    ⟨hcodes, -⟩
  · rw [(hkey (.managementControl .deadboltControl)).mpr hcodes]; decide
  · rw [(hkey (.managementControl .writeProductId)).mpr hcodes]; decide
  · rw [(hkey (.request .manufacturingInfo)).mpr hcodes]; decide
  · rw [(hkey (.request .loadcellWeights)).mpr hcodes]; decide
  · rw [(hkey (.request .ioStatus)).mpr hcodes]; decide
  · rw [(hkey (.request .errorList)).mpr hcodes]; decide

/-- **The data that is parsed are the slices of the payload**, by the cases of the grammar. -/
theorem dataAt_eq {cs ss payload back : Bytes} {cmd subcmd : Str} {data : ResponseData}
    (hcs : cs.length = 2) (hss : ss.length = 2) (hcmd : decodeAscii (stripNulls cs) = some cmd)
    (hsub : decodeAscii (stripNulls ss) = some subcmd)
    (hp : Payload (cmd ++ subcmd) payload data) :
    dataAt (STX :: (cs ++ (ss ++ (payload ++ back)))) = some data := by
  obtain ⟨c, hc⟩ : ∃ c, decodeAscii cs = some c := by
    have hascii := exists_paddedString_iff.mp ⟨cmd, hcmd⟩
    exact ⟨_, decodeAscii_eq_some_iff.mpr ⟨hascii, rfl⟩⟩
  obtain ⟨s, hs⟩ : ∃ s, decodeAscii ss = some s := by
    have hascii := exists_paddedString_iff.mp ⟨subcmd, hsub⟩
    exact ⟨_, decodeAscii_eq_some_iff.mpr ⟨hascii, rfl⟩⟩
  have hkey := codes_of_key_iff hcs hss hc hs hcmd hsub
  have hmessage : STX :: (cs ++ (ss ++ (payload ++ back))) =
      (STX :: cs ++ ss) ++ (payload ++ back) := by
    simp
  have hlen : (STX :: cs ++ ss).length = 5 := by simp [hcs, hss]
  rw [dataAt, responseCodes_eq hcs hss hc hs, Option.bind_some]
  rw [hmessage]
  generalize STX :: cs ++ ss = front at hlen ⊢
  generalize cmd ++ subcmd = key at hp hkey
  cases hp with
  | none hnone => rw [lookup_dataFields_eq_none hkey hnone, Option.getD_none]
  | deadboltControl b =>
      obtain ⟨rfl, rfl⟩ := (hkey (.managementControl .deadboltControl)).mp rfl
      have hbyte : (front ++ ([b] ++ back))[5]? = some b := by
        rw [← hlen, List.getElem?_append_right (Nat.le_refl _), Nat.sub_self]
        rfl
      change (Option.map _ _) = _
      rw [hbyte, Option.map_some]
  | writeProductId hbs h =>
      obtain ⟨rfl, rfl⟩ := (hkey (.managementControl .writeProductId)).mp rfl
      have htext := textAt_append h front back
      rw [hlen, hbs] at htext
      change (Option.map _ _) = _
      rw [htext, Option.map_some]
  | manufacturingInfo hbs h hcs' h' =>
      obtain ⟨rfl, rfl⟩ := (hkey (.request .manufacturingInfo)).mp rfl
      obtain ⟨htext, htext'⟩ := textAt_append_append h h' front back
      rw [hlen, hbs] at htext
      rw [hlen, hbs, hcs'] at htext'
      change (textAt _ 5 11).bind _ = _
      rw [htext, Option.bind_some]
      change (textAt _ 16 2).bind _ = _
      rw [htext', Option.bind_some]
      rfl
  | loadcellWeights hcount h =>
      obtain ⟨rfl, rfl⟩ := (hkey (.request .loadcellWeights)).mp rfl
      have htexts := textsAt_append h front back
      rw [hlen, hcount] at htexts
      change (Option.map _ _) = _
      rw [htexts, Option.map_some]
  | ioStatus hbs h hcs' h' =>
      obtain ⟨rfl, rfl⟩ := (hkey (.request .ioStatus)).mp rfl
      obtain ⟨htext, htext'⟩ := textAt_append_append h h' front back
      rw [hlen, hbs] at htext
      rw [hlen, hbs, hcs'] at htext'
      change (textAt _ 5 6).bind _ = _
      rw [htext, Option.bind_some]
      change (textAt _ 11 6).bind _ = _
      rw [htext', Option.bind_some]
      rfl
  | errorList hcount h =>
      obtain ⟨rfl, rfl⟩ := (hkey (.request .errorList)).mp rfl
      have htexts := textsAt_append h front back
      rw [hlen, hcount] at htexts
      change (Option.map _ _) = _
      rw [htexts, Option.map_some]

/-! ### Complete messages -/

theorem minFrameLength_le (message : Bytes) : minFrameLength ≤ responseFrameLength message := by
  rw [responseFrameLength]
  cases hlookup : (responseCodes message).bind fun codes => responseFrameLengths.lookup codes with
  | none => exact Nat.le_refl _
  | some n =>
      obtain ⟨codes, -, hcodes⟩ := Option.bind_eq_some_iff.mp hlookup
      obtain ⟨C, rfl⟩ := exists_command_of_mem (mem_of_lookup hcodes)
      rw [lookup_responseFrameLengths] at hcodes
      rw [Option.getD_some, ← Option.some.inj hcodes]
      exact Nat.le_add_left _ _

/-- The last byte and the bytes between it and STX. -/
theorem lrc_iff (front : Bytes) (lrc : UInt8) :
    (STX :: (front ++ [ETX, lrc])).getLast? =
        some (xorSum (STX :: (front ++ [ETX, lrc])).tail.dropLast) ↔
      lrc = xorSum (front ++ [ETX]) := by
  have hsplit : front ++ [ETX, lrc] = front ++ [ETX] ++ [lrc] := by simp
  rw [List.tail_cons, hsplit, List.dropLast_concat, ← List.cons_append, List.getLast?_concat,
    Option.some.injEq]

/-- **A complete message that is well formed in its parts**: the frame, the codes, the payload
and the checksum. -/
theorem wellFormed_iff {cs ss payload : Bytes} {lrc : UInt8} {cmd subcmd : Str}
    (hcs : cs.length = 2) (hss : ss.length = 2) (hcmd : decodeAscii (stripNulls cs) = some cmd)
    (hsub : decodeAscii (stripNulls ss) = some subcmd) :
    WellFormed (STX :: (cs ++ (ss ++ (payload ++ [ETX, lrc])))) ↔
      lrc = xorSum (cs ++ ss ++ payload ++ [ETX]) ∧
        ∃ data, Payload (cmd ++ subcmd) payload data := by
  have hcsAscii := exists_paddedString_iff.mp ⟨cmd, hcmd⟩
  have hssAscii := exists_paddedString_iff.mp ⟨subcmd, hsub⟩
  obtain ⟨c, hc⟩ : ∃ c, decodeAscii cs = some c := ⟨_, decodeAscii_eq_some_iff.mpr ⟨hcsAscii, rfl⟩⟩
  obtain ⟨s, hs⟩ : ∃ s, decodeAscii ss = some s := ⟨_, decodeAscii_eq_some_iff.mpr ⟨hssAscii, rfl⟩⟩
  have hcodes := responseCodes_eq hcs hss hc hs (payload ++ [ETX, lrc])
  have hkey := codes_of_key_iff hcs hss hc hs hcmd hsub (.managementControl .deadboltControl)
  have hframe := lookup_getD_eq hcs hss hc hs hcmd hsub
  have hlrc := lrc_iff (cs ++ ss ++ payload) lrc
  simp only [List.append_assoc] at hlrc
  have hlength : (STX :: (cs ++ (ss ++ (payload ++ [ETX, lrc])))).length = payload.length + 7 := by
    simp only [List.length_cons, List.length_append, hcs, hss, List.length_nil]
    omega
  have hpayload : seekAndRead (STX :: (cs ++ (ss ++ (payload ++ [ETX, lrc])))) 5
      payload.length = payload := by
    have hslice := seekAndRead_append (STX :: cs ++ ss) payload [ETX, lrc]
    simpa [hcs, hss] using hslice
  have hcodeBytes : seekAndRead (STX :: (cs ++ (ss ++ (payload ++ [ETX, lrc])))) 1 4 =
      cs ++ ss := by
    have hslice := seekAndRead_append [STX] (cs ++ ss) (payload ++ [ETX, lrc])
    simpa [hcs, hss] using hslice
  rw [exists_payload_iff]
  constructor
  · intro h
    refine ⟨by simpa using hlrc.mp h.lrc, ?_, ?_⟩
    · have hlen := h.length
      rw [responseFrameLength, hcodes, Option.bind_some, hframe, hlength] at hlen
      exact Nat.add_right_cancel hlen
    · have htext := h.text
      rw [hcodes, hlength, Nat.add_sub_cancel, hpayload] at htext
      refine htext.imp_left fun hmcdc => ?_
      exact hkey.mpr (Prod.mk.inj (Option.some.inj hmcdc))
  · rintro ⟨hx, hlen, htext⟩
    refine ⟨rfl, ?_, ?_, hlrc.mpr (by simpa using hx), ?_⟩
    · rw [hcodeBytes]
      intro b hb
      rcases List.mem_append.mp hb with hb | hb
      · exact hcsAscii b hb
      · exact hssAscii b hb
    · rw [hcodes, hlength, Nat.add_sub_cancel, hpayload]
      refine htext.imp_left fun hmcdc => ?_
      obtain ⟨rfl, rfl⟩ := hkey.mp hmcdc
      rfl
    · rw [responseFrameLength, hcodes, Option.bind_some, hframe, hlength, hlen]
      rfl

/-- **The complete messages that `parse_response` parses.** A message of the shape that
`_fetch_with_timeout` returns is parsed exactly if it is well formed: STX, ASCII codes and
text, the exclusive or of everything between STX and the last byte, and the length that
`_RESPONSE_FRAME_LENGTHS` has for its codes. The fields of the response are then the slices
of the message. -/
theorem parseResponse_complete_iff {message : Bytes} (h : Complete message) :
    ((∃ r, parseResponse message = .ok r) ↔ WellFormed message) ∧
      ∀ r, parseResponse message = .ok r →
        textAt message 1 2 = some r.command ∧ textAt message 3 2 = some r.subcommand ∧
          dataAt message = some r.data := by
  have hparts : ∀ r, parseResponse message = .ok r → ∃ cs ss payload lrc,
      message = STX :: (cs ++ (ss ++ (payload ++ [ETX, lrc]))) ∧
        lrc = xorSum (cs ++ ss ++ payload ++ [ETX]) ∧
        (cs.length = 2 ∧ decodeAscii (stripNulls cs) = some r.command) ∧
        (ss.length = 2 ∧ decodeAscii (stripNulls ss) = some r.subcommand) ∧
        Payload (r.command ++ r.subcommand) payload r.data := by
    intro r hr
    obtain ⟨cs, ss, payload, back, hmessage, hcs, hss, hp⟩ := parseResponse_eq_ok_iff.mp hr
    obtain ⟨b, body, lrc, hbody, rfl⟩ := h
    simp only [List.cons_append, List.append_assoc, List.cons.injEq] at hmessage
    obtain ⟨rfl, hmessage⟩ := hmessage
    have hsplit : body ++ [ETX, lrc] = (cs ++ ss ++ payload) ++
        ETX :: xorSum (cs ++ ss ++ payload ++ [ETX]) :: back := by
      rw [hmessage]
      simp only [List.append_assoc]
    obtain ⟨rfl, rfl, -⟩ := eq_of_append_cons_eq hbody hsplit
    exact ⟨cs, ss, payload, _, by simp, rfl, hcs, hss, hp⟩
  refine ⟨⟨?_, fun hw => ?_⟩, fun r hr => ?_⟩
  · rintro ⟨r, hr⟩
    obtain ⟨cs, ss, payload, lrc, rfl, hlrc, ⟨hcs, hcmd⟩, ⟨hss, hsub⟩, hp⟩ := hparts r hr
    exact (wellFormed_iff hcs hss hcmd hsub).mpr ⟨hlrc, r.data, hp⟩
  · obtain ⟨b, body, lrc, hbody, rfl⟩ := h
    obtain rfl : b = STX := by simpa using hw.stx
    have hlen : 4 ≤ body.length := by
      have hle := minFrameLength_le (STX :: body ++ [ETX, lrc])
      rw [← hw.length, minFrameLength] at hle
      simp only [List.length_append, List.length_cons, List.length_nil] at hle
      omega
    obtain ⟨cs, ss, payload, rfl, hcs, hss⟩ : ∃ cs ss payload, body = cs ++ (ss ++ payload) ∧
        cs.length = 2 ∧ ss.length = 2 := by
      refine ⟨body.take 2, (body.drop 2).take 2, (body.drop 2).drop 2, ?_, ?_, ?_⟩
      · rw [List.take_append_drop, List.take_append_drop]
      · rw [List.length_take]
        omega
      · rw [List.length_take, List.length_drop]
        omega
    have hcodes := hw.codes
    have hmessage : STX :: (cs ++ (ss ++ payload)) ++ [ETX, lrc] =
        STX :: (cs ++ (ss ++ (payload ++ [ETX, lrc]))) := by
      simp
    rw [hmessage] at hw hcodes ⊢
    have hslice : seekAndRead (STX :: (cs ++ (ss ++ (payload ++ [ETX, lrc])))) 1 4 = cs ++ ss := by
      have hslice := seekAndRead_append [STX] (cs ++ ss) (payload ++ [ETX, lrc])
      simpa [hcs, hss] using hslice
    rw [hslice] at hcodes
    obtain ⟨cmd, hcmd⟩ := exists_paddedString_iff.mpr fun b hb =>
      hcodes b (List.mem_append_left ss hb)
    obtain ⟨subcmd, hsub⟩ := exists_paddedString_iff.mpr fun b hb =>
      hcodes b (List.mem_append_right cs hb)
    obtain ⟨rfl, data, hp⟩ := (wellFormed_iff hcs hss hcmd hsub).mp hw
    refine ⟨⟨cmd, subcmd, data⟩, parseResponse_eq_ok_iff.mpr ⟨cs, ss, payload, [], ?_,
      ⟨hcs, hcmd⟩, ⟨hss, hsub⟩, hp⟩⟩
    simp only [List.cons_append, List.append_assoc]
  · obtain ⟨cs, ss, payload, lrc, rfl, -, ⟨hcs, hcmd⟩, ⟨hss, hsub⟩, hp⟩ := hparts r hr
    have hfirst := textAt_append hcmd [STX] (ss ++ (payload ++ [ETX, lrc]))
    have hsecond := textAt_append hsub (STX :: cs) (payload ++ [ETX, lrc])
    rw [hcs] at hfirst
    rw [List.length_cons, hcs, hss] at hsecond
    exact ⟨hfirst, hsecond, dataAt_eq hcs hss hcmd hsub hp⟩

/-- An answer to RQ/ID: closed, and unlocked. -/
def statusFrame : Bytes :=
  [2, 82, 81, 73, 68, 67, 76, 79, 83, 69, 68, 85, 78, 76, 79, 67, 75, 3, 15]

/-- The answer is complete and well formed, and parsed. -/
theorem parseResponse_complete_iff_statusFrame : ∃ r, parseResponse statusFrame = .ok r ∧
    textAt statusFrame 1 2 = some r.command ∧ textAt statusFrame 3 2 = some r.subcommand ∧
      dataAt statusFrame = some r.data := by
  have hcomplete : Complete statusFrame :=
    ⟨2, [82, 81, 73, 68, 67, 76, 79, 83, 69, 68, 85, 78, 76, 79, 67, 75], 15, by decide, rfl⟩
  have hwellFormed : WellFormed statusFrame :=
    ⟨by decide, by decide +kernel, .inr (by decide +kernel), by decide, by decide⟩
  obtain ⟨hiff, hfields⟩ := parseResponse_complete_iff hcomplete
  obtain ⟨r, hr⟩ := hiff.mpr hwellFormed
  exact ⟨r, hr, hfields r hr⟩

end IoBoard
