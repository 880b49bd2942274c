import IoBoard.Lib.Literal
import IoBoard.Lib.ParseFailures
import IoBoard.Lib.Words
import IoBoard.Protocol

/-!
# Causes of Parse Errors

What `parse_response` makes of a message that the schema rejects. It tells the causes apart by
searching the text of the error for `checksum` and `const`. The text of a `ConstError` contains
neither, and that of a decoding error quotes bytes of the message.

## Causes

The causes are conditions on the message, without the parser: a frame marker is missing where the
message has another byte in its place; the checksum is wrong where the message is a frame up to
that; and otherwise a text is cut short or not ASCII, or the frame ends too early. `Fault` lists
the errors of the schema, each with the messages that have it, and the causes are some of
these. A message has one error, so at most one cause.

## The texts of the errors

The text of an error begins with a path and a fixed sentence, and may quote numbers or bytes.
Which of the words it contains is decided case by case; only the quotation of a decoding error
depends on the message, and there the library about words in quotations gives the condition
on the bytes.

## Main results

* `responseProtocol_eq_error_iff`: the errors of the schema, and the messages that have them.
* `parseResponse_classified_iff`: **the messages whose error has the code of its cause**.
-/

open Ascii Construct Framing

namespace IoBoard

/-! ### Causes -/

/-- Four bytes that are read as codes, after their padding is taken off. -/
structure ReadsCodes (cs ss : Bytes) (command subcommand : Str) : Prop where
  command : cs.length = 2 ∧ decodeAscii (stripNulls cs) = some command
  subcommand : ss.length = 2 ∧ decodeAscii (stripNulls ss) = some subcommand

/-- The responses that have text fields, with the paths and lengths of these, by the four code
characters. -/
def textLayouts : List (Str × List (Text × ℕ)) :=
  let path := field parsing "DATA"
  [("MCWP".toList, [(field path "PRODUCT_ID", 11)]),
    ("RQMI".toList, [(field path "PRODUCT_ID", 11), (field path "SW_VERSION", 2)]),
    ("RQIW".toList, List.replicate 10 (field path "LOADCELLS", 6)),
    ("RQID".toList, [(field path "DOOR", 6), (field path "DEADBOLT", 6)]),
    ("RQER".toList, List.replicate 4 (field path "ERRORS", 4))]

/-- The text fields of a response, none for a response without data. -/
def textFields (key : Str) : List (Text × ℕ) :=
  (textLayouts.lookup key).getD []

/-- A frame marker is missing: there is another byte in the place of STX, or in the place of ETX
behind codes and a payload. -/
def MarkerFails (message : Bytes) : Prop :=
  (∃ b rest, message = b :: rest ∧ b ≠ STX) ∨
    ∃ cs ss payload command subcommand data b rest,
      message = STX :: (cs ++ (ss ++ (payload ++ b :: rest))) ∧
        ReadsCodes cs ss command subcommand ∧ Payload (command ++ subcommand) payload data ∧
        b ≠ ETX

/-- The message is a frame up to a wrong checksum. What follows it does not matter. -/
def ChecksumFails (message : Bytes) : Prop :=
  ∃ cs ss payload command subcommand data b rest,
    message = STX :: (cs ++ (ss ++ (payload ++ ETX :: b :: rest))) ∧
      ReadsCodes cs ss command subcommand ∧ Payload (command ++ subcommand) payload data ∧
      b ≠ xorSum (cs ++ ss ++ payload ++ [ETX])

/-- The first text of the message that is not ASCII, without its padding. It may be one of the
codes or a field of the payload. -/
def BadText (message data : Bytes) : Prop :=
  (∃ back, message = STX :: back ∧ FirstNonAscii [2, 2] back data) ∨
    ∃ cs ss command subcommand rest, message = STX :: (cs ++ (ss ++ rest)) ∧
      ReadsCodes cs ss command subcommand ∧
      FirstNonAscii ((textFields (command ++ subcommand)).map Prod.snd) rest data

/-! ### The errors of the schema -/

/-- How the payload of a response fails. A byte for the deadbolt may be missing; all else are
texts. -/
def DataFails (key : Str) (back : Bytes) (e : Construct.Error) : Prop :=
  (key = "MCDC".toList ∧ back = [] ∧ e = .stream (field (field parsing "DATA") "DEADBOLT") 1 0) ∨
    TextsFail (textFields key) back e

/-- A payload of texts. -/
theorem dataFails_texts (key : Str) (hkey : key ≠ "MCDC".toList) (_ back : Bytes)
    (e : Construct.Error) : TextsFail (textFields key) back e ↔ DataFails key back e :=
  (or_iff_right fun h => hkey h.1).symm

/-- A case without data never fails, since it reads nothing. -/
theorem fails_pass {key : Str}
    (h : key ∉ ["MCDC", "MCWP", "RQMI", "RQIW", "RQID", "RQER"].map String.toList) :
    Fails (Construct.pure ResponseData.none) fun _ back e => DataFails key back e := by
  have hfields : textFields key = [] := by
    rw [textFields, List.lookup_eq_none_iff.mpr, Option.getD_none]
    rintro ⟨key', fields⟩ hmem
    rw [bne_iff_ne]
    rintro rfl
    have hkeys : ∀ layout ∈ textLayouts, layout.1 ∈
        ["MCDC", "MCWP", "RQMI", "RQIW", "RQID", "RQER"].map String.toList := by
      decide
    exact h (hkeys _ hmem)
  refine (Fails.pure _).congr fun front back e => ?_
  rw [DataFails, hfields]
  refine iff_of_false id ?_
  rintro (⟨rfl, -⟩ | hfail)
  · exact h (by decide)
  · exact hfail

/-- **How the payload parser fails**, by the cases of its switch. -/
theorem fails_responseData (key : Str) :
    Fails (responseData key) fun _ back e => DataFails key back e := by
  refine switch_rule (P := fun p => Fails p fun _ back e => DataFails key back e)
    (fun q hmem => ?_) fun hkey => fails_pass fun hdata => hkey (mem_keys_of_data hdata)
  simp only [responseCases, List.mem_cons, Prod.mk.injEq, List.not_mem_nil, or_false] at hmem
  rcases hmem with ⟨rfl, rfl⟩ | ⟨rfl, rfl⟩ | ⟨rfl, rfl⟩ | ⟨rfl, rfl⟩ | ⟨rfl, rfl⟩ |
    ⟨rfl, rfl⟩ | ⟨rfl, rfl⟩ | ⟨rfl, rfl⟩ | ⟨rfl, rfl⟩ | ⟨rfl, rfl⟩
  · exact fails_pass (by decide)
  · refine ((fails_byte _).map (reads_byte _) _).congr fun front back e => ?_
    exact ⟨fun h => .inl ⟨rfl, h⟩, fun h => (h.resolve_right id).2⟩
  · exact fails_pass (by decide)
  · exact ((fails_paddedString _ _).map (reads_paddedString _ _) _).congr
      (dataFails_texts "MCWP".toList (by decide))
  · exact fails_pass (by decide)
  · exact fails_pass (by decide)
  · exact (fails_texts fun _ => (fails_paddedString _ _).map (reads_paddedString _ _) _).congr
      (dataFails_texts "RQMI".toList (by decide))
  · exact ((fails_array_paddedString _ _ _).map
      (reads_array (reads_paddedString _ _) _) _).congr
      (dataFails_texts "RQIW".toList (by decide))
  · exact (fails_texts fun _ => (fails_paddedString _ _).map (reads_paddedString _ _) _).congr
      (dataFails_texts "RQID".toList (by decide))
  · exact ((fails_array_paddedString _ _ _).map
      (reads_array (reads_paddedString _ _) _) _).congr
      (dataFails_texts "RQER".toList (by decide))

/-- The errors of the schema: a marker or the checksum is wrong, a text is cut short or not ASCII,
or the frame ends in front of a byte. -/
inductive Fault (message : Bytes) : Construct.Error → Prop
  | empty (h : message = []) : Fault message (.stream parsing 1 0)
  | stx {b rest} (h : message = b :: rest) (hb : b ≠ STX) :
      Fault message (.const parsing [STX] [b])
  | codes {back e} (h : message = STX :: back)
      (hfails : TextsFail [(field parsing "COMMAND", 2), (field parsing "SUBCOMMAND", 2)] back e) :
      Fault message e
  | data {cs ss command subcommand back e} (h : message = STX :: (cs ++ (ss ++ back)))
      (hcodes : ReadsCodes cs ss command subcommand)
      (hfails : DataFails (command ++ subcommand) back e) : Fault message e
  | noEtx {cs ss payload command subcommand data} (h : message = STX :: (cs ++ (ss ++ payload)))
      (hcodes : ReadsCodes cs ss command subcommand)
      (hpayload : Payload (command ++ subcommand) payload data) :
      Fault message (.stream parsing 1 0)
  | etx {cs ss payload command subcommand data b rest}
      (h : message = STX :: (cs ++ (ss ++ (payload ++ b :: rest))))
      (hcodes : ReadsCodes cs ss command subcommand)
      (hpayload : Payload (command ++ subcommand) payload data) (hb : b ≠ ETX) :
      Fault message (.const parsing [ETX] [b])
  | noChecksum {cs ss payload command subcommand data}
      (h : message = STX :: (cs ++ (ss ++ (payload ++ [ETX]))))
      (hcodes : ReadsCodes cs ss command subcommand)
      (hpayload : Payload (command ++ subcommand) payload data) :
      Fault message (.stream parsing 1 0)
  | checksum {cs ss payload command subcommand data b rest}
      (h : message = STX :: (cs ++ (ss ++ (payload ++ ETX :: b :: rest))))
      (hcodes : ReadsCodes cs ss command subcommand)
      (hpayload : Payload (command ++ subcommand) payload data)
      (hb : b ≠ xorSum (cs ++ ss ++ payload ++ [ETX])) :
      Fault message (.checksum parsing b.toNat (xorSum (cs ++ ss ++ payload ++ [ETX])).toNat)

/-- A marker of one byte: there is none, or another one. -/
theorem fails_marker (marker : UInt8) :
    Fails (const parsing [marker]) fun _ back e => (back = [] ∧ e = .stream parsing 1 0) ∨
      ∃ b rest, back = b :: rest ∧ b ≠ marker ∧ e = .const parsing [marker] [b] := by
  refine (fails_const parsing [marker]).congr fun front back e => ?_
  rw [List.length_singleton, Nat.lt_one_iff, List.length_eq_zero_iff]
  refine or_congr (and_congr_right ?_) ⟨?_, ?_⟩
  · rintro rfl
    exact Iff.rfl
  · rintro ⟨parsed, rest, rfl, hlen, hne, rfl⟩
    obtain ⟨b, rfl⟩ := List.length_eq_one_iff.mp hlen
    exact ⟨b, rest, rfl, fun hb => hne (hb ▸ rfl), rfl⟩
  · rintro ⟨b, rest, rfl, hne, rfl⟩
    exact ⟨[b], rest, rfl, rfl, fun hb => hne (List.cons.inj hb).1, rfl⟩

/-- **The errors of the schema, and the messages that have them**, from the failure relation of
the whole parser. -/
theorem responseProtocol_eq_error_iff {message : Bytes} {e : Construct.Error} :
    ResponseProtocol ⟨[], message⟩ = .error e ↔ Fault message e := by
  have hfails := (fails_marker STX).bind (reads_const parsing [STX]) fun _ =>
    (fails_paddedString (field parsing "COMMAND") 2).bind (reads_paddedString _ 2) fun command =>
    (fails_paddedString (field parsing "SUBCOMMAND") 2).bind (reads_paddedString _ 2)
      fun subcommand =>
    (fails_responseData (command ++ subcommand)).bind (reads_responseData _) fun data =>
    (fails_marker ETX).bind (reads_const parsing [ETX]) fun _ =>
    (fails_checksum parsing calculateChecksum fun front =>
      seekAndRead front 1 (front.length - 1)).map (reads_checksum _ _ _)
      fun _ => (⟨command, subcommand, data⟩ : Response)
  -- the checksum covers what was read behind STX
  have hcovered (cs ss payload : Bytes) : calculateChecksum
      (seekAndRead ([] ++ [STX] ++ cs ++ ss ++ payload ++ [ETX]) 1
        (([] ++ [STX] ++ cs ++ ss ++ payload ++ [ETX]).length - 1)) =
      xorSum (cs ++ ss ++ payload ++ [ETX]) := by
    have hfront : [] ++ [STX] ++ cs ++ ss ++ payload ++ [ETX] =
        STX :: (cs ++ ss ++ payload ++ [ETX]) := by simp
    rw [hfront, seekAndRead_cons, calculateChecksum]
  refine (hfails ⟨[], message⟩ e).trans ⟨?_, fun h => ?_⟩
  · dsimp only
    rintro ((⟨rfl, rfl⟩ | ⟨b, rest, rfl, hb, rfl⟩) | ⟨_, _, back, rfl, rfl, h⟩)
    · exact .empty rfl
    · exact .stx rfl hb
    rw [List.singleton_append]
    rcases h with h | ⟨command, cs, back, rfl, hcs, h⟩
    · exact .codes rfl (textsFail_cons_iff.mpr (.inl h))
    rcases h with h | ⟨subcommand, ss, back, rfl, hss, h⟩
    · exact .codes rfl (textsFail_cons_iff.mpr (.inr ⟨command, cs, _, rfl, hcs, h⟩))
    rcases h with h | ⟨data, payload, back, rfl, hpayload, h⟩
    · exact .data rfl ⟨hcs, hss⟩ h
    rcases h with (⟨rfl, rfl⟩ | ⟨b, rest, rfl, hb, rfl⟩) | ⟨_, _, back, rfl, rfl, h⟩
    · rw [List.append_nil]
      exact .noEtx rfl ⟨hcs, hss⟩ hpayload
    · exact .etx rfl ⟨hcs, hss⟩ hpayload hb
    rw [hcovered] at h
    rcases h with ⟨rfl, rfl⟩ | ⟨b, rest, rfl, hb, rfl⟩
    · exact .noChecksum rfl ⟨hcs, hss⟩ hpayload
    · exact .checksum rfl ⟨hcs, hss⟩ hpayload hb
  · dsimp only
    cases h with
    | empty h => exact .inl (.inl ⟨h, rfl⟩)
    | stx h hb => exact .inl (.inr ⟨_, _, h, hb, rfl⟩)
    | codes h hfails =>
        refine .inr ⟨(), _, _, h, rfl, ?_⟩
        refine (textsFail_cons_iff.mp hfails).imp_right ?_
        rintro ⟨command, cs, back, hback, hcs, h⟩
        exact ⟨command, cs, back, hback, hcs, .inl h⟩
    | data h hcodes hfails =>
        exact .inr ⟨(), _, _, h, rfl, .inr ⟨_, _, _, rfl, hcodes.command,
          .inr ⟨_, _, _, rfl, hcodes.subcommand, .inl hfails⟩⟩⟩
    | noEtx h hcodes hpayload =>
        exact .inr ⟨(), _, _, h, rfl, .inr ⟨_, _, _, rfl, hcodes.command,
          .inr ⟨_, _, _, rfl, hcodes.subcommand, .inr ⟨_, _, _, (List.append_nil _).symm, hpayload,
            .inl (.inl ⟨rfl, rfl⟩)⟩⟩⟩⟩
    | etx h hcodes hpayload hb =>
        exact .inr ⟨(), _, _, h, rfl, .inr ⟨_, _, _, rfl, hcodes.command,
          .inr ⟨_, _, _, rfl, hcodes.subcommand, .inr ⟨_, _, _, rfl, hpayload,
            .inl (.inr ⟨_, _, rfl, hb, rfl⟩)⟩⟩⟩⟩
    | noChecksum h hcodes hpayload =>
        exact .inr ⟨(), _, _, h, rfl, .inr ⟨_, _, _, rfl, hcodes.command,
          .inr ⟨_, _, _, rfl, hcodes.subcommand, .inr ⟨_, _, _, rfl, hpayload,
            .inr ⟨(), _, _, rfl, rfl, .inl ⟨rfl, rfl⟩⟩⟩⟩⟩⟩
    | checksum h hcodes hpayload hb =>
        refine .inr ⟨(), _, _, h, rfl, .inr ⟨_, _, _, rfl, hcodes.command,
          .inr ⟨_, _, _, rfl, hcodes.subcommand, .inr ⟨_, _, _, rfl, hpayload,
            .inr ⟨(), _, _, rfl, rfl, .inr ?_⟩⟩⟩⟩⟩
        rw [hcovered]
        exact ⟨_, _, rfl, hb, rfl⟩

/-! ### Causes and errors -/

/-- A payload is cut short or does not decode. -/
theorem DataFails.stream_or_decode {key : Str} {back : Bytes} {e : Construct.Error}
    (h : DataFails key back e) :
    (∃ path n found, e = .stream path n found) ∨ ∃ data, e = .decode data := by
  rcases h with ⟨-, -, rfl⟩ | h
  · exact .inl ⟨_, _, _, rfl⟩
  · refine h.stream_or_decode.imp_left ?_
    rintro ⟨field, -, found, rfl⟩
    exact ⟨_, _, _, rfl⟩

/-- A missing marker is a `ConstError` of one byte. -/
theorem markerFails_iff {message : Bytes} : MarkerFails message ↔
    ∃ marker b, (marker = STX ∨ marker = ETX) ∧
      Fault message (.const parsing [marker] [b]) := by
  constructor
  · rintro (⟨b, rest, h, hb⟩ | ⟨cs, ss, payload, command, subcommand, data, b, rest, h, hcodes,
      hpayload, hb⟩)
    · exact ⟨STX, b, .inl rfl, .stx h hb⟩
    · exact ⟨ETX, b, .inr rfl, .etx h hcodes hpayload hb⟩
  · rintro ⟨marker, b, -, h⟩
    cases h with
    | stx h hb => exact .inl ⟨_, _, h, hb⟩
    | etx h hcodes hpayload hb => exact .inr ⟨_, _, _, _, _, _, _, _, h, hcodes, hpayload, hb⟩
    | codes h hfails => obtain ⟨_, _, _, h⟩ | ⟨_, h⟩ := hfails.stream_or_decode <;> cases h
    | data h hcodes hfails => obtain ⟨_, _, _, h⟩ | ⟨_, h⟩ := hfails.stream_or_decode <;> cases h

/-- A wrong checksum is a `ChecksumError`. -/
theorem checksumFails_iff {message : Bytes} : ChecksumFails message ↔
    ∃ read computed, Fault message (.checksum parsing read computed) := by
  constructor
  · rintro ⟨cs, ss, payload, command, subcommand, data, b, rest, h, hcodes, hpayload, hb⟩
    exact ⟨_, _, .checksum h hcodes hpayload hb⟩
  · rintro ⟨read, computed, h⟩
    cases h with
    | checksum h hcodes hpayload hb => exact ⟨_, _, _, _, _, _, _, _, h, hcodes, hpayload, hb⟩
    | codes h hfails => obtain ⟨_, _, _, h⟩ | ⟨_, h⟩ := hfails.stream_or_decode <;> cases h
    | data h hcodes hfails => obtain ⟨_, _, _, h⟩ | ⟨_, h⟩ := hfails.stream_or_decode <;> cases h

/-- A text that is not ASCII is a decoding error, and the error quotes its data. -/
theorem badText_iff {message data : Bytes} :
    BadText message data ↔ Fault message (.decode data) := by
  constructor
  · rintro (⟨back, h, hbad⟩ | ⟨cs, ss, command, subcommand, rest, h, hcodes, hbad⟩)
    · exact .codes h (textsFail_decode_iff.mpr hbad)
    · exact .data h hcodes (.inr (textsFail_decode_iff.mpr hbad))
  · intro h
    cases h with
    | codes h hfails => exact .inl ⟨_, h, textsFail_decode_iff.mp hfails⟩
    | data h hcodes hfails =>
        obtain ⟨-, -, hstream⟩ | hfails := hfails
        · cases hstream
        · exact .inr ⟨_, _, _, _, _, h, hcodes, textsFail_decode_iff.mp hfails⟩

/-- The paths under which the schema reads bytes. -/
def parsePaths : List Text :=
  let path := field parsing "DATA"
  [parsing, field parsing "COMMAND", field parsing "SUBCOMMAND", field path "DEADBOLT",
    field path "PRODUCT_ID", field path "SW_VERSION", field path "LOADCELLS", field path "DOOR",
    field path "ERRORS"]

/-- The text fields of a response have such paths. -/
theorem mem_parsePaths_of_textFields {key : Str} {f : Text × ℕ} (hf : f ∈ textFields key) :
    f.1 ∈ parsePaths := by
  have hall : ∀ layout ∈ textLayouts, ∀ f ∈ layout.2, f.1 ∈ parsePaths := by
    decide
  rw [textFields] at hf
  cases hlookup : textLayouts.lookup key with
  | none =>
      rw [hlookup] at hf
      cases hf
  | some fields =>
      rw [hlookup, Option.getD_some] at hf
      exact hall _ (mem_of_lookup hlookup) f hf

/-- What the schema raises is a marker, a checksum, a text that is not ASCII, or a stream that is
too short for a field. -/
theorem Fault.kind {message : Bytes} {e : Construct.Error} (h : Fault message e) :
    (∃ marker b, (marker = STX ∨ marker = ETX) ∧ e = .const parsing [marker] [b]) ∨
      (∃ read computed, e = .checksum parsing read computed) ∨ (∃ data, e = .decode data) ∨
      ∃ path ∈ parsePaths, ∃ n found, e = .stream path n found := by
  have hpath : parsing ∈ parsePaths := List.mem_cons_self
  cases h with
  | stx => exact .inl ⟨_, _, .inl rfl, rfl⟩
  | etx => exact .inl ⟨_, _, .inr rfl, rfl⟩
  | checksum => exact .inr (.inl ⟨_, _, rfl⟩)
  | empty | noEtx | noChecksum => exact .inr (.inr (.inr ⟨_, hpath, _, _, rfl⟩))
  | codes h hfails =>
      have hcodes : ∀ f ∈ [(field parsing "COMMAND", 2), (field parsing "SUBCOMMAND", 2)],
          f.1 ∈ parsePaths := by
        decide
      rcases hfails.stream_or_decode with ⟨f, hf, found, rfl⟩ | hdecode
      · exact .inr (.inr (.inr ⟨_, hcodes f hf, _, _, rfl⟩))
      · exact .inr (.inr (.inl hdecode))
  | data h hcodes hfails =>
      rcases hfails with ⟨-, -, rfl⟩ | hfails
      · exact .inr (.inr (.inr ⟨_, by decide, _, _, rfl⟩))
      · rcases hfails.stream_or_decode with ⟨f, hf, found, rfl⟩ | hdecode
        · exact .inr (.inr (.inr ⟨_, mem_parsePaths_of_textFields hf, _, _, rfl⟩))
        · exact .inr (.inr (.inl hdecode))

/-! ### Words in the texts of errors -/

/-- The letters of `checksum` behind the first. -/
def checksumLetters : Text := ['h', 'e', 'c', 'k', 's', 'u', 'm']

/-- The letters of `const` behind the first. -/
def constLetters : Text := ['o', 'n', 's', 't']

/-- The words that `parse_response` looks for, without their `c`. -/
def wordLetters : List Text := [checksumLetters, constLetters]

/-- The text of an error contains a word that starts with `c`, ignoring case. -/
def Mentions (e : Construct.Error) (letters : Text) : Prop :=
  'c' :: letters <:+: e.text.map Char.toLower

instance (e : Construct.Error) (letters : Text) : Decidable (Mentions e letters) :=
  inferInstanceAs (Decidable ('c' :: letters <:+: e.text.map Char.toLower))

variable {letters : Text}

/-- A number contains no such word. -/
theorem not_isInfix_decimal (n : ℕ) : ¬ 'c' :: letters <:+: (decimal n).map Char.toLower := by
  intro h
  obtain ⟨x, hx, hlower⟩ := List.mem_map.mp (h.subset List.mem_cons_self)
  have hdigit : x.isDigit = true := by
    rw [decimal, Nat.toString_eq_repr, Nat.toList_repr] at hx
    exact Nat.isDigit_of_mem_toDigits (by decide) (by decide) hx
  rw [Literal.toLower_of_isDigit hdigit] at hlower
  rw [hlower] at hdigit
  cases hdigit

/-- One of the words in a message that ends in a quotation. -/
theorem isInfix_quoting (hword : letters ∈ wordLetters) (text : Text) (data : Bytes) :
    'c' :: letters <:+: (text ++ ' ' :: bytesRepr data).map Char.toLower ↔
      'c' :: letters <:+: text.map Char.toLower ∨ SpellsC letters data := by
  simp only [wordLetters, List.mem_cons, List.not_mem_nil, or_false] at hword
  rcases hword with rfl | rfl
  · exact isInfix_quoting_iff (by decide) (by decide) text data
  · exact isInfix_quoting_iff (by decide) (by decide) text data

/-- One byte spells no word. -/
theorem not_spellsC_singleton (hword : letters ∈ wordLetters) (b : UInt8) :
    ¬ SpellsC letters [b] := by
  rintro ⟨front, b', back, heq, -, hback⟩
  have hnil : back = [] := by
    have hlen := congrArg List.length heq
    simp only [List.length_append, List.length_cons, List.length_nil] at hlen
    exact List.length_eq_zero_iff.mp (by omega)
  rw [hnil, List.map_nil, List.prefix_nil] at hback
  rw [hback] at hword
  exact absurd hword (by decide)

/-- **The text of a `ConstError` of a marker mentions neither word**, so a missing marker is
taken for something else. -/
theorem not_mentions_const (hword : letters ∈ wordLetters) {marker : UInt8}
    (hmarker : marker = STX ∨ marker = ETX) (b : UInt8) :
    ¬ Mentions (.const parsing [marker] [b]) letters := by
  have hfront : ∀ marker ∈ [STX, ETX], ∀ letters ∈ wordLetters, ¬ 'c' :: letters <:+:
      (inPath parsing ("parsing expected ".toList ++ bytesRepr [marker] ++
        " but parsed".toList)).map Char.toLower := by
    decide +kernel
  rw [Mentions, Error.text_const, isInfix_quoting hword, not_or]
  exact ⟨hfront marker (by simpa using hmarker) letters hword, not_spellsC_singleton hword b⟩

/-- **The text of a decoding error mentions what the data spells**, and nothing else: its own
words contain neither. -/
theorem mentions_decode_iff (hword : letters ∈ wordLetters) (data : Bytes) :
    Mentions (.decode data) letters ↔ SpellsC letters data := by
  have hfront : ∀ letters ∈ wordLetters, ¬ 'c' :: letters <:+:
      "cannot use encoding 'ascii' to decode".toList.map Char.toLower := by
    decide +kernel
  rw [Mentions, Error.text_decode, isInfix_quoting hword]
  exact or_iff_right (hfront letters hword)

/-- The text of a `StreamError` mentions neither word; it has only numbers and a path of the
schema. -/
theorem not_mentions_stream (hword : letters ∈ wordLetters) {path : Text}
    (hpath : path ∈ parsePaths) (n found : ℕ) : ¬ Mentions (.stream path n found) letters := by
  have hfront : ∀ path ∈ parsePaths, ∀ letters ∈ wordLetters, ¬ 'c' :: letters <:+: (inPath path
      "stream read less than specified amount, expected".toList).map Char.toLower := by
    decide +kernel
  have hmiddle : ∀ letters ∈ wordLetters, ' ' ∉ 'c' :: letters ∧ ',' ∉ 'c' :: letters ∧
      ¬ 'c' :: letters <:+: " found".toList.map Char.toLower := by
    decide +kernel
  obtain ⟨hspace, hcomma, hfound⟩ := hmiddle letters hword
  rw [Mentions, Error.text_stream]
  simp only [List.map_append, List.map_cons, show Char.toLower ' ' = ' ' from rfl,
    show Char.toLower ',' = ',' from rfl, isInfix_append_cons hspace,
    isInfix_append_cons hcomma, not_or]
  exact ⟨hfront path hpath letters hword, not_isInfix_decimal n, hfound,
    not_isInfix_decimal found⟩

/-- The text of a `ChecksumError` mentions the checksum. -/
theorem mentions_checksum (read computed : ℕ) :
    Mentions (.checksum parsing read computed) checksumLetters := by
  have hfront : 'c' :: checksumLetters <:+:
      (inPath parsing "wrong checksum".toList).map Char.toLower := by
    decide +kernel
  rw [Mentions, Error.text_checksum, List.map_append]
  exact hfront.trans (List.prefix_append _ _).isInfix

/-- The code of the error of `parse_response`, by what the text of the schema's error mentions. -/
theorem errorCode_parseError (message : Bytes) (e : Construct.Error) :
    (parseError message e).errorCode =
      if Mentions e checksumLetters then .protocolChecksumMismatch
      else if Mentions e constLetters then .protocolMalformedData
      else .protocolParseFailed := by
  have hchecksum : "checksum".toList <:+: e.text.map Char.toLower ↔ Mentions e checksumLetters := by
    rw [show "checksum".toList = 'c' :: checksumLetters by decide, Mentions]
  have hconst : "const".toList <:+: e.text.map Char.toLower ↔ Mentions e constLetters := by
    rw [show "const".toList = 'c' :: constLetters by decide, Mentions]
  unfold parseError
  dsimp only
  by_cases hsum : Mentions e checksumLetters
  · rw [if_pos (hchecksum.mpr hsum), if_pos hsum]
  · rw [if_neg (mt hchecksum.mp hsum), if_neg hsum]
    by_cases hmarker : Mentions e constLetters
    · rw [if_pos (hconst.mpr hmarker), if_pos hmarker]
    · rw [if_neg (mt hconst.mp hmarker), if_neg hmarker]

/-! ### Classified errors -/

/-- The error of `parse_response` on a message, if there is one, has the code of its cause. A
message that is parsed has no error, and is classified. -/
def Classified (message : Bytes) : Prop :=
  ∀ e, parseResponse message = .error e → ∃ err, e = .ioBoard err ∧ err.kind = .protocol ∧
    (err.errorCode = .protocolMalformedData ↔ MarkerFails message) ∧
    (err.errorCode = .protocolChecksumMismatch ↔ ChecksumFails message) ∧
    (err.errorCode = .protocolParseFailed ↔ ¬ MarkerFails message ∧ ¬ ChecksumFails message)

/-- The error of `parse_response` comes from that of the schema. -/
theorem parseResponse_eq_error_iff {message : Bytes} {e : PyExc} :
    parseResponse message = .error e ↔
      ∃ fault, Fault message fault ∧ e = .ioBoard (parseError message fault) := by
  rw [parseResponse]
  simp only [← responseProtocol_eq_error_iff]
  cases ResponseProtocol ⟨[], message⟩ with
  | ok r =>
      refine iff_of_false (fun h => ?_) ?_
      · cases h
      · rintro ⟨fault, h, -⟩
        cases h
  | error fault =>
      simp only [Except.error.injEq, exists_eq_left']
      exact eq_comm

/-- A message has one error, since the schema is a function. -/
theorem Fault.unique {message : Bytes} {e e' : Construct.Error} (h : Fault message e)
    (h' : Fault message e') : e = e' :=
  Except.error.inj ((responseProtocol_eq_error_iff.mpr h).symm.trans
    (responseProtocol_eq_error_iff.mpr h'))

/-- The class of the error of `parse_response` is that of protocol errors. -/
theorem kind_parseError (message : Bytes) (e : Construct.Error) :
    (parseError message e).kind = .protocol := by
  unfold parseError
  dsimp only
  split_ifs <;> rfl

/-- Whether an error is classified, by the error of the schema. -/
theorem Fault.classified_iff {message : Bytes} {fault : Construct.Error}
    (h : Fault message fault) : Classified message ↔
      ((parseError message fault).errorCode = .protocolMalformedData ↔ MarkerFails message) ∧
      ((parseError message fault).errorCode = .protocolChecksumMismatch ↔
        ChecksumFails message) ∧
      ((parseError message fault).errorCode = .protocolParseFailed ↔
        ¬ MarkerFails message ∧ ¬ ChecksumFails message) := by
  constructor
  · intro hclassified
    obtain ⟨err, herr, -, hcodes⟩ :=
      hclassified _ (parseResponse_eq_error_iff.mpr ⟨fault, h, rfl⟩)
    obtain rfl := PyExc.ioBoard.inj herr
    exact hcodes
  · intro hcodes e he
    obtain ⟨fault', h', rfl⟩ := parseResponse_eq_error_iff.mp he
    obtain rfl := h'.unique h
    exact ⟨_, rfl, kind_parseError _ _, hcodes⟩

/-- An error other than that of a marker. -/
theorem Fault.not_markerFails {message : Bytes} {fault : Construct.Error} (h : Fault message fault)
    (hne : ∀ marker b, Error.const parsing [marker] [b] ≠ fault) : ¬ MarkerFails message := by
  intro hmarker
  obtain ⟨marker, b, -, h'⟩ := markerFails_iff.mp hmarker
  exact hne marker b (h'.unique h)

/-- An error other than that of the checksum. -/
theorem Fault.not_checksumFails {message : Bytes} {fault : Construct.Error}
    (h : Fault message fault)
    (hne : ∀ read computed, Error.checksum parsing read computed ≠ fault) :
    ¬ ChecksumFails message := by
  intro hsum
  obtain ⟨read, computed, h'⟩ := checksumFails_iff.mp hsum
  exact hne read computed (h'.unique h)

/-- **The errors that have the code of their cause.** An error of `parse_response` has the code of
its cause unless a frame marker is missing, or the first text that is not ASCII spells `checksum` or
`const`. -/
theorem parseResponse_classified_iff (message : Bytes) : Classified message ↔
    ¬ MarkerFails message ∧ ∀ data, BadText message data →
      ¬ SpellsC checksumLetters data ∧ ¬ SpellsC constLetters data := by
  have hchecksum : checksumLetters ∈ wordLetters := by decide
  have hconst : constLetters ∈ wordLetters := by decide
  simp only [badText_iff]
  by_cases hfault : ∃ fault, Fault message fault
  swap
  · -- the message is parsed
    have hno : ∀ fault, ¬ Fault message fault := fun fault h => hfault ⟨fault, h⟩
    refine iff_of_true (fun e he => ?_) ⟨fun h => ?_, fun data h => absurd h (hno _)⟩
    · obtain ⟨fault, h, -⟩ := parseResponse_eq_error_iff.mp he
      exact absurd h (hno fault)
    · obtain ⟨marker, b, -, h⟩ := markerFails_iff.mp h
      exact hno _ h
  obtain ⟨fault, hfault⟩ := hfault
  rw [hfault.classified_iff, errorCode_parseError]
  rcases hfault.kind with ⟨marker, b, hmarker, rfl⟩ | ⟨read, computed, rfl⟩ | ⟨data, rfl⟩ |
    ⟨path, hpath, n, found, rfl⟩
  · -- a missing marker has the code of all other failures
    rw [if_neg (not_mentions_const hchecksum hmarker b),
      if_neg (not_mentions_const hconst hmarker b)]
    have hfails := markerFails_iff.mpr ⟨marker, b, hmarker, hfault⟩
    refine iff_of_false (fun h => ?_) fun h => h.1 hfails
    cases h.1.mpr hfails
  · rw [if_pos (mentions_checksum read computed)]
    have hmarker := hfault.not_markerFails nofun
    have hsum := checksumFails_iff.mpr ⟨read, computed, hfault⟩
    refine iff_of_true ⟨iff_of_false nofun hmarker, iff_of_true rfl hsum,
      iff_of_false nofun fun h => h.2 hsum⟩ ⟨hmarker, fun data h => ?_⟩
    cases h.unique hfault
  · have hmarker := hfault.not_markerFails nofun
    have hsum := hfault.not_checksumFails nofun
    have hdata : (∀ data', Fault message (.decode data') →
        ¬ SpellsC checksumLetters data' ∧ ¬ SpellsC constLetters data') ↔
          ¬ SpellsC checksumLetters data ∧ ¬ SpellsC constLetters data := by
      refine ⟨fun h => h data hfault, fun h data' hfault' => ?_⟩
      cases hfault'.unique hfault
      exact h
    rw [hdata, ← mentions_decode_iff hchecksum, ← mentions_decode_iff hconst]
    -- the code tells which of the words is spelled
    by_cases hm : Mentions (.decode data) checksumLetters
    · rw [if_pos hm]
      exact iff_of_false (fun h => hsum (h.2.1.mp rfl)) fun h => h.2.1 hm
    · rw [if_neg hm]
      by_cases hm' : Mentions (.decode data) constLetters
      · rw [if_pos hm']
        exact iff_of_false (fun h => hmarker (h.1.mp rfl)) fun h => h.2.2 hm'
      · rw [if_neg hm']
        exact iff_of_true ⟨iff_of_false nofun hmarker, iff_of_false nofun hsum,
          iff_of_true rfl ⟨hmarker, hsum⟩⟩ ⟨hmarker, hm, hm'⟩
  · rw [if_neg (not_mentions_stream hchecksum hpath n found),
      if_neg (not_mentions_stream hconst hpath n found)]
    have hmarker := hfault.not_markerFails nofun
    have hsum := hfault.not_checksumFails nofun
    refine iff_of_true ⟨iff_of_false nofun hmarker, iff_of_false nofun hsum,
      iff_of_true rfl ⟨hmarker, hsum⟩⟩ ⟨hmarker, fun data h => ?_⟩
    cases h.unique hfault

/-- The acknowledgement of MCPD without its STX. -/
def withoutStx : Bytes :=
  [77, 67, 80, 68, 3, 25]

/-- A missing STX does not have the code of malformed data. -/
theorem not_parseResponse_classified : ¬ ∀ message, Classified message := by
  intro h
  have hraises : parseResponse withoutStx = .error (.ioBoard ⟨.protocol,
      "Failed to parse protocol response", .protocolParseFailed,
      [("message_hex", .text (hexBytes withoutStx)),
        ("error", .text (Error.const parsing [STX] [77]).text)]⟩) := by
    decide +kernel
  obtain ⟨err, herr, -, hmalformed, -⟩ := h withoutStx _ hraises
  obtain rfl := PyExc.ioBoard.inj herr
  cases hmalformed.mpr (.inl ⟨77, _, rfl, by decide⟩)

end IoBoard
