import IoBoard.Lib.Construct
import IoBoard.SerialFrame

/-!
# The Protocol Schema

`protocol.py`: the two declarative schemas of the frame format, `build_request` and
`parse_response`, over the library of `IoBoard.Lib.Construct`. The response schema is read
off as a grammar: `Payload` says which data bytes stand for which response data, by the four
code characters.

## Conventions

* The dictionary of a request is a list of its entries, and a response is a record whose
  `data` has one constructor for each shape of DATA. Where the source reads an attribute that
  the shape lacks, it raises `AttributeError`; this is in `IoBoard.Commands`.
* A text field is padded with zeros, and reading it strips them. What comes back is the text
  without the zeros at its end, so a text that ends in zeros does not survive.
* The parser of a response takes a frame from its front and does not look at what follows.
  `fetch` never hands it more than one frame.
* Errors keep the text of the library, since `parse_response` chooses the error code by
  looking for words in it (`parseError`).

## Main results

* `reads_responseData`: the payload parser reads exactly the grammar `Payload`.
* `parseResponse_eq_ok_iff`: **the frames that `parse_response` parses**, and what it makes of
  them.
* `exists_payload_iff`: which payloads stand for anything: only length and ASCII count.
* `parseResponse_command_iff`: the same for a frame whose codes are those of a command.
-/

open Ascii Construct Framing

namespace IoBoard

/-! ### Requests -/

/-- The `data` dictionary of a request, by the names of its fields. It is empty for most
commands. -/
abbrev RequestDict := List (String × Str)

/-- The path of the fields while building. -/
def building : Text := "(building)".toList

/-- The path of the fields while parsing. -/
def parsing : Text := "(parsing)".toList

/-- `obj[name]`: a missing entry raises `KeyError`, which is not an error of the library. -/
def getField (data : RequestDict) (name : String) : Except Construct.Error Str :=
  match data.lookup name with
  | some text => .ok text
  | none => .error (.missing name.toList)

/-- The `DATA` switch of `RequestProtocol`: eight commands have no data, two have one field, and a
key that is none of the ten is an error of the library. -/
def buildRequestData (key : Str) (data : RequestDict) : Except Construct.Error Bytes :=
  let path := field building "DATA"
  if key ∈ ["MCPD", "MCLZ", "MCEZ", "MCRT", "RQMI", "RQIW", "RQID", "RQER"].map String.toList
  then .ok []
  else if key = "MCDC".toList then do
    let label ← getField data "DEADBOLT"
    buildEnum (field path "DEADBOLT") [("OPEN".toList, 79), ("CLOSE".toList, 67)] label
  else if key = "MCWP".toList then do
    let text ← getField data "PRODUCT_ID"
    buildPaddedString (field path "PRODUCT_ID") 11 text
  else .error (.explicit path)

/-- `calculate_checksum`, over the bytes from CMD through ETX. STX is not covered. -/
def calculateChecksum (data : Bytes) : UInt8 :=
  xorSum data

/-- `RequestProtocol.build`. The fields are built in their order and the first failure ends it; the
checksum is over what was built behind the STX. -/
def RequestProtocol (command subcommand : Str) (data : RequestDict) :
    Except Construct.Error Bytes := do
  let cmd ← buildPaddedString (field building "COMMAND") 2 command
  let subcmd ← buildPaddedString (field building "SUBCOMMAND") 2 subcommand
  let payload ← buildRequestData (command ++ subcommand) data
  let covered := cmd ++ subcmd ++ payload ++ [ETX]
  return STX :: covered ++ [calculateChecksum covered]

/-- `build_request`. The `except ConstructError` clause wraps every error of the library; the
`KeyError` of a missing field is none and passes. -/
def buildRequest (command subcommand : Str) (data : RequestDict) : Except PyExc Bytes :=
  match RequestProtocol command subcommand data with
  | .ok message => .ok message
  | .error (.missing _) => .error .keyError
  | .error e => .error (.ioBoard ⟨.protocol,
      "Failed to build protocol request: " ++ String.ofList (command ++ subcommand),
      .protocolBuildFailed,
      [("command", .text command), ("subcommand", .text subcommand), ("error", .text e.text)]⟩)

/-! ### Responses -/

/-- A parsed `Enum(Byte, ...)`: a label, or the byte where no label fits. Parsing such a byte is no
error; it is one only to who asks for the label. -/
inductive EnumValue
  | label (s : Str)
  | code (b : UInt8)
  deriving DecidableEq, Repr

/-- `Enum(Byte, UNLOCK=ord("O"), LOCKED=ord("C"))`. -/
def deadboltEnum (b : UInt8) : EnumValue :=
  if b = 79 then .label "UNLOCK".toList
  else if b = 67 then .label "LOCKED".toList
  else .code b

/-- The `DATA` of a parsed response, one constructor for each shape of it. A response without
data has `none`. -/
inductive ResponseData
  | none
  | deadboltControl (deadbolt : EnumValue)
  | writeProductId (productId : Str)
  | manufacturingInfo (productId swVersion : Str)
  | loadcellWeights (loadcells : List Str)
  | ioStatus (door deadbolt : Str)
  | errorList (errors : List Str)
  deriving DecidableEq, Repr

/-- A parsed response: the codes, and the data. -/
structure Response where
  command : Str
  subcommand : Str
  data : ResponseData
  deriving DecidableEq, Repr

/-- The cases of the `DATA` switch of `ResponseProtocol`. The acknowledgements without data are
listed as in the source, though the default would do for them. -/
def responseCases : List (Text × Parser ResponseData) :=
  let path := field parsing "DATA"
  [("MCPD".toList, pure .none),
    ("MCDC".toList, map (fun b => .deadboltControl (deadboltEnum b))
      (byte (field path "DEADBOLT"))),
    ("MCLZ".toList, pure .none),
    ("MCWP".toList, map .writeProductId (paddedString (field path "PRODUCT_ID") 11)),
    ("MCEZ".toList, pure .none),
    ("MCRT".toList, pure .none),
    ("RQMI".toList, bind (paddedString (field path "PRODUCT_ID") 11) fun productId =>
      map (.manufacturingInfo productId) (paddedString (field path "SW_VERSION") 2)),
    ("RQIW".toList, map .loadcellWeights
      (array (paddedString (field path "LOADCELLS") 6) 10)),
    ("RQID".toList, bind (paddedString (field path "DOOR") 6) fun door =>
      map (.ioStatus door) (paddedString (field path "DEADBOLT") 6)),
    ("RQER".toList, map .errorList (array (paddedString (field path "ERRORS") 4) 4))]

/-- The `DATA` switch of `ResponseProtocol`; an unknown key has no data. -/
def responseData (key : Str) : Parser ResponseData :=
  switch key responseCases (pure .none)

/-- `seek_and_read`, on the bytes of the stream up to the read position. -/
def seekAndRead (stream : Bytes) (offset length : ℕ) : Bytes :=
  (stream.drop offset).take length

/-- `ResponseProtocol`: STX, the two codes, the data that belongs to them, ETX, and the checksum of
everything behind the STX up to the ETX. -/
def ResponseProtocol : Parser Response :=
  bind (const parsing [STX]) fun _ =>
  bind (paddedString (field parsing "COMMAND") 2) fun command =>
  bind (paddedString (field parsing "SUBCOMMAND") 2) fun subcommand =>
  bind (responseData (command ++ subcommand)) fun data =>
  bind (const parsing [ETX]) fun _ =>
  map (fun _ => ⟨command, subcommand, data⟩)
    (checksum parsing calculateChecksum fun front => seekAndRead front 1 (front.length - 1))

/-- The error of `parse_response`, by the text of the error of the schema: the clauses look for the
words "checksum" and "const" in it, after it is folded to lower case. -/
def parseError (message : Bytes) (e : Construct.Error) : IOBoardError :=
  let errorMsg := e.text
  let details := [("message_hex", Detail.text (hexBytes message)), ("error", .text errorMsg)]
  if "checksum".toList <:+: errorMsg.map Char.toLower then
    ⟨.protocol, "Protocol checksum validation failed", .protocolChecksumMismatch, details⟩
  else if "const".toList <:+: errorMsg.map Char.toLower then
    ⟨.protocol, "Protocol frame markers invalid (missing STX/ETX)", .protocolMalformedData,
      details⟩
  else
    ⟨.protocol, "Failed to parse protocol response", .protocolParseFailed, details⟩

/-- `parse_response`. What the schema leaves on the stream is not looked at. -/
def parseResponse (message : Bytes) : Except PyExc Response :=
  match ResponseProtocol ⟨[], message⟩ with
  | .ok (response, _) => .ok response
  | .error e => .error (.ioBoard (parseError message e))

/-! ### The grammar of responses -/

/-- Which data bytes stand for which response data, by the four code characters. A key that is not
among the ten has no data, and is no error. -/
inductive Payload : Str → Bytes → ResponseData → Prop
  | none {key} (h : key ∉ ["MCDC", "MCWP", "RQMI", "RQIW", "RQID", "RQER"].map String.toList) :
      Payload key [] .none
  | deadboltControl (b : UInt8) :
      Payload "MCDC".toList [b] (.deadboltControl (deadboltEnum b))
  | writeProductId {bs text} (hlen : bs.length = 11)
      (h : decodeAscii (stripNulls bs) = some text) :
      Payload "MCWP".toList bs (.writeProductId text)
  | manufacturingInfo {bs cs productId swVersion} (hbs : bs.length = 11)
      (h : decodeAscii (stripNulls bs) = some productId) (hcs : cs.length = 2)
      (h' : decodeAscii (stripNulls cs) = some swVersion) :
      Payload "RQMI".toList (bs ++ cs) (.manufacturingInfo productId swVersion)
  | loadcellWeights {parts loadcells} (hcount : parts.length = 10)
      (h : List.Forall₂ (fun bs text => bs.length = 6 ∧
        decodeAscii (stripNulls bs) = some text) parts loadcells) :
      Payload "RQIW".toList parts.flatten (.loadcellWeights loadcells)
  | ioStatus {bs cs door deadbolt} (hbs : bs.length = 6)
      (h : decodeAscii (stripNulls bs) = some door) (hcs : cs.length = 6)
      (h' : decodeAscii (stripNulls cs) = some deadbolt) :
      Payload "RQID".toList (bs ++ cs) (.ioStatus door deadbolt)
  | errorList {parts errors} (hcount : parts.length = 4)
      (h : List.Forall₂ (fun bs text => bs.length = 4 ∧
        decodeAscii (stripNulls bs) = some text) parts errors) :
      Payload "RQER".toList parts.flatten (.errorList errors)

/-- A case without data. -/
theorem reads_pass {key : Str}
    (h : key ∉ ["MCDC", "MCWP", "RQMI", "RQIW", "RQID", "RQER"].map String.toList) :
    Reads (Construct.pure ResponseData.none) fun _ bs data => Payload key bs data := by
  refine (Reads.pure _).congr fun front bs data => ?_
  constructor
  · rintro ⟨rfl, rfl⟩
    exact .none h
  · intro hp
    cases hp with
    | none => exact ⟨rfl, rfl⟩
    | _ => simp at h

/-- The data of each command that has some. -/
theorem payload_deadboltControl {bs : Bytes} {data : ResponseData} :
    Payload "MCDC".toList bs data ↔ ∃ b, bs = [b] ∧ data = .deadboltControl (deadboltEnum b) := by
  constructor
  · intro hp
    generalize hk : "MCDC".toList = key at hp
    cases hp with
    | none h => subst hk; simp at h
    | deadboltControl b => exact ⟨b, rfl, rfl⟩
    | _ => exact absurd hk (by decide)
  · rintro ⟨b, rfl, rfl⟩
    exact .deadboltControl b

theorem payload_writeProductId {bs : Bytes} {data : ResponseData} :
    Payload "MCWP".toList bs data ↔ ∃ text, (bs.length = 11 ∧
      decodeAscii (stripNulls bs) = some text) ∧ data = .writeProductId text := by
  constructor
  · intro hp
    generalize hk : "MCWP".toList = key at hp
    cases hp with
    | none h => subst hk; simp at h
    | writeProductId hlen h => exact ⟨_, ⟨hlen, h⟩, rfl⟩
    | _ => exact absurd hk (by decide)
  · rintro ⟨text, ⟨hlen, h⟩, rfl⟩
    exact .writeProductId hlen h

/-- The commands whose data is two texts: their lengths, and what is made of them. They are
handled by one set of lemmas. -/
def HasTwoTexts (key : Str) (m n : ℕ) (build : Str → Str → ResponseData) : Prop :=
  (key = "RQMI".toList ∧ m = 11 ∧ n = 2 ∧ build = .manufacturingInfo) ∨
    (key = "RQID".toList ∧ m = 6 ∧ n = 6 ∧ build = .ioStatus)

theorem payload_twoTexts {key : Str} {m n : ℕ} {build : Str → Str → ResponseData}
    (hkey : HasTwoTexts key m n build) {bs : Bytes} {data : ResponseData} :
    Payload key bs data ↔ ∃ first bs₁ bs₂, bs = bs₁ ++ bs₂ ∧
      (bs₁.length = m ∧ decodeAscii (stripNulls bs₁) = some first) ∧
      ∃ second, (bs₂.length = n ∧ decodeAscii (stripNulls bs₂) = some second) ∧
        data = build first second := by
  constructor
  · intro hp
    cases hp with
    | none h => rcases hkey with ⟨rfl, -⟩ | ⟨rfl, -⟩ <;> simp at h
    | manufacturingInfo hbs h hcs h' =>
        obtain ⟨-, rfl, rfl, rfl⟩ := hkey.resolve_right fun hother => absurd hother.1 (by decide)
        exact ⟨_, _, _, rfl, ⟨hbs, h⟩, _, ⟨hcs, h'⟩, rfl⟩
    | ioStatus hbs h hcs h' =>
        obtain ⟨-, rfl, rfl, rfl⟩ := hkey.resolve_left fun hother => absurd hother.1 (by decide)
        exact ⟨_, _, _, rfl, ⟨hbs, h⟩, _, ⟨hcs, h'⟩, rfl⟩
    | _ => rcases hkey with ⟨h, -⟩ | ⟨h, -⟩ <;> exact absurd h (by decide)
  · rintro ⟨first, bs₁, bs₂, rfl, ⟨hbs, h⟩, second, ⟨hcs, h'⟩, rfl⟩
    rcases hkey with ⟨rfl, rfl, rfl, rfl⟩ | ⟨rfl, rfl, rfl, rfl⟩
    · exact .manufacturingInfo hbs h hcs h'
    · exact .ioStatus hbs h hcs h'

/-- The commands whose data is texts of one length: how many, how long, and what is made of
them. -/
def HasTexts (key : Str) (count width : ℕ) (build : List Str → ResponseData) : Prop :=
  (key = "RQIW".toList ∧ count = 10 ∧ width = 6 ∧ build = .loadcellWeights) ∨
    (key = "RQER".toList ∧ count = 4 ∧ width = 4 ∧ build = .errorList)

theorem payload_texts {key : Str} {count width : ℕ} {build : List Str → ResponseData}
    (hkey : HasTexts key count width build) {bs : Bytes} {data : ResponseData} :
    Payload key bs data ↔ ∃ texts, (∃ parts : List Bytes, bs = parts.flatten ∧
      parts.length = count ∧ List.Forall₂ (fun bs text => bs.length = width ∧
        decodeAscii (stripNulls bs) = some text) parts texts) ∧
      data = build texts := by
  constructor
  · intro hp
    cases hp with
    | none h => rcases hkey with ⟨rfl, -⟩ | ⟨rfl, -⟩ <;> simp at h
    | loadcellWeights hcount h =>
        obtain ⟨-, rfl, rfl, rfl⟩ := hkey.resolve_right fun hother => absurd hother.1 (by decide)
        exact ⟨_, ⟨_, rfl, hcount, h⟩, rfl⟩
    | errorList hcount h =>
        obtain ⟨-, rfl, rfl, rfl⟩ := hkey.resolve_left fun hother => absurd hother.1 (by decide)
        exact ⟨_, ⟨_, rfl, hcount, h⟩, rfl⟩
    | _ => rcases hkey with ⟨h, -⟩ | ⟨h, -⟩ <;> exact absurd h (by decide)
  · rintro ⟨texts, ⟨parts, rfl, hcount, h⟩, rfl⟩
    rcases hkey with ⟨rfl, rfl, rfl, rfl⟩ | ⟨rfl, rfl, rfl, rfl⟩
    · exact .loadcellWeights hcount h
    · exact .errorList hcount h

theorem hasTwoTexts_manufacturingInfo : HasTwoTexts "RQMI".toList 11 2 .manufacturingInfo :=
  .inl ⟨rfl, rfl, rfl, rfl⟩

theorem hasTwoTexts_ioStatus : HasTwoTexts "RQID".toList 6 6 .ioStatus :=
  .inr ⟨rfl, rfl, rfl, rfl⟩

theorem hasTexts_loadcellWeights : HasTexts "RQIW".toList 10 6 .loadcellWeights :=
  .inl ⟨rfl, rfl, rfl, rfl⟩

theorem hasTexts_errorList : HasTexts "RQER".toList 4 4 .errorList :=
  .inr ⟨rfl, rfl, rfl, rfl⟩

/-- The responses with data have cases. -/
theorem mem_keys_of_data {key : Str}
    (h : key ∈ ["MCDC", "MCWP", "RQMI", "RQIW", "RQID", "RQER"].map String.toList) :
    key ∈ responseCases.map Prod.fst := by
  have hkeys : ∀ key ∈ ["MCDC", "MCWP", "RQMI", "RQIW", "RQID", "RQER"].map String.toList,
      key ∈ responseCases.map Prod.fst := by
    decide
  exact hkeys key h

/-- **The payload parser reads exactly the grammar**, by the cases of its switch. -/
theorem reads_responseData (key : Str) :
    Reads (responseData key) fun _ bs data => Payload key bs data := by
  refine switch_rule (P := fun p => Reads p fun _ bs data => Payload key bs data)
    (fun q hmem => ?_) fun hkey => reads_pass fun hdata => hkey (mem_keys_of_data hdata)
  simp only [responseCases, List.mem_cons, Prod.mk.injEq, List.not_mem_nil, or_false] at hmem
  rcases hmem with ⟨rfl, rfl⟩ | ⟨rfl, rfl⟩ | ⟨rfl, rfl⟩ | ⟨rfl, rfl⟩ | ⟨rfl, rfl⟩ |
    ⟨rfl, rfl⟩ | ⟨rfl, rfl⟩ | ⟨rfl, rfl⟩ | ⟨rfl, rfl⟩ | ⟨rfl, rfl⟩
  · exact reads_pass (by decide)
  · exact ((reads_byte _).map _).congr fun _ _ _ => payload_deadboltControl.symm
  · exact reads_pass (by decide)
  · exact ((reads_paddedString _ _).map _).congr fun _ _ _ => payload_writeProductId.symm
  · exact reads_pass (by decide)
  · exact reads_pass (by decide)
  · exact ((reads_paddedString _ _).bind fun _ => (reads_paddedString _ _).map _).congr
      fun _ _ _ => (payload_twoTexts hasTwoTexts_manufacturingInfo).symm
  · exact ((reads_array (reads_paddedString _ _) _).map _).congr
      fun _ _ _ => (payload_texts hasTexts_loadcellWeights).symm
  · exact ((reads_paddedString _ _).bind fun _ => (reads_paddedString _ _).map _).congr
      fun _ _ _ => (payload_twoTexts hasTwoTexts_ioStatus).symm
  · exact ((reads_array (reads_paddedString _ _) _).map _).congr
      fun _ _ _ => (payload_texts hasTexts_errorList).symm

/-- The checksum covers everything behind the STX. -/
theorem seekAndRead_cons (b : UInt8) (bs : Bytes) :
    seekAndRead (b :: bs) 1 ((b :: bs).length - 1) = bs := by
  simp [seekAndRead]

/-- **The frames that `parse_response` parses**, and what it makes of them: STX, two codes, a
payload of the grammar, ETX, and the checksum of everything from CMD through ETX. What follows
is not looked at. The two codes are any four ASCII bytes, of a command of the board or not. -/
theorem parseResponse_eq_ok_iff {message : Bytes} {r : Response} :
    parseResponse message = .ok r ↔ ∃ cs ss payload back,
      message = STX :: cs ++ ss ++ payload ++
        ETX :: xorSum (cs ++ ss ++ payload ++ [ETX]) :: back ∧
      (cs.length = 2 ∧ decodeAscii (stripNulls cs) = some r.command) ∧
      (ss.length = 2 ∧ decodeAscii (stripNulls ss) = some r.subcommand) ∧
      Payload (r.command ++ r.subcommand) payload r.data := by
  have hreads := (reads_const parsing [STX]).bind fun _ =>
    (reads_paddedString (field parsing "COMMAND") 2).bind fun command =>
    (reads_paddedString (field parsing "SUBCOMMAND") 2).bind fun subcommand =>
    (reads_responseData (command ++ subcommand)).bind fun data =>
    (reads_const parsing [ETX]).bind fun _ =>
    (reads_checksum parsing calculateChecksum fun front =>
      seekAndRead front 1 (front.length - 1)).map
      fun _ => (⟨command, subcommand, data⟩ : Response)
  have hok : parseResponse message = .ok r ↔
      ∃ t, ResponseProtocol ⟨[], message⟩ = .ok (r, t) := by
    rw [parseResponse]
    cases ResponseProtocol ⟨[], message⟩ with
    | error e => simp
    | ok p => obtain ⟨r', t⟩ := p; simp
  rw [hok]
  constructor
  · rintro ⟨t, ht⟩
    obtain ⟨bs, back, hback, hG, -⟩ := (hreads ⟨[], message⟩ r t).mp ht
    obtain ⟨_, _, _, rfl, rfl, command, cs, _, rfl, hcs, subcommand, ss, _, rfl, hss, data,
      payload, _, rfl, hpayload, _, _, _, rfl, rfl, _, rfl, rfl⟩ := hG
    refine ⟨cs, ss, payload, back, ?_, hcs, hss, hpayload⟩
    have hfront : [] ++ [STX] ++ cs ++ ss ++ payload ++ [ETX] =
        STX :: (cs ++ ss ++ payload ++ [ETX]) := by simp
    dsimp only at hback
    rw [hfront, seekAndRead_cons, calculateChecksum] at hback
    simpa using hback
  · rintro ⟨cs, ss, payload, back, rfl, hcs, hss, hpayload⟩
    have hfront : [] ++ [STX] ++ cs ++ ss ++ payload ++ [ETX] =
        STX :: (cs ++ ss ++ payload ++ [ETX]) := by simp
    generalize hlrc : xorSum (cs ++ ss ++ payload ++ [ETX]) = lrc
    refine ⟨_, (hreads _ r _).mpr ⟨[STX] ++ (cs ++ (ss ++ (payload ++ ([ETX] ++ [lrc])))), back,
      by simp, ?_, rfl⟩⟩
    refine ⟨(), _, _, rfl, rfl, r.command, cs, _, rfl, hcs, r.subcommand, ss, _, rfl, hss,
      r.data, payload, _, rfl, hpayload, (), _, _, rfl, rfl, (), ?_, rfl⟩
    dsimp only
    rw [hfront, seekAndRead_cons, calculateChecksum, hlrc]

/-- The data bytes that stand for two texts. -/
theorem exists_payload_twoTexts {key : Str} {m n : ℕ} {build : Str → Str → ResponseData}
    (hkey : HasTwoTexts key m n build) {bs : Bytes} :
    (∃ data, Payload key bs data) ↔ bs.length = m + n ∧ ∀ b ∈ bs, b < 128 := by
  rw [← exists_two_paddedStrings_iff]
  simp only [payload_twoTexts hkey]
  constructor
  · rintro ⟨_, first, bs₁, bs₂, hbs, h₁, second, h₂, -⟩
    exact ⟨first, bs₁, bs₂, hbs, h₁, second, h₂⟩
  · rintro ⟨first, bs₁, bs₂, hbs, h₁, second, h₂⟩
    exact ⟨_, first, bs₁, bs₂, hbs, h₁, second, h₂, rfl⟩

/-- The data bytes that stand for texts of one length. -/
theorem exists_payload_texts {key : Str} {count width : ℕ} {build : List Str → ResponseData}
    (hkey : HasTexts key count width build) {bs : Bytes} :
    (∃ data, Payload key bs data) ↔ bs.length = count * width ∧ ∀ b ∈ bs, b < 128 := by
  rw [← exists_array_paddedString_iff]
  simp only [payload_texts hkey]
  constructor
  · rintro ⟨_, texts, h, -⟩
    exact ⟨texts, h⟩
  · rintro ⟨texts, h⟩
    exact ⟨_, texts, h, rfl⟩

/-- How many data bytes a response has, by the four code characters: a response has no field of
variable length. -/
def payloadLength (key : Str) : ℕ :=
  ([("MCDC".toList, 1), ("MCWP".toList, 11), ("RQMI".toList, 13), ("RQIW".toList, 60),
    ("RQID".toList, 12), ("RQER".toList, 16)].lookup key).getD 0

/-- **The data bytes that stand for something**: as many as the schema wants, and ASCII except for
the deadbolt byte, which may be any. -/
theorem exists_payload_iff {key : Str} {bs : Bytes} :
    (∃ data, Payload key bs data) ↔
      bs.length = payloadLength key ∧ (key = "MCDC".toList ∨ ∀ b ∈ bs, b < 128) := by
  by_cases hkey : key ∈ ["MCDC", "MCWP", "RQMI", "RQIW", "RQID", "RQER"].map String.toList
  · simp only [List.map_cons, List.map_nil, List.mem_cons, List.not_mem_nil, or_false] at hkey
    rcases hkey with rfl | rfl | rfl | rfl | rfl | rfl
    · rw [show payloadLength "MCDC".toList = 1 from rfl]
      simp only [payload_deadboltControl, List.length_eq_one_iff, true_or, and_true]
      constructor
      · rintro ⟨_, b, rfl, -⟩
        exact ⟨b, rfl⟩
      · rintro ⟨b, rfl⟩
        exact ⟨_, b, rfl, rfl⟩
    · have htext := @exists_paddedString_iff bs
      rw [show payloadLength "MCWP".toList = 11 from rfl,
        or_iff_right (by decide), ← htext]
      simp only [payload_writeProductId]
      constructor
      · rintro ⟨_, text, ⟨hlen, h⟩, -⟩
        exact ⟨hlen, text, h⟩
      · rintro ⟨hlen, text, h⟩
        exact ⟨_, text, ⟨hlen, h⟩, rfl⟩
    · rw [exists_payload_twoTexts hasTwoTexts_manufacturingInfo, or_iff_right (by decide)]
      rfl
    · rw [exists_payload_texts hasTexts_loadcellWeights, or_iff_right (by decide)]
      rfl
    · rw [exists_payload_twoTexts hasTwoTexts_ioStatus, or_iff_right (by decide)]
      rfl
    · rw [exists_payload_texts hasTexts_errorList, or_iff_right (by decide)]
      rfl
  · have hlen : payloadLength key = 0 := by
      have hlookup : [("MCDC".toList, 1), ("MCWP".toList, 11), ("RQMI".toList, 13),
          ("RQIW".toList, 60), ("RQID".toList, 12), ("RQER".toList, 16)].lookup key =
          none := by
        rw [List.lookup_eq_none_iff]
        intro p hp
        rw [bne_iff_ne]
        rintro rfl
        exact hkey (by simpa using List.mem_map_of_mem (f := Prod.fst) hp)
      rw [payloadLength, hlookup, Option.getD_none]
    rw [hlen, List.length_eq_zero_iff]
    constructor
    · rintro ⟨data, hp⟩
      cases hp with
      | none => exact ⟨rfl, .inr (by simp)⟩
      | _ => simp at hkey
    · rintro ⟨rfl, -⟩
      exact ⟨_, .none hkey⟩

/-! ### The ten commands -/

/-- The four code characters of a command. -/
def Command.key (c : Command) : Str :=
  c.cmd ++ c.subcmd

/-- The four code bytes of a command, as they stand behind the STX. -/
def Command.codes (c : Command) : Bytes :=
  c.key.map fun ch => UInt8.ofNat ch.toNat

/-- The light table of `serial_io` has the lengths of the schema. -/
theorem lookup_responseFrameLengths (c : Command) :
    responseFrameLengths.lookup (c.cmd, c.subcmd) = some (payloadLength c.key + 7) := by
  cases c with
  | managementControl sub => cases sub <;> decide
  | request sub => cases sub <;> decide

/-- The codes of a command are two padded strings without padding. -/
theorem decode_codes (c : Command) :
    ∃ cs ss, c.codes = cs ++ ss ∧ cs.length = 2 ∧ ss.length = 2 ∧
      decodeAscii cs = some c.cmd ∧ decodeAscii ss = some c.subcmd ∧
      stripNulls cs = cs ∧ stripNulls ss = ss := by
  refine ⟨c.codes.take 2, c.codes.drop 2, (List.take_append_drop 2 _).symm, ?_⟩
  cases c with
  | managementControl sub => cases sub <;> decide
  | request sub => cases sub <;> decide

/-- A request of a command is STX, its codes, and the rest of the frame, whatever its data is. -/
theorem buildRequest_eq_ok {c : Command} {data : RequestDict} {message : Bytes}
    (h : buildRequest c.cmd c.subcmd data = .ok message) : ∃ payload,
      message = STX :: c.codes ++ payload ++ [ETX, xorSum (c.codes ++ payload ++ [ETX])] := by
  obtain ⟨cs, ss, hcodes, hcs, hss, hcmd, hsub, -⟩ := decode_codes c
  rw [buildRequest] at h
  split at h
  case h_1 m hbuild =>
      cases h
      rw [RequestProtocol, buildPaddedString_of_length hcmd hcs,
        buildPaddedString_of_length hsub hss] at hbuild
      cases hdata : buildRequestData (c.cmd ++ c.subcmd) data with
      | error e => simp [hdata, Bind.bind, Except.bind] at hbuild
      | ok payload =>
          simp only [hdata, Bind.bind, Except.bind, Pure.pure, Except.pure,
            Except.ok.injEq] at hbuild
          refine ⟨payload, ?_⟩
          rw [← hbuild, hcodes, calculateChecksum]
          simp only [List.cons_append, List.append_assoc, List.nil_append]
  all_goals cases h

/-- Two texts of the codec that decode alike are alike. -/
theorem decodeAscii_injective {bs cs : Bytes} {s : Str} (hbs : decodeAscii bs = some s)
    (hcs : decodeAscii cs = some s) : bs = cs := by
  rw [← encodeAscii_eq_some_iff] at hbs hcs
  exact Option.some.inj (hbs.symm.trans hcs)

/-- The frames that carry the codes of a command. -/
theorem responseCodes_eq_command_iff {c : Command} {frame : Bytes} :
    responseCodes frame = some (c.cmd, c.subcmd) ↔ ∃ tail, frame = STX :: c.codes ++ tail := by
  obtain ⟨cs, ss, hcodes, hcs, hss, hcmd, hsub, -⟩ := decode_codes c
  rw [responseCodes_eq_some_iff, hcodes]
  constructor
  · rintro ⟨c₁, c₂, c₃, c₄, tail, rfl, h₁, h₂⟩
    rw [← decodeAscii_injective h₁ hcmd, ← decodeAscii_injective h₂ hsub]
    exact ⟨tail, rfl⟩
  · rintro ⟨tail, rfl⟩
    obtain ⟨c₁, c₂, rfl⟩ := List.length_eq_two.mp hcs
    obtain ⟨c₃, c₄, rfl⟩ := List.length_eq_two.mp hss
    exact ⟨c₁, c₂, c₃, c₄, tail, rfl, hcmd, hsub⟩

/-- **What `parse_response` makes of a frame with the codes of a command**: the data are those
of that command. -/
theorem parseResponse_command_iff {c : Command} {tail : Bytes} {r : Response} :
    parseResponse (STX :: c.codes ++ tail) = .ok r ↔
      r.command = c.cmd ∧ r.subcommand = c.subcmd ∧ ∃ payload back,
        tail = payload ++ ETX :: xorSum (c.codes ++ payload ++ [ETX]) :: back ∧
        Payload c.key payload r.data := by
  obtain ⟨cs, ss, hcodes, hcs, hss, hcmd, hsub, hcs', hss'⟩ := decode_codes c
  rw [parseResponse_eq_ok_iff, hcodes]
  constructor
  · rintro ⟨cs₁, ss₁, payload, back, hmessage, ⟨hlen₁, h₁⟩, ⟨hlen₂, h₂⟩, hp⟩
    simp only [List.cons_append, List.append_assoc, List.cons.injEq, true_and] at hmessage
    obtain ⟨rfl, hmessage⟩ := List.append_inj hmessage (hcs.trans hlen₁.symm)
    obtain ⟨rfl, rfl⟩ := List.append_inj hmessage (hss.trans hlen₂.symm)
    rw [hcs', hcmd, Option.some.injEq] at h₁
    rw [hss', hsub, Option.some.injEq] at h₂
    refine ⟨h₁.symm, h₂.symm, payload, back, by simp only [List.append_assoc], ?_⟩
    rwa [Command.key, h₁, h₂]
  · rintro ⟨h₁, h₂, payload, back, rfl, hp⟩
    refine ⟨cs, ss, payload, back, by simp, ⟨hcs, ?_⟩, ⟨hss, ?_⟩, ?_⟩
    · rw [hcs', hcmd, h₁]
    · rw [hss', hsub, h₂]
    · rwa [h₁, h₂]

end IoBoard
