import IoBoard.CommandOutcomes
import IoBoard.ManufacturingNumber
import IoBoard.ResponseGrammar

/-!
# The Routers

The routes of `api/v1/routers/management.py` and `machine.py` that send one command, and the
exception handlers of `main.py`: what a client is answered for whatever the board has sent. The
response models check lengths that the schema does not promise, since `PaddedString` drops the
zeros at the end of a field; what they raise is answered like an invalid request.

## The four answers

* A frame that is rejected, by the checks of the parser or by its codes: status 500 with the error
  of the protocol.
* A payload that the command cannot turn into a value: status 500 with the anonymous error, since
  what Python raises is no error of the service.
* A value that the response model refuses: status 422, as if the request were invalid. This can
  only happen where a model checks the length of a field: on the two routes of the manufacturing
  number, and for the error list. The other routes with a product id answer it as it is.
* Anything else: status 200 with the response.

A route is a function of what `fetch` returns or raises, and for the loadcells of the sanitizer and
the time that it reads. `/loadcells` is taken without its cache, and the theorem is about the first
readings after the configuration, where a frame alone decides.

## What is left out

Of the report of pydantic the field and the type of the error are kept. Log messages and the
header `X-Correlation-ID` are left out, and so is how a response is written.

## Main results

* `Route.respond_rejected`, `Route.respond_returned`: what becomes of a command that raises or
  returns.
* `routes_answer`: **which of the four answers a frame of the board gets**.
-/

open Ascii Construct

namespace IoBoard

/-! ### Response models -/

/-- An error in the report of a pydantic `ValidationError`: where it is, and of which type. -/
structure PydanticError where
  loc : String
  type : String
  deriving DecidableEq, Repr

/-- `SuccessResponse`, with the default message of the model. -/
structure SuccessResponse where
  success : Bool := true
  message : String := "Operation completed successfully"
  deriving DecidableEq

/-- `ManufacturingNumberResponse`, whose number has eleven characters. -/
structure ManufacturingNumberResponse where
  manufacturingNumber : Str
  length : manufacturingNumber.length = 11
  deriving DecidableEq

/-- `SoftwareVersionResponse`, which checks nothing. -/
structure SoftwareVersionResponse where
  swVersion : Str
  deriving DecidableEq

/-- `ProductInfoResponse`. Neither of its fields is checked, unlike the number of the model
above. -/
structure ProductInfoResponse where
  productId : Str
  swVersion : Str
  deriving DecidableEq

/-- `ErrorItem`, whose code has four characters. -/
structure ErrorItem where
  code : Str
  length : code.length = 4
  deriving DecidableEq

/-- `ErrorListResponse`, with four items at most. -/
structure ErrorListResponse where
  errors : List ErrorItem
  length : errors.length ≤ 4
  deriving DecidableEq

/-- `DeadboltResponse`. -/
structure DeadboltResponse where
  state : DeadboltState
  deriving DecidableEq

/-- `DoorResponse`. -/
structure DoorResponse where
  state : DoorState
  deriving DecidableEq

/-- `LoadCellsResponse`, with ten readings of any length. -/
structure LoadCellsResponse where
  loadcells : List Str
  length : loadcells.length = 10
  deriving DecidableEq

/-- `IOStatusResponse`. -/
structure IOStatusResponse where
  door : Str
  deadbolt : Str
  deriving DecidableEq

/-- The error of a text, or of a list, that has not the length it should have. It tells whether
there is too little or too much. -/
def lengthError (loc kind : String) (actual expected : ℕ) : PydanticError :=
  ⟨loc, kind ++ if actual < expected then "too_short" else "too_long"⟩

/-- The construction of a `ManufacturingNumberResponse`, whose length is checked in both
directions. -/
def ManufacturingNumberResponse.make (text : Str) :
    Except PydanticError ManufacturingNumberResponse :=
  if h : text.length = 11 then .ok ⟨text, h⟩
  else .error (lengthError "manufacturing_number" "string_" text.length 11)

/-- The construction of an `ErrorItem`. -/
def ErrorItem.make (text : Str) : Except PydanticError ErrorItem :=
  if h : text.length = 4 then .ok ⟨text, h⟩
  else .error (lengthError "code" "string_" text.length 4)

/-- The construction of the items, one after another. -/
def ErrorItem.makeAll : List Str → Except PydanticError (List ErrorItem)
  | [] => .ok []
  | text :: texts =>
      match ErrorItem.make text with
      | .error e => .error e
      | .ok item => (ErrorItem.makeAll texts).map (item :: ·)

/-- The construction of an `ErrorListResponse`. Its items are made first, and the number of them is
checked. -/
def ErrorListResponse.make (errors : List Str) : Except PydanticError ErrorListResponse :=
  match ErrorItem.makeAll errors with
  | .error e => .error e
  | .ok items =>
      if h : items.length ≤ 4 then .ok ⟨items, h⟩ else .error ⟨"errors", "too_long"⟩

/-- The construction of a `LoadCellsResponse`. -/
def LoadCellsResponse.make (values : List Str) : Except PydanticError LoadCellsResponse :=
  if h : values.length = 10 then .ok ⟨values, h⟩
  else .error (lengthError "loadcells" "" values.length 10)

/-- What a route returns: one of the response models. -/
inductive ResponseModel
  | success (r : SuccessResponse)
  | manufacturingNumber (r : ManufacturingNumberResponse)
  | softwareVersion (r : SoftwareVersionResponse)
  | productInfo (r : ProductInfoResponse)
  | errorList (r : ErrorListResponse)
  | deadbolt (r : DeadboltResponse)
  | door (r : DoorResponse)
  | loadcells (r : LoadCellsResponse)
  | ioStatus (r : IOStatusResponse)
  deriving DecidableEq

/-! ### Routes -/

/-- What a route raises: what its command has raised, or the `ValidationError` of its response
model. -/
inductive RouteExc
  | raised (e : PyExc)
  | invalid (e : PydanticError)
  deriving DecidableEq

/-- A route that awaits a command and makes its response of what that returns. -/
def awaiting {α : Type} (outcome : Except PyExc α)
    (make : α → Except PydanticError ResponseModel) : Except RouteExc ResponseModel :=
  match outcome with
  | .error e => .error (.raised e)
  | .ok a => (make a).mapError .invalid

/-- `initialize_device`, the route that sends MCPD. -/
def initializeDevice (fetched : Except PyExc Bytes) : Except RouteExc ResponseModel :=
  awaiting (receiveInitialize fetched) fun _ =>
    .ok (.success { message := "IO Board initialized successfully" })

/-- `calibrate_loadcells`. -/
def calibrateLoadcells (sanitizer : Option LoadcellSanitizer) (fetched : Except PyExc Bytes) :
    Except RouteExc ResponseModel :=
  awaiting (receiveCalibrate sanitizer fetched).2 fun _ =>
    .ok (.success { message := "Calibration completed successfully" })

/-- `get_manufacturing_number`. It answers the product id of the board. -/
def getManufacturingNumber (fetched : Except PyExc Bytes) : Except RouteExc ResponseModel :=
  awaiting (receiveProductInfo fetched) fun info =>
    (ManufacturingNumberResponse.make info.productId).map .manufacturingNumber

/-- `set_manufacturing_number`. It answers what the board has echoed, not what the client has
sent. -/
def setManufacturingNumber (number : Str) (fetched : Except PyExc Bytes) :
    Except RouteExc ResponseModel :=
  awaiting (receiveManufacturingNumber number fetched) fun result =>
    (ManufacturingNumberResponse.make result).map .manufacturingNumber

/-- `get_software_version`. -/
def getSoftwareVersion (fetched : Except PyExc Bytes) : Except RouteExc ResponseModel :=
  awaiting (receiveProductInfo fetched) fun info => .ok (.softwareVersion ⟨info.swVersion⟩)

/-- `reboot_device`. -/
def rebootDevice (fetched : Except PyExc Bytes) : Except RouteExc ResponseModel :=
  awaiting (receiveReboot fetched) fun _ =>
    .ok (.success { message := "Device reboot initiated" })

/-- `get_product_info`. -/
def getProductInfo (fetched : Except PyExc Bytes) : Except RouteExc ResponseModel :=
  awaiting (receiveProductInfo fetched) fun info =>
    .ok (.productInfo ⟨info.productId, info.swVersion⟩)

/-- `get_errors`, with one item for each of the four codes. -/
def getErrors (fetched : Except PyExc Bytes) : Except RouteExc ResponseModel :=
  awaiting (receiveErrors fetched) fun errors => (ErrorListResponse.make errors).map .errorList

/-- `clear_errors`. -/
def clearErrors (fetched : Except PyExc Bytes) : Except RouteExc ResponseModel :=
  awaiting (receiveClearErrors fetched) fun _ =>
    .ok (.success { message := "Error log cleared successfully" })

/-- `get_deadbolt`. -/
def getDeadbolt (fetched : Except PyExc Bytes) : Except RouteExc ResponseModel :=
  awaiting (receiveStatus fetched) fun ioStatus => .ok (.deadbolt ⟨ioStatus.deadbolt⟩)

/-- `get_door`, by the same command as the deadbolt. -/
def getDoor (fetched : Except PyExc Bytes) : Except RouteExc ResponseModel :=
  awaiting (receiveStatus fetched) fun ioStatus => .ok (.door ⟨ioStatus.door⟩)

/-- `handle_loadcells`, for a request that the cache does not answer. The readings are those of the
sanitizer. -/
def handleLoadcells (sanitizer : Option LoadcellSanitizer) (fetched : Except PyExc Bytes)
    (now : PyFloat) : Except RouteExc ResponseModel :=
  awaiting (receiveLoadcells sanitizer fetched now).2 fun values =>
    (LoadCellsResponse.make values).map .loadcells

/-- `handle_status`, which answers both states as texts. -/
def handleStatus (fetched : Except PyExc Bytes) : Except RouteExc ResponseModel :=
  awaiting (receiveStatus fetched) fun ioStatus =>
    .ok (.ioStatus ⟨ioStatus.door.value, ioStatus.deadbolt.value⟩)

/-- The routes that send one command. `POST /deadbolt` sends several and is modelled elsewhere. -/
inductive Route
  | initializeDevice
  | calibrateLoadcells
  | getManufacturingNumber
  | setManufacturingNumber (number : Str)
  | getSoftwareVersion
  | rebootDevice
  | getProductInfo
  | getErrors
  | clearErrors
  | getDeadbolt
  | getDoor
  | handleLoadcells
  | handleStatus
  deriving DecidableEq

namespace Route

/-- The command that a route calls. -/
def call : Route → CommandCall
  | initializeDevice => .initializeBoard
  | calibrateLoadcells => .calibrate
  | getManufacturingNumber | getSoftwareVersion | getProductInfo => .getProductInfo
  | setManufacturingNumber number => .setManufacturingNumber number
  | rebootDevice => .reboot
  | getErrors => .getErrors
  | clearErrors => .clearErrors
  | getDeadbolt | getDoor | handleStatus => .getStatus
  | handleLoadcells => .getLoadcells

/-- A route from `fetch` on. -/
def run (sanitizer : Option LoadcellSanitizer) (fetched : Except PyExc Bytes) (now : PyFloat) :
    Route → Except RouteExc ResponseModel
  | initializeDevice => IoBoard.initializeDevice fetched
  | calibrateLoadcells => IoBoard.calibrateLoadcells sanitizer fetched
  | getManufacturingNumber => IoBoard.getManufacturingNumber fetched
  | setManufacturingNumber number => IoBoard.setManufacturingNumber number fetched
  | getSoftwareVersion => IoBoard.getSoftwareVersion fetched
  | rebootDevice => IoBoard.rebootDevice fetched
  | getProductInfo => IoBoard.getProductInfo fetched
  | getErrors => IoBoard.getErrors fetched
  | clearErrors => IoBoard.clearErrors fetched
  | getDeadbolt => IoBoard.getDeadbolt fetched
  | getDoor => IoBoard.getDoor fetched
  | handleLoadcells => IoBoard.handleLoadcells sanitizer fetched now
  | handleStatus => IoBoard.handleStatus fetched

end Route

/-! ### Exception handlers -/

/-- A response of the application: that of the route, or one of an exception handler. -/
inductive ApiResponse
  | ok (body : ResponseModel)
  | internalServerError (content : ErrorDict)
  | unprocessable (errorCode message : String) (errors : List PydanticError)
  deriving DecidableEq

/-- The status of a response. -/
def ApiResponse.status : ApiResponse → ℕ
  | ok _ => 200
  | internalServerError _ => 500
  | unprocessable .. => 422

/-- `ioboard_error_handler`. Every error of the service is answered with 500. -/
def ioboardErrorHandler (e : IOBoardError) : ApiResponse :=
  .internalServerError e.toDict

/-- `validation_error_handler`, which does not tell a response that is invalid from a request
that is. -/
def validationErrorHandler (e : PydanticError) : ApiResponse :=
  .unprocessable "E4001" "Request validation failed" [e]

/-- `generic_error_handler`, for what no other handler takes. -/
def genericErrorHandler : ApiResponse :=
  .internalServerError ⟨"E9001", "Internal server error", []⟩

/-- The answer to a request; a request that is cancelled gets none. -/
def respond : Except RouteExc ResponseModel → Option ApiResponse
  | .ok body => some (.ok body)
  | .error (.invalid e) => some (validationErrorHandler e)
  | .error (.raised (.ioBoard e)) => some (ioboardErrorHandler e)
  | .error (.raised .cancelledError) => none
  | .error (.raised _) => some genericErrorHandler

/-- What a client is answered, if it is. The handlers are tried from the most specific one on. -/
def Route.respond (route : Route) (sanitizer : Option LoadcellSanitizer)
    (fetched : Except PyExc Bytes) (now : PyFloat) : Option ApiResponse :=
  IoBoard.respond (route.run sanitizer fetched now)

/-! ### Commands that raise -/

/-- What is no error of the service is answered without its details. -/
theorem respond_generic {e : PyExc} (he : e.isException = true) (hio : e.isIOBoardError = false) :
    respond (.error (.raised e)) = some genericErrorHandler := by
  cases e with
  | cancelledError => cases he
  | ioBoard err => cases hio
  | _ => rfl

/-- What `receiveResponse` raises is an error of the protocol, which `_session` lets pass as it
is. -/
theorem exists_of_receiveResponse_error {c : Command} {frame : Bytes} {e : PyExc}
    (h : receiveResponse c frame = .error e) : ∃ err : IOBoardError, e = .ioBoard err ∧
      ∀ name kwargs, session name kwargs e = .ioBoard err := by
  obtain ⟨err, rfl, hkind⟩ : ∃ err : IOBoardError, e = .ioBoard err ∧ err.kind = .protocol := by
    rw [receiveResponse] at h
    cases hparse : parseResponse frame with
    | error e' =>
        rw [hparse] at h
        obtain rfl := Except.error.inj h
        rw [parseResponse] at hparse
        split at hparse
        · cases hparse
        · cases hparse
          refine ⟨_, rfl, ?_⟩
          unfold parseError
          dsimp only
          split_ifs <;> rfl
    | ok r =>
        rw [hparse] at h
        dsimp only at h
        split_ifs at h
        cases h
        exact ⟨_, rfl, rfl⟩
  exact ⟨err, rfl, fun name kwargs => by rw [session, if_neg (by simp [hkind])]⟩

/-- `_session` lets the exceptions of the language pass. -/
theorem session_of_not_isIOBoardError {e : PyExc} (h : e.isIOBoardError = false) (name : String)
    (kwargs : List (String × Detail)) : session name kwargs e = e := by
  cases e with
  | ioBoard err => cases h
  | _ => rfl

section Session

variable {α : Type} {c : Command} {frame : Bytes} {fields : Response → Except PyExc α}
  {name : String} {kwargs : List (String × Detail)} {make : α → Except PydanticError ResponseModel}

/-- A frame that is rejected. -/
theorem respond_rejected {e : PyExc} (h : receiveResponse c frame = .error e) :
    ∃ err, e = .ioBoard err ∧ respond (awaiting (((((Except.ok frame).bind
        (receiveResponse c)).bind fields).mapError (session name kwargs))) make) =
      some (ioboardErrorHandler err) := by
  obtain ⟨err, rfl, hsession⟩ := exists_of_receiveResponse_error h
  refine ⟨err, rfl, ?_⟩
  rw [Except.bind, h, Except.bind, Except.mapError, hsession]
  rfl

/-- A frame whose fields raise what is no error of the service. -/
theorem respond_fields_error {r : Response} (h : receiveResponse c frame = .ok r) {e : PyExc}
    (he : fields r = .error e) (hexc : e.isException = true) (hio : e.isIOBoardError = false) :
    respond (awaiting (((((Except.ok frame).bind (receiveResponse c)).bind fields).mapError
      (session name kwargs))) make) = some genericErrorHandler := by
  rw [Except.bind, h, Except.bind, he, Except.mapError, session_of_not_isIOBoardError hio]
  exact respond_generic hexc hio

/-- A frame whose fields are returned. -/
theorem respond_fields_ok {r : Response} (h : receiveResponse c frame = .ok r) {a : α}
    (ha : fields r = .ok a) :
    respond (awaiting (((((Except.ok frame).bind (receiveResponse c)).bind fields).mapError
      (session name kwargs))) make) = respond ((make a).mapError .invalid) := by
  rw [Except.bind, h, Except.bind, ha]
  rfl

end Session

/-! ### Padded fields -/

/-- The last byte decides whether a field is shorter than its bytes. -/
theorem length_stripNulls_eq_iff {bs : Bytes} {n : ℕ} (hlen : bs.length = n + 1) :
    (stripNulls bs).length = n + 1 ↔ bs[n]? ≠ some 0 := by
  induction bs using List.reverseRecOn with
  | nil => cases hlen
  | append_singleton init last _ =>
      obtain rfl : init.length = n := by simpa using hlen
      rw [List.getElem?_concat_length, stripNulls, List.reverse_append, List.reverse_singleton,
        List.singleton_append, List.dropWhile_cons, ne_eq, Option.some.injEq]
      by_cases hzero : last = 0
      · have hle := (stripNulls_isPrefix init).length_le
        rw [stripNulls] at hle
        simp only [hzero, decide_true, if_true, not_true_eq_false, iff_false]
        omega
      · simp [hzero]

/-- The length of a text field: that of its bytes, unless the last one is a zero. -/
theorem length_text_eq_iff {bs : Bytes} {text : Str} {n : ℕ} (hlen : bs.length = n + 1)
    (htext : decodeAscii (stripNulls bs) = some text) :
    text.length = n + 1 ↔ bs[n]? ≠ some 0 := by
  rw [length_decodeAscii htext]
  exact length_stripNulls_eq_iff hlen

/-- The payload of a frame begins at the sixth byte. -/
theorem exists_payload_of_receiveResponse {c : Command} {frame : Bytes} {r : Response}
    (h : receiveResponse c frame = .ok r) : ∃ payload, Payload c.key payload r.data ∧
      ∀ j < payload.length, frame[5 + j]? = payload[j]? := by
  obtain ⟨hparse, hcmd, hsub⟩ := receiveResponse_eq_ok_iff.mp h
  obtain ⟨cs, ss, payload, back, hframe, ⟨hcs, -⟩, ⟨hss, -⟩, hpayload⟩ :=
    parseResponse_eq_ok_iff.mp hparse
  rw [hcmd, hsub] at hpayload
  refine ⟨payload, hpayload, fun j hj => ?_⟩
  have hfront : (STX :: cs ++ ss).length = 5 := by simp [hcs, hss]
  rw [hframe, List.append_assoc, ← hfront, List.getElem?_append_right (Nat.le_add_right ..),
    Nat.add_sub_cancel_left, List.getElem?_append_left hj]

/-- The bytes of a row of fields of one width. -/
theorem getElem?_flatten {parts : List Bytes} {width : ℕ} (h : ∀ part ∈ parts, part.length = width)
    {i j : ℕ} {part : Bytes} (hi : parts[i]? = some part) (hj : j < width) :
    parts.flatten[width * i + j]? = part[j]? := by
  induction parts generalizing i with
  | nil => cases hi
  | cons first parts ih =>
      obtain ⟨hfirst, hparts⟩ := List.forall_mem_cons.mp h
      cases i with
      | zero =>
          obtain rfl := Option.some.inj hi
          rw [List.flatten_cons, Nat.mul_zero, Nat.zero_add,
            List.getElem?_append_left (by omega)]
      | succ i =>
          have hle : first.length ≤ width * (i + 1) + j := by
            rw [hfirst, Nat.mul_succ]
            omega
          rw [List.flatten_cons, List.getElem?_append_right hle, ← ih hparts hi]
          congr 1
          rw [hfirst, Nat.mul_succ]
          omega

theorem length_flatten_of_forall {parts : List Bytes} {width : ℕ}
    (h : ∀ part ∈ parts, part.length = width) : parts.flatten.length = width * parts.length := by
  rw [List.length_flatten, List.map_congr_left h, List.map_const', List.sum_replicate_nat,
    Nat.mul_comm]

/-- The fields of a row have its width. -/
theorem forall_length_of_forall₂ {parts : List Bytes} {texts : List Str} {width : ℕ}
    (h : List.Forall₂ (fun bs text => bs.length = width ∧
      decodeAscii (stripNulls bs) = some text) parts texts) :
    ∀ part ∈ parts, part.length = width := by
  intro part hmem
  obtain ⟨i, hi, rfl⟩ := List.mem_iff_getElem.mp hmem
  exact ((List.forall₂_iff_get.mp h).2 i hi (h.length_eq ▸ hi)).1

/-- A row of fields one of which is too short. -/
theorem exists_length_ne_iff {parts : List Bytes} {texts : List Str} {n : ℕ}
    (h : List.Forall₂ (fun bs text => bs.length = n + 1 ∧
      decodeAscii (stripNulls bs) = some text) parts texts) :
    (∃ text ∈ texts, text.length ≠ n + 1) ↔
      ∃ i < parts.length, parts.flatten[(n + 1) * i + n]? = some 0 := by
  have hlen := forall_length_of_forall₂ h
  have hpadded {i : ℕ} (hi : i < parts.length) (hi' : i < texts.length) :
      texts[i].length ≠ n + 1 ↔ parts.flatten[(n + 1) * i + n]? = some 0 := by
    obtain ⟨hpart, htext⟩ := (List.forall₂_iff_get.mp h).2 i hi hi'
    rw [getElem?_flatten hlen (List.getElem?_eq_getElem hi) (Nat.lt_succ_self n)]
    exact (not_congr (length_text_eq_iff hpart htext)).trans not_not
  constructor
  · rintro ⟨text, hmem, hne⟩
    obtain ⟨i, hi, rfl⟩ := List.mem_iff_getElem.mp hmem
    have hi' : i < parts.length := h.length_eq.symm ▸ hi
    exact ⟨i, hi', (hpadded hi' hi).mp hne⟩
  · rintro ⟨i, hi, hzero⟩
    have hi' : i < texts.length := h.length_eq ▸ hi
    exact ⟨texts[i], List.getElem_mem hi', (hpadded hi hi').mpr hzero⟩

namespace Route

/-- The routes whose response model checks the length of a field, and a frame that has a zero at
the end of such a field: of the product id, or of one of the four error codes. -/
def Padded : Route → Bytes → Prop
  | getManufacturingNumber, frame | setManufacturingNumber _, frame => frame[15]? = some 0
  | getErrors, frame => ∃ i < 4, frame[5 + (4 * i + 3)]? = some 0
  | _, _ => False

end Route

/-! ### What the routes make of a frame -/

/-- What a route makes of an accepted frame: `tame` tells that the command returns, `padded` that
the response model raises. -/
inductive RouteAnswer (response : Option ApiResponse) (tame padded : Prop) : Prop
  | unknown (h : response = some genericErrorHandler) (htame : ¬ tame) (hpadded : ¬ padded)
  | invalid (e : PydanticError) (h : response = some (validationErrorHandler e)) (htame : tame)
      (hpadded : padded)
  | answered (body : ResponseModel) (h : response = some (.ok body)) (htame : tame)
      (hpadded : ¬ padded)

theorem RouteAnswer.congr {response : Option ApiResponse} {tame tame' padded padded' : Prop}
    (h : RouteAnswer response tame padded) (htame : tame ↔ tame') (hpadded : padded ↔ padded') :
    RouteAnswer response tame' padded' := by
  rwa [← htame, ← hpadded]

/-- A response model that checks nothing. -/
theorem answer_ok (body : ResponseModel) :
    RouteAnswer (respond ((Except.ok body : Except PydanticError ResponseModel).mapError .invalid))
      True False :=
  .answered body rfl trivial not_false

/-- The response with a manufacturing number. -/
theorem answer_manufacturingNumber (text : Str) :
    RouteAnswer (respond (((ManufacturingNumberResponse.make text).map
      .manufacturingNumber).mapError .invalid)) True (text.length ≠ 11) := by
  rw [ManufacturingNumberResponse.make]
  split_ifs with hlen
  · exact .answered _ rfl trivial (not_not_intro hlen)
  · exact .invalid _ rfl trivial hlen

theorem makeAll_of_length {texts : List Str} (h : ∀ text ∈ texts, text.length = 4) :
    ∃ items, ErrorItem.makeAll texts = .ok items ∧ items.length = texts.length := by
  induction texts with
  | nil => exact ⟨[], rfl, rfl⟩
  | cons text texts ih =>
      obtain ⟨htext, htexts⟩ := List.forall_mem_cons.mp h
      obtain ⟨items, hitems, hcount⟩ := ih htexts
      refine ⟨⟨text, htext⟩ :: items, ?_, congrArg _ hcount⟩
      rw [ErrorItem.makeAll, ErrorItem.make, dif_pos htext, hitems]
      rfl

theorem makeAll_of_exists {texts : List Str} (h : ∃ text ∈ texts, text.length ≠ 4) :
    ∃ e, ErrorItem.makeAll texts = .error e := by
  induction texts with
  | nil =>
      obtain ⟨text, hmem, -⟩ := h
      cases hmem
  | cons text texts ih =>
      by_cases htext : text.length = 4
      · obtain ⟨e, he⟩ := ih (by
          obtain ⟨text', hmem, hlen⟩ := h
          obtain rfl | hmem := List.mem_cons.mp hmem
          · exact absurd htext hlen
          · exact ⟨text', hmem, hlen⟩)
        refine ⟨e, ?_⟩
        rw [ErrorItem.makeAll, ErrorItem.make, dif_pos htext, he]
        rfl
      · refine ⟨lengthError "code" "string_" text.length 4, ?_⟩
        rw [ErrorItem.makeAll, ErrorItem.make, dif_neg htext]

/-- The response with the error codes. -/
theorem answer_errorList {texts : List Str} (hcount : texts.length = 4) :
    RouteAnswer (respond (((ErrorListResponse.make texts).map .errorList).mapError .invalid)) True
      (∃ text ∈ texts, text.length ≠ 4) := by
  rw [ErrorListResponse.make]
  by_cases hlen : ∃ text ∈ texts, text.length ≠ 4
  · obtain ⟨e, he⟩ := makeAll_of_exists hlen
    rw [he]
    exact .invalid e rfl trivial hlen
  · have hall : ∀ text ∈ texts, text.length = 4 := by
      intro text hmem
      by_contra hne
      exact hlen ⟨text, hmem, hne⟩
    obtain ⟨items, hitems, hitemCount⟩ := makeAll_of_length hall
    rw [hitems]
    dsimp only
    rw [dif_pos (by omega)]
    exact .answered _ rfl trivial hlen

/-! ### Readings that are not rendered -/

/-- What the sanitizer raises is what Python raises for an integer that is none: `OverflowError` or
`ValueError`. -/
theorem exists_integerError_of_sanitizeEntry {cfg : SanitizeModel} {st : ChannelState} {raw : Str}
    {ts : PyFloat} {e : PyExc} (h : (sanitizeEntry cfg st raw ts).2 = .error e) :
    ∃ x, e = integerError x := by
  rw [sanitizeEntry] at h
  split at h
  · cases h
  · dsimp only at h
    split at h
    · rename_i hquantize
      obtain rfl := Except.error.inj h
      rw [ChannelState.quantize] at hquantize
      split_ifs at hquantize
      split at hquantize
      · cases hquantize
      · cases hup : halfUp cfg _ with
        | ok w =>
            rw [hup] at hquantize
            cases hquantize
        | error e' =>
            rw [hup] at hquantize
            obtain rfl := Except.error.inj hquantize
            rw [halfUp] at hup
            split at hup
            · cases hup
            · exact ⟨_, (Except.error.inj hup).symm⟩
    · dsimp only at h
      split_ifs at h
      rw [format] at h
      split at h
      · cases h
      · exact ⟨_, (Except.error.inj h).symm⟩

theorem exists_integerError_of_sanitizeEntries {cfg : SanitizeModel} {sts : List ChannelState}
    {values : List Str} {ts : PyFloat} {e : PyExc}
    (h : (sanitizeEntries cfg ts sts values).2 = .error e) : ∃ x, e = integerError x := by
  induction sts generalizing values with
  | nil => cases h
  | cons st sts ih =>
      cases values with
      | nil => cases h
      | cons raw values =>
          rw [sanitizeEntries] at h
          split at h
          · rename_i hentry
            cases h
            exact exists_integerError_of_sanitizeEntry (congrArg Prod.snd hentry)
          · dsimp only at h
            cases hrest : (sanitizeEntries cfg ts sts values).2 with
            | error e' =>
                rw [hrest] at h
                obtain rfl := Except.error.inj h
                exact ih hrest
            | ok rest =>
                rw [hrest] at h
                cases h

theorem isException_of_sanitizeLoadcells {s : Option LoadcellSanitizer} {values : List Str}
    {now : PyFloat} {e : PyExc} (h : (sanitizeLoadcells s values now).2 = .error e) :
    e.isException = true ∧ e.isIOBoardError = false := by
  cases s with
  | none => cases h
  | some s =>
      obtain ⟨x, rfl⟩ := exists_integerError_of_sanitizeEntries
        (show (sanitizeEntries s.config now s.channels values).2 = .error e from h)
      cases x <;> exact ⟨rfl, rfl⟩

/-- The outcome of `get_loadcells` for an accepted frame. -/
theorem receiveLoadcells_of_receiveResponse {frame : Bytes} {r : Response} {values : List Str}
    (hr : receiveResponse (.request .loadcellWeights) frame = .ok r)
    (hdata : r.data = .loadcellWeights values) (s : Option LoadcellSanitizer) (now : PyFloat) :
    (receiveLoadcells s (.ok frame) now).2 =
      (sanitizeLoadcells s values now).2.mapError (session "get_loadcells" []) := by
  rw [receiveLoadcells, Except.bind, hr]
  dsimp only
  rw [hdata]
  rfl

/-- Ten readings are rendered or not. -/
theorem answer_loadcells {frame : Bytes} {r : Response} {values : List Str}
    (hr : receiveResponse (.request .loadcellWeights) frame = .ok r)
    (hdata : r.data = .loadcellWeights values) (hlen : values.length = 10)
    (s : Option LoadcellSanitizer) (now : PyFloat) :
    RouteAnswer (Route.handleLoadcells.respond s (.ok frame) now)
      (∃ out, (sanitizeLoadcells s values now).2 = .ok out) False := by
  rw [Route.respond, Route.run, handleLoadcells,
    receiveLoadcells_of_receiveResponse hr hdata]
  cases hout : (sanitizeLoadcells s values now).2 with
  | error e =>
      obtain ⟨hexc, hio⟩ := isException_of_sanitizeLoadcells hout
      refine .unknown ?_ (fun h => by
        obtain ⟨out, h⟩ := h
        cases h) not_false
      rw [Except.mapError, session_of_not_isIOBoardError hio]
      exact respond_generic hexc hio
  | ok out =>
      have hcount : out.length = 10 := by
        cases s with
        | none => exact (Except.ok.inj hout) ▸ hlen
        | some s =>
            have hentries : (sanitizeEntries s.config now s.channels values).2 = .ok out := hout
            exact (length_of_sanitizeEntries hentries).trans hlen
      refine .answered (.loadcells ⟨out, hcount⟩) ?_ ⟨out, rfl⟩ not_false
      rw [Except.mapError, awaiting, LoadCellsResponse.make, dif_pos hcount]
      rfl

/-- A frame whose fields are returned to the response model. -/
theorem answer_fields_ok {α : Type} {c : Command} {frame : Bytes} {r : Response}
    {f : Response → Except PyExc α} {name : String} {kwargs : List (String × Detail)}
    {make : α → Except PydanticError ResponseModel} {tame padded : Prop}
    (hr : receiveResponse c frame = .ok r) {a : α} (ha : f r = .ok a)
    (h : RouteAnswer (respond ((make a).mapError .invalid)) tame padded) :
    RouteAnswer (respond (awaiting (((((Except.ok frame).bind (receiveResponse c)).bind f).mapError
      (session name kwargs))) make)) tame padded := by
  rwa [respond_fields_ok hr ha]

namespace Route

/-- The commands without a result. -/
theorem answer_acknowledgement {c : Command} {frame : Bytes} {r : Response}
    (hr : receiveResponse c frame = .ok r) (name : String) (body : ResponseModel) :
    RouteAnswer (IoBoard.respond (awaiting (receiveAcknowledgement name c (.ok frame))
      fun _ => .ok body)) True False := by
  rw [receiveAcknowledgement, Except.bind, hr]
  exact answer_ok body

/-- The routes that answer a status. -/
theorem answer_status {frame : Bytes} {r : Response}
    (hr : receiveResponse (.request .ioStatus) frame = .ok r)
    (make : IOStatusData → ResponseModel) (rendered : Str → Prop) :
    RouteAnswer (IoBoard.respond (awaiting (receiveStatus (.ok frame)) fun status =>
        .ok (make status)))
      (CommandCall.getStatus.TameData rendered r.data) False := by
  obtain ⟨payload, hpayload⟩ := payload_of_receiveResponse hr
  obtain ⟨door, -, -, -, -, deadbolt, -, hdata⟩ :=
    (payload_twoTexts hasTwoTexts_ioStatus).mp hpayload
  have htame : CommandCall.getStatus.TameData rendered r.data ↔
      (∃ state, DoorState.ofText? door = some state) ∧
        ∃ state, DeadboltState.ofText? deadbolt = some state := by
    rw [hdata, DoorState.exists_ofText?_iff, DeadboltState.exists_ofText?_iff]
    exact Iff.rfl
  have hfields : r.data.status = (ResponseData.ioStatus door deadbolt).status := by
    rw [hdata]
  rw [ResponseData.status] at hfields
  cases hdoor : DoorState.ofText? door with
  | none =>
      rw [hdoor] at hfields
      refine .unknown (respond_fields_error hr hfields rfl rfl) ?_ not_false
      rw [htame, hdoor]
      simp
  | some d =>
      cases hdeadbolt : DeadboltState.ofText? deadbolt with
      | none =>
          rw [hdoor, hdeadbolt] at hfields
          refine .unknown (respond_fields_error hr hfields rfl rfl) ?_ not_false
          rw [htame, hdeadbolt]
          simp
      | some b =>
          rw [hdoor, hdeadbolt] at hfields
          refine .answered (make ⟨d, b⟩) (respond_fields_ok hr hfields) ?_ not_false
          rw [htame]
          exact ⟨⟨d, hdoor⟩, b, hdeadbolt⟩

/-- **What a route makes of an accepted frame**, by the cases of the route. -/
theorem answer (config : SanitizeModel) (route : Route) (s : Option LoadcellSanitizer)
    (now : PyFloat) (hroute : route ≠ handleLoadcells ∨ s = configureSanitizer config)
    {frame : Bytes} {r : Response} (hr : receiveResponse route.call.command frame = .ok r) :
    RouteAnswer (route.respond s (.ok frame) now)
      (route.call.TameData (RendersFreshText config) r.data) (route.Padded frame) := by
  obtain ⟨payload, hpayload, hbytes⟩ := exists_payload_of_receiveResponse hr
  cases route with
  | initializeDevice => exact answer_acknowledgement hr _ _
  | rebootDevice => exact answer_acknowledgement hr _ _
  | clearErrors => exact answer_acknowledgement hr _ _
  | calibrateLoadcells =>
      have hack := answer_acknowledgement hr "calibrate"
        (.success { message := "Calibration completed successfully" })
      rw [respond, run, IoBoard.calibrateLoadcells, receiveCalibrate]
      change RouteAnswer (IoBoard.respond (awaiting (receiveAcknowledgement "calibrate"
        (.managementControl .calibrate) (.ok frame)) _)) _ _ at hack
      cases hout : receiveAcknowledgement "calibrate" (.managementControl .calibrate)
          (.ok frame) with
      | error e =>
          rw [hout] at hack
          exact hack
      | ok a => exact answer_ok _
  | getManufacturingNumber =>
      obtain ⟨productId, bs₁, bs₂, rfl, ⟨hlen, htext⟩, swVersion, -, hdata⟩ :=
        (payload_twoTexts hasTwoTexts_manufacturingInfo).mp hpayload
      have hfields : r.data.productInfo = .ok ⟨productId, swVersion⟩ := by
        rw [hdata]
        rfl
      refine answer_fields_ok (f := (·.data.productInfo)) hr hfields
        ((answer_manufacturingNumber productId).congr ?_ ?_)
      · rw [hdata]
        exact Iff.rfl
      · have hbyte := hbytes 10 (by rw [List.length_append]; omega)
        rw [List.getElem?_append_left (by omega)] at hbyte
        rw [Padded, hbyte, ne_eq, length_text_eq_iff hlen htext, not_not]
  | setManufacturingNumber number =>
      obtain ⟨text, ⟨hlen, htext⟩, hdata⟩ := payload_writeProductId.mp hpayload
      have hfields : r.data.productId = .ok text := by
        rw [hdata]
        rfl
      refine answer_fields_ok (f := (·.data.productId)) hr hfields
        ((answer_manufacturingNumber text).congr ?_ ?_)
      · rw [hdata]
        exact Iff.rfl
      · have hbyte := hbytes 10 (by omega)
        rw [Padded, hbyte, ne_eq, length_text_eq_iff hlen htext, not_not]
  | getSoftwareVersion | getProductInfo =>
      obtain ⟨productId, -, -, -, -, swVersion, -, hdata⟩ :=
        (payload_twoTexts hasTwoTexts_manufacturingInfo).mp hpayload
      have hfields : r.data.productInfo = .ok ⟨productId, swVersion⟩ := by
        rw [hdata]
        rfl
      refine answer_fields_ok (f := (·.data.productInfo)) hr hfields
        ((answer_ok _).congr ?_ Iff.rfl)
      rw [hdata]
      exact Iff.rfl
  | getErrors =>
      obtain ⟨texts, ⟨parts, rfl, hcount, hparts⟩, hdata⟩ :=
        (payload_texts hasTexts_errorList).mp hpayload
      have hfields : r.data.errors = .ok texts := by
        rw [hdata]
        rfl
      have htexts : texts.length = 4 := hparts.length_eq.symm.trans hcount
      refine answer_fields_ok (f := (·.data.errors)) hr hfields
        ((answer_errorList htexts).congr ?_ ?_)
      · rw [hdata]
        exact Iff.rfl
      · rw [Padded, exists_length_ne_iff hparts, hcount]
        refine exists_congr fun i => and_congr_right fun hi => ?_
        have hle := length_flatten_of_forall (forall_length_of_forall₂ hparts)
        rw [hbytes (4 * i + 3) (by omega)]
  | getDeadbolt => exact answer_status hr _ _
  | getDoor => exact answer_status hr _ _
  | handleStatus => exact answer_status hr _ _
  | handleLoadcells =>
      obtain rfl := hroute.resolve_left (not_not_intro rfl)
      obtain ⟨values, hdata, hlen, hreceive⟩ := CommandCall.receive_getLoadcells hr
      refine (answer_loadcells hr hdata hlen _ now).congr ?_ Iff.rfl
      have hfresh := CommandCall.declared_fresh_iff config frame now
      rw [hreceive, CommandCall.declared_loadcells_iff hlen] at hfresh
      rw [hfresh, CommandCall.Tame]
      exact ⟨fun h => h r hr, fun h r' hr' => by
        obtain rfl := Except.ok.inj (hr.symm.trans hr')
        exact h⟩

/-- A command without a result raises the error of a rejected frame. -/
theorem receiveAcknowledgement_of_error {c : Command} {frame : Bytes} {err : IOBoardError}
    (he : receiveResponse c frame = .error (.ioBoard err))
    (hsession : ∀ name kwargs, session name kwargs (.ioBoard err) = .ioBoard err)
    (name : String) : receiveAcknowledgement name c (.ok frame) = .error (.ioBoard err) := by
  rw [receiveAcknowledgement, Except.bind, he, Except.map, Except.mapError, hsession]

/-- **A frame that is rejected** is answered with the error of the protocol, on every route. -/
theorem rejected (route : Route) (s : Option LoadcellSanitizer) (now : PyFloat) {frame : Bytes}
    {e : PyExc} (he : receiveResponse route.call.command frame = .error e) :
    ∃ err, e = .ioBoard err ∧
      route.respond s (.ok frame) now = some (ioboardErrorHandler err) := by
  cases route with
  | initializeDevice =>
      obtain ⟨err, rfl, hsession⟩ := exists_of_receiveResponse_error he
      refine ⟨err, rfl, ?_⟩
      have hack : receiveInitialize (.ok frame) = .error (.ioBoard err) :=
        receiveAcknowledgement_of_error he hsession _
      rw [respond, run, IoBoard.initializeDevice, hack]
      rfl
  | rebootDevice =>
      obtain ⟨err, rfl, hsession⟩ := exists_of_receiveResponse_error he
      refine ⟨err, rfl, ?_⟩
      have hack : receiveReboot (.ok frame) = .error (.ioBoard err) :=
        receiveAcknowledgement_of_error he hsession _
      rw [respond, run, IoBoard.rebootDevice, hack]
      rfl
  | clearErrors =>
      obtain ⟨err, rfl, hsession⟩ := exists_of_receiveResponse_error he
      refine ⟨err, rfl, ?_⟩
      have hack : receiveClearErrors (.ok frame) = .error (.ioBoard err) :=
        receiveAcknowledgement_of_error he hsession _
      rw [respond, run, IoBoard.clearErrors, hack]
      rfl
  | calibrateLoadcells =>
      obtain ⟨err, rfl, hsession⟩ := exists_of_receiveResponse_error he
      refine ⟨err, rfl, ?_⟩
      have hack : receiveAcknowledgement "calibrate" (.managementControl .calibrate) (.ok frame) =
          .error (.ioBoard err) := receiveAcknowledgement_of_error he hsession _
      rw [respond, run, IoBoard.calibrateLoadcells, receiveCalibrate, hack]
      rfl
  | handleLoadcells =>
      obtain ⟨err, rfl, hsession⟩ := exists_of_receiveResponse_error he
      refine ⟨err, rfl, ?_⟩
      have hreceive : (receiveLoadcells s (.ok frame) now).2 = .error (.ioBoard err) := by
        change receiveResponse (.request .loadcellWeights) frame = _ at he
        rw [receiveLoadcells, Except.bind, he]
        dsimp only
        rw [Except.mapError, hsession]
      rw [respond, run, IoBoard.handleLoadcells, hreceive]
      rfl
  | getManufacturingNumber | setManufacturingNumber number | getSoftwareVersion
  | getProductInfo | getErrors | getDeadbolt | getDoor | handleStatus =>
      exact respond_rejected he

end Route

/-- **The answers of the routes.** For every frame that `fetch` returns: a frame that is rejected is
answered with the error of the protocol, status 500. An accepted one is answered with the
response, status 200, with the anonymous error, status 500, exactly when it has a state that the
enumerations do not know or a reading that cannot be rendered, and with status 422, as if the
request were not valid, exactly when a product id or an error code of it ends with a zero. -/
theorem routes_answer (config : SanitizeModel) (route : Route) (s : Option LoadcellSanitizer)
    (now : PyFloat) (frame : Bytes)
    (hroute : route ≠ .handleLoadcells ∨ s = configureSanitizer config) :
    (∀ e, receiveResponse route.call.command frame = .error e → ∃ err, e = .ioBoard err ∧
        route.respond s (.ok frame) now = some (ioboardErrorHandler err)) ∧
      ∀ r, receiveResponse route.call.command frame = .ok r →
        (((∃ body, route.respond s (.ok frame) now = some (.ok body)) ↔
            route.call.TameData (RendersFreshText config) r.data ∧ ¬ route.Padded frame) ∧
          (route.respond s (.ok frame) now = some genericErrorHandler ↔
            ¬ route.call.TameData (RendersFreshText config) r.data) ∧
          ((∃ e, route.respond s (.ok frame) now = some (validationErrorHandler e)) ↔
            route.Padded frame)) := by
  refine ⟨fun e he => route.rejected s now he, fun r hr => ?_⟩
  cases route.answer config s now hroute hr with
  | unknown h htame hpadded => simp [h, htame, hpadded, genericErrorHandler, validationErrorHandler]
  | invalid e h htame hpadded =>
      simp [h, htame, hpadded, genericErrorHandler, validationErrorHandler]
  | answered body h htame hpadded =>
      simp [h, htame, hpadded, genericErrorHandler, validationErrorHandler]

/-- The product id of this frame ends with a zero. -/
def paddedInfoFrame : Bytes :=
  [2, 82, 81, 77, 73, 65, 66, 67, 49, 50, 51, 52, 53, 54, 55, 0, 48, 49, 3, 117]

theorem receiveResponse_paddedInfoFrame :
    receiveResponse (.request .manufacturingInfo) paddedInfoFrame =
      .ok ⟨"RQ".toList, "MI".toList, .manufacturingInfo "ABC1234567".toList "01".toList⟩ := by
  decide +kernel

/-- The same frame is a valid answer to one route and an invalid request of another. -/
theorem routes_answer_paddedInfoFrame :
    (∃ body, Route.getProductInfo.respond none (.ok paddedInfoFrame) 0 = some (.ok body)) ∧
      ∃ e, Route.getManufacturingNumber.respond none (.ok paddedInfoFrame) 0 =
        some (validationErrorHandler e) :=
  ⟨((routes_answer {} .getProductInfo none 0 paddedInfoFrame (.inl (by simp))).2 _
      receiveResponse_paddedInfoFrame).1.mpr ⟨trivial, not_false⟩,
    ((routes_answer {} .getManufacturingNumber none 0 paddedInfoFrame (.inl (by simp))).2 _
      receiveResponse_paddedInfoFrame).2.2.mpr rfl⟩

end IoBoard
