import IoBoard.RaisingReadings
import IoBoard.Validators

/-!
# Outcomes of the Commands

What the ten functions of `commands.py` return or raise on a response frame. The schema accepts
any byte for a deadbolt and any six ASCII characters for a state, the enumerations raise
`ValueError` on what they do not know, and the sanitizer raises on numbers that it cannot render.

## Declared outcomes

A function declares what it returns and that it raises `IOBoardError`s. An outcome is *declared*
when it is a value of that type (ten readings, for `get_loadcells`) or such an error. Everything
that is wrong with a frame as a frame is declared: the parser, the codes and the wrong kind of
data are all turned into errors of the service by `_session`. What is not declared comes from the
payload of a frame that has passed, and `Tame` is the condition on the payload: states that the
enumerations know, and readings that the sanitizer renders.

## Runs

The sanitizer has a history, so the outcome of `get_loadcells` depends on earlier frames. A run is
a list of exchanges, each a call with the frame that `fetch` returns to it, and the time that the
sanitizer reads. With readings that are rendered in both signs every outcome of a run is
declared. The exact condition, in both directions, is about the calls without the sanitizer and
about the first readings after its configuration.

## Main results

* `declared_iff_tame`: without the sanitizer, an outcome is declared exactly when the states in
  the payload are known.
* `RendersAll.receive`: the step of a run — while the readings are rendered, an outcome is declared.
* `commands_declared`: **the frames on which the commands fail with declared errors only**.
-/

open Ascii Construct PyFloat

namespace IoBoard

/-! ### Commands and their outcomes -/

/-- A call of a command function, with its arguments. -/
inductive CommandCall
  | initializeBoard
  | setDeadbolt (action : DeadboltAction)
  | calibrate
  | setManufacturingNumber (manufacturingNumber : Str)
  | clearErrors
  | reboot
  | getProductInfo
  | getLoadcells
  | getStatus
  | getErrors
  deriving DecidableEq

/-- What a command function returns. There is one type for all of them, and `Returns` tells
which values belong to which function. -/
inductive CommandResult
  | nothing
  | deadboltState (state : DeadboltState)
  | manufacturingNumber (number : Str)
  | productInfo (info : ProductInfoData)
  | loadcells (values : List Str)
  | status (status : IOStatusData)
  | errors (codes : List Str)
  deriving DecidableEq

namespace CommandCall

/-- The command that a function sends, another one for each function. -/
def command : CommandCall → Command
  | initializeBoard => .managementControl .initializeBoard
  | setDeadbolt _ => .managementControl .deadboltControl
  | calibrate => .managementControl .calibrate
  | setManufacturingNumber _ => .managementControl .writeProductId
  | clearErrors => .managementControl .clearErrors
  | reboot => .managementControl .reboot
  | getProductInfo => .request .manufacturingInfo
  | getLoadcells => .request .loadcellWeights
  | getStatus => .request .ioStatus
  | getErrors => .request .errorList

/-- The functions from `fetch` on: the sanitizer after them, and what they return or raise. -/
def receive (sanitizer : Option LoadcellSanitizer) (fetched : Except PyExc Bytes) (now : PyFloat) :
    CommandCall → Option LoadcellSanitizer × Except PyExc CommandResult
  | initializeBoard => (sanitizer, (receiveInitialize fetched).map fun _ => .nothing)
  | setDeadbolt action => (sanitizer, (receiveDeadbolt action fetched).map .deadboltState)
  | calibrate =>
      let result := receiveCalibrate sanitizer fetched
      (result.1, result.2.map fun _ => .nothing)
  | setManufacturingNumber number =>
      (sanitizer, (receiveManufacturingNumber number fetched).map .manufacturingNumber)
  | clearErrors => (sanitizer, (receiveClearErrors fetched).map fun _ => .nothing)
  | reboot => (sanitizer, (receiveReboot fetched).map fun _ => .nothing)
  | getProductInfo => (sanitizer, (receiveProductInfo fetched).map .productInfo)
  | getLoadcells =>
      let result := receiveLoadcells sanitizer fetched now
      (result.1, result.2.map .loadcells)
  | getStatus => (sanitizer, (receiveStatus fetched).map .status)
  | getErrors => (sanitizer, (receiveErrors fetched).map .errors)

/-- The values of the declared type of a function: of lists also how long they are. -/
def Returns : CommandCall → CommandResult → Prop
  | initializeBoard, .nothing => True
  | setDeadbolt _, .deadboltState _ => True
  | calibrate, .nothing => True
  | setManufacturingNumber _, .manufacturingNumber _ => True
  | clearErrors, .nothing => True
  | reboot, .nothing => True
  | getProductInfo, .productInfo _ => True
  | getLoadcells, .loadcells values => values.length = 10
  | getStatus, .status _ => True
  | getErrors, .errors codes => codes.length = 4
  | _, _ => False

/-- A function returns a value of its declared type, or raises an `IOBoardError`. Any other
exception is a surprise to the caller. -/
def Declared (call : CommandCall) : Except PyExc CommandResult → Prop
  | .ok result => call.Returns result
  | .error e => e.isIOBoardError = true

end CommandCall

/-! ### Errors that are declared -/

/-- `_session` makes declared errors of declared errors. -/
@[simp] theorem isIOBoardError_session (command : String) (kwargs : List (String × Detail))
    (e : PyExc) : (session command kwargs e).isIOBoardError = e.isIOBoardError := by
  cases e with
  | ioBoard e =>
      rw [session]
      split_ifs <;> rfl
  | _ => rfl

/-- A frame that `parse_response` or the codes reject is a declared error. -/
theorem isIOBoardError_of_receiveResponse {c : Command} {frame : Bytes} {e : PyExc}
    (h : receiveResponse c frame = .error e) : e.isIOBoardError = true := by
  rw [receiveResponse] at h
  cases hparse : parseResponse frame with
  | error e' =>
      rw [hparse] at h
      obtain rfl := Except.error.inj h
      rw [parseResponse] at hparse
      split at hparse
      · cases hparse
      · cases hparse
        rfl
  | ok r =>
      rw [hparse] at h
      dsimp only at h
      split_ifs at h
      cases h
      rfl

namespace CommandCall

/-- The functions that return fields of the response: what is not declared comes from the
fields. -/
theorem declared_session_iff {α : Type} (call : CommandCall) (frame : Bytes) (c : Command)
    (fields : Response → Except PyExc α) (name : String) (kwargs : List (String × Detail))
    (result : α → CommandResult) :
    call.Declared (((((Except.ok frame).bind (receiveResponse c)).bind fields).mapError
        (session name kwargs)).map result) ↔
      ∀ r, receiveResponse c frame = .ok r → call.Declared ((fields r).map result) := by
  rw [Except.bind]
  cases hr : receiveResponse c frame with
  | error e =>
      have he : (session name kwargs e).isIOBoardError = true := by
        rw [isIOBoardError_session]
        exact isIOBoardError_of_receiveResponse hr
      exact iff_of_true he fun r h => nomatch h
  | ok r =>
      simp only [Except.bind, Except.ok.injEq, forall_eq']
      cases fields r with
      | ok a => exact Iff.rfl
      | error e => exact iff_of_eq (congrArg (· = true) (isIOBoardError_session name kwargs e))

/-- The functions without a result. -/
theorem declared_acknowledgement (call : CommandCall) (hcall : call.Returns .nothing)
    (frame : Bytes) (c : Command) (name : String) :
    call.Declared ((receiveAcknowledgement name c (.ok frame)).map fun _ => .nothing) := by
  rw [receiveAcknowledgement, Except.bind]
  cases hr : receiveResponse c frame with
  | error e =>
      have he : (session name [] e).isIOBoardError = true := by
        rw [isIOBoardError_session]
        exact isIOBoardError_of_receiveResponse hr
      exact he
  | ok r => exact hcall

/-- The payloads that a function returns a declared value for: the deadbolt byte is one that the
schema knows, the states are those of the enumerations, the readings are `rendered`. -/
def TameData (rendered : Str → Prop) : CommandCall → ResponseData → Prop
  | setDeadbolt _, .deadboltControl deadbolt => ∀ b, deadbolt ≠ .code b
  | getLoadcells, .loadcellWeights values => ∀ raw ∈ values, rendered raw
  | getStatus, .ioStatus door deadbolt =>
      (∃ state : DoorState, door = state.value) ∧ ∃ state : DeadboltState, deadbolt = state.value
  | _, _ => True

/-- The frame is rejected, or has such a payload. It is a condition on the frame alone. -/
def Tame (rendered : Str → Prop) (call : CommandCall) (frame : Bytes) : Prop :=
  ∀ r, receiveResponse call.command frame = .ok r → call.TameData rendered r.data

end CommandCall

/-! ### States -/

/-- The door states are those that the enumeration knows. -/
theorem DoorState.exists_ofText?_iff {text : Str} :
    (∃ state, DoorState.ofText? text = some state) ↔ ∃ state : DoorState, text = state.value := by
  constructor
  · rintro ⟨state, h⟩
    rw [DoorState.ofText?] at h
    split_ifs at h with hopened hclosed
    · exact ⟨_, hopened⟩
    · exact ⟨_, hclosed⟩
  · rintro ⟨state, rfl⟩
    exact ⟨state, state.ofText?_value⟩

/-- The deadbolt states are those that the enumeration knows. -/
theorem DeadboltState.exists_ofText?_iff {text : Str} :
    (∃ state, DeadboltState.ofText? text = some state) ↔
      ∃ state : DeadboltState, text = state.value := by
  constructor
  · rintro ⟨state, h⟩
    rw [DeadboltState.ofText?] at h
    split_ifs at h with hunlock hlocked
    · exact ⟨_, hunlock⟩
    · exact ⟨_, hlocked⟩
  · rintro ⟨state, rfl⟩
    exact ⟨state, state.ofText?_value⟩

/-- A response with the codes of a command has the data of that command, by the schema. -/
theorem payload_of_receiveResponse {c : Command} {frame : Bytes} {r : Response}
    (h : receiveResponse c frame = .ok r) : ∃ payload, Payload c.key payload r.data := by
  obtain ⟨hparse, hcmd, hsub⟩ := receiveResponse_eq_ok_iff.mp h
  obtain ⟨cs, ss, payload, back, -, -, -, hpayload⟩ := parseResponse_eq_ok_iff.mp hparse
  rw [hcmd, hsub] at hpayload
  exact ⟨payload, hpayload⟩

namespace CommandCall

/-- **Without the sanitizer an outcome is declared exactly when the states in the payload are
known.** -/
theorem declared_iff_tame {call : CommandCall} (hcall : call ≠ getLoadcells) (frame : Bytes)
    (rendered : Str → Prop) (s : Option LoadcellSanitizer) (now : PyFloat) :
    call.Declared (call.receive s (.ok frame) now).2 ↔ call.Tame rendered frame := by
  cases call with
  | initializeBoard =>
      exact iff_of_true (declared_acknowledgement initializeBoard trivial frame _ _)
        fun r _ => trivial
  | clearErrors =>
      exact iff_of_true (declared_acknowledgement clearErrors trivial frame _ _)
        fun r _ => trivial
  | reboot =>
      exact iff_of_true (declared_acknowledgement reboot trivial frame _ _) fun r _ => trivial
  | calibrate =>
      have h := declared_acknowledgement calibrate trivial frame calibrate.command "calibrate"
      refine iff_of_true ?_ fun r _ => trivial
      rw [command] at h
      rw [receive, receiveCalibrate]
      cases hack : receiveAcknowledgement "calibrate" (.managementControl .calibrate)
          (.ok frame) with
      | error e =>
          rw [hack] at h
          exact h
      | ok a => trivial
  | setDeadbolt action =>
      refine (declared_session_iff _ frame _ _ _ _ _).trans (forall₂_congr fun r hr => ?_)
      obtain ⟨payload, hpayload⟩ := payload_of_receiveResponse hr
      obtain ⟨b, -, hdata⟩ := payload_deadboltControl.mp hpayload
      rw [hdata]
      simp only [TameData]
      cases hb : deadboltEnum b with
      | code b' => exact iff_of_false Bool.false_ne_true fun h => h b' rfl
      | label text =>
          refine iff_of_true ?_ fun b' h => nomatch h
          have htext : ∃ state : DeadboltState, text = state.value := by
            rw [deadboltEnum] at hb
            split_ifs at hb
            · exact ⟨.unlock, (EnumValue.label.inj hb).symm⟩
            · exact ⟨.locked, (EnumValue.label.inj hb).symm⟩
          obtain ⟨state, rfl⟩ := htext
          rw [ResponseData.deadboltState, DeadboltState.ofText?_value]
          trivial
  | setManufacturingNumber number =>
      refine (declared_session_iff _ frame _ _ _ _ _).trans (forall₂_congr fun r hr => ?_)
      obtain ⟨payload, hpayload⟩ := payload_of_receiveResponse hr
      obtain ⟨text, -, hdata⟩ := payload_writeProductId.mp hpayload
      rw [hdata]
      exact Iff.rfl
  | getProductInfo =>
      refine (declared_session_iff _ frame _ _ _ _ _).trans (forall₂_congr fun r hr => ?_)
      obtain ⟨payload, hpayload⟩ := payload_of_receiveResponse hr
      obtain ⟨productId, -, -, -, -, swVersion, -, hdata⟩ :=
        (payload_twoTexts hasTwoTexts_manufacturingInfo).mp hpayload
      rw [hdata]
      exact Iff.rfl
  | getLoadcells => exact absurd rfl hcall
  | getStatus =>
      refine (declared_session_iff _ frame _ _ _ _ _).trans (forall₂_congr fun r hr => ?_)
      obtain ⟨payload, hpayload⟩ := payload_of_receiveResponse hr
      obtain ⟨door, -, -, -, -, deadbolt, -, hdata⟩ :=
        (payload_twoTexts hasTwoTexts_ioStatus).mp hpayload
      rw [hdata]
      simp only [TameData, ← DoorState.exists_ofText?_iff, ← DeadboltState.exists_ofText?_iff,
        ResponseData.status]
      cases DoorState.ofText? door with
      | none => exact iff_of_false Bool.false_ne_true fun h => nomatch h.1
      | some d =>
          cases DeadboltState.ofText? deadbolt with
          | none => exact iff_of_false Bool.false_ne_true fun h => nomatch h.2
          | some b => exact iff_of_true trivial ⟨⟨d, rfl⟩, b, rfl⟩
  | getErrors =>
      refine (declared_session_iff _ frame _ _ _ _ _).trans (forall₂_congr fun r hr => ?_)
      obtain ⟨payload, hpayload⟩ := payload_of_receiveResponse hr
      obtain ⟨codes, ⟨parts, -, hcount, hparts⟩, hdata⟩ :=
        (payload_texts hasTexts_errorList).mp hpayload
      rw [hdata]
      exact iff_of_true (hparts.length_eq.symm.trans hcount) trivial

end CommandCall

/-! ### Readings -/

/-- One channel after another, all of them alike. -/
theorem zip_replicate_left {α β : Type} (a : α) (bs : List β) :
    (List.replicate bs.length a).zip bs = bs.map fun b => (a, b) := by
  induction bs with
  | nil => rfl
  | cons b bs ih =>
      rw [List.length_cons, List.replicate_succ, List.zip_cons_cons, ih, List.map_cons]

namespace CommandCall

/-- The outcome of `get_loadcells` for ten readings. -/
theorem receive_getLoadcells {frame : Bytes} {r : Response}
    (hr : receiveResponse getLoadcells.command frame = .ok r) :
    ∃ values, r.data = .loadcellWeights values ∧ values.length = 10 ∧
      ∀ (s : Option LoadcellSanitizer) (now : PyFloat), getLoadcells.receive s (.ok frame) now =
        ((sanitizeLoadcells s values now).1,
          ((sanitizeLoadcells s values now).2.mapError (session "get_loadcells" [])).map
            .loadcells) := by
  obtain ⟨payload, hpayload⟩ := payload_of_receiveResponse hr
  obtain ⟨values, ⟨parts, -, hcount, hparts⟩, hdata⟩ :=
    (payload_texts hasTexts_loadcellWeights).mp hpayload
  refine ⟨values, hdata, hparts.length_eq.symm.trans hcount, fun s now => ?_⟩
  rw [command] at hr
  rw [receive, receiveLoadcells, Except.bind, hr]
  dsimp only
  rw [hdata]
  rfl

/-- A frame that is rejected leaves the sanitizer as it is, since it is not called. -/
theorem receive_getLoadcells_of_error {frame : Bytes} {e : PyExc}
    (he : receiveResponse getLoadcells.command frame = .error e) (s : Option LoadcellSanitizer)
    (now : PyFloat) :
    getLoadcells.receive s (.ok frame) now = (s, .error (session "get_loadcells" [] e)) := by
  rw [command] at he
  rw [receive, receiveLoadcells, Except.bind, he]
  rfl

/-- Ten readings are returned, or the sanitizer raises what is not declared. -/
theorem declared_loadcells_iff {s : Option LoadcellSanitizer} {values : List Str} {now : PyFloat}
    (hlen : values.length = 10) :
    getLoadcells.Declared (((sanitizeLoadcells s values now).2.mapError
        (session "get_loadcells" [])).map .loadcells) ↔
      ∃ out, (sanitizeLoadcells s values now).2 = .ok out := by
  cases s with
  | none => exact iff_of_true hlen ⟨values, rfl⟩
  | some s =>
      have hresult : (sanitizeLoadcells (some s) values now).2 =
          (sanitizeEntries s.config now s.channels values).2 := rfl
      rw [hresult]
      cases hentries : (sanitizeEntries s.config now s.channels values).2 with
      | ok out => exact iff_of_true ((length_of_sanitizeEntries hentries).trans hlen) ⟨out, rfl⟩
      | error e =>
          refine iff_of_false ?_ fun h => nomatch h
          rw [Except.mapError, Except.map, Declared, isIOBoardError_session,
            isIOBoardError_of_sanitizeEntries hentries]
          exact Bool.false_ne_true

end CommandCall

section Config

variable (config : SanitizeModel)

/-- A text that the sanitizer, when it is switched on, renders on a channel with a history. A
text that is no number is always rendered, as it is. -/
def RendersText (raw : Str) : Prop :=
  config.enabled = true → ∀ v, parse raw = some v → Renders config v

/-- A text that the sanitizer, when it is switched on, renders on a fresh channel. -/
def RendersFreshText (raw : Str) : Prop :=
  config.enabled = true → ∀ v, parse raw = some v → RendersFresh config v

namespace CommandCall

/-- **The first readings are returned exactly when a fresh channel renders them**, all ten of
them. -/
theorem declared_fresh_iff (frame : Bytes) (now : PyFloat) :
    getLoadcells.Declared
        (getLoadcells.receive (configureSanitizer config) (.ok frame) now).2 ↔
      getLoadcells.Tame (RendersFreshText config) frame := by
  rw [Tame]
  cases hr : receiveResponse getLoadcells.command frame with
  | error e =>
      rw [receive_getLoadcells_of_error hr]
      refine iff_of_true ?_ fun r h => nomatch h
      exact (isIOBoardError_session ..).trans (isIOBoardError_of_receiveResponse hr)
  | ok r =>
      obtain ⟨values, hdata, hlen, hreceive⟩ := receive_getLoadcells hr
      simp only [Except.ok.injEq, forall_eq']
      rw [hreceive, declared_loadcells_iff hlen, hdata, TameData, configureSanitizer]
      split_ifs with henabled
      · have hfresh : (∃ out, (sanitizeLoadcells (some (.new config 10)) values now).2 = .ok out) ↔
            ∀ p ∈ (List.replicate 10 {}).zip values,
              ∃ o, (sanitizeEntry config p.1 p.2 now).2 = .ok o :=
          sanitizeEntries_eq_ok_iff (List.replicate 10 {}) values
        have hzip : (List.replicate 10 ({} : ChannelState)).zip values =
            values.map fun raw => ({}, raw) := by
          rw [← hlen, zip_replicate_left]
        rw [hfresh, hzip, List.forall_mem_map]
        refine forall₂_congr fun raw _ => sanitizeEntry_fresh_iff.trans ?_
        exact ⟨fun h _ => h, fun h => h henabled⟩
      · exact iff_of_true ⟨values, rfl⟩ fun raw _ h => absurd h henabled

end CommandCall

/-! ### Runs -/

/-- A call of a command function and the frame that `fetch` returns to it, with the time that the
sanitizer reads. -/
structure Exchange where
  call : CommandCall
  frame : Bytes
  now : PyFloat

/-- The sanitizer after some exchanges. Only the readings and the calibrations of a run change
it. -/
def afterExchanges (s : Option LoadcellSanitizer) (exchanges : List Exchange) :
    Option LoadcellSanitizer :=
  exchanges.foldl (fun s x => (x.call.receive s (.ok x.frame) x.now).1) s

/-- What the sanitizer keeps while the readings are rendered: its configuration, and channels
that have only seen such readings. Without a sanitizer there is nothing to keep. -/
def RendersAll (s : Option LoadcellSanitizer) : Prop :=
  ∀ s' ∈ s, config.enabled = true ∧ s'.config = config ∧
    ∀ st ∈ s'.channels, RendersChannel config st

variable {config}

/-- The sanitizer that is configured at the start, if it is: its channels are fresh. -/
theorem rendersAll_configure : RendersAll config (configureSanitizer config) := by
  intro s hs
  rw [configureSanitizer] at hs
  split_ifs at hs with henabled
  · obtain rfl := Option.some.inj hs
    exact ⟨henabled, rfl, fun st hst => List.eq_of_mem_replicate hst ▸ rendersChannel_new⟩
  · cases hs

/-- A reset channel is a fresh one. Only `calibrate` resets. -/
theorem RendersAll.reset {s : Option LoadcellSanitizer} (h : RendersAll config s) :
    RendersAll config (resetSanitizer s) := by
  intro s' hs'
  obtain ⟨s, hs, rfl⟩ := Option.mem_map.mp hs'
  obtain ⟨henabled, hconfig, -⟩ := h s hs
  exact ⟨henabled, hconfig, fun st hst => List.eq_of_mem_replicate hst ▸ rendersChannel_new⟩

/-- **One exchange**: while the readings are rendered, the outcome is declared, and the
sanitizer after it still has only seen such readings. -/
theorem RendersAll.receive {s : Option LoadcellSanitizer} (h : RendersAll config s) (x : Exchange)
    (hx : x.call.Tame (RendersText config) x.frame) :
    RendersAll config (x.call.receive s (.ok x.frame) x.now).1 ∧
      x.call.Declared (x.call.receive s (.ok x.frame) x.now).2 := by
  obtain ⟨call, frame, now⟩ := x
  dsimp only at hx ⊢
  by_cases hcall : call = .getLoadcells
  · subst hcall
    cases hr : receiveResponse CommandCall.getLoadcells.command frame with
    | error e =>
        rw [CommandCall.receive_getLoadcells_of_error hr]
        exact ⟨h, (isIOBoardError_session ..).trans (isIOBoardError_of_receiveResponse hr)⟩
    | ok r =>
        obtain ⟨values, hdata, hlen, hreceive⟩ := CommandCall.receive_getLoadcells hr
        have hvalues := hx r hr
        rw [hdata, CommandCall.TameData] at hvalues
        rw [hreceive, CommandCall.declared_loadcells_iff hlen]
        cases s with
        | none => exact ⟨h, values, rfl⟩
        | some s =>
            obtain ⟨henabled, hconfig, hchannels⟩ := h s rfl
            obtain ⟨sts', out, hentries, hkept, -⟩ :=
              sanitizeEntries_rule (RendersChannel config) hchannels
                fun st hst raw hraw => hst.sanitizeEntry (hvalues raw hraw henabled) now
            have hresult : sanitizeLoadcells (some s) values now =
                (some { s with channels := sts' }, .ok out) := by
              rw [sanitizeLoadcells, LoadcellSanitizer.sanitize, hconfig, hentries]
            rw [hresult]
            refine ⟨fun s' hs' => ?_, out, rfl⟩
            obtain rfl := Option.some.inj hs'
            exact ⟨henabled, hconfig, hkept⟩
  · refine ⟨?_, (CommandCall.declared_iff_tame hcall frame _ s now).mpr hx⟩
    cases call with
    | getLoadcells => exact absurd rfl hcall
    | calibrate =>
        rw [CommandCall.receive, receiveCalibrate]
        split
        · exact h
        · exact h.reset
    | _ => exact h

/-- A run keeps the sanitizer in order while the readings are rendered. -/
theorem rendersAll_afterExchanges (exchanges : List Exchange)
    (h : ∀ x ∈ exchanges, x.call.Tame (RendersText config) x.frame) :
    RendersAll config (afterExchanges (configureSanitizer config) exchanges) := by
  induction exchanges using List.reverseRecOn with
  | nil => exact rendersAll_configure
  | append_singleton exchanges x ih =>
      obtain ⟨hexchanges, hx⟩ := List.forall_mem_append.mp h
      rw [afterExchanges, List.foldl_append]
      exact ((ih hexchanges).receive x (hx x (List.mem_singleton_self x))).1

end Config

/-- **The commands fail with declared errors only while the states in the payloads are known and
the readings are rendered.** In every run of such frames each outcome is declared. Without the
sanitizer, and for the first readings, an outcome is declared on no other frames. -/
theorem commands_declared (config : SanitizeModel) :
    (∀ (exchanges : List Exchange) (x : Exchange),
      (∀ y ∈ exchanges ++ [x], y.call.Tame (RendersText config) y.frame) →
        x.call.Declared (x.call.receive (afterExchanges (configureSanitizer config) exchanges)
          (.ok x.frame) x.now).2) ∧
    ∀ (call : CommandCall) (frame : Bytes) (s : Option LoadcellSanitizer) (now : PyFloat),
      call ≠ .getLoadcells ∨ s = configureSanitizer config →
        (call.Declared (call.receive s (.ok frame) now).2 ↔
          call.Tame (RendersFreshText config) frame) := by
  refine ⟨fun exchanges x h => ?_, fun call frame s now h => ?_⟩
  · obtain ⟨hexchanges, hx⟩ := List.forall_mem_append.mp h
    exact ((rendersAll_afterExchanges exchanges hexchanges).receive x
      (hx x (List.mem_singleton_self x))).2
  · by_cases hcall : call = .getLoadcells
    · subst hcall
      obtain rfl := h.resolve_left (not_not_intro rfl)
      exact CommandCall.declared_fresh_iff config frame now
    · exact CommandCall.declared_iff_tame hcall frame _ s now

/-- The board answers MCDC with the payload byte `X`, which is no label of the schema. -/
def unknownDeadboltFrame : Bytes :=
  [2, 77, 67, 68, 67, 88, 3, 82]

/-- `set_deadbolt` raises `ValueError` on an unknown state. -/
theorem not_commands_declared : ¬ ∀ (config : SanitizeModel) (call : CommandCall) (frame : Bytes)
    (now : PyFloat), (∃ r, receiveResponse call.command frame = .ok r) →
      call.Declared (call.receive (configureSanitizer config) (.ok frame) now).2 := by
  intro h
  have hvalid : receiveResponse (.managementControl .deadboltControl) unknownDeadboltFrame =
      .ok ⟨['M', 'C'], ['D', 'C'], .deadboltControl (.code 88)⟩ := by
    decide +kernel
  have hraises : ((CommandCall.setDeadbolt .close).receive (configureSanitizer {})
      (.ok unknownDeadboltFrame) 0).2 = .error .valueError := by
    decide +kernel
  have hdeclared := h {} (.setDeadbolt .close) unknownDeadboltFrame 0 ⟨_, hvalid⟩
  rw [hraises] at hdeclared
  exact Bool.false_ne_true hdeclared

end IoBoard
