import IoBoard.Lib.CharDatabase
import IoBoard.Sse

/-!
# The Query of the Loadcell Stream

`handle_unified_sse` of `api/v1/routers/sse.py` up to the first event: the `streams` and
`threshold` parameters, which are any text, and the detector of the stream. Fields that are
blank are dropped before they are counted, and a field is a number when `float` says so.

## What is documented

A threshold is one number for all channels, or ten comma-separated numbers, one for each. The
documentation refuses anything else with an error. The code accepts more: since blank fields are
dropped first, eleven fields with a blank one among them count as ten, and the thresholds behind
it go to other channels; and `float` reads infinities and NaN. `Lenient` is the condition on
the text under which one of these happens. It looks at the text only; what is done with it
afterwards does not matter.

## What is left out

Python does not fix the order of a set; the invalid stream names are in the order of the query
here. The limits on the filter parameters are checked by FastAPI before the handler is called, and
are not modelled: the handler passes these parameters on. Log messages are left out. The Unicode
database of the interpreter is a parameter, since both `strip` and `float` look into it.

## Main results

* `parseThreshold_eq_ok_iff`: the queries that start a stream, and their thresholds.
* `servesThreshold_iff`: **a threshold query is served as it is documented exactly when no blank
  field is dropped from it and no infinity or NaN gets in**.
-/

namespace IoBoard

/-! ### The handler -/

/-- The query parameters of the endpoint. The texts are what the client has sent, after the URL
has been decoded. -/
structure SseRequest where
  streams : Str
  filterMethod : FilterMethod := .none
  filterAlpha : PyFloat
  filterQ : PyFloat
  filterR : PyFloat
  threshold : Str
  thresholdScope : ThresholdScope := .filtered

/-- A value of the `details` of a response. -/
inductive ResponseDetail
  | text (s : Str)
  | texts (ss : List Str)
  | count (n : ℕ)
  deriving DecidableEq

/-- `JSONResponse`, the error that the client gets instead of a stream. -/
structure JSONResponse where
  statusCode : ℕ
  errorCode : String
  message : Str
  details : List (String × ResponseDetail)
  deriving DecidableEq

/-- What the handler returns: an error, or a stream with the detector that it creates when the
loadcells are among its sources. -/
inductive SseResponse
  | json (response : JSONResponse)
  | stream (enabledStreams : List Str) (detector : Option (LoadcellChangeDetector PyFloat))

/-- `[s.strip() for s in text.split(",") if s.strip()]`: the fields of a query that are not
blank, without the white space around them. -/
def queryParts (u : CharDatabase) (text : Str) : List Str :=
  ((text.splitOn ',').map u.strip).filter (· ≠ [])

/-- `valid_streams`, the names that a query may contain. -/
def validStreams : List Str :=
  ["loadcells".toList, "doors".toList]

/-- The check of the stream names: there is one at least, and all of them are valid. -/
def checkStreams (enabledStreams : List Str) : Option JSONResponse :=
  let invalidStreams := (enabledStreams.filter (· ∉ validStreams)).dedup
  if enabledStreams = [] then
    some ⟨422, "E4002", "At least one stream must be specified".toList,
      [("valid_streams", .texts validStreams)]⟩
  else if invalidStreams ≠ [] then
    some ⟨422, "E4003",
      "Invalid stream names: ".toList ++ (", ".toList).intercalate invalidStreams,
      [("valid_streams", .texts validStreams), ("invalid_streams", .texts invalidStreams)]⟩
  else none

/-- The threshold parameter: one value for all channels, or one for each. The error tells what
was wrong with the text. -/
def parseThreshold (u : CharDatabase) (threshold : Str) : Except JSONResponse (List PyFloat) :=
  match queryParts u threshold with
  | [part] =>
      match u.toFloat part with
      | some singleThreshold => .ok (List.replicate 10 singleThreshold)
      | none => .error ⟨422, "E4004", "Threshold must be a valid number".toList,
          [("provided", .text part)]⟩
  | thresholdParts =>
      if thresholdParts.length = 10 then
        match thresholdParts.mapM u.toFloat with
        | some thresholdValues => .ok thresholdValues
        | none => .error ⟨422, "E4005", "All threshold values must be valid numbers".toList,
            [("provided", .texts thresholdParts)]⟩
      else .error ⟨422, "E4006",
        "Threshold must be a single value or exactly 10 comma-separated values".toList,
        [("provided_count", .count thresholdParts.length), ("expected", .text "1 or 10".toList)]⟩

/-- `handle_unified_sse`: the streams are checked before the thresholds, and only then a
detector is made. -/
def handleUnifiedSse (u : CharDatabase) (request : SseRequest) : SseResponse :=
  let enabledStreams := queryParts u request.streams
  match checkStreams enabledStreams with
  | some response => .json response
  | none =>
      match parseThreshold u request.threshold with
      | .error response => .json response
      | .ok thresholdValues => .stream enabledStreams
          (if "loadcells".toList ∈ enabledStreams then
            some (.new request.filterMethod thresholdValues request.thresholdScope
              request.filterAlpha request.filterQ request.filterR)
          else none)

/-! ### Thresholds that are read -/

variable {u : CharDatabase} {threshold : Str} {values : List PyFloat}

/-- Reading every text of a list. -/
theorem mapM_eq_some_iff {α β : Type} {f : α → Option β} {as : List α} {bs : List β} :
    as.mapM f = some bs ↔ List.Forall₂ (fun a b => f a = some b) as bs := by
  induction as generalizing bs with
  | nil =>
      rw [List.mapM_nil, List.forall₂_nil_left_iff]
      exact Option.some_inj.trans eq_comm
  | cons a as ih =>
      rw [List.mapM_cons, List.forall₂_cons_left_iff, Option.bind_eq_bind,
        Option.bind_eq_some_iff]
      constructor
      · rintro ⟨b, hb, h⟩
        obtain ⟨bs', hbs', hcons⟩ := Option.bind_eq_some_iff.mp h
        exact ⟨b, bs', hb, ih.mp hbs', (Option.some.inj hcons).symm⟩
      · rintro ⟨b, bs', hb, hbs', rfl⟩
        refine ⟨b, hb, ?_⟩
        rw [ih.mpr hbs']
        rfl

/-- **The queries that start a stream**: one number, or ten. Blank fields do not count. -/
theorem parseThreshold_eq_ok_iff :
    parseThreshold u threshold = .ok values ↔
      (∃ part x, queryParts u threshold = [part] ∧ u.toFloat part = some x ∧
        values = List.replicate 10 x) ∨
      ((queryParts u threshold).length = 10 ∧
        List.Forall₂ (fun part x => u.toFloat part = some x) (queryParts u threshold) values) := by
  rw [parseThreshold]
  split
  · rename_i part hparts
    rw [hparts]
    cases hx : u.toFloat part with
    | none => simp [hx]
    | some x => simp [hx, eq_comm]
  · rename_i hparts
    have hsingle : ¬ ∃ part x, queryParts u threshold = [part] ∧ u.toFloat part = some x ∧
        values = List.replicate 10 x := by
      rintro ⟨part, -, h, -⟩
      exact hparts part h
    rw [or_iff_right hsingle, ← mapM_eq_some_iff]
    split_ifs with hten
    · cases hvalues : (queryParts u threshold).mapM u.toFloat with
      | none => simp
      | some values' => simp [hten]
    · simp [hten]

/-- A threshold that is refused is answered with 422, whatever is wrong with it. -/
theorem statusCode_of_parseThreshold {response : JSONResponse}
    (h : parseThreshold u threshold = .error response) : response.statusCode = 422 := by
  rw [parseThreshold] at h
  split at h
  · split at h
    · cases h
    · cases h
      rfl
  · split_ifs at h
    · split at h
      · cases h
      · cases h
        rfl
    · cases h
      rfl

/-! ### Thresholds as they are documented -/

/-- One number or ten comma-separated numbers, each finite, blanks around them allowed. No field
is blank. -/
def ValidThreshold (u : CharDatabase) (threshold : Str) : Prop :=
  ((threshold.splitOn ',').length = 1 ∨ (threshold.splitOn ',').length = 10) ∧
    ∀ field ∈ threshold.splitOn ',', ∃ d, u.toFloat (u.strip field) = some (.fin d)

/-- The thresholds are those of the query: ten, and each is the single number or that of its own
field. -/
def ThresholdsOf (u : CharDatabase) (threshold : Str) (thresholds : List PyFloat) : Prop :=
  thresholds.length = 10 ∧ ∀ i < 10, ∃ field,
    (threshold.splitOn ',')[if (threshold.splitOn ',').length = 1 then 0 else i]? = some field ∧
      thresholds[i]? = u.toFloat (u.strip field)

/-- The request is served as documented: a valid threshold starts a stream, whose detector, if
it has one, has the thresholds of the query, and any other threshold is answered with 422. -/
def ServesThreshold (u : CharDatabase) (request : SseRequest) : Prop :=
  ((∃ enabled detector, handleUnifiedSse u request = .stream enabled detector) ↔
    ValidThreshold u request.threshold) ∧
  (∀ enabled detector, handleUnifiedSse u request = .stream enabled (some detector) →
    ThresholdsOf u request.threshold detector.thresholds) ∧
  (¬ ValidThreshold u request.threshold → ∃ response,
    handleUnifiedSse u request = .json response ∧ response.statusCode = 422)

/-- A query that is accepted although a field of it is blank, or is an infinity or NaN: the
fields that are not blank are one or ten, and `float` accepts them all. -/
structure Lenient (u : CharDatabase) (threshold : Str) : Prop where
  count : (queryParts u threshold).length = 1 ∨ (queryParts u threshold).length = 10
  numbers : ∀ part ∈ queryParts u threshold, u.toFloat part ≠ none
  lenient : (∃ field ∈ threshold.splitOn ',', u.strip field = []) ∨
    ∃ part ∈ queryParts u threshold, ∀ d, u.toFloat part ≠ some (.fin d)

/-- Without blank fields the fields are counted and read as they stand. -/
theorem queryParts_eq_map (h : ∀ field ∈ threshold.splitOn ',', u.strip field ≠ []) :
    queryParts u threshold = (threshold.splitOn ',').map u.strip := by
  rw [queryParts, List.filter_eq_self]
  intro part hpart
  obtain ⟨field, hfield, rfl⟩ := List.mem_map.mp hpart
  simpa using h field hfield

/-- A valid threshold has no blank field. -/
theorem ValidThreshold.strip_ne_nil (h : ValidThreshold u threshold) :
    ∀ field ∈ threshold.splitOn ',', u.strip field ≠ [] := by
  intro field hfield hblank
  obtain ⟨d, hd⟩ := h.2 field hfield
  rw [hblank, u.toFloat_nil] at hd
  cases hd

/-- The texts of a list that are all read. -/
theorem exists_forall₂_of_forall {α β : Type} {f : α → Option β} {as : List α}
    (h : ∀ a ∈ as, f a ≠ none) : ∃ bs, List.Forall₂ (fun a b => f a = some b) as bs := by
  induction as with
  | nil => exact ⟨[], .nil⟩
  | cons a as ih =>
      obtain ⟨b, hb⟩ := Option.ne_none_iff_exists'.mp (h a List.mem_cons_self)
      obtain ⟨bs, hbs⟩ := ih fun a' ha' => h a' (List.mem_cons_of_mem a ha')
      exact ⟨b :: bs, .cons hb hbs⟩

/-- One or ten parts that are all numbers start a stream. -/
theorem exists_parseThreshold
    (hcount : (queryParts u threshold).length = 1 ∨ (queryParts u threshold).length = 10)
    (hnumbers : ∀ part ∈ queryParts u threshold, u.toFloat part ≠ none) :
    ∃ values, parseThreshold u threshold = .ok values := by
  obtain ⟨xs, hxs⟩ := exists_forall₂_of_forall hnumbers
  rcases hcount with hone | hten
  · obtain ⟨part, hpart⟩ := List.length_eq_one_iff.mp hone
    rw [hpart] at hxs
    cases hxs with
    | cons hx _ => exact ⟨_, parseThreshold_eq_ok_iff.mpr (.inl ⟨part, _, hpart, hx, rfl⟩)⟩
  · exact ⟨xs, parseThreshold_eq_ok_iff.mpr (.inr ⟨hten, hxs⟩)⟩

/-- A threshold that starts a stream has one or ten parts, all of them numbers. -/
theorem parts_of_parseThreshold (h : parseThreshold u threshold = .ok values) :
    ((queryParts u threshold).length = 1 ∨ (queryParts u threshold).length = 10) ∧
      ∀ part ∈ queryParts u threshold, u.toFloat part ≠ none := by
  rcases parseThreshold_eq_ok_iff.mp h with ⟨part, x, hpart, hx, -⟩ | ⟨hten, hvalues⟩
  · rw [hpart]
    refine ⟨.inl rfl, fun p hp => ?_⟩
    rw [List.mem_singleton.mp hp, hx]
    exact Option.some_ne_none x
  · refine ⟨.inr hten, fun part hpart => ?_⟩
    obtain ⟨i, hi, rfl⟩ := List.getElem_of_mem hpart
    have hread := hvalues.get hi (hvalues.length_eq ▸ hi)
    rw [List.get_eq_getElem] at hread
    rw [hread]
    exact Option.some_ne_none _

/-- Valid thresholds are those that are accepted without lenience, neither in counting nor in
reading. -/
theorem validThreshold_iff : ValidThreshold u threshold ↔
    (∃ values, parseThreshold u threshold = .ok values) ∧ ¬ Lenient u threshold := by
  constructor
  · intro h
    have hparts := queryParts_eq_map h.strip_ne_nil
    have hfinite : ∀ part ∈ queryParts u threshold, ∃ d, u.toFloat part = some (.fin d) := by
      rw [hparts]
      intro part hpart
      obtain ⟨field, hfield, rfl⟩ := List.mem_map.mp hpart
      exact h.2 field hfield
    refine ⟨exists_parseThreshold (by rw [hparts, List.length_map]; exact h.1) ?_, ?_⟩
    · intro part hpart
      obtain ⟨d, hd⟩ := hfinite part hpart
      rw [hd]
      exact Option.some_ne_none _
    · rintro ⟨-, -, ⟨field, hfield, hblank⟩ | ⟨part, hpart, hnot⟩⟩
      · exact h.strip_ne_nil field hfield hblank
      · obtain ⟨d, hd⟩ := hfinite part hpart
        exact hnot d hd
  · rintro ⟨⟨values, hvalues⟩, hlenient⟩
    obtain ⟨hcount, hnumbers⟩ := parts_of_parseThreshold hvalues
    have hblank : ∀ field ∈ threshold.splitOn ',', u.strip field ≠ [] := fun field hfield h =>
      hlenient ⟨hcount, hnumbers, .inl ⟨field, hfield, h⟩⟩
    have hparts := queryParts_eq_map hblank
    refine ⟨by rwa [hparts, List.length_map] at hcount, fun field hfield => ?_⟩
    by_contra! hnot
    have hpart : u.strip field ∈ queryParts u threshold := by
      rw [hparts]
      exact List.mem_map_of_mem hfield
    exact hlenient ⟨hcount, hnumbers, .inr ⟨_, hpart, hnot⟩⟩

/-- The thresholds of a valid query are read field by field. -/
theorem ValidThreshold.thresholdsOf (h : ValidThreshold u threshold)
    (hvalues : parseThreshold u threshold = .ok values) : ThresholdsOf u threshold values := by
  have hparts := queryParts_eq_map h.strip_ne_nil
  rcases parseThreshold_eq_ok_iff.mp hvalues with ⟨part, x, hpart, hx, rfl⟩ | ⟨hten, hvalues⟩
  · rw [hparts, List.map_eq_singleton_iff] at hpart
    obtain ⟨field, hfield, rfl⟩ := hpart
    refine ⟨List.length_replicate, fun i hi => ⟨field, ?_, ?_⟩⟩
    · rw [hfield]
      rfl
    · rw [hx, List.getElem?_replicate_of_lt hi]
  · rw [hparts] at hten hvalues
    rw [List.length_map] at hten
    refine ⟨by rw [← hvalues.length_eq, List.length_map, hten], fun i hi => ?_⟩
    have hi' : i < (threshold.splitOn ',').length := hten ▸ hi
    have hi'' : i < values.length := by rwa [← hvalues.length_eq, List.length_map]
    refine ⟨(threshold.splitOn ',')[i], ?_, ?_⟩
    · rw [if_neg (by omega), List.getElem?_eq_getElem hi']
    · have hread := hvalues.get (by rwa [List.length_map]) hi''
      rw [List.get_eq_getElem, List.get_eq_getElem, List.getElem_map] at hread
      rw [List.getElem?_eq_getElem hi'', hread]

/-! ### The requests that are served as documented -/

/-- A request with valid stream names starts a stream when its threshold is accepted. -/
theorem handleUnifiedSse_of_parseThreshold {request : SseRequest}
    (hstreams : checkStreams (queryParts u request.streams) = none)
    (h : parseThreshold u request.threshold = .ok values) :
    ∃ detector, handleUnifiedSse u request = .stream (queryParts u request.streams) detector ∧
      ∀ d, detector = some d → d.thresholds = values := by
  refine ⟨_, by rw [handleUnifiedSse, hstreams, h], fun d hd => ?_⟩
  obtain ⟨-, hd⟩ := Option.ite_none_right_eq_some.mp hd
  rw [← Option.some.inj hd]
  rfl

/-- A lenient query starts a stream that it should not start. -/
theorem Lenient.not_servesThreshold {request : SseRequest} (h : Lenient u request.threshold)
    (hstreams : checkStreams (queryParts u request.streams) = none) :
    ¬ ServesThreshold u request := by
  rintro ⟨hstarts, -, -⟩
  obtain ⟨values, hvalues⟩ := exists_parseThreshold h.count h.numbers
  obtain ⟨detector, hstream, -⟩ := handleUnifiedSse_of_parseThreshold hstreams hvalues
  exact (validThreshold_iff.mp (hstarts.mp ⟨_, detector, hstream⟩)).2 h

/-- **A threshold query is served as documented exactly when it is not lenient**: unless the
query is refused, no field of it may be blank, and none an infinity or NaN. -/
theorem servesThreshold_iff (u : CharDatabase) (request : SseRequest)
    (hstreams : checkStreams (queryParts u request.streams) = none) :
    ServesThreshold u request ↔ ¬ Lenient u request.threshold := by
  constructor
  · exact fun hserves hlenient => hlenient.not_servesThreshold hstreams hserves
  · intro hlenient
    cases hparse : parseThreshold u request.threshold with
    | ok values =>
        have hvalid := validThreshold_iff.mpr ⟨⟨values, hparse⟩, hlenient⟩
        obtain ⟨detector, hstream, hthresholds⟩ :=
          handleUnifiedSse_of_parseThreshold hstreams hparse
        refine ⟨iff_of_true ⟨_, detector, hstream⟩ hvalid, fun enabled d hd => ?_,
          fun hnot => absurd hvalid hnot⟩
        rw [hstream, SseResponse.stream.injEq] at hd
        rw [hthresholds d hd.2]
        exact hvalid.thresholdsOf hparse
    | error response =>
        have hjson : handleUnifiedSse u request = .json response := by
          rw [handleUnifiedSse, hstreams, hparse]
        have hnot : ¬ ValidThreshold u request.threshold := by
          intro hvalid
          obtain ⟨⟨values, hvalues⟩, -⟩ := validThreshold_iff.mp hvalid
          rw [hparse] at hvalues
          cases hvalues
        refine ⟨iff_of_false ?_ hnot, fun enabled d hd => ?_,
          fun _ => ⟨response, hjson, statusCode_of_parseThreshold hparse⟩⟩
        · rintro ⟨enabled, detector, hstream⟩
          rw [hjson] at hstream
          cases hstream
        · rw [hjson] at hd
          cases hd

/-- A request for the loadcell stream with the default parameters. -/
def loadcellsRequest (threshold : Str) : SseRequest where
  streams := "loadcells".toList
  filterAlpha := .ofRat (1 / 5)
  filterQ := .ofRat (1 / 1000)
  filterR := 1
  threshold := threshold

theorem checkStreams_loadcells : checkStreams (queryParts .latin1 "loadcells".toList) = none := by
  decide +kernel

/-- One number with a blank before it. -/
def fiveThreshold : Str := " 5.0".toList

theorem not_lenient_fiveThreshold : ¬ Lenient .latin1 fiveThreshold := by
  have hfields : fiveThreshold.splitOn ',' = [fiveThreshold] := by decide +kernel
  have hparts : queryParts .latin1 fiveThreshold = ["5.0".toList] := by decide +kernel
  have hfive : CharDatabase.latin1.toFloat "5.0".toList = some (.fin ⟨5, by decide +kernel⟩) := by
    decide +kernel
  rintro ⟨-, -, ⟨field, hfield, hblank⟩ | ⟨part, hpart, hnot⟩⟩
  · rw [hfields, List.mem_singleton] at hfield
    rw [hfield] at hblank
    exact absurd hblank (by decide +kernel)
  · rw [hparts, List.mem_singleton] at hpart
    rw [hpart] at hnot
    exact hnot _ hfive

/-- One number is the threshold of all channels. -/
theorem servesThreshold_five : ServesThreshold .latin1 (loadcellsRequest fiveThreshold) :=
  (servesThreshold_iff .latin1 (loadcellsRequest fiveThreshold) checkStreams_loadcells).mpr
    not_lenient_fiveThreshold

/-- Ten numbers in eleven fields. -/
def shiftedThreshold : Str := "1,,2,3,4,5,6,7,8,9,10".toList

theorem lenient_shiftedThreshold : Lenient .latin1 shiftedThreshold where
  count := .inr (by decide +kernel)
  numbers := by decide +kernel
  lenient := .inl ⟨[], by decide +kernel, by decide +kernel⟩

/-- **A dropped field shifts the thresholds**: with the second of eleven fields blank, the
thresholds of the channels behind the first come from the fields behind their own. -/
theorem not_servesThreshold : ¬ ∀ (u : CharDatabase) (request : SseRequest),
    checkStreams (queryParts u request.streams) = none → ServesThreshold u request := by
  intro h
  have hlenient : Lenient .latin1 (loadcellsRequest shiftedThreshold).threshold :=
    lenient_shiftedThreshold
  exact hlenient.not_servesThreshold checkStreams_loadcells
    (h .latin1 (loadcellsRequest shiftedThreshold) checkStreams_loadcells)

end IoBoard
