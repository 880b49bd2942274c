import Mathlib.Data.List.Basic
import Mathlib.Tactic.SplitIfs

/-!
# Event Streams

The reader of `text/event-stream`: lines end with LF, CR or CRLF, a line is a field and a value or
a comment, and an empty line dispatches the event that the fields before it make up. What the
stream ends with and no empty line follows is dropped.

The reader takes the text in pieces of any size, so it is a machine over the characters: it keeps
the line so far, whether the character before was a CR, and the type and the data that the fields
have set. Reading two pieces is reading them as one, and what has been dispatched is never taken
back. So a client whose connection is cut has read a prefix of the events, whatever was the last
character it got.

A writer that sends one frame for each event is read as its events when neither the type nor the
data holds the end of a line, and the type is not empty. The data may be anything else, even what
looks like a field.

## Main definitions

* `Reader`, `read`: the reader, and the events of a stream.
* `frame`: the text of one event.

## Main results

* `read_flatMap_frame`: **a sequence of frames is read as the events** it was made of.
* `read_prefix`: what a cut stream has been read as, the whole stream is read as too.
-/

namespace EventStream

/-- An event that was dispatched: its type, and the lines of its data. -/
structure Message where
  type : List Char
  data : List Char
  deriving DecidableEq

/-- What the reader keeps: the line so far, whether it has just seen a CR, and the fields since
the last empty line. -/
structure Reader where
  line : List Char := []
  afterCr : Bool := false
  type : List Char := []
  data : List Char := []

/-- A field. The fields `id` and `retry` do not bear on the events. -/
def Reader.field (d : Reader) (name value : List Char) : Reader :=
  if name = "event".toList then { d with type := value }
  else if name = "data".toList then { d with data := d.data ++ value ++ ['\n'] }
  else d

/-- The end of a line: it is a field, a comment or nothing, and then the event is dispatched. -/
def Reader.endLine (d : Reader) : Reader × List Message :=
  let line := d.line
  let d := { d with line := [] }
  if line = [] then
    if d.data = [] then ({ d with type := [] }, [])
    else
      ({ d with type := [], data := [] },
        [⟨if d.type = [] then "message".toList else d.type, d.data.dropLast⟩])
  else
    match line.dropWhile (· ≠ ':') with
    | [] => (d.field line [], [])
    | _ :: ' ' :: value => (d.field (line.takeWhile (· ≠ ':')) value, [])
    | _ :: value => (d.field (line.takeWhile (· ≠ ':')) value, [])

/-- A character. The LF of a CRLF ends no second line. -/
def Reader.step (d : Reader) (c : Char) : Reader × List Message :=
  if c = '\n' then if d.afterCr then ({ d with afterCr := false }, []) else d.endLine
  else if c = '\r' then
    let p := d.endLine
    ({ p.1 with afterCr := true }, p.2)
  else ({ d with line := d.line ++ [c], afterCr := false }, [])

/-- A piece of text: the reader after it, and the events that were dispatched. -/
def Reader.read (d : Reader) : List Char → Reader × List Message
  | [] => (d, [])
  | c :: text =>
      let p := d.step c
      let q := p.1.read text
      (q.1, p.2 ++ q.2)

/-- The events of a stream. -/
def read (text : List Char) : List Message :=
  (Reader.read {} text).2

/-- `f"event: {type}\ndata: {data}\n\n"`. -/
def frame (m : Message) : List Char :=
  "event: ".toList ++ m.type ++ "\ndata: ".toList ++ m.data ++ "\n\n".toList

/-- The text holds no end of a line, neither LF nor CR. -/
def OneLine (text : List Char) : Prop :=
  ∀ c ∈ text, c ≠ '\n' ∧ c ≠ '\r'

instance (text : List Char) : Decidable (OneLine text) :=
  List.decidableBAll (fun c => c ≠ '\n' ∧ c ≠ '\r') text

/-! ### Pieces -/

/-- Reading two pieces is reading them as one. -/
theorem Reader.read_append (d : Reader) (text rest : List Char) :
    d.read (text ++ rest) =
      (((d.read text).1.read rest).1, (d.read text).2 ++ ((d.read text).1.read rest).2) := by
  induction text generalizing d with
  | nil => rfl
  | cons c text ih =>
      rw [List.cons_append, Reader.read, Reader.read]
      simp only [ih, List.append_assoc]

/-- **What a cut stream has been read as**, the whole stream is read as too, and then more. -/
theorem read_prefix {text cut : List Char} (h : cut <+: text) : read cut <+: read text := by
  obtain ⟨rest, rfl⟩ := h
  rw [read, read, Reader.read_append]
  exact List.prefix_append _ _

/-- Within a line the reader only keeps the characters. -/
theorem Reader.read_oneLine {d : Reader} {text : List Char} (h : OneLine text)
    (hcr : d.afterCr = false) : d.read text = ({ d with line := d.line ++ text }, []) := by
  induction text generalizing d with
  | nil => rw [Reader.read, List.append_nil]
  | cons c text ih =>
      obtain ⟨hlf, hcr'⟩ := h c List.mem_cons_self
      rw [Reader.read, Reader.step, if_neg hlf, if_neg hcr',
        ih (fun x hx => h x (List.mem_cons_of_mem c hx)) rfl]
      simp [hcr]

/-! ### Frames -/

/-- A line `name: value` sets a field. -/
theorem Reader.endLine_field {d : Reader} {name value : List Char}
    (hline : d.line = name ++ ':' :: ' ' :: value) (hcolon : ':' ∉ name) :
    d.endLine = ({ d with line := [] }.field name value, []) := by
  have hne : ∀ c ∈ name, decide (c ≠ ':') = true := by
    intro c hc
    refine decide_eq_true ?_
    rintro rfl
    exact hcolon hc
  have hdrop : (name ++ ':' :: ' ' :: value).dropWhile (· ≠ ':') = ':' :: ' ' :: value := by
    rw [List.dropWhile_append_of_pos hne]
    rfl
  have htake : (name ++ ':' :: ' ' :: value).takeWhile (· ≠ ':') = name := by
    rw [List.takeWhile_append_of_pos hne]
    simp
  rw [Reader.endLine, hline]
  simp only [hdrop, htake]
  exact if_neg (by simp)

theorem OneLine.append {text rest : List Char} (h : OneLine text) (h' : OneLine rest) :
    OneLine (text ++ rest) := by
  intro c hc
  rcases List.mem_append.mp hc with hc | hc
  · exact h c hc
  · exact h' c hc

/-- The line of a field is read as the field. -/
theorem Reader.read_field {d : Reader} {name value : List Char} (hline : d.line = [])
    (hcr : d.afterCr = false) (hname : OneLine name) (hcolon : ':' ∉ name)
    (hvalue : OneLine value) :
    d.read (name ++ ':' :: ' ' :: value ++ ['\n']) = (d.field name value, []) := by
  have hsep : OneLine [':', ' '] := by decide
  have hone : OneLine (name ++ ':' :: ' ' :: value) := hname.append (hsep.append hvalue)
  obtain ⟨line, afterCr, type, data⟩ := d
  obtain rfl : line = [] := hline
  obtain rfl : afterCr = false := hcr
  rw [Reader.read_append, Reader.read_oneLine hone rfl, List.nil_append, Reader.read,
    Reader.step, if_pos rfl, if_neg Bool.false_ne_true, Reader.endLine_field rfl hcolon]
  rfl

/-- The empty line dispatches the event, and the reader is as at the start. -/
theorem Reader.read_end {type data : List Char} (hne : type ≠ []) :
    Reader.read { type := type, data := data ++ ['\n'] } ['\n'] = ({}, [⟨type, data⟩]) := by
  rw [Reader.read, Reader.step, if_pos rfl, if_neg Bool.false_ne_true, Reader.endLine]
  simp only [if_true, List.append_eq_nil_iff, List.cons_ne_self, and_false, if_false, hne,
    List.dropLast_concat]
  rfl

/-- A frame is read as its event. -/
theorem read_frame {m : Message} (htype : OneLine m.type) (hne : m.type ≠ [])
    (hdata : OneLine m.data) : Reader.read {} (frame m) = ({}, [m]) := by
  have hframe : frame m = ("event".toList ++ ':' :: ' ' :: m.type ++ ['\n']) ++
      (("data".toList ++ ':' :: ' ' :: m.data ++ ['\n']) ++ ['\n']) := by
    have h1 : "event: ".toList = "event".toList ++ [':', ' '] := by decide
    have h2 : "\ndata: ".toList = '\n' :: ("data".toList ++ [':', ' ']) := by decide
    have h3 : "\n\n".toList = ['\n', '\n'] := by decide
    unfold frame
    rw [h1, h2, h3]
    simp only [List.append_assoc, List.cons_append, List.nil_append]
  have hevent : Reader.read {} ("event".toList ++ ':' :: ' ' :: m.type ++ ['\n']) =
      ({ type := m.type }, []) := by
    rw [Reader.read_field rfl rfl (by decide) (by decide) htype, Reader.field, if_pos rfl]
  have hdatum : Reader.read { type := m.type } ("data".toList ++ ':' :: ' ' :: m.data ++ ['\n']) =
      ({ type := m.type, data := m.data ++ ['\n'] }, []) := by
    rw [Reader.read_field rfl rfl (by decide) (by decide) hdata, Reader.field,
      if_neg (by decide), if_pos rfl, List.nil_append]
  rw [hframe, Reader.read_append, hevent, Reader.read_append, hdatum, Reader.read_end hne,
    List.nil_append, List.nil_append]

/-- **A sequence of frames is read as the events** it was made of. The reader is as at the start
after each of them. -/
theorem read_flatMap_frame {ms : List Message}
    (h : ∀ m ∈ ms, OneLine m.type ∧ m.type ≠ [] ∧ OneLine m.data) :
    read (ms.flatMap frame) = ms := by
  have hread : Reader.read {} (ms.flatMap frame) = ({}, ms) := by
    induction ms with
    | nil => rfl
    | cons m ms ih =>
        obtain ⟨htype, hne, hdata⟩ := h m List.mem_cons_self
        rw [List.flatMap_cons, Reader.read_append, read_frame htype hne hdata,
          ih fun x hx => h x (List.mem_cons_of_mem m hx)]
        rfl
  rw [read, hread]

end EventStream
