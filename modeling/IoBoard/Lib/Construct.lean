import IoBoard.Lib.Ascii
import Mathlib.Data.List.TakeWhile
import Mathlib.Tactic.Ring

/-!
# Declarative Binary Formats

The fragment of a declarative parsing library that frame formats are written in: constants,
bytes, padded strings, enumerations, arrays, sequences and checksums, on a stream with a
read position. A parser takes bytes off the back of the stream and appends them to the
part already read, or fails with an error that knows its text.

## Parsers and grammars

A **grammar** says which stretch of bytes stands for which value, given what was read
before it. `Reads p G` says that the parser `p` accepts exactly the stretches of `G`; the
rules below build it up along the structure of a format, so that a format is read off its
parser without running it.

What was read before is an argument of a grammar for the sake of the checksum, which is the
one construct that looks back. All other rules hand it through. A parser of this fragment
never looks ahead and never goes back, so the stretch it takes is determined by the value
and the bytes before it; `Reads` is an equivalence, and a soundness and completeness result
for a whole format is one application of its rules.

## Errors

A format fails for one of finitely many reasons, and the library tells them apart by their
classes. A caller that looks at the text of the error instead needs `Error.text`: every text
begins with the path of the field, except for those of an encoding, which have none.

## Main results

* `Reads.bind`, `Reads.map`, `Reads.pure`: the rules of sequencing.
* `reads_take`, `reads_const`, `reads_paddedString`, `reads_checksum`: the rules of the
  primitives.
* `exists_paddedString_iff`, `exists_array_paddedString_iff`: which bytes are texts at all.
-/

open Ascii

namespace Construct

/-- Text, as a list of characters. -/
abbrev Text := List Char

/-! ### Errors -/

/-- Why parsing or building failed, with what the message of the error mentions. The path is that
of the construct that failed, not of the whole format. -/
inductive Error
  | const (path : Text) (expected parsed : List UInt8)
  | stream (path : Text) (expected found : ℕ)
  | decode (data : List UInt8)
  | encode (text : Text)
  | padding (path : Text) (built allowed : ℕ)
  | mapping (path : Text) (label : Text)
  | explicit (path : Text)
  | missing (name : Text)
  | checksum (path : Text) (read computed : ℕ)
  deriving DecidableEq, Repr

/-- The line in front of the message of an error that has a path. -/
def inPath (path : Text) (message : Text) : Text :=
  "Error in path ".toList ++ path ++ '\n' :: message

/-- The decimal digits of a number. -/
def decimal (n : ℕ) : Text :=
  (toString n).toList

/-- `str(e)`. Text is quoted as it prints when it needs no escape; `missing` is not an error of the
library but the plain `KeyError` of a field that the built dictionary lacks, and prints the
name in quotes. -/
def Error.text : Error → Text
  | .const path expected parsed => inPath path
      ("parsing expected ".toList ++ bytesRepr expected ++ " but parsed ".toList ++
        bytesRepr parsed)
  | .stream path expected found => inPath path
      ("stream read less than specified amount, expected ".toList ++ decimal expected ++
        ", found ".toList ++ decimal found)
  | .decode data => "cannot use encoding 'ascii' to decode ".toList ++ bytesRepr data
  | .encode text => "cannot use encoding 'ascii' to encode '".toList ++ text ++ ['\'']
  | .padding path built allowed => inPath path
      ("subcon build ".toList ++ decimal built ++ " bytes but was allowed only ".toList ++
        decimal allowed)
  | .mapping path label => inPath path
      ("building failed, no mapping for '".toList ++ label ++ ['\''])
  | .explicit path => inPath path "Error field was activated during building".toList
  | .missing name => '\'' :: name ++ ['\'']
  | .checksum path read computed => inPath path
      ("wrong checksum, read ".toList ++ decimal read ++ ", computed ".toList ++
        decimal computed)

/-- The path of a named field below `path`. -/
def field (path : Text) (name : String) : Text :=
  path ++ " -> ".toList ++ name.toList

/-! ### Streams and parsers -/

/-- A stream that was read up to some position: the bytes before it and behind it. Nothing is ever
dropped, so a construct may look back to the start. -/
structure Stream where
  front : List UInt8
  back : List UInt8
  deriving DecidableEq, Repr

/-- A parser of values of type `α`: it succeeds with a value and the stream behind it, or fails
with an error and no stream. There is no backtracking. -/
abbrev Parser (α : Type) := Stream → Except Error (α × Stream)

/-- The parser that reads nothing. -/
def pure {α : Type} (a : α) : Parser α :=
  fun s => .ok (a, s)

/-- One parser after another. -/
def bind {α β : Type} (p : Parser α) (f : α → Parser β) : Parser β :=
  fun s => match p s with
    | .ok (a, t) => f a t
    | .error e => .error e

/-- A parser whose value is converted. -/
def map {α β : Type} (g : α → β) (p : Parser α) : Parser β :=
  bind p fun a => pure (g a)

/-- `stream_read`: exactly `n` bytes. A stream that is too short fails with the number of bytes it
would have had. -/
def take (path : Text) (n : ℕ) : Parser (List UInt8) :=
  fun s =>
    if s.back.length < n then .error (.stream path n s.back.length)
    else .ok (s.back.take n, ⟨s.front ++ s.back.take n, s.back.drop n⟩)

/-- `Const(value)`. The length is checked first, as for any read; other bytes are an error of
their own. -/
def const (path : Text) (value : List UInt8) : Parser Unit :=
  bind (take path value.length) fun parsed s =>
    if parsed = value then .ok ((), s) else .error (.const path value parsed)

/-- `Byte`: one byte as a number. -/
def byte (path : Text) : Parser UInt8 :=
  map (fun bs => bs.headD 0) (take path 1)

/-- What `NullStripped` leaves: the data without the zeros at its end. Zeros inside stay, and data
of zeros only becomes empty. -/
def stripNulls (bs : List UInt8) : List UInt8 :=
  (bs.reverse.dropWhile (· = 0)).reverse

/-- `PaddedString(n, "ascii")`. The padding is stripped before the text is decoded, so an error of
the codec prints the stripped data. -/
def paddedString (path : Text) (n : ℕ) : Parser Text :=
  bind (take path n) fun bs s =>
    match decodeAscii (stripNulls bs) with
    | some text => .ok (text, s)
    | none => .error (.decode (stripNulls bs))

/-- `Array(count, p)`: the first failure ends it, whatever was read before. -/
def array {α : Type} (p : Parser α) : ℕ → Parser (List α)
  | 0 => pure []
  | count + 1 => bind p fun a => map (a :: ·) (array p count)

/-- `Checksum(Byte, hash, bytesfunc)`: a byte that is the hash of the bytes `bytesfunc` takes
from the stream up to the checksum. -/
def checksum (path : Text) (hash : List UInt8 → UInt8)
    (bytesfunc : List UInt8 → List UInt8) : Parser Unit :=
  fun s => bind (byte path) (fun read t =>
    if read = hash (bytesfunc s.front) then .ok ((), t)
    else .error (.checksum path read.toNat (hash (bytesfunc s.front)).toNat)) s

/-- `Switch(key, cases, default)`: the first case of the key. -/
def switch {α : Type} (key : Text) (cases : List (Text × Parser α)) (default : Parser α) :
    Parser α :=
  (cases.lookup key).getD default

/-! ### Building -/

/-- The bytes of `PaddedString(n, "ascii")` for a text. A text that is too long is an error, one
that is too short is padded with zeros. -/
def buildPaddedString (path : Text) (n : ℕ) (text : Text) : Except Error (List UInt8) :=
  match encodeAscii text with
  | none => .error (.encode text)
  | some bs =>
      if n < bs.length then .error (.padding path bs.length n)
      else .ok (bs ++ List.replicate (n - bs.length) 0)

/-- The byte of `Enum(Byte, ...)` for a label. -/
def buildEnum (path : Text) (mapping : List (Text × UInt8)) (label : Text) :
    Except Error (List UInt8) :=
  match mapping.lookup label with
  | none => .error (.mapping path label)
  | some b => .ok [b]

/-- A text of exactly the padded length is built without padding. -/
theorem buildPaddedString_of_length {path : Text} {n : ℕ} {text : Text} {bs : List UInt8}
    (h : decodeAscii bs = some text) (hlen : bs.length = n) :
    buildPaddedString path n text = .ok bs := by
  rw [buildPaddedString, encodeAscii_eq_some_iff.mpr h]
  simp [hlen]

/-! ### Grammars -/

/-- A grammar: after `front`, the stretch `bs` stands for the value `a`. -/
abbrev Grammar (α : Type) := (front bs : List UInt8) → (a : α) → Prop

/-- The parser `p` accepts exactly the stretches of the grammar `G`: it takes the stretch off the
back, puts it to the front, and leaves the rest as it is. -/
def Reads {α : Type} (p : Parser α) (G : Grammar α) : Prop :=
  ∀ s a t, p s = .ok (a, t) ↔
    ∃ bs back, s.back = bs ++ back ∧ G s.front bs a ∧ t = ⟨s.front ++ bs, back⟩

variable {α β : Type} {p : Parser α} {f : α → Parser β} {G : Grammar α} {H : α → Grammar β}

/-- The empty stretch. -/
theorem Reads.pure (a : α) : Reads (pure a) fun _ bs b => bs = [] ∧ b = a := by
  intro s b t
  simp only [Construct.pure, Except.ok.injEq, Prod.mk.injEq]
  constructor
  · rintro ⟨rfl, rfl⟩
    exact ⟨[], s.back, rfl, ⟨rfl, rfl⟩, by rw [List.append_nil]⟩
  · rintro ⟨bs, back, hback, ⟨rfl, rfl⟩, rfl⟩
    rw [List.nil_append] at hback
    rw [← hback, List.append_nil]
    exact ⟨rfl, rfl⟩

/-- **Sequencing.** The stretches of two parsers in a row are put together; the second one has the
first one's stretch before it. -/
theorem Reads.bind (hp : Reads p G) (hf : ∀ a, Reads (f a) (H a)) :
    Reads (bind p f) fun front bs b => ∃ a bs₁ bs₂, bs = bs₁ ++ bs₂ ∧ G front bs₁ a ∧
      H a (front ++ bs₁) bs₂ b := by
  intro s b t
  constructor
  · intro h
    rw [Construct.bind] at h
    cases hps : p s with
    | error e => simp only [hps, reduceCtorEq] at h
    | ok r =>
        obtain ⟨a, u⟩ := r
        simp only [hps] at h
        obtain ⟨bs₁, back₁, hback₁, hG, rfl⟩ := (hp s a u).mp hps
        obtain ⟨bs₂, back₂, hback₂, hH, rfl⟩ := (hf a _ b t).mp h
        dsimp only at hback₂ hH
        refine ⟨bs₁ ++ bs₂, back₂, ?_, ⟨a, bs₁, bs₂, rfl, hG, hH⟩, ?_⟩
        · rw [hback₁, hback₂, List.append_assoc]
        · rw [List.append_assoc]
  · rintro ⟨bs, back, hback, ⟨a, bs₁, bs₂, rfl, hG, hH⟩, rfl⟩
    rw [List.append_assoc] at hback
    have hps := (hp s a ⟨s.front ++ bs₁, bs₂ ++ back⟩).mpr ⟨bs₁, _, hback, hG, rfl⟩
    have hfa := (hf a ⟨s.front ++ bs₁, bs₂ ++ back⟩ b ⟨s.front ++ bs₁ ++ bs₂, back⟩).mpr
      ⟨bs₂, back, rfl, hH, rfl⟩
    rw [Construct.bind, hps, ← List.append_assoc]
    exact hfa

/-- A converted value. -/
theorem Reads.map (hp : Reads p G) (g : α → β) :
    Reads (map g p) fun front bs b => ∃ a, G front bs a ∧ b = g a := by
  intro s b t
  rw [Construct.map, hp.bind (fun a => Reads.pure (g a)) s b t]
  constructor
  · rintro ⟨bs, back, hback, ⟨a, bs₁, bs₂, rfl, hG, rfl, rfl⟩, rfl⟩
    exact ⟨bs₁, back, by simpa using hback, ⟨a, hG, rfl⟩, by simp⟩
  · rintro ⟨bs, back, hback, ⟨a, hG, rfl⟩, rfl⟩
    exact ⟨bs, back, hback, ⟨a, bs, [], by simp, hG, rfl, rfl⟩, rfl⟩

/-- A grammar may be replaced by an equivalent one. -/
theorem Reads.congr {G' : Grammar α} (hp : Reads p G)
    (h : ∀ front bs a, G front bs a ↔ G' front bs a) : Reads p G' := by
  intro s a t
  simp only [hp s a t, h]

/-- Any `n` bytes. -/
theorem reads_take (path : Text) (n : ℕ) :
    Reads (take path n) fun _ bs a => a = bs ∧ bs.length = n := by
  intro s a t
  rw [take]
  constructor
  · intro h
    split at h
    · cases h
    · rename_i hlen
      simp only [Except.ok.injEq, Prod.mk.injEq] at h
      obtain ⟨rfl, rfl⟩ := h
      refine ⟨s.back.take n, s.back.drop n, (List.take_append_drop n _).symm, ⟨rfl, ?_⟩, rfl⟩
      rw [List.length_take]
      omega
  · rintro ⟨bs, back, hback, ⟨rfl, rfl⟩, rfl⟩
    rw [hback, if_neg (by rw [List.length_append]; omega)]
    simp

/-- The bytes of the constant. -/
theorem reads_const (path : Text) (value : List UInt8) :
    Reads (const path value) fun _ bs _ => bs = value := by
  intro s a t
  rw [const, Construct.bind]
  have htake := reads_take path value.length s
  constructor
  · intro h
    cases hps : take path value.length s with
    | error e => simp only [hps, reduceCtorEq] at h
    | ok r =>
        obtain ⟨parsed, u⟩ := r
        simp only [hps] at h
        obtain ⟨bs, back, hback, ⟨rfl, -⟩, rfl⟩ := (htake parsed u).mp hps
        split at h
        · rename_i heq
          cases h
          exact ⟨parsed, back, hback, heq, rfl⟩
        · cases h
  · rintro ⟨bs, back, hback, rfl, rfl⟩
    rw [(htake bs ⟨s.front ++ bs, back⟩).mpr ⟨bs, back, hback, ⟨rfl, rfl⟩, rfl⟩]
    exact if_pos rfl

/-- Any byte. -/
theorem reads_byte (path : Text) : Reads (byte path) fun _ bs b => bs = [b] := by
  refine ((reads_take path 1).map _).congr fun front bs b => ?_
  constructor
  · rintro ⟨a, ⟨rfl, hlen⟩, rfl⟩
    obtain ⟨x, rfl⟩ := List.length_eq_one_iff.mp hlen
    rfl
  · rintro rfl
    exact ⟨[b], ⟨rfl, rfl⟩, rfl⟩

/-- `n` bytes that are ASCII without the zeros at their end. -/
theorem reads_paddedString (path : Text) (n : ℕ) :
    Reads (paddedString path n) fun _ bs text =>
      bs.length = n ∧ decodeAscii (stripNulls bs) = some text := by
  intro s a t
  rw [paddedString, Construct.bind]
  have htake := reads_take path n s
  constructor
  · intro h
    cases hps : take path n s with
    | error e => simp only [hps, reduceCtorEq] at h
    | ok r =>
        obtain ⟨bs, u⟩ := r
        simp only [hps] at h
        obtain ⟨bs', back, hback, ⟨rfl, hlen⟩, rfl⟩ := (htake bs u).mp hps
        cases hd : decodeAscii (stripNulls bs) with
        | none => simp only [hd, reduceCtorEq] at h
        | some text =>
            simp only [hd, Except.ok.injEq, Prod.mk.injEq] at h
            obtain ⟨rfl, rfl⟩ := h
            exact ⟨bs, back, hback, ⟨hlen, hd⟩, rfl⟩
  · rintro ⟨bs, back, hback, ⟨hlen, hd⟩, rfl⟩
    rw [(htake bs ⟨s.front ++ bs, back⟩).mpr ⟨bs, back, hback, ⟨rfl, hlen⟩, rfl⟩]
    simp only [hd]

/-- The byte that is the hash of what was read before it. -/
theorem reads_checksum (path : Text) (hash : List UInt8 → UInt8)
    (bytesfunc : List UInt8 → List UInt8) :
    Reads (checksum path hash bytesfunc) fun front bs _ => bs = [hash (bytesfunc front)] := by
  intro s a t
  rw [checksum, Construct.bind]
  have hbyte := reads_byte path s
  constructor
  · intro h
    cases hps : byte path s with
    | error e => simp only [hps, reduceCtorEq] at h
    | ok r =>
        obtain ⟨b, u⟩ := r
        simp only [hps] at h
        obtain ⟨bs, back, hback, rfl, rfl⟩ := (hbyte b u).mp hps
        split at h
        · rename_i heq
          cases h
          exact ⟨[b], back, hback, by rw [heq], rfl⟩
        · cases h
  · rintro ⟨bs, back, hback, rfl, rfl⟩
    rw [(hbyte _ ⟨s.front ++ [hash (bytesfunc s.front)], back⟩).mpr ⟨_, back, hback, rfl, rfl⟩]
    exact if_pos rfl

/-- What is looked up is an entry. -/
theorem mem_of_lookup {κ β : Type} [BEq κ] [LawfulBEq κ] {k : κ} {b : β} {entries : List (κ × β)}
    (h : entries.lookup k = some b) : (k, b) ∈ entries := by
  obtain ⟨l₁, l₂, hentries, -⟩ := List.lookup_eq_some_iff.mp h
  rw [hentries]
  exact List.mem_append_right l₁ List.mem_cons_self

/-- A switch is the case of its key, so what holds of all cases and of the default holds of it. -/
theorem switch_rule {P : Parser α → Prop} {key : Text} {cases : List (Text × Parser α)}
    {default : Parser α} (h : ∀ q, (key, q) ∈ cases → P q)
    (hdefault : key ∉ cases.map Prod.fst → P default) : P (switch key cases default) := by
  rw [switch]
  cases hq : cases.lookup key with
  | none =>
      refine hdefault fun hmem => ?_
      obtain ⟨entry, hentry, hkey⟩ := List.mem_map.mp hmem
      exact bne_iff_ne.mp (List.lookup_eq_none_iff.mp hq entry hentry) hkey.symm
  | some q => exact h q (mem_of_lookup hq)

/-- Stripping takes nothing but zeros off. -/
theorem mem_stripNulls {bs : List UInt8} {b : UInt8} (h : b ∈ bs) :
    b = 0 ∨ b ∈ stripNulls bs := by
  rw [← List.mem_reverse, ← List.takeWhile_append_dropWhile (p := (· = 0)) (l := bs.reverse),
    List.mem_append] at h
  rcases h with h | h
  · have hzero := List.mem_takeWhile_imp h
    exact .inl (of_decide_eq_true hzero)
  · exact .inr (List.mem_reverse.mpr h)

/-- What stripping leaves was there. -/
theorem mem_of_mem_stripNulls {bs : List UInt8} {b : UInt8} (h : b ∈ stripNulls bs) :
    b ∈ bs :=
  List.mem_reverse.mp (List.dropWhile_subset _ (List.mem_reverse.mp h))

/-- A padded string is any ASCII data: the zeros at its end are ASCII as well. -/
theorem exists_paddedString_iff {bs : List UInt8} :
    (∃ text, decodeAscii (stripNulls bs) = some text) ↔ ∀ b ∈ bs, b < 128 := by
  simp only [decodeAscii_eq_some_iff, exists_and_left, exists_eq, and_true]
  constructor
  · intro h b hb
    rcases mem_stripNulls hb with rfl | hb
    · decide
    · exact h b hb
  · intro h b hb
    exact h b (mem_of_mem_stripNulls hb)

/-- Two padded strings in a row are any ASCII data of their length. -/
theorem exists_two_paddedStrings_iff {bs : List UInt8} {m n : ℕ} :
    (∃ text bs₁ bs₂, bs = bs₁ ++ bs₂ ∧
      (bs₁.length = m ∧ decodeAscii (stripNulls bs₁) = some text) ∧
      ∃ text', bs₂.length = n ∧ decodeAscii (stripNulls bs₂) = some text') ↔
      bs.length = m + n ∧ ∀ b ∈ bs, b < 128 := by
  constructor
  · rintro ⟨text, bs₁, bs₂, rfl, ⟨h₁, htext⟩, text', h₂, htext'⟩
    refine ⟨by rw [List.length_append, h₁, h₂], fun b hb => ?_⟩
    rcases List.mem_append.mp hb with hb | hb
    · exact exists_paddedString_iff.mp ⟨text, htext⟩ b hb
    · exact exists_paddedString_iff.mp ⟨text', htext'⟩ b hb
  · rintro ⟨hlen, hascii⟩
    obtain ⟨text, htext⟩ := exists_paddedString_iff.mpr
      fun b hb => hascii b (List.mem_of_mem_take (l := bs) (i := m) hb)
    obtain ⟨text', htext'⟩ := exists_paddedString_iff.mpr
      fun b hb => hascii b (List.mem_of_mem_drop (l := bs) (i := m) hb)
    refine ⟨text, bs.take m, bs.drop m, (List.take_append_drop m bs).symm, ⟨?_, htext⟩, text',
      ?_, htext'⟩
    · rw [List.length_take]
      omega
    · rw [List.length_drop]
      omega

/-- An array of padded strings is any ASCII data of the right length. -/
theorem exists_array_paddedString_iff {bs : List UInt8} {count width : ℕ} :
    (∃ texts, ∃ parts : List (List UInt8), bs = parts.flatten ∧ parts.length = count ∧
      List.Forall₂ (fun bs text => bs.length = width ∧
        decodeAscii (stripNulls bs) = some text) parts texts) ↔
      bs.length = count * width ∧ ∀ b ∈ bs, b < 128 := by
  induction count generalizing bs with
  | zero =>
      constructor
      · rintro ⟨texts, parts, rfl, hlen, -⟩
        obtain rfl := List.length_eq_zero_iff.mp hlen
        simp
      · rintro ⟨hlen, -⟩
        obtain rfl : bs = [] := List.length_eq_zero_iff.mp (by simpa using hlen)
        exact ⟨[], [], rfl, rfl, .nil⟩
  | succ count ih =>
      constructor
      · rintro ⟨texts, parts, rfl, hlen, hparts⟩
        cases hparts with
        | nil => simp at hlen
        | @cons part text parts texts hpart hparts =>
            rw [List.length_cons, Nat.add_right_cancel_iff] at hlen
            obtain ⟨hrest, hascii⟩ := ih.mp ⟨texts, parts, rfl, hlen, hparts⟩
            have hpart' := exists_paddedString_iff.mp ⟨text, hpart.2⟩
            refine ⟨?_, ?_⟩
            · rw [List.flatten_cons, List.length_append, hrest, hpart.1]
              ring
            · intro b hb
              rw [List.flatten_cons, List.mem_append] at hb
              rcases hb with hb | hb
              · exact hpart' b hb
              · exact hascii b hb
      · rintro ⟨hlen, hascii⟩
        have hdrop : (bs.drop width).length = count * width := by
          rw [List.length_drop, hlen]
          rw [Nat.add_mul, Nat.one_mul, Nat.add_sub_cancel]
        obtain ⟨texts, parts, hflat, hcount, hparts⟩ := ih.mpr
          ⟨hdrop, fun b hb => hascii b (List.mem_of_mem_drop hb)⟩
        obtain ⟨text, htext⟩ := exists_paddedString_iff.mpr
          fun b hb => hascii b (List.mem_of_mem_take (l := bs) (i := width) hb)
        refine ⟨text :: texts, bs.take width :: parts, ?_, by rw [List.length_cons, hcount],
          .cons ⟨?_, htext⟩ hparts⟩
        · rw [List.flatten_cons, ← hflat, List.take_append_drop]
        · rw [List.length_take, hlen]
          exact Nat.min_eq_left (Nat.le_mul_of_pos_left width (Nat.succ_pos count))

/-- As many stretches of one kind as the array is long. -/
theorem reads_array {Q : List UInt8 → α → Prop} (hp : Reads p fun _ bs a => Q bs a)
    (count : ℕ) : Reads (array p count) fun _ bs as => ∃ parts : List (List UInt8),
      bs = parts.flatten ∧ parts.length = count ∧ List.Forall₂ Q parts as := by
  induction count with
  | zero =>
      refine (Reads.pure []).congr fun front bs as => ?_
      constructor
      · rintro ⟨rfl, rfl⟩
        exact ⟨[], rfl, rfl, .nil⟩
      · rintro ⟨parts, rfl, hlen, hparts⟩
        obtain rfl := List.length_eq_zero_iff.mp hlen
        cases hparts
        exact ⟨rfl, rfl⟩
  | succ count ih =>
      refine (hp.bind fun a => ih.map (a :: ·)).congr fun front bs as => ?_
      constructor
      · rintro ⟨a, bs₁, bs₂, rfl, hQ, as', ⟨parts, rfl, hlen, hparts⟩, rfl⟩
        exact ⟨bs₁ :: parts, rfl, by rw [List.length_cons, hlen], .cons hQ hparts⟩
      · rintro ⟨parts, rfl, hlen, hparts⟩
        cases hparts with
        | nil => simp at hlen
        | @cons part a parts as' hQ hparts =>
            rw [List.length_cons, Nat.add_right_cancel_iff] at hlen
            exact ⟨a, part, parts.flatten, rfl, hQ, as', ⟨parts, rfl, hlen, hparts⟩, rfl⟩

end Construct
