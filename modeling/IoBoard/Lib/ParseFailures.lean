import IoBoard.Lib.Construct

/-!
# How Parsers Fail

The other half of `Reads`: a **failure relation** says which error a parser raises, given what
was read before and what is left of the stream. `Fails p E` says that the parser `p` raises exactly
the errors of `E`; the rules below build it up along the structure of a format. A sequence fails
where its first parser fails, or where the second one does behind a stretch of the grammar of the
first.

## Rows of texts

Most formats contain a row of padded strings of given lengths. Where such a row fails can be said
without the parsers: `TextsFail` goes through the lengths, and finds the first text that is cut
short or not ASCII. The error of a text that is cut short names its path; that of a text that
does not decode quotes its data, without the padding and without a path, which is why only the
data appears in `FirstNonAscii`.

The failure relation is exact, so it also says when a parser does not fail. Together with `Reads`
it determines the result of a parser on every stream.

## The texts of errors

An error is a text at last, and programs look into it. The lemmas at the end split the text of
each kind of error at the first thing that it quotes.

## Main results

* `Fails.bind`, `Fails.map`, `Fails.pure`: the rules of sequencing.
* `fails_const`, `fails_paddedString`, `fails_texts`, `fails_checksum`: the rules of the primitives.
-/

open Ascii

namespace Construct

/-- A failure relation: after `front`, with `back` left, the error `e` is raised. -/
abbrev Failure := (front back : List UInt8) → (e : Error) → Prop

/-- The parser `p` raises exactly the errors of `E`. On a stream for which `E` has none it
succeeds. -/
def Fails {α : Type} (p : Parser α) (E : Failure) : Prop :=
  ∀ s e, p s = .error e ↔ E s.front s.back e

variable {α β : Type} {p : Parser α} {f : α → Parser β} {G : Grammar α} {E : Failure}
  {F : α → Failure}

/-- What reads nothing never fails. -/
theorem Fails.pure (a : α) : Fails (pure a) fun _ _ _ => False :=
  fun _ _ => iff_of_false (fun h => by cases h) id

/-- **Sequencing.** The first parser fails, or the second one behind what the first has read. -/
theorem Fails.bind (hp : Reads p G) (hE : Fails p E) (hf : ∀ a, Fails (f a) (F a)) :
    Fails (bind p f) fun front back e => E front back e ∨ ∃ a bs rest, back = bs ++ rest ∧
      G front bs a ∧ F a (front ++ bs) rest e := by
  intro s e
  rw [Construct.bind]
  cases hps : p s with
  | error e' =>
      have hno : ∀ a bs rest, s.back = bs ++ rest → ¬ G s.front bs a := by
        intro a bs rest hback hG
        rw [(hp s a _).mpr ⟨bs, rest, hback, hG, rfl⟩] at hps
        cases hps
      dsimp only
      rw [← hE s e, hps, Except.error.injEq, Except.error.injEq]
      refine ⟨.inl, fun h => h.resolve_right ?_⟩
      rintro ⟨a, bs, rest, hback, hG, -⟩
      exact hno a bs rest hback hG
  | ok r =>
      obtain ⟨a, t⟩ := r
      obtain ⟨bs, rest, hback, hG, rfl⟩ := (hp s a t).mp hps
      dsimp only
      rw [hf a _ e]
      constructor
      · intro h
        exact .inr ⟨a, bs, rest, hback, hG, h⟩
      · rintro (h | ⟨a', bs', rest', hback', hG', h⟩)
        · rw [(hE s e).mpr h] at hps
          cases hps
        · -- the first parser reads one stretch only
          have hps' := (hp s a' _).mpr ⟨bs', rest', hback', hG', rfl⟩
          rw [hps, Except.ok.injEq, Prod.mk.injEq, Stream.mk.injEq] at hps'
          obtain ⟨rfl, hfront, rfl⟩ := hps'
          rw [hfront]
          exact h

/-- A converted value. The conversion does not fail. -/
theorem Fails.map (hp : Reads p G) (hE : Fails p E) (g : α → β) : Fails (map g p) E := by
  intro s e
  rw [Construct.map, hE.bind hp (fun a => Fails.pure (g a)) s e]
  refine or_iff_left ?_
  rintro ⟨a, bs, rest, -, -, h⟩
  exact h

/-- A failure relation may be replaced by an equivalent one. -/
theorem Fails.congr {E' : Failure} (hE : Fails p E)
    (h : ∀ front back e, E front back e ↔ E' front back e) : Fails p E' := by
  intro s e
  rw [hE s e, h]

/-- `n` bytes are missing where fewer are left. -/
theorem fails_take (path : Text) (n : ℕ) :
    Fails (take path n) fun _ back e => back.length < n ∧ e = .stream path n back.length := by
  intro s e
  rw [take]
  split_ifs with hlen
  · rw [Except.error.injEq]
    exact eq_comm.trans (and_iff_right hlen).symm
  · refine iff_of_false (fun h => ?_) fun h => hlen h.1
    cases h

/-- Bytes that are not those of the constant, or not enough of them. -/
theorem fails_const (path : Text) (value : List UInt8) :
    Fails (const path value) fun _ back e =>
      (back.length < value.length ∧ e = .stream path value.length back.length) ∨
        ∃ parsed rest, back = parsed ++ rest ∧ parsed.length = value.length ∧ parsed ≠ value ∧
          e = .const path value parsed := by
  refine ((fails_take path value.length).bind (reads_take path value.length)
    (F := fun parsed _ _ e => parsed ≠ value ∧ e = .const path value parsed) ?_).congr ?_
  · intro parsed s e
    dsimp only
    split_ifs with hvalue
    · refine iff_of_false (fun h => ?_) fun h => h.1 hvalue
      cases h
    · rw [Except.error.injEq]
      exact eq_comm.trans (and_iff_right hvalue).symm
  · intro front back e
    refine or_congr_right ⟨?_, ?_⟩
    · rintro ⟨parsed, bs, rest, hback, ⟨rfl, hlen⟩, h⟩
      exact ⟨parsed, rest, hback, hlen, h⟩
    · rintro ⟨parsed, rest, hback, hlen, h⟩
      exact ⟨parsed, parsed, rest, hback, ⟨rfl, hlen⟩, h⟩

/-- A byte is missing at the end of the stream. -/
theorem fails_byte (path : Text) :
    Fails (byte path) fun _ back e => back = [] ∧ e = .stream path 1 0 := by
  refine ((fails_take path 1).map (reads_take path 1) _).congr fun front back e => ?_
  rw [Nat.lt_one_iff, List.length_eq_zero_iff]
  refine and_congr_right ?_
  rintro rfl
  exact Iff.rfl

/-- The byte is not the hash of what was read before it. -/
theorem fails_checksum (path : Text) (hash : List UInt8 → UInt8)
    (bytesfunc : List UInt8 → List UInt8) :
    Fails (checksum path hash bytesfunc) fun front back e =>
      (back = [] ∧ e = .stream path 1 0) ∨
        ∃ read rest, back = read :: rest ∧ read ≠ hash (bytesfunc front) ∧
          e = .checksum path read.toNat (hash (bytesfunc front)).toNat := by
  intro s e
  rw [checksum, (fails_byte path).bind (reads_byte path)
    (F := fun read _ _ e => read ≠ hash (bytesfunc s.front) ∧
      e = .checksum path read.toNat (hash (bytesfunc s.front)).toNat) ?_ s e]
  · refine or_congr_right ⟨?_, ?_⟩
    · rintro ⟨read, bs, rest, hback, rfl, h⟩
      exact ⟨read, rest, hback, h⟩
    · rintro ⟨read, rest, hback, h⟩
      exact ⟨read, [read], rest, hback, rfl, h⟩
  · intro read t e
    dsimp only
    split_ifs with hread
    · refine iff_of_false (fun h => ?_) fun h => h.1 hread
      cases h
    · rw [Except.error.injEq]
      exact eq_comm.trans (and_iff_right hread).symm

/-! ### Rows of texts -/

/-- Text decodes when it is ASCII, with or without its padding. -/
theorem decodeAscii_stripNulls_eq_none_iff {bs : List UInt8} :
    decodeAscii (stripNulls bs) = none ↔ ∃ b ∈ bs, 128 ≤ b := by
  rw [← Option.not_isSome_iff_eq_none, Option.isSome_iff_exists, exists_paddedString_iff]
  simp only [not_forall, UInt8.not_lt, exists_prop]

/-- How a row of padded strings fails, given by their paths and lengths: a text is cut short, or
is not ASCII. The texts before it are. -/
def TextsFail : List (Text × ℕ) → List UInt8 → Error → Prop
  | [], _, _ => False
  | (path, n) :: fields, back, e =>
      (back.length < n ∧ e = .stream path n back.length) ∨
        ∃ bs rest, back = bs ++ rest ∧ bs.length = n ∧
          ((∃ b ∈ bs, 128 ≤ b) ∧ e = .decode (stripNulls bs) ∨
            (∀ b ∈ bs, b < 128) ∧ TextsFail fields rest e)

/-- A padded string that is cut short or not ASCII. -/
theorem fails_paddedString (path : Text) (n : ℕ) :
    Fails (paddedString path n) fun _ back e => TextsFail [(path, n)] back e := by
  refine ((fails_take path n).bind (reads_take path n)
    (F := fun bs _ _ e => decodeAscii (stripNulls bs) = none ∧ e = .decode (stripNulls bs))
    ?_).congr ?_
  · intro bs s e
    dsimp only
    cases decodeAscii (stripNulls bs) with
    | some text =>
        refine iff_of_false (fun h => ?_) fun h => ?_
        · cases h
        · cases h.1
    | none =>
        rw [Except.error.injEq]
        exact eq_comm.trans (and_iff_right rfl).symm
  · intro front back e
    rw [TextsFail]
    refine or_congr_right ⟨?_, ?_⟩
    · rintro ⟨_, bs, rest, hback, ⟨rfl, hlen⟩, hnone, he⟩
      exact ⟨_, rest, hback, hlen, .inl ⟨decodeAscii_stripNulls_eq_none_iff.mp hnone, he⟩⟩
    · rintro ⟨bs, rest, hback, hlen, ⟨hbad, he⟩ | ⟨-, h⟩⟩
      · exact ⟨bs, bs, rest, hback, ⟨rfl, hlen⟩, decodeAscii_stripNulls_eq_none_iff.mpr hbad, he⟩
      · exact h.elim

/-- A row of texts fails as its first text does, or behind it. -/
theorem textsFail_cons_iff {path : Text} {n : ℕ} {fields : List (Text × ℕ)} {back : List UInt8}
    {e : Error} : TextsFail ((path, n) :: fields) back e ↔ TextsFail [(path, n)] back e ∨
      ∃ text bs rest, back = bs ++ rest ∧
        (bs.length = n ∧ decodeAscii (stripNulls bs) = some text) ∧ TextsFail fields rest e := by
  rw [TextsFail, TextsFail, or_assoc]
  refine or_congr_right ⟨?_, ?_⟩
  · rintro ⟨bs, rest, hback, hlen, ⟨hbad, he⟩ | ⟨hascii, h⟩⟩
    · exact .inl ⟨bs, rest, hback, hlen, .inl ⟨hbad, he⟩⟩
    · obtain ⟨text, htext⟩ := exists_paddedString_iff.mpr hascii
      exact .inr ⟨text, bs, rest, hback, ⟨hlen, htext⟩, h⟩
  · rintro (⟨bs, rest, hback, hlen, ⟨hbad, he⟩ | ⟨-, h⟩⟩ |
      ⟨text, bs, rest, hback, ⟨hlen, htext⟩, h⟩)
    · exact ⟨bs, rest, hback, hlen, .inl ⟨hbad, he⟩⟩
    · exact h.elim
    · exact ⟨bs, rest, hback, hlen, .inr ⟨exists_paddedString_iff.mp ⟨text, htext⟩, h⟩⟩

/-- **A padded string in front of a parser that fails as a row of texts does**: together they
fail as the longer row. -/
theorem fails_texts {path : Text} {n : ℕ} {f : Text → Parser α} {fields : List (Text × ℕ)}
    (hf : ∀ text, Fails (f text) fun _ back e => TextsFail fields back e) :
    Fails (bind (paddedString path n) f) fun _ back e =>
      TextsFail ((path, n) :: fields) back e :=
  ((fails_paddedString path n).bind (reads_paddedString path n) hf).congr
    fun _ _ _ => textsFail_cons_iff.symm

/-- An array of padded strings, as a row of texts with the same path. -/
theorem fails_array_paddedString (path : Text) (n count : ℕ) :
    Fails (array (paddedString path n) count) fun _ back e =>
      TextsFail (List.replicate count (path, n)) back e := by
  induction count with
  | zero => exact Fails.pure []
  | succ count ih =>
      exact fails_texts fun text => ih.map (reads_array (reads_paddedString path n) count) _

/-- The first text that is not ASCII in a row of texts of the given lengths, without its
padding. -/
def FirstNonAscii (lengths : List ℕ) (back data : List UInt8) : Prop :=
  ∃ parts bs rest, back = parts.flatten ++ (bs ++ rest) ∧
    (parts ++ [bs]).map List.length <+: lengths ∧ (∀ part ∈ parts, ∀ b ∈ part, b < 128) ∧
    (∃ b ∈ bs, 128 ≤ b) ∧ data = stripNulls bs

/-- **A row of texts fails to decode at its first text that is not ASCII**, if none before it is
cut short. -/
theorem textsFail_decode_iff {fields : List (Text × ℕ)} {back data : List UInt8} :
    TextsFail fields back (.decode data) ↔ FirstNonAscii (fields.map Prod.snd) back data := by
  induction fields generalizing back with
  | nil =>
      refine iff_of_false id ?_
      rintro ⟨parts, bs, rest, -, hlengths, -⟩
      have := hlengths.length_le
      simp at this
  | cons field fields ih =>
      obtain ⟨path, n⟩ := field
      rw [TextsFail, or_iff_right fun h => nomatch h.2]
      simp only [ih, Error.decode.injEq]
      constructor
      · rintro ⟨bs, rest, rfl, rfl, ⟨hbad, rfl⟩ |
          ⟨hascii, parts, cs, rest, rfl, hlengths, hparts, hbad⟩⟩
        · exact ⟨[], bs, rest, rfl, by simp, nofun, hbad, rfl⟩
        · refine ⟨bs :: parts, cs, rest, by simp, ?_, List.forall_mem_cons.mpr ⟨hascii, hparts⟩,
            hbad⟩
          exact List.cons_prefix_cons.mpr ⟨rfl, hlengths⟩
      · rintro ⟨parts, cs, rest, rfl, hlengths, hparts, hbad, rfl⟩
        cases parts with
        | nil => exact ⟨cs, rest, rfl, (List.cons_prefix_cons.mp hlengths).1, .inl ⟨hbad, rfl⟩⟩
        | cons part parts =>
            obtain ⟨hlen, hlengths⟩ := List.cons_prefix_cons.mp hlengths
            obtain ⟨hascii, hparts⟩ := List.forall_mem_cons.mp hparts
            exact ⟨part, parts.flatten ++ (cs ++ rest), by simp, hlen,
              .inr ⟨hascii, parts, cs, rest, rfl, hlengths, hparts, hbad, rfl⟩⟩

/-- A row of texts is cut short or does not decode. -/
theorem TextsFail.stream_or_decode {fields : List (Text × ℕ)} {back : List UInt8} {e : Error}
    (h : TextsFail fields back e) :
    (∃ field ∈ fields, ∃ found, e = .stream field.1 field.2 found) ∨ ∃ data, e = .decode data := by
  induction fields generalizing back with
  | nil => exact h.elim
  | cons field fields ih =>
      rcases h with ⟨-, rfl⟩ | ⟨bs, rest, -, -, ⟨-, rfl⟩ | ⟨-, h⟩⟩
      · exact .inl ⟨field, List.mem_cons_self, _, rfl⟩
      · exact .inr ⟨_, rfl⟩
      · refine (ih h).imp_left ?_
        rintro ⟨field', hmem, hstream⟩
        exact ⟨field', List.mem_cons_of_mem _ hmem, hstream⟩

/-! ### The texts of errors

The text of an error up to the first thing that it quotes, and the rest. -/

/-- The message follows the path. -/
theorem inPath_append (path a b : Text) : inPath path (a ++ b) = inPath path a ++ b := by
  unfold inPath
  rw [List.append_assoc, List.append_assoc, List.append_assoc, List.cons_append]

theorem Error.text_const (path : Text) (expected parsed : List UInt8) :
    (Error.const path expected parsed).text =
      inPath path ("parsing expected ".toList ++ bytesRepr expected ++ " but parsed".toList) ++
        ' ' :: bytesRepr parsed := by
  have hend : " but parsed ".toList = " but parsed".toList ++ [' '] := by decide
  change inPath path ("parsing expected ".toList ++ bytesRepr expected ++ " but parsed ".toList ++
    bytesRepr parsed) = _
  rw [hend, inPath_append, ← List.append_assoc, inPath_append, List.append_assoc,
    List.singleton_append]

theorem Error.text_stream (path : Text) (expected found : ℕ) :
    (Error.stream path expected found).text =
      inPath path "stream read less than specified amount, expected".toList ++ ' ' ::
        (decimal expected ++ ',' :: (" found".toList ++ ' ' :: decimal found)) := by
  have hfront : "stream read less than specified amount, expected ".toList =
      "stream read less than specified amount, expected".toList ++ [' '] := by decide
  have hmiddle : ", found ".toList = ',' :: (" found".toList ++ [' ']) := by decide
  change inPath path ("stream read less than specified amount, expected ".toList ++
    decimal expected ++ ", found ".toList ++ decimal found) = _
  rw [hfront, hmiddle, List.append_assoc, List.append_assoc, List.append_assoc, inPath_append,
    List.singleton_append, List.cons_append, List.append_assoc, List.singleton_append]

theorem Error.text_decode (data : List UInt8) : (Error.decode data).text =
    "cannot use encoding 'ascii' to decode".toList ++ ' ' :: bytesRepr data := by
  have hend : "cannot use encoding 'ascii' to decode ".toList =
      "cannot use encoding 'ascii' to decode".toList ++ [' '] := by decide
  change "cannot use encoding 'ascii' to decode ".toList ++ bytesRepr data = _
  rw [hend, List.append_assoc, List.singleton_append]

theorem Error.text_checksum (path : Text) (read computed : ℕ) :
    (Error.checksum path read computed).text =
      inPath path "wrong checksum".toList ++ (", read ".toList ++ (decimal read ++
        (", computed ".toList ++ decimal computed))) := by
  have hfront : "wrong checksum, read ".toList = "wrong checksum".toList ++ ", read ".toList := by
    decide
  change inPath path ("wrong checksum, read ".toList ++ decimal read ++ ", computed ".toList ++
    decimal computed) = _
  rw [hfront, List.append_assoc, List.append_assoc, List.append_assoc, inPath_append]

end Construct
