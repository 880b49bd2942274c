import Mathlib.Data.Int.Notation
import Mathlib.Data.List.Basic
import Mathlib.Tactic.SplitIfs

/-!
# JSON

The JSON values of a program, the text that Python's `json.dumps` makes of them, and a reader of
JSON texts. The text is plain ASCII: a string is escaped by its UTF-16 code units, so a character
outside the basic plane becomes a surrogate pair.

## Floats

The text of a float is left to a `FloatText`, since only two things matter of it: it is a word of
its own kind, and it reads back. That covers what Python writes for infinities and NaN, which is
no JSON in the strict sense but is what its own reader takes.

## The reader

The reader is a recursive descent over the text with fuel, and every value that it reads takes at
least one character, so the length of the text is enough fuel. Numbers and names are read as words:
a word ends where a character comes that belongs to no word, and what kind it is is decided
afterwards. Of malformed texts nothing is said; the reader may be more liberal than the standard
on them. Duplicate names of an object are kept in their order, where Python would make a
dictionary.

The round trip is by mutual recursion over values, elements and members, each with any rest of the
text behind it that does not continue a word.

## Main definitions

* `Json`, `dumps`, `loads`: the values, their text, and the reader.

## Main results

* `loads_dumps`: **what is dumped reads back**.
* `all_isPrint_dumps`: the text is one line of printable ASCII.
-/

namespace Json

/-- A character of a number or of a name. -/
def isWordChar (c : Char) : Bool :=
  c.isAlphanum || c == '+' || c == '-' || c == '.'

/-- A printable character of ASCII. -/
def isPrint (c : Char) : Bool :=
  decide (0x20 ≤ c.toNat ∧ c.toNat ≤ 0x7e)

/-! ### Integers -/

/-- `int.__repr__(n)`: the decimal digits, with a minus in front of those of a negative number. -/
def intText (n : ℤ) : List Char :=
  if n < 0 then '-' :: Nat.toDigits 10 n.natAbs else Nat.toDigits 10 n.natAbs

/-- The number that some digits write. Leading zeros are not refused. -/
def natValue (w : List Char) : Option ℕ :=
  if w ≠ [] ∧ w.all Char.isDigit then some (Nat.ofDigitChars 10 w 0) else none

/-- The integer that a word writes. -/
def intValue : List Char → Option ℤ
  | '-' :: w => (natValue w).map fun (n : ℕ) => -(n : ℤ)
  | w => (natValue w).map fun (n : ℕ) => (n : ℤ)

theorem natValue_toDigits (n : ℕ) : natValue (Nat.toDigits 10 n) = some n := by
  rw [natValue, if_pos, Nat.ofDigitChars_ten_toDigits]
  refine ⟨Nat.toDigits_ne_nil, List.all_eq_true.mpr fun c hc => ?_⟩
  exact Nat.isDigit_of_mem_toDigits (by decide) (by decide) hc

/-- The text of a number starts with a digit. -/
theorem exists_toDigits (n : ℕ) :
    ∃ c w, Nat.toDigits 10 n = c :: w ∧ c.isDigit = true := by
  obtain ⟨c, w, h⟩ := List.exists_cons_of_ne_nil (Nat.toDigits_ne_nil (n := n) (b := 10))
  have hc : c ∈ Nat.toDigits 10 n := by simp [h]
  exact ⟨c, w, h, Nat.isDigit_of_mem_toDigits (by decide) (by decide) hc⟩

/-- An integer reads back. -/
theorem intValue_intText (n : ℤ) : intValue (intText n) = some n := by
  rw [intText]
  split_ifs with hn
  · rw [intValue, natValue_toDigits, Option.map_some]
    congr 1
    omega
  · obtain ⟨c, w, h, hc⟩ := exists_toDigits n.natAbs
    have hminus : c ≠ '-' := by
      rintro rfl
      exact absurd hc (by decide)
    have hnat := natValue_toDigits n.natAbs
    rw [h] at hnat ⊢
    unfold intValue
    split
    · next heq => exact absurd (List.cons.inj heq).1 hminus
    · rw [hnat, Option.map_some]
      congr 1
      omega

/-! ### Strings -/

/-- The UTF-16 code units of a character. -/
def utf16 (c : Char) : List ℕ :=
  if c.toNat < 0x10000 then [c.toNat]
  else [0xd800 + (c.toNat - 0x10000) / 0x400, 0xdc00 + (c.toNat - 0x10000) % 0x400]

/-- The characters of some code units. A surrogate that is not one of a pair is refused. -/
def fromUtf16 : List ℕ → Option (List Char)
  | [] => some []
  | u :: us =>
      if 0xd800 ≤ u ∧ u < 0xdc00 then
        match us with
        | low :: us =>
            if 0xdc00 ≤ low ∧ low < 0xe000 then
              (fromUtf16 us).map
                (Char.ofNat (0x10000 + (u - 0xd800) * 0x400 + (low - 0xdc00)) :: ·)
            else none
        | [] => none
      else if 0xdc00 ≤ u ∧ u < 0xe000 then none
      else (fromUtf16 us).map (Char.ofNat u :: ·)

/-- The value of a hexadecimal digit. -/
def hexValue (c : Char) : Option ℕ :=
  if c.isDigit then some (c.toNat - '0'.toNat)
  else if 'a' ≤ c ∧ c ≤ 'f' then some (c.toNat - 'a'.toNat + 10)
  else if 'A' ≤ c ∧ c ≤ 'F' then some (c.toNat - 'A'.toNat + 10)
  else none

/-- The code unit of `\uabcd`. -/
def hexUnit (a b c d : Char) : Option ℕ := do
  let a ← hexValue a
  let b ← hexValue b
  let c ← hexValue c
  let d ← hexValue d
  return ((a * 16 + b) * 16 + c) * 16 + d

/-- `ESCAPE_DCT` on a code unit: two characters, or the character itself, or `\u` and four
digits. -/
def escape (u : ℕ) : List Char :=
  if u = 0x22 then ['\\', '"']
  else if u = 0x5c then ['\\', '\\']
  else if u = 0x0a then ['\\', 'n']
  else if u = 0x0d then ['\\', 'r']
  else if u = 0x09 then ['\\', 't']
  else if u = 0x0c then ['\\', 'f']
  else if u = 0x08 then ['\\', 'b']
  else if 0x20 ≤ u ∧ u ≤ 0x7e then [Char.ofNat u]
  else ['\\', 'u', Nat.digitChar (u / 0x1000 % 16), Nat.digitChar (u / 0x100 % 16),
    Nat.digitChar (u / 0x10 % 16), Nat.digitChar (u % 16)]

/-- The escapes of one letter, behind the backslash. -/
def unescape (c : Char) : Option ℕ :=
  if c = '"' then some 0x22
  else if c = '\\' then some 0x5c
  else if c = '/' then some 0x2f
  else if c = 'n' then some 0x0a
  else if c = 'r' then some 0x0d
  else if c = 't' then some 0x09
  else if c = 'f' then some 0x0c
  else if c = 'b' then some 0x08
  else none

/-- `py_encode_basestring_ascii(s)`. -/
def stringText (s : List Char) : List Char :=
  '"' :: (s.flatMap utf16).flatMap escape ++ ['"']

/-- The code units of a string up to its closing quote, and the text behind it. -/
def readUnits : List Char → Option (List ℕ × List Char)
  | [] => none
  | '"' :: rest => some ([], rest)
  | '\\' :: 'u' :: a :: b :: c :: d :: rest => do
      let u ← hexUnit a b c d
      let p ← readUnits rest
      return (u :: p.1, p.2)
  | '\\' :: c :: rest => do
      let u ← unescape c
      let p ← readUnits rest
      return (u :: p.1, p.2)
  | c :: rest =>
      if c.toNat < 0x20 then none
      else (readUnits rest).map fun p => (utf16 c ++ p.1, p.2)

/-- A string behind its opening quote. -/
def readString (text : List Char) : Option (List Char × List Char) := do
  let p ← readUnits text
  let s ← fromUtf16 p.1
  return (s, p.2)

/-- A character reads back from its code units. -/
theorem fromUtf16_utf16 (c : Char) (us : List ℕ) :
    fromUtf16 (utf16 c ++ us) = (fromUtf16 us).map (c :: ·) := by
  have hvalid : c.toNat < 0xd800 ∨ 0xdfff < c.toNat ∧ c.toNat < 0x110000 := c.valid
  rw [utf16]
  split_ifs with hlow
  · rw [List.singleton_append, fromUtf16.eq_def]
    dsimp only
    rw [if_neg (by omega), if_neg (by omega), Char.ofNat_toNat]
  · rw [List.cons_append, List.singleton_append, fromUtf16, if_pos (by omega), if_pos (by omega)]
    have hsum : 0x10000 + (0xd800 + (c.toNat - 0x10000) / 0x400 - 0xd800) * 0x400 +
        (0xdc00 + (c.toNat - 0x10000) % 0x400 - 0xdc00) = c.toNat := by omega
    rw [hsum, Char.ofNat_toNat]

theorem utf16_lt {c : Char} {u : ℕ} (h : u ∈ utf16 c) : u < 0x10000 := by
  have hvalid : c.toNat < 0xd800 ∨ 0xdfff < c.toNat ∧ c.toNat < 0x110000 := c.valid
  unfold utf16 at h
  split_ifs at h
  all_goals
    simp only [List.mem_cons, List.not_mem_nil, or_false] at h
    omega

theorem hexValue_digitChar {d : ℕ} (h : d < 16) : hexValue (Nat.digitChar d) = some d := by
  revert d
  decide

/-- Four hexadecimal digits read back. -/
theorem hexUnit_digitChar {u : ℕ} (hu : u < 0x10000) :
    hexUnit (Nat.digitChar (u / 0x1000 % 16)) (Nat.digitChar (u / 0x100 % 16))
      (Nat.digitChar (u / 0x10 % 16)) (Nat.digitChar (u % 16)) = some u := by
  have hmod : ∀ n : ℕ, n % 16 < 16 := fun n => Nat.mod_lt n (by decide)
  rw [hexUnit, hexValue_digitChar (hmod _), hexValue_digitChar (hmod _),
    hexValue_digitChar (hmod _), hexValue_digitChar (hmod _)]
  refine congrArg some ?_
  omega

/-- A character that is not escaped reads as itself. -/
theorem readUnits_print {c : Char} (hquote : c ≠ '"') (hslash : c ≠ '\\') (hc : isPrint c = true)
    (rest : List Char) :
    readUnits (c :: rest) = (readUnits rest).map fun p => (c.toNat :: p.1, p.2) := by
  obtain ⟨hlow, hhigh⟩ := of_decide_eq_true hc
  have hunits : utf16 c = [c.toNat] := if_pos (by omega)
  rw [readUnits.eq_def]
  split
  · next heq => cases heq
  · next heq => exact absurd (List.cons.inj heq).1 hquote
  · next heq => exact absurd (List.cons.inj heq).1 hslash
  · next heq => exact absurd (List.cons.inj heq).1 hslash
  · next heq =>
      obtain ⟨rfl, rfl⟩ := List.cons.inj heq
      rw [if_neg (by omega), hunits]
      rfl

theorem toNat_ofNat_print {u : ℕ} (h : 0x20 ≤ u ∧ u ≤ 0x7e) : (Char.ofNat u).toNat = u := by
  rw [Char.ofNat, dif_pos (.inl (by omega))]
  rfl

/-- A code unit reads back from its escape. -/
theorem readUnits_escape {u : ℕ} (hu : u < 0x10000) (rest : List Char) :
    readUnits (escape u ++ rest) = (readUnits rest).map fun p => (u :: p.1, p.2) := by
  have hletter : ∀ {c : Char} {v : ℕ}, c ≠ 'u' → unescape c = some v →
      readUnits (['\\', c] ++ rest) = (readUnits rest).map fun p => (v :: p.1, p.2) := by
    intro c v hc hv
    rw [List.cons_append, List.singleton_append, readUnits, hv]
    · cases readUnits rest <;> rfl
    · exact fun a b d e r heq _ => hc heq
  unfold escape
  split_ifs with h1 h2 h3 h4 h5 h6 h7 h8
  iterate 7
    subst u
    exact hletter (by decide) rfl
  · have hchar := toNat_ofNat_print h8
    have hne : ∀ c : Char, c.toNat ≠ u → Char.ofNat u ≠ c := by
      rintro c hc rfl
      exact hc hchar
    rw [List.singleton_append, readUnits_print (hne '"' (Ne.symm h1)) (hne '\\' (Ne.symm h2)),
      hchar]
    rw [isPrint, hchar]
    exact decide_eq_true h8
  · simp only [List.cons_append, List.nil_append]
    rw [readUnits, hexUnit_digitChar hu]
    cases readUnits rest <;> rfl

/-- A string reads back. -/
theorem readString_stringText (s rest : List Char) :
    readString ((s.flatMap utf16).flatMap escape ++ '"' :: rest) = some (s, rest) := by
  have hunits : ∀ us : List ℕ, (∀ u ∈ us, u < 0x10000) →
      readUnits (us.flatMap escape ++ '"' :: rest) = some (us, rest) := by
    intro us hus
    induction us with
    | nil => rfl
    | cons u us ih =>
        rw [List.flatMap_cons, List.append_assoc, readUnits_escape (hus u List.mem_cons_self),
          ih fun v hv => hus v (List.mem_cons_of_mem u hv)]
        rfl
  have hchars : fromUtf16 (s.flatMap utf16) = some s := by
    induction s with
    | nil => rfl
    | cons c s ih => rw [List.flatMap_cons, fromUtf16_utf16, ih, Option.map_some]
  have hlt : ∀ u ∈ s.flatMap utf16, u < 0x10000 := by
    intro u hu
    obtain ⟨c, -, hc⟩ := List.mem_flatMap.mp hu
    exact utf16_lt hc
  rw [readString, hunits _ hlt, Option.bind_eq_bind, Option.bind_some, hchars]
  rfl

end Json

/-! ### Values -/

/-- A JSON value. The members of an object stand in their order. -/
inductive Json (F : Type)
  | null
  | bool (b : Bool)
  | int (n : ℤ)
  | float (x : F)
  | str (s : List Char)
  | arr (elements : List (Json F))
  | obj (members : List (List Char × Json F))

/-- The text that `json.dumps` writes of a float, and the float that `json.loads` reads from a
text: what is written is a word that is no integer, and reads back. Of a finite number it is
`float.__repr__`; NaN and the infinities are written `NaN`, `Infinity` and `-Infinity`, which
`float.__repr__` writes otherwise. -/
structure FloatText (F : Type) where
  repr : F → List Char
  parse : List Char → Option F
  parse_repr : ∀ x, parse (repr x) = some x
  isWordChar_of_mem : ∀ x, ∀ c ∈ repr x, Json.isWordChar c = true
  intValue_repr : ∀ x, Json.intValue (repr x) = none
  exists_head : ∀ x, ∃ c w, repr x = c :: w ∧ (c.isDigit ∨ c = '-' ∨ c = 'N' ∨ c = 'I')

namespace Json

variable {F : Type} (t : FloatText F)

mutual

/-- `json.dumps(value)`. -/
def dumps : Json F → List Char
  | .null => "null".toList
  | .bool true => "true".toList
  | .bool false => "false".toList
  | .int n => intText n
  | .float x => t.repr x
  | .str s => stringText s
  | .arr [] => ['[', ']']
  | .arr (v :: vs) => '[' :: (dumps v ++ dumpElements vs)
  | .obj [] => ['{', '}']
  | .obj ((k, v) :: ms) => '{' :: (stringText k ++ ':' :: ' ' :: (dumps v ++ dumpMembers ms))

/-- The other elements of an array, and its end. -/
def dumpElements : List (Json F) → List Char
  | [] => [']']
  | v :: vs => ',' :: ' ' :: (dumps v ++ dumpElements vs)

/-- The other members of an object, and its end. -/
def dumpMembers : List (List Char × Json F) → List Char
  | [] => ['}']
  | (k, v) :: ms => ',' :: ' ' :: (stringText k ++ ':' :: ' ' :: (dumps v ++ dumpMembers ms))

end

/-- White space between the tokens. -/
def isWs (c : Char) : Bool :=
  c == ' ' || c == '\t' || c == '\n' || c == '\r'

/-- The text behind its white space. -/
def skipWs (s : List Char) : List Char :=
  s.dropWhile isWs

/-- The value of a word. -/
def wordValue (w : List Char) : Option (Json F) :=
  if w = "null".toList then some .null
  else if w = "true".toList then some (.bool true)
  else if w = "false".toList then some (.bool false)
  else match intValue w with
    | some n => some (.int n)
    | none => (t.parse w).map .float

mutual

/-- A value at the front of a text. The fuel bounds the length of the text. -/
def readValue : ℕ → List Char → Option (Json F × List Char)
  | 0, _ => none
  | n + 1, s =>
      match skipWs s with
      | '"' :: r => (readString r).map fun p => (.str p.1, p.2)
      | '[' :: r =>
          match skipWs r with
          | ']' :: r => some (.arr [], r)
          | r => (readElements n r).map fun p => (.arr p.1, p.2)
      | '{' :: r =>
          match skipWs r with
          | '}' :: r => some (.obj [], r)
          | r => (readMembers n r).map fun p => (.obj p.1, p.2)
      | r => (wordValue t (r.takeWhile isWordChar)).map fun v => (v, r.dropWhile isWordChar)

/-- The elements of an array up to its end. -/
def readElements : ℕ → List Char → Option (List (Json F) × List Char)
  | 0, _ => none
  | n + 1, s => do
      let p ← readValue n s
      match skipWs p.2 with
      | ',' :: r => do
          let q ← readElements n r
          return (p.1 :: q.1, q.2)
      | ']' :: r => return ([p.1], r)
      | _ => none

/-- The members of an object up to its end. -/
def readMembers : ℕ → List Char → Option (List (List Char × Json F) × List Char)
  | 0, _ => none
  | n + 1, s =>
      match skipWs s with
      | '"' :: r => do
          let k ← readString r
          match skipWs k.2 with
          | ':' :: r => do
              let p ← readValue n r
              match skipWs p.2 with
              | ',' :: r => do
                  let q ← readMembers n r
                  return ((k.1, p.1) :: q.1, q.2)
              | '}' :: r => return ([(k.1, p.1)], r)
              | _ => none
          | _ => none
      | _ => none

end

/-- `json.loads(text)`: one value, and nothing but white space behind it. -/
def loads (text : List Char) : Option (Json F) := do
  let p ← readValue t (text.length + 1) text
  if skipWs p.2 = [] then some p.1 else none

theorem skipWs_cons {c : Char} (hc : isWs c = false) (s : List Char) : skipWs (c :: s) = c :: s :=
  List.dropWhile_cons_of_neg (by simp [hc])

theorem skipWs_space (s : List Char) : skipWs (' ' :: s) = skipWs s :=
  List.dropWhile_cons_of_pos rfl

/-- A value is read behind a space as without. -/
theorem readValue_space (n : ℕ) (s : List Char) : readValue t n (' ' :: s) = readValue t n s := by
  cases n with
  | zero => rfl
  | succ n => rw [readValue, readValue, skipWs_space]

theorem readElements_space (n : ℕ) (s : List Char) :
    readElements t n (' ' :: s) = readElements t n s := by
  cases n with
  | zero => rfl
  | succ n => rw [readElements, readElements, readValue_space]

theorem readMembers_space (n : ℕ) (s : List Char) :
    readMembers t n (' ' :: s) = readMembers t n s := by
  cases n with
  | zero => rfl
  | succ n => rw [readMembers, readMembers, skipWs_space]

/-! ### The cases of the reader -/

/-- The text does not go on with a word, so a word in front of it ends there. -/
def NoWord (r : List Char) : Prop :=
  ∀ c s, r = c :: s → isWordChar c = false

theorem noWord_cons {c : Char} (hc : isWordChar c = false) (r : List Char) : NoWord (c :: r) := by
  rintro _ _ heq
  obtain ⟨rfl, rfl⟩ := List.cons.inj heq
  exact hc

theorem noWord_nil : NoWord [] := by
  rintro _ _ heq
  cases heq

variable {t} {n : ℕ} {s r w : List Char} {v : Json F} {c : Char}

theorem readValue_str (s r : List Char) :
    readValue t (n + 1) (stringText s ++ r) = some (.str s, r) := by
  rw [stringText, List.append_assoc, List.singleton_append, List.cons_append, readValue,
    skipWs_cons rfl]
  change (readString _).map _ = _
  rw [readString_stringText, Option.map_some]

theorem readValue_arr_nil : readValue t (n + 1) ('[' :: ']' :: r) = some (.arr [], r) := by
  rw [readValue, skipWs_cons rfl]
  rfl

theorem readValue_obj_nil : readValue t (n + 1) ('{' :: '}' :: r) = some (.obj [], r) := by
  rw [readValue, skipWs_cons rfl]
  rfl

theorem readValue_arr (hws : isWs c = false) (hend : c ≠ ']') :
    readValue t (n + 1) ('[' :: c :: s) =
      (readElements t n (c :: s)).map fun p => (.arr p.1, p.2) := by
  rw [readValue, skipWs_cons rfl]
  simp only
  rw [skipWs_cons hws]
  split
  · next heq => exact absurd (List.cons.inj heq).1 hend
  · rfl

theorem readValue_obj :
    readValue t (n + 1) ('{' :: '"' :: s) =
      (readMembers t n ('"' :: s)).map fun p => (.obj p.1, p.2) := by
  rw [readValue, skipWs_cons rfl]
  rfl

/-- A word is no token of another kind. -/
theorem ne_of_isWordChar {d : Char} (hc : isWordChar c = true) (hd : isWordChar d = false) :
    c ≠ d := by
  rintro rfl
  exact absurd hc (by simp [hd])

theorem isWs_of_isWordChar (hc : isWordChar c = true) : isWs c = false := by
  simp only [isWs, Bool.or_eq_false_iff, beq_eq_false_iff_ne]
  exact ⟨⟨⟨ne_of_isWordChar hc rfl, ne_of_isWordChar hc rfl⟩, ne_of_isWordChar hc rfl⟩,
    ne_of_isWordChar hc rfl⟩

theorem readValue_word (hne : w ≠ []) (hw : ∀ c ∈ w, isWordChar c = true) (hr : NoWord r) :
    readValue t (n + 1) (w ++ r) = (wordValue t w).map fun v => (v, r) := by
  have htake : (w ++ r).takeWhile isWordChar = w := by
    rw [List.takeWhile_append_of_pos hw]
    cases r with
    | nil => simp
    | cons d r => rw [List.takeWhile_cons_of_neg (by simp [hr d r rfl]), List.append_nil]
  have hdrop : (w ++ r).dropWhile isWordChar = r := by
    rw [List.dropWhile_append_of_pos hw]
    cases r with
    | nil => rfl
    | cons d r => exact List.dropWhile_cons_of_neg (by simp [hr d r rfl])
  obtain ⟨c, s, rfl⟩ := List.exists_cons_of_ne_nil hne
  have hc := hw c List.mem_cons_self
  have hws := isWs_of_isWordChar hc
  rw [List.cons_append] at htake hdrop
  rw [List.cons_append, readValue, skipWs_cons hws]
  split
  · next heq => exact absurd (List.cons.inj heq).1 (ne_of_isWordChar hc rfl)
  · next heq => exact absurd (List.cons.inj heq).1 (ne_of_isWordChar hc rfl)
  · next heq => exact absurd (List.cons.inj heq).1 (ne_of_isWordChar hc rfl)
  · rw [htake, hdrop]

theorem readElements_cons (h : readValue t n s = some (v, ',' :: r)) :
    readElements t (n + 1) s = (readElements t n r).map fun q => (v :: q.1, q.2) := by
  rw [readElements, h, Option.bind_eq_bind, Option.bind_some, skipWs_cons rfl]
  exact Option.bind_eq_bind ▸ Option.map_eq_bind.symm

theorem readElements_last (h : readValue t n s = some (v, ']' :: r)) :
    readElements t (n + 1) s = some ([v], r) := by
  rw [readElements, h, Option.bind_eq_bind, Option.bind_some, skipWs_cons rfl]
  rfl

theorem readMembers_cons {k : List Char} (h : readValue t n s = some (v, ',' :: r)) :
    readMembers t (n + 1) (stringText k ++ ':' :: s) =
      (readMembers t n r).map fun q => ((k, v) :: q.1, q.2) := by
  rw [stringText, List.append_assoc, List.singleton_append, List.cons_append, readMembers,
    skipWs_cons rfl]
  simp only
  rw [readString_stringText, Option.bind_eq_bind, Option.bind_some, skipWs_cons rfl]
  simp only
  rw [h, Option.bind_eq_bind, Option.bind_some, skipWs_cons rfl]
  exact Option.map_eq_bind.symm

theorem readMembers_last {k : List Char} (h : readValue t n s = some (v, '}' :: r)) :
    readMembers t (n + 1) (stringText k ++ ':' :: s) = some ([(k, v)], r) := by
  rw [stringText, List.append_assoc, List.singleton_append, List.cons_append, readMembers,
    skipWs_cons rfl]
  simp only
  rw [readString_stringText, Option.bind_eq_bind, Option.bind_some, skipWs_cons rfl]
  simp only
  rw [h, Option.bind_eq_bind, Option.bind_some, skipWs_cons rfl]
  rfl

/-! ### Words -/

/-- The text of an integer is a word that is no name. -/
theorem intText_word (m : ℤ) : (∀ c ∈ intText m, isWordChar c = true) ∧
    ∃ c w, intText m = c :: w ∧ (c.isDigit ∨ c = '-') := by
  have hdigits : ∀ c ∈ Nat.toDigits 10 m.natAbs, isWordChar c = true := by
    intro c hc
    have hdigit := Nat.isDigit_of_mem_toDigits (by decide) (by decide) hc
    simp [isWordChar, Char.isAlphanum, hdigit]
  rw [intText]
  split_ifs
  · refine ⟨fun c hc => ?_, '-', _, rfl, .inr rfl⟩
    rcases List.mem_cons.mp hc with rfl | hc
    · rfl
    · exact hdigits c hc
  · obtain ⟨c, w, h, hc⟩ := exists_toDigits m.natAbs
    exact ⟨hdigits, c, w, h, .inl hc⟩

/-- A word with the head of a number is no name. -/
theorem wordValue_number (hw : w = c :: s) (hc : c.isDigit ∨ c = '-' ∨ c = 'N' ∨ c = 'I') :
    wordValue t w = match intValue w with
      | some m => some (.int m)
      | none => (t.parse w).map .float := by
  have hne : c ≠ 'n' ∧ c ≠ 't' ∧ c ≠ 'f' := by
    rcases hc with hc | rfl | rfl | rfl
    · refine ⟨?_, ?_, ?_⟩ <;>
      · rintro rfl
        exact absurd hc (by decide)
    all_goals decide
  subst hw
  rw [wordValue, if_neg, if_neg, if_neg]
  · exact fun heq => hne.2.2 (List.cons.inj heq).1
  · exact fun heq => hne.2.1 (List.cons.inj heq).1
  · exact fun heq => hne.1 (List.cons.inj heq).1

theorem readValue_int (m : ℤ) (hr : NoWord r) :
    readValue t (n + 1) (intText m ++ r) = some (.int m, r) := by
  obtain ⟨hword, c, w, hw, hc⟩ := intText_word m
  rw [readValue_word (by simp [hw]) hword hr, wordValue_number hw (hc.imp_right .inl),
    intValue_intText]
  rfl

theorem readValue_float (x : F) (hr : NoWord r) :
    readValue t (n + 1) (t.repr x ++ r) = some (.float x, r) := by
  obtain ⟨c, w, hw, hc⟩ := t.exists_head x
  rw [readValue_word (by simp [hw]) (t.isWordChar_of_mem x) hr, wordValue_number hw hc,
    t.intValue_repr, t.parse_repr]
  rfl

theorem readValue_name {name : List Char} (h : wordValue t name = some v) (hne : name ≠ [])
    (hword : name.all isWordChar = true) (hr : NoWord r) :
    readValue t (n + 1) (name ++ r) = some (v, r) := by
  rw [readValue_word hne (List.all_eq_true.mp hword) hr, h]
  rfl

/-! ### The round trip -/

variable (t)

/-- A value starts with what is neither white space nor the end of an array. -/
theorem exists_dumps_head (v : Json F) :
    ∃ c s, dumps t v = c :: s ∧ isWs c = false ∧ c ≠ ']' := by
  have hword : ∀ {w : List Char}, w ≠ [] → (∀ c ∈ w, isWordChar c = true) →
      ∃ c s, w = c :: s ∧ isWs c = false ∧ c ≠ ']' := by
    intro w hne hw
    obtain ⟨c, s, rfl⟩ := List.exists_cons_of_ne_nil hne
    have hc := hw c List.mem_cons_self
    exact ⟨c, s, rfl, isWs_of_isWordChar hc, ne_of_isWordChar hc rfl⟩
  cases v with
  | null => exact ⟨'n', _, rfl, rfl, by decide⟩
  | bool b =>
      cases b with
      | true => exact ⟨'t', _, rfl, rfl, by decide⟩
      | false => exact ⟨'f', _, rfl, rfl, by decide⟩
  | int m =>
      obtain ⟨hw, c, w, h, -⟩ := intText_word m
      rw [dumps]
      exact hword (by simp [h]) hw
  | float x =>
      obtain ⟨c, w, h, -⟩ := t.exists_head x
      rw [dumps]
      exact hword (by simp [h]) (t.isWordChar_of_mem x)
  | str s => exact ⟨'"', _, rfl, rfl, by decide⟩
  | arr vs =>
      cases vs with
      | nil => exact ⟨'[', _, rfl, rfl, by decide⟩
      | cons v vs => exact ⟨'[', _, rfl, rfl, by decide⟩
  | obj ms =>
      cases ms with
      | nil => exact ⟨'{', _, rfl, rfl, by decide⟩
      | cons m ms => exact ⟨'{', _, rfl, rfl, by decide⟩

mutual

/-- The text of a value reads back, whatever follows that is no word. -/
theorem readValue_dumps : ∀ (v : Json F) (n : ℕ) (r : List Char), (dumps t v).length < n →
    NoWord r → readValue t n (dumps t v ++ r) = some (v, r)
  | v, 0, _, hn, _ => absurd hn (Nat.not_lt_zero _)
  | .null, n + 1, r, _, hr => by
      rw [dumps]
      exact readValue_name (if_pos rfl) (by decide) (by decide) hr
  | .bool true, n + 1, r, _, hr => by
      rw [dumps]
      exact readValue_name rfl (by decide) (by decide) hr
  | .bool false, n + 1, r, _, hr => by
      rw [dumps]
      exact readValue_name rfl (by decide) (by decide) hr
  | .int m, n + 1, r, _, hr => readValue_int m hr
  | .float x, n + 1, r, _, hr => readValue_float x hr
  | .str s, n + 1, r, _, _ => readValue_str s r
  | .arr [], n + 1, r, _, _ => readValue_arr_nil
  | .arr (v :: vs), n + 1, r, hn, _ => by
      obtain ⟨c, s, hv, hws, hend⟩ := exists_dumps_head t v
      have hlen : (dumps t v ++ dumpElements t vs).length < n := by
        rw [dumps, List.length_cons] at hn
        omega
      have hread := readElements_dumps v vs n r hlen
      rw [dumps, List.cons_append]
      rw [hv] at hread ⊢
      simp only [List.cons_append] at hread ⊢
      rw [readValue_arr hws hend, hread]
      rfl
  | .obj [], n + 1, r, _, _ => readValue_obj_nil
  | .obj ((k, v) :: ms), n + 1, r, hn, _ => by
      have hlen : (stringText k ++ ':' :: ' ' :: (dumps t v ++ dumpMembers t ms)).length < n := by
        rw [dumps, List.length_cons] at hn
        omega
      have hread := readMembers_dumps k v ms n r hlen
      rw [dumps]
      simp only [stringText, List.cons_append] at hread ⊢
      rw [readValue_obj, hread]
      rfl
termination_by v => sizeOf v

/-- The elements of an array read back. -/
theorem readElements_dumps : ∀ (v : Json F) (vs : List (Json F)) (n : ℕ) (r : List Char),
    (dumps t v ++ dumpElements t vs).length < n →
      readElements t n (dumps t v ++ dumpElements t vs ++ r) = some (v :: vs, r)
  | _, _, 0, _, hn => absurd hn (Nat.not_lt_zero _)
  | v, [], n + 1, r, hn => by
      rw [dumpElements, List.length_append] at hn
      have hread := readValue_dumps v n (']' :: r) (by simp at hn; omega) (noWord_cons rfl r)
      rw [dumpElements, List.append_assoc]
      exact readElements_last hread
  | v, w :: vs, n + 1, r, hn => by
      rw [dumpElements, List.length_append, List.length_cons, List.length_cons] at hn
      have hread := readValue_dumps v n (',' :: ' ' :: (dumps t w ++ dumpElements t vs ++ r))
        (by omega) (noWord_cons rfl _)
      have hrest := readElements_dumps w vs n r (by omega)
      rw [dumpElements, List.append_assoc, List.cons_append, List.cons_append,
        readElements_cons hread, readElements_space, hrest]
      rfl
termination_by v vs => sizeOf v + sizeOf vs

/-- The members of an object read back. -/
theorem readMembers_dumps : ∀ (k : List Char) (v : Json F) (ms : List (List Char × Json F))
    (n : ℕ) (r : List Char),
    (stringText k ++ ':' :: ' ' :: (dumps t v ++ dumpMembers t ms)).length < n →
      readMembers t n (stringText k ++ ':' :: ' ' :: (dumps t v ++ dumpMembers t ms) ++ r) =
        some ((k, v) :: ms, r)
  | _, _, _, 0, _, hn => absurd hn (Nat.not_lt_zero _)
  | k, v, [], n + 1, r, hn => by
      simp only [dumpMembers, List.length_append, List.length_cons] at hn
      have hread := readValue_dumps v n ('}' :: r) (by omega) (noWord_cons rfl r)
      rw [← readValue_space] at hread
      rw [dumpMembers, List.append_assoc, List.cons_append, List.cons_append, List.append_assoc]
      exact readMembers_last hread
  | k, v, (k', w) :: ms, n + 1, r, hn => by
      simp only [dumpMembers, List.length_append, List.length_cons] at hn
      have hread := readValue_dumps v n
        (',' :: ' ' :: (stringText k' ++ ':' :: ' ' :: (dumps t w ++ dumpMembers t ms) ++ r))
        (by omega) (noWord_cons rfl _)
      have hrest := readMembers_dumps k' w ms n r (by
        simp only [List.length_append, List.length_cons]
        omega)
      rw [← readValue_space] at hread
      rw [dumpMembers, List.append_assoc, List.cons_append, List.cons_append, List.append_assoc,
        List.cons_append, List.cons_append, readMembers_cons hread, readMembers_space, hrest]
      rfl
termination_by _ v ms => sizeOf v + sizeOf ms

end

/-- **What is dumped reads back**, as the same value. -/
theorem loads_dumps (v : Json F) : loads t (dumps t v) = some v := by
  have hread := readValue_dumps t v ((dumps t v).length + 1) [] (Nat.lt_succ_self _) noWord_nil
  rw [List.append_nil] at hread
  rw [loads, hread]
  rfl

/-! ### One line -/

theorem isPrint_of_isWordChar {c : Char} (h : isWordChar c = true) : isPrint c = true := by
  have hrange : ∀ lo hi : Char, 0x20 ≤ lo.toNat → hi.toNat ≤ 0x7e →
      lo.val ≤ c.val ∧ c.val ≤ hi.val → isPrint c = true :=
    fun lo hi hlo hhi h => decide_eq_true ⟨Nat.le_trans hlo (UInt32.le_iff_toNat_le.mp h.1),
      Nat.le_trans (UInt32.le_iff_toNat_le.mp h.2) hhi⟩
  simp only [isWordChar, Bool.or_eq_true, beq_iff_eq] at h
  rcases h with ((h | rfl) | rfl) | rfl
  · rcases (Bool.or_eq_true c.isAlpha c.isDigit).mp h with h | h
    · rcases (Bool.or_eq_true c.isUpper c.isLower).mp h with h | h
      · exact hrange 'A' 'Z' (by decide) (by decide) (of_decide_eq_true h)
      · obtain ⟨hlo, hhi⟩ := (Bool.and_eq_true _ _).mp h
        exact hrange 'a' 'z' (by decide) (by decide) ⟨of_decide_eq_true hlo, of_decide_eq_true hhi⟩
    · obtain ⟨hlo, hhi⟩ := (Bool.and_eq_true _ _).mp h
      exact hrange '0' '9' (by decide) (by decide) ⟨of_decide_eq_true hlo, of_decide_eq_true hhi⟩
  all_goals rfl

theorem all_isPrint_escape (u : ℕ) : (escape u).all isPrint = true := by
  have hhex : ∀ d, d < 16 → isPrint (Nat.digitChar d) = true := by decide
  have hmod : ∀ d : ℕ, isPrint (Nat.digitChar (d % 16)) = true :=
    fun d => hhex _ (Nat.mod_lt d (by decide))
  unfold escape
  split_ifs with h1 h2 h3 h4 h5 h6 h7 h8
  iterate 7 rfl
  · rw [List.all_cons, isPrint, toNat_ofNat_print h8, decide_eq_true h8]
    rfl
  · simp only [List.all_cons, hmod, List.all_nil, Bool.and_true]
    decide

theorem all_isPrint_stringText (s : List Char) : (stringText s).all isPrint = true := by
  have hescape : ((s.flatMap utf16).flatMap escape).all isPrint = true := by
    rw [List.all_flatMap, List.all_eq_true]
    exact fun u _ => all_isPrint_escape u
  rw [stringText, List.all_append, List.all_cons, hescape]
  rfl

theorem all_isPrint_word {w : List Char} (h : ∀ c ∈ w, isWordChar c = true) :
    w.all isPrint = true :=
  List.all_eq_true.mpr fun c hc => isPrint_of_isWordChar (h c hc)

mutual

/-- **The text is one line** of printable ASCII, whatever the strings of the value hold. -/
theorem all_isPrint_dumps : ∀ v : Json F, (dumps t v).all isPrint = true
  | .null | .bool true | .bool false | .arr [] | .obj [] => by
      rw [dumps]
      rfl
  | .int m => all_isPrint_word (intText_word m).1
  | .float x => all_isPrint_word (t.isWordChar_of_mem x)
  | .str s => all_isPrint_stringText s
  | .arr (v :: vs) => by
      rw [dumps, List.all_cons, List.all_append, all_isPrint_dumps v, all_isPrint_dumpElements vs]
      rfl
  | .obj ((k, v) :: ms) => by
      rw [dumps, List.all_cons, List.all_append, List.all_cons, List.all_cons, List.all_append,
        all_isPrint_stringText k, all_isPrint_dumps v, all_isPrint_dumpMembers ms]
      rfl

theorem all_isPrint_dumpElements :
    ∀ vs : List (Json F), (dumpElements t vs).all isPrint = true
  | [] => by
      rw [dumpElements]
      rfl
  | v :: vs => by
      rw [dumpElements, List.all_cons, List.all_cons, List.all_append, all_isPrint_dumps v,
        all_isPrint_dumpElements vs]
      rfl

theorem all_isPrint_dumpMembers :
    ∀ ms : List (List Char × Json F), (dumpMembers t ms).all isPrint = true
  | [] => by
      rw [dumpMembers]
      rfl
  | (k, v) :: ms => by
      rw [dumpMembers, List.all_cons, List.all_cons, List.all_append, List.all_cons,
        List.all_cons, List.all_append, all_isPrint_stringText k, all_isPrint_dumps v,
        all_isPrint_dumpMembers ms]
      rfl

end

end Json
