import IoBoard.Lib.Ascii

/-!
# Words in Messages

Searching a message for a word, ignoring case, when the message quotes binary data: which data
makes the quotation contain the word. A `bytes` literal escapes what it cannot print, so a word
that starts with `c` may start with the last hexadecimal digit of an escape.

## How a word can get into a quotation

A byte prints as a block of characters: itself, or an escape of two or four. The only letters in
an escape are hexadecimal digits and those that name a control character. So a word whose second
letter is none of these can only begin with the last character of a block, and after that every
letter has to be a byte that prints as itself. `SpellsC` says this of the data: some byte prints
as `c`, or as an escape that ends in `c`, and the bytes behind it are the other letters.

Words are given without their first letter `c`. The quotation mark depends on the data, and it
makes no difference, since no word contains one.

## Main definitions

* `PrintsC`, `SpellsC`: the data that makes a quotation contain a word.

## Main results

* `isInfix_append_cons`: a word stands on one side of a character that it does not contain.
* `isInfix_bytesRepr_iff`, `isInfix_quoting_iff`: **the data whose quotation contains a word**.
-/

namespace Ascii

/-! ### Infixes -/

section Infix

variable {α : Type} {word l r : List α} {c d : α}

/-- A word at the start of a text ends before a character that it does not contain. -/
theorem isPrefix_append_cons (h : c ∉ word) : word <+: l ++ c :: r ↔ word <+: l := by
  refine ⟨fun hpre => ?_, fun hpre => hpre.trans (List.prefix_append _ _)⟩
  induction l generalizing word with
  | nil =>
      cases word with
      | nil => exact List.nil_prefix
      | cons x word => exact absurd ((List.cons_prefix_cons.mp hpre).1 ▸ List.mem_cons_self) h
  | cons y l ih =>
      cases word with
      | nil => exact List.nil_prefix
      | cons x word =>
          obtain ⟨rfl, htail⟩ := List.cons_prefix_cons.mp hpre
          exact List.cons_prefix_cons.mpr
            ⟨rfl, ih (fun hc => h (List.mem_cons_of_mem _ hc)) htail⟩

/-- **A word stands on one side of a character that it does not contain.** So a message can be
cut at such characters. -/
theorem isInfix_append_cons (h : c ∉ word) :
    word <:+: l ++ c :: r ↔ word <:+: l ∨ word <:+: r := by
  induction l with
  | nil =>
      have hpre := isPrefix_append_cons (l := []) (r := r) h
      rw [List.nil_append] at hpre ⊢
      rw [List.infix_cons_iff, hpre, List.prefix_nil, List.infix_nil]
  | cons y l ih =>
      rw [List.cons_append, List.infix_cons_iff, ih, ← List.cons_append, isPrefix_append_cons h,
        ← or_assoc, ← List.infix_cons_iff]

/-- A word of two characters or more that begins in a block begins with its last character, when
the rest of the block does not contain the second character. -/
theorem isInfix_block_append {block : List α} (hd : d ∉ block.tail) :
    c :: d :: word <:+: block ++ r ↔
      (block.getLast? = some c ∧ d :: word <+: r) ∨ c :: d :: word <:+: r := by
  induction block with
  | nil => exact (or_iff_right fun h => nomatch h.1).symm
  | cons x block ih =>
      rw [List.cons_append, List.infix_cons_iff, List.cons_prefix_cons]
      cases block with
      | nil => simp [eq_comm]
      | cons y block =>
          rw [List.tail_cons, List.mem_cons, not_or] at hd
          have hno : ¬ (c = x ∧ d :: word <+: y :: block ++ r) :=
            fun h => hd.1 (List.cons_prefix_cons.mp h.2).1
          rw [or_iff_right hno, ih hd.2]
          rfl

end Infix

/-! ### Quoted data -/

/-- A byte as a character in lower case, if it prints as a character. -/
def lowerByte (b : UInt8) : Char :=
  (Char.ofNat b.toNat).toLower

/-- The byte prints as `c` or `C`, or as an escape that ends in the digit `c`. -/
def PrintsC (b : UInt8) : Prop :=
  b = 67 ∨ b = 99 ∨ (b < 32 ∨ 127 ≤ b) ∧ b.toNat % 16 = 12

instance (b : UInt8) : Decidable (PrintsC b) :=
  inferInstanceAs (Decidable (b = 67 ∨ b = 99 ∨ (b < 32 ∨ 127 ≤ b) ∧ b.toNat % 16 = 12))

/-- What the data contains when its quotation contains `c` and some letters, ignoring case. -/
def SpellsC (letters : List Char) (bs : List UInt8) : Prop :=
  ∃ front b back, bs = front ++ b :: back ∧ PrintsC b ∧ letters <+: back.map lowerByte

/-- The characters that an escape consists of behind its backslash. -/
def escapeChars : List Char :=
  ['0', '1', '2', '3', '4', '5', '6', '7', '8', '9', 'a', 'b', 'c', 'd', 'e', 'f', 'x', 't', 'n',
    'r', '\\', '\'', '"']

/-- How a byte prints in lower case: as itself, or as an escape. Only its last character may be
a `c`. -/
def PrintsAs (b : UInt8) (block : List Char) : Prop :=
  block.tail.all (· ∈ escapeChars) = true ∧ (block.getLast? = some 'c' ↔ PrintsC b) ∧
    (block = [lowerByte b] ∨ block.head? = some '\\' ∧ (lowerByte b).isLower = false)

instance (b : UInt8) (block : List Char) : Decidable (PrintsAs b block) :=
  inferInstanceAs (Decidable (block.tail.all (· ∈ escapeChars) = true ∧
    (block.getLast? = some 'c' ↔ PrintsC b) ∧
    (block = [lowerByte b] ∨ block.head? = some '\\' ∧ (lowerByte b).isLower = false)))

theorem printsAs_reprByte (quote b : UInt8) (hquote : quote = 34 ∨ quote = 39) :
    PrintsAs b ((reprByte quote b).map Char.toLower) := by
  -- a byte is two hexadecimal digits
  have hall : ∀ q ∈ ([34, 39] : List UInt8), ∀ m < 16, ∀ k < 16,
      PrintsAs (UInt8.ofNat (16 * m + k))
        ((reprByte q (UInt8.ofNat (16 * m + k))).map Char.toLower) := by
    decide +kernel
  have hb := hall quote (by simpa using hquote) (b.toNat / 16)
    (Nat.div_lt_of_lt_mul b.toNat_lt) (b.toNat % 16) (Nat.mod_lt _ (by norm_num))
  rwa [Nat.div_add_mod, UInt8.ofNat_toNat] at hb

variable {letters : List Char} {quote : UInt8}

/-- Letters at the start of printed data are the letters that the data starts with. -/
theorem isPrefix_flatMap_reprByte_iff (hquote : quote = 34 ∨ quote = 39)
    (hletters : letters.all Char.isLower = true) (bs : List UInt8) :
    letters <+: (bs.flatMap (reprByte quote)).map Char.toLower ↔ letters <+: bs.map lowerByte := by
  induction letters generalizing bs with
  | nil => exact iff_of_true List.nil_prefix List.nil_prefix
  | cons x letters ih =>
      obtain ⟨hx, hletters⟩ := Bool.and_eq_true_iff.mp (List.all_cons.symm.trans hletters)
      cases bs with
      | nil => exact Iff.rfl
      | cons b bs =>
          rw [List.flatMap_cons, List.map_append, List.map_cons, List.cons_prefix_cons,
            ← ih hletters bs]
          obtain ⟨-, -, hplain | ⟨hescape, hlower⟩⟩ := printsAs_reprByte quote b hquote
          · rw [hplain, List.singleton_append, List.cons_prefix_cons]
          · -- an escape starts with a backslash, and stands for no letter
            cases hblock : (reprByte quote b).map Char.toLower with
            | nil =>
                rw [hblock] at hescape
                cases hescape
            | cons y block =>
                rw [hblock] at hescape
                obtain rfl := Option.some.inj hescape
                rw [List.cons_append, List.cons_prefix_cons]
                refine iff_of_false ?_ ?_
                · rintro ⟨rfl, -⟩
                  cases hx
                · rintro ⟨rfl, -⟩
                  rw [hlower] at hx
                  cases hx

/-- A word in printed data is spelled by the data, and the other way round. -/
theorem isInfix_flatMap_reprByte_iff {d : Char} (hquote : quote = 34 ∨ quote = 39)
    (hd : d ∉ escapeChars) (hletters : (d :: letters).all Char.isLower = true) (bs : List UInt8) :
    'c' :: d :: letters <:+: (bs.flatMap (reprByte quote)).map Char.toLower ↔
      SpellsC (d :: letters) bs := by
  induction bs with
  | nil =>
      refine iff_of_false (fun h => ?_) ?_
      · cases List.infix_nil.mp h
      · rintro ⟨front, b, back, h, -⟩
        cases front <;> cases h
  | cons b bs ih =>
      obtain ⟨hescape, hlast, -⟩ := printsAs_reprByte quote b hquote
      have htail : d ∉ ((reprByte quote b).map Char.toLower).tail :=
        fun h => hd (of_decide_eq_true (List.all_eq_true.mp hescape d h))
      have hprefix := isPrefix_flatMap_reprByte_iff hquote hletters bs
      rw [List.flatMap_cons, List.map_append,
        isInfix_block_append htail, hlast, hprefix, ih]
      constructor
      · rintro (⟨hb, hback⟩ | ⟨front, b', back, rfl, h⟩)
        · exact ⟨[], b, bs, rfl, hb, hback⟩
        · exact ⟨b :: front, b', back, rfl, h⟩
      · rintro ⟨front, b', back, heq, h⟩
        cases front with
        | nil =>
            obtain ⟨rfl, rfl⟩ := List.cons.inj heq
            exact .inl h
        | cons _ front =>
            obtain ⟨rfl, rfl⟩ := List.cons.inj heq
            exact .inr ⟨front, b', back, rfl, h⟩

/-- **A quotation contains a word exactly when the data spells it**, whichever quotation mark is
taken. -/
theorem isInfix_bytesRepr_iff {d : Char} (hd : d ∉ escapeChars)
    (hletters : (d :: letters).all Char.isLower = true) (bs : List UInt8) :
    'c' :: d :: letters <:+: (bytesRepr bs).map Char.toLower ↔ SpellsC (d :: letters) bs := by
  obtain ⟨quote, hquote, hrepr⟩ : ∃ quote : UInt8, (quote = 34 ∨ quote = 39) ∧
      bytesRepr bs = 'b' :: Char.ofNat quote.toNat :: bs.flatMap (reprByte quote) ++
        [Char.ofNat quote.toNat] := by
    rw [bytesRepr]
    by_cases h : 39 ∈ bs ∧ 34 ∉ bs
    · exact ⟨34, .inl rfl, by simp only [if_pos h]⟩
    · exact ⟨39, .inr rfl, by simp only [if_neg h]⟩
  -- neither the quotes nor the `b` are letters of the word
  have hfree : ∀ y : Char, y.isLower = false → y ∉ 'c' :: d :: letters := by
    intro y hy hmem
    rcases List.mem_cons.mp hmem with rfl | hmem
    · cases hy
    · rw [List.all_eq_true.mp hletters y hmem] at hy
      cases hy
  have hquoteLower : (Char.ofNat quote.toNat).toLower.isLower = false := by
    rcases hquote with rfl | rfl <;> decide
  have hb : ¬ 'c' :: d :: letters <+: 'b' :: (Char.ofNat quote.toNat).toLower ::
      ((bs.flatMap (reprByte quote)).map Char.toLower ++ [(Char.ofNat quote.toNat).toLower]) := by
    intro h
    cases (List.cons_prefix_cons.mp h).1
  have hlower : (bytesRepr bs).map Char.toLower =
      'b' :: ([] ++ (Char.ofNat quote.toNat).toLower ::
        ((bs.flatMap (reprByte quote)).map Char.toLower ++
          (Char.ofNat quote.toNat).toLower :: [])) := by
    rw [hrepr]
    simp
  rw [hlower, List.infix_cons_iff, isInfix_append_cons (hfree _ hquoteLower),
    isInfix_append_cons (hfree _ hquoteLower), isInfix_flatMap_reprByte_iff hquote hd hletters]
  simp only [List.nil_append, hb, List.infix_nil, reduceCtorEq, or_false, false_or]

/-- **A message that ends in a quotation contains a word that its text contains or the data
spells.** -/
theorem isInfix_quoting_iff {d : Char} (hd : d ∉ escapeChars)
    (hletters : (d :: letters).all Char.isLower = true) (text : List Char) (bs : List UInt8) :
    'c' :: d :: letters <:+: (text ++ ' ' :: bytesRepr bs).map Char.toLower ↔
      'c' :: d :: letters <:+: text.map Char.toLower ∨ SpellsC (d :: letters) bs := by
  have hspace : ' ' ∉ 'c' :: d :: letters := by
    intro hmem
    rcases List.mem_cons.mp hmem with h | hmem
    · cases h
    · cases List.all_eq_true.mp hletters _ hmem
  rw [List.map_append, List.map_cons, show Char.toLower ' ' = ' ' from rfl,
    isInfix_append_cons hspace, isInfix_bytesRepr_iff hd hletters]

end Ascii
