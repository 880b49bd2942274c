import Mathlib.Data.List.Basic
import Mathlib.Tactic.NormNum

/-!
# ASCII Text and the Rendering of Bytes

Text is a list of characters and binary data a list of bytes. `decodeAscii` and
`encodeAscii` are the strict ASCII codec: they fail on anything above 127. `bytesRepr` is
how a `bytes` literal prints, and `hexBytes` its lower-case hexadecimal form.

The codec is partial in both directions, and for different reasons: a byte above 127 has
no character, and a character above 127 has no byte. On the remaining data the two
functions are inverse to each other, which is all a round trip through a wire format
needs. Rendering is total: every byte of a literal is a printable character, an escape of
one letter or a hexadecimal escape, so the length of a rendering tells nothing of the
length of the data.

## Main results

* `decodeAscii_eq_some_iff`: decoding succeeds exactly on ASCII.
* `encodeAscii_eq_some_iff`: **the codec is a bijection** between ASCII data and the texts
  it decodes to.
* `toNat_ofNat_byte`: an ASCII byte and its character have the same code.
-/

namespace Ascii

/-- `bytes.decode("ascii")`: `none` where it raises `UnicodeDecodeError`. -/
def decodeAscii (bs : List UInt8) : Option (List Char) :=
  if bs.all (· < 128) then some (bs.map fun b => Char.ofNat b.toNat) else none

/-- `str.encode("ascii")`: `none` where it raises `UnicodeEncodeError`. -/
def encodeAscii (s : List Char) : Option (List UInt8) :=
  if s.all (·.toNat < 128) then some (s.map fun c => UInt8.ofNat c.toNat) else none

/-- The two hexadecimal digits of a byte, in lower case and with a leading zero. -/
def hexByte (b : UInt8) : List Char :=
  [Nat.digitChar (b.toNat / 16), Nat.digitChar (b.toNat % 16)]

/-- `bytes.hex()`. -/
def hexBytes (bs : List UInt8) : List Char :=
  bs.flatMap hexByte

/-- A byte in a `bytes` literal between the quotes `quote`: the quote and the backslash are
escaped, the three white-space bytes have letters, everything else that is not printable
ASCII is `\x` and two digits. -/
def reprByte (quote : UInt8) (b : UInt8) : List Char :=
  if b = quote ∨ b = 92 then ['\\', Char.ofNat b.toNat]
  else if b = 9 then ['\\', 't']
  else if b = 10 then ['\\', 'n']
  else if b = 13 then ['\\', 'r']
  else if b < 32 ∨ 127 ≤ b then '\\' :: 'x' :: hexByte b
  else [Char.ofNat b.toNat]

/-- `repr` of binary data: single quotes, or double quotes where only they avoid an escape,
that is, where the data holds a single quote and no double one. -/
def bytesRepr (bs : List UInt8) : List Char :=
  let quote : UInt8 := if 39 ∈ bs ∧ 34 ∉ bs then 34 else 39
  'b' :: Char.ofNat quote.toNat :: bs.flatMap (reprByte quote) ++ [Char.ofNat quote.toNat]

/-- Decoding succeeds exactly on ASCII. -/
theorem decodeAscii_eq_some_iff {bs : List UInt8} {s : List Char} :
    decodeAscii bs = some s ↔
      (∀ b ∈ bs, b < 128) ∧ s = bs.map fun b => Char.ofNat b.toNat := by
  rw [decodeAscii]
  split
  · rename_i h
    rw [List.all_eq_true] at h
    simp only [decide_eq_true_eq] at h
    constructor
    · intro heq
      exact ⟨h, (Option.some.inj heq).symm⟩
    · rintro ⟨-, rfl⟩
      rfl
  · rename_i h
    rw [List.all_eq_true] at h
    simp only [decide_eq_true_eq] at h
    simp [h]

/-- An ASCII byte is the code of its character. -/
theorem toNat_ofNat_byte {b : UInt8} (h : b < 128) : (Char.ofNat b.toNat).toNat = b.toNat := by
  have hlt : b.toNat < 128 := UInt8.lt_iff_toNat_lt.mp h
  have hvalid : b.toNat.isValidChar := Or.inl (by omega)
  rw [Char.ofNat, dif_pos hvalid]
  rfl

/-- **The strict codec is a bijection.** Encoding yields exactly the data that decodes to
the text. -/
theorem encodeAscii_eq_some_iff {s : List Char} {bs : List UInt8} :
    encodeAscii s = some bs ↔ decodeAscii bs = some s := by
  rw [decodeAscii_eq_some_iff, encodeAscii]
  constructor
  · intro h
    rw [Option.ite_none_right_eq_some, List.all_eq_true, Option.some.injEq] at h
    obtain ⟨hs, rfl⟩ := h
    simp only [decide_eq_true_eq] at hs
    have hback : ∀ c ∈ s, (UInt8.ofNat c.toNat).toNat = c.toNat := by
      intro c hc
      have := hs c hc
      rw [UInt8.toNat_ofNat']
      omega
    constructor
    · intro b hb
      obtain ⟨c, hc, rfl⟩ := List.mem_map.mp hb
      rw [UInt8.lt_iff_toNat_lt, hback c hc]
      exact hs c hc
    · rw [List.map_map]
      conv_lhs => rw [← List.map_id s]
      refine List.map_congr_left fun c hc => ?_
      rw [Function.comp_apply, hback c hc, Char.ofNat_toNat, id]
  · rintro ⟨hbs, rfl⟩
    rw [if_pos, List.map_map]
    · congr 1
      conv_rhs => rw [← List.map_id bs]
      refine List.map_congr_left fun b hb => ?_
      rw [Function.comp_apply, toNat_ofNat_byte (hbs b hb), UInt8.ofNat_toNat, id]
    · rw [List.all_eq_true]
      intro c hc
      obtain ⟨b, hb, rfl⟩ := List.mem_map.mp hc
      rw [toNat_ofNat_byte (hbs b hb)]
      simpa using UInt8.lt_iff_toNat_lt.mp (hbs b hb)

end Ascii
