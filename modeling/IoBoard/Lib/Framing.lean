import Mathlib.Data.List.Basic
import Mathlib.Data.UInt

/-!
# Delimited Reads and Longitudinal Check Bytes

Two ingredients of byte-oriented framing. `readUntil sep xs` splits a stream behind the
first occurrence of a separator, as a buffered reader's `readuntil` does. `xorSum` is the
exclusive or of a block of bytes, the classical longitudinal redundancy check.

A delimited read is a function of what has arrived, not of how it arrived: `none` says
that the reader has to wait, and a longer stream can only turn a `none` into an answer. So
a result about `readUntil` is a result about all ways of cutting the stream into chunks.

The exclusive or detects one changed byte and not two: two changes cancel each other when
they flip the same bits. It does not see the order of the bytes either, as the sum is
commutative. What it detects is stated exactly, as an equivalence.

## Main results

* `readUntil_eq_some_iff`, `readUntil_eq_none_iff`: what a read returns, and when it has
  to wait.
* `append_of_readUntil`: a read loses nothing and adds nothing.
* `xorSum_insert_eq_iff`: **a check byte catches every change of a single byte**.
-/

namespace Framing

/-! ### Reading up to a separator -/

section ReadUntil

variable {α : Type*} [DecidableEq α]

/-- Splits a stream behind the first occurrence of `sep`; `none` when there is none. The
separator is part of what is read. -/
def readUntil (sep : α) : List α → Option (List α × List α)
  | [] => none
  | x :: xs =>
      if x = sep then some ([x], xs)
      else (readUntil sep xs).map fun pr => (x :: pr.1, pr.2)

/-- A read succeeds with the shortest prefix that ends in the separator: what stands before
it is free of separators. -/
theorem readUntil_eq_some_iff {sep : α} {xs p r : List α} :
    readUntil sep xs = some (p, r) ↔
      ∃ q, sep ∉ q ∧ p = q ++ [sep] ∧ xs = q ++ sep :: r := by
  induction xs generalizing p with
  | nil => simp [readUntil]
  | cons x xs ih =>
      by_cases hx : x = sep
      · subst hx
        rw [readUntil, if_pos rfl]
        constructor
        · rintro h
          obtain ⟨rfl, rfl⟩ : [x] = p ∧ xs = r := by simpa using h
          exact ⟨[], by simp⟩
        · rintro ⟨q, hq, rfl, hxs⟩
          cases q with
          | nil =>
              obtain rfl : xs = r := by simpa using hxs
              rfl
          | cons y q =>
              obtain ⟨rfl, -⟩ : x = y ∧ _ := by simpa using hxs
              exact absurd List.mem_cons_self hq
      · rw [readUntil, if_neg hx, Option.map_eq_some_iff]
        constructor
        · rintro ⟨⟨p', r'⟩, h, heq⟩
          obtain ⟨rfl, rfl⟩ : x :: p' = p ∧ r' = r := by simpa using heq
          obtain ⟨q, hq, rfl, rfl⟩ := ih.mp h
          exact ⟨x :: q, by simp [hq, Ne.symm hx], rfl, rfl⟩
        · rintro ⟨q, hq, rfl, hxs⟩
          cases q with
          | nil =>
              obtain ⟨rfl, -⟩ : x = sep ∧ _ := by simpa using hxs
              exact absurd rfl hx
          | cons y q =>
              obtain ⟨rfl, rfl⟩ : x = y ∧ xs = q ++ sep :: r := by simpa using hxs
              have hq' : sep ∉ q := fun hmem => hq (List.mem_cons_of_mem x hmem)
              exact ⟨(q ++ [sep], r), ih.mpr ⟨q, hq', rfl, rfl⟩, rfl⟩

/-- A read has to wait exactly when the separator has not arrived. -/
theorem readUntil_eq_none_iff {sep : α} {xs : List α} :
    readUntil sep xs = none ↔ sep ∉ xs := by
  induction xs with
  | nil => simp [readUntil]
  | cons x xs ih =>
      by_cases hx : x = sep
      · simp [readUntil, hx]
      · simp [readUntil, hx, ih, Ne.symm hx]

/-- A separator-free prefix followed by the separator is read as a whole. -/
theorem readUntil_append {sep : α} {q : List α} (hq : sep ∉ q) (r : List α) :
    readUntil sep (q ++ sep :: r) = some (q ++ [sep], r) :=
  readUntil_eq_some_iff.mpr ⟨q, hq, rfl, rfl⟩

/-- What a read takes and what it leaves make up the stream. -/
theorem append_of_readUntil {sep : α} {xs p r : List α} (h : readUntil sep xs = some (p, r)) :
    p ++ r = xs := by
  obtain ⟨q, -, rfl, rfl⟩ := readUntil_eq_some_iff.mp h
  simp

end ReadUntil

/-! ### Exclusive-or check bytes -/

/-- The exclusive or of a block of bytes. -/
def xorSum (bs : List UInt8) : UInt8 :=
  bs.foldl (· ^^^ ·) 0

@[simp] theorem xorSum_nil : xorSum [] = 0 := rfl

/-- A fold that starts from any byte is that byte combined with the plain sum; the loop of a
checksum may therefore be cut anywhere. -/
theorem foldl_xor (a : UInt8) (bs : List UInt8) :
    bs.foldl (· ^^^ ·) a = a ^^^ xorSum bs := by
  induction bs generalizing a with
  | nil => simp
  | cons b bs ih =>
      rw [xorSum, List.foldl_cons, List.foldl_cons, ih, ih, UInt8.zero_xor, UInt8.xor_assoc]

@[simp] theorem xorSum_cons (b : UInt8) (bs : List UInt8) :
    xorSum (b :: bs) = b ^^^ xorSum bs := by
  rw [xorSum, List.foldl_cons, foldl_xor, UInt8.zero_xor]

@[simp] theorem xorSum_append (as bs : List UInt8) :
    xorSum (as ++ bs) = xorSum as ^^^ xorSum bs := by
  rw [xorSum, List.foldl_append, foldl_xor]
  rfl

/-- **A check byte catches every change of a single byte.** -/
theorem xorSum_insert_eq_iff {as bs : List UInt8} {x y : UInt8} :
    xorSum (as ++ x :: bs) = xorSum (as ++ y :: bs) ↔ x = y := by
  simp only [xorSum_append, xorSum_cons]
  rw [UInt8.xor_right_inj, UInt8.xor_left_inj]

end Framing
