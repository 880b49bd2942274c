import Mathlib.Data.List.Basic
import Mathlib.Data.List.Nodup
import Mathlib.Data.List.Count

/-!
# Logs Made of Uninterrupted Blocks

A log written by several owners, each entry standing for its owner's fixed payload, is a
**block log** with cap `m` when it is the concatenation of blocks of one owner each, no
owner having two of them and no block holding more than `m` entries. Only two ways of
appending keep a log of this form: a new owner starts a block, or the owner of the last
entry extends its own block below the cap.

This is what mutual exclusion looks like from outside. Owners that hold a lock while they
write, and never come back after they have released it, leave a block log; a second block
of one owner, or an entry between two entries of another, would show that the lock did
not exclude.

## Why the blocks are existential

`IsBlockLog` says that *some* list of blocks spells out the log. The two appending lemmas
never compute it: the last block of the list is the block of the owner of the last entry
(`IsBlockLog.extend`), and an owner that the log does not mention has no block at all
(`IsBlockLog.start`). The count of an owner's entries is the length of its block, which
is how a bound on the attempts of one owner becomes a bound on its entries
(`IsBlockLog.count_le`).

## Main results

* `IsBlockLog.start`: appending an entry of an owner the log does not mention.
* `IsBlockLog.extend`: appending an entry of the owner of the last one.
* `map_expand`: a block log in terms of what the owners write.
-/

namespace Blocks

variable {ι : Type*}

/-- The log that a list of blocks `(owner, length)` spells out, from left to right. -/
def expand (bs : List (ι × ℕ)) : List ι :=
  bs.flatMap fun b => List.replicate b.2 b.1

/-- `l` is a concatenation of nonempty blocks of at most `m` entries, one per owner: no
owner's entries are interrupted by those of another. -/
def IsBlockLog (m : ℕ) (l : List ι) : Prop :=
  ∃ bs : List (ι × ℕ), (bs.map Prod.fst).Nodup ∧ (∀ b ∈ bs, 0 < b.2 ∧ b.2 ≤ m) ∧
    l = expand bs

@[simp] theorem expand_nil : expand ([] : List (ι × ℕ)) = [] := rfl

@[simp] theorem expand_append (bs cs : List (ι × ℕ)) :
    expand (bs ++ cs) = expand bs ++ expand cs := by
  simp only [expand, List.flatMap_append]

@[simp] theorem expand_singleton (i : ι) (n : ℕ) :
    expand [(i, n)] = List.replicate n i := by
  simp only [expand, List.flatMap_cons, List.flatMap_nil, List.append_nil]

/-- Spelling out a list of blocks in other words for the owners. -/
theorem map_expand {κ : Type*} (f : ι → κ) (bs : List (ι × ℕ)) :
    (expand bs).map f = bs.flatMap fun b => List.replicate b.2 (f b.1) := by
  simp only [expand, List.map_flatMap, List.map_replicate]

/-- The owners of a log are the owners of its nonempty blocks. An empty block would name an
owner that writes nothing, and so `IsBlockLog` excludes it. -/
theorem mem_expand {bs : List (ι × ℕ)} (hpos : ∀ b ∈ bs, 0 < b.2) {i : ι} :
    i ∈ expand bs ↔ i ∈ bs.map Prod.fst := by
  simp only [expand, List.mem_flatMap, List.mem_replicate, List.mem_map]
  constructor
  · rintro ⟨b, hb, -, rfl⟩
    exact ⟨b, hb, rfl⟩
  · rintro ⟨b, hb, rfl⟩
    exact ⟨b, hb, Nat.pos_iff_ne_zero.mp (hpos b hb), rfl⟩

/-- The empty log is a block log. -/
theorem isBlockLog_nil (m : ℕ) : IsBlockLog m ([] : List ι) :=
  ⟨[], by simp, by simp, rfl⟩

/-- **A new owner starts a block.** A cap of zero would leave no room for it. -/
theorem IsBlockLog.start {m : ℕ} {l : List ι} {i : ι} (h : IsBlockLog m l) (hi : i ∉ l)
    (hm : 1 ≤ m) : IsBlockLog m (l ++ [i]) := by
  obtain ⟨bs, hnd, hlen, rfl⟩ := h
  have hfresh : i ∉ bs.map Prod.fst := fun hmem =>
    hi ((mem_expand fun b hb => (hlen b hb).1).mpr hmem)
  refine ⟨bs ++ [(i, 1)], ?_, ?_, ?_⟩
  · rw [List.map_append, List.nodup_append]
    refine ⟨hnd, by simp, ?_⟩
    intro a ha b hb
    obtain rfl : b = i := by simpa using hb
    rintro rfl
    exact hfresh ha
  · intro b hb
    rcases List.mem_append.mp hb with hb | hb
    · exact hlen b hb
    · obtain rfl : b = (i, 1) := by simpa using hb
      exact ⟨Nat.one_pos, hm⟩
  · simp

/-- **The last owner extends its block**, as long as it stays within the cap. -/
theorem IsBlockLog.extend [DecidableEq ι] {m : ℕ} {l : List ι} {i : ι}
    (h : IsBlockLog m l) (hlast : l.getLast? = some i) (hcount : l.count i < m) :
    IsBlockLog m (l ++ [i]) := by
  obtain ⟨bs, hnd, hlen, rfl⟩ := h
  rcases bs.eq_nil_or_concat with rfl | ⟨cs, ⟨j, n⟩, rfl⟩
  · simp at hlast
  rw [List.concat_eq_append] at *
  have hn : 0 < n ∧ n ≤ m := hlen (j, n) (by simp)
  -- the last block is nonempty, so its owner is the owner of the last entry
  obtain rfl : j = i := by
    rw [expand_append, expand_singleton, List.getLast?_append,
      List.getLast?_replicate, if_neg (by omega)] at hlast
    simpa using hlast
  rw [List.map_append, List.nodup_append] at hnd
  obtain ⟨hcs, -, hdisj⟩ := hnd
  have hj : j ∉ expand cs := by
    rw [mem_expand fun b hb => (hlen b (by simp [hb])).1]
    intro hmem
    exact hdisj j hmem j (by simp) rfl
  have hcnt : (expand (cs ++ [(j, n)])).count j = n := by
    rw [expand_append, List.count_append, List.count_eq_zero_of_not_mem hj]
    simp
  refine ⟨cs ++ [(j, n + 1)], ?_, ?_, ?_⟩
  · rw [List.map_append, List.nodup_append]
    exact ⟨hcs, by simp, fun a ha b hb => hdisj a ha b (by simpa using hb)⟩
  · intro b hb
    rcases List.mem_append.mp hb with hb | hb
    · exact hlen b (by simp [hb])
    · obtain rfl : b = (j, n + 1) := by simpa using hb
      exact ⟨Nat.succ_pos n, by omega⟩
  · rw [expand_append, expand_append, expand_singleton, expand_singleton,
      List.replicate_succ', List.append_assoc]

/-- Every owner has at most `m` entries. -/
theorem IsBlockLog.count_le [DecidableEq ι] {m : ℕ} {l : List ι} (h : IsBlockLog m l) (i : ι) :
    l.count i ≤ m := by
  obtain ⟨bs, hnd, hlen, rfl⟩ := h
  induction bs with
  | nil => exact Nat.zero_le m
  | cons b bs ih =>
      obtain ⟨hb, hbs⟩ := List.forall_mem_cons.mp hlen
      obtain ⟨hfresh, hnd⟩ := List.nodup_cons.mp hnd
      have hexpand : expand (b :: bs) = List.replicate b.2 b.1 ++ expand bs := rfl
      rw [hexpand, List.count_append, List.count_replicate]
      by_cases hi : b.1 = i
      · have hnone : i ∉ expand bs := by
          rw [mem_expand fun b hb => (hbs b hb).1, ← hi]
          exact hfresh
        rw [List.count_eq_zero_of_not_mem hnone, if_pos (by simpa using hi)]
        exact hb.2
      · rw [if_neg (by simpa using hi), Nat.zero_add]
        exact ih hnd hbs

end Blocks
