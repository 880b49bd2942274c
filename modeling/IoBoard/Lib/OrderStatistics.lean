import Mathlib.Data.List.Sort

/-!
# The Upper Median

The element in the middle of a sorted list, the upper one of the two for an even length. More
than half of a list decides on which side of a bound its median is, whatever the others are.

The two bounds are not symmetric, since the upper of two middle elements is taken: to bring the
median below a bound takes more than half of the list, while half is enough to keep it from
falling below. Both are counts of the elements on one side of the sorted list: the median has
as many elements before it as half of the length, rounded down.

`upperMedianBy` takes the order as a function, for lists whose elements are compared by a program;
where this order is that of a key, the median of the keys is the key of the median.

## Main definitions

* `upperMedianBy le l`, `upperMedian l`: the median by an order, and by that of the type.

## Main results

* `upperMedian_lt`: **the median is below a bound** that more than half of the list is below.
* `le_upperMedian`: **the median is not below a bound** that at least half of the list is not
  below.
* `upperMedian_map`: the median with respect to a key.
-/

namespace OrderStatistics

/-- The element in the middle of the list sorted by `le`, by a stable sort. -/
def upperMedianBy {α : Type*} (le : α → α → Bool) (l : List α) : Option α :=
  (l.mergeSort le)[l.length / 2]?

/-- The median is one of the elements of the list. -/
theorem mem_of_upperMedianBy {α : Type*} {le : α → α → Bool} {l : List α} {m : α}
    (h : upperMedianBy le l = some m) : m ∈ l :=
  List.mem_mergeSort.mp (List.mem_of_getElem? h)

section LinearOrder

variable {α : Type*} [LinearOrder α] {l : List α} {m b : α}

/-- The element in the middle of the sorted list. -/
def upperMedian (l : List α) : Option α :=
  upperMedianBy (fun a b => decide (a ≤ b)) l

/-- Only the empty list has no median. -/
theorem exists_upperMedian (h : l ≠ []) : ∃ m, upperMedian l = some m := by
  have hpos : 0 < l.length := List.length_pos_iff.mpr h
  have hlt : l.length / 2 < (l.mergeSort fun a b => decide (a ≤ b)).length := by
    rw [List.length_mergeSort]
    omega
  exact ⟨_, List.getElem?_eq_getElem hlt⟩

/-- What the median is: an element of the sorted list with the elements before it below, and those
behind it above. -/
theorem exists_split_of_upperMedian (h : upperMedian l = some m) :
    ∃ below above, (below ++ m :: above).Perm l ∧ below.length = l.length / 2 ∧
      (∀ x ∈ below, x ≤ m) ∧ ∀ x ∈ above, m ≤ x := by
  have hsorted := List.pairwise_mergeSort' (α := α) (· ≤ ·) l
  have hperm := List.mergeSort_perm l fun a b => decide (a ≤ b)
  rw [upperMedian, upperMedianBy] at h
  generalize (l.mergeSort fun a b => decide (a ≤ b)) = s at h hsorted hperm
  obtain ⟨hlt, hget⟩ := List.getElem?_eq_some_iff.mp h
  have hs : s = s.take (l.length / 2) ++ m :: s.drop (l.length / 2 + 1) := by
    rw [← hget, ← List.drop_eq_getElem_cons hlt, List.take_append_drop]
  rw [hs] at hsorted
  obtain ⟨-, hright, hcross⟩ := List.pairwise_append.mp hsorted
  refine ⟨s.take (l.length / 2), s.drop (l.length / 2 + 1), hs ▸ hperm, ?_, ?_, ?_⟩
  · rw [List.length_take, min_eq_left hlt.le]
  · intro x hx
    exact hcross x hx m List.mem_cons_self
  · intro x hx
    exact List.rel_of_pairwise_cons hright hx

/-- **The median is below a bound** that more than half of the list is below. Otherwise all
elements from the middle on would not be. -/
theorem upperMedian_lt (h : upperMedian l = some m) (hmost : l.length < 2 * l.countP (· < b)) :
    m < b := by
  obtain ⟨below, above, hperm, hlen, -, habove⟩ := exists_split_of_upperMedian h
  by_contra hm
  rw [not_lt] at hm
  have htail : (m :: above).countP (· < b) = 0 := by
    rw [List.countP_eq_zero]
    intro x hx
    rw [decide_eq_true_eq, not_lt]
    rcases List.mem_cons.mp hx with rfl | hx
    · exact hm
    · exact hm.trans (habove x hx)
  have hbelow := below.countP_le_length (p := (· < b))
  rw [← hperm.countP_eq, List.countP_append, htail] at hmost
  omega

/-- **The median is not below a bound** that at least half of the list is not below. The
elements before the middle are fewer than the rest. -/
theorem le_upperMedian (h : upperMedian l = some m) (hhalf : l.length ≤ 2 * l.countP (b ≤ ·)) :
    b ≤ m := by
  obtain ⟨below, above, hperm, hlen, hbelow, -⟩ := exists_split_of_upperMedian h
  by_contra hm
  rw [not_le] at hm
  have hfront : below.countP (b ≤ ·) = 0 := by
    rw [List.countP_eq_zero]
    intro x hx
    rw [decide_eq_true_eq, not_le]
    exact (hbelow x hx).trans_lt hm
  have habove := above.countP_le_length (p := (b ≤ ·))
  have htotal := hperm.length_eq
  rw [List.length_append, List.length_cons] at htotal
  rw [← hperm.countP_eq, List.countP_append, hfront,
    List.countP_cons_of_neg (by simpa using hm)] at hhalf
  omega

end LinearOrder

/-- The median with respect to a key is the median of the keys. -/
theorem upperMedian_map {α β : Type*} [LinearOrder β] {le : α → α → Bool} (key : α → β)
    {l : List α} (h : ∀ a ∈ l, ∀ b ∈ l, le a b = decide (key a ≤ key b)) :
    (upperMedianBy le l).map key = upperMedian (l.map key) := by
  rw [upperMedian, upperMedianBy, upperMedianBy, List.length_map, ← List.map_mergeSort h,
    List.getElem?_map]

end OrderStatistics
