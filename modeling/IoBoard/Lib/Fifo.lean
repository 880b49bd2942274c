import Mathlib.Data.List.Basic
import Mathlib.Data.List.Sublists

/-!
# Labelled First-In-First-Out Lines

Messages on a line that keeps their order and may lose them, told apart by a label only.
Owners use the line one after the other; an owner whose messages carry the label `k` finds
on it what is left of earlier owners, and looks for the first message with its own label.

A line `l` is `Uniform` when all its messages carry one label, and `Mixed c k` when messages
with the label `c` are followed by messages with the label `k`. Losing messages is passing
to a sublist.

## One owner's turn

An owner starts on a uniform line, whatever its label. While it adds messages, the line is
mixed: what was left first, and then its own. When it takes a message with its label from the
front, everything in front of that is gone, and what is behind it carries its label too; if the
labels are different this is because all of the earlier owners' messages are gone, and if they
are equal there is nothing to tell. Either way the line is uniform again, and ready for the next
owner. Losses at any moment break none of this.

So an owner never takes a message of an owner with another label, but it may take one of an
earlier owner with the same label. To rule that out takes more than the line.

## Main results

* `Mixed.send`: an owner may add messages with its label to a mixed line.
* `Mixed.take`: **once an owner has taken a message with its own label, the line is uniform
  with that label**.
* `before_of_sublist`: what is taken from a line precedes what stays on it.
-/

namespace Fifo

variable {α κ : Type*} {label : α → κ} {c k : κ} {l l' h h' : List α} {x y : α}

/-! ### Labels -/

/-- All messages carry the label `c`. An empty line is uniform with every label. -/
def Uniform (label : α → κ) (c : κ) (l : List α) : Prop :=
  ∀ x ∈ l, label x = c

/-- Messages with the label `c` followed by messages with the label `k`. Either part may be
empty. -/
def Mixed (label : α → κ) (c k : κ) (l : List α) : Prop :=
  ∃ olds news, l = olds ++ news ∧ Uniform label c olds ∧ Uniform label k news

theorem Uniform.sublist (hl : Uniform label c l) (h : l'.Sublist l) : Uniform label c l' :=
  fun x hx => hl x (h.subset hx)

/-- An owner starts on a uniform line. -/
theorem Uniform.mixed (hl : Uniform label c l) (k : κ) : Mixed label c k l :=
  ⟨l, [], (List.append_nil l).symm, hl, List.forall_mem_nil _⟩

theorem Mixed.sublist (hl : Mixed label c k l) (h : l'.Sublist l) : Mixed label c k l' := by
  obtain ⟨olds, news, rfl, holds, hnews⟩ := hl
  obtain ⟨olds', news', rfl, ho, hn⟩ := List.sublist_append_iff.mp h
  exact ⟨olds', news', rfl, holds.sublist ho, hnews.sublist hn⟩

/-- An owner adds a message with its label. -/
theorem Mixed.send (hl : Mixed label c k l) (hx : label x = k) : Mixed label c k (l ++ [x]) := by
  obtain ⟨olds, news, rfl, holds, hnews⟩ := hl
  refine ⟨olds, news ++ [x], List.append_assoc .., holds, fun y hy => ?_⟩
  rcases List.mem_append.mp hy with hy | hy
  · exact hnews y hy
  · rw [List.mem_singleton.mp hy, hx]

/-- **An owner takes the first message, which carries its label.** Either it is one of its
own, and everything behind it is too, or the messages of earlier owners have the same
label. -/
theorem Mixed.take (hl : Mixed label c k (x :: l)) (hx : label x = k) : Uniform label k l := by
  obtain ⟨olds, news, heq, holds, hnews⟩ := hl
  rcases List.cons_eq_append_iff.mp heq with ⟨-, rfl⟩ | ⟨olds', rfl, rfl⟩
  · exact (List.forall_mem_cons.mp hnews).2
  · obtain ⟨hxc, holds'⟩ := List.forall_mem_cons.mp holds
    obtain rfl : c = k := hxc.symm.trans hx
    intro y hy
    rcases List.mem_append.mp hy with hy | hy
    · exact holds' y hy
    · exact hnews y hy

/-! ### Order -/

/-- `x` stands before `y` in `h`, at two different places. -/
def Before (h : List α) (x y : α) : Prop :=
  [x, y].Sublist h

theorem Before.mono (hxy : Before h x y) (hh : h.Sublist h') : Before h' x y :=
  hxy.trans hh

/-- What is taken from a line precedes what stays on it, in every history that the line is a
part of. -/
theorem before_of_sublist (hl : (x :: l).Sublist h) (hy : y ∈ l) : Before h x y :=
  ((List.singleton_sublist.mpr hy).cons_cons x).trans hl

/-- What is there precedes what comes last. -/
theorem before_concat (hx : x ∈ h) (y : α) : Before (h ++ [y]) x y :=
  (List.singleton_sublist.mpr hx).append (List.Sublist.refl [y])

end Fifo
