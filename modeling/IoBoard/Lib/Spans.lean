import Mathlib.Data.List.Induction

/-!
# Spans of a Log

A span of a log begins with an entry `start` and lasts until the next entry `stop`, or to the
end of the log while there is none: then it is open. A log may have several spans, one after the
other; a `start` inside an open span changes nothing, since the span lasts to the same `stop`.

What an invariant needs of a log that grows is whether a span is open at its end, and which
entries stand within one. Both are answered entry by entry: `open_concat` and `within_concat` are
the equations for one more entry, and the versions for lists of entries are for steps that log
several at once, none of which begins or ends a span.

An entry is only said to stand *within* a span, not between which two marks: the same value may
stand in a log more than once, and then it is enough that one of them does.

## Main definitions

* `Open start stop log`: a span has begun and not ended.
* `Within start stop log x`: the entry `x` stands within a span.

## Main results

* `open_concat`, `open_append`: which spans are open after more entries.
* `within_concat`, `within_append`: **an entry stands within a span exactly if the span was open
  when it came**.
-/

namespace Spans

variable {α : Type*} {start stop x y : α} {log more : List α}

/-- A span has begun and not ended: behind some `start` there is no `stop`. -/
def Open (start stop : α) (log : List α) : Prop :=
  ∃ before inside, log = before ++ start :: inside ∧ stop ∉ inside

/-- The entry `x` stands within a span: behind a `start`, with no `stop` in between. -/
def Within (start stop : α) (log : List α) (x : α) : Prop :=
  ∃ before inside after, log = before ++ start :: (inside ++ x :: after) ∧ stop ∉ inside

theorem not_open_nil : ¬ Open start stop [] := by
  rintro ⟨before, inside, h, -⟩
  simp at h

theorem not_within_nil : ¬ Within start stop [] x := by
  rintro ⟨before, inside, after, h, -⟩
  simp at h

/-- An entry opens a span, or leaves it open if it does not end it. -/
theorem open_concat :
    Open start stop (log ++ [x]) ↔ x = start ∨ x ≠ stop ∧ Open start stop log := by
  constructor
  · rintro ⟨before, inside, h, hstop⟩
    rcases List.eq_nil_or_concat inside with rfl | ⟨inside, y, rfl⟩
    · obtain ⟨-, hx⟩ := List.append_inj' h rfl
      exact .inl (List.singleton_inj.mp hx)
    · have h' : log ++ [x] = (before ++ start :: inside) ++ [y] := by simpa using h
      obtain ⟨rfl, hx⟩ := List.append_inj' h' rfl
      obtain rfl := List.singleton_inj.mp hx
      refine .inr ⟨?_, before, inside, rfl, fun hmem => hstop (by simp [hmem])⟩
      rintro rfl
      exact hstop (by simp)
  · rintro (rfl | ⟨hx, before, inside, rfl, hstop⟩)
    · exact ⟨log, [], rfl, List.not_mem_nil⟩
    · refine ⟨before, inside ++ [x], by simp, ?_⟩
      simp [hstop, hx.symm]

/-- Entries that begin and end no span leave them as they are. -/
theorem open_append (hstart : start ∉ more) (hstop : stop ∉ more) :
    Open start stop (log ++ more) ↔ Open start stop log := by
  induction more using List.reverseRecOn with
  | nil => rw [List.append_nil]
  | append_singleton more x ih =>
      rw [List.mem_append, List.mem_singleton, not_or] at hstart hstop
      rw [← List.append_assoc, open_concat, ih hstart.1 hstop.1, or_iff_right (Ne.symm hstart.2),
        and_iff_right (Ne.symm hstop.2)]

/-- An entry stands within a span that is open when it comes. -/
theorem within_concat : Within start stop (log ++ [y]) x ↔
    Within start stop log x ∨ y = x ∧ Open start stop log := by
  constructor
  · rintro ⟨before, inside, after, h, hstop⟩
    rcases List.eq_nil_or_concat after with rfl | ⟨after, z, rfl⟩
    · have h' : log ++ [y] = (before ++ start :: inside) ++ [x] := by simpa using h
      obtain ⟨rfl, hx⟩ := List.append_inj' h' rfl
      exact .inr ⟨List.singleton_inj.mp hx, before, inside, rfl, hstop⟩
    · have h' : log ++ [y] = (before ++ start :: (inside ++ x :: after)) ++ [z] := by
        simpa using h
      obtain ⟨rfl, -⟩ := List.append_inj' h' rfl
      exact .inl ⟨before, inside, after, rfl, hstop⟩
  · rintro (⟨before, inside, after, rfl, hstop⟩ | ⟨rfl, before, inside, rfl, hstop⟩)
    · exact ⟨before, inside, after ++ [y], by simp, hstop⟩
    · exact ⟨before, inside, [], by simp, hstop⟩

/-- Entries that begin and end no span stand within those that are open. -/
theorem within_append (hstart : start ∉ more) (hstop : stop ∉ more) :
    Within start stop (log ++ more) x ↔
      Within start stop log x ∨ x ∈ more ∧ Open start stop log := by
  induction more using List.reverseRecOn with
  | nil => simp
  | append_singleton more y ih =>
      rw [List.mem_append, List.mem_singleton, not_or] at hstart hstop
      rw [← List.append_assoc, within_concat, ih hstart.1 hstop.1,
        open_append hstart.1 hstop.1, List.mem_append, List.mem_singleton, or_and_right, or_assoc,
        eq_comm (a := x)]

end Spans
