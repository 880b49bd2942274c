import Mathlib.Data.List.DropRight

/-!
# Sessions of a Log

A log whose marks separate sessions: the current session is what stands behind the last mark,
and the earlier part is everything up to it. A log grows at its end, so both are taken from
there: the current session is the longest ending without a mark (`List.rtakeWhile`), and the
earlier part is what that leaves (`List.rdropWhile`).

The lemmas say what one more entry, or a list of them, does to the two parts. An invariant that
speaks of the current session is then proved step by step: a step that writes no mark extends
the session, and a step that writes one begins an empty session. Nothing that follows a mark
depends on what stands before it, and that is why a session can be looked at by itself.

Nothing is assumed of the entries, and the marks are given by a predicate on them.

## Main definitions

* `current isMark log`, `earlier isMark log`: the two parts of a log.

## Main results

* `earlier_append_current`: a log is its earlier part and its current session.
* `current_append`, `earlier_append`: entries that are no marks extend the current session.
* `current_mark`, `earlier_mark`: **a mark makes everything before it earlier**.
* `split_append`: where an entry of a longer log stands.
-/

namespace Sessions

variable {α : Type*} {isMark : α → Bool} {log more : List α} {x : α}

/-- What stands behind the last mark. Without a mark it is the whole log. -/
def current (isMark : α → Bool) (log : List α) : List α :=
  log.rtakeWhile fun x => !isMark x

/-- What stands up to the last mark, which is the last entry of it. Without a mark it is empty. -/
def earlier (isMark : α → Bool) (log : List α) : List α :=
  log.rdropWhile fun x => !isMark x

theorem earlier_append_current (isMark : α → Bool) (log : List α) :
    earlier isMark log ++ current isMark log = log :=
  List.rdropWhile_append_rtakeWhile

theorem current_concat (hx : isMark x = false) :
    current isMark (log ++ [x]) = current isMark log ++ [x] :=
  List.rtakeWhile_concat_pos _ _ _ (by rw [hx]; rfl)

theorem earlier_concat (hx : isMark x = false) :
    earlier isMark (log ++ [x]) = earlier isMark log :=
  List.rdropWhile_concat_pos _ _ _ (by rw [hx]; rfl)

/-- Entries that are no marks belong to the current session. -/
theorem current_append (h : ∀ x ∈ more, isMark x = false) :
    current isMark (log ++ more) = current isMark log ++ more := by
  induction more using List.reverseRecOn with
  | nil => rw [List.append_nil, List.append_nil]
  | append_singleton more x ih =>
      rw [← List.append_assoc, current_concat (h x (List.mem_append_right _ (by simp))),
        ih fun y hy => h y (List.mem_append_left _ hy), List.append_assoc]

/-- They leave the earlier part as it is. -/
theorem earlier_append (h : ∀ x ∈ more, isMark x = false) :
    earlier isMark (log ++ more) = earlier isMark log := by
  induction more using List.reverseRecOn with
  | nil => rw [List.append_nil]
  | append_singleton more x ih =>
      rw [← List.append_assoc, earlier_concat (h x (List.mem_append_right _ (by simp))),
        ih fun y hy => h y (List.mem_append_left _ hy)]

/-- **A mark starts a new session.** -/
theorem current_mark (hx : isMark x = true) : current isMark (log ++ [x]) = [] :=
  List.rtakeWhile_concat_neg _ _ _ (by rw [hx]; exact Bool.false_ne_true)

/-- Everything up to a mark is earlier than what follows. -/
theorem earlier_mark (hx : isMark x = true) : earlier isMark (log ++ [x]) = log ++ [x] :=
  List.rdropWhile_concat_neg _ _ _ (by rw [hx]; exact Bool.false_ne_true)

/-- What stands before a mark does not matter for the current session, whatever comes behind it. -/
theorem current_append_mark (hx : isMark x = true) :
    current isMark (log ++ x :: more) = current isMark more := by
  induction more using List.reverseRecOn with
  | nil => rw [current_mark hx, current, List.rtakeWhile_nil]
  | append_singleton more y ih =>
      rw [← List.cons_append, ← List.append_assoc]
      cases hy : isMark y with
      | true => rw [current_mark hy, current_mark hy]
      | false => rw [current_concat hy, current_concat hy, ih]

/-- It stands in the earlier part. -/
theorem earlier_append_mark (hx : isMark x = true) :
    earlier isMark (log ++ x :: more) = log ++ x :: earlier isMark more := by
  have h := earlier_append_current isMark (log ++ x :: more)
  rw [current_append_mark hx] at h
  refine List.append_cancel_right (h.trans ?_)
  rw [List.append_assoc, List.cons_append, earlier_append_current]

/-- An entry of a log that has grown is an entry of the log or one of the new ones, and the log
is split there accordingly. -/
theorem split_append {before after : List α} (h : log ++ more = before ++ x :: after) :
    (∃ pre, before = log ++ pre ∧ more = pre ++ x :: after) ∨
    ∃ rest, log = before ++ x :: rest ∧ after = rest ++ more := by
  rcases List.append_eq_append_iff.mp h with hnew | ⟨rest, hlog, hrest⟩
  · exact .inl hnew
  · cases rest with
    | nil => exact .inl ⟨[], by simpa using hlog.symm, hrest.symm⟩
    | cons y rest =>
        obtain ⟨rfl, rfl⟩ := List.cons.inj hrest
        exact .inr ⟨rest, hlog, rfl⟩

end Sessions
