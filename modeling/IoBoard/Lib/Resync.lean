import IoBoard.Lib.Framing

/-!
# Resynchronisation of a Delimited Stream

A reader that takes one element, everything up to the next separator, and one element more,
over and over, on a stream of frames behind some garbage. It does not look for the start of
a frame; what puts it back in step is that a frame has its separator last but one.

A stream is `Lost` while the reader may be out of step: garbage is still in front of the
first frame, or the reader stands inside that frame. Where the separator is too far away for
the reader it gives up what it has taken and starts again one element further on.

## How many frames it costs

The garbage may hold separators, and a read that begins in the garbage may end in the first
frame, on its separator or before it. After that the reader stands inside the frame or right
behind it. From inside it reaches the separator of that same frame with its next read, since
a frame has no other one; and one element later it is at a frame boundary. So one frame may be
lost, but not a second one, and from then on the reader takes the frames one by one.

That the next separator may also be the element after the one just taken, as in a frame whose
check is the separator itself, is why `Lost.inside` asks for at least one element in front of
the separator, and why the cases of `Lost.read` are not symmetric.

## Main definitions

* `IsFrame sep limit f`: a frame of this shape, with a body of at most `limit` elements.
* `Lost sep limit todo stream`: the reader may be out of step, in front of the frames `todo`.

## Main results

* `IsFrame.read_eq`: a reader in step takes exactly the first frame.
* `Lost.read`: **a reader that is not in step is in step after the first frame at the latest**.
* `Lost.skip`: giving up does not cost more than that.
-/

namespace Framing

variable {α : Type*} {sep x check y : α} {limit : ℕ} {f : List α} {todo : List (List α)}
  {stream body front back rest : List α}

/-- A frame: an element that is no separator, some others, the separator, and one element, which
may be anything. -/
def IsFrame (sep : α) (limit : ℕ) (f : List α) : Prop :=
  ∃ s body check, s ≠ sep ∧ body ≠ [] ∧ sep ∉ body ∧ body.length ≤ limit ∧
    f = s :: body ++ [sep, check]

/-- A reader of this stream is not in step yet: the frames `todo` are still to come, behind
garbage and a frame, or behind the rest of a frame. -/
inductive Lost (sep : α) (limit : ℕ) (todo : List (List α)) : List α → Prop
  | garbage {front f : List α} (hf : IsFrame sep limit f) :
      Lost sep limit todo (front ++ (f ++ todo.flatten))
  | inside {q : List α} {check : α} (hne : q ≠ []) (hq : sep ∉ q) (hlen : q.length ≤ limit) :
      Lost sep limit todo (q ++ sep :: check :: todo.flatten)

/-- The first separator of a list is where it is: two splittings at it are the same one. -/
theorem append_cons_inj {p q r t : List α} (hp : sep ∉ p) (hq : sep ∉ q)
    (h : p ++ sep :: r = q ++ sep :: t) : p = q ∧ r = t := by
  rcases List.append_eq_append_iff.mp h with ⟨more, rfl, hmore⟩ | ⟨more, rfl, hmore⟩
  · cases more with
    | nil => exact ⟨(List.append_nil p).symm, (List.cons.inj hmore).2⟩
    | cons z more =>
        obtain ⟨rfl, -⟩ := List.cons.inj hmore
        exact absurd (List.mem_append_right p List.mem_cons_self) hq
  · cases more with
    | nil => exact ⟨List.append_nil q, (List.cons.inj hmore).2.symm⟩
    | cons z more =>
        obtain ⟨rfl, -⟩ := List.cons.inj hmore
        exact absurd (List.mem_append_right q List.mem_cons_self) hp

/-- **A reader in step takes exactly the first frame**: the first separator it finds is that of
the frame. -/
theorem IsFrame.read_eq (hf : IsFrame sep limit f) (hbody : sep ∉ body)
    (h : x :: body ++ sep :: y :: rest = f ++ back) :
    f = x :: body ++ [sep, y] ∧ rest = back ∧ body.length ≤ limit := by
  obtain ⟨s, body', check, -, -, hbody', hlen, rfl⟩ := hf
  obtain ⟨rfl, htail⟩ : x = s ∧ body ++ sep :: y :: rest = body' ++ sep :: check :: back := by
    simpa using h
  obtain ⟨rfl, hrest⟩ := append_cons_inj hbody hbody' htail
  obtain ⟨rfl, rfl⟩ := List.cons.inj hrest
  exact ⟨rfl, rfl, hlen⟩

/-- **A reader that is not in step** goes on in the garbage, stands inside the first frame, or
is in step after it. -/
theorem Lost.read (h : Lost sep limit todo (x :: body ++ sep :: y :: rest)) (hbody : sep ∉ body) :
    Lost sep limit todo rest ∨ rest = todo.flatten := by
  generalize hstream : x :: body ++ sep :: y :: rest = stream at h
  cases h with
  | @garbage front f hf =>
      cases front with
      | nil => exact .inr (hf.read_eq hbody hstream).2.1
      | cons z front =>
          obtain ⟨-, hstream⟩ := List.cons.inj hstream
          rcases List.append_eq_append_iff.mp hstream with ⟨more, rfl, hmore⟩ | ⟨more, rfl, hmore⟩
          · -- the separator is one of the garbage
            rcases List.cons_eq_append_iff.mp hmore with ⟨-, hmore⟩ | ⟨more', -, hmore⟩
            · obtain ⟨s, q, check, hs, -, -, -, rfl⟩ := hf
              exact absurd (List.cons.inj hmore).1 hs
            · rcases List.cons_eq_append_iff.mp hmore with ⟨-, hmore⟩ | ⟨more'', -, rfl⟩
              · obtain ⟨s, q, check, -, hne, hq, hlen, rfl⟩ := hf
                obtain ⟨rfl, rfl⟩ : s = y ∧ q ++ sep :: check :: todo.flatten = rest := by
                  simpa using hmore
                exact .inl (.inside hne hq hlen)
              · exact .inl (.garbage hf)
          · -- the separator is that of the frame
            obtain ⟨s, q, check, hs, -, hq, -, rfl⟩ := hf
            have hsep : (more ++ sep :: y :: rest) = (s :: q) ++ sep :: check :: todo.flatten := by
              simpa using hmore.symm
            have hmore' : sep ∉ more := fun hmem => hbody (List.mem_append_right front hmem)
            have hsq : sep ∉ s :: q := by simp [Ne.symm hs, hq]
            obtain ⟨-, hrest⟩ := append_cons_inj hmore' hsq hsep
            exact .inr (List.cons.inj hrest).2
  | @inside q check hne hq hlen =>
      obtain ⟨z, q, rfl⟩ := List.exists_cons_of_ne_nil hne
      obtain ⟨-, hstream⟩ := List.cons.inj hstream
      have hq' : sep ∉ q := fun hmem => hq (List.mem_cons_of_mem z hmem)
      obtain ⟨-, hrest⟩ := append_cons_inj hbody hq' hstream
      exact .inr (List.cons.inj hrest).2

/-- **A reader that gives up** is still in the garbage: it has found no separator within the
limit, and a frame has one. -/
theorem Lost.skip (h : Lost sep limit todo (x :: stream))
    (hfar : ∀ body rest, sep ∉ body → stream = body ++ sep :: rest → limit < body.length) :
    Lost sep limit todo stream := by
  generalize hstream : x :: stream = whole at h
  cases h with
  | @garbage front f hf =>
      cases front with
      | nil =>
          obtain ⟨s, q, check, -, -, hq, hlen, rfl⟩ := hf
          obtain ⟨-, rfl⟩ := List.cons.inj hstream
          exact absurd (hfar q (check :: todo.flatten) hq (by simp)) (Nat.not_lt.mpr hlen)
      | cons z front =>
          obtain ⟨-, rfl⟩ := List.cons.inj hstream
          exact .garbage hf
  | @inside q check hne hq hlen =>
      obtain ⟨z, q, rfl⟩ := List.exists_cons_of_ne_nil hne
      obtain ⟨-, rfl⟩ := List.cons.inj hstream
      have hq' : sep ∉ q := fun hmem => hq (List.mem_cons_of_mem z hmem)
      have hlt := hfar q (check :: todo.flatten) hq' rfl
      rw [List.length_cons] at hlen
      omega

/-- A stream that is not exhausted has a separator behind its first element, and something
behind it. -/
theorem exists_read [DecidableEq α] (sep : α) (front rest : List α) (check : α) :
    ∃ body y rest', sep ∉ body ∧ front ++ sep :: check :: rest = body ++ sep :: y :: rest' := by
  induction front with
  | nil => exact ⟨[], check, rest, List.not_mem_nil, rfl⟩
  | cons z front ih =>
      by_cases hz : z = sep
      · subst hz
        cases front with
        | nil => exact ⟨[], z, check :: rest, List.not_mem_nil, rfl⟩
        | cons w front => exact ⟨[], w, front ++ z :: check :: rest, List.not_mem_nil, rfl⟩
      · obtain ⟨body, y, rest', hbody, heq⟩ := ih
        exact ⟨z :: body, y, rest', by simp [Ne.symm hz, hbody], by simp [heq]⟩

theorem Lost.exists_read [DecidableEq α] (h : Lost sep limit todo stream) :
    ∃ x body y rest, sep ∉ body ∧ stream = x :: body ++ sep :: y :: rest := by
  cases h with
  | @garbage front f hf =>
      obtain ⟨s, q, check, -, -, hq, -, rfl⟩ := hf
      cases front with
      | nil => exact ⟨s, q, check, todo.flatten, hq, by simp⟩
      | cons z front =>
          obtain ⟨body, y, rest, hbody, heq⟩ :=
            Framing.exists_read sep (front ++ s :: q) todo.flatten check
          refine ⟨z, body, y, rest, hbody, congrArg (List.cons z) ?_⟩
          change front ++ _ = body ++ _
          rw [← heq]
          simp
  | @inside q check hne hq hlen =>
      obtain ⟨z, q, rfl⟩ := List.exists_cons_of_ne_nil hne
      exact ⟨z, q, check, todo.flatten, fun hmem => hq (List.mem_cons_of_mem z hmem), rfl⟩

end Framing
