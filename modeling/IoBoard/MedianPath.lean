import IoBoard.SignGuard
import Mathlib.Data.List.DropRight

/-!
# The Median Path

What a channel stores when the median filter is on and its readings are mostly right: any three
in a row hold the true value twice. The medians are then the true value, from the third reading
on, and the guard, which may have latched the wrong sign or may latch it on the way, lets go of
it after `relatch_frames` of them.

## Where the delay comes from

The first two readings may be stored as they are, for the window may be empty or hold what came
before. From the third on the median is the true value, and it comes again and again: it is
stored at once, or it counts as a flip each time. The streak that it finds need not be zero, but
this can only shorten the wait. Together the true value is stored from the
`(2 + relatch_frames)`-th reading on.

## NaN

`float()` accepts the text `nan`, and NaN compares with nothing. A sort of three values with a
NaN among them depends on the order in which the sort compares them; `median` follows the sort
of the required Python. The result excludes NaN, and must: with `[c, nan, c]` the sort leaves
NaN in the middle (`not_sanitize_median`).

## Main results

* `median_eq`: **the median of three numbers of which two agree is the one they agree on**. NaN
  is no number.
* `sanitize_median`: **the true value is stored** from the `(2 + relatch_frames)`-th reading on.
-/

open PyFloat

namespace IoBoard

variable {cfg : SanitizeModel} {st : ChannelState}

/-! ### The median -/

/-- The median with the odd one at either end. -/
theorem median_of_adjacent (x y : PyFloat) : median x y y = y ∧ median y y x = y := by
  unfold median
  rw [ltB_self, if_neg Bool.false_ne_true]
  constructor
  · cases h : y.ltB x <;> simp
  · cases h : x.ltB y <;> simp

/-- The median with the odd one in the middle, which only NaN can stay at. -/
theorem median_of_outer {x y : PyFloat} (hx : x ≠ nan) (hy : y ≠ nan) : median y x y = y := by
  unfold median
  rw [ltB_self]
  by_cases hne : x = y
  · simp [hne, ltB_self]
  · rcases ltB_or_ltB hx hy hne with h | h
    · simp [h, ltB_asymm h]
    · simp [h, ltB_asymm h]

/-- Two of three agree. -/
theorem two_le_count {a b c y : PyFloat} (h : 2 ≤ [a, b, c].count y) :
    (a = y ∧ b = y) ∨ (a = y ∧ c = y) ∨ (b = y ∧ c = y) := by
  simp only [List.count_cons, List.count_nil, beq_iff_eq] at h
  split_ifs at h with hc hb ha ha hb ha
  all_goals first
    | exact .inl ⟨ha, hb⟩
    | exact .inr (.inl ⟨ha, hc⟩)
    | exact .inr (.inr ⟨hb, hc⟩)
    | omega

/-- **The median of three numbers of which two agree is the one they agree on.** -/
theorem median_eq {a b c y : PyFloat} (hnan : ∀ x ∈ [a, b, c], x ≠ nan)
    (htwo : 2 ≤ [a, b, c].count y) : median a b c = y := by
  obtain ⟨rfl, rfl⟩ | ⟨rfl, rfl⟩ | ⟨rfl, rfl⟩ := two_le_count htwo
  · exact (median_of_adjacent c b).2
  · exact median_of_outer (hnan b (by simp)) (hnan c (by simp))
  · exact (median_of_adjacent a c).1

/-! ### The window -/

/-- The numeric readings among some readings, with their times. Error markers do not enter the
window. -/
def timed (readings : List (Str × PyFloat)) : List (PyFloat × PyFloat) :=
  readings.filterMap fun r => (parse r.1).map (·, r.2)

/-- A numeric reading leaves the channel as both layers do, up to the bin. -/
theorem sanitizeEntry_eq_correct (cfg : SanitizeModel) (st : ChannelState) {raw : Str}
    {x : PyFloat} (ts : PyFloat) (h : parse raw = some x) : ∃ bin,
      (sanitizeEntry cfg st raw ts).1 = { (st.correct cfg x ts).2 with prevBin := bin } := by
  rw [sanitizeEntry, h]
  dsimp only
  unfold ChannelState.quantize
  split_ifs with hstep
  · exact ⟨_, rfl⟩
  · cases (st.correct cfg x ts).2.prevBin.filter
        (holdsBin cfg · (st.correct cfg x ts).1) with
    | some bin => exact ⟨_, rfl⟩
    | none =>
        cases halfUp cfg (st.correct cfg x ts).1 with
        | error e => exact ⟨_, rfl⟩
        | ok bin => exact ⟨_, rfl⟩

/-- The window of the filter ends with the newest reading, after as many of the last ones as it
ended with before, and stays short. A fresh reading is never the start of a new window. -/
theorem ChannelState.push_suffix {x ts : PyFloat} {l : List PyFloat}
    (hwindow : st.window.length ≤ 3) (hl : l <:+ st.window) (hshort : l.length ≤ 2)
    (hfresh : l ≠ [] → st.fresh cfg ts = true) :
    (l ++ [x]) <:+ st.push cfg x ts ∧ (st.push cfg x ts).length ≤ 3 := by
  have hall : (l ++ [x]) <:+ (if st.fresh cfg ts then st.window else []) ++ [x] ∧
      ((if st.fresh cfg ts then st.window else []) ++ [x]).length ≤ 4 := by
    split_ifs with h
    · obtain ⟨front, hfront⟩ := hl
      refine ⟨⟨front, by rw [← List.append_assoc, hfront]⟩, ?_⟩
      rw [List.length_append]
      exact Nat.succ_le_succ hwindow
    · obtain rfl : l = [] := by
        by_contra hne
        exact h (hfresh hne)
      exact ⟨List.suffix_rfl, by simp⟩
  unfold push
  dsimp only
  generalize (if st.fresh cfg ts then st.window else []) ++ [x] = window at hall ⊢
  split_ifs with hlong
  · cases window with
    | nil => cases hlong
    | cons y window =>
        obtain ⟨hsuffix, hlen⟩ := hall
        refine ⟨(List.suffix_cons_iff.mp hsuffix).resolve_left fun heq => ?_,
          Nat.le_of_succ_le_succ hlen⟩
        have := congrArg List.length heq
        simp only [List.length_append, List.length_cons, List.length_nil] at this hlong
        omega
  · exact ⟨hall.1, not_lt.mp hlong⟩

/-- With the filter on the window takes every reading. -/
theorem ChannelState.filter_window (hmedian : cfg.medianFilter = true) (st : ChannelState)
    (x ts : PyFloat) : (st.filter cfg x ts).2 = st.push cfg x ts := by
  rw [filter, if_pos hmedian]
  dsimp only
  split <;> rfl

/-- A full window gives the median of its three readings. -/
theorem ChannelState.filter_of_push (hmedian : cfg.medianFilter = true) {a b x ts : PyFloat}
    (h : st.push cfg x ts = [a, b, x]) : st.filter cfg x ts = (median a b x, [a, b, x]) := by
  rw [filter, if_pos hmedian, h]

/-! ### The guard -/

/-- A square is not negative. -/
theorem not_mul_self_neg (x : PyFloat) : (x.mul x).ltB 0 = false := by
  cases x with
  | fin a => exact not_ofRat_ltB_zero (mul_self_nonneg _)
  | inf s => cases s <;> decide +kernel
  | nan => rfl

/-- A value that comes again and again is stored, or has been counted every time. The product of
a value with itself is not negative, so once it is stored it is no flip. -/
theorem ChannelState.guard_settles (cfg : SanitizeModel) {c : PyFloat} {k : ℕ} (ts : PyFloat)
    (h : st.prev = some c ∨ k ≤ st.flipStreak) :
    (st.guard cfg c ts).1 = c ∨ k + 1 ≤ (st.guard cfg c ts).2 := by
  cases hflip : st.isFlip cfg c ts with
  | false =>
      rw [guard_of_not_isFlip hflip]
      exact .inl rfl
  | true =>
      obtain hprev | hk := h
      · simp [isFlip, hprev, not_mul_self_neg] at hflip
      · rcases lt_or_ge (st.flipStreak + 1) cfg.relatchFrames with hlt | hge
        · rw [guard_of_isFlip hflip hlt]
          exact .inr (Nat.succ_le_succ hk)
        · refine .inl ?_
          simp [guard, hflip, not_lt.mpr hge]

/-! ### Mostly true readings -/

/-- Numbers that come close enough together, of which any three in a row hold `c` twice. The other
values are arbitrary, and nothing is said of the first two. -/
structure MostlyTrue (cfg : SanitizeModel) (c : PyFloat) (xs : List (PyFloat × PyFloat)) :
    Prop where
  numbers : ∀ x ∈ xs, x.1 ≠ nan
  spacing : xs.IsChain fun x y => (y.2.sub x.2).leB cfg.stalenessSeconds = true
  agree : ∀ a b d, [a, b, d] <:+: xs.map Prod.fst → 2 ≤ [a, b, d].count c

/-- Such readings without the last one. -/
theorem MostlyTrue.init {c : PyFloat} {xs : List (PyFloat × PyFloat)} {x : PyFloat × PyFloat}
    (h : MostlyTrue cfg c (xs ++ [x])) : MostlyTrue cfg c xs where
  numbers y hy := h.numbers y (List.mem_append_left _ hy)
  spacing := h.spacing.left_of_append
  agree a b d hthree := h.agree a b d (by
    rw [List.map_append]
    exact hthree.trans (List.prefix_append _ _).isInfix)

/-- What a channel knows of the readings `xs` it has seen since some state: the window ends with
the last two of them, and from the third one on the true value is stored or has been counted. -/
structure MedianTracks (cfg : SanitizeModel) (c : PyFloat) (st : ChannelState)
    (xs : List (PyFloat × PyFloat)) : Prop where
  short : st.window.length ≤ 3
  window : (xs.map Prod.fst).rtake 2 <:+ st.window
  prevTs : ∀ x ∈ xs.getLast?, st.prevTs = x.2
  settled : 3 ≤ xs.length → st.prev = some c ∨ xs.length - 2 ≤ st.flipStreak
  streak : st.flipStreak < cfg.relatchFrames

/-- **The step of the median path**: one more reading, whose median is `c` when it is the third or
a later one. -/
theorem MedianTracks.correct {c : PyFloat} {xs : List (PyFloat × PyFloat)} {x : PyFloat × PyFloat}
    (hmedian : cfg.medianFilter = true) (h : MedianTracks cfg c st xs)
    (htrue : MostlyTrue cfg c (xs ++ [x])) (bin : Option PyFloat) :
    MedianTracks cfg c { (st.correct cfg x.1 x.2).2 with prevBin := bin } (xs ++ [x]) := by
  have hfresh (hne : (xs.map Prod.fst).rtake 2 ≠ []) : st.fresh cfg x.2 = true := by
    cases hlast : xs.getLast? with
    | none =>
        rw [List.getLast?_eq_none_iff.mp hlast] at hne
        exact absurd (List.rtake_nil 2) hne
    | some y =>
        rw [ChannelState.fresh, h.prevTs y hlast]
        exact (List.isChain_append.mp htrue.spacing).2.2 y hlast x rfl
  have hlen : ((xs.map Prod.fst).rtake 2).length = min 2 xs.length := by
    rw [List.rtake, List.length_drop, List.length_map]
    omega
  obtain ⟨hpush, hshort⟩ := ChannelState.push_suffix (x := x.1) h.short h.window
    (by omega) hfresh
  have hcorrect : (st.correct cfg x.1 x.2).2.window = st.push cfg x.1 x.2 :=
    st.filter_window hmedian x.1 x.2
  refine ⟨?_, ?_, fun y hy => ?_, fun hlong => ?_, ChannelState.guard_streak_lt ..⟩
  · dsimp only
    rwa [hcorrect]
  · dsimp only
    rw [hcorrect, List.map_append, List.map_singleton, List.rtake_concat_succ]
    obtain ⟨front, hfront⟩ := List.drop_suffix_drop_left (xs.map Prod.fst)
      (show (xs.map Prod.fst).length - 2 ≤ (xs.map Prod.fst).length - 1 by omega)
    refine List.IsSuffix.trans ⟨front, ?_⟩ hpush
    rw [← List.append_assoc]
    exact congrArg (· ++ [x.1]) hfront
  · rw [List.getLast?_concat, Option.mem_some_iff] at hy
    exact congrArg Prod.snd hy
  · rw [List.length_append, List.length_singleton] at hlong ⊢
    obtain ⟨a, b, hab⟩ : ∃ a b, (xs.map Prod.fst).rtake 2 = [a, b] :=
      List.length_eq_two.mp (by omega)
    rw [hab] at hpush
    have hfull : st.push cfg x.1 x.2 = [a, b, x.1] := (hpush.eq_of_length_le hshort).symm
    have hthree : [a, b, x.1] <:+ (xs ++ [x]).map Prod.fst := by
      obtain ⟨front, hfront⟩ := List.drop_suffix ((xs.map Prod.fst).length - 2) (xs.map Prod.fst)
      refine ⟨front, ?_⟩
      rw [List.map_append, List.map_singleton, ← hfront, List.append_assoc]
      exact congrArg (front ++ ·) (congrArg (· ++ [x.1]) hab.symm)
    have hvalue : (st.filter cfg x.1 x.2).1 = c := by
      rw [ChannelState.filter_of_push hmedian hfull]
      refine median_eq (fun y hy => ?_) (htrue.agree a b x.1 hthree.isInfix)
      obtain ⟨z, hz, rfl⟩ := List.mem_map.mp (hthree.subset hy)
      exact htrue.numbers z hz
    have hbefore : st.prev = some c ∨ xs.length - 2 ≤ st.flipStreak := by
      rcases Nat.lt_or_ge xs.length 3 with hlt | hge
      · exact .inr (by omega)
      · exact h.settled hge
    have hguard := ChannelState.guard_settles cfg x.2 hbefore
    rw [← hvalue] at hguard
    refine hguard.imp (fun hprev => ?_) fun hstreak => ?_
    · exact congrArg some (hprev.trans hvalue)
    · exact le_trans (by omega) hstreak

/-- A channel tracks its readings as long as they are mostly true. -/
theorem MedianTracks.run {c : PyFloat} (hmedian : cfg.medianFilter = true)
    (hshort : st.window.length ≤ 3) (hstreak : st.flipStreak < cfg.relatchFrames)
    (readings : List (Str × PyFloat)) (htrue : MostlyTrue cfg c (timed readings)) :
    MedianTracks cfg c (st.run cfg readings) (timed readings) := by
  induction readings using List.reverseRecOn with
  | nil =>
      have hnil : timed [] = [] := rfl
      rw [hnil]
      exact ⟨hshort, List.nil_suffix, fun x hx => (nomatch hx), fun h => absurd h (by decide),
        hstreak⟩
  | append_singleton readings r ih =>
      rw [ChannelState.run_append_singleton]
      cases hx : parse r.1 with
      | none =>
          have htimed : timed (readings ++ [r]) = timed readings := by simp [timed, hx]
          rw [htimed] at htrue ⊢
          rw [sanitizeEntry_of_marker hx]
          exact ih htrue
      | some x =>
          have htimed : timed (readings ++ [r]) = timed readings ++ [(x, r.2)] := by
            simp [timed, hx]
          rw [htimed] at htrue ⊢
          obtain ⟨bin, hentry⟩ := sanitizeEntry_eq_correct cfg (st.run cfg readings) r.2 hx
          rw [hentry]
          exact (ih htrue.init).correct hmedian htrue bin

/-! ### Any history -/

/-- In every run the window has at most three readings, and the streak stays below `relatch_frames`.
This is all that is known of a channel after any history. -/
theorem ChannelState.run_bounded (hmedian : cfg.medianFilter = true)
    (readings : List (Str × PyFloat)) :
    (({} : ChannelState).run cfg readings).window.length ≤ 3 ∧
      (({} : ChannelState).run cfg readings).flipStreak < cfg.relatchFrames := by
  induction readings using List.reverseRecOn with
  | nil => exact ⟨Nat.zero_le _, Nat.zero_lt_of_lt cfg.validateRelatchFrames⟩
  | append_singleton readings r ih =>
      rw [run_append_singleton]
      cases hx : parse r.1 with
      | none => rwa [sanitizeEntry_of_marker hx]
      | some x =>
          obtain ⟨bin, hentry⟩ :=
            sanitizeEntry_eq_correct cfg (({} : ChannelState).run cfg readings) r.2 hx
          rw [hentry]
          refine ⟨?_, guard_streak_lt ..⟩
          have hnew : [] ++ [x] <:+ (run cfg {} readings).push cfg x r.2 ∧
              ((run cfg {} readings).push cfg x r.2).length ≤ 3 :=
            push_suffix ih.1 List.nil_suffix (Nat.zero_le _) fun h => absurd rfl h
          exact (congrArg List.length (filter_window hmedian _ x r.2)).trans_le hnew.2

/-- **The median path.** After any history, let numbers follow that come close enough together
and of which any three in a row hold the true value `c` twice, with error markers between them.
From the `(2 + relatch_frames)`-th of them on, the value that is stored is `c`. -/
theorem sanitize_median (config : SanitizeModel) (hmedian : config.medianFilter = true) {n i : ℕ}
    (hi : i < n) (history frames : List Frame) (c : PyFloat)
    (htrue : MostlyTrue config c
      (timed (((LoadcellSanitizer.new config n).run history).readings i frames)))
    (hmany : 2 + config.relatchFrames ≤
      (timed (((LoadcellSanitizer.new config n).run history).readings i frames)).length) :
    ∃ st : ChannelState, (((LoadcellSanitizer.new config n).run history).run frames).channels[i]? =
      some st ∧ st.prev = some c := by
  have hstart := LoadcellSanitizer.run_new_getElem? config hi history
  obtain ⟨hshort, hstreak⟩ := ChannelState.run_bounded hmedian
    ((LoadcellSanitizer.new config n).readings i history)
  generalize ({} : ChannelState).run config _ = st₀ at hstart hshort hstreak
  have hconfig : ((LoadcellSanitizer.new config n).run history).config = config := by
    simp [LoadcellSanitizer.new]
  generalize (LoadcellSanitizer.new config n).run history = S at *
  subst hconfig
  have htracks := MedianTracks.run hmedian hshort hstreak _ htrue
  refine ⟨_, by rw [LoadcellSanitizer.run_getElem?, hstart, Option.map_some], ?_⟩
  refine (htracks.settled (by omega)).resolve_right fun hcount => ?_
  have := htracks.streak
  omega

/-- Three in a row of five. -/
theorem infix_of_five {α : Type*} {l : List α} {u v w x y : α} (hl : l.length = 3)
    (h : l <:+: [u, v, w, x, y]) : l ∈ [[u, v, w], [v, w, x], [w, x, y]] := by
  obtain ⟨a, b, d, rfl⟩ := List.length_eq_three.mp hl
  obtain ⟨front, back, h⟩ := h
  rcases front with _ | ⟨p, _ | ⟨q, _ | ⟨r, front⟩⟩⟩
  · cases h
    simp
  · cases h
    simp
  · cases h
    simp
  · have := congrArg List.length h
    simp only [List.length_append, List.length_cons, List.length_nil] at this
    omega

/-- The median filter without the quantizer. -/
def medianOnly : SanitizeModel where
  medianFilter := true
  quantizeGrams := 0

/-- A channel at -500 g: 100 g with an outlier after two readings is stored from the fifth
reading on. -/
theorem sanitize_median_outlier : ∃ st : ChannelState,
    (((LoadcellSanitizer.new medianOnly 10).run [⟨["-00500".toList], 0⟩]).run
      [⟨["+00100".toList], 1⟩, ⟨["+00100".toList], 2⟩, ⟨["+99999".toList], 3⟩,
        ⟨["+00100".toList], 4⟩, ⟨["+00100".toList], 5⟩]).channels[0]? = some st ∧
      st.prev = some 100 := by
  refine sanitize_median medianOnly rfl (n := 10) (i := 0) (by norm_num) _ _ 100
    ⟨by decide +kernel, by decide +kernel, ?_⟩ (by decide +kernel)
  have hvalues : (timed (((LoadcellSanitizer.new medianOnly 10).run
      [⟨["-00500".toList], 0⟩]).readings 0 [⟨["+00100".toList], 1⟩, ⟨["+00100".toList], 2⟩,
        ⟨["+99999".toList], 3⟩, ⟨["+00100".toList], 4⟩, ⟨["+00100".toList], 5⟩])).map Prod.fst =
      [100, 100, 99999, 100, 100] := by
    decide +kernel
  rw [hvalues]
  have htwo : ∀ l ∈ [[100, 100, 99999], [100, 99999, 100], [99999, 100, 100]],
      2 ≤ l.count (100 : PyFloat) := by
    decide +kernel
  exact fun a b d hthree => htwo _ (infix_of_five rfl hthree)

/-- Readings of 100 g with a NaN as the outlier. -/
def nanOutlier : List Frame :=
  [⟨["+00100".toList], 1⟩, ⟨["+00100".toList], 2⟩, ⟨["+00100".toList], 3⟩, ⟨["   nan".toList], 4⟩,
    ⟨["+00100".toList], 5⟩]

/-- With a NaN as the outlier the median of the last three readings is NaN, and that is stored
instead of 100 g. -/
theorem not_sanitize_median : ¬ ∀ (config : SanitizeModel), config.medianFilter = true →
    ∀ (n i : ℕ), i < n → ∀ (history frames : List Frame) (c : PyFloat),
    (timed (((LoadcellSanitizer.new config n).run history).readings i frames)).IsChain
      (fun x y => (y.2.sub x.2).leB config.stalenessSeconds = true) →
    (∀ a b d, [a, b, d] <:+:
      (timed (((LoadcellSanitizer.new config n).run history).readings i frames)).map Prod.fst →
        2 ≤ [a, b, d].count c) →
    2 + config.relatchFrames ≤
      (timed (((LoadcellSanitizer.new config n).run history).readings i frames)).length →
    ∃ st : ChannelState,
      (((LoadcellSanitizer.new config n).run history).run frames).channels[i]? = some st ∧
        st.prev = some c := by
  intro h
  have hvalues : (timed (((LoadcellSanitizer.new medianOnly 10).run []).readings 0 nanOutlier)).map
      Prod.fst = [100, 100, 100, nan, 100] := by
    decide +kernel
  have htwo : ∀ l ∈ [[100, 100, 100], [100, 100, nan], [100, nan, 100]],
      2 ≤ l.count (100 : PyFloat) := by
    decide +kernel
  obtain ⟨st, hst, hprev⟩ := h medianOnly rfl 10 0 (by norm_num) [] nanOutlier 100
    (by decide +kernel) (fun a b d hthree => htwo _ (infix_of_five rfl (hvalues ▸ hthree)))
    (by decide +kernel)
  have hnan : ((((LoadcellSanitizer.new medianOnly 10).run []).run nanOutlier).channels[0]?.bind
      ChannelState.prev) = some nan := by
    decide +kernel
  rw [hst, Option.bind_some, hprev] at hnan
  exact absurd hnan (by decide +kernel)

end IoBoard
