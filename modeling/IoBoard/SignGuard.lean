import IoBoard.Sanitizer
import Mathlib.Data.List.Chain
import Mathlib.Data.List.DropRight
import Mathlib.Data.List.Induction

/-!
# The Sign-Continuity Guard

What the guard of the sanitizer does to a whole sequence of readings of one channel, with
the median filter switched off: it suppresses every pattern of inverted readings it is built
for, and it lets go of a wrong sign that it has latched.

## The two directions

The guard compares a reading with the value it has stored last, which is the reading of the
frame before with its sign put right. It cannot tell a glitch from a change of sign by one
reading; what tells them apart is persistence, and the number of frames that count as
persistent is `relatch_frames`.

* *Suppression* is about a channel that has stored the right sign. As long as the inverted
  readings come in runs shorter than `relatch_frames`, between readings that move little and
  are close in time, every one of them is restored. The invariant `Tracks` says what the
  channel knows of the frames so far: the true last value, its time, and how many inverted
  readings were the last ones.
* *Healing* is about any channel, whatever it has latched. Readings of one sign either agree
  with the latch or count, and the count reaches `relatch_frames` at the latest with the
  `relatch_frames`-th of them. Nothing is asked of magnitudes and distances: where they are
  such that the guard does not apply, the reading is stored at once.

Both are stated for the value that is stored and goes to the quantizer, for every reading of
a run, and for any channel of a sanitizer with other channels beside it.

## Main results

* `sanitize_suppresses`: **glitches are suppressed** — readings of one sign with inverted
  ones among them come out as they were sent.
* `sanitize_heals`: **the guard heals itself** — from the `relatch_frames`-th reading of one
  sign on, what is stored is what was read.
-/

open PyFloat

namespace IoBoard

variable {cfg : SanitizeModel} {st : ChannelState}

/-! ### One reading -/

/-- Quantizing changes nothing that the guard looks at. -/
theorem ChannelState.quantize_eq_ok {value bin : PyFloat} {st' : ChannelState}
    (h : st.quantize cfg value = .ok (bin, st')) :
    st'.prev = st.prev ∧ st'.prevTs = st.prevTs ∧ st'.flipStreak = st.flipStreak := by
  unfold ChannelState.quantize at h
  split_ifs at h
  · cases h
    exact ⟨rfl, rfl, rfl⟩
  · split at h
    · cases h
      exact ⟨rfl, rfl, rfl⟩
    · cases hup : halfUp cfg value with
      | error e => rw [hup] at h; cases h
      | ok b =>
          rw [hup] at h
          cases h
          exact ⟨rfl, rfl, rfl⟩

/-- An error marker leaves the channel as it is: it neither breaks a streak nor keeps the channel
fresh. -/
theorem sanitizeEntry_of_marker {raw : Str} {ts : PyFloat} (h : parse raw = none) :
    (sanitizeEntry cfg st raw ts).1 = st := by
  rw [sanitizeEntry, h]

/-- A numeric reading stores the sign-corrected value, its time and the streak, whatever the
quantizer makes of it; an exception of the quantizer comes after the storing. -/
theorem sanitizeEntry_of_numeric (cfg : SanitizeModel) (st : ChannelState) {raw : Str}
    {x : PyFloat} (ts : PyFloat) (h : parse raw = some x) :
    (sanitizeEntry cfg st raw ts).1.prev = some (st.correct cfg x ts).1 ∧
    (sanitizeEntry cfg st raw ts).1.prevTs = ts ∧
    (sanitizeEntry cfg st raw ts).1.flipStreak = (st.correct cfg x ts).2.flipStreak := by
  rw [sanitizeEntry, h]
  dsimp only
  split
  · exact ⟨rfl, rfl, rfl⟩
  · rename_i hq
    exact ChannelState.quantize_eq_ok hq

/-- Without the median filter a reading goes to the guard as it is. -/
theorem ChannelState.correct_of_medianOff (st : ChannelState)
    (hmedian : cfg.medianFilter = false) (x ts : PyFloat) :
    (st.correct cfg x ts).1 = (st.guard cfg x ts).1 ∧
    (st.correct cfg x ts).2.flipStreak = (st.guard cfg x ts).2 := by
  simp [ChannelState.correct, ChannelState.filter, hmedian]

/-- What is no flip passes. -/
theorem ChannelState.guard_of_not_isFlip {x ts : PyFloat} (h : st.isFlip cfg x ts = false) :
    st.guard cfg x ts = (x, 0) := by
  simp [ChannelState.guard, h]

/-- A flip is restored while its streak is short, and lengthens the streak. -/
theorem ChannelState.guard_of_isFlip {x ts : PyFloat} (h : st.isFlip cfg x ts = true)
    (hstreak : st.flipStreak + 1 < cfg.relatchFrames) :
    st.guard cfg x ts = (x.neg, st.flipStreak + 1) := by
  simp [ChannelState.guard, h, hstreak]

/-- A reading of the sign of the stored value is no flip. -/
theorem ChannelState.isFlip_of_same_sign {s : Bool} {p x ts : PyFloat} (hp : st.prev = some p)
    (hps : HasSign s p) (hxs : HasSign s x) : st.isFlip cfg x ts = false := by
  simp [ChannelState.isFlip, hp, hxs.not_mul_neg hps]

/-- The streak of a channel never reaches `relatch_frames`: the reading that would make it do so is
let through and ends it. -/
theorem ChannelState.guard_streak_lt (cfg : SanitizeModel) (st : ChannelState) (x ts : PyFloat) :
    (st.guard cfg x ts).2 < cfg.relatchFrames := by
  have := cfg.validateRelatchFrames
  unfold ChannelState.guard
  split_ifs with hflip hstreak
  · exact hstreak
  · exact Nat.zero_lt_of_lt this
  · exact Nat.zero_lt_of_lt this

/-! ### Healing -/

/-- The numeric values among some readings, in their order. The guard sees nothing else. -/
def numerics (readings : List (Str × PyFloat)) : List PyFloat :=
  readings.filterMap fun r => parse r.1

/-- One more reading. -/
theorem ChannelState.run_append_singleton (readings : List (Str × PyFloat))
    (r : Str × PyFloat) : st.run cfg (readings ++ [r]) =
      (sanitizeEntry cfg (st.run cfg readings) r.1 r.2).1 := by
  simp [ChannelState.run]

/-- The streak stays below `relatch_frames` in every run. -/
theorem ChannelState.run_streak_lt (st : ChannelState) (hmedian : cfg.medianFilter = false)
    (h : st.flipStreak < cfg.relatchFrames) (readings : List (Str × PyFloat)) :
    (st.run cfg readings).flipStreak < cfg.relatchFrames := by
  induction readings using List.reverseRecOn with
  | nil => exact h
  | append_singleton readings r ih =>
      rw [run_append_singleton]
      cases hx : parse r.1 with
      | none => rwa [sanitizeEntry_of_marker hx]
      | some x =>
          rw [(sanitizeEntry_of_numeric cfg _ _ hx).2.2, (correct_of_medianOff _ hmedian _ _).2]
          exact guard_streak_lt _ _ _ _

/-- The step of healing: a reading of the sign `s` is stored as it is when the sign is latched, and
otherwise adds to the streak or latches it. The invariant counts the readings since the start. -/
theorem ChannelState.guard_heals (cfg : SanitizeModel) {s : Bool} {k : ℕ} {x : PyFloat}
    (ts : PyFloat) (hx : HasSign s x)
    (h : (∃ p, st.prev = some p ∧ HasSign s p) ∨ k ≤ st.flipStreak) :
    (st.guard cfg x ts).1 = x ∨ k + 1 ≤ (st.guard cfg x ts).2 := by
  cases hflip : st.isFlip cfg x ts with
  | false =>
      rw [guard_of_not_isFlip hflip]
      exact .inl rfl
  | true =>
      obtain ⟨p, hp, hps⟩ | hk := h
      · rw [isFlip_of_same_sign hp hps hx] at hflip
        cases hflip
      · rcases lt_or_ge (st.flipStreak + 1) cfg.relatchFrames with hlt | hge
        · rw [guard_of_isFlip hflip hlt]
          exact .inr (Nat.succ_le_succ hk)
        · refine .inl ?_
          simp [ChannelState.guard, hflip, not_lt.mpr hge]

/-- After readings of the sign `s` the last of them is stored, or the streak has counted them
all. -/
theorem ChannelState.run_heals {s : Bool} (hmedian : cfg.medianFilter = false)
    (readings : List (Str × PyFloat)) (hsign : ∀ x ∈ numerics readings, HasSign s x) :
    (∃ x ∈ (numerics readings).getLast?, (st.run cfg readings).prev = some x) ∨
      (numerics readings).length ≤ (st.run cfg readings).flipStreak := by
  induction readings using List.reverseRecOn with
  | nil => exact .inr (Nat.zero_le _)
  | append_singleton readings r ih =>
      have ih := ih fun x hx => hsign x (by simp [numerics] at hx ⊢; exact .inl hx)
      rw [run_append_singleton]
      cases hx : parse r.1 with
      | none =>
          have hnum : numerics (readings ++ [r]) = numerics readings := by simp [numerics, hx]
          rw [hnum, sanitizeEntry_of_marker hx]
          exact ih
      | some x =>
          have hnum : numerics (readings ++ [r]) = numerics readings ++ [x] := by
            simp [numerics, hx]
          have hlatched : (∃ p, (st.run cfg readings).prev = some p ∧ HasSign s p) ∨
              (numerics readings).length ≤ (st.run cfg readings).flipStreak := by
            refine ih.imp_left ?_
            rintro ⟨p, hp, hprev⟩
            exact ⟨p, hprev, hsign p (hnum ▸ List.mem_append_left _ (List.mem_of_getLast? hp))⟩
          obtain ⟨hprev, -, hstreak⟩ := sanitizeEntry_of_numeric cfg (st.run cfg readings) r.2 hx
          obtain ⟨hvalue, hcount⟩ := correct_of_medianOff (st.run cfg readings) hmedian x r.2
          rw [hnum, hprev, hstreak, hvalue, hcount]
          have hxs : HasSign s x := hsign x (by simp [hnum])
          obtain hkept | hcount := guard_heals cfg r.2 hxs hlatched
          · exact .inl ⟨x, by simp, by rw [hkept]⟩
          · exact .inr (by simpa using hcount)

/-- The state of a channel of a running sanitizer. -/
theorem LoadcellSanitizer.run_new_getElem? (config : SanitizeModel) {n i : ℕ} (hi : i < n)
    (frames : List Frame) : ((new config n).run frames).channels[i]? =
      some (({} : ChannelState).run config ((new config n).readings i frames)) := by
  rw [run_getElem?]
  simp [new, hi]

/-- What a numeric entry that reaches a channel does to it. -/
theorem LoadcellSanitizer.run_append_getElem? {s : LoadcellSanitizer} {frames : List Frame}
    {f : Frame} {i : ℕ} {st : ChannelState} {raw : Str}
    (hst : (s.run frames).channels[i]? = some st) (hentry : (s.run frames).entry i f = some raw) :
    (s.run (frames ++ [f])).channels[i]? = some (sanitizeEntry s.config st raw f.now).1 := by
  have hstep := sanitizeEntries_getElem? (s.run frames).config f.now (s.run frames).channels
    f.values i
  rw [entry] at hentry
  rw [hst, Option.map_some, hentry, run_config] at hstep
  rw [run_append_singleton, sanitize, run_config]
  exact hstep

/-- **The guard heals itself.** After any history, let readings of one strict sign follow, with
error markers between them. From the `relatch_frames`-th of these readings on, the value that
goes to the quantizer and is stored is the reading. -/
theorem sanitize_heals (config : SanitizeModel) (hmedian : config.medianFilter = false) {n i : ℕ}
    (hi : i < n) (history frames : List Frame) (f : Frame) (raw : Str) (x : PyFloat) {s : Bool}
    (hlast : (((LoadcellSanitizer.new config n).run history).run frames).entry i f = some raw)
    (hx : parse raw = some x)
    (hsign : ∀ y ∈ numerics (((LoadcellSanitizer.new config n).run history).readings i frames) ++
      [x], HasSign s y)
    (hmany : config.relatchFrames ≤
      (numerics (((LoadcellSanitizer.new config n).run history).readings i frames)).length + 1) :
    ∃ st st' : ChannelState,
      (((LoadcellSanitizer.new config n).run history).run frames).channels[i]? = some st ∧
      (((LoadcellSanitizer.new config n).run history).run (frames ++ [f])).channels[i]? =
        some st' ∧
      (st.correct config x f.now).1 = x ∧ st'.prev = some x := by
  have hstart := LoadcellSanitizer.run_new_getElem? config hi history
  have hstreak := ChannelState.run_streak_lt {} hmedian
    (Nat.zero_lt_of_lt config.validateRelatchFrames)
    ((LoadcellSanitizer.new config n).readings i history)
  generalize ({} : ChannelState).run config _ = st₀ at hstart hstreak
  have hconfig : ((LoadcellSanitizer.new config n).run history).config = config := by
    simp [LoadcellSanitizer.new]
  generalize (LoadcellSanitizer.new config n).run history = S at *
  subst hconfig
  have hst : (S.run frames).channels[i]? = some (st₀.run S.config (S.readings i frames)) := by
    rw [LoadcellSanitizer.run_getElem?, hstart, Option.map_some]
  have hnext := LoadcellSanitizer.run_append_getElem? hst hlast
  refine ⟨_, _, hst, hnext, ?_⟩
  have hlatched : (∃ p, (st₀.run S.config (S.readings i frames)).prev = some p ∧ HasSign s p) ∨
      (numerics (S.readings i frames)).length ≤
        (st₀.run S.config (S.readings i frames)).flipStreak := by
    refine (ChannelState.run_heals hmedian _ fun y hy =>
      hsign y (List.mem_append_left _ hy)).imp_left ?_
    rintro ⟨p, hp, hprev⟩
    exact ⟨p, hprev, hsign p (List.mem_append_left _ (List.mem_of_getLast? hp))⟩
  have hkept : ((st₀.run S.config (S.readings i frames)).correct S.config x f.now).1 = x := by
    rw [(ChannelState.correct_of_medianOff _ hmedian x f.now).1]
    refine (ChannelState.guard_heals S.config f.now (hsign x (by simp)) hlatched).resolve_right ?_
    intro hcount
    have := ChannelState.guard_streak_lt S.config
      (st₀.run S.config (S.readings i frames)) x f.now
    omega
  exact ⟨hkept, by rw [(sanitizeEntry_of_numeric S.config _ _ hx).1, hkept]⟩

/-- A channel that has latched `+` and reads 100 g with a minus: the third such reading is
let through. -/
theorem sanitize_heals_relatch : ∃ st' : ChannelState,
    (((LoadcellSanitizer.new {} 10).run [⟨["+00100".toList], 0⟩]).run
      ([⟨["-00100".toList], 1⟩, ⟨["-00100".toList], 2⟩] ++
        [⟨["-00100".toList], 3⟩])).channels[0]? = some st' ∧
      st'.prev = some (PyFloat.neg 100) := by
  obtain ⟨st, st', -, hst', -, hprev⟩ := sanitize_heals {} rfl (n := 10) (i := 0) (by norm_num)
    [⟨["+00100".toList], 0⟩] [⟨["-00100".toList], 1⟩, ⟨["-00100".toList], 2⟩]
    ⟨["-00100".toList], 3⟩ "-00100".toList (PyFloat.neg 100) (s := true)
    (by decide +kernel) (by decide +kernel) (by decide +kernel) (by decide +kernel)
  exact ⟨st', hst', hprev⟩

/-! ### Suppression -/

/-- A numeric frame of a channel: what was measured, whether it arrived with the wrong sign, and
when. A glitch inverts the sign and nothing else. -/
structure Shot where
  truth : DeviceReading
  inverted : Bool
  ts : PyFloat

/-- What the sanitizer receives. -/
def Shot.received (x : Shot) : DeviceReading :=
  if x.inverted then x.truth.invert else x.truth

/-- A frame of a channel: an error marker or a numeric one. Markers may stand anywhere, and do
not reach the guard. -/
inductive Sample
  | marker (raw : Str) (h : raw ∈ errorValues) (ts : PyFloat)
  | shot (x : Shot)

/-- The text and time of a frame. -/
def Sample.reading : Sample → Str × PyFloat
  | marker raw _ ts => (raw, ts)
  | shot x => (x.received.text, x.ts)

/-- The numeric frames. -/
def shots (samples : List Sample) : List Shot :=
  samples.filterMap fun
    | .marker .. => none
    | .shot x => some x

/-- The glitches that the guard is built for: readings of one strict sign `s` that are not too
small, change little and come close enough together, the first of them not inverted, and never
`relatch_frames` inverted ones in a row. Distances are those of Python's arithmetic, so that a
pattern is recognised exactly as the guard recognises it. -/
structure GlitchPattern (cfg : SanitizeModel) (s : Bool) (xs : List Shot) : Prop where
  sign : ∀ x ∈ xs, HasSign s x.truth.value
  magnitude : ∀ x ∈ xs, cfg.minMagnitudeGrams.leB x.truth.value.abs = true
  drift : xs.IsChain fun x y =>
    (y.truth.value.abs.sub x.truth.value.abs).abs.leB cfg.magnitudeToleranceGrams = true ∧
      (y.ts.sub x.ts).leB cfg.stalenessSeconds = true
  first : ∀ x ∈ xs.head?, x.inverted = false
  streak : ∀ l, l <:+: xs → (∀ x ∈ l, x.inverted = true) → l.length < cfg.relatchFrames

/-- A pattern without its last frame. -/
theorem GlitchPattern.init {s : Bool} {xs : List Shot} {y : Shot}
    (h : GlitchPattern cfg s (xs ++ [y])) : GlitchPattern cfg s xs where
  sign x hx := h.sign x (List.mem_append_left _ hx)
  magnitude x hx := h.magnitude x (List.mem_append_left _ hx)
  drift := h.drift.left_of_append
  first x hx := h.first x (by
    rw [List.head?_append_of_ne_nil]
    · exact hx
    · rintro rfl
      cases hx)
  streak l hl := h.streak l (hl.trans (List.prefix_append xs [y]).isInfix)

/-- Device readings of opposite strict signs have a negative product. -/
theorem DeviceReading.neg_mul_neg {s : Bool} {x y : DeviceReading} (hx : HasSign s x.value)
    (hy : HasSign s y.value) : (x.value.neg.mul y.value).ltB 0 = true := by
  obtain ⟨a, ha, -⟩ := x.exists_value_eq_fin
  obtain ⟨b, hb, -⟩ := y.exists_value_eq_fin
  rw [ha, hasSign_fin] at hx
  rw [hb, hasSign_fin] at hy
  have hax : 1 / 16 ≤ |(a : ℚ)| := sixteenth_le ha (by cases s <;> simp at hx <;> linarith)
  have hby : 1 / 16 ≤ |(b : ℚ)| := sixteenth_le hb (by cases s <;> simp at hy <;> linarith)
  have hprod : 1 / 16 * (1 / 16) ≤ |(a : ℚ)| * |(b : ℚ)| :=
    mul_le_mul hax hby (by norm_num) (abs_nonneg _)
  have hpos : |(a : ℚ)| * |(b : ℚ)| = a * b := by
    rw [← abs_mul, abs_of_nonneg]
    cases s
    · exact (mul_pos hx hy).le
    · exact (mul_pos_of_neg_of_neg hx hy).le
  rw [ha, hb, neg_fin, mul_fin]
  refine ofRat_ltB_zero (e := -8) (by norm_num) ?_
  rw [hpos] at hprod
  norm_num at hprod ⊢
  linarith

/-- What a channel knows of the numeric frames it has seen: the true last value and its time, and
the length of the run of inverted frames at the end. -/
structure Tracks (st : ChannelState) (xs : List Shot) : Prop where
  prev : st.prev = xs.getLast?.map fun x => x.truth.value
  prevTs : ∀ x ∈ xs.getLast?, st.prevTs = x.ts
  flipStreak : st.flipStreak = (xs.rtakeWhile fun x => x.inverted).length

/-- **The step of suppression.** The guard restores an inverted reading and passes the others. The
run of inverted frames is short, so there is always room in the streak. -/
theorem Tracks.guard {s : Bool} {xs : List Shot} {y : Shot} (ht : Tracks st xs)
    (h : GlitchPattern cfg s (xs ++ [y])) : st.guard cfg y.received.value y.ts =
      (y.truth.value, ((xs ++ [y]).rtakeWhile fun x => x.inverted).length) := by
  have hy : HasSign s y.truth.value := h.sign y (by simp)
  rw [List.rtakeWhile_concat]
  cases hinv : y.inverted with
  | false =>
      have hrec : y.received = y.truth := by rw [Shot.received, hinv]; rfl
      rw [hrec]
      refine ChannelState.guard_of_not_isFlip ?_
      cases hlast : xs.getLast? with
      | none => simp [ChannelState.isFlip, ht.prev, hlast]
      | some x =>
          have hx : HasSign s x.truth.value :=
            h.sign x (List.mem_append_left _ (List.mem_of_getLast? hlast))
          exact ChannelState.isFlip_of_same_sign (by rw [ht.prev, hlast]; rfl) hx hy
  | true =>
      have hrec : y.received.value = y.truth.value.neg := by
        rw [Shot.received, hinv, if_pos rfl, DeviceReading.invert_value]
      obtain ⟨x, hlast⟩ : ∃ x, xs.getLast? = some x := by
        cases xs using List.reverseRecOn with
        | nil => exact absurd (h.first y rfl) (by simp [hinv])
        | append_singleton xs x => exact ⟨x, List.getLast?_concat⟩
      have hx : HasSign s x.truth.value :=
        h.sign x (List.mem_append_left _ (List.mem_of_getLast? hlast))
      have hdrift := (List.isChain_append.mp h.drift).2.2 x hlast y rfl
      have hflip : st.isFlip cfg y.received.value y.ts = true := by
        have hprev : st.prev = some x.truth.value := by rw [ht.prev, hlast]; rfl
        simp [ChannelState.isFlip, hprev, ChannelState.fresh, ht.prevTs x hlast, hdrift, hrec,
          DeviceReading.neg_mul_neg hy hx, h.magnitude y]
      have hlt : st.flipStreak + 1 < cfg.relatchFrames := by
        rw [ht.flipStreak]
        have := h.streak ((xs.rtakeWhile fun x => x.inverted) ++ [y]) ?_ ?_
        · simpa using this
        · obtain ⟨front, hfront⟩ := List.rtakeWhile_suffix (fun x : Shot => x.inverted) xs
          exact ⟨front, [], by rw [← List.append_assoc, hfront, List.append_nil]⟩
        · intro z hz
          rcases List.mem_append.mp hz with hz | hz
          · exact List.mem_rtakeWhile_imp hz
          · rw [List.mem_singleton.mp hz, hinv]
      rw [ChannelState.guard_of_isFlip hflip hlt, hrec, neg_neg, ht.flipStreak]
      simp

/-- A channel tracks the numeric frames it sees, as long as they are a pattern; by induction on the
frames from the last one on. -/
theorem Tracks.run {s : Bool} (hmedian : cfg.medianFilter = false) (samples : List Sample)
    (h : GlitchPattern cfg s (shots samples)) :
    Tracks (({} : ChannelState).run cfg (samples.map Sample.reading)) (shots samples) := by
  induction samples using List.reverseRecOn with
  | nil => exact ⟨rfl, nofun, rfl⟩
  | append_singleton samples x ih =>
      rw [List.map_append, List.map_singleton, ChannelState.run_append_singleton]
      cases x with
      | marker raw hraw ts =>
          have hshots : shots (samples ++ [.marker raw hraw ts]) = shots samples := by
            simp [shots]
          rw [hshots] at h ⊢
          have hparse : parse raw = none := if_pos hraw
          rw [Sample.reading, sanitizeEntry_of_marker hparse]
          exact ih h
      | shot y =>
          have hshots : shots (samples ++ [.shot y]) = shots samples ++ [y] := by simp [shots]
          rw [hshots] at h ⊢
          have hguard := (ih h.init).guard h
          obtain ⟨hprev, hts, hstreak⟩ := sanitizeEntry_of_numeric cfg
            (({} : ChannelState).run cfg (samples.map Sample.reading)) y.ts
            y.received.parse_text
          obtain ⟨hvalue, hcount⟩ := ChannelState.correct_of_medianOff
            (({} : ChannelState).run cfg (samples.map Sample.reading)) hmedian
            y.received.value y.ts
          refine ⟨?_, fun z hz => ?_, ?_⟩
          · rw [List.getLast?_concat, Option.map_some]
            exact hprev.trans (by rw [hvalue, hguard])
          · rw [List.getLast?_concat, Option.mem_some_iff] at hz
            exact hts.trans (congrArg Shot.ts hz)
          · exact hstreak.trans (by rw [hcount, hguard])

/-- **Glitches are suppressed.** Let the frames of a channel of a fresh sanitizer be error
markers and readings of one strict sign, with inverted ones among them that make a
`GlitchPattern`. In every numeric frame the value that goes to the quantizer and is stored is
the reading that was measured. -/
theorem sanitize_suppresses (config : SanitizeModel) (hmedian : config.medianFilter = false)
    {n i : ℕ} (hi : i < n) (frames : List Frame) (f : Frame) {s : Bool} (samples : List Sample)
    (truth : DeviceReading) (inverted : Bool)
    (hread : (LoadcellSanitizer.new config n).readings i frames = samples.map Sample.reading)
    (hlast : ((LoadcellSanitizer.new config n).run frames).entry i f =
      some (Shot.received ⟨truth, inverted, f.now⟩).text)
    (hp : GlitchPattern config s (shots samples ++ [⟨truth, inverted, f.now⟩])) :
    ∃ st st' : ChannelState,
      ((LoadcellSanitizer.new config n).run frames).channels[i]? = some st ∧
      ((LoadcellSanitizer.new config n).run (frames ++ [f])).channels[i]? = some st' ∧
      (st.correct config (Shot.received ⟨truth, inverted, f.now⟩).value f.now).1 = truth.value ∧
      st'.prev = some truth.value := by
  have hst := LoadcellSanitizer.run_new_getElem? config hi frames
  rw [hread] at hst
  have hguard := (Tracks.run hmedian samples hp.init).guard hp
  refine ⟨_, _, hst, LoadcellSanitizer.run_append_getElem? hst hlast, ?_⟩
  have hkept := (ChannelState.correct_of_medianOff
    (({} : ChannelState).run config (samples.map Sample.reading)) hmedian
    (Shot.received ⟨truth, inverted, f.now⟩).value f.now).1
  rw [hguard] at hkept
  refine ⟨hkept, ?_⟩
  have hprev := (sanitizeEntry_of_numeric config
    (({} : ChannelState).run config (samples.map Sample.reading)) f.now
    (Shot.received ⟨truth, inverted, f.now⟩).parse_text).1
  rwa [hkept] at hprev

/-- A channel at 962 g: an error marker, and then 963 g with the wrong sign. -/
theorem sanitize_suppresses_glitch : ∃ st' : ChannelState,
    ((LoadcellSanitizer.new {} 10).run ([⟨["+00962".toList], 0⟩, ⟨["EEEEEE".toList], 1⟩] ++
      [⟨["-00963".toList], 2⟩])).channels[0]? = some st' ∧ st'.prev = some 963 := by
  obtain ⟨st, st', -, hst', -, hprev⟩ := sanitize_suppresses {} rfl (n := 10) (i := 0)
    (by norm_num) [⟨["+00962".toList], 0⟩, ⟨["EEEEEE".toList], 1⟩] ⟨["-00963".toList], 2⟩
    (s := false)
    [.shot ⟨.integer false 962, false, 0⟩, .marker "EEEEEE".toList (by decide) 1]
    (.integer false 963) true (by decide +kernel) (by decide +kernel)
    ⟨by decide +kernel, by decide +kernel, by decide +kernel, by decide +kernel,
      fun l hl _ => lt_of_le_of_lt hl.length_le (by decide +kernel)⟩
  exact ⟨st', hst', hprev.trans (by decide +kernel)⟩

end IoBoard
