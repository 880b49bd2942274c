import IoBoard.QuantizerBins
import IoBoard.SanitizerTotal

/-!
# Canonical Output and the Health Check

When the output of the sanitizer is what the health check takes for a healthy frame. `sanitize`
returns the raw text whenever the quantized value equals the reading, so a text that is not the
canonical rendering of its own value goes out as it came when it meets a bin that it is equal
to. There are two kinds of such texts: the minus zero `-00000`, and the texts with a decimal
point, which the health check's pattern refuses.

## The condition

The theorem is about a set of readings and all frames over it, after all frames over it. A
text that is not canonical can go out only where its value is a bin, and all bins are multiples
of the step: if no such reading of the set is a multiple of the step, everything that goes out
is canonical. If one is, it is its own bin on a fresh channel, and the very first frame shows
it. With the default step of five grams these are `-00000`, `+000.0`, `+005.0` and so on: every
fifth whole number of grams that fractional firmware reports.

## Main results

* `CanonicalOutput`: the output is canonical, and the health check agrees with it.
* `canonicalOutput_iff`: **every output over the set is canonical exactly when no reading of the
  set whose text is not canonical is a multiple of the step**.
-/

open PyFloat

namespace IoBoard

variable {cfg : SanitizeModel}

/-- The output of `s` for a frame is canonical: every reading comes out as the canonical rendering
of the channel's quantized value. And the health check agrees with it: it is unhealthy only for
an error marker or a value out of range.

The quantized value is read off the channel after the frame, where it is the bin that is held. -/
def CanonicalOutput (cfg : HealthModel) (s : LoadcellSanitizer) (entries : List DeviceEntry)
    (now : PyFloat) : Prop :=
  ∃ s' out, s.sanitize (entries.map DeviceEntry.text) now = (s', .ok out) ∧
    (∀ (j : ℕ) (r : DeviceReading), entries[j]? = some (.reading r) → ∃ st b m,
      s'.channels[j]? = some st ∧ st.prevBin = some b ∧ IsBin b m ∧
        out[j]? = some (canonical m)) ∧
    (loadcellsStatus cfg (.ok out) = .ok .unhealthy → ∃ x ∈ out, x ∈ errorValues ∨
      ∃ n, Literal.toInt x = some n ∧ ¬ (cfg.loadcellMinGrams ≤ n ∧ n ≤ cfg.loadcellMaxGrams))

/-- The error markers and the readings of `A` are the only entries; the set may have any size. -/
def EntriesOver (A : Set DeviceReading) (entries : List DeviceEntry) : Prop :=
  ∀ r, .reading r ∈ entries → r ∈ A

/-- A frame whose readings come out canonically is unhealthy only for a reason. -/
theorem unhealthy_reason {cfg : HealthModel} {entries : List DeviceEntry} {out : List Str}
    (hlen : out.length = entries.length)
    (hmarker : ∀ (j : ℕ) (e : DeviceEntry), entries[j]? = some e → e.text ∈ errorValues →
      out[j]? = some e.text)
    (hreading : ∀ (j : ℕ) (r : DeviceReading), entries[j]? = some (.reading r) →
      ∃ m, out[j]? = some (canonical m))
    (h : loadcellsStatus cfg (.ok out) = .ok .unhealthy) : ∃ x ∈ out, x ∈ errorValues ∨
      ∃ n, Literal.toInt x = some n ∧
        ¬ (cfg.loadcellMinGrams ≤ n ∧ n ≤ cfg.loadcellMaxGrams) := by
  obtain ⟨x, hx, hbad⟩ := exists_of_unhealthy h
  obtain ⟨j, hj⟩ := List.mem_iff_getElem?.mp hx
  obtain ⟨e, he⟩ : ∃ e, entries[j]? = some e := by
    have hlt : j < out.length := (List.getElem?_eq_some_iff.mp hj).1
    exact ⟨entries.get ⟨j, hlen ▸ hlt⟩, List.getElem?_eq_getElem _⟩
  refine ⟨x, hx, ?_⟩
  obtain ⟨r, rfl⟩ | hmark := e.reading_or_marker
  · obtain ⟨m, hm⟩ := hreading j r he
    obtain rfl := Option.some.inj (hj.symm.trans hm)
    obtain ⟨n, hn⟩ := exists_toInt_canonical m
    have hrange := hbad (matchesLoadcellPattern_canonical m)
    refine .inr ⟨n, hn, ?_⟩
    simpa [inLoadcellRange, hn] using hrange
  · obtain rfl := Option.some.inj (hj.symm.trans (hmarker j e he hmark))
    exact .inl hmark

/-! ### Multiples of the step -/

/-- An integer of the format is the rounded one. -/
theorem IsBin.eq_ofRat {x : PyFloat} {m : ℤ} (h : IsBin x m) (hm : |m| < 2 ^ 53) :
    x = ofRat m := by
  obtain ⟨d, rfl, hd⟩ := h
  obtain ⟨e, he, hem⟩ := isBin_ofRat hm
  rw [he, fin.injEq, Subtype.ext_iff, hd, hem]

/-- A reading whose text is not canonical and whose value is a multiple of the step is a
multiple of the step. -/
theorem DeviceReading.exists_magnitude_eq {r : DeviceReading} (hc : ¬ r.IsCanonical) {k : ℕ}
    {m : ℤ} (hm : IsBin r.value (m * k)) : ∃ z : ℕ, r.magnitude = z * k := by
  cases r with
  | integer negative grams =>
      obtain ⟨rfl, hzero⟩ : negative = true ∧ (grams : ℕ) = 0 := by
        simpa [IsCanonical] using hc
      exact ⟨0, by simp [magnitude, hzero]⟩
  | tenths negative grams tenth =>
      obtain ⟨d, hd, hdm⟩ := hm
      have habs : |(d : ℚ)| = ((m.natAbs * k : ℕ) : ℤ) := by
        rw [hdm, ← Int.cast_abs, abs_mul, Nat.abs_cast, Int.abs_eq_natAbs]
        norm_cast
      have hwhole : tenth = 0 := by
        refine (isWhole_iff hd).mpr ?_
        rw [habs, Int.floor_intCast]
      subst hwhole
      have hround : Binary64.nearest ((grams : ℕ) : ℤ) = ((grams : ℕ) : ℤ) :=
        Binary64.nearest_intCast (by rw [abs_lt]; omega)
      have hmag : (tenths negative grams 0).magnitude = ((grams : ℕ) : ℤ) := by simp [magnitude]
      refine ⟨m.natAbs, ?_⟩
      rw [abs_value hd, hmag, hround] at habs
      rw [hmag, habs, Int.cast_natCast, Nat.cast_mul]

/-- A reading that is a multiple of the step is that multiple, with its sign. -/
theorem DeviceReading.exists_isBin {r : DeviceReading} {k z : ℕ} (hz : r.magnitude = z * k) :
    ∃ m : ℤ, IsBin r.value (m * k) ∧ |m * k| ≤ 99999 := by
  obtain ⟨d, hd, hdm, -⟩ := r.exists_value_eq_fin
  have hle : ((z * k : ℕ) : ℤ) ≤ 99999 := by
    have := r.abs_magnitude_le
    rw [hz, abs_of_nonneg (by positivity)] at this
    exact_mod_cast this
  have hround : Binary64.nearest r.magnitude = ((z * k : ℕ) : ℤ) := by
    rw [hz, show (z * k : ℚ) = ((z * k : ℕ) : ℤ) by push_cast; rfl]
    exact Binary64.nearest_intCast (by rw [Nat.abs_cast]; omega)
  rw [hround] at hdm
  cases hneg : r.negative with
  | false =>
      refine ⟨z, ⟨d, hd, ?_⟩, by rw [← Nat.cast_mul, Nat.abs_cast]; exact hle⟩
      simpa [hneg] using hdm
  | true =>
      refine ⟨-z, ⟨d, hd, ?_⟩, ?_⟩
      · simpa [hneg] using hdm
      · simpa [abs_mul] using hle

/-- A multiple of the step is its own bin on a fresh channel, so its raw text goes out. -/
theorem quantize_fresh {k : ℕ} (hk : IsStep cfg k) {x ts : PyFloat} {m : ℤ}
    (hx : IsBin x (m * k)) (hle : |m * (k : ℤ)| ≤ 99999) {b : PyFloat} {st' : ChannelState}
    (hq : (({} : ChannelState).correct cfg x ts).2.quantize cfg
      (({} : ChannelState).correct cfg x ts).1 = .ok (b, st')) : b = x := by
  obtain ⟨hvalue, hbin⟩ := ChannelState.correct_fresh cfg x ts
  have hk0 : (k : ℚ) ≠ 0 := by exact_mod_cast hk.1.ne'
  have hfloor : ⌊((m * k : ℤ) : ℚ) / k + 1 / 2⌋ = m := by
    rw [Int.cast_mul, Int.cast_natCast, mul_div_cancel_right₀ _ hk0, Int.floor_intCast_add]
    norm_num
  have hup : halfUp cfg x = .ok x := by
    have heq : x = ofRat (m * k : ℤ) := hx.eq_ofRat (by omega)
    have hexact := halfUp_exact hk hle
    rw [hfloor, ← heq] at hexact
    rw [hexact, heq, Int.cast_mul, Int.cast_natCast]
  rw [hvalue, ChannelState.quantize, if_neg hk.not_leB_zero, hbin] at hq
  dsimp only [Option.filter] at hq
  rw [hup] at hq
  exact (Prod.mk.inj (Except.ok.inj hq)).1.symm

/-! ### All frames over a set of readings -/

/-- **Canonical output.** Over a set of readings, after any frames of them and error markers,
the output for every frame of them is canonical, and the health check agrees with it, exactly
when no reading of the set whose text is not canonical is a multiple of the step. -/
theorem canonicalOutput_iff (config : SanitizeModel) {k : ℕ} (hk : IsStep config k) {n : ℕ}
    (hn : 0 < n) (A : Set DeviceReading) (health : HealthModel) :
    (∀ frames : List (List DeviceEntry × PyFloat), (∀ f ∈ frames, EntriesOver A f.1) →
      ∀ (entries : List DeviceEntry) (now : PyFloat), EntriesOver A entries →
        entries.length ≤ n →
        CanonicalOutput health (afterFrames config n frames) entries now) ↔
      ∀ r ∈ A, ¬ r.IsCanonical → ∀ z : ℕ, r.magnitude ≠ z * k := by
  constructor
  · -- a multiple of the step is its own bin in the first frame
    intro hall r hr hnon z hz
    obtain ⟨m, hm, hle⟩ := DeviceReading.exists_isBin hz
    have hover : EntriesOver A [.reading r] := by
      intro r' hr'
      obtain rfl : r' = r := by simpa using hr'
      exact hr
    obtain ⟨s', out, heq, hcanonical, -⟩ := hall [] (List.forall_mem_nil _) [.reading r] 1 hover hn
    obtain ⟨s'', out', heq', -, -, hget⟩ :=
      exists_sanitize_entries hk (n := n) [] [.reading r] 1 hn
    obtain ⟨rfl, hout⟩ := Prod.mk.inj (heq.symm.trans heq')
    obtain rfl := Except.ok.inj hout
    obtain ⟨st, b, m', st', hst, hq, hst', hprev, hbin, ho⟩ := hget 0 r rfl
    obtain rfl : st = {} :=
      List.eq_of_mem_replicate (List.mem_of_getElem? hst)
    obtain rfl := quantize_fresh hk hm hle hq
    obtain ⟨st'', b', m'', hst'', hprev', hbin', ho'⟩ := hcanonical 0 r rfl
    obtain rfl := Option.some.inj (hst'.symm.trans hst'')
    obtain rfl := Option.some.inj (hprev.symm.trans hprev')
    rw [if_pos rfl] at ho
    exact DeviceReading.text_ne_canonical hnon hbin' (Option.some.inj (ho.symm.trans ho'))
  · intro hcond frames hframes entries now hentries hlen
    obtain ⟨s', out, heq, hout, hmarker, hget⟩ :=
      exists_sanitize_entries hk frames entries now hlen
    have hcanonical : ∀ (j : ℕ) (r : DeviceReading), entries[j]? = some (.reading r) →
        ∃ st b m, s'.channels[j]? = some st ∧ st.prevBin = some b ∧ IsBin b m ∧
          out[j]? = some (canonical m) := by
      intro j r hr
      obtain ⟨-, b, m, st', -, -, hst', hprev, hbin, ho⟩ := hget j r hr
      refine ⟨st', b, m * k, hst', hprev, hbin, ho.trans (congrArg some ?_)⟩
      by_cases hb : b = r.value
      · rw [if_pos hb]
        rw [hb] at hbin
        have hc : r.IsCanonical := by
          by_contra hnon
          obtain ⟨z, hz⟩ := DeviceReading.exists_magnitude_eq hnon hbin
          exact hcond r (hentries r (List.mem_of_getElem? hr)) hnon z hz
        exact DeviceReading.text_eq_canonical hc hbin
      · rw [if_neg hb]
    refine ⟨s', out, heq, hcanonical, unhealthy_reason hout hmarker fun j r hr => ?_⟩
    obtain ⟨-, -, m, -, -, -, ho⟩ := hcanonical j r hr
    exact ⟨m, ho⟩

/-- 24 g with a decimal point, which is no multiple of the default step of 5 g, comes out
canonically after 25 g without one. -/
theorem canonicalOutput_iff_fractional :
    CanonicalOutput {} (afterFrames {} 10 [([.reading (.integer false 25)], 0)])
      [.reading (.tenths false 24 0)] 1 := by
  refine (canonicalOutput_iff {} isStep_default (n := 10) (by norm_num)
    {.integer false 25, .tenths false 24 0} {}).mpr ?_ _ ?_ _ _ ?_ (by norm_num)
  · rintro r (rfl | rfl) hnon z hz
    · exact hnon fun hneg => by cases hneg
    · have hmag : (DeviceReading.tenths false 24 0).magnitude = ((24 : ℕ) : ℚ) := by
        decide +kernel
      rw [hmag, ← Nat.cast_mul, Nat.cast_inj] at hz
      omega
  · rintro f hf r hr
    obtain rfl := List.mem_singleton.mp hf
    obtain rfl : r = .integer false 25 := by simpa using hr
    exact .inl rfl
  · intro r hr
    obtain rfl : r = .tenths false 24 0 := by simpa using hr
    exact .inr rfl

/-- A minus zero comes out as it went in, and so does 25 g with a decimal point, which the
health check then finds unhealthy. -/
theorem not_canonicalOutput :
    ¬ CanonicalOutput {} (.new {} 10) [.reading (.integer true 0)] 0 ∧
    ¬ CanonicalOutput {} (.new {} 10) [.reading (.tenths false 25 0)] 0 := by
  constructor
  · rintro ⟨s', out, heq, hcanonical, -⟩
    have hout : ((LoadcellSanitizer.new {} 10).sanitize
        [DeviceEntry.text (.reading (.integer true 0))] 0).2 = .ok ["-00000".toList] := by
      decide +kernel
    have hbin : ((LoadcellSanitizer.new {} 10).sanitize
        [DeviceEntry.text (.reading (.integer true 0))] 0).1.channels[0]?.bind
          ChannelState.prevBin = some (DeviceReading.integer true 0).value := by
      decide +kernel
    obtain ⟨st, b, m, hst, hprev, hm, hcan⟩ := hcanonical 0 _ rfl
    rw [List.map_singleton] at heq
    rw [heq] at hout hbin
    obtain rfl := Except.ok.inj hout
    rw [hst, Option.bind_some, hprev] at hbin
    obtain rfl := Option.some.inj hbin
    have hraw : DeviceReading.text (.integer true 0) = "-00000".toList := by decide +kernel
    exact DeviceReading.text_ne_canonical (by simp [DeviceReading.IsCanonical]) hm
      (hraw.trans (Option.some.inj hcan))
  · rintro ⟨s', out, heq, -, hhealth⟩
    have hout : ((LoadcellSanitizer.new {} 10).sanitize
        [DeviceEntry.text (.reading (.tenths false 25 0))] 0).2 = .ok ["+025.0".toList] := by
      decide +kernel
    rw [List.map_singleton] at heq
    rw [heq] at hout
    obtain rfl := Except.ok.inj hout
    obtain ⟨x, hx, hreason⟩ := hhealth (by decide +kernel)
    obtain rfl := List.mem_singleton.mp hx
    obtain hmarker | ⟨n, hn, -⟩ := hreason
    · exact absurd hmarker (by decide)
    · have hnone : Literal.toInt "+025.0".toList = none := by decide +kernel
      cases hnone.symm.trans hn

end IoBoard
