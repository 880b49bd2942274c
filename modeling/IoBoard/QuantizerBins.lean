import IoBoard.Quantizer
import IoBoard.Lib.Hysteresis

/-!
# The Bins of the Quantizer

What `_quantize` does to a sequence of values of one channel. In exact arithmetic it is
rounding with hysteresis: the results are near the values, and they do not flap. On integer
readings, with an integer step and hysteresis, Python's arithmetic is exact.

## Two readings of one function

`quantizeExact` is `_quantize` over an ordered field, with its branches and its update of the
bin; `ChannelState.quantize` is the same on floats. The statements about stability are about
the first, for every field, step and hysteresis: they are what the function is for. The
second half of the module says where floats compute the same. A quotient of integers is
rounded, and the rounded quotient plus one half is rounded again; but between the quotient and
the half-integer above it lies a number of the format (`exists_between`), so neither rounding
crosses an integer and the floor is the exact one.

Without integers this fails. With a step of `0.1` the products are not exact, and with a
fractional hysteresis the comparison of the radius is not.

## Main results

* `quantizer_stable`: **the results are nearby multiples of the step that do not flap**.
* `ChannelState.quantize_exact`: Python computes the exact results for integer readings.
-/

open PyFloat

namespace IoBoard

section Exact

variable {K : Type*} [Field K] [LinearOrder K] [FloorRing K] (step hysteresis : K)

/-- `_quantize` in exact arithmetic: the result, and the bin that the channel keeps. The branches
are those of the source, in its order. -/
def quantizeExact (prevBin : Option K) (value : K) : K × Option K :=
  if step ≤ 0 then (value, prevBin)
  else
    match prevBin.filter fun bin => |value - bin| ≤ step / 2 + hysteresis with
    | some bin => (bin, prevBin)
    | none =>
        let quantized := ⌊value / step + 1 / 2⌋ * step
        (quantized, some quantized)

/-- `_prev_bin` of a channel before the `t`-th of a sequence of values. A reset is the start of
another sequence. -/
def exactBin (values : ℕ → K) : ℕ → Option K
  | 0 => none
  | t + 1 => (quantizeExact step hysteresis (exactBin values t) (values t)).2

/-- What `_quantize` returns for the `t`-th of a sequence of values. -/
def exactResult (values : ℕ → K) (t : ℕ) : K :=
  (quantizeExact step hysteresis (exactBin step hysteresis values t) (values t)).1

/-- The `t`-th value changes the bin. The first value always does. -/
def BinChanges (values : ℕ → K) (t : ℕ) : Prop :=
  exactBin step hysteresis values (t + 1) ≠ exactBin step hysteresis values t

variable {step hysteresis}

/-- With a positive step the quantizer is rounding with hysteresis, whose radius is half a step and
the hysteresis. -/
theorem quantizeExact_eq_hold (hs : 0 < step) (prevBin : Option K) (value : K) :
    quantizeExact step hysteresis prevBin value =
      (Hysteresis.hold (Hysteresis.halfUp step) (step / 2 + hysteresis) prevBin value,
        some (Hysteresis.hold (Hysteresis.halfUp step) (step / 2 + hysteresis) prevBin value)) := by
  unfold quantizeExact Hysteresis.hold
  rw [if_neg (not_le.mpr hs)]
  cases hfilter : prevBin.filter fun bin => |value - bin| ≤ step / 2 + hysteresis with
  | none => rfl
  | some bin => rw [(Option.filter_eq_some_iff.mp hfilter).1]

theorem exactBin_eq_held (hs : 0 < step) (values : ℕ → K) (t : ℕ) :
    exactBin step hysteresis values t =
      Hysteresis.held (Hysteresis.halfUp step) (step / 2 + hysteresis) values t := by
  induction t with
  | zero => rfl
  | succ t ih => rw [exactBin, ih, quantizeExact_eq_hold hs, Hysteresis.held]

theorem exactResult_eq_output (hs : 0 < step) (values : ℕ → K) (t : ℕ) :
    exactResult step hysteresis values t =
      Hysteresis.output (Hysteresis.halfUp step) (step / 2 + hysteresis) values t := by
  rw [exactResult, exactBin_eq_held hs, quantizeExact_eq_hold hs, Hysteresis.output]

theorem binChanges_iff (hs : 0 < step) {values : ℕ → K} {t : ℕ} :
    BinChanges step hysteresis values t ↔
      Hysteresis.Changes (Hysteresis.halfUp step) (step / 2 + hysteresis) values t := by
  rw [BinChanges, exactBin_eq_held hs, exactBin_eq_held hs, Hysteresis.Changes]

variable [IsStrictOrderedRing K]

/-- **The quantizer.** Over any sequence of values of a channel every result is a multiple of
the step within half a step and the hysteresis of its value, and it is the bin that is kept.
When the bin changes, the new one is the multiple nearest to the value, the upper one on a tie.
A new bin holds as long as the values stay within the hysteresis of the one that changed it, and
values in an interval as wide as the hysteresis change the bin at most once. -/
theorem quantizer_stable {s h : K} (hs : 0 < s) (hh : 0 ≤ h) (v : ℕ → K) :
    (∀ t, (∃ n : ℤ, exactResult s h v t = n * s) ∧
      |v t - exactResult s h v t| ≤ s / 2 + h ∧
      exactBin s h v (t + 1) = some (exactResult s h v t)) ∧
    (∀ t, BinChanges s h v t → Hysteresis.IsNearestUp s (v t) (exactResult s h v t)) ∧
    (∀ t u, BinChanges s h v t → (∀ j, t < j → j ≤ u → |v j - v t| ≤ h) →
      ∀ j, t < j → j ≤ u → exactResult s h v j = exactResult s h v t ∧ ¬ BinChanges s h v j) ∧
    (∀ m n lo, (∀ j, m ≤ j → j < n → lo ≤ v j ∧ v j ≤ lo + h) →
      ∀ a b, m ≤ a → a < n → m ≤ b → b < n → BinChanges s h v a → BinChanges s h v b → a = b) := by
  have hround (y : K) : |y - Hysteresis.halfUp s y| + h ≤ s / 2 + h := by
    gcongr
    exact Hysteresis.abs_sub_halfUp_le hs y
  have hround' (y : K) : |y - Hysteresis.halfUp s y| ≤ s / 2 + h := by
    linarith [hround y]
  simp only [binChanges_iff hs, exactResult_eq_output hs, exactBin_eq_held hs]
  refine ⟨fun t => ⟨?_, Hysteresis.abs_sub_output_le hround' v t, rfl⟩, fun t ht => ?_,
    fun t u ht hnear j htj hju => ?_, fun m n lo hin a b hma han hmb hbn ha hb => ?_⟩
  · induction t with
    | zero => exact ⟨_, rfl⟩
    | succ t ih =>
        by_cases hchange :
            Hysteresis.Changes (Hysteresis.halfUp s) (s / 2 + h) v (t + 1)
        · rw [Hysteresis.output_of_changes hchange]
          exact ⟨_, rfl⟩
        · rw [Hysteresis.changes_succ, not_not] at hchange
          rwa [hchange]
  · rw [Hysteresis.output_of_changes ht]
    exact Hysteresis.isNearestUp_halfUp hs _
  · obtain ⟨hout, hkept⟩ := ht.stable hround hnear htj.le hju
    exact ⟨hout, hkept htj⟩
  · exact ha.unique hround hin hb hma han hmb hbn

/-- Readings that waver between 962 g and 963 g, around a boundary of the five-gram bins: with
a hysteresis of one gram the eighth does not change the bin. -/
theorem quantizer_stable_waver :
    ¬ BinChanges (5 : ℚ) 1 (fun t => if t % 2 = 0 then 962 else 963) 7 := by
  intro hchange
  have hfirst : BinChanges (5 : ℚ) 1 (fun t => if t % 2 = 0 then 962 else 963) 0 := by
    intro heq
    cases heq
  have hzero := (quantizer_stable (s := (5 : ℚ)) (h := 1) (by norm_num) (by norm_num) _).2.2.2
    0 8 962 (fun j _ _ => by split_ifs <;> norm_num) 0 7 (by norm_num) (by norm_num)
    (by norm_num) (by norm_num) hfirst hchange
  cases hzero

end Exact

/-! ### Python's arithmetic on integers -/

/-- The number of steps in a reading is small. -/
theorem abs_floor_le {k : ℕ} (hk : 0 < k) {z : ℤ} (hz : |z| ≤ 99999) :
    |⌊(z : ℚ) / k + 1 / 2⌋| ≤ 100000 := by
  have hdiv : |(z : ℚ) / k| ≤ 99999 := by
    rw [abs_div, Nat.abs_cast]
    exact (div_le_self (abs_nonneg _) (by exact_mod_cast hk)).trans (by exact_mod_cast hz)
  obtain ⟨hlo, hhi⟩ := abs_le.mp hdiv
  rw [abs_le]
  constructor
  · exact Int.le_floor.mpr (by push_cast; linarith)
  · exact Int.floor_le_iff.mpr (by push_cast; linarith)

/-- Between the quotient of two integers and the half-integer above it lies a number of the format,
also when one half is added. Rounding is monotone, and so it stays below that number. -/
theorem exists_between {k : ℕ} (hk : 0 < k) {z n : ℤ} (hz : |z| ≤ 99999)
    (hn : ⌊(z : ℚ) / k + 1 / 2⌋ = n) : ∃ c : ℚ, (z : ℚ) / k ≤ c ∧ c + 1 / 2 < n + 1 ∧
      Binary64.nearest c = c ∧ Binary64.nearest (c + 1 / 2) = c + 1 / 2 := by
  have hk0 : (0 : ℚ) < k := by exact_mod_cast hk
  have hz' : |(z : ℚ)| ≤ 99999 := by exact_mod_cast hz
  obtain ⟨hlo, hhi⟩ := Int.floor_eq_iff.mp hn
  rcases le_or_gt k (2 ^ 35) with hsmall | hlarge
  · -- the quotient is at least half a unit of its denominator below
    have hsmall' : (k : ℚ) ≤ 2 ^ 35 := by exact_mod_cast hsmall
    obtain ⟨hn1, hn2⟩ := abs_le.mp (hn ▸ abs_floor_le hk hz)
    have hgap : (z : ℚ) / k ≤ n + 1 / 2 - 1 / 2 ^ 36 := by
      have hlt : 2 * (z : ℚ) + k < 2 * (n + 1) * k := by
        have := mul_lt_mul_of_pos_right hhi hk0
        rw [add_mul, div_mul_cancel₀ _ hk0.ne'] at this
        linarith
      have hint : 2 * z + k + 1 ≤ 2 * (n + 1) * k := by
        have : 2 * z + k < 2 * (n + 1) * k := by exact_mod_cast hlt
        omega
      have hle : 2 * (z : ℚ) + k + 1 ≤ 2 * (n + 1) * k := by exact_mod_cast hint
      rw [div_le_iff₀ hk0]
      have : 1 / 2 ^ 36 * (k : ℚ) ≤ 1 / 2 := by linarith
      linarith
    refine ⟨n + 1 / 2 - 1 / 2 ^ 36, hgap, by linarith, ?_, ?_⟩
    · refine Binary64.nearest_eq_self (m := (2 * n + 1) * 2 ^ 35 - 1) (e := -36) ?_ ?_
        (by norm_num)
      · push_cast
        norm_num
        ring
      · rw [abs_lt]
        omega
    · refine Binary64.nearest_eq_self (m := (2 * n + 2) * 2 ^ 35 - 1) (e := -36) ?_ ?_
        (by norm_num)
      · push_cast
        norm_num
        ring
      · rw [abs_lt]
        omega
  · have hlarge' : (2 ^ 35 : ℚ) < k := by exact_mod_cast hlarge
    have hdiv : |(z : ℚ) / k| ≤ 1 / 4 := by
      rw [abs_div, Nat.abs_cast, div_le_iff₀ hk0]
      linarith
    obtain ⟨h1, h2⟩ := abs_le.mp hdiv
    have hn0 : 0 ≤ n := by
      rw [← hn]
      exact Int.floor_nonneg.mpr (by linarith)
    have hn0' : (0 : ℚ) ≤ n := by exact_mod_cast hn0
    exact ⟨1 / 4, h2, by linarith, by decide +kernel, by decide +kernel⟩

/-- Dividing an integer by an integer step and adding one half is close enough to the exact
result for the floor to be the exact one. -/
theorem floor_exact {k : ℕ} (hk : 0 < k) {v d : {q : ℚ // IsDouble q}} {z : ℤ}
    (hd : (d : ℚ) = k) (hv : (v : ℚ) = z) (hz : |z| ≤ 99999) :
    (((fin v).div (fin d)).add (ofRat (1 / 2))).floor? = some ⌊(z : ℚ) / k + 1 / 2⌋ := by
  have hz' : |(z : ℚ)| ≤ 99999 := by exact_mod_cast hz
  have hdiv : |(v : ℚ) / d| ≤ (99999 : ℤ) := by
    rw [hv, hd, abs_div, Nat.abs_cast]
    exact (div_le_self (abs_nonneg _) (by exact_mod_cast hk)).trans hz'
  obtain ⟨x, hx, hxnear, hxle⟩ := exists_ofRat_eq_fin (isDouble_intCast (by norm_num)) hdiv
  have hsum : |(x : ℚ) + 1 / 2| ≤ (100000 : ℤ) := by
    push_cast at hxle ⊢
    rw [abs_le] at hxle ⊢
    constructor <;> linarith
  obtain ⟨y, hy, hynear, -⟩ := exists_ofRat_eq_fin (isDouble_intCast (by norm_num)) hsum
  have hhalf : ofRat (1 / 2) = fin ⟨1 / 2, by decide +kernel⟩ := ofRat_of_isDouble _
  rw [div_fin, hx, hhalf, add_fin, hy, floor?, Option.some.injEq]
  generalize hn : ⌊(z : ℚ) / k + 1 / 2⌋ = n
  obtain ⟨c, hc, hcn, hc1, hc2⟩ := exists_between hk hz hn
  obtain ⟨hlo, -⟩ := Int.floor_eq_iff.mp hn
  obtain ⟨hn1, hn2⟩ := abs_le.mp (hn ▸ abs_floor_le hk hz)
  rw [hv, hd] at hxnear
  refine Int.floor_eq_iff.mpr ⟨?_, ?_⟩
  · have hhalf' : Binary64.nearest (n - 1 / 2) = n - 1 / 2 := by
      refine Binary64.nearest_eq_self (m := 2 * n - 1) (e := -1) ?_ ?_ (by norm_num)
      · push_cast
        norm_num
        ring
      · rw [abs_lt]
        omega
    have hxn : (n : ℚ) - 1 / 2 ≤ x := by
      rw [hxnear, ← hhalf']
      exact Binary64.nearest_mono (by linarith)
    calc
      (n : ℚ) = Binary64.nearest n := (Binary64.nearest_intCast (by rw [abs_lt]; omega)).symm
      _ ≤ Binary64.nearest (x + 1 / 2) := Binary64.nearest_mono (by linarith)
      _ = y := hynear.symm
  · have hxc : (x : ℚ) ≤ c := by
      rw [hxnear, ← hc1]
      exact Binary64.nearest_mono hc
    calc
      (y : ℚ) = Binary64.nearest (x + 1 / 2) := hynear
      _ ≤ Binary64.nearest (c + 1 / 2) := Binary64.nearest_mono (by linarith)
      _ = c + 1 / 2 := hc2
      _ < n + 1 := hcn

/-- A number with at most 53 bits and one binary place is not rounded. -/
theorem ofRat_half {m : ℤ} (hm : |m| < 2 ^ 53) :
    ∃ d : {q : ℚ // IsDouble q}, ofRat (m / 2) = fin d ∧ (d : ℚ) = m / 2 := by
  have hnear : Binary64.nearest ((m : ℚ) / 2) = m / 2 :=
    Binary64.nearest_eq_self (m := m) (e := -1) (by norm_num; ring) hm (by norm_num)
  have hlt : |(m : ℚ) / 2| < 2 ^ 1024 := by
    rw [abs_div, abs_two]
    calc
      |(m : ℚ)| / 2 ≤ |(m : ℚ)| := half_le_self (abs_nonneg _)
      _ < 2 ^ 53 := by exact_mod_cast hm
      _ ≤ 2 ^ 1024 := pow_le_pow_right₀ one_le_two (by norm_num)
  exact ⟨⟨_, hnear, hlt⟩, ofRat_of_isDouble _, rfl⟩

/-- The distance of an integer from an integer bin is not rounded. -/
theorem sub_exact {z n : ℤ} (hz : |z| < 2 ^ 52) (hn : |n| < 2 ^ 52) :
    IsBin ((ofRat z).sub (ofRat n)) (z - n) := by
  obtain ⟨hz1, hz2⟩ := abs_lt.mp hz
  obtain ⟨hn1, hn2⟩ := abs_lt.mp hn
  obtain ⟨x, hx, hxz⟩ := isBin_ofRat (m := z) (by rw [abs_lt]; omega)
  obtain ⟨y, hy, hyn⟩ := isBin_ofRat (m := n) (by rw [abs_lt]; omega)
  rw [hx, hy, sub_fin, hxz, hyn, ← Int.cast_sub]
  exact isBin_ofRat (by rw [abs_lt]; omega)

/-- Nor is the distance that a bin holds. -/
theorem radius_exact {k h : ℕ} (hk : IsStep cfg k)
    (hh : IsBin cfg.quantizeHysteresisGrams h) (hkh : k + 2 * h < 2 ^ 53) :
    ∃ r : {q : ℚ // IsDouble q}, (r : ℚ) = k / 2 + h ∧
      (cfg.quantizeGrams.div 2).add cfg.quantizeHysteresisGrams = fin r := by
  obtain ⟨-, d, hstep, hd⟩ := hk
  obtain ⟨e, hhyst, he⟩ := hh
  obtain ⟨two, htwo, h2⟩ := isBin_ofRat (m := 2) (by norm_num)
  obtain ⟨c, hc, hck⟩ := ofRat_half (m := k) (by rw [Nat.abs_cast]; omega)
  obtain ⟨r, hr, hrk⟩ := ofRat_half (m := k + 2 * h) (by rw [abs_lt]; omega)
  have hhalf : cfg.quantizeGrams.div 2 = fin c := by
    rw [hstep, show (2 : PyFloat) = fin two from htwo, div_fin, hd, h2, ← hc]
    push_cast
    rfl
  have hsum : ((k + 2 * h : ℤ) : ℚ) / 2 = k / 2 + h := by
    push_cast
    ring
  rw [hsum] at hr hrk
  refine ⟨r, hrk, ?_⟩
  rw [hhalf, hhyst, add_fin, hck, he, ← hr]
  push_cast
  rfl

/-- Python compares the distance of an integer from an integer bin exactly. -/
theorem holdsBin_exact {k h : ℕ} (hk : IsStep cfg k)
    (hh : IsBin cfg.quantizeHysteresisGrams h) (hkh : k + 2 * h < 2 ^ 53) {z n : ℤ}
    (hz : |z| < 2 ^ 52) (hn : |n| < 2 ^ 52) :
    holdsBin cfg (ofRat n) (ofRat z) = decide (|(z : ℚ) - n| ≤ k / 2 + h) := by
  obtain ⟨w, hdist, hw⟩ := sub_exact hz hn
  obtain ⟨r, hr, hradius⟩ := radius_exact hk hh hkh
  have hle : (fin w).abs.leB (fin r) = decide (|(w : ℚ)| ≤ r) := leB_fin
  rw [holdsBin, hdist, hradius, hle, decide_eq_decide, hw, hr, Int.cast_sub]

/-- Python rounds an integer exactly. -/
theorem halfUp_exact {k : ℕ} (hk : IsStep cfg k) {z : ℤ}
    (hz : |z| ≤ 99999) :
    halfUp cfg (ofRat z) = .ok (ofRat (⌊(z : ℚ) / k + 1 / 2⌋ * k)) := by
  obtain ⟨hpos, d, hstep, hd⟩ := hk
  obtain ⟨hz1, hz2⟩ := abs_le.mp hz
  obtain ⟨x, hx, hxz⟩ := isBin_ofRat (m := z) (by rw [abs_lt]; omega)
  obtain ⟨hn1, hn2⟩ := abs_le.mp (abs_floor_le hpos hz)
  obtain ⟨y, hy, hyn⟩ := isBin_ofRat (m := ⌊(z : ℚ) / k + 1 / 2⌋) (by rw [abs_lt]; omega)
  unfold halfUp
  rw [hstep, hx]
  dsimp only
  rw [floor_exact hpos hd hxz hz]
  dsimp only
  rw [hy, mul_fin, hyn, hd]
  push_cast
  rfl

/-- The exact bins of integers are integers. -/
theorem exactBin_intCast {k : ℕ} (hk : 0 < k) (h : ℚ) (z : ℕ → ℤ) (hz : ∀ t, |z t| ≤ 99999)
    (t : ℕ) : ∀ b ∈ exactBin (k : ℚ) h (fun t => (z t : ℚ)) t,
      ∃ n : ℤ, b = n ∧ |n| ≤ 100000 * k := by
  have hk0 : (0 : ℚ) < k := by exact_mod_cast hk
  induction t with
  | zero => exact fun b hb => nomatch hb
  | succ t ih =>
      intro b hb
      rw [exactBin, quantizeExact_eq_hold hk0, Option.mem_some_iff] at hb
      subst hb
      rcases Hysteresis.hold_cases (Hysteresis.halfUp (k : ℚ)) (k / 2 + h)
        (exactBin (k : ℚ) h (fun t => (z t : ℚ)) t) (z t) with ⟨y, hy, -, hout⟩ | ⟨-, hout⟩
      · rw [hout]
        exact ih y hy
      · refine ⟨⌊(z t : ℚ) / k + 1 / 2⌋ * k, ?_, ?_⟩
        · rw [hout, Hysteresis.halfUp]
          push_cast
          rfl
        · rw [abs_mul, Nat.abs_cast]
          gcongr
          exact abs_floor_le hk (hz t)

/-- **Python computes the exact results for integers.** With an integer step and hysteresis, feeding
`_quantize` a sequence of integer readings returns the results of exact arithmetic and keeps
their bins, whatever else the channel stores. The step and the hysteresis are small enough for
their sums and products to be exact. -/
theorem ChannelState.quantize_exact {k h : ℕ} (hk : IsStep cfg k) (hk' : k < 2 ^ 35)
    (hh : IsBin cfg.quantizeHysteresisGrams h) (hkh : k + 2 * h < 2 ^ 53) (z : ℕ → ℤ)
    (hz : ∀ t, |z t| ≤ 99999) (st : ChannelState) (t : ℕ) :
    ({ st with prevBin := (exactBin (k : ℚ) h (fun t => (z t : ℚ)) t).map ofRat }).quantize cfg
        (ofRat (z t)) =
      .ok (ofRat (exactResult (k : ℚ) h (fun t => (z t : ℚ)) t),
        { st with prevBin := (exactBin (k : ℚ) h (fun t => (z t : ℚ)) (t + 1)).map ofRat }) := by
  have hk0 : ¬ (k : ℚ) ≤ 0 := not_le.mpr (by exact_mod_cast hk.1)
  have hbins := exactBin_intCast hk.1 h z hz t
  rw [exactResult, exactBin]
  generalize exactBin (k : ℚ) h (fun t => (z t : ℚ)) t = bin at hbins
  unfold quantize quantizeExact
  rw [if_neg hk.not_leB_zero, if_neg hk0]
  cases bin with
  | none => simp [halfUp_exact hk (hz t), Except.map]
  | some b =>
      obtain ⟨n, rfl, hn⟩ := hbins b rfl
      have hholds := holdsBin_exact hk hh hkh ((hz t).trans_lt (by norm_num))
        (hn.trans_lt (by omega))
      by_cases hnear : |(z t : ℚ) - n| ≤ k / 2 + h
      · simp [Option.filter, hholds, hnear]
      · simp [Option.filter, hholds, hnear, halfUp_exact hk (hz t), Except.map]

end IoBoard
