import IoBoard.SanitizerTotal

/-!
# Readings that Raise

Which numbers the sanitizer renders and which it raises on, whatever the settings: the quantizer
raises `OverflowError` or `ValueError` on an infinity or NaN and on what overflows when it is
rounded to the step, and the renderer on what is not finite.

## Two conditions

`RendersFresh` is the exact condition for a fresh channel, which has no history: with the
quantizer on, the number can be rounded to the step; with the quantizer off, everything but NaN
comes out as it went in. `Renders` is stronger, and holds of a reading for every channel that
has only seen readings like it: the sign guard may turn the number over, so both signs have to be
rendered, and a median of such readings is one of them. It is what a run can keep
(`RendersChannel`).

Whatever is raised is an exception of Python and not of the service, so callers that catch the
errors of the service do not catch it.

## Numbers

Readings are `PyFloat`s: finite numbers, infinities and NaN, with the comparisons of Python.
A text that is a number for `float` may be an infinity, and with an exponent it may be too large
to be rounded to the step.

## Main results

* `RendersChannel.sanitizeEntry`: readings that are rendered in both signs are rendered on every
  channel that has seen no others.
* `sanitizeEntry_fresh_iff`: a fresh channel raises on all readings but those that it renders as
  they come.
* `sanitizeEntries_eq_ok_iff`: a frame raises when one of its entries does.
-/

open PyFloat

namespace IoBoard

variable {cfg : SanitizeModel} {st : ChannelState}

/-! ### Readings that are rendered -/

/-- A number that is rendered with either sign. A quantizer that is off lets an infinity through
while no other layer touches it. -/
structure Renders (cfg : SanitizeModel) (v : PyFloat) : Prop where
  off : cfg.quantizeGrams.leB 0 = true → (∃ d, v = fin d) ∨
    v ≠ nan ∧ cfg.medianFilter = false ∧ (inf false).leB cfg.magnitudeToleranceGrams = false
  on : ¬ cfg.quantizeGrams.leB 0 = true →
    (∃ d, halfUp cfg v = .ok (fin d)) ∧ ∃ d, halfUp cfg v.neg = .ok (fin d)

theorem Renders.neg {v : PyFloat} (h : Renders cfg v) : Renders cfg v.neg where
  off hoff := by
    refine (h.off hoff).imp ?_ ?_
    · rintro ⟨d, rfl⟩
      exact ⟨_, rfl⟩
    · rintro ⟨hnan, hlayers⟩
      refine ⟨fun hneg => hnan ?_, hlayers⟩
      rw [← PyFloat.neg_neg v, hneg]
      rfl
  on hon := by
    rw [PyFloat.neg_neg]
    exact (h.on hon).symm

/-- An infinity differs from every number by an infinity or NaN. -/
theorem abs_inf_sub (s : Bool) (x : PyFloat) :
    ((inf s).abs.sub x.abs).abs = inf false ∨ ((inf s).abs.sub x.abs).abs = nan := by
  cases x with
  | fin => exact .inl rfl
  | inf | nan => exact .inr rfl

/-- An infinity passes the sign guard unless the tolerance is infinite too. -/
theorem ChannelState.isFlip_inf (st : ChannelState)
    (htol : (inf false).leB cfg.magnitudeToleranceGrams = false) (s : Bool) (ts : PyFloat) :
    st.isFlip cfg (inf s) ts = false := by
  rw [isFlip]
  cases st.prev with
  | none => rfl
  | some p =>
      have hfar : ((inf s).abs.sub p.abs).abs.leB cfg.magnitudeToleranceGrams = false := by
        obtain h | h := abs_inf_sub s p
        · rw [h, htol]
        · rw [h]
          rfl
      dsimp only
      rw [hfar, Bool.and_false]

/-- What a channel keeps while its readings are rendered: a window of such readings, and a
finite bin. -/
structure RendersChannel (cfg : SanitizeModel) (st : ChannelState) : Prop where
  window : ∀ x ∈ st.window, Renders cfg x
  bin : ∀ b, st.prevBin = some b → ∃ d, b = fin d

theorem rendersChannel_new : RendersChannel cfg {} :=
  ⟨fun _ hx => (nomatch hx), fun _ hb => (nomatch hb)⟩

/-- With the quantizer off, what is stored is finite or the reading itself. -/
theorem RendersChannel.correct_of_off (h : RendersChannel cfg st) {v : PyFloat}
    (hv : Renders cfg v) (hoff : cfg.quantizeGrams.leB 0 = true) (ts : PyFloat) :
    (∃ d, (st.correct cfg v ts).1 = fin d) ∨ v ≠ nan ∧ (st.correct cfg v ts).1 = v := by
  by_cases hlayers : cfg.medianFilter = false ∧
      (inf false).leB cfg.magnitudeToleranceGrams = false
  · obtain ⟨hmedian, htol⟩ := hlayers
    rw [(ChannelState.correct_of_medianOff st hmedian v ts).1]
    cases v with
    | nan =>
        obtain ⟨d, hd⟩ | ⟨hnan, -⟩ := hv.off hoff
        · cases hd
        · exact absurd rfl hnan
    | inf s =>
        rw [ChannelState.guard_of_not_isFlip (st.isFlip_inf htol s ts)]
        exact .inr ⟨nofun, rfl⟩
    | fin d =>
        refine .inl ?_
        rw [ChannelState.guard]
        split_ifs
        · exact ⟨_, rfl⟩
        · exact ⟨d, rfl⟩
        · exact ⟨d, rfl⟩
  · have hrendered := (ChannelState.forall_correct cfg (fun _ hx => hx.neg) h.window hv ts).1
    exact .inl ((hrendered.off hoff).resolve_right fun hinf => hlayers hinf.2)

/-- **A reading that is rendered in both signs is rendered on every channel that has seen no
others**, and the channel is one of these after it. -/
theorem RendersChannel.sanitizeEntry (h : RendersChannel cfg st) {raw : Str}
    (hraw : ∀ v, parse raw = some v → Renders cfg v) (ts : PyFloat) : ∃ st' o,
      IoBoard.sanitizeEntry cfg st raw ts = (st', .ok o) ∧ RendersChannel cfg st' := by
  rw [IoBoard.sanitizeEntry]
  cases hparse : parse raw with
  | none => exact ⟨st, raw, rfl, h⟩
  | some v =>
      have hv := hraw v hparse
      obtain ⟨hvalue, hwindow⟩ :=
        ChannelState.forall_correct cfg (fun _ hx => hx.neg) h.window hv ts
      have hchannel : RendersChannel cfg (st.correct cfg v ts).2 := ⟨hwindow, h.bin⟩
      dsimp only
      -- what the quantizer returns is finite, or the reading itself
      have hquantize : ∃ w st', (st.correct cfg v ts).2.quantize cfg (st.correct cfg v ts).1 =
          .ok (w, st') ∧ RendersChannel cfg st' ∧ ((∃ d, w = fin d) ∨ v ≠ nan ∧ w = v) := by
        rw [ChannelState.quantize]
        split_ifs with hstep
        · exact ⟨_, _, rfl, hchannel, h.correct_of_off hv hstep ts⟩
        · cases hbin : (st.correct cfg v ts).2.prevBin.filter
              (holdsBin cfg · (st.correct cfg v ts).1) with
          | some b =>
              exact ⟨b, _, rfl, hchannel, .inl (h.bin b (Option.filter_eq_some_iff.mp hbin).1)⟩
          | none =>
              obtain ⟨d, hd⟩ := (hvalue.on hstep).1
              refine ⟨fin d, { (st.correct cfg v ts).2 with prevBin := some (fin d) },
                by rw [hd]; rfl, ⟨hwindow, fun b hb => ?_⟩, .inl ⟨d, rfl⟩⟩
              exact ⟨d, (Option.some.inj hb).symm⟩
      obtain ⟨w, st', hq, hst', hw⟩ := hquantize
      rw [hq]
      dsimp only
      split_ifs with heq
      · exact ⟨st', raw, rfl, hst'⟩
      · obtain ⟨d, rfl⟩ : ∃ d, w = fin d := by
          refine hw.resolve_right ?_
          rintro ⟨hnan, rfl⟩
          exact heq (eqB_self hnan)
        obtain ⟨o, ho⟩ := exists_format_fin d
        exact ⟨st', o, by rw [ho], hst'⟩

/-! ### What raises -/

/-- A number that a fresh channel renders: with the quantizer off it comes out as it went in. -/
structure RendersFresh (cfg : SanitizeModel) (v : PyFloat) : Prop where
  off : cfg.quantizeGrams.leB 0 = true → v ≠ nan
  on : ¬ cfg.quantizeGrams.leB 0 = true → ∃ d, halfUp cfg v = .ok (fin d)

/-- What is not finite cannot be rounded. -/
theorem exists_fin_of_halfUp {v w : PyFloat} (h : halfUp cfg v = .ok w) : ∃ d, v = fin d := by
  have herror : ∀ x : PyFloat, (∀ d, x ≠ fin d) → (x.add (ofRat (1 / 2))).floor? = none := by
    intro x hx
    have hhalf : ofRat (1 / 2) = fin ⟨1 / 2, by decide +kernel⟩ := ofRat_of_isDouble _
    rw [hhalf]
    cases x with
    | fin d => exact absurd rfl (hx d)
    | inf | nan => rfl
  by_contra hfin
  have hdiv : ∀ d, v.div cfg.quantizeGrams ≠ fin d := by
    intro d
    cases v with
    | fin a => exact absurd ⟨a, rfl⟩ hfin
    | inf s => cases cfg.quantizeGrams <;> exact nofun
    | nan => cases cfg.quantizeGrams <;> exact nofun
  rw [halfUp] at h
  rw [herror _ hdiv] at h
  cases h

/-- Only finite values are rendered. -/
theorem exists_fin_of_format {w : PyFloat} {o : Str} (h : format w = .ok o) : ∃ d, w = fin d := by
  cases w with
  | fin d => exact ⟨d, rfl⟩
  | inf | nan => cases h

/-- **A fresh channel raises on all readings but those that it renders.** A text that is no
number is none of its readings. -/
theorem sanitizeEntry_fresh_iff {raw : Str} {ts : PyFloat} :
    (∃ o, (sanitizeEntry cfg {} raw ts).2 = .ok o) ↔
      ∀ v, parse raw = some v → RendersFresh cfg v := by
  rw [sanitizeEntry]
  cases hparse : parse raw with
  | none =>
      refine iff_of_true ⟨raw, rfl⟩ fun v hv => ?_
      cases hv
  | some v =>
      obtain ⟨hvalue, hbin⟩ := ChannelState.correct_fresh cfg v ts
      simp only [Option.some.injEq, forall_eq']
      rw [hvalue, ChannelState.quantize, hbin, Option.filter_none]
      split_ifs with hstep
      · dsimp only
        constructor
        · rintro ⟨o, ho⟩
          refine ⟨fun _ => ?_, fun hon => absurd hstep hon⟩
          rintro rfl
          cases ho
        · intro hv
          exact ⟨raw, by rw [if_pos (eqB_self (hv.off hstep))]⟩
      · cases hup : halfUp cfg v with
        | error e =>
            refine iff_of_false ?_ fun hv => ?_
            · rintro ⟨o, ho⟩
              cases ho
            · obtain ⟨d, hd⟩ := hv.on hstep
              rw [hup] at hd
              cases hd
        | ok w =>
            obtain ⟨a, rfl⟩ := exists_fin_of_halfUp hup
            simp only [Except.map]
            constructor
            · rintro ⟨o, ho⟩
              refine ⟨fun hoff => absurd hoff hstep, fun _ => ?_⟩
              rw [hup]
              split_ifs at ho with heq
              · exact ⟨a, congrArg _ (eq_of_eqB heq)⟩
              · obtain ⟨d, rfl⟩ := exists_fin_of_format ho
                exact ⟨d, rfl⟩
            · intro hv
              obtain ⟨d, hd⟩ := hv.on hstep
              obtain rfl := Except.ok.inj (hup.symm.trans hd)
              obtain ⟨o, ho⟩ := exists_format_fin d
              split_ifs
              · exact ⟨raw, rfl⟩
              · exact ⟨o, ho⟩

/-- What `floor` and `round` raise is no error of the service, but one of Python. -/
theorem isIOBoardError_integerError (x : PyFloat) : (integerError x).isIOBoardError = false := by
  cases x <;> rfl

/-- What the quantizer raises is no error of the service. -/
theorem ChannelState.isIOBoardError_of_quantize {v : PyFloat} {e : PyExc}
    (h : st.quantize cfg v = .error e) : e.isIOBoardError = false := by
  rw [quantize] at h
  split_ifs at h
  split at h
  · cases h
  · cases hup : halfUp cfg v with
    | ok w =>
        rw [hup] at h
        cases h
    | error e' =>
        rw [hup] at h
        obtain rfl := Except.error.inj h
        rw [halfUp] at hup
        split at hup
        · cases hup
        · obtain rfl := Except.error.inj hup
          exact isIOBoardError_integerError _

/-- What the renderer raises is no error of the service. -/
theorem isIOBoardError_of_format {w : PyFloat} {e : PyExc} (h : format w = .error e) :
    e.isIOBoardError = false := by
  rw [format] at h
  split at h
  · cases h
  · obtain rfl := Except.error.inj h
    exact isIOBoardError_integerError _

/-- What an entry raises is no error of the service. -/
theorem isIOBoardError_of_sanitizeEntry {raw : Str} {ts : PyFloat} {e : PyExc}
    (h : (sanitizeEntry cfg st raw ts).2 = .error e) : e.isIOBoardError = false := by
  rw [sanitizeEntry] at h
  split at h
  · cases h
  · dsimp only at h
    split at h
    · rename_i hquantize
      obtain rfl := Except.error.inj h
      exact ChannelState.isIOBoardError_of_quantize hquantize
    · dsimp only at h
      split_ifs at h
      exact isIOBoardError_of_format h

/-- A frame comes out, entry by entry, when none of its entries raises. -/
theorem sanitizeEntries_eq_ok_iff {ts : PyFloat} (sts : List ChannelState) (values : List Str) :
    (∃ out, (sanitizeEntries cfg ts sts values).2 = .ok out) ↔
      ∀ p ∈ sts.zip values, ∃ o, (sanitizeEntry cfg p.1 p.2 ts).2 = .ok o := by
  induction sts generalizing values with
  | nil =>
      refine iff_of_true ⟨values, rfl⟩ fun p hp => ?_
      cases hp
  | cons st sts ih =>
      cases values with
      | nil =>
          refine iff_of_true ⟨[], rfl⟩ fun p hp => ?_
          cases hp
      | cons raw values =>
          rw [sanitizeEntries, List.zip_cons_cons, List.forall_mem_cons, ← ih]
          cases hentry : sanitizeEntry cfg st raw ts with
          | mk st' result =>
              cases result with
              | error e =>
                  refine iff_of_false ?_ ?_
                  · rintro ⟨out, hout⟩
                    cases hout
                  · rintro ⟨⟨o, ho⟩, -⟩
                    cases ho
              | ok o =>
                  dsimp only
                  cases (sanitizeEntries cfg ts sts values).2 with
                  | error e =>
                      refine iff_of_false ?_ ?_
                      · rintro ⟨out, hout⟩
                        cases hout
                      · rintro ⟨-, out, hout⟩
                        cases hout
                  | ok out => exact iff_of_true ⟨_, rfl⟩ ⟨⟨o, rfl⟩, out, rfl⟩

/-- What a frame returns has an entry for each of its own, in their order. -/
theorem length_of_sanitizeEntries {ts : PyFloat} {sts : List ChannelState} {values out : List Str}
    (h : (sanitizeEntries cfg ts sts values).2 = .ok out) : out.length = values.length := by
  induction sts generalizing values out with
  | nil => exact congrArg List.length (Except.ok.inj h).symm
  | cons st sts ih =>
      cases values with
      | nil => exact congrArg List.length (Except.ok.inj h).symm
      | cons raw values =>
          rw [sanitizeEntries] at h
          split at h
          · cases h
          · dsimp only at h
            cases hrest : (sanitizeEntries cfg ts sts values).2 with
            | error e =>
                rw [hrest] at h
                cases h
            | ok rest =>
                rw [hrest] at h
                obtain rfl := Except.ok.inj h
                rw [List.length_cons, List.length_cons, ih hrest]

/-- What a frame raises is no error of the service. -/
theorem isIOBoardError_of_sanitizeEntries {ts : PyFloat} {sts : List ChannelState}
    {values : List Str} {e : PyExc} (h : (sanitizeEntries cfg ts sts values).2 = .error e) :
    e.isIOBoardError = false := by
  induction sts generalizing values with
  | nil => cases h
  | cons st sts ih =>
      cases values with
      | nil => cases h
      | cons raw values =>
          rw [sanitizeEntries] at h
          split at h
          · rename_i hentry
            cases h
            exact isIOBoardError_of_sanitizeEntry (congrArg Prod.snd hentry)
          · dsimp only at h
            cases hrest : (sanitizeEntries cfg ts sts values).2 with
            | error e' =>
                rw [hrest] at h
                obtain rfl := Except.error.inj h
                exact ih hrest
            | ok rest =>
                rw [hrest] at h
                cases h

end IoBoard
