import Audiox.Audio.NoiseReduction
import Mathlib

/-!
# Noise reduction in exact arithmetic

With real numbers and no reduction the frames of `processNoiseReduction` add up
to the input: the inverse transform takes the spectrum back, and the squares of
the window at a hop's distance add up to two.
-/

namespace Audiox.NoiseReduction

open Fft RadixTwo

/-- The literals and the functions of the library, exact. -/
noncomputable def exactMath : Math ℝ where
  literal := fun q => q
  pi := Real.pi
  sqrt := Real.sqrt
  cos := Real.cos
  sin := Real.sin
  exp := Real.exp
  log := Real.log
  pow := fun a b => a ^ b

@[simp] theorem literal_exactMath (q : ℚ) : exactMath.literal q = q := rfl

/-! ## The transform -/

def Cx.toComplex (z : Cx ℝ) : ℂ := ⟨z.re, z.im⟩

theorem preserves_toComplex : Preserves Cx.toComplex where
  add := fun _ _ => rfl
  sub := fun _ _ => rfl
  mul := fun _ _ => Complex.ext rfl rfl

/-- The sign of the angle of a transform. -/
def sign (inverse : Bool) : ℝ := if inverse then 1 else -1

noncomputable def root (inverse : Bool) (length : Nat) : ℂ :=
  (twiddle exactMath inverse length).toComplex

theorem root_eq_exp (inverse : Bool) (length : Nat) :
    root inverse length =
      Complex.exp ((sign inverse * (2 * Real.pi / length) : ℝ) * Complex.I) := by
  have hangle : (if inverse then exactMath.literal 2
      else exactMath.literal (-2)) * exactMath.pi /
      exactMath.literal length = sign inverse * (2 * Real.pi / length) := by
    simp only [sign, exactMath]
    split
    · push_cast
      ring
    · push_cast
      ring
  rw [root, Cx.toComplex, twiddle, hangle]
  apply Complex.ext
  · rw [Complex.exp_ofReal_mul_I_re]
    rfl
  · rw [Complex.exp_ofReal_mul_I_im]
    rfl

theorem roots (inverse : Bool) : Roots (root inverse) where
  square := by
    intro s
    rw [root_eq_exp, root_eq_exp, ← Complex.exp_nat_mul]
    congr 1
    push_cast
    field_simp
    ring
  half := by
    intro s
    rw [root_eq_exp, ← Complex.exp_nat_mul]
    cases inverse with
    | true =>
        rw [← Complex.exp_pi_mul_I]
        congr 1
        simp only [sign, if_true]
        push_cast
        field_simp
        ring
    | false =>
        rw [← Complex.exp_neg_pi_mul_I]
        congr 1
        simp only [sign, Bool.false_eq_true, if_false]
        push_cast
        field_simp
        ring

theorem toComplex_transformed (inverse : Bool) (data : Nat → Cx ℝ) {k : Nat}
    (hk : k < kFftSize) :
    (transformed exactMath inverse data k).toComplex =
      dft kFftSize (root inverse kFftSize) (Cx.toComplex ∘ data) k := by
  have hone : Cx.toComplex ⟨exactMath.literal 1, exactMath.literal 0⟩ = 1 := by
    apply Complex.ext
    · simp [Cx.toComplex]
    · simp [Cx.toComplex]
  have hmap := congrFun (preserves_toComplex.fftComplex
    ⟨exactMath.literal 1, exactMath.literal 0⟩ (twiddle exactMath inverse)
    kFftSize data) k
  rw [hone] at hmap
  have height : 8 ≤ 32 := by decide
  exact hmap.trans (fftComplex_eq_dft (roots inverse) height hk)

theorem star_root (length : Nat) : star (root false length) = root true length := by
  rw [root_eq_exp, root_eq_exp, Complex.star_def, ← Complex.exp_conj,
    map_mul, Complex.conj_ofReal, Complex.conj_I]
  congr 1
  simp only [sign, if_true, Bool.false_eq_true, if_false]
  push_cast
  ring

theorem root_mul_root (length : Nat) :
    root false length * root true length = 1 := by
  rw [root_eq_exp, root_eq_exp, ← Complex.exp_add, ← add_mul,
    ← Complex.ofReal_add]
  simp [sign]

theorem isPrimitiveRoot_root : IsPrimitiveRoot (root false kFftSize) kFftSize :=
  (roots false).isPrimitiveRoot (by norm_num) 7

/-! ## A frame without reduction -/

section

variable {p : Params ℝ} {s : NoiseReductionState ℝ} {fs : Int}

/-- Nothing is reduced in the bins. -/
structure Unreduced (s : NoiseReductionState ℝ) : Prop where
  gain : ∀ bin < kBinCount, s.binGain bin = 1
  reduction : s.smoothedReductionDb = 0

theorem Unreduced.nextBinGain (h : Unreduced s) {bin : Nat}
    (hbin : bin < kBinCount) :
    nextBinGain exactMath p s fs bin = 1 := by
  have hred : ¬exactMath.literal 0 < s.smoothedReductionDb := by
    rw [h.reduction, literal_exactMath]
    simp
  have htarget : targetGain exactMath p s fs bin = 1 := by
    rw [targetGain, if_neg (fun hboth => hred hboth.1), if_neg hred,
      literal_exactMath, Rat.cast_one]
  rw [NoiseReduction.nextBinGain, htarget, h.gain bin hbin, sub_self, mul_zero,
    add_zero]

theorem Unreduced.gained (h : Unreduced s) {bin : Nat}
    (hbin : bin < kBinCount) :
    gained exactMath p s fs bin = spectrum exactMath s fs bin := by
  rw [NoiseReduction.gained, h.nextBinGain hbin, mul_one, mul_one]

/-- The windowed samples are real. -/
theorem star_windowed (j : Nat) :
    star ((Cx.toComplex ∘ windowed exactMath s fs) j) =
      (Cx.toComplex ∘ windowed exactMath s fs) j := by
  apply Complex.ext
  · rfl
  · simp [windowed, Cx.toComplex]

theorem toComplex_spectrum {k : Nat} (hk : k < kFftSize) :
    (spectrum exactMath s fs k).toComplex =
      dft kFftSize (root false kFftSize)
        (Cx.toComplex ∘ windowed exactMath s fs) k := by
  have hfft : spectrum exactMath s fs =
      transformed exactMath false (windowed exactMath s fs) := by
    rw [spectrum, fft, if_neg Bool.false_ne_true]
  rw [hfft, toComplex_transformed false _ hk]

theorem dft_mirror_windowed {k : Nat} (hk : k ≤ kFftSize) :
    dft kFftSize (root false kFftSize)
        (Cx.toComplex ∘ windowed exactMath s fs) (kFftSize - k) =
      star (dft kFftSize (root false kFftSize)
        (Cx.toComplex ∘ windowed exactMath s fs) k) := by
  apply dft_mirror isPrimitiveRoot_root.pow_eq_one
  · rw [star_root, root_mul_root]
  · exact fun j _ => star_windowed j
  · exact hk

/-- The bins with their mirror are the whole spectrum. -/
theorem Unreduced.toComplex_mirrored (h : Unreduced s) {k : Nat}
    (hk : k < kFftSize) :
    (mirrored exactMath p s fs k).toComplex =
      dft kFftSize (root false kFftSize)
        (Cx.toComplex ∘ windowed exactMath s fs) k := by
  have hsizes : kBinCount = 129 ∧ kFftSize = 256 := ⟨rfl, rfl⟩
  rw [mirrored]
  by_cases hend : k = 0 ∨ k + 1 = kBinCount
  · have hreal : star (dft kFftSize (root false kFftSize)
        (Cx.toComplex ∘ windowed exactMath s fs) k) =
        dft kFftSize (root false kFftSize)
          (Cx.toComplex ∘ windowed exactMath s fs) k := by
      rw [← dft_mirror_windowed hk.le]
      rcases hend with rfl | hlast
      · rw [Nat.sub_zero, dft, dft]
        refine Finset.sum_congr rfl fun j _ => ?_
        rw [mul_comm j, pow_mul, isPrimitiveRoot_root.pow_eq_one, one_pow,
          mul_zero, pow_zero]
      · rw [show kFftSize - k = k by omega]
    rw [if_pos hend, h.gained (by omega), ← toComplex_spectrum hk] at *
    have him := congrArg Complex.im hreal
    rw [Complex.star_def, Complex.conj_im] at him
    apply Complex.ext
    · rfl
    · simp only [Cx.toComplex, literal_exactMath, Rat.cast_zero] at *
      linarith
  · rw [if_neg hend]
    by_cases hlow : k < kBinCount
    · rw [if_pos hlow, h.gained hlow, toComplex_spectrum hk]
    · have hmirror := @dft_mirror_windowed s fs (kFftSize - k) (by omega)
      rw [Nat.sub_sub_self hk.le, ← toComplex_spectrum (by omega)] at hmirror
      rw [if_neg hlow, h.gained (by omega), ← toComplex_spectrum hk, hmirror,
        ← toComplex_spectrum (by omega)]
      rfl

theorem Unreduced.synthesised (h : Unreduced s) {i : Nat}
    (hi : i < kFftSize) :
    (synthesised exactMath p s fs i).re =
      (windowed exactMath s fs i).re := by
  have hback := dft_dft (x := Cx.toComplex ∘ windowed exactMath s fs)
    isPrimitiveRoot_root (root_mul_root kFftSize)
    (y := Cx.toComplex ∘ mirrored exactMath p s fs)
    (fun k hk => h.toComplex_mirrored hk) hi
  rw [← toComplex_transformed true _ hi] at hback
  have hre := congrArg Complex.re hback
  rw [← Complex.ofReal_natCast, Complex.re_ofReal_mul] at hre
  have hscale : scale exactMath = 1 / (kFftSize : ℝ) := by
    simp [scale]
  have hne : (kFftSize : ℝ) ≠ 0 := by
    rw [show kFftSize = 256 from rfl]
    norm_num
  rw [NoiseReduction.synthesised, fft, if_pos rfl, hscale]
  simp only [Cx.toComplex, Function.comp_apply] at hre
  rw [hre]
  field_simp

end

/-! ## The window -/

theorem windowAt_mul_self (i : Nat) :
    windowAt exactMath i * windowAt exactMath i =
      1 / 2 - 1 / 2 * Real.cos (2 * Real.pi * (i + 1 / 2) / 256) := by
  have hcos := Real.cos_le_one (2 * Real.pi * (i + 1 / 2) / 256)
  have hvalue : windowAt exactMath i =
      √(1 / 2 - 1 / 2 * Real.cos (2 * Real.pi * (i + 1 / 2) / 256)) := by
    rw [windowAt, show kFftSize = 256 from rfl]
    simp only [exactMath]
    norm_num
  rw [hvalue, Real.mul_self_sqrt (by linarith)]

/-- A quarter of the window further. -/
theorem windowAt_quarter (r : Nat) :
    windowAt exactMath (r + 64) * windowAt exactMath (r + 64) =
      1 / 2 + 1 / 2 * Real.sin (2 * Real.pi * (r + 1 / 2) / 256) := by
  have hangle : 2 * Real.pi * ((r + 64 : Nat) + 1 / 2 : ℝ) / 256 =
      2 * Real.pi * (r + 1 / 2) / 256 + Real.pi / 2 := by
    push_cast
    ring
  rw [windowAt_mul_self, hangle, Real.cos_add_pi_div_two]
  ring

theorem windowAt_half (r : Nat) :
    windowAt exactMath (r + 128) * windowAt exactMath (r + 128) =
      1 / 2 + 1 / 2 * Real.cos (2 * Real.pi * (r + 1 / 2) / 256) := by
  have hangle : 2 * Real.pi * ((r + 128 : Nat) + 1 / 2 : ℝ) / 256 =
      2 * Real.pi * (r + 1 / 2) / 256 + Real.pi := by
    push_cast
    ring
  rw [windowAt_mul_self, hangle, Real.cos_add_pi]
  ring

/-- The squares of the window at the distance of a hop. -/
theorem windowAt_sum (r : Nat) :
    windowAt exactMath (r + 192) * windowAt exactMath (r + 192) +
      windowAt exactMath (r + 128) * windowAt exactMath (r + 128) +
      windowAt exactMath (r + 64) * windowAt exactMath (r + 64) +
      windowAt exactMath r * windowAt exactMath r = 2 := by
  have hlast := windowAt_quarter (r + 128)
  have hangle : 2 * Real.pi * ((r + 128 : Nat) + 1 / 2 : ℝ) / 256 =
      2 * Real.pi * (r + 1 / 2) / 256 + Real.pi := by
    push_cast
    ring
  rw [hangle, Real.sin_add_pi] at hlast
  rw [show r + 192 = r + 128 + 64 by ring, hlast, windowAt_half,
    windowAt_quarter, windowAt_mul_self]
  ring

/-! ## Runs without reduction -/

/-- A sum over frames, in exact arithmetic. -/
theorem wetSum_eq_sum (frames : List (Nat → ℝ)) (q : Nat) :
    wetSum exactMath frames q =
      ∑ f ∈ Finset.range frames.length,
        if Overlaps f q then frames.getD f (fun _ => 0) (frameIndex f q)
        else 0 := by
  induction frames using List.reverseRecOn with
  | nil => simp [wetSum]
  | append_singleton frames frame ih =>
      rw [wetSum_concat, List.length_append, List.length_singleton,
        Finset.sum_range_succ, ih]
      have hrest : ∀ f ∈ Finset.range frames.length,
          (if Overlaps f q then
            (frames ++ [frame]).getD f (fun _ => 0) (frameIndex f q)
            else 0) =
          if Overlaps f q then frames.getD f (fun _ => 0) (frameIndex f q)
          else 0 := by
        intro f hf
        rw [List.getD_append _ _ _ _ (Finset.mem_range.mp hf)]
      rw [Finset.sum_congr rfl hrest,
        List.getD_append_right _ _ _ _ le_rfl, Nat.sub_self]
      split
      · rfl
      · rw [add_zero]

/-- The rings of a run without reduction: every frame has the samples with the
square of the window. -/
structure Plain (samples : List ℝ) (frames : List (Nat → ℝ))
    (s : NoiseReductionState ℝ) : Prop where
  rings : Rings exactMath samples frames s
  unreduced : Unreduced s
  window : s.window = windowAt exactMath
  frame : ∀ f < frames.length, ∀ i < kFftSize, 0 ≤ frameStart f + i →
    ∃ v, samples[(frameStart f + i).toNat]? = some v ∧
      frames.getD f (fun _ => 0) i =
        v * (windowAt exactMath i * windowAt exactMath i) / 2

theorem plain_frames_sum {samples : List ℝ} {frames : List (Nat → ℝ)}
    {q : Nat} (hlatency : kLatencyFrames ≤ q)
    (hcount : q / kHopSize ≤ frames.length)
    {v : ℝ} (hv : samples[q - kLatencyFrames]? = some v)
    (hframe : ∀ f < frames.length, ∀ i < kFftSize, 0 ≤ frameStart f + i →
      ∃ v, samples[(frameStart f + i).toNat]? = some v ∧
        frames.getD f (fun _ => 0) i =
          v * (windowAt exactMath i * windowAt exactMath i) / 2) :
    wetSum exactMath frames q = v := by
  have hsizes : kLatencyFrames = 256 ∧ kHopSize = 64 ∧ kFftSize = 256 :=
    ⟨rfl, rfl, rfl⟩
  obtain ⟨hkl, hkh, hkf⟩ := hsizes
  rw [hkl] at hlatency hv
  rw [hkh] at hcount
  -- the terms of the four frames that overlap the position
  have hterm : ∀ t < 4,
      (if Overlaps (q / 64 - 4 + t) q then
        frames.getD (q / 64 - 4 + t) (fun _ => 0)
          (frameIndex (q / 64 - 4 + t) q) else 0) =
      v * (windowAt exactMath (q % 64 + 64 * (3 - t)) *
        windowAt exactMath (q % 64 + 64 * (3 - t))) / 2 := by
    intro t ht
    have hindex : frameIndex (q / 64 - 4 + t) q = q % 64 + 64 * (3 - t) := by
      rw [frameIndex_eq]
      omega
    have hposition : (frameStart (q / 64 - 4 + t) +
        (q % 64 + 64 * (3 - t) : Nat)).toNat = q - 256 := by
      simp only [frameStart, hkh, hkf]
      omega
    obtain ⟨w, hw, hvalue⟩ := hframe (q / 64 - 4 + t) (by omega)
      (q % 64 + 64 * (3 - t)) (by omega) (by
        simp only [frameStart, hkh, hkf]
        omega)
    rw [hposition, hv, Option.some.injEq] at hw
    rw [if_pos ((overlaps_iff _ _).mpr (by omega)), hindex, hvalue, hw]
  obtain ⟨rest, hrest⟩ : ∃ rest, frames.length = q / 64 - 4 + (4 + rest) :=
    ⟨frames.length - q / 64, by omega⟩
  rw [wetSum_eq_sum, hrest, Finset.sum_range_add, Finset.sum_range_add]
  have hearly : ∑ f ∈ Finset.range (q / 64 - 4),
      (if Overlaps f q then frames.getD f (fun _ => 0) (frameIndex f q)
        else 0) = 0 := by
    refine Finset.sum_eq_zero fun f hf => if_neg ?_
    rw [Finset.mem_range] at hf
    rw [overlaps_iff]
    omega
  have hlate : ∑ f ∈ Finset.range rest,
      (if Overlaps (q / 64 - 4 + (4 + f)) q then
        frames.getD (q / 64 - 4 + (4 + f)) (fun _ => 0)
          (frameIndex (q / 64 - 4 + (4 + f)) q) else 0) = 0 := by
    refine Finset.sum_eq_zero fun f _ => if_neg ?_
    rw [overlaps_iff]
    omega
  have hsum := windowAt_sum (q % 64)
  rw [hearly, hlate, Finset.sum_range_succ, Finset.sum_range_succ,
    Finset.sum_range_succ, Finset.sum_range_one, hterm 0 (by omega),
    hterm 1 (by omega), hterm 2 (by omega), hterm 3 (by omega)]
  simp only [Nat.sub_zero, Nat.reduceSub, Nat.reduceMul, Nat.mul_one,
    Nat.mul_zero, Nat.add_zero]
  linear_combination v / 2 * hsum

section

variable {p : Params ℝ} {s : NoiseReductionState ℝ} {samples : List ℝ}
  {frames : List (Nat → ℝ)}

theorem Unreduced.smoothed (h : Unreduced s) (hp : p.reductionDb = 0) :
    Unreduced (smoothed exactMath p s) where
  gain := h.gain
  reduction := by
    rw [NoiseReduction.smoothed, h.reduction, hp]
    simp

theorem Unreduced.analysed (h : Unreduced s) (hp : p.reductionDb = 0) :
    Unreduced (analysed exactMath p s) := by
  rw [NoiseReduction.analysed]
  split
  · constructor
    · intro bin hbin
      rw [processSpectrum]
      dsimp only
      rw [if_pos hbin, (h.smoothed hp).nextBinGain hbin]
    · exact (h.smoothed hp).reduction
  · exact h

theorem Unreduced.next (h : Unreduced s) (hp : p.reductionDb = 0)
    (x : Option ℝ) : Unreduced (nextState exactMath p s x) where
  gain := by
    have hrecorded : Unreduced (recorded exactMath s x) :=
      ⟨h.gain, h.reduction⟩
    exact (hrecorded.analysed hp).gain
  reduction := by
    have hrecorded : Unreduced (recorded exactMath s x) :=
      ⟨h.gain, h.reduction⟩
    exact (hrecorded.analysed hp).reduction

theorem window_nextState (x : Option ℝ) :
    (nextState exactMath p s x).window = s.window := by
  have hkeeps : ∀ s : NoiseReductionState ℝ,
      (analysed exactMath p s).window = s.window := by
    intro s
    rw [analysed]
    split
    · rfl
    · rfl
  exact hkeeps (recorded exactMath s x)

namespace Plain

/-- What the frame of a sample adds. -/
theorem contribution_eq (h : Plain samples frames s) (hp : p.reductionDb = 0)
    (x : Option ℝ) (hdue : due s.samplePosition) {i : Nat}
    (hi : i < kFftSize) (hpos : 0 ≤ frameStart frames.length + i) :
    ∃ v, (samples ++ [finiteOr x (exactMath.literal 0)])[
        (frameStart frames.length + i).toNat]? = some v ∧
      contribution exactMath p (smoothed exactMath p (recorded exactMath s x))
        (frameStart frames.length) i =
        v * (windowAt exactMath i * windowAt exactMath i) / 2 := by
  have hlength := h.rings.length_frames hdue
  have hkeeps := (h.rings.next p x).input
  rw [inputRing_nextState] at hkeeps
  have hlt : (frameStart frames.length + i).toNat <
      (samples ++ [finiteOr x (exactMath.literal 0)]).length := by
    rw [List.length_append, List.length_singleton]
    simp only [frameStart, kHopSize, kFftSize] at *
    omega
  have hslot := hkeeps _ hlt (by
    rw [List.length_append, List.length_singleton]
    simp only [frameStart, kHopSize, kFftSize] at *
    omega)
  refine ⟨_, List.getElem?_eq_getElem hlt, ?_⟩
  have hrecorded : Unreduced (recorded exactMath s x) :=
    ⟨h.unreduced.gain, h.unreduced.reduction⟩
  have hsample : frameSample exactMath
      (smoothed exactMath p (recorded exactMath s x))
      (frameStart frames.length) i =
      (samples ++ [finiteOr x (exactMath.literal 0)])[
        (frameStart frames.length + i).toNat] := by
    rw [frameSample, if_neg (not_lt.mpr hpos), ← hslot]
    rfl
  have hwindow : (smoothed exactMath p (recorded exactMath s x)).window =
      windowAt exactMath := h.window
  have htwo : exactMath.literal 2 = 2 := by simp
  rw [contribution, (hrecorded.smoothed hp).synthesised hi, windowed, hsample,
    hwindow, htwo, mul_assoc]

theorem next (h : Plain samples frames s) (hp : p.reductionDb = 0)
    (x : Option ℝ) :
    Plain (samples ++ [finiteOr x (exactMath.literal 0)])
      (frames ++ frameOf exactMath p s x) (nextState exactMath p s x) where
  rings := h.rings.next p x
  unreduced := h.unreduced.next hp x
  window := (window_nextState x).trans h.window
  frame := by
    intro f hf i hi hpos
    by_cases hold : f < frames.length
    · obtain ⟨v, hv, hframe⟩ := h.frame f hold i hi hpos
      refine ⟨v, ?_, ?_⟩
      · rw [List.getElem?_append_left (List.getElem?_eq_some_iff.mp hv).1, hv]
      · rw [List.getD_append _ _ _ _ hold, hframe]
    · by_cases hdue : due s.samplePosition
      · rw [frameOf, if_pos hdue, List.length_append,
          List.length_singleton] at hf
        obtain rfl : f = frames.length := by omega
        obtain ⟨v, hv, hvalue⟩ := h.contribution_eq hp x hdue hi hpos
        refine ⟨v, hv, ?_⟩
        rw [List.getD_append_right _ _ _ _ le_rfl, Nat.sub_self, frameOf,
          if_pos hdue, h.rings.frameStart_eq hdue]
        exact hvalue
      · rw [frameOf, if_neg hdue, List.append_nil] at hf
        exact absurd hf hold

theorem steps (h : Plain samples frames s) (hp : p.reductionDb = 0)
    (input : List (Option ℝ)) :
    Plain (samples ++ input.map (finiteOr · (exactMath.literal 0)))
      (frames ++ Transducer.outputs (frameStep exactMath p) s input)
      (Transducer.state (processSample exactMath p) s input) := by
  induction input generalizing samples frames s with
  | nil =>
      rw [List.map_nil, List.append_nil, Transducer.outputs, List.append_nil]
      exact h
  | cons x input ih =>
      have hnext := ih (h.next hp x)
      rw [List.append_assoc, List.append_assoc] at hnext
      exact hnext

/-- The wet sample is the input of `kLatencyFrames` earlier. -/
theorem delayedWet_eq (h : Plain samples frames s) (hp : p.reductionDb = 0)
    (x : Option ℝ) :
    delayedWet exactMath p s x = back 0 samples kLatencyFrames := by
  have hnext := h.next hp x
  rw [h.rings.delayedWet_eq p x, back]
  by_cases hfar : kLatencyFrames ≤ samples.length
  · have hlt : samples.length - kLatencyFrames < samples.length :=
      Nat.sub_lt_self (by decide) hfar
    rw [if_pos hfar]
    refine plain_frames_sum hfar ?_ ?_ hnext.frame
    · rw [h.rings.length_frames_next]
      exact Nat.div_le_div_right (Nat.le_succ _)
    · rw [List.getElem?_append_left hlt, List.getD_eq_getElem _ _ hlt,
        List.getElem?_eq_getElem hlt]
  · rw [if_neg hfar, wetSum_eq_zero, literal_exactMath, Rat.cast_zero]
    intro f _ hoverlaps
    exact hfar hoverlaps.1

/-- Whatever the mix, the output is the delayed input times the gain. -/
theorem outSample_eq (h : Plain samples frames s) (hp : p.reductionDb = 0)
    (x : Option ℝ) :
    outSample exactMath p s x = back 0 samples kLatencyFrames *
      (nextState exactMath p s x).smoothedOutputGain := by
  have hdry := h.rings.delayedDry_eq
  rw [literal_exactMath, Rat.cast_zero] at hdry
  rw [outSample, h.delayedWet_eq hp x, hdry, sub_self, zero_mul, add_zero]
  split
  · rename_i hbypassed
    simp only [bypassed, Bool.and_eq_true, decide_eq_true_eq,
      literal_exactMath, Rat.cast_one] at hbypassed
    rw [hbypassed.2, mul_one]
  · rfl

end Plain

/-! ## All calls -/

/-- The state before the first sample, or one of a run without reduction. -/
def Undisturbed (samples : List ℝ) (frames : List (Nat → ℝ))
    (s : NoiseReductionState ℝ) : Prop :=
  s = NoiseReductionState.zero exactMath ∧ samples = [] ∧ frames = [] ∨
    s.initialized = true ∧ Plain samples frames s

theorem Undisturbed.started (h : Undisturbed samples frames s)
    (hp : p.reductionDb = 0) :
    Plain samples frames (started exactMath p s) := by
  rcases h with ⟨rfl, rfl, rfl⟩ | ⟨hinitialized, hplain⟩
  · refine ⟨Rings.zero.started p, ⟨?_, ?_⟩, rfl, ?_⟩
    · intro bin _
      rw [NoiseReduction.started, if_neg (by simp [NoiseReductionState.zero])]
      simp [initializeState]
    · rw [NoiseReduction.started, if_neg (by simp [NoiseReductionState.zero])]
      exact hp
    · intro f hf
      exact absurd hf (Nat.not_lt_zero f)
  · rwa [started_of_initialized hinitialized]

theorem Undisturbed.call (h : Undisturbed samples frames s) {c : Call ℝ}
    (hc : (sanitize exactMath c).reductionDb = 0) :
    Undisturbed
      (samples ++ c.input.map (finiteOr · (exactMath.literal 0)))
      (frames ++ (frameCall exactMath s c).2)
      (processNoiseReduction exactMath s c).1 := by
  rw [frameCall, processNoiseReduction]
  by_cases hempty : c.input = []
  · rw [if_pos hempty, if_pos hempty, hempty, List.map_nil, List.append_nil,
      List.append_nil]
    exact h
  · rw [if_neg hempty, if_neg hempty]
    exact .inr ⟨initialized_state (initialized_started _) _,
      (h.started hc).steps hc c.input⟩

theorem Undisturbed.calls (h : Undisturbed samples frames s)
    {calls : List (Call ℝ)}
    (hcalls : ∀ c ∈ calls, (sanitize exactMath c).reductionDb = 0) :
    Undisturbed (samples ++ samplesOf exactMath calls)
      (frames ++ Transducer.outputs (frameCall exactMath) s calls)
      (Transducer.state (processNoiseReduction exactMath) s calls) := by
  induction calls generalizing samples frames s with
  | nil =>
      rw [samplesOf, List.flatMap_nil, Transducer.outputs, List.append_nil,
        List.append_nil]
      exact h
  | cons c calls ih =>
      have hnext := ih (h.call (hcalls c List.mem_cons_self))
        (fun d hd => hcalls d (List.mem_cons_of_mem _ hd))
      rw [List.append_assoc, List.append_assoc] at hnext
      rw [Transducer.outputs, fst_frameCall]
      exact hnext

theorem plain_before {calls : List (Call ℝ)} {c : Call ℝ}
    (hcalls : ∀ d ∈ calls, (sanitize exactMath d).reductionDb = 0)
    (hc : (sanitize exactMath c).reductionDb = 0) (input : List (Option ℝ)) :
    Plain (samplesUntil exactMath calls input)
      (framesUntil exactMath calls c input) (before exactMath calls c input) := by
  have hzero : Undisturbed [] [] (NoiseReductionState.zero exactMath) :=
    .inl ⟨rfl, rfl, rfl⟩
  exact ((hzero.calls hcalls).started hc).steps hc input

end

/-- A call that asks for no reduction. -/
noncomputable def unreducedCall : Call ℝ where
  reductionDb := some 0
  noiseFloorDb := none
  adaptation := none
  smoothing := none
  mix := some 1
  outputGain := some 1
  input := []

end Audiox.NoiseReduction
