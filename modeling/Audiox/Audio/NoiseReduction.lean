import Audiox.Audio.Fft
import Audiox.Support.SlidingWindow
import Audiox.Support.Transducer
import Mathlib

/-!
# Noise reduction

`processNoiseReduction` analyses the last `kFftSize` samples every `kHopSize`
samples and adds what it synthesises to a ring that is read `kLatencyFrames`
later.  The numbers are of any type with the operations of the code: what does
not depend on their laws holds for `float` as for the reals.  Positions do not
come near the limits of their 64 bits.
-/

namespace Audiox.NoiseReduction

open Fft

/-- The literals and the functions of the library. -/
structure Math (K : Type) where
  literal : ℚ → K
  pi : K
  sqrt : K → K
  cos : K → K
  sin : K → K
  exp : K → K
  log : K → K
  pow : K → K → K

def kFftSize : Nat := 256
def kHopSize : Nat := 64
def kBinCount : Nat := kFftSize / 2 + 1
def kLatencyFrames : Nat := kFftSize
def kOutputRingSize : Nat := 1024

variable {K : Type}

/-! ## Complex numbers -/

/-- Two neighbours of the interleaved array. -/
structure Cx (K : Type) where
  re : K
  im : K

section

variable [Add K] [Sub K] [Mul K]

instance : Add (Cx K) := ⟨fun a b => ⟨a.re + b.re, a.im + b.im⟩⟩

instance : Sub (Cx K) := ⟨fun a b => ⟨a.re - b.re, a.im - b.im⟩⟩

instance : Mul (Cx K) :=
  ⟨fun a b => ⟨a.re * b.re - a.im * b.im, a.re * b.im + a.im * b.re⟩⟩

end

/-! ## State and parameters -/

structure Params (K : Type) where
  reductionDb : K
  noiseFloorDb : K
  adaptation : K
  smoothing : K
  mix : K
  outputGain : K

/-- The parameters and the samples of a call; `none` is not finite. -/
structure Call (K : Type) where
  reductionDb : Option K
  noiseFloorDb : Option K
  adaptation : Option K
  smoothing : Option K
  mix : Option K
  outputGain : Option K
  input : List (Option K)

structure NoiseReductionState (K : Type) where
  inputRing : Nat → K
  fftWork : Nat → Cx K
  window : Nat → K
  wetRing : Nat → K
  dryDelay : Nat → K
  noiseMagnitude : Nat → K
  spectrumMagnitude : Nat → K
  binGain : Nat → K
  samplePosition : Nat
  dryPosition : Nat
  previousSpectrumMean : K
  smoothedReductionDb : K
  smoothedMix : K
  smoothedOutputGain : K
  initialized : Bool

def NoiseReductionState.zero (m : Math K) : NoiseReductionState K where
  inputRing := fun _ => m.literal 0
  fftWork := fun _ => ⟨m.literal 0, m.literal 0⟩
  window := fun _ => m.literal 0
  wetRing := fun _ => m.literal 0
  dryDelay := fun _ => m.literal 0
  noiseMagnitude := fun _ => m.literal 0
  spectrumMagnitude := fun _ => m.literal 0
  binGain := fun _ => m.literal 0
  samplePosition := 0
  dryPosition := 0
  previousSpectrumMean := m.literal 0
  smoothedReductionDb := m.literal 0
  smoothedMix := m.literal 1
  smoothedOutputGain := m.literal 1
  initialized := false

section

variable [Add K] [Sub K] [Mul K] [Div K] [Neg K] [LT K] [DecidableLT K]
  (m : Math K)

/-- `std::max` and `std::min`. -/
def maxOf (a b : K) : K := if a < b then b else a

def minOf (a b : K) : K := if b < a then b else a

def clampValue (value low high : K) : K := maxOf low (minOf value high)

def finiteOr (value : Option K) (fallback : K) : K := value.getD fallback

def sanitize (c : Call K) : Params K where
  reductionDb :=
    clampValue (finiteOr c.reductionDb (m.literal 12)) (m.literal 0)
      (m.literal 30)
  noiseFloorDb :=
    clampValue (finiteOr c.noiseFloorDb (m.literal (-55))) (m.literal (-90))
      (m.literal (-20))
  adaptation :=
    clampValue (finiteOr c.adaptation (m.literal 0.1)) (m.literal 0)
      (m.literal 1)
  smoothing :=
    clampValue (finiteOr c.smoothing (m.literal 0.7)) (m.literal 0)
      (m.literal 1)
  mix := clampValue (finiteOr c.mix (m.literal 1)) (m.literal 0) (m.literal 1)
  outputGain :=
    clampValue (finiteOr c.outputGain (m.literal 1)) (m.literal 0)
      (m.literal 4)

/-! ## The transform -/

/-- One step of a turn in so many parts. -/
def twiddle (inverse : Bool) (length : Nat) : Cx K :=
  ⟨m.cos ((if inverse then m.literal 2 else m.literal (-2)) * m.pi /
      m.literal length),
    m.sin ((if inverse then m.literal 2 else m.literal (-2)) * m.pi /
      m.literal length)⟩

def transformed (inverse : Bool) (data : Nat → Cx K) : Nat → Cx K :=
  fftComplex ⟨m.literal 1, m.literal 0⟩ (twiddle m inverse) kFftSize data

def scale : K := m.literal 1 / m.literal kFftSize

def fft (inverse : Bool) (data : Nat → Cx K) : Nat → Cx K :=
  if inverse then
    fun i => ⟨(transformed m inverse data i).re * scale m,
      (transformed m inverse data i).im * scale m⟩
  else transformed m inverse data

/-! ## The state before the first sample -/

def windowAt (i : Nat) : K :=
  m.sqrt (m.literal 0.5 - m.literal 0.5 *
    m.cos (m.literal 2 * m.pi * (m.literal i + m.literal 0.5) /
      m.literal kFftSize))

def initializeState (p : Params K) (s : NoiseReductionState K) :
    NoiseReductionState K :=
  { s with
    window := windowAt m
    noiseMagnitude := fun _ =>
      m.pow (m.literal 10) (p.noiseFloorDb / m.literal 20)
    binGain := fun _ => m.literal 1
    smoothedReductionDb := p.reductionDb
    smoothedMix := p.mix
    smoothedOutputGain := p.outputGain
    initialized := true }

def started (p : Params K) (s : NoiseReductionState K) :
    NoiseReductionState K :=
  if s.initialized then s else initializeState m p s

/-! ## The analysis of a frame -/

section

variable (p : Params K) (s : NoiseReductionState K) (frameStart : Int)

def frameSample (i : Nat) : K :=
  if frameStart + i < 0 then m.literal 0
  else s.inputRing ((frameStart + i).toNat % kFftSize)

def windowed (i : Nat) : Cx K :=
  ⟨frameSample m s frameStart i * s.window i, m.literal 0⟩

def spectrum : Nat → Cx K := fft m false (windowed m s frameStart)

def magnitude (bin : Nat) : K :=
  m.sqrt ((spectrum m s frameStart bin).re * (spectrum m s frameStart bin).re +
    (spectrum m s frameStart bin).im * (spectrum m s frameStart bin).im) /
    m.literal kFftSize

def spectrumMean : K :=
  (List.range kBinCount).foldl
    (fun sum bin => sum + magnitude m s frameStart bin) (m.literal 0) /
    m.literal kBinCount

def logMagnitudeMean : K :=
  (List.range kBinCount).foldl
    (fun sum bin =>
      sum + m.log (maxOf (magnitude m s frameStart bin) (m.literal 1e-12)))
    (m.literal 0)

def spectralFlatness : K :=
  m.exp (logMagnitudeMean m s frameStart / m.literal kBinCount) /
    maxOf (spectrumMean m s frameStart) (m.literal 1e-12)

def transient : Bool :=
  decide (m.literal 1e-9 < s.previousSpectrumMean) &&
    decide (s.previousSpectrumMean * m.literal 1.45 <
      spectrumMean m s frameStart)

def speechLike : Bool :=
  decide (spectralFlatness m s frameStart < m.literal 0.32)

def reductionStrength : K :=
  m.literal 1 -
    m.pow (m.literal 10) (-s.smoothedReductionDb / m.literal 20)

def minimumGain : K := m.literal 1 - reductionStrength m s

def rise : K := m.literal 0.006 * p.adaptation

def fall [DecidableEq K] : K :=
  if p.adaptation = m.literal 0 then m.literal 0
  else m.literal 0.02 + m.literal 0.08 * p.adaptation

def noiseFloorMinimum : K :=
  m.pow (m.literal 10) (p.noiseFloorDb / m.literal 20)

def gainSmoothing : K := m.literal 1 - m.literal 0.98 * p.smoothing

/-- A magnitude that sticks out of its neighbours. -/
def tonalPeak (bin : Nat) : Bool :=
  decide (((if bin = 0 then magnitude m s frameStart (bin + 1)
      else magnitude m s frameStart (bin - 1)) +
    (if bin + 1 = kBinCount then magnitude m s frameStart (bin - 1)
      else magnitude m s frameStart (bin + 1))) * m.literal 1.25 <
    magnitude m s frameStart bin)

def alpha [DecidableEq K] (bin : Nat) : K :=
  if magnitude m s frameStart bin < s.noiseMagnitude bin then fall m p
  else if transient m s frameStart || speechLike m s frameStart ||
      tonalPeak m s frameStart bin then m.literal 0
  else rise m p

def nextNoise [DecidableEq K] (bin : Nat) : K :=
  maxOf (noiseFloorMinimum m p)
    (s.noiseMagnitude bin + alpha m p s frameStart bin *
      (magnitude m s frameStart bin - s.noiseMagnitude bin))

def targetGain [DecidableEq K] (bin : Nat) : K :=
  if m.literal 0 < s.smoothedReductionDb ∧
      m.literal 1e-12 < magnitude m s frameStart bin then
    clampValue (m.literal 1 - reductionStrength m s *
      nextNoise m p s frameStart bin / magnitude m s frameStart bin)
      (minimumGain m s) (m.literal 1)
  else if m.literal 0 < s.smoothedReductionDb then minimumGain m s
  else m.literal 1

def nextBinGain [DecidableEq K] (bin : Nat) : K :=
  s.binGain bin + gainSmoothing m p *
    (targetGain m p s frameStart bin - s.binGain bin)

/-! ## The synthesis -/

def gained [DecidableEq K] (bin : Nat) : Cx K :=
  ⟨(spectrum m s frameStart bin).re * nextBinGain m p s frameStart bin,
    (spectrum m s frameStart bin).im * nextBinGain m p s frameStart bin⟩

/-- The bins, real at both ends, and their mirror. -/
def mirrored [DecidableEq K] (bin : Nat) : Cx K :=
  if bin = 0 ∨ bin + 1 = kBinCount then
    ⟨(gained m p s frameStart bin).re, m.literal 0⟩
  else if bin < kBinCount then gained m p s frameStart bin
  else
    ⟨(gained m p s frameStart (kFftSize - bin)).re,
      -(gained m p s frameStart (kFftSize - bin)).im⟩

def synthesised [DecidableEq K] : Nat → Cx K :=
  fft m true (mirrored m p s frameStart)

/-- What a frame adds at one of its samples. -/
def contribution [DecidableEq K] (i : Nat) : K :=
  (synthesised m p s frameStart i).re * s.window i / m.literal 2

/-- Where the wet ring has the output of a sample of the frame. -/
def wetIndex (i : Nat) : Nat :=
  ((frameStart + i).toNat + kLatencyFrames) % kOutputRingSize

def addSample (frame : Nat → K) (ring : Nat → K) (i : Nat) : Nat → K :=
  if frameStart + i < 0 then ring
  else
    Function.update ring (wetIndex frameStart i)
      (ring (wetIndex frameStart i) + frame i)

def overlapAdd (frame : Nat → K) (ring : Nat → K) : Nat → K :=
  (List.range kFftSize).foldl (addSample frameStart frame) ring

def processSpectrum [DecidableEq K] : NoiseReductionState K :=
  { s with
    previousSpectrumMean := s.previousSpectrumMean +
      m.literal 0.12 * (spectrumMean m s frameStart - s.previousSpectrumMean)
    spectrumMagnitude := fun bin =>
      if bin < kBinCount then magnitude m s frameStart bin
      else s.spectrumMagnitude bin
    noiseMagnitude := fun bin =>
      if bin < kBinCount then nextNoise m p s frameStart bin
      else s.noiseMagnitude bin
    binGain := fun bin =>
      if bin < kBinCount then nextBinGain m p s frameStart bin
      else s.binGain bin
    fftWork := synthesised m p s frameStart
    wetRing :=
      overlapAdd frameStart (contribution m p s frameStart) s.wetRing }

end

/-! ## One sample -/

section

variable [DecidableEq K] (p : Params K) (s : NoiseReductionState K)
  (x : Option K)

def delayedDry : K := s.dryDelay s.dryPosition

/-- The sample joins the dry delay and the input ring. -/
def recorded : NoiseReductionState K :=
  { s with
    dryDelay := Function.update s.dryDelay s.dryPosition
      (finiteOr x (m.literal 0))
    dryPosition := (s.dryPosition + 1) % kFftSize
    inputRing := Function.update s.inputRing (s.samplePosition % kFftSize)
      (finiteOr x (m.literal 0)) }

/-- A frame ends with the sample at this position. -/
def due (position : Nat) : Prop :=
  kHopSize - 1 ≤ position ∧ (position - (kHopSize - 1)) % kHopSize = 0

instance (position : Nat) : Decidable (due position) :=
  inferInstanceAs (Decidable (_ ∧ _))

def smoothed : NoiseReductionState K :=
  { s with
    smoothedReductionDb := s.smoothedReductionDb +
      (p.reductionDb - s.smoothedReductionDb) / m.literal 128 }

def analysed : NoiseReductionState K :=
  if due s.samplePosition then
    processSpectrum m p (smoothed m p s)
      ((s.samplePosition : Int) - kFftSize + 1)
  else s

def delayedWet : K :=
  (analysed m p (recorded m s x)).wetRing (s.samplePosition % kOutputRingSize)

def follow (value target : K) : K :=
  value + m.literal 1 / m.literal 128 * (target - value)

def nextState : NoiseReductionState K :=
  { analysed m p (recorded m s x) with
    wetRing := Function.update (analysed m p (recorded m s x)).wetRing
      (s.samplePosition % kOutputRingSize) (m.literal 0)
    smoothedMix :=
      follow m (analysed m p (recorded m s x)).smoothedMix p.mix
    smoothedOutputGain :=
      follow m (analysed m p (recorded m s x)).smoothedOutputGain p.outputGain
    samplePosition := s.samplePosition + 1 }

/-- Nothing is to be changed: the dry signal is put out. -/
def bypassed : Bool :=
  decide (p.reductionDb = m.literal 0) && decide (p.mix = m.literal 1) &&
    decide (p.outputGain = m.literal 1) &&
    decide ((nextState m p s x).smoothedReductionDb = m.literal 0) &&
    decide ((nextState m p s x).smoothedMix = m.literal 1) &&
    decide ((nextState m p s x).smoothedOutputGain = m.literal 1)

def outSample : K :=
  if bypassed m p s x then delayedDry s
  else
    (delayedDry s + (delayedWet m p s x - delayedDry s) *
      (nextState m p s x).smoothedMix) *
      (nextState m p s x).smoothedOutputGain

def processSample : NoiseReductionState K × List K :=
  (nextState m p s x, [outSample m p s x])

end

/-! ## Calls -/

variable [DecidableEq K]

def processNoiseReduction (s : NoiseReductionState K) (c : Call K) :
    NoiseReductionState K × List K :=
  if c.input = [] then (s, [])
  else
    (Transducer.state (processSample m (sanitize m c))
        (started m (sanitize m c) s) c.input,
      Transducer.outputs (processSample m (sanitize m c))
        (started m (sanitize m c) s) c.input)

/-- The state after some calls. -/
def after (calls : List (Call K)) : NoiseReductionState K :=
  Transducer.state (processNoiseReduction m) (NoiseReductionState.zero m) calls

end

/-! ## Frames -/

/-- The first sample of a frame; the first frames start before sample 0. -/
def frameStart (f : Nat) : Int := (kHopSize : Int) * (f + 1) - kFftSize

/-- An output position overlaps a frame when it belongs to one of its samples,
`kLatencyFrames` earlier. -/
def Overlaps (f q : Nat) : Prop :=
  kLatencyFrames ≤ q ∧ frameStart f + kLatencyFrames ≤ q ∧
    (q : Int) < frameStart f + kLatencyFrames + kFftSize

instance (f q : Nat) : Decidable (Overlaps f q) :=
  inferInstanceAs (Decidable (_ ∧ _))

/-- Which sample of the frame that is. -/
def frameIndex (f q : Nat) : Nat := (q - kLatencyFrames - frameStart f).toNat

theorem overlaps_iff (f q : Nat) :
    Overlaps f q ↔ 256 ≤ q ∧ 64 * f + 64 ≤ q ∧ q < 64 * f + 320 := by
  simp only [Overlaps, frameStart, kLatencyFrames, kHopSize, kFftSize]
  omega

theorem frameIndex_eq (f q : Nat) : frameIndex f q = q - (64 * f + 64) := by
  simp only [frameIndex, frameStart, kLatencyFrames, kHopSize, kFftSize]
  omega

theorem due_iff (position : Nat) : due position ↔ position % 64 = 63 := by
  simp only [due, kHopSize]
  omega

section

variable [Add K] (m : Math K)

/-- The frames that overlap a position, added one after the other. -/
def wetSum (frames : List (Nat → K)) (q : Nat) : K :=
  frames.zipIdx.foldl
    (fun sum e => if Overlaps e.2 q then sum + e.1 (frameIndex e.2 q) else sum)
    (m.literal 0)

theorem wetSum_concat (frames : List (Nat → K)) (frame : Nat → K) (q : Nat) :
    wetSum m (frames ++ [frame]) q =
      if Overlaps frames.length q then
        wetSum m frames q + frame (frameIndex frames.length q)
      else wetSum m frames q := by
  rw [wetSum, List.zipIdx_append, List.foldl_append, Nat.zero_add]
  rfl

theorem wetSum_eq_zero (frames : List (Nat → K)) {q : Nat}
    (h : ∀ f < frames.length, ¬Overlaps f q) :
    wetSum m frames q = m.literal 0 := by
  induction frames using List.reverseRecOn with
  | nil => rfl
  | append_singleton frames frame ih =>
      rw [List.length_append, List.length_singleton] at h
      rw [wetSum_concat, if_neg (h _ (Nat.lt_succ_self _))]
      exact ih (fun f hf => h f (hf.trans (Nat.lt_succ_self _)))

theorem wetIndex_eq {f i : Nat} (hi : 0 ≤ frameStart f + i) :
    wetIndex (frameStart f) i = (64 * f + 64 + i) % 1024 := by
  simp only [wetIndex, frameStart, kLatencyFrames, kHopSize, kFftSize,
    kOutputRingSize] at *
  congr 1
  omega

/-- Which of the loop's samples has a position. -/
theorem overlaps_and_index_iff (f i q : Nat) (hi : i < 256) :
    Overlaps f q ∧ frameIndex f q = i ↔
      0 ≤ frameStart f + i ∧ q = 64 * f + 64 + i := by
  rw [overlaps_iff, frameIndex_eq]
  simp only [frameStart, kHopSize, kFftSize]
  omega

/-- The loop over a frame adds each of its samples to the cell of its output
position. -/
theorem overlapAdd_range (frame ring : Nat → K) (f : Nat) {count : Nat}
    (hcount : count ≤ 256) {q : Nat} (hlo : 64 * f + 63 ≤ q)
    (hhi : q < 64 * f + 63 + 1024) :
    (List.range count).foldl (addSample (frameStart f) frame) ring
        (q % kOutputRingSize) =
      if Overlaps f q ∧ frameIndex f q < count then
        ring (q % kOutputRingSize) + frame (frameIndex f q)
      else ring (q % kOutputRingSize) := by
  induction count with
  | zero => simp
  | succ count ih =>
      have hrest := ih (by omega)
      have hindex := overlaps_and_index_iff f count q (by omega)
      rw [List.range_succ, List.foldl_append, List.foldl_cons, List.foldl_nil,
        addSample]
      by_cases hcell : 0 ≤ frameStart f + count ∧ q = 64 * f + 64 + count
      · obtain ⟨hoverlaps, hq⟩ := hindex.mpr hcell
        have hslot : wetIndex (frameStart f) count = q % kOutputRingSize := by
          rw [wetIndex_eq hcell.1, ← hcell.2]
          rfl
        rw [if_neg (not_lt.mpr hcell.1), hslot, Function.update_self, hrest,
          if_neg (by rw [hq]; omega), if_pos ⟨hoverlaps, by omega⟩, hq]
      · have hne : ¬(Overlaps f q ∧ frameIndex f q = count) :=
          fun h => hcell (hindex.mp h)
        have hsame : (Overlaps f q ∧ frameIndex f q < count) ↔
            Overlaps f q ∧ frameIndex f q < count + 1 :=
          ⟨fun h => ⟨h.1, by omega⟩, fun h =>
            ⟨h.1, lt_of_le_of_ne (by omega) (fun heq => hne ⟨h.1, heq⟩)⟩⟩
        rw [← if_congr hsame rfl rfl, ← hrest]
        by_cases hneg : frameStart f + count < 0
        · rw [if_pos hneg]
        · rw [if_neg hneg, Function.update_of_ne]
          rw [wetIndex_eq (not_lt.mp hneg)]
          have hother : q ≠ 64 * f + 64 + count :=
            fun h => hcell ⟨not_lt.mp hneg, h⟩
          unfold kOutputRingSize
          omega

theorem overlapAdd_apply (frame ring : Nat → K) (f : Nat) {q : Nat}
    (hlo : 64 * f + 63 ≤ q) (hhi : q < 64 * f + 63 + 1024) :
    overlapAdd (frameStart f) frame ring (q % kOutputRingSize) =
      if Overlaps f q then
        ring (q % kOutputRingSize) + frame (frameIndex f q)
      else ring (q % kOutputRingSize) := by
  have hall : Overlaps f q ∧ frameIndex f q < 256 ↔ Overlaps f q := by
    rw [overlaps_iff, frameIndex_eq]
    omega
  rw [overlapAdd, show kFftSize = 256 from rfl,
    overlapAdd_range frame ring f le_rfl hlo hhi, if_congr hall rfl rfl]

end

/-! ## The rings -/

section

variable [Add K] (m : Math K)

/-- The rings after some samples and the frames of their run. -/
structure Rings (samples : List K) (frames : List (Nat → K))
    (s : NoiseReductionState K) : Prop where
  position : s.samplePosition = samples.length
  dry : s.dryPosition = samples.length % kFftSize
  delay : SlidingWindow.Keeps kFftSize s.dryDelay
    (List.replicate kFftSize (m.literal 0) ++ samples)
  input : SlidingWindow.Keeps kFftSize s.inputRing samples
  count : frames.length = samples.length / kHopSize
  wet : ∀ q, samples.length ≤ q → q < samples.length + kOutputRingSize →
    s.wetRing (q % kOutputRingSize) = wetSum m frames q

variable {m} {s : NoiseReductionState K} {samples : List K}
  {frames : List (Nat → K)}

/-- The sample so many places back, zero when there is none. -/
def back (zero : K) (samples : List K) (width : Nat) : K :=
  if width ≤ samples.length then samples.getD (samples.length - width) zero
  else zero

namespace Rings

theorem zero : Rings m [] [] (NoiseReductionState.zero m) where
  position := rfl
  dry := rfl
  delay := by
    intro i hi _
    simp only [NoiseReductionState.zero, List.append_nil,
      List.getElem_replicate]
  input := .nil
  count := by simp
  wet := fun _ _ _ => rfl

theorem frameStart_eq (h : Rings m samples frames s)
    (hdue : due s.samplePosition) :
    (s.samplePosition : Int) - kFftSize + 1 = frameStart frames.length := by
  rw [due_iff] at hdue
  have hposition := h.position
  have hcount := h.count
  simp only [frameStart, kHopSize, kFftSize] at *
  omega

theorem length_frames (h : Rings m samples frames s)
    (hdue : due s.samplePosition) :
    samples.length = 64 * frames.length + 63 := by
  rw [due_iff, h.position] at hdue
  have hcount := h.count
  unfold kHopSize at hcount
  omega

theorem delayedDry_eq (h : Rings m samples frames s) :
    delayedDry s = back (m.literal 0) samples kLatencyFrames := by
  have hlt : samples.length < (List.replicate kFftSize (m.literal 0) ++
      samples).length := by
    rw [List.length_append, List.length_replicate]
    exact Nat.lt_add_of_pos_left (by decide)
  have hslot := h.delay _ hlt (by
    rw [List.length_append, List.length_replicate, Nat.add_comm])
  rw [delayedDry, h.dry, hslot, back, ← Option.some.injEq,
    ← List.getElem?_eq_getElem hlt]
  unfold kLatencyFrames
  by_cases hfar : kFftSize ≤ samples.length
  · rw [if_pos hfar, List.getElem?_append_right (by simpa using hfar),
      List.length_replicate, List.getD_eq_getElem?_getD,
      List.getElem?_eq_getElem (by unfold kFftSize at *; omega)]
    rfl
  · rw [if_neg hfar, List.getElem?_append_left (by simpa using hfar),
      List.getElem?_replicate, if_pos (by omega)]

end Rings

end

section

variable [Add K] [Sub K] [Mul K] [Div K] [Neg K] [LT K] [DecidableLT K]
  [DecidableEq K] {m : Math K}

/-- What the frame adds that ends with a sample, if one does. -/
def frameOf (m : Math K) (p : Params K) (s : NoiseReductionState K) (x : Option K) :
    List (Nat → K) :=
  if due s.samplePosition then
    [contribution m p (smoothed m p (recorded m s x))
      ((s.samplePosition : Int) - kFftSize + 1)]
  else []

/-- The steps of the run, with the frames instead of the output. -/
def frameStep (m : Math K) (p : Params K) (s : NoiseReductionState K)
    (x : Option K) : NoiseReductionState K × List (Nat → K) :=
  (nextState m p s x, frameOf m p s x)

variable {p : Params K} {s : NoiseReductionState K} {samples : List K}
  {frames : List (Nat → K)}

theorem dryPosition_analysed :
    (analysed m p s).dryPosition = s.dryPosition := by
  rw [analysed]
  split
  · rfl
  · rfl

theorem dryDelay_analysed : (analysed m p s).dryDelay = s.dryDelay := by
  rw [analysed]
  split
  · rfl
  · rfl

theorem inputRing_analysed : (analysed m p s).inputRing = s.inputRing := by
  rw [analysed]
  split
  · rfl
  · rfl

theorem dryPosition_nextState (x : Option K) :
    (nextState m p s x).dryPosition = (s.dryPosition + 1) % kFftSize :=
  @dryPosition_analysed K _ _ _ _ _ _ _ _ m p (recorded m s x)

theorem dryDelay_nextState (x : Option K) :
    (nextState m p s x).dryDelay = Function.update s.dryDelay s.dryPosition
      (finiteOr x (m.literal 0)) :=
  @dryDelay_analysed K _ _ _ _ _ _ _ _ m p (recorded m s x)

theorem inputRing_nextState (x : Option K) :
    (nextState m p s x).inputRing = Function.update s.inputRing
      (s.samplePosition % kFftSize) (finiteOr x (m.literal 0)) :=
  @inputRing_analysed K _ _ _ _ _ _ _ _ m p (recorded m s x)

theorem wetRing_nextState (x : Option K) :
    (nextState m p s x).wetRing =
      Function.update (analysed m p (recorded m s x)).wetRing
        (s.samplePosition % kOutputRingSize) (m.literal 0) := rfl

theorem wetRing_processSpectrum (fs : Int) :
    (processSpectrum m p s fs).wetRing =
      overlapAdd fs (contribution m p s fs) s.wetRing := by
  rw [processSpectrum]

namespace Rings

/-- The cells of the wet ring after the analysis. -/
theorem wetRing_analysed (h : Rings m samples frames s) (x : Option K) {q : Nat}
    (hlo : samples.length ≤ q) (hhi : q < samples.length + kOutputRingSize) :
    (analysed m p (recorded m s x)).wetRing (q % kOutputRingSize) =
      wetSum m (frames ++ frameOf m p s x) q := by
  rw [analysed, frameOf]
  by_cases hdue : due s.samplePosition
  · have hlength := h.length_frames hdue
    have hdue' : due (recorded m s x).samplePosition := hdue
    have hstart : ((recorded m s x).samplePosition : Int) - kFftSize + 1 =
        frameStart frames.length := h.frameStart_eq hdue
    have hring := overlapAdd_apply
      (contribution m p (smoothed m p (recorded m s x))
        (frameStart frames.length)) s.wetRing frames.length
      (show 64 * frames.length + 63 ≤ q by omega)
      (by unfold kOutputRingSize at hhi; omega)
    rw [if_pos hdue, if_pos hdue', wetSum_concat, ← h.wet q hlo hhi,
      h.frameStart_eq hdue, hstart, wetRing_processSpectrum]
    exact hring
  · have hdue' : ¬due (recorded m s x).samplePosition := hdue
    rw [if_neg hdue, if_neg hdue', List.append_nil]
    exact h.wet q hlo hhi

theorem length_frames_next (h : Rings m samples frames s) (p : Params K)
    (x : Option K) :
    (frames ++ frameOf m p s x).length = (samples.length + 1) / kHopSize := by
  have hcount := h.count
  have hposition := h.position
  rw [List.length_append, frameOf]
  unfold kHopSize at *
  by_cases hdue : due s.samplePosition
  · rw [if_pos hdue, List.length_singleton]
    rw [due_iff] at hdue
    omega
  · rw [if_neg hdue, List.length_nil]
    rw [due_iff] at hdue
    omega

/-- One sample. -/
theorem next (h : Rings m samples frames s) (p : Params K) (x : Option K) :
    Rings m (samples ++ [finiteOr x (m.literal 0)])
      (frames ++ frameOf m p s x) (nextState m p s x) where
  position := by
    rw [List.length_append, List.length_singleton, ← h.position]
    rfl
  dry := by
    rw [List.length_append, List.length_singleton, dryPosition_nextState,
      h.dry, Nat.mod_add_mod]
  delay := by
    have hnext := h.delay.concat (finiteOr x (m.literal 0))
    rw [List.length_append, List.length_replicate, Nat.add_mod_left, ← h.dry,
      List.append_assoc] at hnext
    rwa [dryDelay_nextState]
  input := by
    have hnext := h.input.concat (finiteOr x (m.literal 0))
    rwa [inputRing_nextState, h.position]
  count := by
    rw [h.length_frames_next, List.length_append, List.length_singleton]
  wet := by
    intro q hlo hhi
    rw [List.length_append, List.length_singleton] at hlo hhi
    rw [wetRing_nextState, h.position]
    by_cases hlast : q = samples.length + kOutputRingSize
    · have hslot : q % kOutputRingSize = samples.length % kOutputRingSize := by
        rw [hlast, Nat.add_mod_right]
      rw [hslot, Function.update_self, wetSum_eq_zero]
      intro f hf
      rw [h.length_frames_next] at hf
      rw [overlaps_iff]
      unfold kOutputRingSize kHopSize at *
      omega
    · rw [Function.update_of_ne, h.wetRing_analysed x (by omega) (by omega)]
      unfold kOutputRingSize at *
      omega

/-! ## What a sample gets -/

theorem delayedWet_eq (h : Rings m samples frames s) (p : Params K)
    (x : Option K) :
    delayedWet m p s x =
      wetSum m (frames ++ frameOf m p s x) samples.length := by
  rw [delayedWet, h.position]
  exact h.wetRing_analysed x le_rfl (Nat.lt_add_of_pos_right (by decide))

/-- The samples of one call. -/
theorem steps (h : Rings m samples frames s) (p : Params K)
    (input : List (Option K)) :
    Rings m (samples ++ input.map (finiteOr · (m.literal 0)))
      (frames ++ Transducer.outputs
        (frameStep m p) s input)
      (Transducer.state (processSample m p) s input) := by
  induction input generalizing samples frames s with
  | nil =>
      rw [List.map_nil, List.append_nil, Transducer.outputs, List.append_nil]
      exact h
  | cons x input ih =>
      have hnext := ih (h.next p x)
      rw [List.append_assoc, List.append_assoc] at hnext
      exact hnext

omit [Neg K] [LT K] [DecidableLT K] [DecidableEq K] in
theorem started (h : Rings m samples frames s) (p : Params K) :
    Rings m samples frames (started m p s) := by
  rw [NoiseReduction.started]
  split
  · exact h
  · exact ⟨h.position, h.dry, h.delay, h.input, h.count, h.wet⟩

end Rings

/-! ## All calls -/

variable (m)

/-- The frames of a call. -/
def frameCall (s : NoiseReductionState K) (c : Call K) :
    NoiseReductionState K × List (Nat → K) :=
  if c.input = [] then (s, [])
  else
    (Transducer.state (frameStep m (sanitize m c))
        (started m (sanitize m c) s) c.input,
      Transducer.outputs (frameStep m (sanitize m c))
        (started m (sanitize m c) s) c.input)

/-- The state in which a sample of a call is processed. -/
def before (calls : List (Call K)) (c : Call K) (input : List (Option K)) :
    NoiseReductionState K :=
  Transducer.state (processSample m (sanitize m c))
    (started m (sanitize m c) (after m calls)) input

def samplesOf (calls : List (Call K)) : List K :=
  calls.flatMap fun c => c.input.map (finiteOr · (m.literal 0))

/-- The samples in front of a sample of a call. -/
def samplesUntil (calls : List (Call K)) (input : List (Option K)) : List K :=
  samplesOf m calls ++ input.map (finiteOr · (m.literal 0))

/-- The frames that were added in front of a sample of a call. -/
def framesUntil (calls : List (Call K)) (c : Call K)
    (input : List (Option K)) : List (Nat → K) :=
  Transducer.outputs (frameCall m) (NoiseReductionState.zero m) calls ++
    Transducer.outputs (frameStep m (sanitize m c))
      (started m (sanitize m c) (after m calls)) input

variable {m}

theorem state_frameStep (p : Params K) (s : NoiseReductionState K)
    (input : List (Option K)) :
    Transducer.state (frameStep m p) s input =
      Transducer.state (processSample m p) s input := by
  apply Transducer.state_congr
  exact fun _ _ => rfl

theorem fst_frameCall (s : NoiseReductionState K) (c : Call K) :
    (frameCall m s c).1 = (processNoiseReduction m s c).1 := by
  rw [frameCall, processNoiseReduction]
  split
  · rfl
  · exact state_frameStep _ _ _

namespace Rings

theorem call (h : Rings m samples frames s) (c : Call K) :
    Rings m (samples ++ c.input.map (finiteOr · (m.literal 0)))
      (frames ++ (frameCall m s c).2) (processNoiseReduction m s c).1 := by
  rw [frameCall, processNoiseReduction]
  by_cases hempty : c.input = []
  · rw [if_pos hempty, if_pos hempty, hempty, List.map_nil, List.append_nil,
      List.append_nil]
    exact h
  · rw [if_neg hempty, if_neg hempty]
    exact (h.started _).steps _ c.input

theorem calls (h : Rings m samples frames s) (calls : List (Call K)) :
    Rings m (samples ++ samplesOf m calls)
      (frames ++ Transducer.outputs (frameCall m) s calls)
      (Transducer.state (processNoiseReduction m) s calls) := by
  induction calls generalizing samples frames s with
  | nil =>
      rw [samplesOf, List.flatMap_nil, Transducer.outputs, List.append_nil,
        List.append_nil]
      exact h
  | cons c calls ih =>
      have hnext := ih (h.call c)
      rw [List.append_assoc, List.append_assoc] at hnext
      rw [Transducer.outputs, fst_frameCall]
      exact hnext

end Rings

theorem rings_before (calls : List (Call K)) (c : Call K)
    (input : List (Option K)) :
    Rings m (samplesUntil m calls input) (framesUntil m calls c input)
      (before m calls c input) :=
  ((Rings.zero.calls calls).started _).steps _ input

/-! ## Blocks -/

theorem initialized_nextState (x : Option K) :
    (nextState m p s x).initialized = s.initialized := by
  have hkeeps : ∀ s : NoiseReductionState K,
      (analysed m p s).initialized = s.initialized := by
    intro s
    rw [analysed]
    split
    · rfl
    · rfl
  exact hkeeps (recorded m s x)

omit [Neg K] [LT K] [DecidableLT K] [DecidableEq K] in
theorem started_of_initialized (h : s.initialized = true) (p : Params K) :
    started m p s = s := by
  rw [started, if_pos h]

omit [Neg K] [LT K] [DecidableLT K] [DecidableEq K] in
theorem initialized_started (p : Params K) :
    (started m p s).initialized = true := by
  rw [started]
  split
  · assumption
  · rfl

theorem initialized_state (h : s.initialized = true)
    (input : List (Option K)) :
    (Transducer.state (processSample m p) s input).initialized = true :=
  Transducer.state_invariant
    (fun s : NoiseReductionState K => s.initialized = true)
    (fun _ x hs => (initialized_nextState x).trans hs) h input

/-- The same call with another input. -/
def Call.on (c : Call K) (input : List (Option K)) : Call K :=
  { c with input := input }

theorem processNoiseReduction_append (c : Call K)
    (xs ys : List (Option K)) :
    processNoiseReduction m s (c.on (xs ++ ys)) =
      ((processNoiseReduction m (processNoiseReduction m s (c.on xs)).1
          (c.on ys)).1,
        (processNoiseReduction m s (c.on xs)).2 ++
          (processNoiseReduction m (processNoiseReduction m s (c.on xs)).1
            (c.on ys)).2) := by
  have hnil : ∀ s, processNoiseReduction m s (c.on []) = (s, []) :=
    fun _ => if_pos rfl
  have hcons : ∀ s input, input ≠ [] →
      processNoiseReduction m s (c.on input) =
        (Transducer.state (processSample m (sanitize m c))
            (started m (sanitize m c) s) input,
          Transducer.outputs (processSample m (sanitize m c))
            (started m (sanitize m c) s) input) :=
    fun _ _ hne => if_neg hne
  by_cases hxs : xs = []
  · rw [hxs, List.nil_append, hnil, List.nil_append]
  by_cases hys : ys = []
  · rw [hys, List.append_nil, hnil, List.append_nil]
  have hboth : xs ++ ys ≠ [] := fun h => hxs (List.append_eq_nil_iff.mp h).1
  rw [hcons _ _ hboth, hcons _ _ hxs, hcons _ _ hys,
    started_of_initialized (initialized_state (initialized_started _) xs),
    Transducer.state_append, Transducer.outputs_append]

/-- An input may be cut into blocks. -/
theorem blocks_eq (c : Call K) (blocks : List (List (Option K))) :
    Transducer.state (processNoiseReduction m) s (blocks.map c.on) =
        (processNoiseReduction m s (c.on blocks.flatten)).1 ∧
      Transducer.outputs (processNoiseReduction m) s (blocks.map c.on) =
        (processNoiseReduction m s (c.on blocks.flatten)).2 := by
  induction blocks generalizing s with
  | nil =>
      have hnil : processNoiseReduction m s (c.on []) = (s, []) := if_pos rfl
      rw [List.flatten_nil, hnil]
      exact ⟨rfl, rfl⟩
  | cons block blocks ih =>
      obtain ⟨hstate, houtputs⟩ := @ih (processNoiseReduction m s (c.on block)).1
      rw [List.map_cons, Transducer.state, Transducer.outputs, hstate,
        houtputs, List.flatten_cons, processNoiseReduction_append]
      exact ⟨rfl, rfl⟩

/-! ## The overlap-add -/

/-- The indices and the sizes of the rings that a sample uses. -/
def ringAccesses (s : NoiseReductionState K) : List (Nat × Nat) :=
  [(s.dryPosition, kFftSize), (s.samplePosition % kFftSize, kFftSize),
    (s.samplePosition % kOutputRingSize, kOutputRingSize)] ++
  (List.range kFftSize).flatMap fun i : Nat =>
    [(((s.samplePosition : Int) - kFftSize + 1 + i).toNat % kFftSize,
        kFftSize),
      (wetIndex ((s.samplePosition : Int) - kFftSize + 1) i,
        kOutputRingSize)]

/-- What holds of a sample behind others, when some frames were added. -/
structure OverlapComplete (m : Math K) (p : Params K) (samples : List K)
    (frames : List (Nat → K)) (s : NoiseReductionState K) (x : Option K) :
    Prop where
  bounds : ∀ access ∈ ringAccesses s, access.1 < access.2
  /-- A frame that is added with the sample is the next one. -/
  start : due s.samplePosition →
    (s.samplePosition : Int) - kFftSize + 1 = frameStart frames.length
  dry : delayedDry s = back (m.literal 0) samples kLatencyFrames
  /-- The wet sample has each frame that overlaps it. -/
  wet : delayedWet m p s x =
    wetSum m (frames ++ frameOf m p s x) samples.length
  complete : ∀ f, Overlaps f samples.length →
    f < (frames ++ frameOf m p s x).length
  cleared : (nextState m p s x).wetRing (samples.length % kOutputRingSize) =
    m.literal 0
  /-- A frame is added to samples that are read later. -/
  later : due s.samplePosition → ∀ q, Overlaps frames.length q →
    samples.length < q

theorem Rings.overlapComplete (h : Rings m samples frames s) (p : Params K)
    (x : Option K) : OverlapComplete m p samples frames s x where
  bounds := by
    intro access haccess
    have hfft : 0 < kFftSize := by decide
    have hring : 0 < kOutputRingSize := by decide
    rw [ringAccesses, List.mem_append, List.mem_flatMap] at haccess
    rcases haccess with hone | ⟨i, -, hframe⟩
    · simp only [List.mem_cons, List.not_mem_nil, or_false] at hone
      rcases hone with rfl | rfl | rfl
      · rw [h.dry]
        exact Nat.mod_lt _ hfft
      · exact Nat.mod_lt _ hfft
      · exact Nat.mod_lt _ hring
    · simp only [List.mem_cons, List.not_mem_nil, or_false] at hframe
      rcases hframe with rfl | rfl
      · exact Nat.mod_lt _ hfft
      · exact Nat.mod_lt _ hring
  start := h.frameStart_eq
  dry := h.delayedDry_eq
  wet := h.delayedWet_eq p x
  complete := by
    intro f hf
    rw [h.length_frames_next]
    rw [overlaps_iff] at hf
    unfold kHopSize
    omega
  cleared := by
    rw [wetRing_nextState, h.position, Function.update_self]
  later := by
    intro hdue q hq
    have hlength := h.length_frames hdue
    rw [overlaps_iff] at hq
    omega

end

end Audiox.NoiseReduction
