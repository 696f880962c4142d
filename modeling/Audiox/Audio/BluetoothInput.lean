import Audiox.Audio.PcmRing
import Audiox.Bluetooth.Link
import Audiox.Support.Runs
import Mathlib

/-!
# The input stream of a Bluetooth link

The Bluetooth worker starts and stops the stream and pushes frames; the audio
thread renders.  Each start and each stop begins a generation, and a render
that sees a new one restarts at the start index.

A render loads the generation once.  When a generation begins behind that
load, the render may consume frames of the new generation, which the next
render then restarts.  Rate arithmetic is exact.
-/

namespace Audiox.Bluetooth

open FreeRunning Runs

/-! ## Model -/

def BUFFER_FRAMES : Nat := 128
def SAMPLE_RATE : Nat := 48000

/-- Where the worker is in `start` or `stop`. -/
inductive InputWorker where
  | idle
  | starting (address : UInt64) (rate : UInt32)
  | startLoad (address : UInt64)
  | startStore (address : UInt64) (startIndex : UInt32)
  | startAdd (address : UInt64)
  | startPeer (address : UInt64)
  | stopping
  | stopLoad
  | stopStore (startIndex : UInt32)
  | stopAdd

/-- The variables of the loop of `render`. -/
structure RenderLoop where
  frames : Nat
  readIndex : UInt32
  available : UInt32
  ratio : ℚ
  fraction : ℚ
  rendered : List (ℚ × ℚ)

/-- Where the audio thread is in `render`. -/
inductive InputRender where
  | idle
  | called (frames : Nat)
  | loadedGeneration (frames : Nat) (gen : UInt32)
  | restarting (frames : Nat)
  | loadedStart (frames : Nat) (readIndex : UInt32)
  | synchronized (frames : Nat) (readIndex : UInt32)
  | loadedWrite (frames : Nat) (readIndex writeIndex : UInt32)
  | overflowed (frames : Nat) (writeIndex target : UInt32)
  | filled (frames : Nat) (readIndex available target : UInt32)
  | reading (loop : RenderLoop)
  | readFirst (loop : RenderLoop) (first : PcmFrame)
  | ranDry (loop : RenderLoop)

def InputRender.isRestarting : InputRender → Bool
  | .restarting _ => true
  | _ => false

structure BluetoothInputStream where
  peer : UInt64
  sampleRate : UInt32
  generation : UInt32
  startIndex : UInt32
  pcm : PcmRing
  underruns : UInt32
  overflows : UInt32
  seenGeneration : UInt32
  primed : Bool
  readFrac : ℚ
  filteredFill : ℚ
  rateIntegral : ℚ
  worker : InputWorker
  audio : InputRender
  rendered : List (ℚ × ℚ)

inductive InputEvent where
  | start (address : UInt64) (configuration : SbcElement)
  | stop
  | push (stereoFrames : List PcmFrame)
  | workerStep
  | render (frames : Nat)
  | renderStep
deriving DecidableEq

namespace BluetoothInputStream

def initial (ring : Nat → PcmFrame) : BluetoothInputStream where
  peer := 0
  sampleRate := 48000
  generation := 0
  startIndex := 0
  pcm := .start ring
  underruns := 0
  overflows := 0
  seenGeneration := 0
  primed := false
  readFrac := 0
  filteredFill := 0
  rateIntegral := 0
  worker := .idle
  audio := .idle
  rendered := []

/-! ### The Bluetooth worker -/

/-- The worker calls a function when it is in none. -/
def call (s : BluetoothInputStream) (worker : InputWorker) :
    Option BluetoothInputStream :=
  match s.worker with
  | .idle =>
      match s.pcm.producer with
      | .idle => some { s with worker := worker }
      | _ => none
  | _ => none

def pushFrames (s : BluetoothInputStream) (stereoFrames : List PcmFrame) :
    Option BluetoothInputStream :=
  match s.worker with
  | .idle => (s.pcm.push stereoFrames).map fun pcm => { s with pcm := pcm }
  | _ => none

def workerStep (s : BluetoothInputStream) : Option BluetoothInputStream :=
  match s.worker with
  | .idle => s.pcm.pushStep.map fun pcm => { s with pcm := pcm }
  | .starting address rate =>
      some { s with
        sampleRate := if rate = 0 then 48000 else rate
        worker := .startLoad address }
  | .startLoad address =>
      some { s with worker := .startStore address s.pcm.write }
  | .startStore address startIndex =>
      some { s with startIndex := startIndex, worker := .startAdd address }
  | .startAdd address =>
      some { s with
        generation := s.generation + 1, worker := .startPeer address }
  | .startPeer address => some { s with peer := address, worker := .idle }
  | .stopping => some { s with peer := 0, worker := .stopLoad }
  | .stopLoad => some { s with worker := .stopStore s.pcm.write }
  | .stopStore startIndex =>
      some { s with startIndex := startIndex, worker := .stopAdd }
  | .stopAdd =>
      some { s with generation := s.generation + 1, worker := .idle }

/-! ### The audio thread -/

def rateOrDefault (rate : UInt32) : UInt32 :=
  if rate = 0 then 48000 else rate

def targetFill (sampleRate : UInt32) : UInt32 :=
  if rateOrDefault sampleRate * 3 / 25 < UInt32.ofNat (BUFFER_FRAMES * 4) then
    UInt32.ofNat (BUFFER_FRAMES * 4)
  else rateOrDefault sampleRate * 3 / 25

def clamp (low high x : ℚ) : ℚ :=
  max low (min high x)

/-- The stream is restarted at a new generation. -/
def restart (s : BluetoothInputStream) (frames : Nat) (readIndex : UInt32) :
    BluetoothInputStream :=
  { s with
    pcm := s.pcm.storeRead readIndex
    primed := false
    readFrac := 0
    filteredFill := 0
    rateIntegral := 0
    audio := .synchronized frames readIndex }

/-- Too little is available to start playing. -/
def renderSilence (s : BluetoothInputStream) (frames : Nat) :
    BluetoothInputStream :=
  { s with rendered := List.replicate frames (0, 0), audio := .idle }

def prime (s : BluetoothInputStream) (available : UInt32) :
    BluetoothInputStream :=
  if s.primed then s
  else
    { s with
      primed := true
      filteredFill := available.toNat
      rateIntegral := 0
      readFrac := 0 }

/-- The render has loaded the sample rate for `targetFill`. -/
def fill (s : BluetoothInputStream) (frames : Nat)
    (readIndex writeIndex target : UInt32) : BluetoothInputStream :=
  if s.primed = false ∧ writeIndex - readIndex < target then
    s.renderSilence frames
  else if writeIndex - readIndex >
      UInt32.ofNat (AUDIO_BT_PCM_RING_FRAMES - 2048) then
    { s.prime (writeIndex - readIndex) with
      audio := .overflowed frames writeIndex target }
  else
    { s.prime (writeIndex - readIndex) with
      audio := .filled frames readIndex (writeIndex - readIndex) target }

/-- The sender got far ahead: skip back to the target latency. -/
def skip (s : BluetoothInputStream) (frames : Nat)
    (writeIndex target : UInt32) : BluetoothInputStream :=
  { s with
    readFrac := 0
    filteredFill := target.toNat
    overflows := s.overflows + 1
    audio := .filled frames (writeIndex - target) target target }

def nextFill (filteredFill : ℚ) (available : UInt32) (seconds : ℚ) : ℚ :=
  filteredFill + (available.toNat - filteredFill) *
    (if seconds > 1 then 1 else seconds)

def fillError (filteredFill : ℚ) (target : UInt32) : ℚ :=
  clamp (-1) 1 ((filteredFill - target.toNat) / target.toNat)

def nextIntegral (rateIntegral error seconds : ℚ) : ℚ :=
  clamp (-3 / 1000) (3 / 1000)
    (rateIntegral + error * (8 / 100000) * seconds)

def adjustment (error rateIntegral : ℚ) : ℚ :=
  clamp (-5 / 1000) (5 / 1000) (error * (3 / 1000) + rateIntegral)

def readRatio (rate : UInt32) (adjust : ℚ) : ℚ :=
  ((rateOrDefault rate).toNat / SAMPLE_RATE) * (1 + adjust)

/-- The loop starts, with the fill and the integral that were computed. -/
def track (s : BluetoothInputStream) (frames : Nat)
    (readIndex available target rate : UInt32) (filteredFill rateIntegral : ℚ) :
    BluetoothInputStream :=
  { s with
    filteredFill := filteredFill
    rateIntegral := rateIntegral
    audio := .reading
      { frames := frames
        readIndex := readIndex
        available := available
        ratio := readRatio rate
          (adjustment (fillError filteredFill target) rateIntegral)
        fraction := s.readFrac
        rendered := [] } }

/-- The render has loaded the sample rate for the ratio. -/
def beginLoop (s : BluetoothInputStream) (frames : Nat)
    (readIndex available target rate : UInt32) : BluetoothInputStream :=
  s.track frames readIndex available target rate
    (nextFill s.filteredFill available (frames / SAMPLE_RATE))
    (nextIntegral s.rateIntegral
      (fillError
        (nextFill s.filteredFill available (frames / SAMPLE_RATE)) target)
      (frames / SAMPLE_RATE))

end BluetoothInputStream

namespace RenderLoop

def offset (loop : RenderLoop) : Nat :=
  ⌊loop.fraction⌋₊

def slotA (loop : RenderLoop) : Nat :=
  PcmRing.slot (loop.readIndex + UInt32.ofNat loop.offset)

def slotB (loop : RenderLoop) : Nat :=
  (loop.slotA + 1) % AUDIO_BT_PCM_RING_FRAMES

/-- The loop goes on: more frames are wanted, and two are available. -/
def goesOn (loop : RenderLoop) : Bool :=
  decide (loop.rendered.length < loop.frames) &&
    decide (loop.offset + 1 < loop.available.toNat)

def mix (loop : RenderLoop) (a b : Int16) : ℚ :=
  (a.toInt + (b.toInt - a.toInt) * (loop.fraction - loop.offset)) / 32768

def next (loop : RenderLoop) (first second : PcmFrame) : RenderLoop :=
  { loop with
    rendered := loop.rendered ++
      [(loop.mix first.left second.left, loop.mix first.right second.right)]
    fraction := loop.fraction + loop.ratio }

def fade (last : ℚ) (i : Nat) : ℚ :=
  if 1 - ((i : ℚ) + 1) / 32 > 0 then last * (1 - ((i : ℚ) + 1) / 32) else 0

/-- The rendered frames, faded out where the loop ran dry. -/
def fadeOut (loop : RenderLoop) : List (ℚ × ℚ) :=
  loop.rendered ++
    (List.range (loop.frames - loop.rendered.length)).map fun i =>
      (fade (loop.rendered.getLast?.getD (0, 0)).1 i,
        fade (loop.rendered.getLast?.getD (0, 0)).2 i)

end RenderLoop

namespace BluetoothInputStream

/-- All frames were rendered. -/
def consume (s : BluetoothInputStream) (loop : RenderLoop) :
    BluetoothInputStream :=
  { s with
    readFrac := loop.fraction - loop.offset
    pcm := s.pcm.storeRead (loop.readIndex + UInt32.ofNat loop.offset)
    rendered := loop.rendered
    audio := .idle }

/-- What was available did not suffice. -/
def consumeAll (s : BluetoothInputStream) (loop : RenderLoop) :
    BluetoothInputStream :=
  { s with
    readFrac := 0
    primed := false
    pcm := s.pcm.storeRead (loop.readIndex + loop.available)
    rendered := loop.fadeOut
    audio := .idle }

def readStep (s : BluetoothInputStream) (loop : RenderLoop) :
    BluetoothInputStream :=
  if loop.goesOn then
    { s with audio := .readFirst loop (s.pcm.ring loop.slotA) }
  else if loop.rendered.length < loop.frames then
    { s with underruns := s.underruns + 1, audio := .ranDry loop }
  else s.consume loop

/-- The next step of `render`. -/
def renderStep (s : BluetoothInputStream) : Option BluetoothInputStream :=
  match s.audio with
  | .idle => none
  | .called frames =>
      some { s with audio := .loadedGeneration frames s.generation }
  | .loadedGeneration frames gen =>
      if gen = s.seenGeneration then
        some { s with audio := .synchronized frames s.pcm.read }
      else
        some { s with seenGeneration := gen, audio := .restarting frames }
  | .restarting frames =>
      some { s with audio := .loadedStart frames s.startIndex }
  | .loadedStart frames readIndex => some (s.restart frames readIndex)
  | .synchronized frames readIndex =>
      some { s with audio := .loadedWrite frames readIndex s.pcm.write }
  | .loadedWrite frames readIndex writeIndex =>
      some (s.fill frames readIndex writeIndex (targetFill s.sampleRate))
  | .overflowed frames writeIndex target =>
      some (s.skip frames writeIndex target)
  | .filled frames readIndex available target =>
      some (s.beginLoop frames readIndex available target s.sampleRate)
  | .reading loop => some (s.readStep loop)
  | .readFirst loop first =>
      some { s with
        audio := .reading (loop.next first (s.pcm.ring loop.slotB)) }
  | .ranDry loop => some (s.consumeAll loop)

def render (s : BluetoothInputStream) (frames : Nat) :
    Option BluetoothInputStream :=
  match s.audio with
  | .idle =>
      if frames < 2 ^ 32 then some { s with audio := .called frames } else none
  | _ => none

def step (s : BluetoothInputStream) :
    InputEvent → Option BluetoothInputStream
  | .start address configuration =>
      s.call (.starting address
        (UInt32.ofNat (sbcSampleRate configuration)))
  | .stop => s.call .stopping
  | .push stereoFrames => s.pushFrames stereoFrames
  | .workerStep => s.workerStep
  | .render frames => s.render frames
  | .renderStep => s.renderStep

/-! ## Properties -/

/-- The slot that the audio thread is about to read. -/
def readingSlot (s : BluetoothInputStream) : Option Nat :=
  match s.audio with
  | .reading loop => if loop.goesOn then some loop.slotA else none
  | .readFirst loop _ => some loop.slotB
  | _ => none

/-- When a render restarts, the start index is no further behind the write
counter than the read counter. -/
def RestartsForward (s : BluetoothInputStream) (e : InputEvent) : Prop :=
  e = .renderStep → s.audio.isRestarting = true →
    (s.pcm.write - s.startIndex).toNat ≤ (s.pcm.write - s.pcm.read).toNat

instance (s : BluetoothInputStream) (e : InputEvent) :
    Decidable (RestartsForward s e) :=
  inferInstanceAs (Decidable (_ → _ → _))

/-! ## The invariant -/

/-- The consumer holds frames between the counters. -/
def Window (s : PcmRing) (r : Nat) (readIndex available : UInt32) : Prop :=
  ∃ n, readIndex = counter n ∧ r ≤ n ∧
    n + available.toNat ≤ s.written.length

/-- The loop has passed no more than what is available. -/
structure LoopInv (s : PcmRing) (r : Nat) (loop : RenderLoop) : Prop where
  window : Window s r loop.readIndex loop.available
  ratio_nonneg : 0 ≤ loop.ratio
  ratio_lt : loop.ratio < 2
  fraction_nonneg : 0 ≤ loop.fraction
  offset_le : loop.offset ≤ loop.available.toNat

/-- What the audio thread knows between its steps. -/
def AudioInv (s : BluetoothInputStream) (r : Nat) : Prop :=
  match s.audio with
  | .loadedStart _ readIndex =>
      ∃ n, readIndex = counter n ∧ r ≤ n ∧ n ≤ s.pcm.written.length
  | .synchronized _ readIndex => readIndex = counter r
  | .loadedWrite _ readIndex writeIndex =>
      readIndex = counter r ∧ ∃ n, writeIndex = counter n ∧ r ≤ n ∧
        n ≤ s.pcm.written.length ∧ n ≤ r + AUDIO_BT_PCM_RING_FRAMES
  | .overflowed _ writeIndex target =>
      ∃ n, writeIndex = counter n ∧ r + target.toNat ≤ n ∧
        n ≤ s.pcm.written.length
  | .filled _ readIndex available _ => Window s.pcm r readIndex available
  | .reading loop => LoopInv s.pcm r loop
  | .readFirst loop _ => LoopInv s.pcm r loop ∧ loop.goesOn = true
  | .ranDry loop => LoopInv s.pcm r loop
  | _ => True

/-- The rates that a start may store. -/
def WorkerInv (s : BluetoothInputStream) : Prop :=
  match s.worker with
  | .starting _ rate => rate.toNat ≤ SAMPLE_RATE
  | _ => True

structure Inv (s : BluetoothInputStream) (r : Nat) : Prop where
  pcm : s.pcm.Inv r
  rate_le : s.sampleRate.toNat ≤ SAMPLE_RATE
  readFrac_nonneg : 0 ≤ s.readFrac
  readFrac_lt : s.readFrac < 1
  worker : WorkerInv s
  audio : AudioInv s r

section Steps

variable {s s' : BluetoothInputStream} {r : Nat}

theorem rate_default_le : (48000 : UInt32).toNat ≤ SAMPLE_RATE := by decide

theorem inv_initial (ring : Nat → PcmFrame) : Inv (initial ring) 0 where
  pcm := PcmRing.inv_start ring
  rate_le := rate_default_le
  readFrac_nonneg := le_rfl
  readFrac_lt := one_pos
  worker := trivial
  audio := trivial

/-- More frames can be written while the audio thread renders. -/
theorem AudioInv.mono (h : AudioInv s r) {pcm : PcmRing}
    (hle : s.pcm.written.length ≤ pcm.written.length) :
    AudioInv { s with pcm := pcm } r := by
  have hwindow : ∀ {readIndex available : UInt32},
      Window s.pcm r readIndex available → Window pcm r readIndex available := by
    rintro readIndex available ⟨n, hindex, hr, hn⟩
    exact ⟨n, hindex, hr, hn.trans hle⟩
  have hloop : ∀ {loop : RenderLoop},
      LoopInv s.pcm r loop → LoopInv pcm r loop := by
    intro loop hloop
    exact ⟨hwindow hloop.window, hloop.ratio_nonneg, hloop.ratio_lt,
      hloop.fraction_nonneg, hloop.offset_le⟩
  rw [AudioInv] at h ⊢
  simp only
  split
  · rename_i readIndex heq
    rw [heq] at h
    obtain ⟨n, hindex, hr, hn⟩ := h
    exact ⟨n, hindex, hr, hn.trans hle⟩
  · rename_i readIndex heq
    rw [heq] at h
    exact h
  · rename_i readIndex writeIndex heq
    rw [heq] at h
    obtain ⟨hread, n, hindex, hr, hn, hring⟩ := h
    exact ⟨hread, n, hindex, hr, hn.trans hle, hring⟩
  · rename_i writeIndex target heq
    rw [heq] at h
    obtain ⟨n, hindex, hr, hn⟩ := h
    exact ⟨n, hindex, hr, hn.trans hle⟩
  · rename_i heq
    rw [heq] at h
    exact hwindow h
  · rename_i loop heq
    rw [heq] at h
    exact hloop h
  · rename_i loop first heq
    rw [heq] at h
    exact ⟨hloop h.1, h.2⟩
  · rename_i loop heq
    rw [heq] at h
    exact hloop h
  · trivial

/-! ### The Bluetooth worker -/

theorem sbcSampleRate_le (configuration : SbcElement) :
    sbcSampleRate configuration ≤ SAMPLE_RATE := by
  rw [sbcSampleRate]
  split_ifs
  · decide
  · decide
  · decide

theorem Inv.call (h : Inv s r) {worker : InputWorker}
    (hworker : WorkerInv { s with worker := worker })
    (hstep : s.call worker = some s') : Inv s' r := by
  rw [BluetoothInputStream.call] at hstep
  split at hstep
  · split at hstep
    · obtain rfl := Option.some.inj hstep
      exact ⟨h.pcm, h.rate_le, h.readFrac_nonneg, h.readFrac_lt, hworker,
        h.audio⟩
    · cases hstep
  · cases hstep

theorem Inv.pushFrames (h : Inv s r) {stereoFrames : List PcmFrame}
    (hstep : s.pushFrames stereoFrames = some s') : Inv s' r := by
  rw [BluetoothInputStream.pushFrames] at hstep
  split at hstep
  · obtain ⟨pcm, hpush, rfl⟩ := Option.map_eq_some_iff.mp hstep
    obtain ⟨hpcm, hwritten⟩ := h.pcm.push hpush
    exact ⟨hpcm, h.rate_le, h.readFrac_nonneg, h.readFrac_lt, h.worker,
      h.audio.mono (by rw [hwritten])⟩
  · cases hstep

theorem Inv.workerStep (h : Inv s r) (hstep : s.workerStep = some s') :
    Inv s' r := by
  have hworker := h.worker
  rw [WorkerInv] at hworker
  rw [BluetoothInputStream.workerStep] at hstep
  split at hstep
  · obtain ⟨pcm, hpush, rfl⟩ := Option.map_eq_some_iff.mp hstep
    obtain ⟨hpcm, hwritten⟩ := h.pcm.pushStep hpush
    exact ⟨hpcm, h.rate_le, h.readFrac_nonneg, h.readFrac_lt, h.worker,
      h.audio.mono hwritten⟩
  · rename_i address rate heq
    rw [heq] at hworker
    obtain rfl := Option.some.inj hstep
    refine ⟨h.pcm, ?_, h.readFrac_nonneg, h.readFrac_lt, trivial, h.audio⟩
    simp only
    split_ifs
    · decide
    · exact hworker
  all_goals
    obtain rfl := Option.some.inj hstep
    exact ⟨h.pcm, h.rate_le, h.readFrac_nonneg, h.readFrac_lt, trivial,
      h.audio⟩

/-! ### The audio thread -/

theorem rateOrDefault_le {rate : UInt32} (h : rate.toNat ≤ SAMPLE_RATE) :
    (rateOrDefault rate).toNat ≤ SAMPLE_RATE := by
  rw [rateOrDefault]
  split_ifs
  · exact rate_default_le
  · exact h

/-- The target fits the ring with room to spare. -/
theorem targetFill_le {rate : UInt32} (h : rate.toNat ≤ SAMPLE_RATE) :
    (targetFill rate).toNat ≤ 5760 := by
  have hrate : (rateOrDefault rate).toNat ≤ 48000 := rateOrDefault_le h
  rw [targetFill]
  split_ifs
  · decide
  · rw [UInt32.toNat_div, UInt32.toNat_mul]
    have hthree : (3 : UInt32).toNat = 3 := by decide
    have hparts : (25 : UInt32).toNat = 25 := by decide
    rw [hthree, hparts, Nat.mod_eq_of_lt (by omega)]
    omega

theorem clamp_mem {low high x : ℚ} (h : low ≤ high) :
    low ≤ clamp low high x ∧ clamp low high x ≤ high := by
  rw [clamp]
  exact ⟨le_max_left _ _, max_le h (min_le_left _ _)⟩

/-- A frame that is played advances by less than two frames. -/
theorem readRatio_mem {rate : UInt32} (h : rate.toNat ≤ SAMPLE_RATE)
    (error rateIntegral : ℚ) :
    0 ≤ readRatio rate (adjustment error rateIntegral) ∧
      readRatio rate (adjustment error rateIntegral) < 2 := by
  have hadjust : -5 / 1000 ≤ adjustment error rateIntegral ∧
      adjustment error rateIntegral ≤ 5 / 1000 := by
    rw [adjustment]
    exact clamp_mem (by norm_num)
  have hrate := rateOrDefault_le h
  have hsample : (0 : ℚ) < SAMPLE_RATE := by
    rw [SAMPLE_RATE]
    norm_num
  have hnonneg : (0 : ℚ) ≤ (rateOrDefault rate).toNat / SAMPLE_RATE := by
    positivity
  have hone : ((rateOrDefault rate).toNat : ℚ) / SAMPLE_RATE ≤ 1 := by
    rw [div_le_one hsample]
    exact_mod_cast hrate
  obtain ⟨hlow, hhigh⟩ := hadjust
  rw [readRatio]
  constructor
  · exact mul_nonneg hnonneg (by linarith)
  · calc (rateOrDefault rate).toNat / SAMPLE_RATE *
          (1 + adjustment error rateIntegral)
        ≤ 1 * (1 + adjustment error rateIntegral) :=
          mul_le_mul_of_nonneg_right hone (by linarith)
      _ < 2 := by linarith

/-- The audio thread only moves to another position. -/
theorem Inv.moveAudio (h : Inv s r) {audio : InputRender}
    (haudio : AudioInv { s with audio := audio } r) :
    Inv { s with audio := audio } r :=
  ⟨h.pcm, h.rate_le, h.readFrac_nonneg, h.readFrac_lt, h.worker, haudio⟩

theorem Inv.prime (h : Inv s r) (available : UInt32) :
    Inv (s.prime available) r := by
  rw [BluetoothInputStream.prime]
  split_ifs
  · exact h
  · exact ⟨h.pcm, h.rate_le, le_rfl, one_pos, h.worker, h.audio⟩

theorem prime_pcm (s : BluetoothInputStream) (available : UInt32) :
    (s.prime available).pcm = s.pcm := by
  rw [BluetoothInputStream.prime]
  split_ifs
  · rfl
  · rfl

/-- The counters that a render has loaded are as far apart as the frames
that it may play. -/
theorem Inv.fill (h : Inv s r) {frames : Nat} {readIndex writeIndex : UInt32}
    (haudio : s.audio = .loadedWrite frames readIndex writeIndex) :
    Inv (s.fill frames readIndex writeIndex (targetFill s.sampleRate)) r := by
  have hinv := h.audio
  rw [AudioInv, haudio] at hinv
  obtain ⟨rfl, n, rfl, hr, hn, hring⟩ := hinv
  have hlt := PcmRing.ring_lt
  have havailable : (counter n - counter r).toNat = n - r :=
    toNat_counter_sub hr (by omega)
  have htarget := targetFill_le h.rate_le
  have hprimed := h.prime (counter n - counter r)
  rw [BluetoothInputStream.fill]
  split_ifs with hsilent hfull
  · exact ⟨h.pcm, h.rate_le, h.readFrac_nonneg, h.readFrac_lt, h.worker,
      trivial⟩
  · apply hprimed.moveAudio
    have hlimit : (UInt32.ofNat (AUDIO_BT_PCM_RING_FRAMES - 2048)).toNat =
        14336 := by decide
    rw [gt_iff_lt, UInt32.lt_iff_toNat_lt, hlimit, havailable] at hfull
    refine ⟨n, rfl, by omega, ?_⟩
    simp only [prime_pcm]
    exact hn
  · apply hprimed.moveAudio
    refine ⟨r, rfl, Nat.le_refl r, ?_⟩
    simp only [prime_pcm, havailable]
    omega

theorem Inv.skip (h : Inv s r) {frames : Nat} {writeIndex target : UInt32}
    (haudio : s.audio = .overflowed frames writeIndex target) :
    Inv (s.skip frames writeIndex target) r := by
  have hinv := h.audio
  rw [AudioInv, haudio] at hinv
  obtain ⟨n, rfl, hr, hn⟩ := hinv
  refine ⟨h.pcm, h.rate_le, le_rfl, one_pos, h.worker,
    n - target.toNat, ?_, by omega, ?_⟩
  · apply UInt32.toNat.inj
    have htarget := target.toNat_lt
    rw [UInt32.toNat_sub, toNat_counter, toNat_counter]
    omega
  · simp only [BluetoothInputStream.skip]
    omega

theorem floor_lt_one {x : ℚ} (h : x < 1) : ⌊x⌋₊ = 0 :=
  Nat.floor_eq_zero.mpr h

theorem Inv.beginLoop (h : Inv s r) {frames : Nat}
    {readIndex available target : UInt32}
    (haudio : s.audio = .filled frames readIndex available target) :
    Inv (s.beginLoop frames readIndex available target s.sampleRate) r := by
  have hinv := h.audio
  rw [AudioInv, haudio] at hinv
  rw [BluetoothInputStream.beginLoop]
  obtain ⟨hnonneg, hlt⟩ := readRatio_mem h.rate_le
    (fillError (nextFill s.filteredFill available (frames / SAMPLE_RATE))
      target)
    (nextIntegral s.rateIntegral
      (fillError
        (nextFill s.filteredFill available (frames / SAMPLE_RATE)) target)
      (frames / SAMPLE_RATE))
  refine ⟨h.pcm, h.rate_le, h.readFrac_nonneg, h.readFrac_lt, h.worker,
    hinv, hnonneg, hlt, h.readFrac_nonneg, ?_⟩
  simp only [RenderLoop.offset, floor_lt_one h.readFrac_lt]
  exact Nat.zero_le _

theorem goesOn_iff {loop : RenderLoop} :
    loop.goesOn = true ↔ loop.rendered.length < loop.frames ∧
      loop.offset + 1 < loop.available.toNat := by
  rw [RenderLoop.goesOn, Bool.and_eq_true, decide_eq_true_iff,
    decide_eq_true_iff]

/-- Where two frames are available, the next offset is available too. -/
theorem LoopInv.next {pcm : PcmRing} {loop : RenderLoop}
    (h : LoopInv pcm r loop) (hon : loop.goesOn = true)
    (first second : PcmFrame) : LoopInv pcm r (loop.next first second) := by
  obtain ⟨-, hoffset⟩ := goesOn_iff.mp hon
  refine ⟨h.window, h.ratio_nonneg, h.ratio_lt,
    add_nonneg h.fraction_nonneg h.ratio_nonneg, ?_⟩
  have hfloor : loop.fraction < (loop.offset : ℚ) + 1 :=
    Nat.lt_floor_add_one _
  have hratio := h.ratio_lt
  have hnext : (loop.next first second).offset < loop.offset + 3 := by
    have hnonneg : 0 ≤ (loop.next first second).fraction :=
      add_nonneg h.fraction_nonneg h.ratio_nonneg
    rw [RenderLoop.offset, Nat.floor_lt hnonneg]
    push_cast
    simp only [RenderLoop.next]
    linarith
  have havailable :
      (loop.next first second).available = loop.available := rfl
  rw [havailable]
  omega

/-- A render publishes the frames that it has passed. -/
theorem LoopInv.storeRead {pcm : PcmRing} (hpcm : pcm.Inv r)
    {loop : RenderLoop} (h : LoopInv pcm r loop) {consumed : Nat}
    (hconsumed : consumed ≤ loop.available.toNat) :
    ∃ r', (pcm.storeRead (loop.readIndex + UInt32.ofNat consumed)).Inv r' := by
  obtain ⟨n, hindex, hr, hn⟩ := h.window
  have hsum : loop.readIndex + UInt32.ofNat consumed =
      counter (n + consumed) := by
    rw [hindex, counter_add]
    rfl
  rw [hsum]
  exact ⟨n + consumed, hpcm.storeRead (by omega) (by omega)⟩

theorem Inv.readStep (h : Inv s r) {loop : RenderLoop}
    (haudio : s.audio = .reading loop) : ∃ r', Inv (s.readStep loop) r' := by
  have hinv := h.audio
  rw [AudioInv, haudio] at hinv
  rw [BluetoothInputStream.readStep]
  split_ifs with hon hdry
  · exact ⟨r, h.moveAudio ⟨hinv, hon⟩⟩
  · exact ⟨r, h.pcm, h.rate_le, h.readFrac_nonneg, h.readFrac_lt, h.worker,
      hinv⟩
  · obtain ⟨r', hpcm⟩ := hinv.storeRead h.pcm hinv.offset_le
    refine ⟨r', hpcm, h.rate_le, ?_, ?_, h.worker, trivial⟩
    · exact sub_nonneg_of_le (Nat.floor_le hinv.fraction_nonneg)
    · have hfloor := Nat.lt_floor_add_one loop.fraction
      simp only [BluetoothInputStream.consume, RenderLoop.offset]
      linarith

theorem Inv.consumeAll (h : Inv s r) {loop : RenderLoop}
    (haudio : s.audio = .ranDry loop) : ∃ r', Inv (s.consumeAll loop) r' := by
  have hinv := h.audio
  rw [AudioInv, haudio] at hinv
  obtain ⟨r', hpcm⟩ := LoopInv.storeRead h.pcm hinv (Nat.le_refl _)
  rw [UInt32.ofNat_toNat] at hpcm
  exact ⟨r', hpcm, h.rate_le, le_rfl, one_pos, h.worker, trivial⟩

/-- The audio thread keeps the invariant, unless it restarts behind the read
counter. -/
theorem Inv.renderStep (h : Inv s r) (hforward : RestartsForward s .renderStep)
    (hstep : s.renderStep = some s') : ∃ r', Inv s' r' := by
  have hinv := h.audio
  rw [AudioInv] at hinv
  rw [BluetoothInputStream.renderStep] at hstep
  split at hstep
  · cases hstep
  · obtain rfl := Option.some.inj hstep
    exact ⟨r, h.moveAudio trivial⟩
  · split at hstep
    · obtain rfl := Option.some.inj hstep
      exact ⟨r, h.moveAudio h.pcm.read_eq⟩
    · obtain rfl := Option.some.inj hstep
      exact ⟨r, h.pcm, h.rate_le, h.readFrac_nonneg, h.readFrac_lt, h.worker,
        trivial⟩
  · rename_i frames heq
    obtain rfl := Option.some.inj hstep
    have hbehind := hforward rfl (by rw [heq]; rfl)
    rw [h.pcm.read_eq, h.pcm.toNat_behind (Nat.le_refl r) h.pcm.read_le,
      h.pcm.write_eq] at hbehind
    exact ⟨r, h.moveAudio (exists_counter_eq h.pcm.read_le hbehind)⟩
  · rename_i frames readIndex heq
    rw [heq] at hinv
    obtain ⟨n, rfl, hr, hn⟩ := hinv
    obtain rfl := Option.some.inj hstep
    exact ⟨n, h.pcm.storeRead hr hn, h.rate_le, le_rfl, one_pos, h.worker,
      rfl⟩
  · rename_i frames readIndex heq
    rw [heq] at hinv
    obtain rfl := Option.some.inj hstep
    exact ⟨r, h.moveAudio ⟨hinv, s.pcm.written.length, h.pcm.write_eq,
      h.pcm.read_le, Nat.le_refl _, h.pcm.written_le⟩⟩
  · rename_i frames readIndex writeIndex heq
    obtain rfl := Option.some.inj hstep
    exact ⟨r, h.fill heq⟩
  · rename_i frames writeIndex target heq
    obtain rfl := Option.some.inj hstep
    exact ⟨r, h.skip heq⟩
  · rename_i frames readIndex available target heq
    obtain rfl := Option.some.inj hstep
    exact ⟨r, h.beginLoop heq⟩
  · rename_i loop heq
    obtain rfl := Option.some.inj hstep
    exact h.readStep heq
  · rename_i loop first heq
    rw [heq] at hinv
    obtain rfl := Option.some.inj hstep
    exact ⟨r, h.moveAudio (hinv.1.next hinv.2 _ _)⟩
  · rename_i loop heq
    obtain rfl := Option.some.inj hstep
    exact h.consumeAll heq

theorem Inv.step {e : InputEvent} (h : Inv s r)
    (hforward : RestartsForward s e) (hstep : s.step e = some s') :
    ∃ r', Inv s' r' := by
  cases e with
  | start address configuration =>
      have hrate : (UInt32.ofNat (sbcSampleRate configuration)).toNat ≤
          SAMPLE_RATE := by
        rw [UInt32.toNat_ofNat']
        exact (Nat.mod_le _ _).trans (sbcSampleRate_le configuration)
      refine ⟨r, h.call ?_ hstep⟩
      exact hrate
  | stop =>
      refine ⟨r, h.call ?_ hstep⟩
      trivial
  | push stereoFrames => exact ⟨r, h.pushFrames hstep⟩
  | workerStep => exact ⟨r, h.workerStep hstep⟩
  | render frames =>
      rw [BluetoothInputStream.step, BluetoothInputStream.render] at hstep
      split at hstep
      · split_ifs at hstep
        obtain rfl := Option.some.inj hstep
        exact ⟨r, h.moveAudio trivial⟩
      · cases hstep
  | renderStep => exact h.renderStep hforward hstep

/-- The loop reads frames between the counters. -/
theorem Inv.safe (h : Inv s r) : s.pcm.Safe s.readingSlot := by
  apply h.pcm.safe
  have hinv := h.audio
  rw [AudioInv] at hinv
  have hslots : ∀ {loop : RenderLoop} {k : Nat}, LoopInv s.pcm r loop →
      loop.goesOn = true → k ≤ 1 →
      ∃ n, r ≤ n ∧ n < s.pcm.written.length ∧
        n % AUDIO_BT_PCM_RING_FRAMES =
          (loop.slotA + k) % AUDIO_BT_PCM_RING_FRAMES := by
    intro loop k hloop hon hk
    obtain ⟨-, hoffset⟩ := goesOn_iff.mp hon
    obtain ⟨n, hindex, hr, hn⟩ := hloop.window
    refine ⟨n + loop.offset + k, by omega, by omega, ?_⟩
    have hsum : loop.readIndex + UInt32.ofNat loop.offset =
        counter (n + loop.offset) := by
      rw [hindex, counter_add]
      rfl
    rw [RenderLoop.slotA, hsum, PcmRing.slot_counter, Nat.mod_add_mod]
  intro i hi
  rw [readingSlot] at hi
  split at hi
  · rename_i loop heq
    rw [heq] at hinv
    split_ifs at hi with hon
    · obtain rfl := Option.some.inj hi
      obtain ⟨n, hr, hn, hslot⟩ := @hslots loop 0 hinv hon (Nat.zero_le 1)
      refine ⟨n, hr, hn, hslot.trans ?_⟩
      rw [Nat.add_zero, RenderLoop.slotA, PcmRing.slot, Nat.mod_mod]
    · cases hi
  · rename_i loop first heq
    rw [heq] at hinv
    obtain rfl := Option.some.inj hi
    exact hslots hinv.1 hinv.2 (Nat.le_refl 1)
  · cases hi

end Steps

/-- In every run in which no render restarts behind the read counter, the
audio thread is safe. -/
theorem run_safe {ring : Nat → PcmFrame} {es : List InputEvent}
    {s : BluetoothInputStream}
    (h : Run (Guarded RestartsForward step) (initial ring) es s) :
    s.pcm.Safe s.readingSlot := by
  have hinv : ∃ r, Inv s r := by
    refine h.invariant (fun s => ∃ r, Inv s r) (P := fun _ => True) ?_
      (fun _ _ => trivial) ⟨0, inv_initial ring⟩
    rintro s e s' - ⟨r, hs⟩ ⟨hforward, hstep⟩
    exact hs.step hforward hstep
  obtain ⟨r, hs⟩ := hinv
  exact hs.safe

/-! ### A generation that begins behind a render -/

def someFrame : PcmFrame := ⟨1, -1⟩

def someConfiguration : SbcElement := ⟨[0x11, 0x15, 2, 53], rfl⟩

/-- A push is copying frames that are all alike. -/
def withCopying (s : BluetoothInputStream) (n frame : Nat) :
    BluetoothInputStream :=
  { s with
    pcm := { s.pcm with
      producer :=
        .copying s.pcm.write (List.replicate n someFrame) frame 0 } }

theorem foldlM_copying {s : BluetoothInputStream} (hworker : s.worker = .idle)
    (hring : s.pcm.ring = fun _ => someFrame) {n j : Nat} :
    ∀ {frame : Nat}, frame + j ≤ n →
      (List.replicate j InputEvent.workerStep).foldlM step
        (s.withCopying n frame) = some (s.withCopying n (frame + j)) := by
  induction j with
  | zero =>
      intro frame _
      rfl
  | succ j ih =>
      intro frame hle
      have hframe : (List.replicate n someFrame)[frame]? = some someFrame :=
        List.getElem?_replicate_of_lt (by omega)
      have hcopy : step (s.withCopying n frame) .workerStep =
          some (s.withCopying n (frame + 1)) := by
        simp [step, workerStep, withCopying, hworker, PcmRing.pushStep, hframe,
          PcmRing.copyFrame, hring]
      rw [List.replicate_succ, List.foldlM_cons, hcopy, Option.bind_eq_bind,
        Option.bind_some, ih (by omega)]
      congr 2
      omega

/-- A push that fits. -/
def pushSteps (n : Nat) : List InputEvent :=
  .push (List.replicate n someFrame) :: .workerStep :: .workerStep ::
    (List.replicate n .workerStep ++ [.workerStep])

def withPushed (s : BluetoothInputStream) (n : Nat) : BluetoothInputStream :=
  { s with
    pcm := { s.pcm with
      write := s.pcm.write + UInt32.ofNat n
      written := s.pcm.written ++ List.replicate n someFrame } }

theorem foldlM_pushSteps {s : BluetoothInputStream}
    (hworker : s.worker = .idle) (hproducer : s.pcm.producer = .idle)
    (hring : s.pcm.ring = fun _ => someFrame) {n : Nat} (hpos : 0 < n)
    (hlt : n < 4294967296)
    (hfree : n ≤ PcmRing.freeFrames (s.pcm.write - s.pcm.read)) :
    (pushSteps n).foldlM step s = some (s.withPushed n) := by
  have htake : (List.replicate n someFrame).take
      (PcmRing.freeFrames (s.pcm.write - s.pcm.read)) =
        List.replicate n someFrame :=
    List.take_of_length_le (by rw [List.length_replicate]; exact hfree)
  have hdropped : n - PcmRing.freeFrames (s.pcm.write - s.pcm.read) = 0 :=
    Nat.sub_eq_zero_of_le hfree
  have hbegin : [.push (List.replicate n someFrame), .workerStep,
      .workerStep].foldlM step s = some (s.withCopying n 0) := by
    simp [step, pushFrames, workerStep, hworker, PcmRing.push, hproducer,
      Nat.ne_of_gt hpos, hlt, PcmRing.pushStep, PcmRing.accept, htake, hdropped,
      withCopying]
  have hcopy := foldlM_copying hworker hring (Nat.zero_add n).le
  have hend : step (s.withCopying n (0 + n)) .workerStep =
      some (s.withPushed n) := by
    simp [step, workerStep, withCopying, hworker, PcmRing.pushStep,
      PcmRing.storeWrite, withPushed, hproducer]
  have hsplit : pushSteps n = [.push (List.replicate n someFrame),
      .workerStep, .workerStep] ++
        (List.replicate n .workerStep ++ [.workerStep]) := rfl
  rw [hsplit, List.foldlM_append, hbegin, Option.bind_eq_bind,
    Option.bind_some, List.foldlM_append, hcopy, Option.bind_eq_bind,
    Option.bind_some, List.foldlM_cons, hend, Option.bind_eq_bind,
    Option.bind_some, List.foldlM_nil]
  rfl

/-- A render has loaded the generation, and the next one begins. -/
def generationBehind : List InputEvent :=
  [.render BUFFER_FRAMES, .renderStep, .renderStep,
    .start 5 someConfiguration, .workerStep, .workerStep, .workerStep,
    .workerStep, .workerStep]

def behindGeneration : BluetoothInputStream :=
  { initial fun _ => someFrame with
    peer := 5
    generation := 1
    audio := .synchronized BUFFER_FRAMES 0 }

/-- The render plays a block, and the next one restarts. -/
def playAndRestart : List InputEvent :=
  List.replicate 260 .renderStep ++
    .render BUFFER_FRAMES :: List.replicate 4 .renderStep

/-- The frames of the first block are played again. -/
theorem restart_moves_back :
    ¬∀ (es : List InputEvent) (s : BluetoothInputStream),
      Run (fun s e s' => step s e = some s') (initial fun _ => someFrame)
        es s → s.pcm.Safe s.readingSlot := by
  intro hsafe
  have hplay : (playAndRestart.foldlM step
      (behindGeneration.withPushed 5760)).any
        (fun s => s.pcm.publishedReads = [128, 0]) = true := by
    decide +kernel
  obtain ⟨s, hrest, hreads⟩ := (Option.any_eq_true _ _).mp hplay
  have hfree : 5760 ≤ PcmRing.freeFrames
      (behindGeneration.pcm.write - behindGeneration.pcm.read) := by decide
  have hpush := @foldlM_pushSteps behindGeneration rfl rfl rfl 5760
    (by decide) (by decide) hfree
  have hbegin : generationBehind.foldlM step (initial fun _ => someFrame) =
      some behindGeneration := rfl
  have hall : (generationBehind ++ (pushSteps 5760 ++ playAndRestart)).foldlM
      step (initial fun _ => someFrame) = some s := by
    rw [List.foldlM_append, hbegin, Option.bind_eq_bind, Option.bind_some,
      List.foldlM_append, hpush, Option.bind_eq_bind, Option.bind_some, hrest]
  have hsorted := (hsafe _ _ (Run.of_foldlM hall)).reads_sorted
  rw [of_decide_eq_true hreads] at hsorted
  have hback : ¬[128, 0].Pairwise (· ≤ ·) := by decide
  exact hback hsorted

end BluetoothInputStream

end Audiox.Bluetooth
