import Audiox.Audio.BluetoothInput
import Mathlib

/-!
# The output stream of a Bluetooth link

The audio thread pushes blocks while the stream is active; the Bluetooth
worker activates and deactivates the stream, which drops what is queued, and
pulls resampled chunks.  Only the worker moves the read counter, and it never
moves it behind frames that it consumed.
-/

namespace Audiox.Bluetooth

open FreeRunning Runs

/-! ## Model -/

def BT_MAX_SBC_FRAMES_PER_PACKET : Nat := 8

/-- The frames that fit the buffer which the worker resamples into. -/
def maxOutputFrames : Nat :=
  BT_MAX_SBC_FRAMES_PER_PACKET * 128

/-- Where the audio thread is in `push`, until the ring takes over. -/
inductive OutputAudio where
  | idle
  | called (stereoFrames : List PcmFrame)

/-- The variables of the loop of `resample`. -/
structure ResampleLoop where
  outputFrames : Nat
  readIndex : UInt32
  ratio : ℚ
  fraction : ℚ
  stereoFrames : List PcmFrame

/-- Where the worker is in `setActive`, `updateRate` or `resample`. -/
inductive OutputWorker where
  | idle
  | deactivating (enable : Bool)
  | resetLoad (enable : Bool)
  | resetStore (enable : Bool) (index : UInt32)
  | activating
  | updatingRate (packetFrames : UInt32) (nowMs : UInt64)
  | rateLoadWrite (packetFrames : UInt32) (nowMs : UInt64)
  | rateLoadRead (packetFrames : UInt32) (nowMs : UInt64)
      (writeIndex : UInt32)
  | resampling (outputFrames : Nat)
  | loadedRead (outputFrames : Nat) (readIndex : UInt32)
  | reading (loop : ResampleLoop)
  | readFirst (loop : ResampleLoop) (first : PcmFrame)

structure BluetoothOutputStream where
  pcm : PcmRing
  active : Bool
  readFraction : ℚ
  rateIntegral : ℚ
  rateRatio : ℚ
  filteredFill : ℚ
  rateLastUpdateMs : UInt64
  rateInitialized : Bool
  audio : OutputAudio
  worker : OutputWorker
  resampled : List PcmFrame

inductive OutputEvent where
  | push (stereoFrames : List PcmFrame)
  | audioStep
  | setActive (enable : Bool)
  | updateRate (packetFrames : UInt32) (nowMs : UInt64)
  | resample (outputFrames : Nat)
  | workerStep
deriving DecidableEq

namespace ResampleLoop

def advance (loop : ResampleLoop) : Nat :=
  ⌊loop.fraction⌋₊

def slotA (loop : ResampleLoop) : Nat :=
  PcmRing.slot (loop.readIndex + UInt32.ofNat loop.advance)

def slotB (loop : ResampleLoop) : Nat :=
  (loop.slotA + 1) % AUDIO_BT_PCM_RING_FRAMES

def goesOn (loop : ResampleLoop) : Bool :=
  decide (loop.stereoFrames.length < loop.outputFrames)

/-- The conversion to an integer drops the fraction. -/
def toInt16 (value : ℚ) : Int16 :=
  Int16.ofInt (value.num.tdiv value.den)

def interpolate (loop : ResampleLoop) (a b : Int16) : Int16 :=
  toInt16 (BluetoothInputStream.clamp (-32768) 32767
    (a.toInt + (b.toInt - a.toInt) * (loop.fraction - loop.advance)))

def next (loop : ResampleLoop) (first second : PcmFrame) : ResampleLoop :=
  { loop with
    stereoFrames := loop.stereoFrames ++
      [⟨loop.interpolate first.left second.left,
        loop.interpolate first.right second.right⟩]
    fraction := loop.fraction + loop.ratio }

end ResampleLoop

namespace BluetoothOutputStream

open BluetoothInputStream (clamp clamp_mem)

def initial (ring : Nat → PcmFrame) : BluetoothOutputStream where
  pcm := .start ring
  active := false
  readFraction := 0
  rateIntegral := 0
  rateRatio := 1
  filteredFill := 0
  rateLastUpdateMs := 0
  rateInitialized := false
  audio := .idle
  worker := .idle
  resampled := []

/-! ### The audio thread -/

def push (s : BluetoothOutputStream) (stereoFrames : List PcmFrame) :
    Option BluetoothOutputStream :=
  match s.audio with
  | .idle =>
      match s.pcm.producer with
      | .idle => some { s with audio := .called stereoFrames }
      | _ => none
  | _ => none

def audioStep (s : BluetoothOutputStream) : Option BluetoothOutputStream :=
  match s.audio with
  | .idle => s.pcm.pushStep.map fun pcm => { s with pcm := pcm }
  | .called stereoFrames =>
      if s.active then
        (s.pcm.push stereoFrames).map fun pcm =>
          { s with pcm := pcm, audio := .idle }
      else some { s with audio := .idle }

/-! ### The Bluetooth worker -/

def call (s : BluetoothOutputStream) (worker : OutputWorker) :
    Option BluetoothOutputStream :=
  match s.worker with
  | .idle => some { s with worker := worker }
  | _ => none

/-- What is queued is dropped, and the rate starts anew. -/
def reset (s : BluetoothOutputStream) (enable : Bool) (index : UInt32) :
    BluetoothOutputStream :=
  { s with
    pcm := s.pcm.storeRead index
    readFraction := 0
    rateIntegral := 0
    rateRatio := 1
    filteredFill := 0
    rateLastUpdateMs := 0
    rateInitialized := false
    worker := if enable then .activating else .idle }

def elapsedMs (s : BluetoothOutputStream) (nowMs : UInt64) : UInt64 :=
  min 100 (if s.rateLastUpdateMs = 0 then 10 else nowMs - s.rateLastUpdateMs)

def nextFilteredFill (s : BluetoothOutputStream) (expf : ℚ → ℚ)
    (fill : UInt32) (elapsed : UInt64) : ℚ :=
  if s.rateInitialized then
    s.filteredFill +
      (fill.toNat - s.filteredFill) * (1 - expf (-elapsed.toNat / 80))
  else fill.toNat

def targetFill (packetFrames : UInt32) : ℚ :=
  packetFrames.toNat * (1 / 2) + BUFFER_FRAMES * (1 / 2)

def fillError (filteredFill : ℚ) (packetFrames : UInt32) : ℚ :=
  (filteredFill - targetFill packetFrames) / targetFill packetFrames

def nextRateIntegral (rateIntegral error : ℚ) (elapsed : UInt64) : ℚ :=
  clamp (-3 / 1000) (3 / 1000)
    (rateIntegral + error * elapsed.toNat * (1175 / 10000000000))

def nextRatio (error rateIntegral : ℚ) : ℚ :=
  clamp (995 / 1000) (1005 / 1000) (1 + error * (15 / 10000) + rateIntegral)

/-- The rate follows the fill that was computed. -/
def follow (s : BluetoothOutputStream) (nowMs : UInt64)
    (filteredFill error rateIntegral : ℚ) : BluetoothOutputStream :=
  { s with
    rateLastUpdateMs := nowMs
    rateInitialized := true
    filteredFill := filteredFill
    rateIntegral := rateIntegral
    rateRatio := nextRatio error rateIntegral
    worker := .idle }

/-- `updateRate` has loaded both counters. -/
def finishUpdate (s : BluetoothOutputStream) (expf : ℚ → ℚ)
    (packetFrames : UInt32) (nowMs : UInt64) (fill : UInt32) :
    BluetoothOutputStream :=
  s.follow nowMs (s.nextFilteredFill expf fill (s.elapsedMs nowMs))
    (fillError (s.nextFilteredFill expf fill (s.elapsedMs nowMs)) packetFrames)
    (nextRateIntegral s.rateIntegral
      (fillError (s.nextFilteredFill expf fill (s.elapsedMs nowMs))
        packetFrames)
      (s.elapsedMs nowMs))

def neededFrames (s : BluetoothOutputStream) (outputFrames : Nat) : UInt32 :=
  UInt32.ofNat ⌊s.readFraction + outputFrames * s.rateRatio⌋₊ + 2

/-- `resample` has loaded both counters. -/
def beginLoop (s : BluetoothOutputStream) (outputFrames : Nat)
    (readIndex writeIndex : UInt32) : BluetoothOutputStream :=
  if writeIndex - readIndex < s.neededFrames outputFrames then
    { s with resampled := [], worker := .idle }
  else
    { s with
      worker := .reading
        { outputFrames := outputFrames
          readIndex := readIndex
          ratio := s.rateRatio
          fraction := s.readFraction
          stereoFrames := [] } }

def readStep (s : BluetoothOutputStream) (loop : ResampleLoop) :
    BluetoothOutputStream :=
  if loop.goesOn then
    { s with worker := .readFirst loop (s.pcm.ring loop.slotA) }
  else
    { s with
      readFraction := loop.fraction - loop.advance
      pcm := s.pcm.storeRead (loop.readIndex + UInt32.ofNat loop.advance)
      resampled := loop.stereoFrames
      worker := .idle }

/-- The next step of the worker; `expf` is the exponential function. -/
def workerStep (s : BluetoothOutputStream) (expf : ℚ → ℚ) :
    Option BluetoothOutputStream :=
  match s.worker with
  | .idle => none
  | .deactivating enable =>
      some { s with active := false, worker := .resetLoad enable }
  | .resetLoad enable =>
      some { s with worker := .resetStore enable s.pcm.write }
  | .resetStore enable index => some (s.reset enable index)
  | .activating => some { s with active := true, worker := .idle }
  | .updatingRate packetFrames nowMs =>
      if s.active = false ∨
          (s.rateLastUpdateMs ≠ 0 ∧ nowMs - s.rateLastUpdateMs < 10) then
        some { s with worker := .idle }
      else some { s with worker := .rateLoadWrite packetFrames nowMs }
  | .rateLoadWrite packetFrames nowMs =>
      some { s with worker := .rateLoadRead packetFrames nowMs s.pcm.write }
  | .rateLoadRead packetFrames nowMs writeIndex =>
      some (s.finishUpdate expf packetFrames nowMs (writeIndex - s.pcm.read))
  | .resampling outputFrames =>
      some { s with worker := .loadedRead outputFrames s.pcm.read }
  | .loadedRead outputFrames readIndex =>
      some (s.beginLoop outputFrames readIndex s.pcm.write)
  | .reading loop => some (s.readStep loop)
  | .readFirst loop first =>
      some { s with
        worker := .reading (loop.next first (s.pcm.ring loop.slotB)) }

def step (expf : ℚ → ℚ) (s : BluetoothOutputStream) :
    OutputEvent → Option BluetoothOutputStream
  | .push stereoFrames =>
      if stereoFrames.length = 0 then some s
      else if stereoFrames.length < 2 ^ 32 then s.push stereoFrames
      else none
  | .audioStep => s.audioStep
  | .setActive enable => s.call (.deactivating enable)
  | .updateRate packetFrames nowMs =>
      if packetFrames = 0 then some s
      else s.call (.updatingRate packetFrames nowMs)
  | .resample outputFrames =>
      if outputFrames = 0 then some s
      else if outputFrames ≤ maxOutputFrames then
        s.call (.resampling outputFrames)
      else none
  | .workerStep => s.workerStep expf

/-- The slot that the worker is about to read. -/
def readingSlot (s : BluetoothOutputStream) : Option Nat :=
  match s.worker with
  | .reading loop => if loop.goesOn then some loop.slotA else none
  | .readFirst loop _ => some loop.slotB
  | _ => none

/-! ## The invariant -/

/-- What the loop still has to pass is written. -/
structure LoopInv (s : PcmRing) (r : Nat) (loop : ResampleLoop) : Prop where
  read_eq : loop.readIndex = counter r
  ratio_nonneg : 0 ≤ loop.ratio
  fraction_nonneg : 0 ≤ loop.fraction
  length_le : loop.stereoFrames.length ≤ loop.outputFrames
  needed_le : r + ⌊loop.fraction +
    ((loop.outputFrames - loop.stereoFrames.length : Nat) : ℚ) *
      loop.ratio⌋₊ + 2 ≤ s.written.length

/-- What the worker knows between its steps. -/
def WorkerInv (s : BluetoothOutputStream) (r : Nat) : Prop :=
  match s.worker with
  | .resetStore _ index =>
      ∃ n, index = counter n ∧ r ≤ n ∧ n ≤ s.pcm.written.length
  | .resampling outputFrames => outputFrames ≤ maxOutputFrames
  | .loadedRead outputFrames readIndex =>
      outputFrames ≤ maxOutputFrames ∧ readIndex = counter r
  | .reading loop => LoopInv s.pcm r loop
  | .readFirst loop _ => LoopInv s.pcm r loop ∧ loop.goesOn = true
  | _ => True

structure Inv (s : BluetoothOutputStream) (r : Nat) : Prop where
  pcm : s.pcm.Inv r
  readFraction_nonneg : 0 ≤ s.readFraction
  readFraction_lt : s.readFraction < 1
  rateRatio_nonneg : 0 ≤ s.rateRatio
  rateRatio_le : s.rateRatio ≤ 2
  worker : WorkerInv s r

section Steps

variable {s s' : BluetoothOutputStream} {r : Nat} {expf : ℚ → ℚ}

theorem inv_initial (ring : Nat → PcmFrame) : Inv (initial ring) 0 where
  pcm := PcmRing.inv_start ring
  readFraction_nonneg := le_rfl
  readFraction_lt := one_pos
  rateRatio_nonneg := zero_le_one
  rateRatio_le := one_le_two
  worker := trivial

theorem LoopInv.mono {pcm pcm' : PcmRing} {loop : ResampleLoop}
    (h : LoopInv pcm r loop) (hle : pcm.written.length ≤ pcm'.written.length) :
    LoopInv pcm' r loop :=
  ⟨h.read_eq, h.ratio_nonneg, h.fraction_nonneg, h.length_le,
    h.needed_le.trans hle⟩

/-- More frames can be written while the worker resamples. -/
theorem WorkerInv.mono (h : WorkerInv s r) {pcm : PcmRing}
    {audio : OutputAudio} (hle : s.pcm.written.length ≤ pcm.written.length) :
    WorkerInv { s with pcm := pcm, audio := audio } r := by
  rw [WorkerInv] at h ⊢
  simp only
  split
  · rename_i index heq
    rw [heq] at h
    obtain ⟨n, hindex, hr, hn⟩ := h
    exact ⟨n, hindex, hr, hn.trans hle⟩
  · rename_i heq
    rw [heq] at h
    exact h
  · rename_i heq
    rw [heq] at h
    exact h
  · rename_i loop heq
    rw [heq] at h
    exact h.mono hle
  · rename_i loop first heq
    rw [heq] at h
    exact ⟨h.1.mono hle, h.2⟩
  · trivial

/-! ### The audio thread -/

theorem Inv.audioStep (h : Inv s r) (hstep : s.audioStep = some s') :
    Inv s' r := by
  rw [BluetoothOutputStream.audioStep] at hstep
  split at hstep
  · obtain ⟨pcm, hpush, rfl⟩ := Option.map_eq_some_iff.mp hstep
    obtain ⟨hpcm, hwritten⟩ := h.pcm.pushStep hpush
    exact ⟨hpcm, h.readFraction_nonneg, h.readFraction_lt, h.rateRatio_nonneg,
      h.rateRatio_le, h.worker.mono hwritten⟩
  · split at hstep
    · obtain ⟨pcm, hpush, rfl⟩ := Option.map_eq_some_iff.mp hstep
      obtain ⟨hpcm, hwritten⟩ := h.pcm.push hpush
      exact ⟨hpcm, h.readFraction_nonneg, h.readFraction_lt,
        h.rateRatio_nonneg, h.rateRatio_le, h.worker.mono (by rw [hwritten])⟩
    · obtain rfl := Option.some.inj hstep
      exact ⟨h.pcm, h.readFraction_nonneg, h.readFraction_lt,
        h.rateRatio_nonneg, h.rateRatio_le, h.worker⟩

/-! ### The Bluetooth worker -/

/-- The worker only moves to another position. -/
theorem Inv.moveWorker (h : Inv s r) {worker : OutputWorker}
    {active : Bool} {resampled : List PcmFrame}
    (hworker : WorkerInv { s with worker := worker } r) :
    Inv { s with
      active := active, worker := worker, resampled := resampled } r :=
  ⟨h.pcm, h.readFraction_nonneg, h.readFraction_lt, h.rateRatio_nonneg,
    h.rateRatio_le, hworker⟩

theorem Inv.call (h : Inv s r) {worker : OutputWorker}
    (hworker : WorkerInv { s with worker := worker } r)
    (hstep : s.call worker = some s') : Inv s' r := by
  rw [BluetoothOutputStream.call] at hstep
  split at hstep
  · obtain rfl := Option.some.inj hstep
    exact h.moveWorker hworker
  · cases hstep

theorem Inv.reset (h : Inv s r) {enable : Bool} {n : Nat} (hr : r ≤ n)
    (hn : n ≤ s.pcm.written.length) :
    Inv (s.reset enable (counter n)) n := by
  refine ⟨h.pcm.storeRead hr hn, le_rfl, one_pos, zero_le_one, one_le_two, ?_⟩
  rw [WorkerInv]
  cases enable with
  | false => trivial
  | true => trivial

theorem Inv.finishUpdate (h : Inv s r) {packetFrames fill : UInt32}
    {nowMs : UInt64} : Inv (s.finishUpdate expf packetFrames nowMs fill) r := by
  have hratio : ∀ error rateIntegral : ℚ,
      0 ≤ nextRatio error rateIntegral ∧ nextRatio error rateIntegral ≤ 2 := by
    intro error rateIntegral
    have hmem : 995 / 1000 ≤ nextRatio error rateIntegral ∧
        nextRatio error rateIntegral ≤ 1005 / 1000 := by
      rw [nextRatio]
      exact clamp_mem (by norm_num)
    constructor
    · linarith [hmem.1]
    · linarith [hmem.2]
  exact ⟨h.pcm, h.readFraction_nonneg, h.readFraction_lt, (hratio _ _).1,
    (hratio _ _).2, trivial⟩

/-- The needed frames are counted without overflow. -/
theorem Inv.toNat_neededFrames (h : Inv s r) {outputFrames : Nat}
    (hmax : outputFrames ≤ maxOutputFrames) :
    (s.neededFrames outputFrames).toNat =
      ⌊s.readFraction + outputFrames * s.rateRatio⌋₊ + 2 := by
  have hmax' : (outputFrames : ℚ) ≤ 1024 := by exact_mod_cast hmax
  have hlt : s.readFraction + outputFrames * s.rateRatio < 4096 := by
    have hproduct : (outputFrames : ℚ) * s.rateRatio ≤ 1024 * 2 :=
      mul_le_mul hmax' h.rateRatio_le h.rateRatio_nonneg (by norm_num)
    linarith [h.readFraction_lt]
  have hfloor : ⌊s.readFraction + outputFrames * s.rateRatio⌋₊ < 4096 := by
    rw [Nat.floor_lt (add_nonneg h.readFraction_nonneg
      (mul_nonneg (Nat.cast_nonneg _) h.rateRatio_nonneg))]
    exact_mod_cast hlt
  have htwo : (2 : UInt32).toNat = 2 := by decide
  rw [neededFrames, UInt32.toNat_add, UInt32.toNat_ofNat', htwo]
  omega

theorem Inv.beginLoop (h : Inv s r) {outputFrames : Nat}
    (hmax : outputFrames ≤ maxOutputFrames) :
    Inv (s.beginLoop outputFrames (counter r) s.pcm.write) r := by
  have hbehind := h.pcm.toNat_behind (Nat.le_refl r) h.pcm.read_le
  have hread := h.pcm.read_le
  rw [BluetoothOutputStream.beginLoop]
  split_ifs with hfill
  · exact ⟨h.pcm, h.readFraction_nonneg, h.readFraction_lt,
      h.rateRatio_nonneg, h.rateRatio_le, trivial⟩
  · rw [UInt32.lt_iff_toNat_lt, hbehind, h.toNat_neededFrames hmax] at hfill
    apply h.moveWorker
    refine ⟨rfl, h.rateRatio_nonneg, h.readFraction_nonneg, Nat.zero_le _, ?_⟩
    simp only [List.length_nil, Nat.sub_zero]
    omega

theorem goesOn_iff {loop : ResampleLoop} :
    loop.goesOn = true ↔ loop.stereoFrames.length < loop.outputFrames := by
  rw [ResampleLoop.goesOn, decide_eq_true_iff]

/-- The offset is no further than what is still needed. -/
theorem LoopInv.advance_le {pcm : PcmRing} {loop : ResampleLoop}
    (h : LoopInv pcm r loop) : r + loop.advance + 2 ≤ pcm.written.length := by
  have hle : loop.fraction ≤ loop.fraction +
      ((loop.outputFrames - loop.stereoFrames.length : Nat) : ℚ) *
        loop.ratio :=
    le_add_of_nonneg_right (mul_nonneg (Nat.cast_nonneg _) h.ratio_nonneg)
  have hfloor := Nat.floor_le_floor hle
  have hneeded := h.needed_le
  rw [ResampleLoop.advance]
  omega

theorem LoopInv.next {pcm : PcmRing} {loop : ResampleLoop}
    (h : LoopInv pcm r loop) (hon : loop.goesOn = true)
    (first second : PcmFrame) : LoopInv pcm r (loop.next first second) := by
  have hlt := goesOn_iff.mp hon
  have hlength : (loop.next first second).stereoFrames.length =
      loop.stereoFrames.length + 1 := List.length_append
  have hleft : loop.outputFrames - loop.stereoFrames.length =
      loop.outputFrames - (loop.stereoFrames.length + 1) + 1 := by omega
  refine ⟨h.read_eq, h.ratio_nonneg,
    add_nonneg h.fraction_nonneg h.ratio_nonneg, ?_, ?_⟩
  · rw [hlength]
    exact hlt
  · have hneeded := h.needed_le
    have hsame : loop.fraction +
        ((loop.outputFrames - loop.stereoFrames.length : Nat) : ℚ) *
          loop.ratio = loop.fraction + loop.ratio +
        ((loop.outputFrames - (loop.stereoFrames.length + 1) : Nat) : ℚ) *
          loop.ratio := by
      rw [hleft]
      push_cast
      ring
    rw [hsame] at hneeded
    rw [hlength]
    exact hneeded

theorem Inv.readStep (h : Inv s r) {loop : ResampleLoop}
    (hworker : s.worker = .reading loop) : ∃ r', Inv (s.readStep loop) r' := by
  have hinv := h.worker
  rw [WorkerInv, hworker] at hinv
  rw [BluetoothOutputStream.readStep]
  split_ifs with hon
  · exact ⟨r, h.moveWorker ⟨hinv, hon⟩⟩
  · have hadvance := hinv.advance_le
    have hsum : loop.readIndex + UInt32.ofNat loop.advance =
        counter (r + loop.advance) := by
      rw [hinv.read_eq, counter_add]
      rfl
    rw [hsum]
    refine ⟨r + loop.advance, h.pcm.storeRead (Nat.le_add_right _ _)
      (by omega), ?_, ?_, h.rateRatio_nonneg, h.rateRatio_le, trivial⟩
    · exact sub_nonneg_of_le (Nat.floor_le hinv.fraction_nonneg)
    · have hfloor := Nat.lt_floor_add_one loop.fraction
      simp only [ResampleLoop.advance]
      linarith

theorem Inv.workerStep (h : Inv s r) (hstep : s.workerStep expf = some s') :
    ∃ r', Inv s' r' := by
  have hinv := h.worker
  rw [WorkerInv] at hinv
  rw [BluetoothOutputStream.workerStep] at hstep
  split at hstep
  · cases hstep
  · obtain rfl := Option.some.inj hstep
    exact ⟨r, h.moveWorker trivial⟩
  · obtain rfl := Option.some.inj hstep
    exact ⟨r, h.moveWorker ⟨s.pcm.written.length, h.pcm.write_eq,
      h.pcm.read_le, Nat.le_refl _⟩⟩
  · rename_i enable index heq
    rw [heq] at hinv
    obtain ⟨n, rfl, hr, hn⟩ := hinv
    obtain rfl := Option.some.inj hstep
    exact ⟨n, h.reset hr hn⟩
  · obtain rfl := Option.some.inj hstep
    exact ⟨r, h.moveWorker trivial⟩
  · split at hstep
    · obtain rfl := Option.some.inj hstep
      exact ⟨r, h.moveWorker trivial⟩
    · obtain rfl := Option.some.inj hstep
      exact ⟨r, h.moveWorker trivial⟩
  · obtain rfl := Option.some.inj hstep
    exact ⟨r, h.moveWorker trivial⟩
  · obtain rfl := Option.some.inj hstep
    exact ⟨r, h.finishUpdate⟩
  · rename_i outputFrames heq
    rw [heq] at hinv
    obtain rfl := Option.some.inj hstep
    exact ⟨r, h.moveWorker ⟨hinv, h.pcm.read_eq⟩⟩
  · rename_i outputFrames readIndex heq
    rw [heq] at hinv
    obtain ⟨hmax, rfl⟩ := hinv
    obtain rfl := Option.some.inj hstep
    exact ⟨r, h.beginLoop hmax⟩
  · rename_i loop heq
    obtain rfl := Option.some.inj hstep
    exact h.readStep heq
  · rename_i loop first heq
    rw [heq] at hinv
    obtain rfl := Option.some.inj hstep
    exact ⟨r, h.moveWorker (hinv.1.next hinv.2 _ _)⟩

theorem Inv.step {e : OutputEvent} (h : Inv s r)
    (hstep : s.step expf e = some s') : ∃ r', Inv s' r' := by
  cases e with
  | push stereoFrames =>
      rw [BluetoothOutputStream.step] at hstep
      split_ifs at hstep
      · obtain rfl := Option.some.inj hstep
        exact ⟨r, h⟩
      · rw [BluetoothOutputStream.push] at hstep
        split at hstep
        · split at hstep
          · obtain rfl := Option.some.inj hstep
            exact ⟨r, h.pcm, h.readFraction_nonneg, h.readFraction_lt,
              h.rateRatio_nonneg, h.rateRatio_le, h.worker⟩
          · cases hstep
        · cases hstep
  | audioStep => exact ⟨r, h.audioStep hstep⟩
  | setActive enable =>
      refine ⟨r, h.call ?_ hstep⟩
      trivial
  | updateRate packetFrames nowMs =>
      rw [BluetoothOutputStream.step] at hstep
      split_ifs at hstep
      · obtain rfl := Option.some.inj hstep
        exact ⟨r, h⟩
      · refine ⟨r, h.call ?_ hstep⟩
        trivial
  | resample outputFrames =>
      rw [BluetoothOutputStream.step] at hstep
      split_ifs at hstep with hzero hmax
      · obtain rfl := Option.some.inj hstep
        exact ⟨r, h⟩
      · refine ⟨r, h.call ?_ hstep⟩
        exact hmax
  | workerStep => exact h.workerStep hstep

/-- The loop reads frames between the counters. -/
theorem Inv.safe (h : Inv s r) : s.pcm.Safe s.readingSlot := by
  apply h.pcm.safe
  have hinv := h.worker
  rw [WorkerInv] at hinv
  have hslots : ∀ {loop : ResampleLoop} {k : Nat}, LoopInv s.pcm r loop →
      k ≤ 1 → ∃ n, r ≤ n ∧ n < s.pcm.written.length ∧
        n % AUDIO_BT_PCM_RING_FRAMES =
          (loop.slotA + k) % AUDIO_BT_PCM_RING_FRAMES := by
    intro loop k hloop hk
    have hadvance := hloop.advance_le
    refine ⟨r + loop.advance + k, by omega, by omega, ?_⟩
    have hsum : loop.readIndex + UInt32.ofNat loop.advance =
        counter (r + loop.advance) := by
      rw [hloop.read_eq, counter_add]
      rfl
    rw [ResampleLoop.slotA, hsum, PcmRing.slot_counter, Nat.mod_add_mod]
  intro i hi
  rw [readingSlot] at hi
  split at hi
  · rename_i loop heq
    rw [heq] at hinv
    split_ifs at hi with hon
    · obtain rfl := Option.some.inj hi
      obtain ⟨n, hr, hn, hslot⟩ := @hslots loop 0 hinv (Nat.zero_le 1)
      refine ⟨n, hr, hn, hslot.trans ?_⟩
      rw [Nat.add_zero, ResampleLoop.slotA, PcmRing.slot, Nat.mod_mod]
    · cases hi
  · rename_i loop first heq
    rw [heq] at hinv
    obtain rfl := Option.some.inj hi
    exact hslots hinv.1 (Nat.le_refl 1)
  · cases hi

end Steps

/-- The worker is safe in every run. -/
theorem run_safe {expf : ℚ → ℚ} {ring : Nat → PcmFrame}
    {es : List OutputEvent} {s : BluetoothOutputStream}
    (h : Run (fun s e s' => step expf s e = some s') (initial ring) es s) :
    s.pcm.Safe s.readingSlot := by
  have hinv : ∃ r, Inv s r := by
    refine h.invariant (fun s => ∃ r, Inv s r) (P := fun _ => True) ?_
      (fun _ _ => trivial) ⟨0, inv_initial ring⟩
    rintro s e s' - ⟨r, hs⟩ hstep
    exact hs.step hstep
  obtain ⟨r, hs⟩ := hinv
  exact hs.safe

end BluetoothOutputStream

/-! ## Both streams -/

/-- Both streams are safe in every run in which no render of the input stream
restarts behind its read counter. -/
theorem streams_safe {expf : ℚ → ℚ} {ring : Nat → PcmFrame} :
    (∀ {es : List InputEvent} {s : BluetoothInputStream},
      Run (Guarded BluetoothInputStream.RestartsForward
        BluetoothInputStream.step) (.initial ring) es s →
          s.pcm.Safe s.readingSlot) ∧
    ∀ {es : List OutputEvent} {s : BluetoothOutputStream},
      Run (fun s e s' => BluetoothOutputStream.step expf s e = some s')
        (.initial ring) es s → s.pcm.Safe s.readingSlot :=
  ⟨BluetoothInputStream.run_safe, BluetoothOutputStream.run_safe⟩

/-- A stream starts and two frames are pushed while a render restarts. -/
def startAndRender : List InputEvent :=
  [.start 5 BluetoothInputStream.someConfiguration, .workerStep, .workerStep,
    .workerStep, .workerStep, .render BUFFER_FRAMES, .renderStep, .workerStep,
    .push [⟨1, -1⟩, ⟨2, -2⟩], .workerStep, .renderStep, .renderStep,
    .workerStep, .workerStep, .renderStep, .workerStep, .workerStep,
    .renderStep, .renderStep]

/-- Three frames are pushed, and a chunk is about to be read. -/
def pushAndResample : List OutputEvent :=
  [.setActive true, .workerStep, .workerStep, .workerStep, .workerStep,
    .push [⟨1, -1⟩, ⟨2, -2⟩, ⟨3, -3⟩]] ++
    List.replicate 7 .audioStep ++
    [.resample 1, .workerStep, .workerStep, .workerStep]

theorem streams_safe_runs :
    (∃ s : BluetoothInputStream, s.pcm.written = [⟨1, -1⟩, ⟨2, -2⟩] ∧
      s.pcm.publishedReads = [0] ∧ s.pcm.Safe s.readingSlot) ∧
    ∃ s : BluetoothOutputStream, s.readingSlot = some 1 ∧
      s.pcm.Safe s.readingSlot := by
  have hinput : (startAndRender.foldlM
      (guarded BluetoothInputStream.RestartsForward BluetoothInputStream.step)
      (.initial fun _ => ⟨0, 0⟩)).any (fun s =>
        s.pcm.written = [⟨1, -1⟩, ⟨2, -2⟩] ∧ s.pcm.publishedReads = [0]) =
      true := by
    decide
  have houtput : (pushAndResample.foldlM (BluetoothOutputStream.step id)
      (.initial fun _ => ⟨0, 0⟩)).any (fun s => s.readingSlot = some 1) =
      true := by
    decide +kernel
  obtain ⟨s, hrun, hs⟩ := (Option.any_eq_true _ _).mp hinput
  obtain ⟨s', hrun', hs'⟩ := (Option.any_eq_true _ _).mp houtput
  obtain ⟨hwritten, hreads⟩ := of_decide_eq_true hs
  refine ⟨⟨s, hwritten, hreads, ?_⟩, s', of_decide_eq_true hs', ?_⟩
  · exact (@streams_safe id _).1 (Run.of_guarded hrun)
  · exact (@streams_safe id _).2 (Run.of_foldlM hrun')

end Audiox.Bluetooth
