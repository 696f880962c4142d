import Audiox.Support.CircularBuffer
import Mathlib

/-!
# The ring of captured frames

A capture stream keeps its most recent frames in a ring.  Frames are pushed,
or written into the ring in place, and a reader consumes them with a
fractional step.

Indices are 32-bit numbers, so the sum of an index and an offset can wrap
around; steps are exact rationals.
-/

namespace Audiox

open CircularBuffer

/-! ## Model -/

def wrap32 (x : Nat) : Nat :=
  x % 2 ^ 32

/-- One sample for each channel. -/
abbrev Frame (maxChannels : Nat) : Type :=
  Fin maxChannels → Int16

structure PcmCaptureRing (frameCapacity maxChannels : Nat) where
  head : Nat
  tail : Nat
  count : Nat
  readFraction : ℚ
  lastSamples : Fin maxChannels → ℚ
  samples : Nat → Frame maxChannels

namespace PcmCaptureRing

variable {frameCapacity maxChannels : Nat}

def empty (frameCapacity maxChannels : Nat) :
    PcmCaptureRing frameCapacity maxChannels where
  head := 0
  tail := 0
  count := 0
  readFraction := 0
  lastSamples _ := 0
  samples _ _ := 0

variable (ring : PcmCaptureRing frameCapacity maxChannels)

def reset : PcmCaptureRing frameCapacity maxChannels :=
  { ring with
    head := 0
    tail := 0
    count := 0
    readFraction := 0
    lastSamples := fun _ => 0 }

def frameIndex (offset : Nat) : Nat :=
  wrap32 (ring.head + offset) % frameCapacity

def readFrameIndex (offset : Nat) : Nat :=
  wrap32 (ring.tail + offset) % frameCapacity

/-- A full ring drops its oldest frame. -/
def makeRoom : PcmCaptureRing frameCapacity maxChannels :=
  if ring.count ≥ frameCapacity then
    { ring with
      tail := wrap32 (ring.tail + 1) % frameCapacity
      count := frameCapacity - 1 }
  else ring

def advanceHead : PcmCaptureRing frameCapacity maxChannels :=
  { ring with
    head := wrap32 (ring.head + 1) % frameCapacity
    count := wrap32 (ring.count + 1) }

def storeFrame (index : Nat) (frame : Frame maxChannels) :
    PcmCaptureRing frameCapacity maxChannels :=
  { ring with samples := Function.update ring.samples index frame }

def pushFrame (frame : Frame maxChannels) :
    PcmCaptureRing frameCapacity maxChannels :=
  (ring.makeRoom.storeFrame ring.makeRoom.head frame).advanceHead

/-- A frame of interleaved input; channels that are missing are zero. -/
def inputFrame (maxChannels : Nat) (input : Nat → Int16)
    (channels frame : Nat) : Frame maxChannels := fun channel =>
  if channel < channels then input (frame * channels + channel) else 0

/-- The frames that a call pushes. -/
def pushedFrames (maxChannels : Nat) (input : Option (Nat → Int16))
    (channels frames : Nat) : List (Frame maxChannels) :=
  match input with
  | none => []
  | some input =>
      if channels = 0 ∨ channels > maxChannels then []
      else (List.range frames).map (inputFrame maxChannels input channels)

def push (input : Option (Nat → Int16)) (channels frames : Nat) :
    PcmCaptureRing frameCapacity maxChannels :=
  (pushedFrames maxChannels input channels frames).foldl pushFrame ring

def advanceWritten (frames : Nat) :
    PcmCaptureRing frameCapacity maxChannels :=
  (fun ring => ring.makeRoom.advanceHead)^[frames] ring

/-- Stores frames at the writable positions `offset`, `offset + 1`, … -/
def storeWritable (ring : PcmCaptureRing frameCapacity maxChannels)
    (offset : Nat) : List (Frame maxChannels) →
    PcmCaptureRing frameCapacity maxChannels
  | [] => ring
  | frame :: frames =>
      storeWritable (ring.storeFrame (ring.frameIndex offset) frame)
        (offset + 1) frames

def writeInPlace (frames : List (Frame maxChannels)) :
    PcmCaptureRing frameCapacity maxChannels :=
  (ring.storeWritable 0 frames).advanceWritten frames.length

/-- The loop of `consume`; every round takes one of the counted frames. -/
def consumeFrames (ring : PcmCaptureRing frameCapacity maxChannels) :
    Nat → PcmCaptureRing frameCapacity maxChannels
  | 0 => ring
  | rounds + 1 =>
      if 1 ≤ ring.readFraction ∧ ring.count > 0 then
        consumeFrames { ring with
          tail := wrap32 (ring.tail + 1) % frameCapacity
          count := ring.count - 1
          readFraction := ring.readFraction - 1 } rounds
      else ring

def consume (sourceStep : ℚ) : PcmCaptureRing frameCapacity maxChannels :=
  let moved := consumeFrames
    { ring with readFraction := ring.readFraction + sourceStep } ring.count
  if moved.count = 0 then { moved with readFraction := 0 } else moved

end PcmCaptureRing

/-! ## Runs -/

inductive CaptureOp (maxChannels : Nat) where
  | push (input : Option (Nat → Int16)) (channels frames : Nat)
  | writeInPlace (frames : List (Frame maxChannels))
  | consume (sourceStep : ℚ)
  | reset

/-- Not more frames are written in place than the ring can hold, and steps
are not negative. -/
def CaptureOp.Allowed (frameCapacity : Nat) {maxChannels : Nat} :
    CaptureOp maxChannels → Prop
  | .push _ _ _ => True
  | .writeInPlace frames => frames.length ≤ frameCapacity
  | .consume sourceStep => 0 ≤ sourceStep
  | .reset => True

/-- A ring together with what was done to it: the frames that were written
and neither consumed nor dropped, and since the ring was last empty the
accumulated steps and the number of frames that `consume` took. -/
structure Capture (frameCapacity maxChannels : Nat) where
  ring : PcmCaptureRing frameCapacity maxChannels
  unconsumed : List (Frame maxChannels)
  steps : ℚ
  consumed : Nat

namespace Capture

variable {frameCapacity maxChannels : Nat}

def start (frameCapacity maxChannels : Nat) :
    Capture frameCapacity maxChannels :=
  ⟨.empty frameCapacity maxChannels, [], 0, 0⟩

/-- Frames are written; the oldest are dropped on overflow. -/
def written (c : Capture frameCapacity maxChannels)
    (ring : PcmCaptureRing frameCapacity maxChannels)
    (frames : List (Frame maxChannels)) : Capture frameCapacity maxChannels :=
  { c with
    ring := ring
    unconsumed := recent frameCapacity (c.unconsumed ++ frames) }

def apply (c : Capture frameCapacity maxChannels) :
    CaptureOp maxChannels → Capture frameCapacity maxChannels
  | .push input channels frames =>
      c.written (c.ring.push input channels frames)
        (PcmCaptureRing.pushedFrames maxChannels input channels frames)
  | .writeInPlace frames => c.written (c.ring.writeInPlace frames) frames
  | .consume sourceStep =>
      let ring := c.ring.consume sourceStep
      let taken := c.ring.count - ring.count
      if ring.count = 0 then ⟨ring, c.unconsumed.drop taken, 0, 0⟩
      else ⟨ring, c.unconsumed.drop taken, c.steps + sourceStep,
        c.consumed + taken⟩
  | .reset => ⟨c.ring.reset, [], 0, 0⟩

def run (frameCapacity maxChannels : Nat)
    (ops : List (CaptureOp maxChannels)) : Capture frameCapacity maxChannels :=
  ops.foldl apply (start frameCapacity maxChannels)

/-- Full-width frames as interleaved samples. -/
def interleaved (frames : List (Frame maxChannels)) (i : Nat) : Int16 :=
  match frames[i / maxChannels]? with
  | some frame =>
      if h : i % maxChannels < maxChannels then frame ⟨i % maxChannels, h⟩
      else 0
  | none => 0

/-- The ring keeps the most recent frames. -/
structure Keeps (c : Capture frameCapacity maxChannels) : Prop where
  count_le : c.ring.count ≤ frameCapacity
  head_eq : c.ring.head = (c.ring.tail + c.ring.count) % frameCapacity
  length_eq : c.unconsumed.length = c.ring.count
  read_eq : ∀ i < c.ring.count,
    c.unconsumed[i]? = some (c.ring.samples (c.ring.readFrameIndex i))
  consumed_eq : (c.consumed : ℤ) = ⌊c.steps⌋
  inPlace_eq : ∀ frames : List (Frame maxChannels),
    frames.length ≤ frameCapacity →
      c.ring.writeInPlace frames =
        c.ring.push (some (interleaved frames)) maxChannels frames.length

end Capture

/-! ## The layout of the frames -/

namespace PcmCaptureRing

variable {frameCapacity maxChannels : Nat}
  {ring : PcmCaptureRing frameCapacity maxChannels}
  {frames : List (Frame maxChannels)}

theorem wrap32_of_lt {x : Nat} (h : x < 2 ^ 32) : wrap32 x = x :=
  Nat.mod_eq_of_lt h

/-- The ring holds the frames in order, from its tail to its head. -/
structure Layout (ring : PcmCaptureRing frameCapacity maxChannels)
    (frames : List (Frame maxChannels)) : Prop where
  tail_lt : ring.tail < frameCapacity
  count_le : ring.count ≤ frameCapacity
  head_eq : ring.head = (ring.tail + ring.count) % frameCapacity
  length_eq : frames.length = ring.count
  holds : Holds frameCapacity ring.samples ring.tail frames

theorem Layout.head_lt (h : Layout ring frames) :
    ring.head < frameCapacity := by
  rw [h.head_eq]
  exact Nat.mod_lt _ (Nat.zero_lt_of_lt h.tail_lt)

/-- After room was made the ring is not full. -/
theorem Layout.makeRoom (h : Layout ring frames)
    (hcapacity : frameCapacity < 2 ^ 32) :
    Layout ring.makeRoom (recent (frameCapacity - 1) frames) ∧
      ring.makeRoom.count < frameCapacity := by
  have hpos : 0 < frameCapacity := Nat.zero_lt_of_lt h.tail_lt
  have hlen := h.length_eq
  have hle := h.count_le
  by_cases hfull : ring.count ≥ frameCapacity
  · have hcount : ring.count = frameCapacity := le_antisymm hle hfull
    have hskip : frames.length - (frameCapacity - 1) = 1 := by omega
    rw [PcmCaptureRing.makeRoom, if_pos hfull, recent, hskip]
    have hwrap : wrap32 (ring.tail + 1) = ring.tail + 1 :=
      wrap32_of_lt (Nat.lt_of_le_of_lt h.tail_lt hcapacity)
    refine ⟨⟨?_, ?_, ?_, ?_, ?_⟩, Nat.sub_lt hpos Nat.one_pos⟩
    · exact Nat.mod_lt _ hpos
    · exact Nat.sub_le _ _
    · simp only [h.head_eq, hwrap, hcount, Nat.mod_add_mod]
      congr 1
      omega
    · simp only [List.length_drop]
      omega
    · rw [hwrap]
      exact h.holds.drop 1
  · rw [PcmCaptureRing.makeRoom, if_neg hfull, recent_of_le (by omega)]
    exact ⟨h, not_le.mp hfull⟩

/-- A frame is stored at the head of a ring that is not full. -/
theorem Layout.storeFrame_advanceHead (h : Layout ring frames)
    (hroom : ring.count < frameCapacity) (hcapacity : frameCapacity < 2 ^ 32)
    (frame : Frame maxChannels) :
    Layout (ring.storeFrame ring.head frame).advanceHead
      (frames ++ [frame]) := by
  have hhead : wrap32 (ring.head + 1) = ring.head + 1 :=
    wrap32_of_lt (Nat.lt_of_le_of_lt h.head_lt hcapacity)
  have hcount : wrap32 (ring.count + 1) = ring.count + 1 :=
    wrap32_of_lt (Nat.lt_of_le_of_lt hroom hcapacity)
  have hlen := h.length_eq
  constructor
  · exact h.tail_lt
  · simp only [advanceHead, storeFrame, hcount]
    exact hroom
  · simp only [advanceHead, storeFrame, hhead, hcount]
    rw [h.head_eq, Nat.mod_add_mod, add_assoc]
  · simp only [advanceHead, storeFrame, hcount, List.length_append,
      List.length_singleton, hlen]
  · have hholds := h.holds.concat (by omega) frame
    rw [hlen, ← h.head_eq] at hholds
    exact hholds

theorem Layout.pushFrame (h : Layout ring frames)
    (hcapacity : frameCapacity < 2 ^ 32) (frame : Frame maxChannels) :
    Layout (ring.pushFrame frame)
      (recent frameCapacity (frames ++ [frame])) := by
  have hpos : 0 < frameCapacity := Nat.zero_lt_of_lt h.tail_lt
  obtain ⟨hmade, hroom⟩ := h.makeRoom hcapacity
  have hrecent : recent frameCapacity (frames ++ [frame]) =
      recent (frameCapacity - 1) frames ++ [frame] := by
    have hskip : frames.length + 1 - frameCapacity =
        frames.length - (frameCapacity - 1) := by omega
    rw [recent, recent, List.length_append, List.length_singleton, hskip,
      List.drop_append_of_le_length (Nat.sub_le _ _)]
  rw [hrecent]
  exact hmade.storeFrame_advanceHead hroom hcapacity frame

theorem Layout.foldl_pushFrame (h : Layout ring frames)
    (hcapacity : frameCapacity < 2 ^ 32)
    (more : List (Frame maxChannels)) :
    Layout (more.foldl PcmCaptureRing.pushFrame ring)
      (recent frameCapacity (frames ++ more)) := by
  induction more generalizing ring frames with
  | nil =>
      rw [List.append_nil, recent_of_le (h.length_eq.le.trans h.count_le)]
      exact h
  | cons frame more ih =>
      have hpushed := ih (h.pushFrame hcapacity frame)
      rw [recent_recent_append, List.append_assoc] at hpushed
      exact hpushed

/-! ## Writing in place -/

@[simp] theorem makeRoom_head : ring.makeRoom.head = ring.head := by
  rw [PcmCaptureRing.makeRoom]
  split
  · rfl
  · rfl

theorem makeRoom_storeFrame (index : Nat) (frame : Frame maxChannels) :
    (ring.storeFrame index frame).makeRoom =
      ring.makeRoom.storeFrame index frame := by
  by_cases hfull : ring.count ≥ frameCapacity
  · rw [PcmCaptureRing.makeRoom, PcmCaptureRing.makeRoom, if_pos hfull,
      if_pos (show (ring.storeFrame index frame).count ≥ _ from hfull)]
    rfl
  · rw [PcmCaptureRing.makeRoom, PcmCaptureRing.makeRoom, if_neg hfull,
      if_neg (show ¬(ring.storeFrame index frame).count ≥ _ from hfull)]

theorem pushFrame_eq (frame : Frame maxChannels) :
    ring.pushFrame frame =
      (ring.storeFrame ring.head frame).makeRoom.advanceHead := by
  rw [PcmCaptureRing.pushFrame, makeRoom_storeFrame, makeRoom_head]

/-- The writable positions move with the head. -/
theorem frameIndex_advance {offset : Nat}
    (hwrap : frameCapacity + (offset + 1) ≤ 2 ^ 32)
    (hhead : ring.head < frameCapacity) :
    ring.makeRoom.advanceHead.frameIndex offset =
      ring.frameIndex (offset + 1) := by
  have hmod : (ring.head + 1) % frameCapacity < frameCapacity :=
    Nat.mod_lt _ (Nat.zero_lt_of_lt hhead)
  simp only [frameIndex, advanceHead, makeRoom_head]
  rw [wrap32_of_lt (x := ring.head + 1) (by omega), wrap32_of_lt (by omega),
    wrap32_of_lt (by omega), Nat.mod_add_mod]
  congr 1
  omega

theorem storeWritable_advance (offset : Nat)
    (hwrap : frameCapacity + (offset + 1 + frames.length) ≤ 2 ^ 32)
    (hhead : ring.head < frameCapacity) :
    (ring.storeWritable (offset + 1) frames).makeRoom.advanceHead =
      ring.makeRoom.advanceHead.storeWritable offset frames := by
  induction frames generalizing ring offset with
  | nil => rfl
  | cons frame frames ih =>
      rw [List.length_cons] at hwrap
      have hstored : (ring.storeFrame (ring.frameIndex (offset + 1))
          frame).head < frameCapacity := hhead
      rw [storeWritable, storeWritable, ih (offset + 1) (by omega) hstored,
        frameIndex_advance (by omega) hhead]
      rw [makeRoom_storeFrame]
      rfl

/-- Frames that are written in place are pushed. -/
theorem writeInPlace_eq (hhead : ring.head < frameCapacity)
    (hwrap : frameCapacity + frames.length ≤ 2 ^ 32) :
    ring.writeInPlace frames = frames.foldl PcmCaptureRing.pushFrame ring := by
  induction frames generalizing ring with
  | nil => rfl
  | cons frame frames ih =>
      rw [List.length_cons] at hwrap
      have hindex : ring.frameIndex 0 = ring.head := by
        rw [frameIndex, add_zero, wrap32_of_lt (by omega),
          Nat.mod_eq_of_lt hhead]
      have hpos : 0 < frameCapacity := Nat.zero_lt_of_lt hhead
      have hstored : (ring.storeFrame ring.head frame).head <
          frameCapacity := hhead
      rw [List.foldl_cons, ← ih (Nat.mod_lt _ hpos) (by omega), pushFrame_eq]
      rw [writeInPlace, storeWritable, hindex, List.length_cons,
        advanceWritten, Function.iterate_succ_apply,
        storeWritable_advance 0 (by omega) hstored]
      rfl

/-! ## Consuming -/

/-- What the loop of `consume` leaves after it took `k` frames. -/
structure Took (ring : PcmCaptureRing frameCapacity maxChannels) (k : Nat)
    (ring' : PcmCaptureRing frameCapacity maxChannels) : Prop where
  le_count : k ≤ ring.count
  head_eq : ring'.head = ring.head
  tail_eq : ring'.tail = (ring.tail + k) % frameCapacity
  count_eq : ring'.count = ring.count - k
  fraction_eq : ring'.readFraction = ring.readFraction - k
  samples_eq : ring'.samples = ring.samples

theorem consumeFrames_took {rounds : Nat}
    (htail : ring.tail < frameCapacity) (hcapacity : frameCapacity < 2 ^ 32)
    (hfraction : 0 ≤ ring.readFraction) (hrounds : ring.count ≤ rounds) :
    ∃ k, Took ring k (ring.consumeFrames rounds) ∧
      0 ≤ (ring.consumeFrames rounds).readFraction ∧
      ((ring.consumeFrames rounds).readFraction < 1 ∨
        (ring.consumeFrames rounds).count = 0) := by
  have hnone : Took ring 0 ring :=
    ⟨Nat.zero_le _, rfl, (Nat.mod_eq_of_lt htail).symm, rfl, by simp, rfl⟩
  induction rounds generalizing ring with
  | zero => exact ⟨0, hnone, hfraction, .inr (Nat.le_zero.mp hrounds)⟩
  | succ rounds ih =>
      by_cases h : 1 ≤ ring.readFraction ∧ ring.count > 0
      · have hwrap : wrap32 (ring.tail + 1) = ring.tail + 1 :=
          wrap32_of_lt (Nat.lt_of_le_of_lt htail hcapacity)
        have hmod : wrap32 (ring.tail + 1) % frameCapacity <
            frameCapacity := Nat.mod_lt _ (Nat.zero_lt_of_lt htail)
        rw [consumeFrames, if_pos h]
        obtain ⟨k, htook, hnonneg, hends⟩ :=
          @ih { ring with
            tail := wrap32 (ring.tail + 1) % frameCapacity
            count := ring.count - 1
            readFraction := ring.readFraction - 1 }
          hmod (sub_nonneg.mpr h.1) (Nat.sub_le_of_le_add hrounds)
          ⟨Nat.zero_le _, rfl, (Nat.mod_eq_of_lt hmod).symm, rfl, by simp, rfl⟩
        refine ⟨k + 1, ⟨?_, htook.head_eq, ?_, ?_, ?_, htook.samples_eq⟩,
          hnonneg, hends⟩
        · have hle := htook.le_count
          simp only at hle
          omega
        · rw [htook.tail_eq, hwrap, Nat.mod_add_mod]
          congr 1
          omega
        · rw [htook.count_eq]
          simp only
          omega
        · rw [htook.fraction_eq]
          push_cast
          ring
      · rw [consumeFrames, if_neg h]
        refine ⟨0, hnone, hfraction, ?_⟩
        rw [not_and_or, not_le, Nat.not_lt, Nat.le_zero] at h
        exact h

theorem Layout.took (h : Layout ring frames) {k : Nat}
    {ring' : PcmCaptureRing frameCapacity maxChannels}
    (htook : Took ring k ring') : Layout ring' (frames.drop k) := by
  have hle := htook.le_count
  constructor
  · rw [htook.tail_eq]
    exact Nat.mod_lt _ (Nat.zero_lt_of_lt h.tail_lt)
  · rw [htook.count_eq]
    exact (Nat.sub_le _ _).trans h.count_le
  · rw [htook.head_eq, h.head_eq, htook.tail_eq, htook.count_eq,
      Nat.mod_add_mod]
    congr 1
    omega
  · rw [List.length_drop, h.length_eq, htook.count_eq]
  · rw [htook.samples_eq, htook.tail_eq]
    exact h.holds.drop k

end PcmCaptureRing

/-! ## The invariant of a run -/

namespace Capture

open PcmCaptureRing

variable {frameCapacity maxChannels : Nat}
  {c : Capture frameCapacity maxChannels} {op : CaptureOp maxChannels}

/-- The layout, and a fraction that is what the steps exceed the consumed
frames by. -/
structure Inv (c : Capture frameCapacity maxChannels) : Prop where
  layout : Layout c.ring c.unconsumed
  fraction_eq : c.ring.readFraction = c.steps - c.consumed
  fraction_nonneg : 0 ≤ c.ring.readFraction
  fraction_lt : c.ring.readFraction < 1

theorem inv_start (hpos : 0 < frameCapacity) :
    Inv (start frameCapacity maxChannels) where
  layout := ⟨hpos, Nat.zero_le _, (Nat.zero_mod _).symm, rfl, .nil⟩
  fraction_eq := by simp [start, PcmCaptureRing.empty]
  fraction_nonneg := le_refl _
  fraction_lt := zero_lt_one

theorem foldl_pushFrame_fraction
    (frames : List (Frame maxChannels))
    (ring : PcmCaptureRing frameCapacity maxChannels) :
    (frames.foldl PcmCaptureRing.pushFrame ring).readFraction =
      ring.readFraction := by
  induction frames generalizing ring with
  | nil => rfl
  | cons frame frames ih =>
      rw [List.foldl_cons, ih, pushFrame_eq, PcmCaptureRing.makeRoom]
      split
      · rfl
      · rfl

theorem Inv.written (h : Inv c) (hcapacity : frameCapacity < 2 ^ 32)
    (frames : List (Frame maxChannels)) :
    Inv (c.written (frames.foldl PcmCaptureRing.pushFrame c.ring) frames) := by
  have hfraction := foldl_pushFrame_fraction frames c.ring
  constructor
  · exact h.layout.foldl_pushFrame hcapacity frames
  · exact hfraction.trans h.fraction_eq
  · exact hfraction.symm ▸ h.fraction_nonneg
  · exact hfraction.symm ▸ h.fraction_lt

theorem Inv.push (h : Inv c) (hcapacity : frameCapacity < 2 ^ 32)
    (input : Option (Nat → Int16)) (channels frames : Nat) :
    Inv (c.apply (.push input channels frames)) :=
  h.written hcapacity _

theorem Inv.consume (h : Inv c) (hcapacity : frameCapacity < 2 ^ 32)
    {sourceStep : ℚ} (hstep : 0 ≤ sourceStep) :
    Inv (c.apply (.consume sourceStep)) := by
  obtain ⟨k, htook, hnonneg, hends⟩ := @consumeFrames_took _ _
    { c.ring with readFraction := c.ring.readFraction + sourceStep }
    c.ring.count h.layout.tail_lt hcapacity
    (add_nonneg h.fraction_nonneg hstep) le_rfl
  have hstart : Layout
      { c.ring with readFraction := c.ring.readFraction + sourceStep }
      c.unconsumed :=
    ⟨h.layout.tail_lt, h.layout.count_le, h.layout.head_eq,
      h.layout.length_eq, h.layout.holds⟩
  have hlayout := hstart.took htook
  have hle := htook.le_count
  have hcount := htook.count_eq
  have hfraction := htook.fraction_eq
  rw [Capture.apply, PcmCaptureRing.consume]
  generalize consumeFrames { c.ring with
    readFraction := c.ring.readFraction + sourceStep } c.ring.count = moved
    at htook hnonneg hends hlayout hcount hfraction ⊢
  simp only at hle hcount hfraction
  have htaken : c.ring.count - moved.count = k := by omega
  by_cases hempty : moved.count = 0
  · simp only [if_pos hempty, htaken]
    exact ⟨⟨hlayout.tail_lt, hlayout.count_le, hlayout.head_eq,
      hlayout.length_eq, hlayout.holds⟩, by simp, le_refl _, zero_lt_one⟩
  · simp only [if_neg hempty, htaken]
    refine ⟨hlayout, ?_, hnonneg, hends.resolve_right hempty⟩
    rw [hfraction, h.fraction_eq]
    push_cast
    ring

theorem Inv.reset (h : Inv c) : Inv (c.apply .reset) where
  layout := ⟨Nat.zero_lt_of_lt h.layout.tail_lt, Nat.zero_le _,
    (Nat.zero_mod _).symm, rfl, .nil⟩
  fraction_eq := by simp [Capture.apply, PcmCaptureRing.reset]
  fraction_nonneg := le_refl _
  fraction_lt := zero_lt_one

theorem Inv.apply (h : Inv c) (hsmall : frameCapacity ≤ 2 ^ 31)
    (hallowed : op.Allowed frameCapacity) : Inv (c.apply op) := by
  have hcapacity : frameCapacity < 2 ^ 32 := by omega
  cases op with
  | push input channels frames => exact h.push hcapacity input channels frames
  | writeInPlace frames =>
      rw [CaptureOp.Allowed] at hallowed
      rw [Capture.apply, writeInPlace_eq h.layout.head_lt (by omega)]
      exact h.written hcapacity frames
  | consume sourceStep => exact h.consume hcapacity hallowed
  | reset => exact h.reset

theorem inv_run (hpos : 0 < frameCapacity) (hsmall : frameCapacity ≤ 2 ^ 31)
    (ops : List (CaptureOp maxChannels))
    (hallowed : ∀ op ∈ ops, op.Allowed frameCapacity) :
    Inv (run frameCapacity maxChannels ops) := by
  induction ops using List.reverseRecOn with
  | nil => exact inv_start hpos
  | append_singleton ops op ih =>
      rw [run, List.foldl_append]
      refine (ih fun other hother => hallowed other ?_).apply hsmall ?_
      · simp [hother]
      · exact hallowed op (by simp)

theorem pushedFrames_interleaved (hchannels : 0 < maxChannels)
    (frames : List (Frame maxChannels)) :
    pushedFrames maxChannels (some (interleaved frames)) maxChannels
      frames.length = frames := by
  have hvalid : ¬(maxChannels = 0 ∨ maxChannels > maxChannels) := by omega
  rw [pushedFrames, if_neg hvalid]
  refine List.ext_getElem (by simp) fun i _ hi => ?_
  rw [List.getElem_map, List.getElem_range]
  funext channel
  have hdiv : (i * maxChannels + channel) / maxChannels = i := by
    rw [mul_comm, Nat.mul_add_div hchannels, Nat.div_eq_of_lt channel.isLt,
      add_zero]
  have hmod : (i * maxChannels + channel) % maxChannels = channel := by
    rw [mul_comm, Nat.mul_add_mod, Nat.mod_eq_of_lt channel.isLt]
  simp only [inputFrame, interleaved, hdiv, hmod,
    List.getElem?_eq_getElem hi, channel.isLt, if_true, dif_pos, Fin.eta]

theorem Inv.keeps (h : Inv c) (hchannels : 0 < maxChannels)
    (hsmall : frameCapacity ≤ 2 ^ 31) : Keeps c := by
  have hlayout := h.layout
  have hlen := hlayout.length_eq
  have hle := hlayout.count_le
  have htail := hlayout.tail_lt
  constructor
  · exact hle
  · exact hlayout.head_eq
  · exact hlen
  · intro i hi
    rw [readFrameIndex, wrap32_of_lt (by omega)]
    exact hlayout.holds.getElem? (by omega)
  · symm
    rw [Int.floor_eq_iff]
    have hfraction := h.fraction_eq
    have hnonneg := h.fraction_nonneg
    have hlt := h.fraction_lt
    push_cast
    constructor
    · linarith
    · linarith
  · intro frames hframes
    rw [writeInPlace_eq hlayout.head_lt (by omega), PcmCaptureRing.push,
      pushedFrames_interleaved hchannels]

/-! ## Large capacities -/

theorem foldl_pushFrame_head (frames : List (Frame maxChannels))
    (ring : PcmCaptureRing frameCapacity maxChannels)
    (hcapacity : frameCapacity < 2 ^ 32) (hhead : ring.head < frameCapacity) :
    (frames.foldl PcmCaptureRing.pushFrame ring).head =
      (ring.head + frames.length) % frameCapacity := by
  induction frames generalizing ring with
  | nil => exact (Nat.mod_eq_of_lt hhead).symm
  | cons frame frames ih =>
      have hnext : (ring.pushFrame frame).head =
          (ring.head + 1) % frameCapacity := by
        rw [pushFrame_eq, advanceHead, makeRoom_head]
        simp only [storeFrame]
        rw [wrap32_of_lt (Nat.lt_of_le_of_lt hhead hcapacity)]
      have hlt : (ring.pushFrame frame).head < frameCapacity := by
        rw [hnext]
        exact Nat.mod_lt _ (Nat.zero_lt_of_lt hhead)
      rw [List.foldl_cons, ih _ hlt, hnext, Nat.mod_add_mod,
        List.length_cons]
      congr 1
      omega

/-- Silence except for one frame. -/
def loudInput (frameCapacity i : Nat) : Int16 :=
  if i = frameCapacity - 2 then 1 else 0

/-- Fills the ring with silence, and pushes silence and one loud frame until
the tail is at the last slot. -/
def wrappingRun (frameCapacity maxChannels : Nat) :
    List (CaptureOp maxChannels) :=
  [.push (some fun _ => 0) 1 frameCapacity,
    .push (some (loudInput frameCapacity)) 1 (frameCapacity - 1)]

theorem pushedFrames_one (hchannels : 0 < maxChannels) (input : Nat → Int16)
    (frames : Nat) :
    pushedFrames maxChannels (some input) 1 frames =
      (List.range frames).map (inputFrame maxChannels input 1) := by
  have hvalid : ¬(1 = 0 ∨ 1 > maxChannels) := by omega
  rw [pushedFrames, if_neg hvalid]

theorem wrappingRun_unconsumed (hchannels : 0 < maxChannels) :
    (run frameCapacity maxChannels
      (wrappingRun frameCapacity maxChannels)).unconsumed =
        recent frameCapacity
          ((List.range frameCapacity).map
              (inputFrame maxChannels (fun _ => 0) 1) ++
            (List.range (frameCapacity - 1)).map
              (inputFrame maxChannels (loudInput frameCapacity) 1)) := by
  rw [← pushedFrames_one hchannels, ← pushedFrames_one hchannels,
    ← recent_recent_append]
  rfl

/-- The frames that the run leaves after the oldest one. -/
theorem wrappingRun_getElem? (hchannels : 0 < maxChannels) {i : Nat}
    (hi : i + 1 < frameCapacity) :
    (run frameCapacity maxChannels
      (wrappingRun frameCapacity maxChannels)).unconsumed[i + 1]? =
        some (inputFrame maxChannels (loudInput frameCapacity) 1 i) := by
  rw [wrappingRun_unconsumed hchannels, recent, List.getElem?_drop,
    List.length_append, List.length_map, List.length_map, List.length_range,
    List.length_range, List.getElem?_append_right
      (by rw [List.length_map, List.length_range]; omega),
    List.length_map, List.length_range, List.getElem?_map]
  have hindex : frameCapacity + (frameCapacity - 1) - frameCapacity +
      (i + 1) - frameCapacity = i := by omega
  rw [hindex, List.getElem?_range (by omega)]
  rfl

theorem wrappingRun_head (hchannels : 0 < maxChannels)
    (hpos : 0 < frameCapacity) (hcapacity : frameCapacity < 2 ^ 32) :
    (run frameCapacity maxChannels
      (wrappingRun frameCapacity maxChannels)).ring.head =
        frameCapacity - 1 := by
  have hfirst := foldl_pushFrame_head
    (pushedFrames maxChannels (some fun _ => 0) 1 frameCapacity)
    (.empty frameCapacity maxChannels) hcapacity hpos
  have hsecond := foldl_pushFrame_head
    (pushedFrames maxChannels (some (loudInput frameCapacity)) 1
      (frameCapacity - 1)) _ hcapacity
    (hfirst.trans_lt (Nat.mod_lt _ hpos))
  refine hsecond.trans ?_
  rw [hfirst, pushedFrames_one hchannels, pushedFrames_one hchannels,
    List.length_map, List.length_map, List.length_range, List.length_range,
    Nat.mod_add_mod]
  change (0 + frameCapacity + (frameCapacity - 1)) % frameCapacity = _
  rw [zero_add, Nat.add_mod_left, Nat.mod_eq_of_lt (by omega)]

/-- A later slot is read as an earlier one when the index wraps around. -/
theorem wrappingRun_not_keeps (hchannels : 0 < maxChannels)
    (hcapacity : frameCapacity < 2 ^ 32) (hlarge : 2 ^ 31 < frameCapacity) :
    ¬Keeps (run frameCapacity maxChannels
      (wrappingRun frameCapacity maxChannels)) := by
  intro hkeeps
  have hpos : 0 < frameCapacity := by omega
  have hinv : Inv (run frameCapacity maxChannels
      (wrappingRun frameCapacity maxChannels)) :=
    ((inv_start hpos).push hcapacity _ _ _).push hcapacity _ _ _
  have hhead := wrappingRun_head hchannels hpos hcapacity
  have hlast := @wrappingRun_getElem? frameCapacity maxChannels hchannels
    (frameCapacity - 2) (by omega)
  have hearly := @wrappingRun_getElem? frameCapacity maxChannels hchannels
    (2 * frameCapacity - 2 - 2 ^ 32) (by omega)
  generalize run frameCapacity maxChannels
    (wrappingRun frameCapacity maxChannels) = c
    at hkeeps hinv hhead hlast hearly
  have hlen : c.unconsumed.length = c.ring.count := hinv.layout.length_eq
  have hcount : c.ring.count = frameCapacity := by
    have hmem := (List.getElem?_eq_some_iff.mp hlast).1
    have hle := hinv.layout.count_le
    omega
  have htail : c.ring.tail = frameCapacity - 1 := by
    have heq := hinv.layout.head_eq
    rw [hcount, Nat.add_mod_right, Nat.mod_eq_of_lt hinv.layout.tail_lt,
      hhead] at heq
    exact heq.symm
  have hslot : c.ring.readFrameIndex (frameCapacity - 1) =
      2 * frameCapacity - 2 - 2 ^ 32 := by
    have hwrap : wrap32 (frameCapacity - 1 + (frameCapacity - 1)) =
        2 * frameCapacity - 2 - 2 ^ 32 := by
      rw [wrap32]
      omega
    rw [readFrameIndex, htail, hwrap, Nat.mod_eq_of_lt (by omega)]
  have hheld := hinv.layout.holds.getElem?
    (i := 2 * frameCapacity - 2 - 2 ^ 32 + 1) (by omega)
  have hsame : (c.ring.tail + (2 * frameCapacity - 2 - 2 ^ 32 + 1)) %
      frameCapacity = 2 * frameCapacity - 2 - 2 ^ 32 := by
    have hturn : frameCapacity - 1 + (2 * frameCapacity - 2 - 2 ^ 32 + 1) =
        frameCapacity + (2 * frameCapacity - 2 - 2 ^ 32) := by omega
    rw [htail, hturn, Nat.add_mod_left, Nat.mod_eq_of_lt (by omega)]
  have hread := hkeeps.read_eq (frameCapacity - 1) (by omega)
  have hindex : frameCapacity - 2 + 1 = frameCapacity - 1 := by omega
  rw [hslot, ← hindex, hlast] at hread
  rw [hsame, ← hread, hearly] at hheld
  have hloud := congrFun (Option.some.inj hheld) ⟨0, hchannels⟩
  simp only [inputFrame, loudInput, mul_one, add_zero, Nat.zero_lt_one,
    if_true] at hloud
  rw [if_neg (by omega)] at hloud
  exact absurd hloud (by decide)

/-- The ring keeps the most recent frames in every run exactly if an index
and an offset cannot wrap around. -/
theorem run_keeps_iff (frameCapacity maxChannels : Nat)
    (hpos : 0 < frameCapacity) (hcapacity : frameCapacity < 2 ^ 32)
    (hchannels : 0 < maxChannels) :
    (∀ ops : List (CaptureOp maxChannels),
      (∀ op ∈ ops, op.Allowed frameCapacity) →
        Keeps (run frameCapacity maxChannels ops)) ↔
      frameCapacity ≤ 2 ^ 31 := by
  constructor
  · intro hkeeps
    by_contra hlarge
    refine wrappingRun_not_keeps hchannels hcapacity (not_le.mp hlarge)
      (hkeeps _ ?_)
    intro op hop
    rw [wrappingRun, List.mem_pair] at hop
    rcases hop with rfl | rfl
    · trivial
    · trivial
  · intro hsmall ops hallowed
    exact (inv_run hpos hsmall ops hallowed).keeps hchannels hsmall

theorem run_keeps_four_frames :
    (∀ ops : List (CaptureOp 2), (∀ op ∈ ops, op.Allowed 4) →
      Keeps (run 4 2 ops)) ↔ 4 ≤ 2 ^ 31 :=
  run_keeps_iff 4 2 (by decide) (by decide) (by decide)

/-- A ring of `2 ^ 31 + 1` frames does not read its last frame. -/
theorem large_ring_not_keeps :
    ¬∀ ops : List (CaptureOp 1), (∀ op ∈ ops, op.Allowed (2 ^ 31 + 1)) →
      Keeps (run (2 ^ 31 + 1) 1 ops) := by
  intro hkeeps
  refine @wrappingRun_not_keeps (2 ^ 31 + 1) 1 Nat.one_pos (by decide)
    (Nat.lt_succ_self _) (hkeeps _ ?_)
  intro op hop
  rw [wrappingRun, List.mem_pair] at hop
  rcases hop with rfl | rfl
  · trivial
  · trivial

end Capture

end Audiox
