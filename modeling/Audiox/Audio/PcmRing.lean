import Audiox.Support.CircularBuffer
import Audiox.Support.FreeRunning
import Mathlib

/-!
# The PCM ring of a Bluetooth stream

Streams in both directions queue their frames in a ring, with a `push` that
drops what does not fit.  The producer loads the read counter once, copies
frame by frame, and then stores the write counter.  A consumer may read the
frames between the counters while a push is copying.

Loads, stores and the copies of frames are steps of their own.
-/

namespace Audiox.Bluetooth

open CircularBuffer FreeRunning

/-! ## Model -/

structure PcmFrame where
  left : Int16
  right : Int16
deriving DecidableEq

def AUDIO_BT_PCM_RING_FRAMES : Nat := 16384

/-- Where the producer is in `push`. -/
inductive PushState where
  | idle
  | called (stereoFrames : List PcmFrame)
  | loadedWrite (stereoFrames : List PcmFrame) (writeIndex : UInt32)
  | copying (writeIndex : UInt32) (accepted : List PcmFrame)
      (frame dropped : Nat)
  | counting (dropped : Nat)

/-- The ring, the position of the producer, and what has happened: the frames
that were published by a store of the write counter, and the positions at
which the read counter was published. -/
structure PcmRing where
  ring : Nat → PcmFrame
  write : UInt32
  read : UInt32
  dropped : UInt32
  producer : PushState
  written : List PcmFrame
  publishedReads : List Nat

namespace PcmRing

def start (ring : Nat → PcmFrame) : PcmRing where
  ring := ring
  write := 0
  read := 0
  dropped := 0
  producer := .idle
  written := []
  publishedReads := []

def slot (index : UInt32) : Nat :=
  index.toNat % AUDIO_BT_PCM_RING_FRAMES

def freeFrames (used : UInt32) : Nat :=
  if used.toNat ≥ AUDIO_BT_PCM_RING_FRAMES then 0
  else AUDIO_BT_PCM_RING_FRAMES - used.toNat

/-- A call of `push`, which returns at once when there are no frames. -/
def push (s : PcmRing) (stereoFrames : List PcmFrame) : Option PcmRing :=
  match s.producer with
  | .idle =>
      if stereoFrames.length = 0 then some s
      else if stereoFrames.length < 2 ^ 32 then
        some { s with producer := .called stereoFrames }
      else none
  | _ => none

/-- The producer has loaded both counters. -/
def accept (s : PcmRing) (stereoFrames : List PcmFrame)
    (writeIndex readIndex : UInt32) : PcmRing :=
  { s with
    producer := .copying writeIndex
      (stereoFrames.take (freeFrames (writeIndex - readIndex))) 0
      (stereoFrames.length - freeFrames (writeIndex - readIndex)) }

def copyFrame (s : PcmRing) (writeIndex : UInt32) (accepted : List PcmFrame)
    (frame dropped : Nat) (f : PcmFrame) : PcmRing :=
  { s with
    ring := Function.update s.ring
      (slot (writeIndex + UInt32.ofNat frame)) f
    producer := .copying writeIndex accepted (frame + 1) dropped }

def storeWrite (s : PcmRing) (writeIndex : UInt32) (accepted : List PcmFrame)
    (dropped : Nat) : PcmRing :=
  { s with
    write := writeIndex + UInt32.ofNat accepted.length
    written := s.written ++ accepted
    producer := if dropped = 0 then .idle else .counting dropped }

/-- The next step of `push`. -/
def pushStep (s : PcmRing) : Option PcmRing :=
  match s.producer with
  | .idle => none
  | .called stereoFrames =>
      some { s with producer := .loadedWrite stereoFrames s.write }
  | .loadedWrite stereoFrames writeIndex =>
      some (s.accept stereoFrames writeIndex s.read)
  | .copying writeIndex accepted frame dropped =>
      match accepted[frame]? with
      | some f => some (s.copyFrame writeIndex accepted frame dropped f)
      | none => some (s.storeWrite writeIndex accepted dropped)
  | .counting dropped =>
      some { s with
        dropped := s.dropped + UInt32.ofNat dropped
        producer := .idle }

/-- The frame that an index stands for, counted from the first one: the last
one with this index that is not ahead of the write counter. -/
def position (s : PcmRing) (index : UInt32) : Nat :=
  s.written.length - (s.write - index).toNat

/-- A consumer stores the read counter. -/
def storeRead (s : PcmRing) (index : UInt32) : PcmRing :=
  { s with
    read := index
    publishedReads := s.publishedReads ++ [s.position index] }

/-! ## Properties -/

/-- Where the frames end that were written, or are being written. -/
def pushEnd (s : PcmRing) : Nat :=
  match s.producer with
  | .copying _ accepted _ _ => s.written.length + accepted.length
  | _ => s.written.length

/-- The read counter is not ahead of the write counter, and has never moved
back.  The slot that a consumer is about to read, if any, has a frame that
was written, that no push overwrites, and that was not consumed. -/
structure Safe (s : PcmRing) (reading : Option Nat) : Prop where
  not_ahead : (s.write - s.read).toNat ≤ AUDIO_BT_PCM_RING_FRAMES
  reads_sorted : s.publishedReads.Pairwise (· ≤ ·)
  reading_written : ∀ i ∈ reading, ∃ (n : Nat) (hn : n < s.written.length),
    n % AUDIO_BT_PCM_RING_FRAMES = i ∧ s.ring i = s.written[n] ∧
      s.pushEnd ≤ n + AUDIO_BT_PCM_RING_FRAMES ∧
      ∀ published ∈ s.publishedReads, published ≤ n

/-! ## The invariant -/

/-- The frames that a push has copied, but not published. -/
def copied (s : PcmRing) : List PcmFrame :=
  match s.producer with
  | .copying _ accepted frame _ => accepted.take frame
  | _ => []

def PushInv (s : PcmRing) : Prop :=
  match s.producer with
  | .loadedWrite _ writeIndex => writeIndex = s.write
  | .copying writeIndex accepted frame _ =>
      writeIndex = s.write ∧ frame ≤ accepted.length
  | _ => True

/-- The read counter stands for `r`, and the frames from there on are kept. -/
structure Inv (s : PcmRing) (r : Nat) : Prop where
  write_eq : s.write = counter s.written.length
  read_eq : s.read = counter r
  read_le : r ≤ s.written.length
  room : s.pushEnd ≤ r + AUDIO_BT_PCM_RING_FRAMES
  kept : Holds AUDIO_BT_PCM_RING_FRAMES s.ring r
    (s.written.drop r ++ s.copied)
  producer : PushInv s
  reads_sorted : s.publishedReads.Pairwise (· ≤ ·)
  reads_le : ∀ published ∈ s.publishedReads, published ≤ r

section Steps

variable {s s' : PcmRing} {r : Nat}

theorem inv_start (ring : Nat → PcmFrame) : Inv (start ring) 0 where
  write_eq := rfl
  read_eq := rfl
  read_le := Nat.le_refl 0
  room := Nat.zero_le _
  kept := .nil
  producer := trivial
  reads_sorted := .nil
  reads_le := by simp [start]

theorem written_le_pushEnd : s.written.length ≤ s.pushEnd := by
  rw [pushEnd]
  split
  · exact Nat.le_add_right _ _
  · exact Nat.le_refl _

theorem Inv.written_le (h : Inv s r) :
    s.written.length ≤ r + AUDIO_BT_PCM_RING_FRAMES :=
  written_le_pushEnd.trans h.room

theorem pushEnd_copying {writeIndex : UInt32} {accepted : List PcmFrame}
    {frame dropped : Nat}
    (hp : s.producer = .copying writeIndex accepted frame dropped) :
    s.pushEnd = s.written.length + accepted.length := by
  rw [pushEnd, hp]

theorem copied_copying {writeIndex : UInt32} {accepted : List PcmFrame}
    {frame dropped : Nat}
    (hp : s.producer = .copying writeIndex accepted frame dropped) :
    s.copied = accepted.take frame := by
  rw [copied, hp]

theorem ring_lt : AUDIO_BT_PCM_RING_FRAMES < 2 ^ 32 := by decide

theorem slot_counter (n : Nat) :
    slot (counter n) = n % AUDIO_BT_PCM_RING_FRAMES :=
  toNat_counter_mod (by decide)

/-- A frame that is not consumed is as far behind the write counter as its
index. -/
theorem Inv.toNat_behind (h : Inv s r) {n : Nat} (hr : r ≤ n)
    (hn : n ≤ s.written.length) :
    (s.write - counter n).toNat = s.written.length - n := by
  have hwritten := h.written_le
  have hring := ring_lt
  rw [h.write_eq, toNat_counter_sub hn (by omega)]

theorem Inv.position_counter (h : Inv s r) {n : Nat} (hr : r ≤ n)
    (hn : n ≤ s.written.length) : s.position (counter n) = n := by
  rw [position, h.toNat_behind hr hn]
  omega

/-- The consumer gives frames back. -/
theorem Inv.storeRead (h : Inv s r) {n : Nat} (hr : r ≤ n)
    (hn : n ≤ s.written.length) : Inv (s.storeRead (counter n)) n where
  write_eq := h.write_eq
  read_eq := rfl
  read_le := hn
  room := h.room.trans (Nat.add_le_add_right hr _)
  kept := by
    have hkept := h.kept.drop_add (n - r)
    rw [List.drop_append_of_le_length (by rw [List.length_drop]; omega),
      List.drop_drop, Nat.add_sub_cancel' hr] at hkept
    exact hkept
  producer := h.producer
  reads_sorted := by
    refine List.pairwise_append.mpr
      ⟨h.reads_sorted, List.pairwise_singleton _ _, ?_⟩
    intro published hmem last hlast
    obtain rfl := List.mem_singleton.mp hlast
    rw [h.position_counter hr hn]
    exact (h.reads_le published hmem).trans hr
  reads_le := by
    intro published hmem
    rcases List.mem_append.mp hmem with hmem | hmem
    · exact (h.reads_le published hmem).trans hr
    · obtain rfl := List.mem_singleton.mp hmem
      exact (h.position_counter hr hn).le

/-- The producer changes nothing but its position. -/
theorem Inv.moveProducer (h : Inv s r) {p : PushState} {dropped : UInt32}
    (hend : pushEnd { s with producer := p } ≤ r + AUDIO_BT_PCM_RING_FRAMES)
    (hcopied : copied { s with producer := p } = [])
    (hidle : s.copied = [])
    (hp : PushInv { s with producer := p }) :
    Inv { s with dropped := dropped, producer := p } r where
  write_eq := h.write_eq
  read_eq := h.read_eq
  read_le := h.read_le
  room := hend
  kept := by
    have hkept := h.kept
    rw [hidle] at hkept
    have hsame : copied { s with dropped := dropped, producer := p } = [] :=
      hcopied
    rw [hsame]
    exact hkept
  producer := hp
  reads_sorted := h.reads_sorted
  reads_le := h.reads_le

theorem Inv.push (h : Inv s r) {stereoFrames : List PcmFrame}
    (hstep : s.push stereoFrames = some s') :
    Inv s' r ∧ s'.written = s.written := by
  rw [PcmRing.push] at hstep
  split at hstep
  · rename_i hp
    have hidle : s.copied = [] := by rw [copied, hp]
    split_ifs at hstep
    · obtain rfl := Option.some.inj hstep
      exact ⟨h, rfl⟩
    · obtain rfl := Option.some.inj hstep
      exact ⟨h.moveProducer h.written_le rfl hidle trivial, rfl⟩
  · cases hstep

/-- What is accepted fits between the counters. -/
theorem Inv.accept (h : Inv s r) {stereoFrames : List PcmFrame}
    (hidle : s.copied = []) : Inv (s.accept stereoFrames s.write s.read) r := by
  have hnothing : (s.accept stereoFrames s.write s.read).copied = [] := by
    rw [copied_copying rfl, List.take_zero]
  refine h.moveProducer ?_ hnothing hidle ⟨rfl, Nat.zero_le _⟩
  have hbehind := h.toNat_behind (Nat.le_refl r) h.read_le
  have hwritten := h.written_le
  have hread := h.read_le
  have hfree : freeFrames (s.write - s.read) =
      r + AUDIO_BT_PCM_RING_FRAMES - s.written.length := by
    rw [freeFrames, h.read_eq, hbehind]
    split_ifs with hfull
    · omega
    · omega
  have htake := List.length_take_le
    (freeFrames (s.write - s.read)) stereoFrames
  simp only [pushEnd]
  omega

theorem Inv.copyFrame (h : Inv s r) {accepted : List PcmFrame}
    {frame dropped : Nat} {f : PcmFrame}
    (hp : s.producer = .copying s.write accepted frame dropped)
    (hf : accepted[frame]? = some f) :
    Inv (s.copyFrame s.write accepted frame dropped f) r := by
  obtain ⟨hframe, rfl⟩ := List.getElem?_eq_some_iff.mp hf
  have hread := h.read_le
  have hroom := h.room
  rw [pushEnd_copying hp] at hroom
  have hkept := h.kept
  rw [copied_copying hp] at hkept
  have hlength : (s.written.drop r ++ accepted.take frame).length =
      s.written.length + frame - r := by
    rw [List.length_append, List.length_drop, List.length_take]
    omega
  have hslot : slot (s.write + UInt32.ofNat frame) =
      (r + (s.written.drop r ++ accepted.take frame).length) %
        AUDIO_BT_PCM_RING_FRAMES := by
    have hindex : s.write + UInt32.ofNat frame =
        counter (s.written.length + frame) := by
      rw [counter_add, ← h.write_eq]
      rfl
    rw [hindex, slot_counter, hlength]
    congr 1
    omega
  have hnext := hkept.concat (by omega) accepted[frame]
  rw [← hslot, List.append_assoc, ← List.take_succ_eq_append_getElem hframe]
    at hnext
  constructor
  · exact h.write_eq
  · exact h.read_eq
  · exact hread
  · exact hroom
  · exact hnext
  · exact ⟨rfl, hframe⟩
  · exact h.reads_sorted
  · exact h.reads_le

theorem Inv.storeWrite (h : Inv s r) {accepted : List PcmFrame}
    {frame dropped : Nat}
    (hp : s.producer = .copying s.write accepted frame dropped)
    (hf : accepted[frame]? = none) :
    Inv (s.storeWrite s.write accepted dropped) r := by
  rw [List.getElem?_eq_none_iff] at hf
  have hlength : (s.written ++ accepted).length =
      s.written.length + accepted.length := List.length_append
  have hread := h.read_le
  have hroom := h.room
  rw [pushEnd_copying hp] at hroom
  have hkept := h.kept
  rw [copied_copying hp, List.take_of_length_le hf,
    ← List.drop_append_of_le_length hread] at hkept
  have hreturned : (s.storeWrite s.write accepted dropped).producer = .idle ∨
      (s.storeWrite s.write accepted dropped).producer = .counting dropped := by
    rw [PcmRing.storeWrite]
    split_ifs
    · exact .inl rfl
    · exact .inr rfl
  have hend : (s.storeWrite s.write accepted dropped).pushEnd =
      s.written.length + accepted.length := by
    rw [pushEnd]
    rcases hreturned with heq | heq
    · rw [heq]
      exact hlength
    · rw [heq]
      exact hlength
  have hcopied : (s.storeWrite s.write accepted dropped).copied = [] := by
    rw [copied]
    rcases hreturned with heq | heq
    · rw [heq]
    · rw [heq]
  constructor
  · simp only [PcmRing.storeWrite, hlength, counter_add, ← h.write_eq]
    rfl
  · exact h.read_eq
  · simp only [PcmRing.storeWrite, hlength]
    omega
  · rw [hend]
    exact hroom
  · rw [hcopied, List.append_nil]
    exact hkept
  · rw [PushInv]
    rcases hreturned with heq | heq
    · rw [heq]
      trivial
    · rw [heq]
      trivial
  · exact h.reads_sorted
  · exact h.reads_le

/-- A step of `push` keeps the invariant, and only adds to what is written. -/
theorem Inv.pushStep (h : Inv s r) (hstep : s.pushStep = some s') :
    Inv s' r ∧ s.written.length ≤ s'.written.length := by
  have hproducer := h.producer
  rw [PushInv] at hproducer
  rw [PcmRing.pushStep] at hstep
  split at hstep
  · cases hstep
  · rename_i stereoFrames hp
    obtain rfl := Option.some.inj hstep
    have hidle : s.copied = [] := by rw [copied, hp]
    exact ⟨h.moveProducer h.written_le rfl hidle rfl, Nat.le_refl _⟩
  · rename_i stereoFrames writeIndex hp
    rw [hp] at hproducer
    simp only at hproducer
    subst hproducer
    obtain rfl := Option.some.inj hstep
    exact ⟨h.accept (by rw [copied, hp]), Nat.le_refl _⟩
  · rename_i writeIndex accepted frame dropped hp
    rw [hp] at hproducer
    obtain ⟨rfl, -⟩ := hproducer
    split at hstep
    · rename_i f hf
      obtain rfl := Option.some.inj hstep
      exact ⟨h.copyFrame hp hf, Nat.le_refl _⟩
    · rename_i hf
      obtain rfl := Option.some.inj hstep
      refine ⟨h.storeWrite hp hf, ?_⟩
      simp only [PcmRing.storeWrite, List.length_append]
      exact Nat.le_add_right _ _
  · rename_i dropped hp
    obtain rfl := Option.some.inj hstep
    have hidle : s.copied = [] := by rw [copied, hp]
    exact ⟨h.moveProducer h.written_le rfl hidle trivial, Nat.le_refl _⟩

/-- A frame between the counters is in its slot, and no push overwrites it. -/
theorem Inv.read_frame (h : Inv s r) {n : Nat} (hr : r ≤ n)
    (hn : n < s.written.length) :
    s.ring (n % AUDIO_BT_PCM_RING_FRAMES) = s.written[n] := by
  have hlt : n - r < (s.written.drop r).length := by
    rw [List.length_drop]
    omega
  have hslot := h.kept (n - r)
    (by rw [List.length_append]; exact Nat.lt_add_right _ hlt)
  rw [List.getElem_append_left hlt, List.getElem_drop] at hslot
  simp only [Nat.add_sub_cancel' hr] at hslot
  exact hslot

/-- A consumer that reads between the counters is safe. -/
theorem Inv.safe (h : Inv s r) {reading : Option Nat}
    (hreading : ∀ i ∈ reading, ∃ n, r ≤ n ∧ n < s.written.length ∧
      n % AUDIO_BT_PCM_RING_FRAMES = i) : Safe s reading where
  not_ahead := by
    have hwritten := h.written_le
    rw [h.read_eq, h.toNat_behind (Nat.le_refl r) h.read_le]
    omega
  reads_sorted := h.reads_sorted
  reading_written := by
    intro i hi
    obtain ⟨n, hr, hn, rfl⟩ := hreading i hi
    refine ⟨n, hn, rfl, h.read_frame hr hn, ?_, ?_⟩
    · exact h.room.trans (Nat.add_le_add_right hr _)
    · intro published hmem
      exact (h.reads_le published hmem).trans hr

end Steps

end PcmRing

end Audiox.Bluetooth
