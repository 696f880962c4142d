import Audiox.Audio.Soundboard
import Audiox.Support.CircularBuffer
import Audiox.Support.FreeRunning
import Audiox.Support.Runs
import Mathlib

/-!
# The queue of soundboard events

Control threads enqueue events under a mutex, and the audio thread takes them
in `consumeSoundboardTriggers` or `drainQueuedSfxEvents`.  Both sides see each
other's counter through atomic loads and stores, which are steps of their own.

The counters are free-running 32-bit numbers.  The producer compares them by
their difference, and the consumer by their order, which is wrong when the
write counter has wrapped around to zero and the read counter has not.
-/

namespace Audiox.Soundboard

open CircularBuffer FreeRunning Runs

/-! ## Model -/

/-- Where the producer that holds the mutex is in `enqueueSfxEvent`. -/
inductive SfxProducer where
  | idle
  | locked (ev : AudioSfxTriggerEvent)
  | loadedWrite (ev : AudioSfxTriggerEvent) (write : UInt32)
  | admitted (ev : AudioSfxTriggerEvent) (write : UInt32)
  | wroteSlotIndex (ev : AudioSfxTriggerEvent) (write : UInt32)
  | wroteHoldStart (ev : AudioSfxTriggerEvent) (write : UInt32)
  | wrotePitchRatio (ev : AudioSfxTriggerEvent) (write : UInt32)

/-- Where the audio thread is in one of its two loops; they differ in what
they do with an event, but not in how they take it. -/
inductive SfxConsumer where
  | idle
  | called (drain : Bool)
  | loadedRead (drain : Bool) (read : UInt32)
  | taking (drain : Bool) (read write : UInt32)

/-- A consuming call that has returned: how many events were enqueued before
it started, and how many were taken when it returned. -/
structure ConsumingCall where
  enqueuedBefore : Nat
  takenAfter : Nat

/-- The queue, the positions of both parties, and what has happened: the
events whose `enqueueSfxEvent` stored the write counter, the events that were
taken, how many of them were given back by a store of the read counter, how
many were pending at each refusal, and the calls that have returned. -/
structure SfxQueue where
  sfxQueue : Nat → AudioSfxTriggerEvent
  sfxQueueWrite : UInt32
  sfxQueueRead : UInt32
  sfxQueueDropped : UInt32
  producer : SfxProducer
  consumer : SfxConsumer
  enqueued : List AudioSfxTriggerEvent
  taken : List AudioSfxTriggerEvent
  givenBack : Nat
  pendingAtRefusal : List Nat
  enqueuedBeforeCall : Nat
  calls : List ConsumingCall

inductive SfxEvent where
  | enqueue (ev : AudioSfxTriggerEvent)
  | loadWrite
  | loadRead
  | writeSlotIndex
  | writeHoldStart
  | writePitchRatio
  | storeWrite
  | consume (drain : Bool)
  | consumerLoadRead
  | consumerLoadWrite
  | take
  | storeRead
deriving DecidableEq

def SfxEvent.isConsumer : SfxEvent → Bool
  | .consume _ | .consumerLoadRead | .consumerLoadWrite | .take
  | .storeRead => true
  | _ => false

namespace SfxQueue

def start (sfxQueue : Nat → AudioSfxTriggerEvent) : SfxQueue where
  sfxQueue := sfxQueue
  sfxQueueWrite := 0
  sfxQueueRead := 0
  sfxQueueDropped := 0
  producer := .idle
  consumer := .idle
  enqueued := []
  taken := []
  givenBack := 0
  pendingAtRefusal := []
  enqueuedBeforeCall := 0
  calls := []

def slot (counter : UInt32) : Nat :=
  counter.toNat % AUDIO_SFX_QUEUE_CAP

def modifySlot (s : SfxQueue) (write : UInt32)
    (f : AudioSfxTriggerEvent → AudioSfxTriggerEvent)
    (producer : SfxProducer) : SfxQueue :=
  { s with
    sfxQueue :=
      Function.update s.sfxQueue (slot write) (f (s.sfxQueue (slot write)))
    producer := producer }

/-- The producer has loaded the read counter. -/
def loadedBoth (s : SfxQueue) (ev : AudioSfxTriggerEvent) (write : UInt32) :
    SfxQueue :=
  if (write - s.sfxQueueRead).toNat ≥ AUDIO_SFX_QUEUE_CAP then
    { s with
      sfxQueueDropped := s.sfxQueueDropped + 1
      pendingAtRefusal :=
        s.pendingAtRefusal ++ [s.enqueued.length - s.givenBack]
      producer := .idle }
  else { s with producer := .admitted ev write }

/-- A step of `enqueueSfxEvent`. -/
def produceStep (s : SfxQueue) : SfxEvent → Option SfxQueue
  | .enqueue ev =>
      match s.producer with
      | .idle =>
          if ev.slotIndex < AUDIO_SFX_SLOT_COUNT then
            some { s with producer := .locked ev }
          else none
      | _ => none
  | .loadWrite =>
      match s.producer with
      | .locked ev =>
          some { s with producer := .loadedWrite ev s.sfxQueueWrite }
      | _ => none
  | .loadRead =>
      match s.producer with
      | .loadedWrite ev write => some (s.loadedBoth ev write)
      | _ => none
  | .writeSlotIndex =>
      match s.producer with
      | .admitted ev write =>
          some (s.modifySlot write
            (fun e => { e with slotIndex := ev.slotIndex })
            (.wroteSlotIndex ev write))
      | _ => none
  | .writeHoldStart =>
      match s.producer with
      | .wroteSlotIndex ev write =>
          some (s.modifySlot write
            (fun e => { e with holdStart := ev.holdStart })
            (.wroteHoldStart ev write))
      | _ => none
  | .writePitchRatio =>
      match s.producer with
      | .wroteHoldStart ev write =>
          some (s.modifySlot write
            (fun e => { e with pitchRatio := ev.pitchRatio })
            (.wrotePitchRatio ev write))
      | _ => none
  | .storeWrite =>
      match s.producer with
      | .wrotePitchRatio ev write =>
          some { s with
            sfxQueueWrite := write + 1
            enqueued := s.enqueued ++ [ev]
            producer := .idle }
      | _ => none
  | _ => none

/-- A step of `consumeSoundboardTriggers` or `drainQueuedSfxEvents`. -/
def consumeStep (s : SfxQueue) : SfxEvent → Option SfxQueue
  | .consume drain =>
      match s.consumer with
      | .idle =>
          some { s with
            consumer := .called drain
            enqueuedBeforeCall := s.enqueued.length }
      | _ => none
  | .consumerLoadRead =>
      match s.consumer with
      | .called drain =>
          some { s with consumer := .loadedRead drain s.sfxQueueRead }
      | _ => none
  | .consumerLoadWrite =>
      match s.consumer with
      | .loadedRead drain read =>
          some { s with consumer := .taking drain read s.sfxQueueWrite }
      | _ => none
  | .take =>
      match s.consumer with
      | .taking drain read write =>
          if read < write then
            some { s with
              taken := s.taken ++ [s.sfxQueue (slot read)]
              consumer := .taking drain (read + 1) write }
          else none
      | _ => none
  | .storeRead =>
      match s.consumer with
      | .taking _ read write =>
          if read < write then none
          else
            some { s with
              sfxQueueRead := read
              givenBack := s.taken.length
              calls := s.calls ++ [⟨s.enqueuedBeforeCall, s.taken.length⟩]
              consumer := .idle }
      | _ => none
  | _ => none

def step (s : SfxQueue) (e : SfxEvent) : Option SfxQueue :=
  if e.isConsumer then s.consumeStep e else s.produceStep e

/-! ## Properties -/

/-- Every event is delivered once: the taken events are the first of the
enqueued ones, the slots of the others are kept, events were refused only
when the queue was full, and a call leaves no event that was enqueued before
it. -/
structure Delivers (s : SfxQueue) : Prop where
  taken_first : s.taken <+: s.enqueued
  kept : Holds AUDIO_SFX_QUEUE_CAP s.sfxQueue s.taken.length
    (s.enqueued.drop s.taken.length)
  refused_full : ∀ pending ∈ s.pendingAtRefusal,
    pending = AUDIO_SFX_QUEUE_CAP
  calls_take : ∀ call ∈ s.calls, call.enqueuedBefore ≤ call.takenAfter

/-- When the audio thread compares the counters, the write counter has not
wrapped around to a number below the read counter. -/
def Unwrapped (s : SfxQueue) (e : SfxEvent) : Prop :=
  e = .consumerLoadWrite → s.sfxQueueRead ≤ s.sfxQueueWrite

instance (s : SfxQueue) (e : SfxEvent) : Decidable (Unwrapped s e) :=
  inferInstanceAs (Decidable (_ → _))

/-! ## The invariant -/

/-- What the producer knows between its steps. -/
def ProducerInv (s : SfxQueue) : Prop :=
  match s.producer with
  | .idle => True
  | .locked _ => True
  | .loadedWrite _ write => write = s.sfxQueueWrite
  | .admitted _ write =>
      write = s.sfxQueueWrite ∧
        s.enqueued.length < s.givenBack + AUDIO_SFX_QUEUE_CAP
  | .wroteSlotIndex ev write =>
      write = s.sfxQueueWrite ∧
        s.enqueued.length < s.givenBack + AUDIO_SFX_QUEUE_CAP ∧
        (s.sfxQueue (slot write)).slotIndex = ev.slotIndex
  | .wroteHoldStart ev write =>
      write = s.sfxQueueWrite ∧
        s.enqueued.length < s.givenBack + AUDIO_SFX_QUEUE_CAP ∧
        (s.sfxQueue (slot write)).slotIndex = ev.slotIndex ∧
        (s.sfxQueue (slot write)).holdStart = ev.holdStart
  | .wrotePitchRatio ev write =>
      write = s.sfxQueueWrite ∧
        s.enqueued.length < s.givenBack + AUDIO_SFX_QUEUE_CAP ∧
        s.sfxQueue (slot write) = ev

/-- What the consumer knows between its steps. -/
def ConsumerInv (s : SfxQueue) : Prop :=
  match s.consumer with
  | .idle => s.givenBack = s.taken.length
  | .called _ =>
      s.givenBack = s.taken.length ∧
        s.enqueuedBeforeCall ≤ s.enqueued.length
  | .loadedRead _ read =>
      s.givenBack = s.taken.length ∧
        s.enqueuedBeforeCall ≤ s.enqueued.length ∧
        read = s.sfxQueueRead
  | .taking _ read write =>
      read = counter s.taken.length ∧
        ∃ n, s.enqueuedBeforeCall ≤ n ∧ s.taken.length ≤ n ∧
          n ≤ s.enqueued.length ∧
          write.toNat = read.toNat + (n - s.taken.length)

structure Inv (s : SfxQueue) : Prop where
  delivers : Delivers s
  write_eq : s.sfxQueueWrite = counter s.enqueued.length
  read_eq : s.sfxQueueRead = counter s.givenBack
  givenBack_le : s.givenBack ≤ s.taken.length
  pending_le : s.enqueued.length ≤ s.givenBack + AUDIO_SFX_QUEUE_CAP
  producer : ProducerInv s
  consumer : ConsumerInv s

section Steps

variable {s s' : SfxQueue} {e : SfxEvent}

theorem inv_start (sfxQueue : Nat → AudioSfxTriggerEvent) :
    Inv (start sfxQueue) where
  delivers := ⟨List.prefix_rfl, .nil, by simp [start], by simp [start]⟩
  write_eq := rfl
  read_eq := rfl
  givenBack_le := Nat.le_refl 0
  pending_le := Nat.zero_le _
  producer := trivial
  consumer := rfl

theorem Inv.taken_le (h : Inv s) : s.taken.length ≤ s.enqueued.length :=
  h.delivers.taken_first.length_le

theorem slot_counter (n : Nat) :
    slot (counter n) = n % AUDIO_SFX_QUEUE_CAP :=
  toNat_counter_mod (by decide)

/-- The slot of the next event follows those that are kept. -/
theorem Inv.slot_write (h : Inv s) :
    slot s.sfxQueueWrite = (s.taken.length +
      (s.enqueued.drop s.taken.length).length) % AUDIO_SFX_QUEUE_CAP := by
  rw [h.write_eq, slot_counter, List.length_drop,
    Nat.add_sub_cancel' h.taken_le]

theorem Inv.kept_modify (h : Inv s)
    (hroom : s.enqueued.length < s.givenBack + AUDIO_SFX_QUEUE_CAP)
    (ev : AudioSfxTriggerEvent) :
    Holds AUDIO_SFX_QUEUE_CAP
      (Function.update s.sfxQueue (slot s.sfxQueueWrite) ev) s.taken.length
      (s.enqueued.drop s.taken.length) := by
  have hgiven := h.givenBack_le
  have hle := h.taken_le
  rw [h.slot_write]
  refine h.delivers.kept.update_next ?_ ev
  rw [List.length_drop]
  omega

theorem Inv.modifySlot (h : Inv s)
    (hroom : s.enqueued.length < s.givenBack + AUDIO_SFX_QUEUE_CAP)
    (f : AudioSfxTriggerEvent → AudioSfxTriggerEvent) (p : SfxProducer)
    (hp : ProducerInv (s.modifySlot s.sfxQueueWrite f p)) :
    Inv (s.modifySlot s.sfxQueueWrite f p) where
  delivers := ⟨h.delivers.taken_first, h.kept_modify hroom _,
    h.delivers.refused_full, h.delivers.calls_take⟩
  write_eq := h.write_eq
  read_eq := h.read_eq
  givenBack_le := h.givenBack_le
  pending_le := h.pending_le
  producer := hp
  consumer := h.consumer

theorem Inv.moveProducer (h : Inv s) {p : SfxProducer}
    (hp : ProducerInv { s with producer := p }) :
    Inv { s with producer := p } where
  delivers := ⟨h.delivers.taken_first, h.delivers.kept,
    h.delivers.refused_full, h.delivers.calls_take⟩
  write_eq := h.write_eq
  read_eq := h.read_eq
  givenBack_le := h.givenBack_le
  pending_le := h.pending_le
  producer := hp
  consumer := h.consumer

/-- The read counter may be behind, but not ahead, so an event is refused
only when the queue is full. -/
theorem Inv.loadedBoth (h : Inv s) {ev : AudioSfxTriggerEvent} :
    Inv (s.loadedBoth ev s.sfxQueueWrite) := by
  have hle : s.givenBack ≤ s.enqueued.length :=
    h.givenBack_le.trans h.taken_le
  have hpending := h.pending_le
  have hcap : AUDIO_SFX_QUEUE_CAP < 2 ^ 32 := by decide
  have hdiff : (s.sfxQueueWrite - s.sfxQueueRead).toNat =
      s.enqueued.length - s.givenBack := by
    rw [h.write_eq, h.read_eq, toNat_counter_sub hle (by omega)]
  rw [SfxQueue.loadedBoth, hdiff]
  split_ifs with hfull
  · refine ⟨⟨h.delivers.taken_first, h.delivers.kept, ?_,
      h.delivers.calls_take⟩, h.write_eq, h.read_eq, h.givenBack_le,
      h.pending_le, trivial, h.consumer⟩
    intro pending hmem
    rcases List.mem_append.mp hmem with hmem | hmem
    · exact h.delivers.refused_full pending hmem
    · obtain rfl := List.mem_singleton.mp hmem
      omega
  · exact h.moveProducer ⟨rfl, by simp only; omega⟩

/-- The write counter passes an event on. -/
theorem Inv.storeWrite (h : Inv s) {ev : AudioSfxTriggerEvent}
    (hroom : s.enqueued.length < s.givenBack + AUDIO_SFX_QUEUE_CAP)
    (hev : s.sfxQueue (slot s.sfxQueueWrite) = ev) :
    Inv { s with
      sfxQueueWrite := s.sfxQueueWrite + 1
      enqueued := s.enqueued ++ [ev]
      producer := .idle } := by
  have hle := h.taken_le
  have hlength : (s.enqueued ++ [ev]).length = s.enqueued.length + 1 :=
    List.length_append
  constructor
  · refine ⟨h.delivers.taken_first.trans (List.prefix_append _ _), ?_,
      h.delivers.refused_full, h.delivers.calls_take⟩
    rw [List.drop_append_of_le_length hle]
    refine h.delivers.kept.concat_of_eq ?_
    rw [← h.slot_write]
    exact hev
  · simp only [hlength, counter_succ, h.write_eq]
  · exact h.read_eq
  · exact h.givenBack_le
  · simp only [hlength]
    omega
  · trivial
  · have hconsumer := h.consumer
    rw [ConsumerInv] at hconsumer ⊢
    simp only
    cases hc : s.consumer with
    | idle =>
        rw [hc] at hconsumer
        exact hconsumer
    | called drain =>
        rw [hc] at hconsumer
        exact ⟨hconsumer.1, by omega⟩
    | loadedRead drain read =>
        rw [hc] at hconsumer
        exact ⟨hconsumer.1, by omega, hconsumer.2.2⟩
    | taking drain read write =>
        rw [hc] at hconsumer
        obtain ⟨hread, n, hbefore, htaken, hn, hwrite⟩ := hconsumer
        exact ⟨hread, n, hbefore, htaken, by omega, hwrite⟩

/-- A step of the producer keeps the invariant. -/
theorem Inv.produceStep (h : Inv s) (hstep : s.produceStep e = some s') :
    Inv s' := by
  have hproducer := h.producer
  rw [ProducerInv] at hproducer
  cases e with
  | enqueue ev =>
      rw [SfxQueue.produceStep] at hstep
      split at hstep
      · split at hstep
        · obtain rfl := Option.some.inj hstep
          exact h.moveProducer trivial
        · cases hstep
      · cases hstep
  | loadWrite =>
      rw [SfxQueue.produceStep] at hstep
      split at hstep
      · obtain rfl := Option.some.inj hstep
        exact h.moveProducer rfl
      · cases hstep
  | loadRead =>
      rw [SfxQueue.produceStep] at hstep
      split at hstep
      · rename_i ev write hp
        rw [hp] at hproducer
        obtain rfl := Option.some.inj hstep
        rw [hproducer]
        exact h.loadedBoth
      · cases hstep
  | writeSlotIndex =>
      rw [SfxQueue.produceStep] at hstep
      split at hstep
      · rename_i ev write hp
        rw [hp] at hproducer
        obtain ⟨rfl, hroom⟩ := hproducer
        obtain rfl := Option.some.inj hstep
        refine h.modifySlot hroom _ _ ⟨rfl, hroom, ?_⟩
        simp only [SfxQueue.modifySlot, Function.update_self]
      · cases hstep
  | writeHoldStart =>
      rw [SfxQueue.produceStep] at hstep
      split at hstep
      · rename_i ev write hp
        rw [hp] at hproducer
        obtain ⟨rfl, hroom, hslot⟩ := hproducer
        obtain rfl := Option.some.inj hstep
        refine h.modifySlot hroom _ _ ⟨rfl, hroom, ?_, ?_⟩
        · simp only [SfxQueue.modifySlot, Function.update_self, hslot]
        · simp only [SfxQueue.modifySlot, Function.update_self]
      · cases hstep
  | writePitchRatio =>
      rw [SfxQueue.produceStep] at hstep
      split at hstep
      · rename_i ev write hp
        rw [hp] at hproducer
        obtain ⟨rfl, hroom, hslot, hhold⟩ := hproducer
        obtain rfl := Option.some.inj hstep
        refine h.modifySlot hroom _ _ ⟨rfl, hroom, ?_⟩
        simp only [SfxQueue.modifySlot, Function.update_self, hslot, hhold]
      · cases hstep
  | storeWrite =>
      rw [SfxQueue.produceStep] at hstep
      split at hstep
      · rename_i ev write hp
        rw [hp] at hproducer
        obtain ⟨rfl, hroom, hslot⟩ := hproducer
        obtain rfl := Option.some.inj hstep
        exact h.storeWrite hroom hslot
      · cases hstep
  | _ => cases hstep

theorem Inv.moveConsumer (h : Inv s) {c : SfxConsumer} {before : Nat}
    (hc : ConsumerInv { s with consumer := c, enqueuedBeforeCall := before }) :
    Inv { s with consumer := c, enqueuedBeforeCall := before } where
  delivers := ⟨h.delivers.taken_first, h.delivers.kept,
    h.delivers.refused_full, h.delivers.calls_take⟩
  write_eq := h.write_eq
  read_eq := h.read_eq
  givenBack_le := h.givenBack_le
  pending_le := h.pending_le
  producer := h.producer
  consumer := hc

/-- The counters that the consumer has loaded are as far apart as the events
that they stand for. -/
theorem Inv.loadedCounters (h : Inv s) {drain : Bool} {read : UInt32}
    (hconsumer : s.consumer = .loadedRead drain read)
    (hunwrapped : s.sfxQueueRead ≤ s.sfxQueueWrite) :
    Inv { s with consumer := .taking drain read s.sfxQueueWrite } := by
  have hinv := h.consumer
  rw [ConsumerInv, hconsumer] at hinv
  obtain ⟨hgiven, hbefore, rfl⟩ := hinv
  have hle := h.taken_le
  have hpending := h.pending_le
  have hcap : AUDIO_SFX_QUEUE_CAP < 2 ^ 32 := by decide
  have hread := h.read_eq
  rw [hgiven] at hread
  rw [hread, h.write_eq] at hunwrapped
  have hapart := toNat_counter_of_le hle (by omega) hunwrapped
  refine h.moveConsumer ⟨hread, s.enqueued.length, hbefore, hle,
    Nat.le_refl _, ?_⟩
  rw [hread, h.write_eq]
  exact hapart

/-- An event is taken from the slot that keeps it. -/
theorem Inv.take (h : Inv s) {drain : Bool} {read write : UInt32}
    (hconsumer : s.consumer = .taking drain read write)
    (hlt : read < write) :
    Inv { s with
      taken := s.taken ++ [s.sfxQueue (slot read)]
      consumer := .taking drain (read + 1) write } := by
  have hinv := h.consumer
  rw [ConsumerInv, hconsumer] at hinv
  obtain ⟨rfl, n, hbefore, htaken, hn, hwrite⟩ := hinv
  rw [UInt32.lt_iff_toNat_lt] at hlt
  have hopen : s.taken.length < s.enqueued.length := by omega
  have hlength : (s.taken ++ [s.sfxQueue (slot (counter s.taken.length))]).length =
      s.taken.length + 1 := List.length_append
  have hfirst : s.enqueued[s.taken.length] =
      s.sfxQueue (slot (counter s.taken.length)) := by
    have hslot := h.delivers.kept 0 (by rw [List.length_drop]; omega)
    rw [List.getElem_drop] at hslot
    rw [slot_counter]
    exact hslot.symm
  have hpre : s.taken ++ [s.sfxQueue (slot (counter s.taken.length))] <+:
      s.enqueued := by
    have heq := List.prefix_iff_eq_take.mp h.delivers.taken_first
    rw [List.prefix_iff_eq_take, hlength, List.take_succ_eq_append_getElem hopen,
      ← heq, hfirst]
  have hnext : (counter s.taken.length + 1).toNat =
      (counter s.taken.length).toNat + 1 := by
    have hbound := write.toNat_lt
    rw [UInt32.toNat_add, UInt32.toNat_one]
    omega
  have hgiven := h.givenBack_le
  constructor
  · refine ⟨hpre, ?_, h.delivers.refused_full, h.delivers.calls_take⟩
    have hdrop := h.delivers.kept.drop_add 1
    rw [List.drop_drop] at hdrop
    simp only [hlength]
    exact hdrop
  · exact h.write_eq
  · exact h.read_eq
  · simp only [hlength]
    omega
  · exact h.pending_le
  · exact h.producer
  · rw [ConsumerInv]
    simp only [hlength, counter_succ, hnext]
    exact ⟨trivial, n, hbefore, by omega, hn, by omega⟩

/-- A call returns when it has taken what it found. -/
theorem Inv.storeRead (h : Inv s) {drain : Bool} {read write : UInt32}
    (hconsumer : s.consumer = .taking drain read write)
    (hlt : ¬read < write) :
    Inv { s with
      sfxQueueRead := read
      givenBack := s.taken.length
      calls := s.calls ++ [⟨s.enqueuedBeforeCall, s.taken.length⟩]
      consumer := .idle } := by
  have hinv := h.consumer
  rw [ConsumerInv, hconsumer] at hinv
  obtain ⟨hread, n, hbefore, htaken, hn, hwrite⟩ := hinv
  rw [UInt32.lt_iff_toNat_lt] at hlt
  have hall : s.enqueuedBeforeCall ≤ s.taken.length := by omega
  have hgiven := h.givenBack_le
  have hpending := h.pending_le
  constructor
  · refine ⟨h.delivers.taken_first, h.delivers.kept,
      h.delivers.refused_full, ?_⟩
    intro call hmem
    rcases List.mem_append.mp hmem with hmem | hmem
    · exact h.delivers.calls_take call hmem
    · obtain rfl := List.mem_singleton.mp hmem
      exact hall
  · exact h.write_eq
  · exact hread
  · exact Nat.le_refl _
  · simp only
    omega
  · have hproducer := h.producer
    rw [ProducerInv] at hproducer ⊢
    simp only
    cases hp : s.producer with
    | idle => trivial
    | locked ev => trivial
    | loadedWrite ev write =>
        rw [hp] at hproducer
        exact hproducer
    | admitted ev write =>
        rw [hp] at hproducer
        exact ⟨hproducer.1, by omega⟩
    | wroteSlotIndex ev write =>
        rw [hp] at hproducer
        exact ⟨hproducer.1, by omega, hproducer.2.2⟩
    | wroteHoldStart ev write =>
        rw [hp] at hproducer
        exact ⟨hproducer.1, by omega, hproducer.2.2⟩
    | wrotePitchRatio ev write =>
        rw [hp] at hproducer
        exact ⟨hproducer.1, by omega, hproducer.2.2⟩
  · rfl

/-- A step of the consumer keeps the invariant, unless it compares counters
of which one has wrapped around. -/
theorem Inv.consumeStep (h : Inv s) (hunwrapped : Unwrapped s e)
    (hstep : s.consumeStep e = some s') : Inv s' := by
  have hconsumer := h.consumer
  rw [ConsumerInv] at hconsumer
  cases e with
  | consume drain =>
      rw [SfxQueue.consumeStep] at hstep
      split at hstep
      · rename_i hc
        rw [hc] at hconsumer
        obtain rfl := Option.some.inj hstep
        exact h.moveConsumer ⟨hconsumer, Nat.le_refl _⟩
      · cases hstep
  | consumerLoadRead =>
      rw [SfxQueue.consumeStep] at hstep
      split at hstep
      · rename_i drain hc
        rw [hc] at hconsumer
        obtain rfl := Option.some.inj hstep
        exact h.moveConsumer ⟨hconsumer.1, hconsumer.2, rfl⟩
      · cases hstep
  | consumerLoadWrite =>
      rw [SfxQueue.consumeStep] at hstep
      split at hstep
      · rename_i drain read hc
        obtain rfl := Option.some.inj hstep
        exact h.loadedCounters hc (hunwrapped rfl)
      · cases hstep
  | take =>
      rw [SfxQueue.consumeStep] at hstep
      split at hstep
      · rename_i drain read write hc
        split at hstep
        · rename_i hlt
          obtain rfl := Option.some.inj hstep
          exact h.take hc hlt
        · cases hstep
      · cases hstep
  | storeRead =>
      rw [SfxQueue.consumeStep] at hstep
      split at hstep
      · rename_i drain read write hc
        split at hstep
        · cases hstep
        · rename_i hlt
          obtain rfl := Option.some.inj hstep
          exact h.storeRead hc hlt
      · cases hstep
  | _ => cases hstep

theorem Inv.step (h : Inv s) (hunwrapped : Unwrapped s e)
    (hstep : s.step e = some s') : Inv s' := by
  rw [SfxQueue.step] at hstep
  split at hstep
  · exact h.consumeStep hunwrapped hstep
  · exact h.produceStep hstep

end Steps

/-! ## Runs -/

/-- In every run in which the audio thread only compares counters that have
not wrapped apart, every event is delivered once. -/
theorem events_delivered {sfxQueue : Nat → AudioSfxTriggerEvent}
    {es : List SfxEvent} {s : SfxQueue}
    (h : Run (Guarded Unwrapped step) (start sfxQueue) es s) :
    Delivers s := by
  have hinv : Inv s := by
    refine h.invariant Inv (P := fun _ => True) ?_ (fun _ _ => trivial)
      (inv_start sfxQueue)
    intro s e s' _ hs hstep
    exact hs.step hstep.1 hstep.2
  exact hinv.delivers

def someEvent : AudioSfxTriggerEvent :=
  ⟨3, false, 1⟩

def enqueueSteps : List SfxEvent :=
  [.enqueue someEvent, .loadWrite, .loadRead, .writeSlotIndex,
    .writeHoldStart, .writePitchRatio, .storeWrite]

def consumeSteps : List SfxEvent :=
  [.consume false, .consumerLoadRead, .consumerLoadWrite, .take, .storeRead]

/-- An event was enqueued. -/
def withEvent (s : SfxQueue) : SfxQueue :=
  { s with
    sfxQueue := Function.update s.sfxQueue (slot s.sfxQueueWrite) someEvent
    sfxQueueWrite := s.sfxQueueWrite + 1
    enqueued := s.enqueued ++ [someEvent] }

theorem foldlM_enqueueSteps {s : SfxQueue} (hproducer : s.producer = .idle)
    (hroom : ¬(s.sfxQueueWrite - s.sfxQueueRead).toNat ≥
      AUDIO_SFX_QUEUE_CAP) :
    enqueueSteps.foldlM step s = some s.withEvent := by
  have hslot : someEvent.slotIndex < AUDIO_SFX_SLOT_COUNT := by decide
  cases s
  simp only at hproducer hroom
  subst hproducer
  simp [enqueueSteps, step, SfxEvent.isConsumer, produceStep, loadedBoth, hroom,
    hslot, modifySlot, withEvent]

/-- A call took one event. -/
def withTaken (s : SfxQueue) : SfxQueue :=
  { s with
    taken := s.taken ++ [s.sfxQueue (slot s.sfxQueueRead)]
    sfxQueueRead := s.sfxQueueRead + 1
    givenBack := (s.taken ++ [s.sfxQueue (slot s.sfxQueueRead)]).length
    enqueuedBeforeCall := s.enqueued.length
    calls := s.calls ++ [⟨s.enqueued.length,
      (s.taken ++ [s.sfxQueue (slot s.sfxQueueRead)]).length⟩] }

theorem foldlM_consumeSteps {s : SfxQueue} (hconsumer : s.consumer = .idle)
    (hlt : s.sfxQueueRead < s.sfxQueueWrite)
    (hlast : ¬s.sfxQueueRead + 1 < s.sfxQueueWrite) :
    consumeSteps.foldlM step s = some s.withTaken := by
  cases s
  simp only at hconsumer hlt hlast
  subst hconsumer
  simp [consumeSteps, step, SfxEvent.isConsumer, consumeStep, hlt, hlast,
    withTaken]

/-- A call that finds nothing to take. -/
def emptyCallSteps : List SfxEvent :=
  [.consume false, .consumerLoadRead, .consumerLoadWrite, .storeRead]

theorem foldlM_emptyCallSteps {s : SfxQueue} (hconsumer : s.consumer = .idle)
    (hlt : ¬s.sfxQueueRead < s.sfxQueueWrite) :
    emptyCallSteps.foldlM step s = some { s with
      givenBack := s.taken.length
      enqueuedBeforeCall := s.enqueued.length
      calls := s.calls ++ [⟨s.enqueued.length, s.taken.length⟩] } := by
  cases s
  simp only at hconsumer hlt
  subst hconsumer
  simp [emptyCallSteps, step, SfxEvent.isConsumer, consumeStep, hlt]

/-- Both parties are idle, and all of `n` events were taken. -/
structure Settled (s : SfxQueue) (n : Nat) : Prop where
  write_eq : s.sfxQueueWrite = counter n
  read_eq : s.sfxQueueRead = counter n
  producer_eq : s.producer = .idle
  consumer_eq : s.consumer = .idle
  enqueued_length : s.enqueued.length = n
  taken_length : s.taken.length = n

theorem Settled.room {s : SfxQueue} {n : Nat} (h : Settled s n) :
    ¬(s.sfxQueueWrite - s.sfxQueueRead).toNat ≥ AUDIO_SFX_QUEUE_CAP := by
  have hcap : 0 < AUDIO_SFX_QUEUE_CAP := by decide
  rw [h.write_eq, h.read_eq, toNat_counter_sub (Nat.le_refl n) (by omega)]
  omega

/-- One event after the other is enqueued and taken. -/
theorem exists_settled (sfxQueue : Nat → AudioSfxTriggerEvent) {n : Nat}
    (hn : n < 2 ^ 32) :
    ∃ (es : List SfxEvent) (s : SfxQueue),
      es.foldlM step (start sfxQueue) = some s ∧ Settled s n := by
  induction n with
  | zero => exact ⟨[], _, rfl, rfl, rfl, rfl, rfl, rfl, rfl⟩
  | succ n ih =>
      obtain ⟨es, s, hrun, hs⟩ := ih (Nat.lt_of_succ_lt hn)
      have henqueue := foldlM_enqueueSteps hs.producer_eq hs.room
      have hnext : s.sfxQueueRead < s.withEvent.sfxQueueWrite := by
        rw [withEvent, hs.read_eq, hs.write_eq, ← counter_succ]
        exact counter_lt_succ hn
      have hlast : ¬s.sfxQueueRead + 1 < s.withEvent.sfxQueueWrite := by
        rw [withEvent, hs.read_eq, hs.write_eq]
        exact UInt32.lt_irrefl _
      have hconsume := @foldlM_consumeSteps s.withEvent hs.consumer_eq hnext
        hlast
      refine ⟨es ++ (enqueueSteps ++ consumeSteps), s.withEvent.withTaken,
        ?_, ?_, ?_, hs.producer_eq, hs.consumer_eq, ?_, ?_⟩
      · rw [List.foldlM_append, hrun, Option.bind_eq_bind, Option.bind_some,
          List.foldlM_append, henqueue, Option.bind_eq_bind,
          Option.bind_some, hconsume]
      · rw [counter_succ, ← hs.write_eq]
        rfl
      · rw [counter_succ, ← hs.read_eq]
        rfl
      · rw [← hs.enqueued_length]
        exact List.length_append
      · rw [← hs.taken_length]
        exact List.length_append

/-- After `2 ^ 32 - 1` events the next one is not taken. -/
theorem wrapped_event_stays :
    ¬∀ (es : List SfxEvent) (s : SfxQueue),
      Run (fun s e s' => step s e = some s') (start fun _ => someEvent) es s →
        Delivers s := by
  intro hdelivers
  obtain ⟨es, s, hrun, hs⟩ := exists_settled (fun _ => someEvent)
    (show 2 ^ 32 - 1 < 2 ^ 32 by decide)
  have henqueue := foldlM_enqueueSteps hs.producer_eq hs.room
  have hwrapped : ¬s.sfxQueueRead < s.withEvent.sfxQueueWrite := by
    have hcounters : ¬counter (2 ^ 32 - 1) < counter (2 ^ 32 - 1) + 1 := by
      decide
    rw [withEvent, hs.read_eq, hs.write_eq]
    exact hcounters
  have hcall := @foldlM_emptyCallSteps s.withEvent hs.consumer_eq hwrapped
  have hall : (es ++ (enqueueSteps ++ emptyCallSteps)).foldlM step
      (start fun _ => someEvent) = some { s.withEvent with
        givenBack := s.withEvent.taken.length
        enqueuedBeforeCall := s.withEvent.enqueued.length
        calls := s.withEvent.calls ++
          [⟨s.withEvent.enqueued.length, s.withEvent.taken.length⟩] } := by
    rw [List.foldlM_append, hrun, Option.bind_eq_bind, Option.bind_some,
      List.foldlM_append, henqueue, Option.bind_eq_bind, Option.bind_some,
      hcall]
  have hcalls := (hdelivers _ _ (Run.of_foldlM hall)).calls_take
    ⟨s.withEvent.enqueued.length, s.withEvent.taken.length⟩ (by simp)
  have hmore : s.withEvent.enqueued.length = s.enqueued.length + 1 :=
    List.length_append
  have hsame : s.withEvent.taken.length = s.taken.length := rfl
  simp only at hcalls
  rw [hmore, hsame, hs.enqueued_length, hs.taken_length] at hcalls
  omega

/-- Two events around a call of the audio thread. -/
def twoEventsRun : List SfxEvent :=
  enqueueSteps ++ [.consume true, .enqueue ⟨5, true, 1 / 2⟩, .loadWrite,
    .consumerLoadRead, .consumerLoadWrite, .loadRead, .take, .writeSlotIndex,
    .storeRead, .writeHoldStart, .writePitchRatio, .storeWrite,
    .consume false, .consumerLoadRead, .consumerLoadWrite, .take, .storeRead]

theorem events_delivered_twoEvents :
    ∃ s, Run (Guarded Unwrapped step) (start fun _ => someEvent)
        twoEventsRun s ∧ s.taken = [someEvent, ⟨5, true, 1 / 2⟩] ∧
      Delivers s := by
  have hrun : (twoEventsRun.foldlM (guarded Unwrapped step)
      (start fun _ => someEvent)).any
        (fun s => s.taken = [someEvent, ⟨5, true, 1 / 2⟩]) = true := by
    decide +kernel
  obtain ⟨s, hs, htaken⟩ := (Option.any_eq_true _ _).mp hrun
  have hguarded := Run.of_guarded hs
  exact ⟨s, hguarded, of_decide_eq_true htaken, events_delivered hguarded⟩

end SfxQueue

end Audiox.Soundboard
