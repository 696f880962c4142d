import Audiox.Support.ByteCodec
import Mathlib

/-!
# The output to the controller

Messages for the controller wait in a queue of 4096 bytes, from which a write
takes any number of bytes.  Whatever the writes take, the controller receives
the queued messages whole and in their order.  The controller is connected, and
no write fails.
-/

namespace Audiox.Midi

open ByteCodec

def controllerPendingSizeMax : Nat := 4096

/-- How many bytes the next writes take is in `accepts`; a write that would
block takes none.  `received` is what the controller has received, and `queued`
has the messages that were put into the queue. -/
structure ControllerQueue where
  controllerPending : Bytes
  accepts : List Nat
  received : Bytes
  queued : List Bytes
deriving DecidableEq

namespace ControllerQueue

variable {q : ControllerQueue}

def flushControllerMidi (q : ControllerQueue) : ControllerQueue :=
  if q.controllerPending = [] then q
  else
    match q.accepts with
    | [] => q
    | n :: accepts =>
        { q with
          controllerPending := q.controllerPending.drop n
          accepts := accepts
          received := q.received ++ q.controllerPending.take n }

/-- There is room for a message behind what is left after a write. -/
def Fits (q : ControllerQueue) (bytes : Bytes) : Prop :=
  bytes ≠ [] ∧ bytes.length ≤
    controllerPendingSizeMax - q.flushControllerMidi.controllerPending.length

instance (q : ControllerQueue) (bytes : Bytes) : Decidable (q.Fits bytes) :=
  inferInstanceAs (Decidable (_ ∧ _))

def put (q : ControllerQueue) (bytes : Bytes) : ControllerQueue :=
  { q with
    controllerPending := q.controllerPending ++ bytes
    queued := q.queued ++ [bytes] }

/-- The queue, and whether it has taken the message. -/
def queueControllerMidi (q : ControllerQueue) (bytes : Bytes) :
    ControllerQueue × Bool :=
  if bytes = [] then (q, false)
  else if q.Fits bytes then
    ((q.flushControllerMidi.put bytes).flushControllerMidi, true)
  else (q.flushControllerMidi, false)

/-! ## What is queued -/

@[simp] theorem queued_flush : q.flushControllerMidi.queued = q.queued := by
  unfold flushControllerMidi
  split
  · rfl
  · split <;> rfl

theorem queueControllerMidi_of_fits {bytes : Bytes} (h : q.Fits bytes) :
    q.queueControllerMidi bytes =
      ((q.flushControllerMidi.put bytes).flushControllerMidi, true) := by
  rw [queueControllerMidi, if_neg h.1, if_pos h]

/-- A message is queued exactly if it fits. -/
theorem queueControllerMidi_snd {bytes : Bytes} :
    (q.queueControllerMidi bytes).2 = true ↔ q.Fits bytes := by
  unfold queueControllerMidi
  split
  next hnil =>
    constructor
    · intro h
      cases h
    · exact fun h => absurd hnil h.1
  next =>
    split
    next h => exact iff_of_true rfl h
    next h =>
      constructor
      · intro htrue
        cases htrue
      · exact fun hfits => absurd hfits h

theorem queued_queueControllerMidi (bytes : Bytes) :
    (q.queueControllerMidi bytes).1.queued =
      if q.Fits bytes then q.queued ++ [bytes] else q.queued := by
  by_cases h : q.Fits bytes
  · rw [if_pos h, queueControllerMidi_of_fits h, queued_flush, put]
    simp
  · rw [if_neg h, queueControllerMidi, if_neg h]
    split
    · rfl
    · exact queued_flush

/-! ## Messages stay whole -/

/-- What was received and what is pending are the queued messages. -/
def Whole (q : ControllerQueue) : Prop :=
  q.received ++ q.controllerPending = q.queued.flatten

theorem Whole.flush (h : q.Whole) : q.flushControllerMidi.Whole := by
  unfold flushControllerMidi
  split
  · exact h
  · split
    · exact h
    · rw [Whole] at h ⊢
      rw [List.append_assoc, List.take_append_drop]
      exact h

theorem Whole.put (h : q.Whole) (bytes : Bytes) : (q.put bytes).Whole := by
  rw [Whole] at h ⊢
  rw [ControllerQueue.put, List.flatten_append, List.flatten_singleton, ← h,
    List.append_assoc]

theorem Whole.queue (h : q.Whole) (bytes : Bytes) :
    (q.queueControllerMidi bytes).1.Whole := by
  unfold queueControllerMidi
  split
  · exact h
  · split
    · exact (h.flush.put bytes).flush
    · exact h.flush

/-! ## Several messages -/

/-- Queues one message after the other. -/
def queueAll (q : ControllerQueue) (messages : List Bytes) : ControllerQueue :=
  messages.foldl (fun q bytes => (q.queueControllerMidi bytes).1) q

@[simp] theorem queueAll_nil : q.queueAll [] = q := rfl

/-- Every message fits when it is its turn. -/
def AllFit : ControllerQueue → List Bytes → Prop
  | _, [] => True
  | q, bytes :: messages =>
      q.Fits bytes ∧ AllFit (q.queueControllerMidi bytes).1 messages

theorem Whole.queueAll (h : q.Whole) (messages : List Bytes) :
    (q.queueAll messages).Whole := by
  induction messages generalizing q with
  | nil => exact h
  | cons bytes messages ih => exact ih (h.queue bytes)

theorem queued_queueAll {messages : List Bytes} (h : q.AllFit messages) :
    (q.queueAll messages).queued = q.queued ++ messages := by
  induction messages generalizing q with
  | nil => simp [queueAll]
  | cons bytes messages ih =>
      have htail := ih h.2
      rw [queued_queueControllerMidi, if_pos h.1, List.append_assoc] at htail
      exact htail

/-! ## A controller that takes whole messages -/

/-- Nothing is pending, and each of the next `k` writes takes a whole MIDI
message. -/
structure Prompt (q : ControllerQueue) (k : Nat) : Prop where
  pending : q.controllerPending = []
  whole : ∀ n ∈ q.accepts, 3 ≤ n
  enough : k ≤ q.accepts.length

theorem Prompt.mono {k k' : Nat} (h : q.Prompt k) (hle : k' ≤ k) :
    q.Prompt k' :=
  ⟨h.pending, h.whole, hle.trans h.enough⟩

theorem Prompt.queue {k : Nat} (h : q.Prompt (k + 1)) {bytes : Bytes}
    (hne : bytes ≠ []) (hlength : bytes.length ≤ 3) :
    (q.queueControllerMidi bytes).1.Prompt k ∧ q.Fits bytes := by
  obtain ⟨hpending, hwhole, henough⟩ := h
  have hflush : q.flushControllerMidi = q := if_pos hpending
  have hfits : q.Fits bytes := by
    refine ⟨hne, ?_⟩
    rw [hflush, hpending, controllerPendingSizeMax, List.length_nil]
    exact hlength.trans (by decide)
  obtain ⟨n, accepts, haccepts⟩ := List.exists_cons_of_length_pos
    (l := q.accepts) (by omega)
  have hput : (q.put bytes).flushControllerMidi =
      { q with
        controllerPending := bytes.drop n
        accepts
        received := q.received ++ bytes.take n
        queued := q.queued ++ [bytes] } := by
    rw [flushControllerMidi, put, if_neg (by simpa [hpending] using hne)]
    simp [haccepts, hpending]
  rw [queueControllerMidi_of_fits hfits, hflush, hput]
  rw [haccepts] at hwhole henough
  refine ⟨⟨?_, ?_, ?_⟩, hfits⟩
  · exact List.drop_of_length_le (hlength.trans (hwhole n (by simp)))
  · exact fun m hm => hwhole m (List.mem_cons_of_mem _ hm)
  · simpa using henough

theorem Prompt.queueAll {k : Nat} {messages : List Bytes}
    (h : q.Prompt (messages.length + k))
    (hmessages : ∀ m ∈ messages, m ≠ [] ∧ m.length ≤ 3) :
    (q.queueAll messages).Prompt k ∧ q.AllFit messages := by
  induction messages generalizing q with
  | nil => exact ⟨h.mono (Nat.le_add_left ..), trivial⟩
  | cons bytes messages ih =>
      obtain ⟨hne, hlength⟩ := hmessages bytes (by simp)
      have hfirst : q.Prompt (messages.length + k + 1) := by
        apply h.mono
        rw [List.length_cons, Nat.add_right_comm]
      obtain ⟨hnext, hfits⟩ := hfirst.queue hne hlength
      obtain ⟨hlast, hfit⟩ := ih hnext
        fun m hm => hmessages m (List.mem_cons_of_mem _ hm)
      exact ⟨hlast, hfits, hfit⟩

end ControllerQueue

end Audiox.Midi
