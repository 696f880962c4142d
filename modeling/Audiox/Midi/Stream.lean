import Audiox.Support.ByteCodec
import Mathlib

/-!
# MIDI messages

A stream of bytes is split into messages.  A message that leaves out its status
has the status of the one before, and system messages may be split up.
-/

namespace Audiox.Midi

open ByteCodec

/-! ## Messages -/

/-- The note of a message that starts or ends one, behind its channel. -/
def noteOf (bytes : Bytes) : Option (UInt8 × UInt8) :=
  match bytes with
  | [status, note, _] =>
      if status &&& 0xf0 = 0x80 ∨ status &&& 0xf0 = 0x90 then
        some (status &&& 15, note)
      else none
  | _ => none

/-- The message starts its note. -/
def startsNote (bytes : Bytes) : Bool :=
  match bytes with
  | [status, _, velocity] => status &&& 0xf0 = 0x90 && velocity ≠ 0
  | _ => false

/-- A complete message; a note is below 128. -/
structure Message where
  bytes : Bytes
  nonempty : bytes ≠ []
  note_lt : ∀ note ∈ noteOf bytes, note.2 < 128

/-! ## Splitting a stream -/

structure MidiStream where
  bytes : Bytes := []
  needed : Nat := 0
  running : UInt8 := 0
  sysex : Bool := false

def streamMax : Nat := 1024

/-- The length of the messages of a channel. -/
def channelLength (status : UInt8) : Nat :=
  if status &&& 0xe0 = 0xc0 then 2 else 3

namespace MidiStream

/-- A status byte ends what has come before it. -/
def feedStatus (stream : MidiStream) (byte : UInt8) :
    MidiStream × List Bytes :=
  let stream := { stream with
    bytes := [], needed := 0, running := if byte ≥ 0xf0 then 0 else stream.running }
  if byte = 0xf0 then ({ stream with sysex := true, bytes := [byte] }, [])
  else if byte < 0xf0 then
    ({ stream with
      running := byte, needed := channelLength byte, bytes := [byte] }, [])
  else if byte = 0xf1 ∨ byte = 0xf3 then
    ({ stream with needed := 2, bytes := [byte] }, [])
  else if byte = 0xf2 then ({ stream with needed := 3, bytes := [byte] }, [])
  else (stream, if byte = 0xf6 ∨ byte = 0xf7 then [[byte]] else [])

/-- A message without a status of its own has the running one. -/
def resume (stream : MidiStream) : MidiStream :=
  if stream.bytes = [] ∧ stream.running ≠ 0 then
    { stream with
      bytes := [stream.running], needed := channelLength stream.running }
  else stream

def feedData (stream : MidiStream) (byte : UInt8) : MidiStream × List Bytes :=
  let stream := stream.resume
  if stream.needed = 0 then (stream, [])
  else
    let bytes := stream.bytes ++ [byte]
    if bytes.length = stream.needed then
      ({ stream with bytes := [], needed := 0 }, [bytes])
    else ({ stream with bytes }, [])

/-- A system message that grows too long is passed on in parts. -/
def feedSystem (stream : MidiStream) (byte : UInt8) :
    MidiStream × List Bytes :=
  let bytes := stream.bytes ++ [byte]
  if bytes.length = streamMax then ({ stream with bytes := [] }, [bytes])
  else ({ stream with bytes }, [])

/-- The messages that a byte completes. -/
def feed (stream : MidiStream) (byte : UInt8) : MidiStream × List Bytes :=
  if byte ≥ 0xf8 then (stream, [[byte]])
  else if stream.sysex ∧ byte = 0xf7 then
    ({ stream with sysex := false, bytes := [] }, [stream.bytes ++ [byte]])
  else if stream.sysex ∧ byte < 0x80 then stream.feedSystem byte
  else
    let stream := { stream with sysex := false }
    if byte ≥ 0x80 then stream.feedStatus byte else stream.feedData byte

/-- What is kept of an unfinished message: a status with data behind it, or a
part of a system message. -/
structure Valid (stream : MidiStream) : Prop where
  started : stream.bytes = [] → stream.needed = 0
  data : stream.sysex = false → ∀ c ∈ stream.bytes.tail, c < 0x80
  system : stream.sysex = true →
    ∀ c ∈ stream.bytes.head?, c = 0xf0 ∨ c < 0x80
  unneeded : stream.sysex = true → stream.needed = 0

end MidiStream

/-- The bytes make up a message. -/
def IsMessage (bytes : Bytes) : Prop :=
  bytes ≠ [] ∧ ∀ note ∈ noteOf bytes, note.2 < 128

theorem noteOf_of_length {bytes : Bytes} (h : bytes.length ≠ 3) :
    noteOf bytes = none := by
  match bytes with
  | [] => rfl
  | [_] => rfl
  | [_, _] => rfl
  | [_, _, _] => exact absurd rfl h
  | _ :: _ :: _ :: _ :: _ => rfl

/-- No channel message starts below the status bytes or above them. -/
theorem noteOf_of_system {status : UInt8} {rest : Bytes}
    (h : status = 0xf0 ∨ status < 0x80) : noteOf (status :: rest) = none := by
  have hkind : ¬(status &&& 0xf0 = 0x80 ∨ status &&& 0xf0 = 0x90) := by
    rcases h with rfl | h
    · decide
    · have hle : (status &&& 0xf0).toNat ≤ status.toNat := by
        rw [UInt8.toNat_and]
        exact Nat.and_le_left
      have hlt : status.toNat < 128 := h
      rintro (hoff | hon)
      · rw [hoff] at hle
        exact absurd hle (by simpa using hlt)
      · rw [hon] at hle
        have h144 : (144 : Nat) ≤ status.toNat := hle
        omega
  match rest with
  | [] => rfl
  | [_] => rfl
  | [_, _] => exact if_neg hkind
  | _ :: _ :: _ :: _ => rfl

theorem isMessage_of_data {bytes : Bytes} (hne : bytes ≠ [])
    (h : ∀ c ∈ bytes.tail, c < 0x80) : IsMessage bytes := by
  refine ⟨hne, ?_⟩
  intro note hnote
  match bytes with
  | [status, d, e] =>
      rw [noteOf] at hnote
      split_ifs at hnote with hkind
      · obtain rfl : (status &&& 15, d) = note := by simpa using hnote
        exact h d (by simp)
      · simp at hnote
  | [] => simp [noteOf] at hnote
  | [_] => simp [noteOf] at hnote
  | [_, _] => simp [noteOf] at hnote
  | _ :: _ :: _ :: _ :: _ => simp [noteOf] at hnote

theorem isMessage_of_system {bytes : Bytes} (hne : bytes ≠ [])
    (h : ∀ c ∈ bytes.head?, c = 0xf0 ∨ c < 0x80) : IsMessage bytes := by
  refine ⟨hne, ?_⟩
  obtain ⟨status, rest, rfl⟩ := List.exists_cons_of_ne_nil hne
  rw [noteOf_of_system (h status rfl)]
  simp

theorem isMessage_singleton (byte : UInt8) : IsMessage [byte] :=
  isMessage_of_data (by simp) (by simp)

namespace MidiStream

variable {stream : MidiStream} {byte : UInt8}

theorem valid_feedStatus (byte : UInt8) (hsysex : stream.sysex = false) :
    (stream.feedStatus byte).1.Valid ∧
      ∀ bytes ∈ (stream.feedStatus byte).2, IsMessage bytes := by
  unfold feedStatus
  split_ifs with h₁ h₂ h₃ h₄ h₅ <;>
    refine ⟨⟨?_, ?_, ?_, ?_⟩, ?_⟩ <;> simp_all [isMessage_singleton]

theorem valid_resume (h : stream.Valid) (hsysex : stream.sysex = false) :
    stream.resume.Valid ∧ stream.resume.sysex = false := by
  unfold resume
  split_ifs
  · exact ⟨⟨by simp, by simp, by simp [hsysex], by simp [hsysex]⟩, hsysex⟩
  · exact ⟨h, hsysex⟩

theorem data_concat {bytes : Bytes} (h : ∀ c ∈ bytes.tail, c < 0x80)
    (hbyte : byte < 0x80) : ∀ c ∈ (bytes ++ [byte]).tail, c < 0x80 := by
  intro c hc
  match bytes with
  | [] => simp at hc
  | d :: rest =>
      rw [List.cons_append, List.tail_cons, List.mem_append,
        List.mem_singleton] at hc
      rcases hc with hc | rfl
      · exact h c hc
      · exact hbyte

theorem valid_feedData (h : stream.Valid) (hsysex : stream.sysex = false)
    (hbyte : byte < 0x80) :
    (stream.feedData byte).1.Valid ∧
      ∀ bytes ∈ (stream.feedData byte).2, IsMessage bytes := by
  obtain ⟨hvalid, hsystem⟩ := valid_resume h hsysex
  have hdata := data_concat (hvalid.data hsystem) hbyte
  simp only [feedData]
  split_ifs with hneeded hfull
  · exact ⟨hvalid, by simp⟩
  · refine ⟨⟨by simp, by simp, by simp [hsystem], by simp [hsystem]⟩, ?_⟩
    simp only [List.mem_singleton]
    rintro bytes rfl
    exact isMessage_of_data (by simp) hdata
  · exact ⟨⟨by simp, fun _ => hdata, by simp [hsystem], by simp [hsystem]⟩,
      by simp⟩

theorem system_concat (h : stream.Valid) (hsysex : stream.sysex = true)
    (hbyte : byte < 0x80) :
    ∀ c ∈ (stream.bytes ++ [byte]).head?, c = 0xf0 ∨ c < 0x80 := by
  by_cases hbytes : stream.bytes = []
  · simp [hbytes, hbyte]
  · rw [List.head?_append_of_ne_nil _ hbytes]
    exact h.system hsysex

theorem valid_feedSystem (h : stream.Valid) (hsysex : stream.sysex = true)
    (hbyte : byte < 0x80) :
    (stream.feedSystem byte).1.Valid ∧
      ∀ bytes ∈ (stream.feedSystem byte).2, IsMessage bytes := by
  have hhead := system_concat h hsysex hbyte
  have hneeded := h.unneeded hsysex
  simp only [feedSystem]
  split_ifs with hfull
  · refine ⟨⟨fun _ => hneeded, by simp, by simp, fun _ => hneeded⟩, ?_⟩
    simp only [List.mem_singleton]
    rintro bytes rfl
    exact isMessage_of_system (by simp) hhead
  · exact ⟨⟨by simp, by simp [hsysex], fun _ => hhead, fun _ => hneeded⟩,
      by simp⟩

/-- A byte completes messages only. -/
theorem valid_feed (h : stream.Valid) (byte : UInt8) :
    (stream.feed byte).1.Valid ∧
      ∀ bytes ∈ (stream.feed byte).2, IsMessage bytes := by
  unfold feed
  split_ifs with hreal hend hmore hstatus
  · exact ⟨h, by simp [isMessage_singleton]⟩
  · refine ⟨⟨fun _ => h.unneeded hend.1, by simp, by simp, by simp⟩, ?_⟩
    simp only [List.mem_singleton]
    rintro bytes rfl
    by_cases hbytes : stream.bytes = []
    · rw [hbytes]
      exact isMessage_singleton byte
    · refine isMessage_of_system (by simp) ?_
      rw [List.head?_append_of_ne_nil _ hbytes]
      exact h.system hend.1
  · exact valid_feedSystem h hmore.1 hmore.2
  · exact valid_feedStatus byte rfl
  · have hlt : byte < 0x80 := UInt8.not_le.mp hstatus
    have hsysex : stream.sysex = false := by
      simpa [hlt] using hmore
    exact valid_feedData ⟨h.started, fun _ => h.data hsysex, by simp, by simp⟩
      rfl hlt

/-- The messages of a whole stream. -/
def feedAll (stream : MidiStream) : Bytes → List Bytes
  | [] => []
  | byte :: rest => (stream.feed byte).2 ++ (stream.feed byte).1.feedAll rest

theorem isMessage_feedAll (h : stream.Valid) {input bytes : Bytes}
    (hmem : bytes ∈ stream.feedAll input) : IsMessage bytes := by
  induction input generalizing stream with
  | nil => simp [feedAll] at hmem
  | cons byte rest ih =>
      rw [feedAll, List.mem_append] at hmem
      rcases hmem with hmem | hmem
      · exact (valid_feed h byte).2 bytes hmem
      · exact ih (valid_feed h byte).1 hmem

end MidiStream

end Audiox.Midi
