import Audiox.Midi.Hold
import Audiox.Midi.Stream
import Audiox.Support.Transducer
import Mathlib

/-!
# The two MIDI parsers

The bytes of a controller are read twice: a stream splits them into messages
for the USB port, and a parser picks out the channel messages for the device.
They stay in step: the channel messages of the stream are those of the parser.
System exclusive messages pass through the stream unchanged.
-/

namespace Audiox.Midi

open ByteCodec Transducer

/-! ## Channel messages -/

/-- The messages that a byte completes for the device. -/
def parseStep (midi : MidiContext) (byte : UInt8) :
    MidiContext × List MidiMessage :=
  ((midiParseByte midi byte).1, (midiParseByte midi byte).2.toList)

/-- The bytes that stand for a channel message. -/
def MidiMessage.bytes (msg : MidiMessage) : Bytes :=
  if midiStatusDataLen msg.status = 1 then [msg.status, msg.d0]
  else [msg.status, msg.d0, msg.d1]

def isChannelStatus (status : UInt8) : Bool :=
  0x80 ≤ status && status < 0xf0

def isChannelMessage (bytes : Bytes) : Bool :=
  bytes.head?.any isChannelStatus

def channelMessages (messages : List Bytes) : List Bytes :=
  messages.filter isChannelMessage

theorem channelLength_eq (status : UInt8) :
    channelLength status = midiStatusDataLen status + 1 := by
  have hkind : status &&& 0xe0 = 0xc0 ↔
      (status &&& 0xf0 = 0xc0 ∨ status &&& 0xf0 = 0xd0) := by
    have hall : ∀ i : Fin 256, UInt8.ofFin i &&& 0xe0 = 0xc0 ↔
        (UInt8.ofFin i &&& 0xf0 = 0xc0 ∨ UInt8.ofFin i &&& 0xf0 = 0xd0) := by
      decide +kernel
    exact hall status.toFin
  rw [channelLength, midiStatusDataLen]
  by_cases h : status &&& 0xe0 = 0xc0
  · rw [if_pos h, if_pos (hkind.mp h)]
  · rw [if_neg h, if_neg fun hor => h (hkind.mpr hor)]

theorem midiStatusDataLen_cases (status : UInt8) :
    midiStatusDataLen status = 1 ∨ midiStatusDataLen status = 2 := by
  rw [midiStatusDataLen]
  split
  · exact .inl rfl
  · exact .inr rfl

theorem isChannelStatus_iff {status : UInt8} :
    isChannelStatus status = true ↔ 0x80 ≤ status ∧ status < 0xf0 := by
  rw [isChannelStatus, Bool.and_eq_true, decide_eq_true_eq, decide_eq_true_eq]

/-- What a byte does to the stream, with what is known of both. -/
theorem feed_cases (stream : MidiStream) (byte : UInt8) :
    (byte ≥ 0xf8 ∧ stream.feed byte = (stream, [[byte]])) ∨
    (stream.sysex = true ∧ byte = 0xf7 ∧
      stream.feed byte = ({ stream with sysex := false, bytes := [] },
        [stream.bytes ++ [byte]])) ∨
    (stream.sysex = true ∧ byte < 0x80 ∧
      stream.feed byte = stream.feedSystem byte) ∨
    (¬byte ≥ 0xf8 ∧ byte ≥ 0x80 ∧
      stream.feed byte = { stream with sysex := false }.feedStatus byte) ∨
    (¬byte ≥ 0x80 ∧ stream.sysex = false ∧
      stream.feed byte = stream.feedData byte) := by
  rw [MidiStream.feed]
  by_cases hreal : byte ≥ 0xf8
  · exact .inl ⟨hreal, if_pos hreal⟩
  · by_cases hend : stream.sysex = true ∧ byte = 0xf7
    · rw [if_neg hreal, if_pos hend]
      exact .inr (.inl ⟨hend.1, hend.2, rfl⟩)
    · by_cases hmore : stream.sysex = true ∧ byte < 0x80
      · rw [if_neg hreal, if_neg hend, if_pos hmore]
        exact .inr (.inr (.inl ⟨hmore.1, hmore.2, rfl⟩))
      · rw [if_neg hreal, if_neg hend, if_neg hmore]
        by_cases hstatus : byte ≥ 0x80
        · exact .inr (.inr (.inr (.inl ⟨hreal, hstatus, if_pos hstatus⟩)))
        · have hsysex : stream.sysex = false := by
            have hlow := UInt8.not_le.mp hstatus
            by_contra hne
            exact hmore ⟨by simpa using hne, hlow⟩
          have hsame : { stream with sysex := false } = stream := by
            rw [← hsysex]
          rw [hsame]
          exact .inr (.inr (.inr (.inr ⟨hstatus, hsysex, if_neg hstatus⟩)))

/-! ## Keeping in step -/

/-- The stream and the parser have read the same bytes: they are outside of
channel messages, or they have the same data of one. -/
inductive InStep : MidiStream → MidiContext → Prop where
  | system {stream : MidiStream} {midi : MidiContext} :
      stream.running = 0 → midi.runningStatus = 0 →
      (stream.sysex = false →
        ∀ c ∈ stream.bytes.head?, isChannelStatus c = false) →
      InStep stream midi
  | channel {stream : MidiStream} {midi : MidiContext} :
      isChannelStatus midi.runningStatus = true →
      stream.sysex = false →
      stream.resume = ⟨midi.runningStatus :: midi.dataBuf,
        channelLength midi.runningStatus, midi.runningStatus, false⟩ →
      midi.dataNeed = midiStatusDataLen midi.runningStatus →
      midi.dataBuf.length < midi.dataNeed →
      InStep stream midi

section

variable {stream : MidiStream} {midi : MidiContext} {byte : UInt8}

theorem ne_zero_of_isChannelStatus {status : UInt8}
    (h : isChannelStatus status = true) : status ≠ 0 := by
  rintro rfl
  exact absurd h (by decide)

theorem not_isChannelStatus {status : UInt8}
    (h : status < 0x80 ∨ 0xf0 ≤ status) : isChannelStatus status = false := by
  rw [Bool.eq_false_iff, Ne, isChannelStatus_iff]
  rintro ⟨hge, hlt⟩
  rcases h with h | h
  · exact absurd hge (UInt8.not_le.mpr h)
  · exact absurd h (UInt8.not_le.mpr hlt)

theorem channelMessages_of_head {bytes : Bytes}
    (h : ∀ c ∈ bytes.head?, isChannelStatus c = false) :
    channelMessages [bytes] = [] := by
  have hnot : isChannelMessage bytes = false := by
    rw [isChannelMessage]
    cases hhead : bytes.head? with
    | none => rfl
    | some c => exact h c hhead
  rw [channelMessages, List.filter_cons_of_neg (by simp [hnot]),
    List.filter_nil]

/-- What one step of both readers keeps. -/
def StaysInStep (stream : MidiStream × List Bytes)
    (midi : MidiContext × List MidiMessage) : Prop :=
  InStep stream.1 midi.1 ∧
    channelMessages stream.2 = midi.2.map MidiMessage.bytes

theorem inStep_realTime (h : InStep stream midi) (hbyte : byte ≥ 0xf8) :
    StaysInStep (stream, [[byte]]) (parseStep midi byte) := by
  rw [parseStep, midiParseByte, if_pos hbyte]
  refine ⟨h, channelMessages_of_head ?_⟩
  intro c hc
  obtain rfl : byte = c := by simpa using hc
  exact not_isChannelStatus (.inr (UInt8.le_trans (by decide) hbyte))

theorem parseByte_channel (h : isChannelStatus byte = true) :
    parseStep midi byte = ({ midi with
      runningStatus := byte
      dataBuf := []
      dataNeed := midiStatusDataLen byte }, []) := by
  obtain ⟨hge, hlt⟩ := isChannelStatus_iff.mp h
  have hlow : ¬byte ≥ 0xf0 := UInt8.not_le.mpr hlt
  have hreal : ¬byte ≥ 0xf8 := fun hreal =>
    hlow (UInt8.le_trans (by decide) hreal)
  rw [parseStep, midiParseByte, if_neg hreal, if_pos hge, if_neg hlow]
  rfl

theorem parseByte_system (hreal : ¬byte ≥ 0xf8) (h : byte ≥ 0xf0) :
    parseStep midi byte =
      ({ midi with runningStatus := 0, dataBuf := [], dataNeed := 0 }, []) := by
  have hge : byte ≥ 0x80 := UInt8.le_trans (by decide) h
  rw [parseStep, midiParseByte, if_neg hreal, if_pos hge, if_pos h]
  rfl

/-- A status byte starts a channel message, or leaves them. -/
theorem inStep_status (stream : MidiStream) (midi : MidiContext)
    (hsysex : stream.sysex = false) (hreal : ¬byte ≥ 0xf8)
    (hstatus : byte ≥ 0x80) :
    StaysInStep (stream.feedStatus byte) (parseStep midi byte) := by
  by_cases hchannel : byte < 0xf0
  · have hkind : isChannelStatus byte = true :=
      isChannelStatus_iff.mpr ⟨hstatus, hchannel⟩
    have hstart : byte ≠ 0xf0 := by
      rintro rfl
      exact absurd hchannel (by decide)
    rw [parseByte_channel hkind, MidiStream.feedStatus]
    simp only [if_neg hstart, if_pos hchannel]
    refine ⟨.channel hkind hsysex ?_ rfl ?_, rfl⟩
    · rw [MidiStream.resume, if_neg (by simp)]
      simp only [hsysex]
    · rcases midiStatusDataLen_cases byte with hlen | hlen
      · simp [hlen]
      · simp [hlen]
  · have hhigh : byte ≥ 0xf0 := UInt8.not_lt.mp hchannel
    have hsystem : isChannelStatus byte = false :=
      not_isChannelStatus (.inr hhigh)
    have hnone : channelMessages [[byte]] = [] :=
      channelMessages_of_head (by simpa using hsystem)
    rw [parseByte_system hreal hhigh]
    simp only [MidiStream.feedStatus, if_pos hhigh, if_neg hchannel]
    split_ifs
    · exact ⟨.system rfl rfl (by simp), rfl⟩
    · exact ⟨.system rfl rfl (by simpa using fun _ => hsystem), rfl⟩
    · exact ⟨.system rfl rfl (by simpa using fun _ => hsystem), rfl⟩
    · exact ⟨.system rfl rfl (by simp), hnone⟩
    · exact ⟨.system rfl rfl (by simp), rfl⟩

/-- Data outside of channel messages belongs to none. -/
theorem inStep_data_system (hvalid : stream.Valid)
    (hrunning : stream.running = 0) (hparser : midi.runningStatus = 0)
    (hhead : ∀ c ∈ stream.bytes.head?, isChannelStatus c = false)
    (hlow : ¬byte ≥ 0x80) :
    StaysInStep (stream.feedData byte) (parseStep midi byte) := by
  have hreal : ¬byte ≥ 0xf8 := fun hreal =>
    hlow (UInt8.le_trans (by decide) hreal)
  have hparse : parseStep midi byte = (midi, []) := by
    rw [parseStep, midiParseByte, if_neg hreal, if_neg hlow,
      if_pos (.inl hparser)]
    rfl
  have hresume : stream.resume = stream := by
    rw [MidiStream.resume, if_neg (by simp [hrunning])]
  rw [hparse, MidiStream.feedData]
  simp only [hresume]
  split_ifs with hneeded hfull
  · exact ⟨.system hrunning hparser fun _ => hhead, rfl⟩
  · have hne : stream.bytes ≠ [] := fun hnil => hneeded (hvalid.started hnil)
    refine ⟨.system hrunning hparser (by simp), channelMessages_of_head ?_⟩
    rw [List.head?_append_of_ne_nil _ hne]
    exact hhead
  · have hne : stream.bytes ≠ [] := fun hnil => hneeded (hvalid.started hnil)
    refine ⟨.system hrunning hparser fun _ => ?_, rfl⟩
    rw [List.head?_append_of_ne_nil _ hne]
    exact hhead

/-- A completed message is the same for both. -/
theorem completed_eq (hkind : isChannelStatus midi.runningStatus = true)
    (hneed : midi.dataNeed = midiStatusDataLen midi.runningStatus)
    (hfull : midi.dataBuf.length + 1 = midi.dataNeed) :
    channelMessages [midi.runningStatus :: (midi.dataBuf ++ [byte])] =
      [(⟨midi.runningStatus, (midi.dataBuf ++ [byte]).getD 0 0,
        if midi.dataNeed > 1 then (midi.dataBuf ++ [byte]).getD 1 0
        else 0⟩ : MidiMessage)].map MidiMessage.bytes := by
  have hmessage : isChannelMessage
      (midi.runningStatus :: (midi.dataBuf ++ [byte])) = true := hkind
  rw [channelMessages, List.filter_cons_of_pos hmessage, List.filter_nil,
    List.map_singleton]
  congr 1
  rcases midiStatusDataLen_cases midi.runningStatus with hlen | hlen
  · have hnil : midi.dataBuf = [] := List.eq_nil_of_length_eq_zero (by omega)
    rw [MidiMessage.bytes, if_pos hlen, hnil]
    rfl
  · obtain ⟨d, hd⟩ := List.length_eq_one_iff.mp
      (show midi.dataBuf.length = 1 by omega)
    have hlong : ¬midiStatusDataLen midi.runningStatus = 1 := by omega
    rw [MidiMessage.bytes, if_neg hlong, if_pos (by omega), hd]
    rfl

/-- Data of a channel message is kept by both until the message is
complete. -/
theorem inStep_data_channel
    (hkind : isChannelStatus midi.runningStatus = true)
    (hresume : stream.resume = ⟨midi.runningStatus :: midi.dataBuf,
      channelLength midi.runningStatus, midi.runningStatus, false⟩)
    (hneed : midi.dataNeed = midiStatusDataLen midi.runningStatus)
    (hlen : midi.dataBuf.length < midi.dataNeed) (hlow : ¬byte ≥ 0x80) :
    StaysInStep (stream.feedData byte) (parseStep midi byte) := by
  have hreal : ¬byte ≥ 0xf8 := fun hreal =>
    hlow (UInt8.le_trans (by decide) hreal)
  have hrunning : ¬(midi.runningStatus = 0 ∨ midi.dataNeed = 0) := by
    rintro (hzero | hzero)
    · exact ne_zero_of_isChannelStatus hkind hzero
    · omega
  have hwith : withByte midi byte = midi.dataBuf ++ [byte] := by
    have hcases := midiStatusDataLen_cases midi.runningStatus
    rw [withByte, if_pos (by omega)]
  have hneeded : channelLength midi.runningStatus ≠ 0 := by
    rw [channelLength_eq]
    omega
  have hparse : midiParseByte midi byte = midiParseData midi byte := by
    rw [midiParseByte, if_neg hreal, if_neg hlow, if_neg hrunning]
  have hgrown : (midi.dataBuf ++ [byte]).length = midi.dataBuf.length + 1 :=
    List.length_append
  by_cases hfull : midi.dataBuf.length + 1 = midi.dataNeed
  · have hmidi : parseStep midi byte = ({ midi with dataBuf := [] },
        [⟨midi.runningStatus, (midi.dataBuf ++ [byte]).getD 0 0,
          if midi.dataNeed > 1 then (midi.dataBuf ++ [byte]).getD 1 0
          else 0⟩]) := by
      rw [parseStep, hparse, midiParseData, hwith, if_pos (by omega)]
      rfl
    have hstream : stream.feedData byte =
        (⟨[], 0, midi.runningStatus, false⟩,
          [midi.runningStatus :: (midi.dataBuf ++ [byte])]) := by
      rw [MidiStream.feedData]
      simp only [hresume, if_neg hneeded]
      rw [if_pos]
      · rfl
      · rw [List.cons_append, List.length_cons, hgrown, channelLength_eq]
        omega
    rw [hmidi, hstream]
    constructor
    · refine .channel hkind rfl ?_ hneed ?_
      · have hne := ne_zero_of_isChannelStatus hkind
        rw [MidiStream.resume, if_pos ⟨rfl, hne⟩]
      · exact Nat.pos_of_ne_zero fun hzero => hrunning (.inr hzero)
    · exact completed_eq hkind hneed hfull
  · have hmidi : parseStep midi byte =
        ({ midi with dataBuf := midi.dataBuf ++ [byte] }, []) := by
      rw [parseStep, hparse, midiParseData, hwith, if_neg (by omega)]
      rfl
    have hstream : stream.feedData byte =
        (⟨midi.runningStatus :: (midi.dataBuf ++ [byte]),
          channelLength midi.runningStatus, midi.runningStatus, false⟩,
          []) := by
      rw [MidiStream.feedData]
      simp only [hresume, if_neg hneeded]
      rw [if_neg]
      · rfl
      · rw [List.cons_append, List.length_cons, hgrown, channelLength_eq]
        omega
    have hlt : (midi.dataBuf ++ [byte]).length < midi.dataNeed := by omega
    rw [hmidi, hstream]
    refine ⟨.channel hkind rfl ?_ hneed hlt, rfl⟩
    rw [MidiStream.resume, if_neg (by simp)]

/-- Data inside of a system exclusive message belongs to no other. -/
theorem inStep_feedSystem (hvalid : stream.Valid)
    (hsysex : stream.sysex = true) (h : InStep stream midi)
    (hlow : byte < 0x80) :
    StaysInStep (stream.feedSystem byte) (parseStep midi byte) := by
  have hreal : ¬byte ≥ 0xf8 := fun hreal =>
    UInt8.not_le.mpr hlow (UInt8.le_trans (by decide) hreal)
  cases h with
  | channel _ hnot => exact absurd hsysex (by simp [hnot])
  | system hrunning hparser _ =>
      have hparse : parseStep midi byte = (midi, []) := by
        rw [parseStep, midiParseByte, if_neg hreal,
          if_neg (UInt8.not_le.mpr hlow), if_pos (.inl hparser)]
        rfl
      rw [hparse]
      simp only [MidiStream.feedSystem]
      split_ifs with hfull
      · refine ⟨.system hrunning hparser (by simp [hsysex]),
          channelMessages_of_head ?_⟩
        intro c hc
        have hhead := MidiStream.system_concat hvalid hsysex hlow c hc
        refine not_isChannelStatus (hhead.symm.imp_right ?_)
        rintro rfl
        exact UInt8.le_refl _
      · exact ⟨.system hrunning hparser (by simp [hsysex]), rfl⟩

/-- The end of a system exclusive message. -/
theorem inStep_endSystem (hvalid : stream.Valid)
    (hsysex : stream.sysex = true) (h : InStep stream midi) :
    StaysInStep
      ({ stream with sysex := false, bytes := [] }, [stream.bytes ++ [0xf7]])
      (parseStep midi 0xf7) := by
  cases h with
  | channel _ hnot => exact absurd hsysex (by simp [hnot])
  | system hrunning hparser _ =>
      rw [parseByte_system (by decide) (by decide)]
      refine ⟨.system hrunning rfl (by simp), channelMessages_of_head ?_⟩
      intro c hc
      by_cases hbytes : stream.bytes = []
      · obtain rfl : (0xf7 : UInt8) = c := by simpa [hbytes] using hc
        exact not_isChannelStatus (.inr (by decide))
      · rw [List.head?_append_of_ne_nil _ hbytes] at hc
        refine not_isChannelStatus ((hvalid.system hsysex c hc).symm.imp_right ?_)
        rintro rfl
        exact UInt8.le_refl _

/-- Both readers stay in step. -/
theorem inStep_feed (hvalid : stream.Valid) (h : InStep stream midi)
    (byte : UInt8) : StaysInStep (stream.feed byte) (parseStep midi byte) := by
  rcases feed_cases stream byte with ⟨hreal, heq⟩ | ⟨hsysex, rfl, heq⟩ |
    ⟨hsysex, hlow, heq⟩ | ⟨hreal, hstatus, heq⟩ | ⟨hlow, hsysex, heq⟩
  · rw [heq]
    exact inStep_realTime h hreal
  · rw [heq]
    exact inStep_endSystem hvalid hsysex h
  · rw [heq]
    exact inStep_feedSystem hvalid hsysex h hlow
  · rw [heq]
    exact inStep_status _ midi rfl hreal hstatus
  · rw [heq]
    cases h with
    | system hrunning hparser hhead =>
        exact inStep_data_system hvalid hrunning hparser (hhead hsysex) hlow
    | channel hkind _ hresume hneed hlen =>
        exact inStep_data_channel hkind hresume hneed hlen hlow

end

/-! ## The buffer of the stream -/

/-- Outside of system exclusive messages there is at most one status with its
data. -/
structure Buffered (stream : MidiStream) : Prop where
  lt_max : stream.bytes.length < streamMax
  needed_le : stream.needed ≤ 3
  short : stream.sysex = false →
    stream.bytes = [] ∨ stream.bytes.length < stream.needed

section

variable {stream : MidiStream} {byte : UInt8}

theorem channelLength_bounds (status : UInt8) :
    1 < channelLength status ∧ channelLength status ≤ 3 := by
  rw [channelLength]
  split
  · decide
  · decide

theorem Buffered.of_short (hneeded : stream.needed ≤ 3)
    (hbytes : stream.bytes = [] ∨ stream.bytes.length < stream.needed) :
    Buffered stream := by
  refine ⟨?_, hneeded, fun _ => hbytes⟩
  rw [streamMax]
  rcases hbytes with hnil | hlt
  · simp [hnil]
  · omega

theorem buffered_feedStatus (stream : MidiStream) (byte : UInt8) :
    Buffered (stream.feedStatus byte).1 := by
  have hlen := channelLength_bounds byte
  have hone : 1 < streamMax := by decide
  simp only [MidiStream.feedStatus]
  generalize (if byte ≥ 0xf0 then (0 : UInt8) else stream.running) = running
  split_ifs
  · exact ⟨hone, Nat.zero_le 3, by simp⟩
  · exact .of_short hlen.2 (.inr hlen.1)
  · exact .of_short (Nat.le_succ 2) (.inr (Nat.lt_succ_self 1))
  · exact .of_short (Nat.le_refl 3) (.inr (Nat.le_succ 2))
  · exact .of_short (Nat.zero_le 3) (.inl rfl)
  · exact .of_short (Nat.zero_le 3) (.inl rfl)

theorem buffered_resume (h : Buffered stream) (hsysex : stream.sysex = false) :
    Buffered stream.resume ∧ stream.resume.sysex = false := by
  have hlen := channelLength_bounds stream.running
  rw [MidiStream.resume]
  split
  · exact ⟨.of_short hlen.2 (.inr hlen.1), hsysex⟩
  · exact ⟨h, hsysex⟩

/-- A byte keeps the buffer within its bounds, and completes messages that
fit into it. -/
def FeedsWithin (fed : MidiStream × List Bytes) : Prop :=
  Buffered fed.1 ∧ ∀ bytes ∈ fed.2, bytes.length ≤ streamMax

theorem feedsWithin_feedData (h : Buffered stream)
    (hsysex : stream.sysex = false) (byte : UInt8) :
    FeedsWithin (stream.feedData byte) := by
  obtain ⟨hresume, hstays⟩ := buffered_resume h hsysex
  have hbytes := hresume.short hstays
  have hthree := hresume.needed_le
  simp only [MidiStream.feedData]
  split_ifs with hneeded hfull
  · exact ⟨hresume, by simp⟩
  · refine ⟨.of_short (Nat.zero_le 3) (.inl rfl), ?_⟩
    intro bytes hmem
    obtain rfl := List.mem_singleton.mp hmem
    rw [hfull, streamMax]
    omega
  · have hgrown : (stream.resume.bytes ++ [byte]).length <
        stream.resume.needed := by
      rw [List.length_append, List.length_singleton] at hfull ⊢
      rcases hbytes with hnil | hlt
      · rw [hnil, List.length_nil] at hfull ⊢
        omega
      · omega
    exact ⟨.of_short hthree (.inr hgrown), by simp⟩

theorem feedsWithin_feedSystem (h : Buffered stream)
    (hsysex : stream.sysex = true) (byte : UInt8) :
    FeedsWithin (stream.feedSystem byte) := by
  have hlt := h.lt_max
  have hpos : 0 < streamMax := by decide
  simp only [MidiStream.feedSystem]
  split_ifs with hfull
  · refine ⟨⟨hpos, h.needed_le, by simp [hsysex]⟩, ?_⟩
    intro bytes hmem
    obtain rfl := List.mem_singleton.mp hmem
    exact hfull.le
  · have hgrown : (stream.bytes ++ [byte]).length < streamMax := by
      rw [List.length_append, List.length_singleton] at hfull ⊢
      omega
    exact ⟨⟨hgrown, h.needed_le, by simp [hsysex]⟩, by simp⟩

theorem feedsWithin_feedStatus (stream : MidiStream) (byte : UInt8) :
    FeedsWithin (stream.feedStatus byte) := by
  refine ⟨buffered_feedStatus stream byte, ?_⟩
  have hone : [byte].length ≤ streamMax := Nat.le_of_ble_eq_true rfl
  simp only [MidiStream.feedStatus]
  generalize (if byte ≥ 0xf0 then (0 : UInt8) else stream.running) = running
  split_ifs
  · simp
  · simp
  · simp
  · simp
  · simpa using hone
  · simp

theorem feedsWithin_feed (h : Buffered stream) (byte : UInt8) :
    FeedsWithin (stream.feed byte) := by
  have hone : [byte].length ≤ streamMax := Nat.le_of_ble_eq_true rfl
  have hlt := h.lt_max
  rcases feed_cases stream byte with ⟨_, heq⟩ | ⟨_, _, heq⟩ |
    ⟨hsysex, _, heq⟩ | ⟨_, _, heq⟩ | ⟨_, hsysex, heq⟩
  · rw [heq]
    exact ⟨h, by simpa using hone⟩
  · rw [heq]
    refine ⟨.of_short h.needed_le (.inl rfl), ?_⟩
    intro bytes hmem
    obtain rfl := List.mem_singleton.mp hmem
    rw [List.length_append, List.length_singleton]
    exact hlt
  · rw [heq]
    exact feedsWithin_feedSystem h hsysex byte
  · rw [heq]
    exact feedsWithin_feedStatus _ byte
  · rw [heq]
    exact feedsWithin_feedData h hsysex byte

end

/-! ## System exclusive messages -/

/-- A real-time byte, which may come in the middle of a message. -/
def isRealTime : Bytes → Bool
  | [byte] => byte ≥ 0xf8
  | _ => false

/-- The messages without the real-time bytes, as one list of bytes. -/
def joined (messages : List Bytes) : Bytes :=
  (messages.filter fun bytes => !isRealTime bytes).flatten

theorem joined_append (messages more : List Bytes) :
    joined (messages ++ more) = joined messages ++ joined more := by
  rw [joined, List.filter_append, List.flatten_append, joined, joined]

theorem joined_part {bytes : Bytes} {byte : UInt8} (h : ¬byte ≥ 0xf8) :
    joined [bytes ++ [byte]] = bytes ++ [byte] := by
  have hpart : isRealTime (bytes ++ [byte]) = false := by
    cases bytes with
    | nil => exact decide_eq_false h
    | cons c rest =>
        cases rest with
        | nil => rfl
        | cons d rest => rfl
  simp [joined, hpart]

/-- The data of a system exclusive message passes through in parts. -/
theorem joined_system {stream : MidiStream} (hsysex : stream.sysex = true)
    {body : Bytes} (hbody : ∀ b ∈ body, b < 0x80 ∨ b ≥ 0xf8) :
    joined (outputs MidiStream.feed stream (body ++ [0xf7])) =
      stream.bytes ++ body.filter (fun b => b < 0x80) ++ [0xf7] := by
  induction body generalizing stream with
  | nil =>
      have hend : stream.feed 0xf7 =
          ({ stream with sysex := false, bytes := [] },
            [stream.bytes ++ [0xf7]]) := by
        rw [MidiStream.feed, if_neg (by decide), if_pos ⟨hsysex, rfl⟩]
      rw [List.nil_append, outputs, outputs, hend, List.append_nil,
        joined_part (by decide), List.filter_nil, List.append_nil]
  | cons b body ih =>
      have hrest : ∀ c ∈ body, c < 0x80 ∨ c ≥ 0xf8 :=
        fun c hc => hbody c (List.mem_cons_of_mem _ hc)
      rw [List.cons_append, outputs, joined_append]
      rcases hbody b (by simp) with hdata | hreal
      · have hreal : ¬b ≥ 0xf8 := fun hreal =>
          UInt8.not_le.mpr hdata (UInt8.le_trans (by decide) hreal)
        have hfeed : stream.feed b = stream.feedSystem b := by
          have hend : b ≠ 0xf7 := by
            rintro rfl
            exact absurd hdata (by decide)
          rw [MidiStream.feed, if_neg hreal, if_neg fun h => hend h.2,
            if_pos ⟨hsysex, hdata⟩]
        rw [hfeed, List.filter_cons, if_pos (decide_eq_true hdata)]
        simp only [MidiStream.feedSystem]
        split_ifs
        · have hnext := @ih { stream with bytes := [] } hsysex hrest
          dsimp only at hnext ⊢
          rw [joined_part hreal, hnext]
          simp
        · have hnext := @ih { stream with bytes := stream.bytes ++ [b] }
            hsysex hrest
          dsimp only at hnext ⊢
          rw [hnext]
          simp [joined]
      · have hfeed : stream.feed b = (stream, [[b]]) := by
          rw [MidiStream.feed, if_pos hreal]
        have hnot : ¬b < 0x80 := UInt8.not_lt.mpr
          (UInt8.le_trans (by decide) hreal)
        have hnone : joined [[b]] = [] := by
          simp [joined, isRealTime, hreal]
        rw [hfeed, List.filter_cons_of_neg (by simpa using hnot), hnone,
          List.nil_append]
        exact ih hsysex hrest

/-- The parts of a system exclusive message are the message. -/
theorem joined_sysex (stream : MidiStream) {body : Bytes}
    (hbody : ∀ b ∈ body, b < 0x80 ∨ b ≥ 0xf8) :
    joined (outputs MidiStream.feed stream (0xf0 :: (body ++ [0xf7]))) =
      0xf0 :: (body.filter (fun b => b < 0x80) ++ [0xf7]) := by
  have hfeed : stream.feed 0xf0 = (⟨[0xf0], 0, 0, true⟩, []) := by
    rw [MidiStream.feed, if_neg (by decide),
      if_neg fun h => absurd h.2 (by decide),
      if_neg fun h => absurd h.2 (by decide)]
    rfl
  rw [outputs, hfeed, List.nil_append]
  exact joined_system rfl hbody

/-! ## Whole streams -/

/-- The parser after a reset. -/
def resetParser (midi : MidiContext) : MidiContext :=
  { midi with runningStatus := 0, dataBuf := [], dataNeed := 0 }

theorem valid_start : MidiStream.Valid {} :=
  ⟨fun _ => rfl, by simp, by simp, by simp⟩

theorem buffered_start : Buffered {} :=
  .of_short (Nat.zero_le 3) (.inl rfl)

theorem channelMessages_eq (midi : MidiContext) (input : Bytes) :
    channelMessages (outputs MidiStream.feed {} input) =
      (outputs parseStep (resetParser midi) input).map MidiMessage.bytes := by
  have hstart : InStep {} (resetParser midi) := .system rfl rfl (by simp)
  refine observed_eq (fun stream midi => stream.Valid ∧ InStep stream midi)
    (fun _ _ => List.filter_append _ _) (fun _ _ => List.map_append) rfl ?_
    ⟨valid_start, hstart⟩ input
  rintro stream midi byte ⟨hvalid, hstep⟩
  obtain ⟨hnext, hsame⟩ := inStep_feed hvalid hstep byte
  exact ⟨⟨(MidiStream.valid_feed hvalid byte).1, hnext⟩, hsame⟩

/-- From a reset both parsers find the same channel messages, however the
bytes are split into calls; the buffer of the stream does not overflow, and
system exclusive messages pass through unchanged. -/
theorem parsers_agree (midi : MidiContext) (calls : List Bytes) :
    channelMessages (callOutputs MidiStream.feed {} calls) =
        (callOutputs parseStep (resetParser midi) calls).map
          MidiMessage.bytes ∧
      (state MidiStream.feed {} calls.flatten).bytes.length < streamMax ∧
      (∀ bytes ∈ callOutputs MidiStream.feed {} calls,
        bytes.length ≤ streamMax) ∧
      ∀ (body : Bytes) (more : List Bytes),
        (∀ b ∈ body, b < 0x80 ∨ b ≥ 0xf8) →
        more.flatten = 0xf0 :: (body ++ [0xf7]) →
        joined (callOutputs MidiStream.feed
            (state MidiStream.feed {} calls.flatten) more) =
          0xf0 :: (body.filter (fun b => b < 0x80) ++ [0xf7]) := by
  have hwithin : ∀ stream byte, Buffered stream →
      FeedsWithin (stream.feed byte) := fun _ byte h => feedsWithin_feed h byte
  rw [callOutputs_eq, callOutputs_eq]
  refine ⟨channelMessages_eq midi calls.flatten, ?_, ?_, ?_⟩
  · have hbuffered := state_invariant Buffered
      (fun stream byte h => (hwithin stream byte h).1) buffered_start
      calls.flatten
    exact hbuffered.lt_max
  · exact outputs_forall Buffered _ hwithin buffered_start calls.flatten
  · intro body more hbody hmore
    rw [callOutputs_eq, hmore]
    exact joined_sysex _ hbody

/-- A note with a clock byte inside, a second note without a status, and a
system exclusive message that comes in two calls. -/
theorem parsers_agree_notes :
    channelMessages (callOutputs MidiStream.feed {}
        [[0x90, 60, 0xf8], [100, 62, 90]]) =
        (callOutputs parseStep (resetParser {})
          [[0x90, 60, 0xf8], [100, 62, 90]]).map MidiMessage.bytes ∧
      joined (callOutputs MidiStream.feed
          (state MidiStream.feed {} [[0x90, 60, 0xf8], [100, 62, 90]].flatten)
          [[0xf0, 1, 0xfe], [2, 0xf7]]) = [0xf0, 1, 2, 0xf7] := by
  have hagree := parsers_agree {} [[0x90, 60, 0xf8], [100, 62, 90]]
  have hsysex := hagree.2.2.2 [1, 0xfe, 2] [[0xf0, 1, 0xfe], [2, 0xf7]]
    (by decide +kernel) rfl
  have hdata : List.filter (fun b => decide (b < 0x80)) [1, 0xfe, 2] =
      ([1, 2] : Bytes) := by
    decide
  rw [hdata] at hsysex
  exact ⟨hagree.1, hsysex⟩

end Audiox.Midi
