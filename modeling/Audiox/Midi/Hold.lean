import Audiox.Config.SoundLight
import Audiox.Support.Runs
import Mathlib

/-!
# Held sounds

A key of the controller that is mapped to a sound in hold mode plays the sound
until the key is released.  The controller may send the release with another
number or channel, and the midi map may change in between.
-/

namespace Audiox.Midi

open ByteCodec Config Runs

/-! ## The midi map -/

def midiMappingsMax : Nat := 64
def midiEffectToggleMappingsMax : Nat := 32

inductive SoundboardMode where
  | play
  | hold
deriving DecidableEq

inductive MidiActionType where
  | none
  | stopAll
  | samplerToggle
deriving DecidableEq

structure MidiMapping where
  note : UInt8
  sfxPath : Bytes

structure MidiSoundMode where
  sfxPath : Bytes
  mode : SoundboardMode

structure MidiActionMapping where
  note : UInt8
  action : MidiActionType

structure MidiEffectToggleMapping where
  note : UInt8
  effectId : Bytes

/-- The part of the midi map that says what a note does. -/
structure MidiMapData where
  mappings : List MidiMapping := []
  soundModes : List MidiSoundMode := []
  actionMappings : List MidiActionMapping := []
  effectToggleMappings : List MidiEffectToggleMapping := []
  samplerKeyboardEnabled : Bool := false
  samplerKeyboardChannel : UInt8 := 0
  samplerRootNote : UInt8 := 60

def resolveSoundMode (data : MidiMapData) (sfxPath : Bytes) : SoundboardMode :=
  if sfxPath = [] then .play
  else
    match (data.soundModes.take midiMappingsMax).find? (·.sfxPath == sfxPath) with
    | some found => found.mode
    | none => .play

def resolveMappedAction (data : MidiMapData) (note : UInt8) : MidiActionType :=
  match (data.actionMappings.take midiMappingsMax).find? (·.note == note) with
  | some found => found.action
  | none => .none

def resolveEffectToggleTarget (data : MidiMapData) (note : UInt8) :
    Option Bytes :=
  ((data.effectToggleMappings.take midiEffectToggleMappingsMax).find?
    fun m => m.note == note && m.effectId ≠ []).map (·.effectId)

/-- The sound that a note is mapped to. -/
def resolveMapping (data : MidiMapData) (note : UInt8) : Option Bytes :=
  ((data.mappings.take midiMappingsMax).find?
    fun m => m.note == note && m.sfxPath ≠ []).map (·.sfxPath)

/-! ## Paths of sounds -/

def sfxRootDir : Bytes := ascii "/audiox/sfx"

def midiPathSafe (s : Bytes) : Bool :=
  s ≠ [] && !decide (ascii ".." <:+: s) && !s.contains (chr '\\')

def buildAbsoluteSfxPath (configured : Bytes) : Option Bytes :=
  if !midiPathSafe configured then none
  else if configured.head? = some (chr '/') then
    if ¬ (sfxRootDir ++ ascii "/") <+: configured ∧ configured ≠ sfxRootDir then
      none
    else if configured.length < 256 then some configured
    else none
  else if (sfxRootDir ++ ascii "/" ++ configured).length < 256 then
    some (sfxRootDir ++ ascii "/" ++ configured)
  else none

/-! ## The controller -/

/-- `dataBuf` has the data bytes of the message that is being read, and
`connected` says that the device is open. -/
structure MidiContext where
  connected : Bool := false
  runningStatus : UInt8 := 0
  dataBuf : Bytes := []
  dataNeed : Nat := 0
  cachedMidiMap : MidiMapData := {}
  heldNote : UInt8 := 255
  holdActive : Bool := false
  samplerModeActive : Bool := false
  samplerSelectedValid : Bool := false
  samplerSelectedSfx : Bytes := []

/-- A call of the audio engine; a start says whether it has succeeded. -/
inductive AudioCall where
  | startHeldSfx (sfxPath : Bytes) (ok : Bool)
  | stopHeldSfx
  | stopAllSfx
  | triggerSfx (sfxPath : Bytes)
  | triggerSfxPitch (sfxPath : Bytes) (semitones : Int)
  | toggleEffectEnabled (id : Bytes)
deriving DecidableEq

structure MidiMessage where
  status : UInt8
  d0 : UInt8
  d1 : UInt8

namespace MidiMessage

def kind (msg : MidiMessage) : UInt8 := msg.status &&& 0xf0
def channel (msg : MidiMessage) : UInt8 := msg.status &&& 0x0f

def isNoteOn (msg : MidiMessage) : Bool := msg.kind == 0x90 && 0 < msg.d1

def isNoteOff (msg : MidiMessage) : Bool :=
  msg.kind == 0x80 || (msg.kind == 0x90 && msg.d1 == 0)

end MidiMessage

def midiStatusDataLen (status : UInt8) : Nat :=
  if status &&& 0xf0 = 0xc0 ∨ status &&& 0xf0 = 0xd0 then 1 else 2

def withByte (midi : MidiContext) (byte : UInt8) : Bytes :=
  if midi.dataBuf.length < 2 then midi.dataBuf ++ [byte] else midi.dataBuf

/-- A data byte, which may complete a message. -/
def midiParseData (midi : MidiContext) (byte : UInt8) :
    MidiContext × Option MidiMessage :=
  if (withByte midi byte).length ≥ midi.dataNeed then
    ({ midi with dataBuf := [] },
      some ⟨midi.runningStatus, (withByte midi byte).getD 0 0,
        if midi.dataNeed > 1 then (withByte midi byte).getD 1 0 else 0⟩)
  else ({ midi with dataBuf := withByte midi byte }, none)

def midiParseByte (midi : MidiContext) (byte : UInt8) :
    MidiContext × Option MidiMessage :=
  if byte ≥ 0xf8 then (midi, none)
  else if byte ≥ 0x80 then
    if byte ≥ 0xf0 then
      ({ midi with runningStatus := 0, dataBuf := [], dataNeed := 0 }, none)
    else
      ({ midi with
        runningStatus := byte
        dataBuf := []
        dataNeed := midiStatusDataLen byte }, none)
  else if midi.runningStatus = 0 ∨ midi.dataNeed = 0 then (midi, none)
  else midiParseData midi byte

/-! ## Notes -/

/-- What a pressed key does. -/
inductive NoteAction where
  | recall
  | sampler (sfxPath : Option Bytes) (semitones : Int)
  | stopAll
  | toggleEffect (id : Bytes)
  | toggleSampler
  | unmapped
  | select (sfxPath : Bytes)
  | invalid
  | unavailable
  | hold (sfxPath : Bytes)
  | play (sfxPath : Bytes)
deriving DecidableEq

section Calls

-- `audio` says whether there is an audio engine.
variable (audio : Bool)

/-- The key belongs to the keyboard of the sampler. -/
def samplerKey (midi : MidiContext) (channel : UInt8) : Bool :=
  midi.samplerSelectedValid && midi.cachedMidiMap.samplerKeyboardEnabled &&
    channel == midi.cachedMidiMap.samplerKeyboardChannel &&& 0x0f && audio

/-- What a key does that is mapped to a sound. -/
def soundAction (midi : MidiContext) (mapped : Bytes) : NoteAction :=
  if midi.samplerModeActive then .select mapped
  else
    match buildAbsoluteSfxPath mapped with
    | none => .invalid
    | some sfxPath =>
        if !audio then .unavailable
        else
          match resolveSoundMode midi.cachedMidiMap mapped with
          | .hold => .hold sfxPath
          | .play => .play sfxPath

/-- What a key does for which the midi map has an action, or none. -/
def mappedAction (midi : MidiContext) (d0 : UInt8) (action : MidiActionType) :
    NoteAction :=
  if action = .stopAll then .stopAll
  else
    match if audio then resolveEffectToggleTarget midi.cachedMidiMap d0
        else none with
    | some id => .toggleEffect id
    | none =>
        if action = .samplerToggle then .toggleSampler
        else
          match resolveMapping midi.cachedMidiMap d0 with
          | none => .unmapped
          | some mapped => soundAction audio midi mapped

/-- `recalled` says whether the key recalls a scene. -/
def noteAction (recalled : Bool) (midi : MidiContext) (channel d0 : UInt8) :
    NoteAction :=
  if recalled then .recall
  else if samplerKey audio midi channel then
    .sampler (buildAbsoluteSfxPath midi.samplerSelectedSfx)
      (d0.toNat - midi.cachedMidiMap.samplerRootNote.toNat)
  else
    mappedAction audio midi d0 (resolveMappedAction midi.cachedMidiMap d0)

/-- A key that plays while it is down. -/
def holdNote (started : Bool) (midi : MidiContext) (d0 : UInt8)
    (sfxPath : Bytes) : MidiContext × List AudioCall :=
  (if started then { midi with holdActive := true, heldNote := d0 } else midi,
    (if midi.holdActive ∧ midi.heldNote ≠ d0 then [.stopHeldSfx] else []) ++
      [.startHeldSfx sfxPath started])

/-- `started` is what `startHeldSfx` answers. -/
def perform (started : Bool) (midi : MidiContext) (d0 : UInt8) :
    NoteAction → MidiContext × List AudioCall
  | .sampler (some sfxPath) semitones =>
      (midi, [.triggerSfxPitch sfxPath semitones])
  | .stopAll =>
      ({ midi with holdActive := false, heldNote := 255 },
        if audio then [.stopAllSfx] else [])
  | .toggleEffect id => (midi, [.toggleEffectEnabled id])
  | .toggleSampler =>
      ({ midi with samplerModeActive := !midi.samplerModeActive }, [])
  | .select sfxPath =>
      ({ midi with
        samplerSelectedSfx := copyBounded midiSfxPathMax sfxPath
        samplerSelectedValid := true }, [])
  | .hold sfxPath => holdNote started midi d0 sfxPath
  | .play sfxPath => (midi, [.triggerSfx sfxPath])
  | _ => (midi, [])

def noteOff (midi : MidiContext) : MidiContext × List AudioCall :=
  if midi.holdActive ∧ audio then
    ({ midi with holdActive := false, heldNote := 255 }, [.stopHeldSfx])
  else (midi, [])

/-- A message; those that are no notes have nothing to do with sounds. -/
def message (recalled started : Bool) (midi : MidiContext) (msg : MidiMessage) :
    MidiContext × List AudioCall :=
  if msg.isNoteOff then noteOff audio midi
  else if msg.isNoteOn then
    perform audio started midi msg.d0
      (noteAction audio recalled midi msg.channel msg.d0)
  else (midi, [])

def handleByte (recalled started : Bool) (midi : MidiContext) (byte : UInt8) :
    MidiContext × List AudioCall :=
  match midiParseByte midi byte with
  | (midi, none) => (midi, [])
  | (midi, some msg) => message audio recalled started midi msg

/-! ## The other calls -/

/-- What `stat` says of the selected sound. -/
inductive SelectedFile where
  | failed
  | missing
  | regular
  | other
deriving DecidableEq

/-- The selected sound cannot be looked up. -/
def selectionFails (midi : MidiContext) (selected : SelectedFile) : Bool :=
  midi.samplerSelectedValid &&
    ((buildAbsoluteSfxPath midi.samplerSelectedSfx).isNone ||
      selected == .failed)

def selectedMissing (midi : MidiContext) (selected : SelectedFile) : Bool :=
  midi.samplerSelectedValid && (selected == .missing || selected == .other)

/-- The held note is not mapped any more. -/
def holdEnds (midi : MidiContext) (data : MidiMapData) : Bool :=
  midi.holdActive && !data.mappings.any (·.note == midi.heldNote)

/-- `data` is the midi map without the sounds that are missing. -/
def reloadSoundboardMappings (midi : MidiContext) (selected : SelectedFile)
    (data : Option MidiMapData) : MidiContext × List AudioCall :=
  if selectionFails midi selected then (midi, [])
  else
    match data with
    | none => (midi, [])
    | some data =>
        ({ midi with
            holdActive := midi.holdActive && !holdEnds midi data
            heldNote := if holdEnds midi data then 255 else midi.heldNote
            samplerSelectedValid :=
              midi.samplerSelectedValid && !selectedMissing midi selected
            samplerSelectedSfx :=
              if selectedMissing midi selected then []
              else midi.samplerSelectedSfx
            cachedMidiMap := data },
          if holdEnds midi data ∧ audio then [.stopHeldSfx] else [])

def disconnect (midi : MidiContext) : MidiContext :=
  { midi with
    connected := false
    runningStatus := 0
    dataBuf := []
    dataNeed := 0
    heldNote := 255
    holdActive := false }

def connect (midi : MidiContext) : MidiContext :=
  { midi with
    connected := true
    runningStatus := 0
    dataBuf := []
    dataNeed := 0 }

def toggleSamplerMode (midi : MidiContext) : MidiContext :=
  { midi with samplerModeActive := !midi.samplerModeActive }

/-! ## Sessions -/

inductive HoldEvent where
  | byte (byte : UInt8) (recalled started : Bool)
  | reloadMap (data : MidiMapData)
  | reloadSoundboard (selected : SelectedFile) (data : Option MidiMapData)
  | toggleSamplerMode
  | disconnect
  | connect

/-- The context with the calls it has made. -/
structure Session where
  midi : MidiContext
  calls : List AudioCall

namespace Session

def after (s : Session) (r : MidiContext × List AudioCall) : Session :=
  ⟨r.1, s.calls ++ r.2⟩

def step (s : Session) : HoldEvent → Option Session
  | .byte byte recalled started =>
      if s.midi.connected then
        some (s.after (handleByte audio recalled started s.midi byte))
      else none
  | .reloadMap data =>
      some (s.after ({ s.midi with cachedMidiMap := data }, []))
  | .reloadSoundboard selected data =>
      some (s.after (reloadSoundboardMappings audio s.midi selected data))
  | .toggleSamplerMode => some (s.after (Midi.toggleSamplerMode s.midi, []))
  | .disconnect =>
      if s.midi.connected then some (s.after (Midi.disconnect s.midi, []))
      else none
  | .connect =>
      if s.midi.connected then none
      else some (s.after (Midi.connect s.midi, []))

/-- A context with the midi map that it has read at its start. -/
def start (data : MidiMapData) : Session :=
  ⟨{ cachedMidiMap := data }, []⟩

end Session
end Calls

/-! ## What holds in a session -/

def AudioCall.stops : AudioCall → Bool
  | .stopHeldSfx => true
  | .stopAllSfx => true
  | _ => false

def AudioCall.starts : AudioCall → Bool
  | .startHeldSfx _ ok => ok
  | _ => false

/-- Every start that has succeeded is followed by a stop. -/
def Ended (calls : List AudioCall) : Prop :=
  ∀ before call later, calls = before ++ call :: later → call.starts →
    ∃ stop ∈ later, AudioCall.stops stop

theorem ended_nil : Ended [] := by
  intro before call later h
  simp at h

theorem Ended.concat {calls : List AudioCall} {call : AudioCall}
    (h : Ended calls) (hcall : call.starts = false) :
    Ended (calls ++ [call]) := by
  intro before start later heq hstart
  rcases eq_concat_cases heq with ⟨rest, rfl, hcalls⟩ | ⟨-, rfl, -⟩
  · obtain ⟨stop, hmem, hstop⟩ := h before start rest hcalls hstart
    exact ⟨stop, List.mem_append_left _ hmem, hstop⟩
  · rw [hcall] at hstart
    simp at hstart

theorem ended_of_stop (calls : List AudioCall) {call : AudioCall}
    (hcall : call.stops) : Ended (calls ++ [call]) := by
  intro before start later heq hstart
  rcases eq_concat_cases heq with ⟨rest, rfl, -⟩ | ⟨-, rfl, -⟩
  · exact ⟨call, by simp, hcall⟩
  · cases call <;> simp [AudioCall.starts, AudioCall.stops] at hstart hcall

/-- The flag and the note belong together. -/
structure Coherent (audio : Bool) (midi : MidiContext) : Prop where
  note : midi.holdActive = true ↔ midi.heldNote ≠ 255
  engine : midi.holdActive = true → audio = true
  data : ∀ byte ∈ midi.dataBuf, byte < 0x80

/-- When no sound is held any more, the last call has stopped it. -/
def Stops (midi : MidiContext) (r : MidiContext × List AudioCall) : Prop :=
  r.1.holdActive = false →
    (midi.holdActive = false ∧ ∀ call ∈ r.2, call.starts = false) ∨
      ∃ front stop, r.2 = front ++ [stop] ∧ stop.stops = true

section Operations

variable {audio : Bool} {midi : MidiContext}

theorem stops_of_same {r : MidiContext × List AudioCall}
    (hhold : r.1.holdActive = midi.holdActive)
    (hcalls : ∀ call ∈ r.2, call.starts = false) : Stops midi r :=
  fun h => .inl ⟨hhold.symm.trans h, hcalls⟩

theorem stops_silent {midi' : MidiContext}
    (hhold : midi'.holdActive = midi.holdActive) : Stops midi (midi', []) :=
  stops_of_same hhold (by simp)

theorem Coherent.of_same {midi' : MidiContext} (h : Coherent audio midi)
    (hhold : midi'.holdActive = midi.holdActive)
    (hnote : midi'.heldNote = midi.heldNote)
    (hdata : ∀ byte ∈ midi'.dataBuf, byte < 0x80) : Coherent audio midi' where
  note := by rw [hhold, hnote, h.note]
  engine := by rw [hhold]; exact h.engine
  data := hdata

theorem Coherent.released (h : Coherent audio midi) :
    Coherent audio { midi with holdActive := false, heldNote := 255 } where
  note := by simp
  engine := by simp
  data := h.data

/-! ### Messages -/

theorem withByte_lt (h : Coherent audio midi) {byte : UInt8}
    (hbyte : byte < 0x80) : ∀ b ∈ withByte midi byte, b < 0x80 := by
  rw [withByte]
  split
  · intro b hb
    rcases List.mem_append.mp hb with hb | hb
    · exact h.data b hb
    · rw [List.mem_singleton.mp hb]
      exact hbyte
  · exact h.data

theorem getD_lt {bytes : Bytes} (h : ∀ b ∈ bytes, b < 0x80) (i : Nat) :
    bytes.getD i 0 < 0x80 := by
  rw [List.getD_eq_getElem?_getD]
  cases hget : bytes[i]? with
  | none => decide
  | some b => exact h b (List.mem_of_getElem? hget)

/-- What the parser leaves alone, and what it makes of a byte. -/
theorem parse_spec (h : Coherent audio midi) (byte : UInt8) :
    Coherent audio (midiParseByte midi byte).1 ∧
      (midiParseByte midi byte).1.holdActive = midi.holdActive ∧
      ∀ msg ∈ (midiParseByte midi byte).2, msg.d0 < 0x80 := by
  have hnil : ∀ b ∈ ([] : Bytes), b < 0x80 := by simp
  rw [midiParseByte]
  split
  · exact ⟨h, rfl, by simp⟩
  · split
    · split
      · exact ⟨h.of_same rfl rfl hnil, rfl, by simp⟩
      · exact ⟨h.of_same rfl rfl hnil, rfl, by simp⟩
    · split
      · exact ⟨h, rfl, by simp⟩
      · have hbytes : ∀ b ∈ withByte midi byte, b < 0x80 :=
          withByte_lt h (UInt8.not_le.mp (by assumption))
        rw [midiParseData]
        split
        · refine ⟨h.of_same rfl rfl hnil, rfl, fun msg hmsg => ?_⟩
          obtain rfl := Option.some.inj hmsg
          exact getD_lt hbytes 0
        · exact ⟨h.of_same rfl rfl hbytes, rfl, by simp⟩

theorem noteOff_spec (h : Coherent audio midi) :
    Coherent audio (noteOff audio midi).1 ∧ Stops midi (noteOff audio midi) ∧
      (noteOff audio midi).1.holdActive = false := by
  rw [noteOff]
  split
  case isTrue hhold =>
    exact ⟨h.released, fun _ => .inr ⟨[], _, rfl, rfl⟩, rfl⟩
  case isFalse hhold =>
    have hfree : midi.holdActive = false := by
      by_contra hne
      have hactive : midi.holdActive = true := by simpa using hne
      exact hhold ⟨hactive, h.engine hactive⟩
    exact ⟨h, stops_of_same rfl (by simp), hfree⟩

theorem holdNote_spec (h : Coherent audio midi) (haudio : audio = true)
    {d0 : UInt8} (hd0 : d0 < 0x80) (started : Bool) (sfxPath : Bytes) :
    Coherent audio (holdNote started midi d0 sfxPath).1 ∧
      Stops midi (holdNote started midi d0 sfxPath) := by
  cases started with
  | true =>
      refine ⟨⟨?_, fun _ => haudio, h.data⟩, fun hfree => ?_⟩
      · have hne : d0 ≠ 255 := by
          rintro rfl
          exact absurd hd0 (by decide)
        simpa [holdNote] using hne
      · simp [holdNote] at hfree
  | false =>
      refine ⟨h, fun hfree => .inl ⟨hfree, ?_⟩⟩
      have hfree' : midi.holdActive = false := hfree
      simp [holdNote, hfree', AudioCall.starts]

theorem audio_of_soundAction {mapped sfxPath : Bytes}
    (h : soundAction audio midi mapped = .hold sfxPath) : audio = true := by
  cases audio with
  | true => rfl
  | false =>
      rw [soundAction] at h
      split at h
      · simp at h
      · split at h
        · simp at h
        · simp at h

theorem audio_of_hold {recalled : Bool} {channel d0 : UInt8} {sfxPath : Bytes}
    (h : noteAction audio recalled midi channel d0 = .hold sfxPath) :
    audio = true := by
  rw [noteAction] at h
  split at h
  · simp at h
  · split at h
    · simp at h
    · rw [mappedAction] at h
      split at h
      · simp at h
      · split at h
        · simp at h
        · split at h
          · simp at h
          · split at h
            · simp at h
            · exact audio_of_soundAction h

theorem stopAll_spec (h : Coherent audio midi) (started : Bool) (d0 : UInt8) :
    Coherent audio (perform audio started midi d0 .stopAll).1 ∧
      Stops midi (perform audio started midi d0 .stopAll) ∧
      (perform audio started midi d0 .stopAll).1.holdActive = false := by
  refine ⟨h.released, fun _ => ?_, rfl⟩
  rw [perform]
  cases haudio : audio with
  | true => exact .inr ⟨[], _, rfl, rfl⟩
  | false =>
      have hfree : midi.holdActive = false := by
        by_contra hne
        rw [h.engine (by simpa using hne)] at haudio
        simp at haudio
      exact .inl ⟨hfree, by simp⟩

theorem perform_spec (h : Coherent audio midi) {recalled started : Bool}
    {channel d0 : UInt8} (hd0 : d0 < 0x80) {action : NoteAction}
    (haction : noteAction audio recalled midi channel d0 = action) :
    Coherent audio (perform audio started midi d0 action).1 ∧
      Stops midi (perform audio started midi d0 action) := by
  have hsame : ∀ (midi' : MidiContext) (calls : List AudioCall),
      midi'.holdActive = midi.holdActive → midi'.heldNote = midi.heldNote →
      midi'.dataBuf = midi.dataBuf → (∀ call ∈ calls, call.starts = false) →
      Coherent audio midi' ∧ Stops midi (midi', calls) := by
    intro midi' calls hhold hnote hdata hcalls
    exact ⟨h.of_same hhold hnote (by rw [hdata]; exact h.data),
      stops_of_same hhold hcalls⟩
  cases action with
  | stopAll =>
      obtain ⟨hcoherent, hstops, -⟩ := stopAll_spec h started d0
      exact ⟨hcoherent, hstops⟩
  | hold sfxPath =>
      exact holdNote_spec h (audio_of_hold haction) hd0 started sfxPath
  | sampler sfxPath semitones =>
      cases sfxPath with
      | none => exact hsame _ _ rfl rfl rfl (by simp)
      | some sfxPath => exact hsame _ _ rfl rfl rfl (by simp [AudioCall.starts])
  | _ => exact hsame _ _ rfl rfl rfl (by simp [AudioCall.starts])

/-- The byte ends what is held. -/
def Releases (audio recalled : Bool) (midi : MidiContext) (byte : UInt8) :
    Prop :=
  ∃ msg, (midiParseByte midi byte).2 = some msg ∧
    (msg.isNoteOff = true ∨
      (msg.isNoteOn = true ∧
        noteAction audio recalled (midiParseByte midi byte).1 msg.channel
          msg.d0 = .stopAll))

theorem handleByte_spec (h : Coherent audio midi) (recalled started : Bool)
    (byte : UInt8) :
    Coherent audio (handleByte audio recalled started midi byte).1 ∧
      Stops midi (handleByte audio recalled started midi byte) ∧
      (Releases audio recalled midi byte →
        (handleByte audio recalled started midi byte).1.holdActive =
          false) := by
  obtain ⟨hparsed, hhold, hd0⟩ := parse_spec h byte
  rw [handleByte, Releases]
  generalize midiParseByte midi byte = parsed at *
  obtain ⟨midi', msg⟩ := parsed
  have hfrom : ∀ r, Stops midi' r → Stops midi r := by
    intro r hr hfree
    rw [← hhold]
    exact hr hfree
  cases msg with
  | none =>
      refine ⟨hparsed, stops_of_same hhold (by simp), ?_⟩
      rintro ⟨msg, hmsg, -⟩
      simp at hmsg
  | some msg =>
      have hd0' := hd0 msg rfl
      dsimp only
      rw [message]
      split
      case isTrue hoff =>
        obtain ⟨hcoherent, hstops, hfree⟩ := noteOff_spec hparsed
        exact ⟨hcoherent, hfrom _ hstops, fun _ => hfree⟩
      case isFalse hoff =>
        split
        case isTrue hon =>
          obtain ⟨hcoherent, hstops⟩ :=
            @perform_spec _ _ hparsed _ started _ _ hd0' _ rfl
          refine ⟨hcoherent, hfrom _ hstops, ?_⟩
          rintro ⟨other, hother, hrelease⟩
          obtain rfl := Option.some.inj hother
          rcases hrelease with hoff' | ⟨-, hstop⟩
          · exact absurd hoff' hoff
          · rw [hstop]
            exact (stopAll_spec hparsed started msg.d0).2.2
        case isFalse hon =>
          refine ⟨hparsed, stops_of_same hhold (by simp), ?_⟩
          rintro ⟨other, hother, hrelease⟩
          obtain rfl := Option.some.inj hother
          rcases hrelease with hoff' | ⟨hon', -⟩
          · exact absurd hoff' hoff
          · exact absurd hon' hon

theorem reloadSoundboardMappings_spec (h : Coherent audio midi)
    (selected : SelectedFile) (data : Option MidiMapData) :
    Coherent audio (reloadSoundboardMappings audio midi selected data).1 ∧
      Stops midi (reloadSoundboardMappings audio midi selected data) := by
  unfold reloadSoundboardMappings
  split
  · exact ⟨h, stops_of_same rfl (by simp)⟩
  · split
    · exact ⟨h, stops_of_same rfl (by simp)⟩
    case h_2 data =>
      cases hends : holdEnds midi data with
      | true =>
          have hactive : midi.holdActive = true := by
            rw [holdEnds, Bool.and_eq_true] at hends
            exact hends.1
          refine ⟨⟨by simp, by simp, h.data⟩, fun _ => .inr
            ⟨[], .stopHeldSfx, ?_, rfl⟩⟩
          simp [h.engine hactive]
      | false =>
          refine ⟨h.of_same (by simp) (by simp) h.data,
            stops_of_same (by simp) (by simp)⟩

end Operations

/-! ### Sessions -/

namespace Session

variable {audio : Bool} {s s' : Session}

theorem ended_after {r : MidiContext × List AudioCall} (h : Stops s.midi r)
    (hquiet : s.midi.holdActive = false → Ended s.calls)
    (hfree : r.1.holdActive = false) : Ended (s.after r).calls := by
  rcases h hfree with ⟨hidle, hcalls⟩ | ⟨front, stop, hr, hstop⟩
  · have hstart := hquiet hidle
    rw [after]
    generalize r.2 = calls at hcalls ⊢
    induction calls using List.reverseRecOn with
    | nil => simpa using hstart
    | append_singleton calls call ih =>
        rw [← List.append_assoc]
        exact (ih fun c hc => hcalls c (List.mem_append_left _ hc)).concat
          (hcalls call (by simp))
  · rw [after, hr, ← List.append_assoc]
    exact ended_of_stop _ hstop

/-- The events after which no sound is held. -/
def EndsHold (audio : Bool) (s : Session) : HoldEvent → Prop
  | .byte byte recalled _ => Releases audio recalled s.midi byte
  | .disconnect => True
  | _ => False

/-- The controller is not unplugged while a sound is held. -/
def NotHeld (s : Session) : HoldEvent → Prop
  | .disconnect => s.midi.holdActive = false
  | _ => True

instance (s : Session) (e : HoldEvent) : Decidable (s.NotHeld e) :=
  match e with
  | .disconnect => inferInstanceAs (Decidable (s.midi.holdActive = false))
  | .byte .. | .reloadMap _ | .reloadSoundboard .. | .toggleSamplerMode
  | .connect => isTrue trivial

theorem step_spec {e : HoldEvent} (h : s.step audio e = some s')
    (hcoherent : Coherent audio s.midi) :
    Coherent audio s'.midi ∧
      (s.EndsHold audio e → s'.midi.holdActive = false) ∧
      (s.NotHeld e → (s.midi.holdActive = false → Ended s.calls) →
        s'.midi.holdActive = false → Ended s'.calls) := by
  cases e with
  | byte byte recalled started =>
      rw [step] at h
      split at h
      · obtain rfl := Option.some.inj h
        obtain ⟨hkept, hstops, hfree⟩ :=
          handleByte_spec hcoherent recalled started byte
        exact ⟨hkept, hfree, fun _ hquiet => ended_after hstops hquiet⟩
      · simp at h
  | reloadMap data =>
      obtain rfl := Option.some.inj h
      exact ⟨hcoherent.of_same rfl rfl hcoherent.data, False.elim,
        fun _ hquiet => ended_after (stops_silent rfl) hquiet⟩
  | reloadSoundboard selected data =>
      obtain rfl := Option.some.inj h
      obtain ⟨hkept, hstops⟩ :=
        reloadSoundboardMappings_spec hcoherent selected data
      exact ⟨hkept, False.elim, fun _ hquiet => ended_after hstops hquiet⟩
  | toggleSamplerMode =>
      obtain rfl := Option.some.inj h
      exact ⟨hcoherent.of_same rfl rfl hcoherent.data, False.elim,
        fun _ hquiet => ended_after (stops_silent rfl) hquiet⟩
  | disconnect =>
      rw [step] at h
      split at h
      · obtain rfl := Option.some.inj h
        exact ⟨⟨by simp [after, Midi.disconnect], by simp [after, Midi.disconnect],
            by simp [after, Midi.disconnect]⟩,
          fun _ => rfl, fun hidle hquiet =>
            ended_after (stops_silent hidle.symm) hquiet⟩
      · simp at h
  | connect =>
      rw [step] at h
      split at h
      · simp at h
      · obtain rfl := Option.some.inj h
        exact ⟨hcoherent.of_same rfl rfl (by simp [after, connect]), False.elim,
          fun _ hquiet => ended_after (stops_silent rfl) hquiet⟩

theorem coherent_start (data : MidiMapData) :
    Coherent audio (start data).midi where
  note := by simp [start]
  engine := by simp [start]
  data := by simp [start]

theorem coherent_run {data : MidiMapData} {es : List HoldEvent}
    (h : Run (fun s e s' => s.step audio e = some s') (start data) es s) :
    Coherent audio s.midi :=
  h.invariant (fun s => Coherent audio s.midi) (P := fun _ => True)
    (fun _ _ _ _ hcoherent hstep => (step_spec hstep hcoherent).1)
    (fun _ _ => trivial) (coherent_start data)

/-- The flag and the note belong together in every session, and a key that is
released, the stop of all sounds and the end of the connection end what is
held.  No sound outlives its key when the controller stays plugged in while a
sound is held. -/
theorem held_sound_ends (data : MidiMapData) {es : List HoldEvent}
    (h : Run (fun s e s' => s.step audio e = some s') (start data) es s) :
    (s.midi.holdActive = true ↔ s.midi.heldNote ≠ 255) ∧
      (∀ e s', s.step audio e = some s' → s.EndsHold audio e →
        s'.midi.holdActive = false) ∧
      (Run (Guarded NotHeld (step audio)) (start data) es s →
        s.midi.holdActive = false → Ended s.calls) := by
  have hcoherent := coherent_run h
  refine ⟨hcoherent.note, fun e s' hstep => (step_spec hstep hcoherent).2.1,
    fun hguarded => ?_⟩
  have hboth := hguarded.invariant (P := fun _ => True)
    (fun s => Coherent audio s.midi ∧
      (s.midi.holdActive = false → Ended s.calls))
    (fun s e s' _ hinv hstep => by
      obtain ⟨hkept, -, hquiet⟩ := step_spec hstep.2 hinv.1
      exact ⟨hkept, hquiet hstep.1 hinv.2⟩)
    (fun _ _ => trivial) ⟨coherent_start data, fun _ => ended_nil⟩
  exact hboth.2

/-! ### A session -/

/-- Note 60 plays a sound while its key is down. -/
def holdMap : MidiMapData where
  mappings := [⟨60, ascii "kick.wav"⟩]
  soundModes := [⟨ascii "kick.wav", .hold⟩]

def pressed : List HoldEvent :=
  [.connect, .byte 0x90 false false, .byte 60 false false, .byte 100 false true]

def releasedAndUnplugged : List HoldEvent :=
  pressed ++ [.byte 0x80 false false, .byte 60 false false,
    .byte 0 false false, .disconnect]

def unplugged : List HoldEvent := pressed ++ [.disconnect]

def kick : Bytes := ascii "/audiox/sfx/kick.wav"

theorem released_any :
    (releasedAndUnplugged.foldlM (guarded NotHeld (step true))
      (start holdMap)).any
        (fun s => !s.midi.holdActive &&
          s.calls == [.startHeldSfx kick true, .stopHeldSfx]) = true := by
  decide

theorem held_sound_ends_released :
    ∃ es s, Run (Guarded NotHeld (step true)) (start holdMap) es s ∧
      s.calls = [.startHeldSfx kick true, .stopHeldSfx] ∧
      s.midi.holdActive = false ∧ Ended s.calls := by
  obtain ⟨s, hsome, hs⟩ := (Option.any_eq_true _ _).mp released_any
  rw [Bool.and_eq_true, Bool.not_eq_true', beq_iff_eq] at hs
  have hguarded := Run.of_guarded hsome
  have hrun := hguarded.mono fun _ _ _ hstep => hstep.2
  exact ⟨_, s, hguarded, hs.2, hs.1,
    (held_sound_ends holdMap hrun).2.2 hguarded hs.1⟩

theorem unplugged_any :
    (unplugged.foldlM (step true) (start holdMap)).any
        (fun s => !s.midi.holdActive &&
          s.calls == [.startHeldSfx kick true]) = true := by
  decide

/-- When the controller is unplugged while the key is down, nothing stops the
sound. -/
theorem held_sound_outlives_key :
    ¬ ∀ es s, Run (fun s e s' => step true s e = some s') (start holdMap) es s →
      s.midi.holdActive = false → Ended s.calls := by
  intro hclaim
  obtain ⟨s, hsome, hs⟩ := (Option.any_eq_true _ _).mp unplugged_any
  rw [Bool.and_eq_true, Bool.not_eq_true', beq_iff_eq] at hs
  obtain ⟨stop, hstop, -⟩ := hclaim _ s (Run.of_foldlM hsome) hs.1 []
    (.startHeldSfx kick true) [] hs.2 rfl
  exact absurd hstop List.not_mem_nil

end Session
end Audiox.Midi
