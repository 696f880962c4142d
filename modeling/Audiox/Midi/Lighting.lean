import Audiox.Midi.ControllerQueue
import Audiox.Midi.Hold
import Mathlib

/-!
# The lights of the controller

`refreshLightingFromState` works out a velocity for every note and sends those
that differ from what it has sent before.  What was sent is remembered when a
message is queued, and macros send messages of their own.
-/

namespace Audiox.Midi

open ByteCodec Config ControllerQueue

def midiEffectLightMappingsMax : Nat := 32

structure MidiLightGlobal where
  channel : UInt8
  mappedVel : UInt8
  playingVel : UInt8
  stopAllVel : UInt8

structure MidiEffectLightMapping where
  effectId : Bytes
  enabledVel : UInt8
  bypassedVel : UInt8

/-- The part of the midi map that the lights depend on. -/
structure LightMap extends MidiMapData where
  globalLight : MidiLightGlobal
  soundLights : List MidiSoundLight
  effectLightMappings : List MidiEffectLightMapping

/-- A compiled macro with its light; `light` is what the macro itself has
set. -/
structure MacroLight where
  valid : Bool
  midiEnabled : Bool
  note : UInt8
  light : Option UInt8
  pressed : Bool
  pressedVelocity : UInt8
  idleVelocity : UInt8

/-- What the lights depend on; `effectEnabled` is `none` for an effect that
does not exist. -/
structure LightState where
  cachedMidiMap : LightMap
  cachedPlayingSfx : List Bytes
  samplerModeActive : Bool
  lightsDimmed : Bool
  holdActive : Bool
  heldNote : UInt8
  effectEnabled : Bytes → Option Bool
  macros : List MacroLight

inductive LightKind where
  | mapped
  | playing
  | stopAll
  | action
deriving DecidableEq

/-! ## The velocities -/

def fallbackVelocity (data : LightMap) : LightKind → UInt8
  | .mapped => data.globalLight.mappedVel
  | .playing => data.globalLight.playingVel
  | .stopAll => data.globalLight.stopAllVel
  | .action => data.globalLight.stopAllVel

def resolveLightVelocity (data : LightMap) (sfxPath : Bytes)
    (stateKind : LightKind) : UInt8 :=
  if sfxPath = [] then fallbackVelocity data stateKind
  else
    match (data.soundLights.take midiSoundLightsMax).find?
      (·.sfxPath == sfxPath) with
    | some light =>
        if stateKind = .mapped ∧ light.hasMapped then light.mappedVel
        else if stateKind = .playing ∧ light.hasPlaying then light.playingVel
        else fallbackVelocity data stateKind
    | none => fallbackVelocity data stateKind

def resolveEffectLightVelocity (data : LightMap) (effectId : Bytes)
    (enabled : Bool) : UInt8 :=
  match (data.effectLightMappings.take midiEffectLightMappingsMax).find?
    (·.effectId == effectId) with
  | some light => if enabled then light.enabledVel else light.bypassedVel
  | none =>
      if enabled then data.globalLight.playingVel
      else data.globalLight.mappedVel

namespace LightState

def sfxInPlayingList (s : LightState) (sfxPath : Bytes) : Bool :=
  sfxPath ≠ [] && (s.cachedPlayingSfx.take midiMappingsMax).contains sfxPath

def soundKind (s : LightState) (m : MidiMapping) : LightKind :=
  if s.samplerModeActive then .playing
  else if resolveSoundMode s.cachedMidiMap.toMidiMapData m.sfxPath = .hold ∧
      s.holdActive ∧ s.heldNote = m.note &&& 0x7f then .playing
  else if s.sfxInPlayingList m.sfxPath then .playing
  else .mapped

def lightSounds (s : LightState) (desired : Nat → UInt8) : Nat → UInt8 :=
  ((s.cachedMidiMap.mappings.take midiMappingsMax).filter
    (·.sfxPath ≠ [])).foldl (fun desired m =>
      Function.update desired (m.note &&& 0x7f).toNat
        (resolveLightVelocity s.cachedMidiMap m.sfxPath (s.soundKind m)))
    desired

def actionKind : MidiActionType → Option LightKind
  | .none => none
  | .stopAll => some .stopAll
  | .samplerToggle => some .action

def lightActions (s : LightState) (desired : Nat → UInt8) : Nat → UInt8 :=
  (s.cachedMidiMap.actionMappings.take midiMappingsMax).foldl
    (fun desired a =>
      match actionKind a.action with
      | none => desired
      | some kind =>
          Function.update desired (a.note &&& 0x7f).toNat
            (resolveLightVelocity s.cachedMidiMap [] kind))
    desired

def lightEffects (s : LightState) (desired : Nat → UInt8) : Nat → UInt8 :=
  ((s.cachedMidiMap.effectToggleMappings.take
    midiEffectToggleMappingsMax).filter (·.effectId ≠ [])).foldl
    (fun desired m =>
      Function.update desired (m.note &&& 0x7f).toNat
        (resolveEffectLightVelocity s.cachedMidiMap m.effectId
          ((s.effectEnabled m.effectId).getD true)))
    desired

def macroVelocity (m : MacroLight) : UInt8 :=
  m.light.getD (if m.pressed then m.pressedVelocity else m.idleVelocity)

def lightMacros (s : LightState) (desired : Nat → UInt8) : Nat → UInt8 :=
  (s.macros.filter fun m => m.valid && m.midiEnabled).foldl
    (fun desired m => Function.update desired m.note.toNat (macroVelocity m))
    desired

/-- The velocity that is wanted for a note. -/
def target (s : LightState) (note : Nat) : UInt8 :=
  if s.lightsDimmed then 0
  else s.lightMacros (s.lightEffects (s.lightActions (s.lightSounds
    fun _ => 0))) note

/-- The channel of the lights. -/
def channel (s : LightState) : UInt8 :=
  s.cachedMidiMap.globalLight.channel &&& 0x0f

end LightState

/-! ## Messages to the controller -/

/-- `ledStateByNote` is what the lights are believed to show, 255 if nothing is
known.  The notes and the sustain pedals that a macro has left on are kept to
be released. -/
structure LightContext where
  state : LightState
  ledStateByNote : Nat → UInt8
  queue : ControllerQueue
  macroMidiNotes : UInt8 → UInt8 → Bool
  macroMidiSustain : UInt8 → Bool

def lightMessage (note : Nat) (channel velocity : UInt8) : Bytes :=
  [0x90 ||| channel, note.toUInt8 &&& 0x7f, velocity &&& 0x7f]

namespace LightContext

def sendLightNote (c : LightContext) (note : Nat) (velocity : UInt8) :
    LightContext :=
  { c with queue :=
      (c.queue.queueControllerMidi
        (lightMessage note c.state.channel velocity)).1 }

def refreshNote (c : LightContext) (note : Nat) : LightContext :=
  if c.ledStateByNote note = c.state.target note then c
  else
    { c.sendLightNote note (c.state.target note) with
      ledStateByNote := Function.update c.ledStateByNote note
        (c.state.target note) }

def refreshLightingFromState (c : LightContext) : LightContext :=
  (List.range 128).foldl refreshNote c

def refreshAllLighting (c : LightContext) : LightContext :=
  refreshLightingFromState { c with ledStateByNote := fun _ => 255 }

/-- What a macro's message leaves on. -/
def noteMacroMidi (c : LightContext) : Bytes → LightContext
  | [status, d0, d1] =>
      if status &&& 0xf0 = 0x80 ∨ status &&& 0xf0 = 0x90 then
        { c with
          macroMidiNotes := Function.update c.macroMidiNotes (status &&& 15)
            (Function.update (c.macroMidiNotes (status &&& 15)) d0
              (decide (status &&& 0xf0 = 0x90) && d1 != 0)) }
      else if status &&& 0xf0 = 0xb0 ∧ d0 = 64 then
        { c with
          macroMidiSustain := Function.update c.macroMidiSustain
            (status &&& 15) (decide (64 ≤ d1)) }
      else c
  | _ => c

/-- The MIDI action of a macro. -/
def midiAction (c : LightContext) (midiBytes : Bytes) : LightContext :=
  match c.queue.queueControllerMidi midiBytes with
  | (queue, true) => { c with queue }.noteMacroMidi midiBytes
  | (queue, false) => { c with queue }

def releaseNote (channel : UInt8) (c : LightContext) (note : Nat) :
    LightContext :=
  if c.macroMidiNotes channel note.toUInt8 then
    { c with
      queue := (c.queue.queueControllerMidi
        [0x80 ||| channel, note.toUInt8, 0]).1
      macroMidiNotes := Function.update c.macroMidiNotes channel
        (Function.update (c.macroMidiNotes channel) note.toUInt8 false) }
  else c

def releaseSustain (channel : UInt8) (c : LightContext) : LightContext :=
  if c.macroMidiSustain channel then
    { c with
      queue := (c.queue.queueControllerMidi [0xb0 ||| channel, 64, 0]).1
      macroMidiSustain := Function.update c.macroMidiSustain channel false }
  else c

def releaseMacroMidi (c : LightContext) : LightContext :=
  (List.range 16).foldl (fun c channel =>
    (List.range 128).foldl (releaseNote channel.toUInt8)
      (c.releaseSustain channel.toUInt8)) c

end LightContext

end Audiox.Midi
