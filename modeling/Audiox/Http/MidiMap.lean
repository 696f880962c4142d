import Audiox.Http.Body
import Audiox.Support.Checks
import Audiox.Support.KeyedArray
import Audiox.Support.Pattern
import Mathlib

/-!
# Notes of the MIDI map

The stored map has a table of notes with clips and a table of notes with
actions, and the grid of the soundboard.  Four requests set and delete the
entries of the tables.  What no handler of these requests reads is left out.
-/

namespace Audiox.Http.MidiMap

open ByteCodec Config Checks Pattern KeyedArray

def MIDI_MAPPINGS_MAX : Nat := 64
def MIDI_ACTION_MAPPINGS_MAX : Nat := MIDI_MAPPINGS_MAX
def MIDI_SFX_PATH_MAX : Nat := 160
def SOUNDBOARD_GRID_STOP_ALL_ID : Bytes := ascii "__stop_all__"
def SOUNDBOARD_GRID_SAMPLER_TOGGLE_ID : Bytes := ascii "__sampler_toggle__"

inductive Action where
  | stopAll
  | samplerToggle
deriving DecidableEq

structure MidiMapping where
  note : Nat
  sfxPath : Bytes
deriving DecidableEq

structure MidiActionMapping where
  note : Nat
  action : Action
deriving DecidableEq

structure SoundboardGridCell where
  sfxPath : Bytes
  row : Nat
  column : Nat
deriving DecidableEq

inductive SoundboardLayout where
  | normal
  | grid
deriving DecidableEq

/-- The corners of the grid are in the order top left, top right, bottom left
and bottom right; the mask tells which of them have a note. -/
structure MidiMapData where
  mappings : List MidiMapping
  actionMappings : List MidiActionMapping
  soundboardLayout : SoundboardLayout
  gridRows : Nat
  gridColumns : Nat
  gridInitialized : Bool
  gridCornerMask : Fin 4 → Bool
  gridCornerNotes : Fin 4 → Nat
  gridCells : List SoundboardGridCell

/-- The status and the text of an answer that refuses a request. -/
structure Refusal where
  status : String
  text : String
deriving DecidableEq

def badRequest (text : String) : Refusal := ⟨"400 Bad Request", text⟩
def conflict (text : String) : Refusal := ⟨"409 Conflict", text⟩
def notFound (text : String) : Refusal := ⟨"404 Not Found", text⟩
def internalError (text : String) : Refusal := ⟨"500 Internal Server Error", text⟩

/-! ## Names of clips -/

def pathCharacter (c : UInt8) : Bool :=
  (chr 'a' ≤ c ∧ c ≤ chr 'z') ∨ (chr 'A' ≤ c ∧ c ≤ chr 'Z') ∨ isDigit c ∨
    c = chr '.' ∨ c = chr '_' ∨ c = chr '-' ∨ c = chr '/'

def mappingPathSafe (s : Bytes) : Bool :=
  s ≠ [] ∧ firstAt (ascii "..") s = none ∧ chr '\\' ∉ s ∧
    s.all pathCharacter

/-- A name of a clip below the directory of the clips. -/
def mappingNormalizeSfx (sfxRoot raw : Bytes) : Option Bytes :=
  if mappingPathSafe raw = false then none
  else if sfxRoot ++ [chr '/'] <+: raw then
    if copyBounded MIDI_SFX_PATH_MAX (raw.drop (sfxRoot.length + 1)) = [] then none
    else some (copyBounded MIDI_SFX_PATH_MAX (raw.drop (sfxRoot.length + 1)))
  else if raw.head? = some (chr '/') then none
  else if copyBounded MIDI_SFX_PATH_MAX raw = [] then none
  else some (copyBounded MIDI_SFX_PATH_MAX raw)

def soundboardGridAction (element : Bytes) : Option Action :=
  if element = SOUNDBOARD_GRID_STOP_ALL_ID then some .stopAll
  else if element = SOUNDBOARD_GRID_SAMPLER_TOGGLE_ID then some .samplerToggle
  else none

def midiActionFromString (value : Bytes) : Option Action :=
  if value = ascii "stop_all" then some .stopAll
  else if value = ascii "sampler_toggle" then some .samplerToggle
  else none

/-! ## Requests for one note -/

/-- The entries that are in use. -/
def MidiMapData.clips (data : MidiMapData) : List MidiMapping :=
  data.mappings.take MIDI_MAPPINGS_MAX

def MidiMapData.actions (data : MidiMapData) : List MidiActionMapping :=
  data.actionMappings.take MIDI_ACTION_MAPPINGS_MAX

def requestNote (text : Bytes) : Option Nat :=
  match strtol text with
  | (note, []) => if 0 ≤ note ∧ note ≤ 127 then some note.toNat else none
  | _ => none

/-- Puts a clip where the note is, or behind the clips. -/
def setMapping (data : MidiMapData) (note : Nat) (sfx : Bytes) :
    Except Refusal MidiMapData :=
  match position MidiMapping.note note data.clips with
  | found =>
      if found = data.clips.length ∧ data.clips.length ≥ MIDI_MAPPINGS_MAX then
        .error (conflict "mapping table full\n")
      else .ok { data with mappings := putAt found ⟨note, sfx⟩ data.clips }

def setAction (data : MidiMapData) (note : Nat) (action : Action) :
    Except Refusal MidiMapData :=
  match position MidiActionMapping.note note data.actions with
  | found =>
      if found = data.actions.length ∧
          data.actions.length ≥ MIDI_ACTION_MAPPINGS_MAX then
        .error (conflict "action mapping table full\n")
      else .ok { data with actionMappings := putAt found ⟨note, action⟩ data.actions }

/-- Takes the first clip of a note out of its table. -/
def dropMapping (data : MidiMapData) (note : Nat) : MidiMapData :=
  { data with
    mappings := data.clips.eraseIdx (position MidiMapping.note note data.clips) }

def dropAction (data : MidiMapData) (note : Nat) : MidiMapData :=
  { data with
    actionMappings :=
      data.actions.eraseIdx (position MidiActionMapping.note note data.actions) }

/-- The note and the clip that a request asks for. -/
def mappingRequest (sfxRoot body : Bytes) : Except Refusal (Nat × Bytes) := do
  let text ← orFail (bodyGetValue body (ascii "note") 32)
    (badRequest "expected note and sfx\n")
  let sfx ← orFail (bodyGetValue body (ascii "sfx") MIDI_SFX_PATH_MAX)
    (badRequest "expected note and sfx\n")
  let note ← orFail (requestNote text) (badRequest "invalid note\n")
  let normalized ← orFail (mappingNormalizeSfx sfxRoot sfx)
    (badRequest "invalid sfx path\n")
  .ok (note, normalized)

def handleMidiMappingSet (sfxRoot : Bytes) (data : MidiMapData) (body : Bytes) :
    Except Refusal MidiMapData := do
  let request ← mappingRequest sfxRoot body
  let data ← setMapping data request.1 request.2
  .ok (dropAction data request.1)

def deleteRequest (body : Bytes) : Except Refusal Nat := do
  let text ← orFail (bodyGetValue body (ascii "note") 32)
    (badRequest "expected note\n")
  orFail (requestNote text) (badRequest "invalid note\n")

def handleMidiMappingDelete (data : MidiMapData) (body : Bytes) :
    Except Refusal MidiMapData := do
  let note ← deleteRequest body
  failIf (position MidiMapping.note note data.clips = data.clips.length)
    (notFound "mapping not found\n")
  .ok (dropMapping data note)

def actionRequest (body : Bytes) : Except Refusal (Nat × Action) := do
  let text ← orFail (bodyGetValue body (ascii "note") 32)
    (badRequest "expected note and action\n")
  let name ← orFail (bodyGetValue body (ascii "action") 32)
    (badRequest "expected note and action\n")
  let note ← orFail (requestNote text) (badRequest "invalid note\n")
  let action ← orFail (midiActionFromString name) (badRequest "invalid action\n")
  .ok (note, action)

def handleMidiActionSet (data : MidiMapData) (body : Bytes) :
    Except Refusal MidiMapData := do
  let request ← actionRequest body
  let data ← setAction data request.1 request.2
  .ok (dropMapping data request.1)

def handleMidiActionDelete (data : MidiMapData) (body : Bytes) :
    Except Refusal MidiMapData := do
  let note ← deleteRequest body
  failIf (position MidiActionMapping.note note data.actions = data.actions.length)
    (notFound "action mapping not found\n")
  .ok (dropAction data note)

end Audiox.Http.MidiMap
