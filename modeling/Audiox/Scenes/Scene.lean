import Audiox.Config.Routing
import Audiox.Support.Checks
import Mathlib

/-!
# Scenes

A scene keeps a setup of the mixer under an id: the routes, the volumes and the
effects with their parameters.  `validate` decides which scenes are accepted.

The floating point numbers of the machine, their comparison and their decimal
texts are a parameter, as is the registry of the plugin types.
-/

namespace Audiox.Scenes

open ByteCodec Config Checks

/-- The floating point numbers of a machine. -/
structure Floats (F : Type) where
  literal : ℚ → F
  isFinite : F → Bool
  lt : F → F → Bool
  /-- The text of a number in nine significant digits. -/
  print : F → Bytes
  /-- The number that an input stream extracts, and the rest of the stream. -/
  extract : Bytes → Option (F × Bytes)

variable {F : Type}

structure VolumeEntry (F : Type) where
  thingId : Bytes
  gain : F
deriving DecidableEq

structure MidiEffectState (F : Type) where
  effectId : Bytes
  type : Bytes
  enabled : UInt8
  gain : F
  drive : F
  clip : F
  output : F
  name : Bytes
deriving DecidableEq

structure MidiEffectParam (F : Type) where
  effectId : Bytes
  param : Bytes
  value : F
deriving DecidableEq

structure Scene (F : Type) where
  id : Bytes
  name : Bytes
  channel : Int := -1
  note : Int := -1
  helper : Bool := false
  routes : List Bytes := []
  volumes : List (VolumeEntry F) := []
  effects : List (MidiEffectState F) := []
  params : List (MidiEffectParam F) := []
deriving DecidableEq

def maxScenes : Nat := 32
def maxFileSize : Nat := 128 * 1024
def volumeEntriesMax : Nat := 64
def midiEffectStatesMax : Nat := 16
def midiEffectParamsMax : Nat := 512
def effectParamMax : Nat := 32

/-! ## Effect types -/

structure EffectParamSpec (F : Type) where
  name : Bytes
  minValue : F
  maxValue : F

/-- An occupied entry of the plugin registry; a plugin that is only referred to
has no metadata. -/
structure PluginType (F : Type) where
  id : Bytes
  metadata : Option (List (EffectParamSpec F))
  loaded : Bool

/-- The machine on which scenes are used. -/
structure Host (F : Type) where
  floats : Floats F
  plugins : List (PluginType F)

inductive BuiltinType
  | gain | distortion | pitch | reverb | gate | cut | compressor | limiter
  | eq | multiband | noiseReduction
deriving DecidableEq

def builtinTypes : List BuiltinType :=
  [.gain, .distortion, .pitch, .reverb, .gate, .cut, .compressor, .limiter,
    .eq, .multiband, .noiseReduction]

def BuiltinType.toText : BuiltinType → Bytes
  | .gain => ascii "gain"
  | .distortion => ascii "distortion"
  | .pitch => ascii "pitch"
  | .reverb => ascii "reverb"
  | .gate => ascii "gate"
  | .cut => ascii "cut"
  | .compressor => ascii "compressor"
  | .limiter => ascii "limiter"
  | .eq => ascii "eq"
  | .multiband => ascii "multiband"
  | .noiseReduction => ascii "noise_reduction"

/-- A text that names no built-in type is taken for a gain. -/
def BuiltinType.ofText (text : Bytes) : BuiltinType :=
  (builtinTypes.find? fun type => type.toText = text).getD .gain

/-- The parameters of a built-in type, with their bounds. -/
def BuiltinType.bounds : BuiltinType → List (String × ℚ × ℚ)
  | .gain => [("level", 0, 4)]
  | .distortion =>
      [("input_gain", 0, 4), ("drive", 0, 8), ("clip", 5 / 100, 1),
        ("output_gain", 0, 4)]
  | .pitch =>
      [("input_gain", 0, 4), ("semitones", -12, 12), ("mix", 0, 1),
        ("output_gain", 0, 4), ("noise_floor", 1 / 10000, 2 / 100),
        ("wet_lpf_hz", 1000, 18000), ("quality", 0, 2)]
  | .reverb =>
      [("input_gain", 0, 4), ("feedback", 5 / 100, 95 / 100),
        ("damping", 0, 1), ("wet_mix", 0, 1)]
  | .gate =>
      [("threshold_db", -80, 0), ("attack_ms", 2 / 10, 100),
        ("release_ms", 5, 600), ("range_db", 0, 80)]
  | .cut => [("channels", 1, 16)]
  | .compressor =>
      [("threshold_db", -60, 0), ("ratio", 1, 20), ("attack_ms", 1 / 10, 100),
        ("release_ms", 5, 1000), ("knee_db", 0, 24), ("makeup_db", -12, 24),
        ("mix", 0, 1)]
  | .limiter =>
      [("ceiling_db", -24, 0), ("release_ms", 5, 1000), ("lookahead_ms", 0, 10),
        ("input_gain", 0, 4)]
  | .eq =>
      [("low_hz", 40, 1000), ("low_gain_db", -18, 18), ("mid_hz", 200, 8000),
        ("mid_gain_db", -18, 18), ("high_hz", 1000, 18000),
        ("high_gain_db", -18, 18), ("q", 2 / 10, 10), ("output_gain", 0, 4)]
  | .multiband =>
      [("low_hz", 80, 1000), ("high_hz", 1000, 10000),
        ("low_threshold_db", -60, 0), ("mid_threshold_db", -60, 0),
        ("high_threshold_db", -60, 0), ("ratio", 1, 20),
        ("release_ms", 5, 1000), ("makeup_db", -12, 24)]
  | .noiseReduction =>
      [("reduction_db", 0, 30), ("noise_floor_db", -90, -20),
        ("adaptation", 0, 1), ("smoothing", 0, 1), ("mix", 0, 1),
        ("output_gain", 0, 4)]

def BuiltinType.specs (floats : Floats F) (type : BuiltinType) :
    List (EffectParamSpec F) :=
  type.bounds.map fun (name, low, high) =>
    ⟨ascii name, floats.literal low, floats.literal high⟩

/-- The parameter that an older name stands for. -/
def resolveParamAlias (type : BuiltinType) (name : Bytes) : Bytes :=
  if type ∉ [.gain, .distortion, .pitch, .reverb, .gate, .cut] then name
  else if name = ascii "gain" then
    match type with
    | .gain => ascii "level"
    | .gate => ascii "threshold_db"
    | _ => ascii "input_gain"
  else if name = ascii "drive" then
    match type with
    | .pitch => ascii "semitones"
    | .reverb => ascii "feedback"
    | .gate => ascii "attack_ms"
    | _ => ascii "drive"
  else if name = ascii "clip" then
    match type with
    | .pitch => ascii "mix"
    | .reverb => ascii "damping"
    | .gate => ascii "release_ms"
    | _ => ascii "clip"
  else if name = ascii "output" then
    match type with
    | .reverb => ascii "wet_mix"
    | .gate => ascii "range_db"
    | _ => ascii "output_gain"
  else name

def lower (c : UInt8) : Bool :=
  chr 'a' ≤ c && c ≤ chr 'z'

def validTypeName (name : Bytes) : Bool :=
  name.take 7 = ascii "plugin_" && 8 ≤ name.length && name.length < 24 &&
    ((name.drop 7).take 1).all lower &&
    (name.drop 8).all fun c => lower c || isDigit c || c = chr '_'

/-- The type that a scene names. -/
inductive EffectType (F : Type)
  | builtin (type : BuiltinType)
  | plugin (entry : Option (PluginType F))

def effectTypeOf (host : Host F) (type : Bytes) : EffectType F :=
  if validTypeName type then
    .plugin (host.plugins.find? fun entry => entry.id = type)
  else .builtin (BuiltinType.ofText type)

/-- The parameters of a type, unless it is a plugin that is not known. -/
def EffectType.specs? (floats : Floats F) :
    EffectType F → Option (List (EffectParamSpec F))
  | .builtin type => some (type.specs floats)
  | .plugin entry => entry.bind PluginType.metadata

def EffectType.available : EffectType F → Bool
  | .builtin _ => true
  | .plugin entry => entry.any PluginType.loaded

/-- The specification of a parameter of a type. -/
def effectParamSpecFor (floats : Floats F) (type : EffectType F)
    (param : Bytes) : Option (EffectParamSpec F) :=
  match type with
  | .builtin builtin =>
      (builtin.specs floats).find? fun spec =>
        spec.name = resolveParamAlias builtin param
  | .plugin entry =>
      ((entry.bind PluginType.metadata).getD []).find? fun spec =>
        spec.name = param

/-! ## Validation -/

def validId (id : Bytes) : Bool :=
  id ≠ [] && id.length ≤ 48 &&
    id.all fun c =>
      lower c || (chr 'A' ≤ c && c ≤ chr 'Z') || isDigit c ||
        c = chr '_' || c = chr '-'

def bindingValid (channel note : Int) : Bool :=
  (channel = -1 && note = -1) ||
    (0 ≤ channel && channel ≤ 15 && 0 ≤ note && note ≤ 127)

def checkParam (floats : Floats F) (before : List (MidiEffectParam F))
    (p : MidiEffectParam F) : Except String Unit := do
  failIf (p.effectId.length ≥ 64 ∨ p.param.length ≥ 24 ∨
      ¬textValid p.effectId 63 false ∨ ¬textValid p.param 23 false ∨
      ¬floats.isFinite p.value)
    "invalid scene parameter"
  failIf (before.any fun q => p.effectId = q.effectId && p.param = q.param)
    "duplicate scene parameter"

def checkVolume (floats : Floats F) (before : List (VolumeEntry F))
    (v : VolumeEntry F) : Except String Unit := do
  failIf (v.thingId.length ≥ 64 ∨ ¬textValid v.thingId 63 false ∨
      ¬floats.isFinite v.gain ∨ floats.lt v.gain (floats.literal 0) ∨
      floats.lt (floats.literal 2) v.gain)
    "invalid scene volume"
  failIf (before.any fun w => v.thingId = w.thingId) "duplicate scene volume"

/-- How often an effect of a scene sets a parameter. -/
def paramCount (scene : Scene F) (effectId param : Bytes) : Nat :=
  scene.params.countP fun p => p.effectId = effectId && p.param = param

/-- Every parameter of the type is set once; the quality of a pitch effect may
be left out. -/
def paramsComplete (scene : Scene F) (effectId type : Bytes)
    (specs : List (EffectParamSpec F)) : Bool :=
  specs.all fun spec =>
    (paramCount scene effectId spec.name = 0 && type = ascii "pitch" &&
      spec.name = ascii "quality") ||
      paramCount scene effectId spec.name = 1

def checkEffect (host : Host F) (scene : Scene F) (requireAvailable : Bool)
    (before : List (MidiEffectState F)) (e : MidiEffectState F) :
    Except String Unit := do
  failIf (e.effectId.length ≥ 64 ∨ e.type.length ≥ 24 ∨ e.name.length ≥ 64 ∨
      ¬textValid e.effectId 63 false ∨ ¬textValid e.name 63 true ∨
      e.enabled > 1)
    "invalid scene effect"
  failIf ((¬validTypeName e.type ∧
        e.type ≠ (BuiltinType.ofText e.type).toText) ∨
      (requireAvailable ∧ ¬(effectTypeOf host e.type).available))
    "scene requires an unavailable effect type"
  failIf (before.any fun f => e.effectId = f.effectId) "duplicate scene effect"
  failIf (scene.params.countP (fun p => p.effectId = e.effectId) >
      effectParamMax)
    "effect parameter capacity exceeded"
  failIf (¬((effectTypeOf host e.type).specs? host.floats).all
      (paramsComplete scene e.effectId e.type))
    "missing or duplicate scene parameter"

/-- A parameter belongs to an effect of the scene, and is one of its type and
within bounds if the type is known. -/
def paramAllowed (host : Host F) (scene : Scene F) (p : MidiEffectParam F) :
    Bool :=
  match scene.effects.findRev? fun e => e.effectId = p.effectId with
  | none => false
  | some e =>
      let type := effectTypeOf host e.type
      (type.specs? host.floats).isNone ||
        (effectParamSpecFor host.floats type p.param).any fun spec =>
          !host.floats.lt p.value spec.minValue &&
            !host.floats.lt spec.maxValue p.value

def validate (host : Host F) (scene : Scene F) (requireAvailable : Bool) :
    Except String Unit := do
  failIf (¬validId scene.id ∨ ¬textValid scene.name 63 false)
    "invalid scene id or name"
  failIf (¬bindingValid scene.channel scene.note) "invalid scene MIDI binding"
  failIf (scene.routes.length > audioGraphMaxEdges ∨
      scene.volumes.length > volumeEntriesMax ∨
      scene.effects.length > midiEffectStatesMax ∨
      scene.params.length > midiEffectParamsMax)
    "scene capacity exceeded"
  failIf (¬scene.routes.all fun route => textValid route 255 false)
    "invalid scene route"
  eachAfter (checkParam host.floats) [] scene.params
  eachAfter (checkVolume host.floats) [] scene.volumes
  eachAfter (checkEffect host scene requireAvailable) [] scene.effects
  failIf (¬scene.params.all (paramAllowed host scene)) "invalid scene parameter"

end Audiox.Scenes
