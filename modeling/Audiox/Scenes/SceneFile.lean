import Audiox.Scenes.Scene
import Mathlib

/-!
# The file of a scene

A scene is kept in a text file, one line for every part of it: a tag, and
fields with blanks in between.  Names are written in hexadecimal digits.
-/

namespace Audiox.Scenes

open ByteCodec Config Checks

variable {F : Type}

/-! ## Hexadecimal texts -/

def hexDigit (n : UInt8) : UInt8 :=
  if n < 10 then chr '0' + n else chr 'a' + (n - 10)

def encode (text : Bytes) : Bytes :=
  text.flatMap fun (c : UInt8) => [hexDigit (c >>> 4), hexDigit (c &&& 15)]

def digitValue (c : UInt8) : Option UInt8 :=
  if chr '0' ≤ c ∧ c ≤ chr '9' then some (c - chr '0')
  else if chr 'a' ≤ c ∧ c ≤ chr 'f' then some (c - chr 'a' + 10)
  else if chr 'A' ≤ c ∧ c ≤ chr 'F' then some (c - chr 'A' + 10)
  else none

/-- A byte is two digits, and no byte is zero. -/
def decodePairs : Bytes → Option Bytes
  | [] => some []
  | [_] => none
  | c :: d :: rest =>
      match digitValue c, digitValue d with
      | some a, some b =>
          if a = 0 ∧ b = 0 then none
          else (decodePairs rest).map fun bytes => ((a <<< 4) ||| b) :: bytes
      | _, _ => none

def decode (text : Bytes) : Option Bytes :=
  if text.length % 2 ≠ 0 ∨ text.length > 512 then none
  else decodePairs text

/-! ## Writing -/

def showInt (n : Int) : Bytes :=
  if n < 0 then chr '-' :: showDecimal n.natAbs else showDecimal n.natAbs

/-- Fields with a blank in between. -/
def words : List Bytes → Bytes
  | [] => []
  | [word] => word
  | word :: rest => word ++ chr ' ' :: words rest

def schemaLine : Bytes := ascii "audiox-scenes 1"

def volumeLine (floats : Floats F) (v : VolumeEntry F) : Bytes :=
  words [ascii "volume", encode v.thingId, floats.print v.gain]

def effectLine (e : MidiEffectState F) : Bytes :=
  words [ascii "effect", encode e.effectId, e.type,
    showDecimal e.enabled.toNat,
    if e.name ≠ [] then encode e.name else ascii "-"]

def paramLine (floats : Floats F) (p : MidiEffectParam F) : Bytes :=
  words [ascii "param", encode p.effectId, p.param, floats.print p.value]

def sceneLines (floats : Floats F) (scene : Scene F) : List Bytes :=
  [schemaLine,
    words [ascii "name", encode scene.name],
    words [ascii "midi", showInt scene.channel, showInt scene.note],
    words [ascii "helper", showDecimal (if scene.helper then 1 else 0)]] ++
  (scene.routes.map fun route => words [ascii "route", encode route]) ++
  scene.volumes.map (volumeLine floats) ++
  scene.effects.map effectLine ++
  scene.params.map (paramLine floats)

/-- The text that is written for a scene. -/
def sceneText (floats : Floats F) (scene : Scene F) : Bytes :=
  (sceneLines floats scene).flatMap (· ++ ascii "\n")

/-! ## Extracting fields -/

/-- The next word of a stream, and the rest. -/
def nextWord (s : Bytes) : Option (Bytes × Bytes) :=
  let s := s.dropWhile Config.isSpace
  if s = [] then none
  else
    some (s.takeWhile fun c => !Config.isSpace c,
      s.dropWhile fun c => !Config.isSpace c)

/-- The next number of a stream that an `int` can hold. -/
def nextInt (s : Bytes) : Option (Int × Bytes) :=
  let (negative, digits) := takeSign (s.dropWhile Config.isSpace)
  let number := digits.takeWhile isDigit
  let value : Int := if negative then -decimal number else decimal number
  if number = [] ∨ value < -2 ^ 31 ∨ value ≥ 2 ^ 31 then none
  else some (value, digits.dropWhile isDigit)

/-- A word in hexadecimal digits. -/
def nextName (s : Bytes) : Option (Bytes × Bytes) := do
  let (word, s) ← nextWord s
  let name ← decode word
  pure (name, s)

/-! ## Reading -/

/-- What has been read of a scene. -/
structure SceneReader (F : Type) where
  scene : Scene F
  named : Bool := false
  bound : Bool := false
  helped : Bool := false

def readName (st : SceneReader F) (s : Bytes) :
    Option (SceneReader F × Bytes) :=
  if st.named then none
  else do
    let (name, s) ← nextName s
    pure ({ st with scene := { st.scene with name }, named := true }, s)

def readBinding (st : SceneReader F) (s : Bytes) :
    Option (SceneReader F × Bytes) :=
  if st.bound then none
  else do
    let (channel, s) ← nextInt s
    let (note, s) ← nextInt s
    pure ({ st with
      scene := { st.scene with channel, note }, bound := true }, s)

def readHelper (st : SceneReader F) (s : Bytes) :
    Option (SceneReader F × Bytes) :=
  if st.helped then none
  else do
    let (flag, s) ← nextInt s
    if flag ≠ 0 ∧ flag ≠ 1 then none
    else
      pure ({ st with
        scene := { st.scene with helper := flag = 1 }, helped := true }, s)

def readRoute (st : SceneReader F) (s : Bytes) :
    Option (SceneReader F × Bytes) := do
  let (route, s) ← nextName s
  pure ({ st with
    scene := { st.scene with routes := st.scene.routes ++ [route] } }, s)

def readVolume (floats : Floats F) (st : SceneReader F) (s : Bytes) :
    Option (SceneReader F × Bytes) := do
  let (word, s) ← nextWord s
  let (gain, s) ← floats.extract s
  let thingId ← decode word
  if textValid thingId 63 false then
    pure ({ st with
      scene := { st.scene with
        volumes := st.scene.volumes ++ [{ thingId, gain }] } }, s)
  else none

/-- The name of an effect; a stroke stands for no name. -/
def effectName (word : Bytes) : Option Bytes :=
  if word = ascii "-" then some []
  else (decode word).filter fun name => textValid name 63 false

def readEffect (floats : Floats F) (st : SceneReader F) (s : Bytes) :
    Except String (SceneReader F × Bytes) := do
  let (idText, s) ← orFail (nextWord s) "invalid scene effect"
  let (type, s) ← orFail (nextWord s) "invalid scene effect"
  let (enabled, s) ← orFail (nextInt s) "invalid scene effect"
  let (word, s) ← orFail (nextWord s) "invalid scene effect"
  let effectId ← orFail (decode idText) "invalid scene effect"
  failIf (¬textValid effectId 63 false ∨ type.length > 23 ∨
    (enabled ≠ 0 ∧ enabled ≠ 1)) "invalid scene effect"
  let name ← orFail (effectName word) "invalid effect name"
  let one := floats.literal 1
  pure ({ st with
    scene := { st.scene with
      effects := st.scene.effects ++ [{
        effectId, type, name, enabled := enabled.toNat.toUInt8
        gain := one, drive := one, clip := one, output := one }] } }, s)

def readParam (floats : Floats F) (st : SceneReader F) (s : Bytes) :
    Option (SceneReader F × Bytes) := do
  let (word, s) ← nextWord s
  let (param, s) ← nextWord s
  let (value, s) ← floats.extract s
  let effectId ← decode word
  if textValid effectId 63 false && textValid param 23 false then
    pure ({ st with
      scene := { st.scene with
        params := st.scene.params ++ [{ effectId, param, value }] } }, s)
  else none

/-- Reads the fields behind a tag. -/
def readFields (floats : Floats F) (st : SceneReader F) (tag s : Bytes) :
    Except String (SceneReader F × Bytes) :=
  if tag = ascii "name" then orFail (readName st s) "invalid scene name"
  else if tag = ascii "midi" then
    orFail (readBinding st s) "invalid scene MIDI binding"
  else if tag = ascii "helper" then
    orFail (readHelper st s) "invalid scene helper"
  else if tag = ascii "route" then
    orFail (readRoute st s) "invalid scene route"
  else if tag = ascii "volume" then
    orFail (readVolume floats st s) "invalid scene volume"
  else if tag = ascii "effect" then readEffect floats st s
  else if tag = ascii "param" then
    orFail (readParam floats st s) "invalid effect parameter"
  else .error "unknown scene field"

def readLine (floats : Floats F) (st : SceneReader F) (line : Bytes) :
    Except String (SceneReader F) :=
  match nextWord line with
  | none => .ok st
  | some (tag, s) => do
      let (st, s) ← readFields floats st tag s
      failIf ((nextWord s).isSome) "extra scene field"
      pure st

/-- Reads the content of the file of a scene. -/
def readScene (host : Host F) (file id : Bytes) : Except String (Scene F) := do
  failIf (file.length > maxFileSize) "invalid scene file"
  let text := (fgets 1024 file).flatten
  failIf (text.length > maxFileSize) "scene file capacity exceeded"
  failIf ((lines text).head? ≠ some schemaLine) "unsupported scene schema"
  let st ← (lines text).tail.foldlM (readLine host.floats)
    { scene := { id, name := [] } }
  failIf (¬(st.named ∧ st.bound ∧ st.helped)) "incomplete scene file"
  validate host st.scene false
  pure st.scene

end Audiox.Scenes
