import Audiox.Http.Body
import Audiox.Scenes.SceneFile
import Audiox.Support.Checks
import Audiox.Support.Pattern
import Mathlib

/-!
# The fan block of the boot configuration

The fan curve of a board is a block of lines in `config.txt`, between two
markers.  A request takes the block out and, unless the fan control is turned
off, writes a new one behind the rest.  The text is put together in a buffer.
The texts have no zero byte.
-/

namespace Audiox.Http.FanConfig

open ByteCodec Config Checks Pattern Scenes

def HTTP_BODY_MAX : Nat := 49152

structure FanSettings where
  enabled : Bool
  temperatures : Fin 4 → Int
  speeds : Fin 4 → Int
  hysteresis : Int
deriving DecidableEq

/-- A request is answered with an error, or a byte is written behind the
buffer. -/
inductive Failure where
  | refused (status text : String)
  | outOfBounds
deriving DecidableEq

def beginMarker : Bytes := ascii "# AudioX Pi 5 fan curve: begin"
def endMarker : Bytes := ascii "# AudioX Pi 5 fan curve: end"

theorem zero_lt_steps : 0 < 4 := by decide

def firstStep : Fin 4 := ⟨0, zero_lt_steps⟩

def previous (i : Fin 4) : Fin 4 := ⟨i.val - 1, by omega⟩

/-! ## Reading the block -/

/-- A conversion `%ld` of `sscanf`, and what follows it. -/
def scanLong (s : Bytes) : Option (Int × Bytes) :=
  match takeSign (s.dropWhile Config.isSpace) with
  | (negative, digits) =>
      if digits.takeWhile isDigit = [] then none
      else
        some (clampLong (if negative then -(decimal (digits.takeWhile isDigit) : Int)
          else decimal (digits.takeWhile isDigit)), digits.dropWhile isDigit)

def toInt32 (v : Int) : Int :=
  (v + 2 ^ 31) % 2 ^ 32 - 2 ^ 31

def fanKey : Bytes := ascii "dtparam=fan_temp"

/-- The two numbers of an entry around a text, when nothing is behind them. -/
def scanFan (mid entry : Bytes) : Option (Int × Int) :=
  if fanKey <+: entry then
    match scanLong (entry.drop fanKey.length) with
    | none => none
    | some (index, rest) =>
        if mid <+: rest then
          match scanLong (rest.drop mid.length) with
          | some (value, []) => some (toInt32 index, value)
          | _ => none
        else none
  else none

/-- An entry with an index and a value in their ranges. -/
def fanField (mid : Bytes) (low high : Int) (entry : Bytes) :
    Option (Fin 4 × Int) :=
  match scanFan mid entry with
  | none => none
  | some (index, value) =>
      if h : 0 ≤ index ∧ index < 4 then
        if low ≤ value ∧ value ≤ high then
          some (⟨index.toNat, by omega⟩, value)
        else none
      else none

/-- What the lines of the block have set so far. -/
structure FanScan where
  temperatures : Fin 4 → Option Int
  hysteresis : Fin 4 → Option Int
  speeds : Fin 4 → Option Int

def noFan : Fin 4 → Option Int := fun _ => none

def entrySize : Nat := 96

def readFanLine (scan : FanScan) (entry : Bytes) : Option FanScan :=
  if entry.length ≥ entrySize then none
  else if entry = ascii "[all]" then some scan
  else
    match fanField (ascii "=") 35000 80000 entry with
    | some (i, value) =>
        some { scan with
          temperatures := Function.update scan.temperatures i
            (some (value.tdiv 1000)) }
    | none =>
        match fanField (ascii "_hyst=") 1000 15000 entry with
        | some (i, value) =>
            some { scan with
              hysteresis := Function.update scan.hysteresis i
                (some (value.tdiv 1000)) }
        | none =>
            match fanField (ascii "_speed=") 1 255 entry with
            | some (i, value) =>
                some { scan with
                  speeds := Function.update scan.speeds i (some value) }
            | none => none

/-- The settings of a block, which must be complete and increase. -/
def fanSettings (scan : FanScan) : Option FanSettings :=
  if ∀ i, scan.temperatures i ≠ none ∧ scan.speeds i ≠ none ∧
      scan.hysteresis i ≠ none ∧
      (0 < i.val →
        (scan.temperatures (previous i)).getD 0 < (scan.temperatures i).getD 0 ∧
        (scan.speeds (previous i)).getD 0 < (scan.speeds i).getD 0 ∧
        (scan.hysteresis firstStep).getD 0 < (scan.temperatures i).getD 0 -
          (scan.temperatures (previous i)).getD 0 ∧
        scan.hysteresis i = scan.hysteresis firstStep) then
    some
      { enabled := true
        temperatures := fun i => (scan.temperatures i).getD 0
        speeds := fun i => (scan.speeds i).getD 0
        hysteresis := (scan.hysteresis firstStep).getD 0 }
  else none

def defaultSettings : FanSettings where
  enabled := false
  temperatures := ![50, 60, 68, 75]
  speeds := ![75, 125, 175, 250]
  hysteresis := 5

/-- The lines of a text that starts with the block and has the end marker at a
position. -/
def readBlock (block : Bytes) (fin : Nat) : Option FanSettings :=
  if (firstAt beginMarker (block.drop (fin + endMarker.length))).isSome then none
  else if block.idxOf newline ≥ fin then none
  else
    ((lines ((block.take fin).drop (block.idxOf newline + 1))).foldlM readFanLine
      ⟨noFan, noFan, noFan⟩).bind fanSettings

def readPi5FanSettings (config : Bytes) : Option FanSettings :=
  match firstAt beginMarker config with
  | none => some defaultSettings
  | some start =>
      match firstAt endMarker (config.drop start) with
      | none => none
      | some fin => readBlock (config.drop start) fin

/-! ## Requests -/

def fanInteger (body key : Bytes) (minimum maximum : Int) : Option Int :=
  match bodyGetValue body key 16 with
  | none => none
  | some text =>
      if text = [] then none
      else
        match strtol text with
        | (parsed, []) =>
            if minimum ≤ parsed ∧ parsed ≤ maximum then some parsed else none
        | _ => none

def indexedKey (name : String) (i : Fin 4) : Bytes :=
  ascii name ++ showDecimal i.val

def badRequest (text : String) : Failure :=
  .refused "400 Bad Request" text

def requestTemperature (body : Bytes) (i : Fin 4) : Option Int :=
  fanInteger body (indexedKey "temperature" i) 40 80

def requestSpeed (body : Bytes) (i : Fin 4) : Option Int :=
  fanInteger body (indexedKey "speed" i) 1 255

/-- The checks of one step of the requested curve. -/
def checkStep (body : Bytes) (hysteresis : Int) (i : Fin 4) :
    Except Failure Unit := do
  let temperature ← orFail (requestTemperature body i)
    (badRequest "fan temperatures must be between 40 and 80 degrees C\n")
  let speed ← orFail (requestSpeed body i)
    (badRequest "fan speeds must be between 1 and 255\n")
  failIf (0 < i.val ∧
      (temperature ≤ (requestTemperature body (previous i)).getD 0 ∨
        speed ≤ (requestSpeed body (previous i)).getD 0 ∨
        temperature - (requestTemperature body (previous i)).getD 0 ≤ hysteresis))
    (badRequest
      "fan temperatures and speeds must increase at every step; temperature gaps must exceed hysteresis\n")

def fanRequest (body : Bytes) : Except Failure FanSettings := do
  let enabled ← orFail (fanInteger body (ascii "enabled") 0 1)
    (badRequest "expected enabled=0|1 and a valid four-step fan curve\n")
  let hysteresis ← orFail (fanInteger body (ascii "hysteresis") 1 15)
    (badRequest "fan hysteresis must be between 1 and 15 degrees C\n")
  (List.finRange 4).foldlM (fun _ i => checkStep body hysteresis i) ()
  .ok
    { enabled := enabled ≠ 0
      temperatures := fun i => (requestTemperature body i).getD 0
      speeds := fun i => (requestSpeed body i).getD 0
      hysteresis := hysteresis }

/-! ## Rewriting -/

def tooLarge : Failure :=
  .refused "413 Payload Too Large" "updated boot config is too large\n"

/-- Copies bytes behind those of the buffer. -/
def store (buffer piece : Bytes) : Except Failure Bytes :=
  if buffer.length + piece.length ≤ HTTP_BODY_MAX then .ok (buffer ++ piece)
  else .error .outOfBounds

/-- Prints bytes and an end behind those of the buffer, as far as it goes. -/
def printInto (buffer piece : Bytes) : Except Failure Bytes :=
  if piece.length ≥ HTTP_BODY_MAX - buffer.length then .error tooLarge
  else store buffer piece

/-- The text in front of the block, and that behind the line of its end. -/
def cutBlock (config : Bytes) : Except Failure (Bytes × Bytes) :=
  match firstAt beginMarker config with
  | none => .ok (config, [])
  | some start =>
      match firstAt endMarker (config.drop start) with
      | none =>
          .error (.refused "409 Conflict"
            "managed Pi 5 fan settings are incomplete\n")
      | some fin =>
          .ok (config.take start,
            (config.drop (start + fin)).drop
              ((config.drop (start + fin)).idxOf newline + 1))

def headText : Bytes := beginMarker ++ ascii "\n[all]\n"
def endText : Bytes := endMarker ++ ascii "\n"

def fanLine (i : Fin 4) (mid value : Bytes) : Bytes :=
  fanKey ++ showDecimal i.val ++ mid ++ value

def stepText (s : FanSettings) (i : Fin 4) : Bytes :=
  fanLine i (ascii "=") (showInt (s.temperatures i) ++ ascii "000") ++ ascii "\n" ++
    (fanLine i (ascii "_hyst=") (showInt s.hysteresis ++ ascii "000") ++
      ascii "\n") ++
    (fanLine i (ascii "_speed=") (showInt (s.speeds i)) ++ ascii "\n")

/-- Ends the last line of the buffer. -/
def endLine (buffer : Bytes) : Except Failure Bytes :=
  if buffer ≠ [] ∧ buffer.getLast? ≠ some newline then store buffer (ascii "\n")
  else .ok buffer

def appendBlock (s : FanSettings) (buffer : Bytes) : Except Failure Bytes := do
  let buffer ← endLine buffer
  let buffer ← printInto buffer headText
  let buffer ← (List.finRange 4).foldlM
    (fun buffer i => printInto buffer (stepText s i)) buffer
  printInto buffer endText

/-- Copies what is behind the block. -/
def storeBehind (buffer behind : Bytes) : Except Failure Bytes :=
  if behind = [] then .ok buffer
  else if behind.length ≥ HTTP_BODY_MAX - buffer.length then .error tooLarge
  else store buffer behind

def finish (buffer : Bytes) : Except Failure Bytes :=
  if buffer = [] ∨ buffer.length ≥ HTTP_BODY_MAX then .error tooLarge
  else do
    let _ ← store buffer [0]
    .ok buffer

def rewriteConfig (config : Bytes) (s : FanSettings) : Except Failure Bytes := do
  let parts ← cutBlock config
  let buffer ← store [] parts.1
  let buffer ← storeBehind buffer parts.2
  if s.enabled then do
    let buffer ← appendBlock s buffer
    finish buffer
  else finish buffer

/-- A request with a curve: the new text, and the settings of the answer. -/
def handlePi5FanConfig (config body : Bytes) :
    Except Failure (Bytes × FanSettings) := do
  failIf (config.length ≥ HTTP_BODY_MAX)
    (.refused "413 Payload Too Large"
      "boot config is too large to update safely\n")
  failIf (readPi5FanSettings config = none)
    (.refused "409 Conflict"
      "managed Pi 5 fan settings are incomplete or invalid\n")
  let request ← fanRequest body
  let updated ← rewriteConfig config request
  .ok (updated, request)

end Audiox.Http.FanConfig
