import Audiox.Config.Text
import Audiox.Scenes.RoundTrip
import Audiox.Support.KeyedArray
import Mathlib

/-!
# The settings of a script

A script keeps a few values under keys in one file of its directory.  Every
change reads the whole file, and writes all of it again.
-/

namespace Audiox.Scripting.ScriptSettings

open ByteCodec Config Scenes KeyedList KeyedArray

/-! ## Entries -/

def SCRIPT_STATE_ENTRIES_MAX : Nat := 32
def SCRIPT_STORAGE_TOTAL_MAX : Nat := 65536
def SETTINGS_MAX : Nat := 16384
def keySize : Nat := 32
def stringSize : Nat := 128
def numberSize : Nat := 64

/-- The floating point numbers of a machine, and the functions of its C
library for them. -/
structure Doubles (D : Type) where
  zero : D
  isFinite : D → Bool
  equal : D → D → Bool
  ofInteger : Int64 → D
  /-- Whether a number is smaller than every normal one, and not zero. -/
  subnormal : D → Bool
  /-- The text of a number under `%.17g`. -/
  print : D → Bytes
  /-- The number at the start of a text, what follows it, and whether it sets
  `errno`. -/
  strtod : Bytes → D × Bytes × Bool

inductive ScriptValueKind where
  | boolean
  | number
  | string
deriving DecidableEq

/-- What an array of characters lacks in its list are zeros. -/
structure ScriptStateEntry (D : Type) where
  key : Bytes
  kind : ScriptValueKind
  booleanValue : Bool
  numberValue : D
  stringValue : Bytes
  numberIsInteger : Bool
  integerValue : Int64
deriving DecidableEq

variable {D : Type} (doubles : Doubles D)

namespace ScriptStateEntry

def keyText (e : ScriptStateEntry D) : Bytes :=
  cstr e.key

def blank : ScriptStateEntry D where
  key := []
  kind := .boolean
  booleanValue := false
  numberValue := doubles.zero
  stringValue := []
  numberIsInteger := false
  integerValue := 0

end ScriptStateEntry

open ScriptStateEntry

def strnlen (text : Bytes) (size : Nat) : Nat :=
  (cstr (text.take size)).length

def validKey (key : Bytes) : Bool :=
  strnlen key keySize != 0 && strnlen key keySize != keySize

def validSetting (e : ScriptStateEntry D) : Bool :=
  validKey e.key &&
    match e.kind with
    | .boolean => true
    | .string => decide (strnlen e.stringValue stringSize < stringSize)
    | .number => doubles.isFinite e.numberValue &&
        (!e.numberIsInteger ||
          doubles.equal e.numberValue (doubles.ofInteger e.integerValue))

/-! ## Writing -/

def hex (text : Bytes) : Bytes :=
  encode (cstr text)

def valueText (e : ScriptStateEntry D) : Bytes :=
  match e.kind with
  | .string => ascii "s\t" ++ hex e.stringValue
  | .boolean => if e.booleanValue then ascii "b\t1" else ascii "b\t0"
  | .number =>
      if e.numberIsInteger then
        (ascii "i\t" ++ showInt e.integerValue.toInt).take (numberSize - 1)
      else (ascii "n\t" ++ doubles.print e.numberValue).take (numberSize - 1)

def entryLine (e : ScriptStateEntry D) : Bytes :=
  hex e.key ++ ascii "\t" ++ valueText doubles e ++ ascii "\n"

def settingsText (entries : List (ScriptStateEntry D)) : Bytes :=
  ascii "AX1\n" ++ entries.flatMap (entryLine doubles)

/-! ## Reading -/

def digit (c : UInt8) : Option UInt8 :=
  if chr '0' ≤ c ∧ c ≤ chr '9' then some (c - chr '0')
  else if chr 'a' ≤ c ∧ c ≤ chr 'f' then some (c - chr 'a' + 10)
  else none

def unhexPairs : Bytes → Option Bytes
  | [] => some []
  | [_] => none
  | c :: d :: rest => do
      let high ← digit c
      let low ← digit d
      if high = 0 ∧ low = 0 then none
      else (unhexPairs rest).map ((high * 16 + low) :: ·)

def unhex (text : Bytes) (capacity : Nat) : Option Bytes :=
  if text.length % 2 ≠ 0 ∨ text.length / 2 ≥ capacity then none
  else unhexPairs text

/-- The number at the start of a text, what follows it, and whether it is out
of range. -/
def strtoll (s : Bytes) : Int64 × Bytes × Bool :=
  match takeSign (s.dropWhile Config.isSpace) with
  | (negative, digits) =>
      if digits.takeWhile isDigit = [] then (0, s, false)
      else
        match (if negative then -(decimal (digits.takeWhile isDigit) : Int)
          else decimal (digits.takeWhile isDigit)) with
        | value =>
            (Int64.ofInt (clampLong value), digits.dropWhile isDigit,
              decide (clampLong value ≠ value))

/-- The parts of an entry, and the text behind it. -/
structure EntryText where
  key : Bytes
  kind : UInt8
  value : Bytes
  rest : Bytes

/-- Cuts the entry of a text in which a line ends at one position and the
first tab is at another. -/
def cutEntry (text : Bytes) (fin tab : Nat) : Option EntryText :=
  if fin = text.length ∨ tab = text.length ∨ fin ≤ tab + 2 ∨
      text[tab + 2]? ≠ some (chr '\t') then none
  else
    some ⟨text.take tab, text.getD (tab + 1) 0,
      (text.drop (tab + 3)).take (fin - tab - 3), text.drop (fin + 1)⟩

def readValue (key : Bytes) (kind : UInt8) (value : Bytes) :
    Option (ScriptStateEntry D) :=
  if kind = chr 'b' then
    if value = ascii "0" ∨ value = ascii "1" then
      some { blank doubles with
        key := key
        kind := .boolean
        booleanValue := value = ascii "1" }
    else none
  else if kind = chr 'i' then
    match strtoll value with
    | (integer, tail, errno) =>
        if errno ∨ value = [] ∨ tail ≠ [] then none
        else
          some { blank doubles with
            key := key
            kind := .number
            numberIsInteger := true
            integerValue := integer
            numberValue := doubles.ofInteger integer }
  else if kind = chr 'n' then
    match doubles.strtod value with
    | (number, tail, errno) =>
        if errno ∨ value = [] ∨ tail ≠ [] then none
        else
          some { blank doubles with
            key := key
            kind := .number
            numberValue := number }
  else if kind = chr 's' then
    (unhex value stringSize).map fun text =>
      { blank doubles with
        key := key
        kind := .string
        stringValue := text }
  else none

/-- Reads the entries of a text behind those that were read.  Every round
takes a byte at least, so that as many rounds as bytes are enough. -/
def readEntries : Nat → Bytes → List (ScriptStateEntry D) →
    Option (List (ScriptStateEntry D))
  | 0, text, entries => if text = [] then some entries else none
  | rounds + 1, text, entries =>
      if text = [] then some entries
      else do
        let cut ← cutEntry text (text.idxOf (chr '\n')) (text.idxOf (chr '\t'))
        if entries.length = SCRIPT_STATE_ENTRIES_MAX then none
        else do
          let key ← unhex cut.key keySize
          let entry ← readValue doubles key cut.kind cut.value
          if validSetting doubles entry = false then none
          else if entries.any fun e => e.keyText == entry.keyText then none
          else readEntries rounds cut.rest (entries ++ [entry])

/-- Reads the settings of a script that has its file, or none yet. -/
def readSettings : Option Bytes → Option (List (ScriptStateEntry D))
  | none => some []
  | some text =>
      if text.length > SETTINGS_MAX ∨ 0 ∈ text ∨ text.take 4 ≠ ascii "AX1\n" then
        none
      else readEntries doubles text.length (text.drop 4) []

/-! ## Changing a setting -/

inductive Errno where
  | EINVAL
  | EDQUOT
deriving DecidableEq

/-- Replaces the file, where it is the only one of the directory. -/
def writeLocked (file : Option Bytes) (text : Bytes) : Except Errno Bytes :=
  if (file.getD []).length > SETTINGS_MAX then .error .EINVAL
  else if (file.getD []).length - (file.getD []).length + text.length >
      SCRIPT_STORAGE_TOTAL_MAX then .error .EDQUOT
  else .ok text

/-- The entries after a change, where `index` is the place of the key. -/
def changed (entries : List (ScriptStateEntry D)) (entry : ScriptStateEntry D)
    (remove : Bool) (index : Nat) : Except Errno (List (ScriptStateEntry D)) :=
  if remove then
    .ok (if index < entries.length then takeOut index entries else entries)
  else if index = entries.length ∧ entries.length = SCRIPT_STATE_ENTRIES_MAX then
    .error .EDQUOT
  else .ok (putAt index entry entries)

/-- The text that a change leaves in the file. -/
def setSetting (file : Option Bytes) (entry : ScriptStateEntry D)
    (remove : Bool) : Except Errno Bytes :=
  if (if remove then validKey entry.key else validSetting doubles entry) = false then
    .error .EINVAL
  else
    match readSettings doubles file with
    | none => .error .EINVAL
    | some entries => do
        let entries ← changed entries entry remove
          (position keyText entry.keyText entries)
        writeLocked file (settingsText doubles entries)

end Audiox.Scripting.ScriptSettings
