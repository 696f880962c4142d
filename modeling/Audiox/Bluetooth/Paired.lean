import Audiox.Config.Schema
import Audiox.Scenes.SceneFile
import Mathlib

/-!
# Paired devices

Paired devices are kept in a text file, one line for each: its address, its link
key with the type, its name, and behind tabs whether it connects by itself and
which roles it has.  The name is free text, and the line is read into a buffer
that is not much longer than a name can be.
-/

namespace Audiox.Bluetooth

open ByteCodec Config Scenes

/-! ## Devices -/

def btNameMax : Nat := 249
def btMaxDevices : Nat := 32
def btPairedHeader : Bytes := ascii "# audiox bluetooth paired v"
def bluetoothPairedSchemaVersion : Nat := 1

/-- A Bluetooth address, the lowest byte first. -/
structure Address where
  b : Bytes
  length : b.length = 6
deriving DecidableEq

structure LinkKey where
  bytes : Bytes
  length : bytes.length = 16
deriving DecidableEq

structure BluetoothDevice where
  address : Address
  name : Bytes
  linkKey : LinkKey
  linkKeyType : UInt8
  paired : Bool
  classic : Bool
  autoConnect : Bool
  audioSource : Bool
  audioSink : Bool
deriving DecidableEq

/-- A name as it is taken from a device. -/
def sanitizeName (text : Bytes) (outSize : Nat) : Bytes :=
  (((text.takeWhile (· ≠ 0)).take (outSize - 1)).map fun c =>
    if c ≥ 0x20 ∧ c ≠ chr '"' ∧ c ≠ chr '\\' then c else chr ' ').rdropWhile
      (· == chr ' ')

/-! ## Addresses and keys -/

def hexUpper (n : UInt8) : UInt8 :=
  if n < 10 then chr '0' + n else chr 'A' + (n - 10)

def hexByte (c : UInt8) : Bytes := [hexUpper (c >>> 4), hexUpper (c &&& 15)]

/-- Bytes in hexadecimal digits, with colons in between. -/
def colonHex : Bytes → Bytes
  | [] => []
  | [c] => hexByte c
  | c :: rest => hexByte c ++ chr ':' :: colonHex rest

def formatAddress (address : Address) : Bytes :=
  colonHex address.b.reverse

def readHexByte (c d : UInt8) : Option UInt8 :=
  match digitValue c, digitValue d with
  | some a, some b => some ((a <<< 4) ||| b)
  | _, _ => none

def readColonHex : Bytes → Option Bytes
  | [c, d] => (readHexByte c d).map ([·])
  | c :: d :: colon :: rest =>
      if colon = chr ':' then
        match readHexByte c d, readColonHex rest with
        | some byte, some bytes => some (byte :: bytes)
        | _, _ => none
      else none
  | _ => none

def parseAddress (text : Bytes) : Option Address :=
  match readColonHex text with
  | some bytes =>
      if h : bytes.reverse.length = 6 then some ⟨bytes.reverse, h⟩ else none
  | none => none

/-- The byte that `strtoul` makes of two characters, where it reads both. -/
def keyByte (c d : UInt8) : Option UInt8 :=
  match readHexByte c d with
  | some byte => some byte
  | none =>
      if c = chr '+' then digitValue d
      else if c = chr '-' then (digitValue d).map (0 - ·)
      else none

def keyBytes : Bytes → Option Bytes
  | [] => some []
  | [_] => none
  | c :: d :: rest =>
      match keyByte c d, keyBytes rest with
      | some byte, some bytes => some (byte :: bytes)
      | _, _ => none

def parseHexKey (text : Bytes) : Option LinkKey :=
  match keyBytes text with
  | some bytes => if h : bytes.length = 16 then some ⟨bytes, h⟩ else none
  | none => none

/-! ## Writing -/

def flag (b : Bool) : Bytes := if b then ascii "1" else ascii "0"

/-- The fields in front of the name. -/
def lineHead (device : BluetoothDevice) : Bytes :=
  formatAddress device.address ++ chr ' ' ::
    (encode device.linkKey.bytes ++ chr ' ' ::
      (showDecimal device.linkKeyType.toNat ++ [chr ' ']))

/-- The markers behind the name. -/
def lineTail (autoConnect audioSource audioSink : Bool) : Bytes :=
  ascii "\tAUTO=" ++ flag autoConnect ++ ascii "\tSOURCE=" ++
    flag audioSource ++ ascii "\tSINK=" ++ flag audioSink

def writtenName (name : Bytes) : Bytes :=
  if name = [] then ascii "-" else name

def deviceLine (device : BluetoothDevice) : Bytes :=
  lineHead device ++ (writtenName device.name ++
    lineTail device.autoConnect device.audioSource device.audioSink)

/-- What `savePaired` writes for a table of devices. -/
def pairedText (devices : List BluetoothDevice) : Bytes :=
  btPairedHeader ++ showDecimal bluetoothPairedSchemaVersion ++ ascii "\n" ++
    (devices.filter (·.paired)).flatMap (deviceLine · ++ ascii "\n")

/-! ## Reading -/

/-- `%Ns` -/
def scanWord (max : Nat) (s : Bytes) : Option (Bytes × Bytes) :=
  if ((s.dropWhile Config.isSpace).take max).takeWhile
      (!Config.isSpace ·) = [] then none
  else
    some (((s.dropWhile Config.isSpace).take max).takeWhile
        (!Config.isSpace ·),
      (s.dropWhile Config.isSpace).drop
        (((s.dropWhile Config.isSpace).take max).takeWhile
          (!Config.isSpace ·)).length)

/-- What `%u` makes of the digits behind a sign. -/
def unsignedValue (negative : Bool) (digits : Bytes) : Nat :=
  (if negative then 2 ^ 64 - min (decimal digits) (2 ^ 64 - 1)
    else min (decimal digits) (2 ^ 64 - 1)) % 2 ^ 32

/-- `%u` -/
def scanUnsigned (s : Bytes) : Option (Nat × Bytes) :=
  if (takeSign (s.dropWhile Config.isSpace)).2.takeWhile isDigit = [] then none
  else
    some (unsignedValue (takeSign (s.dropWhile Config.isSpace)).1
        ((takeSign (s.dropWhile Config.isSpace)).2.takeWhile isDigit),
      (takeSign (s.dropWhile Config.isSpace)).2.dropWhile isDigit)

/-- A literal of a format, behind any blanks. -/
def scanLiteral (literal s : Bytes) : Option Bytes :=
  if literal <+: s.dropWhile Config.isSpace then
    some ((s.dropWhile Config.isSpace).drop literal.length)
  else none

/-- A number behind its key. -/
def scanField (key s : Bytes) : Option (Nat × Bytes) :=
  (scanLiteral key s).bind scanUnsigned

structure Marker where
  autoConnect : Bool
  audioSource : Bool
  audioSink : Bool
deriving DecidableEq

/-- The two roles at the end of a line. -/
def readRoles (s : Bytes) : Option (Bool × Bool) :=
  match scanField (ascii "SOURCE=") s with
  | none => none
  | some (source, s) =>
      match scanField (ascii "SINK=") s with
      | none => none
      | some (sink, rest) =>
          if source ≤ 1 ∧ sink ≤ 1 ∧ rest = [] then some (source ≠ 0, sink ≠ 0)
          else none

def readMarker (s : Bytes) : Option Marker :=
  match scanField (ascii "AUTO=") s with
  | none => none
  | some (enabled, rest) =>
      if enabled > 1 then none
      else if rest = [] then some ⟨enabled ≠ 0, false, false⟩
      else (readRoles rest).map fun roles => ⟨enabled ≠ 0, roles.1, roles.2⟩

/-- A text up to the first place where another one begins, and the rest. -/
def splitAtText (pattern : Bytes) : Bytes → Option (Bytes × Bytes)
  | [] => if pattern = [] then some ([], []) else none
  | c :: s =>
      if pattern <+: c :: s then some ([], c :: s)
      else (splitAtText pattern s).map fun parts => (c :: parts.1, parts.2)

/-- The name at the end of a line, and its markers. -/
def readName (name : Bytes) : Bytes × Marker :=
  match splitAtText (ascii "\tAUTO=") name with
  | none => (name, ⟨true, false, false⟩)
  | some (front, marker) =>
      match readMarker marker with
      | some marker => (if front = ascii "-" then [] else front, marker)
      | none => (name, ⟨true, false, false⟩)

def loadedDevice (address : Address) (linkKey : LinkKey) (keyType : Nat)
    (read : Bytes × Marker) : BluetoothDevice where
  address := address
  name := copyBounded btNameMax read.1
  linkKey := linkKey
  linkKeyType := keyType.toUInt8
  paired := true
  classic := true
  autoConnect := read.2.autoConnect
  audioSource := read.2.audioSource
  audioSink := read.2.audioSink

/-- The fields of a line; the name is what follows the blanks behind them. -/
def readFields (line : Bytes) : Option (Bytes × Bytes × Nat × Bytes) :=
  match scanWord 17 line with
  | none => none
  | some (address, s) =>
      match scanWord 32 s with
      | none => none
      | some (key, s) =>
          match scanUnsigned s with
          | none => none
          | some (keyType, s) =>
              some (address, key, keyType, s.dropWhile Config.isSpace)

def loadLine (line : Bytes) : Option BluetoothDevice :=
  match readFields (line.takeWhile fun c => c ≠ chr '\r' ∧ c ≠ chr '\n') with
  | none => none
  | some (addressText, keyText, keyType, name) =>
      match parseAddress addressText, parseHexKey keyText with
      | some address, some key =>
          some (loadedDevice address key keyType (readName name))
      | _, _ => none

/-- How the reading of the file goes: it cannot be opened, the look at the
schema fails, or some lines are read and then no more. -/
inductive Reading where
  | notOpened
  | schemaFails
  | lines (count : Nat)
deriving DecidableEq

def pairedSchema (file : Option Bytes) : ConfigTextSchemaStatus :=
  checkConfigTextFileSchema btPairedHeader bluetoothPairedSchemaVersion file

def loadPaired (file : Option Bytes) (reading : Reading) :
    List BluetoothDevice :=
  match file, reading with
  | some text, .lines count =>
      if (pairedSchema (some text)).refused then []
      else
        (((fgets (btNameMax + 64) text).take count).filterMap loadLine).take
          btMaxDevices
  | _, _ => []

end Audiox.Bluetooth
