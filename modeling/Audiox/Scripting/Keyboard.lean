import Audiox.Support.ByteCodec
import Mathlib

/-!
# Key names

Scripts name keys by texts.  A text is one media key, or keys of the keyboard
with a plus sign in between, which are pressed together.
-/

namespace Audiox.Scripting

open ByteCodec

/-- The upper case of an ASCII letter. -/
def upper (c : UInt8) : UInt8 :=
  if chr 'a' ≤ c ∧ c ≤ chr 'z' then c - 32 else c

def mediaKeys : List (String × UInt16) :=
  [("MEDIA_PLAY", 0xb0), ("MEDIA_PAUSE", 0xb1), ("MEDIA_RECORD", 0xb2),
    ("MEDIA_FAST_FORWARD", 0xb3), ("MEDIA_REWIND", 0xb4),
    ("MEDIA_NEXT", 0xb5), ("MEDIA_PREVIOUS", 0xb6), ("MEDIA_STOP", 0xb7),
    ("MEDIA_EJECT", 0xb8), ("MEDIA_PLAY_PAUSE", 0xcd), ("MEDIA_MUTE", 0xe2),
    ("MEDIA_VOLUME_UP", 0xe9), ("MEDIA_VOLUME_DOWN", 0xea)]

/-- The usage of a media key; zero for any other text. -/
def scriptMediaUsage (name : Bytes) : UInt16 :=
  match mediaKeys.find? fun key => ascii key.1 = name.map upper with
  | some key => key.2
  | none => 0

def modifierKeys : List (String × UInt8) :=
  [("CTRL", 1), ("SHIFT", 2), ("ALT", 4), ("GUI", 8)]

def namedKeys : List (String × UInt8) :=
  [("ENTER", 40), ("ESC", 41), ("BACKSPACE", 42), ("TAB", 43), ("SPACE", 44),
    ("DELETE", 76), ("RIGHT", 79), ("LEFT", 80), ("DOWN", 81), ("UP", 82),
    ("HOME", 74), ("END", 77), ("PAGEUP", 75), ("PAGEDOWN", 78)]

def isLetter (c : UInt8) : Bool :=
  chr 'A' ≤ c && c ≤ chr 'Z'

/-- The code of a function key. -/
def functionKey (digits : Bytes) : Option UInt8 :=
  let f := decimal digits
  if digits.all isDigit && 1 ≤ f && f ≤ 24 then
    some (if f ≤ 12 then 57 + f.toUInt8 else 91 + f.toUInt8)
  else none

/-- The code of a key that is no modifier. -/
def keyCode (key : Bytes) : Option UInt8 :=
  match key with
  | [c] =>
      if isLetter c then some (4 + (c - chr 'A'))
      else if chr '1' ≤ c ∧ c ≤ chr '9' then some (30 + (c - chr '1'))
      else if c = chr '0' then some 39
      else none
  | c :: digits =>
      match namedKeys.find? fun named => ascii named.1 = key with
      | some named => some named.2
      | none => if c = chr 'F' then functionKey digits else none
  | [] => none

/-- The modifiers and the keys that have been named so far. -/
structure Chord where
  modifiers : UInt8 := 0
  keys : List UInt8 := []

def Chord.add (chord : Chord) (text : Bytes) : Option Chord :=
  let key := text.map upper
  if ¬key.all (fun c => isLetter c || isDigit c) then none
  else
    match modifierKeys.find? fun modifier => ascii modifier.1 = key with
    | some modifier =>
        some { chord with modifiers := chord.modifiers ||| modifier.2 }
    | none => do
        let code ← keyCode key
        if chord.keys.length = 6 ∨ code ∈ chord.keys then none
        else some { chord with keys := chord.keys ++ [code] }

/-- The eight bytes of a keyboard report. -/
def Chord.report (chord : Chord) : Bytes :=
  ([chord.modifiers, 0] ++ chord.keys ++ List.replicate 6 0).take 8

def scriptChordReport (keys : Bytes) (allowModifiers : Bool) : Option Bytes :=
  if keys = [] ∨ keys.length ≥ 64 then none
  else do
    let chord ← (keys.splitOn (chr '+')).foldlM Chord.add {}
    if chord.keys ≠ [] ∨ (allowModifiers ∧ chord.modifiers ≠ 0) then
      some chord.report
    else none

end Audiox.Scripting
