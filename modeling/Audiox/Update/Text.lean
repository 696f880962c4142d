import Audiox.Support.ByteCodec

/-!
# Texts of an update

The checks on the texts an update carries: metadata values and kernel file
names, the command line, the kernel that `config.txt` selects, and the
`key=value` lines of the metadata entry.  A check returns `none` when the text
is accepted and a short description of the error otherwise.
-/

namespace Audiox

open ByteCodec

/-! ## Metadata values and kernel names -/

def audioxUpdateValueMax : Nat := 64

/-- Metadata values are restricted to `[A-Za-z0-9._+-]`. -/
def isValueChar (c : UInt8) : Bool :=
  (chr 'a' ≤ c && c ≤ chr 'z') || (chr 'A' ≤ c && c ≤ chr 'Z') ||
    (chr '0' ≤ c && c ≤ chr '9') || c == chr '.' || c == chr '_' ||
    c == chr '+' || c == chr '-'

def audioxUpdateValidValue (value : Bytes) : Bool :=
  value ≠ [] && value.length < audioxUpdateValueMax && value.all isValueChar

/-- Kernel names look like `kernel*.img`. -/
def audioxUpdateValidKernelName (name : Bytes) : Bool :=
  audioxUpdateValidValue name && 10 ≤ name.length &&
    name.take 6 == ascii "kernel" &&
    name.drop (name.length - 4) == ascii ".img"

def audioxUpdateValidBoard (board : Bytes) : Bool :=
  board == ascii "pi4" || board == ascii "pi5"

/-- The kernel that is installed when nothing names another one. -/
def audioxUpdateDefaultKernel : Bytes := ascii "kernel8.img"

theorem audioxUpdateValidValue_length {value : Bytes}
    (h : audioxUpdateValidValue value) :
    value.length < audioxUpdateValueMax := by
  simp only [audioxUpdateValidValue, Bool.and_eq_true,
    decide_eq_true_eq] at h
  exact h.1.2

theorem audioxUpdateValidValue_char {value : Bytes}
    (h : audioxUpdateValidValue value) {c : UInt8} (hc : c ∈ value) :
    isValueChar c := by
  simp only [audioxUpdateValidValue, Bool.and_eq_true, List.all_eq_true] at h
  exact h.2 c hc

theorem validValue_of_validKernelName {name : Bytes}
    (h : audioxUpdateValidKernelName name) :
    audioxUpdateValidValue name := by
  simp only [audioxUpdateValidKernelName, Bool.and_eq_true] at h
  exact h.1.1.1

theorem validKernelName_default :
    audioxUpdateValidKernelName audioxUpdateDefaultKernel := by
  decide

/-! ## The kernel selected by `config.txt` -/

def audioxUpdateConfigMax : Nat := 1024 * 1024

def isBlank (c : UInt8) : Bool :=
  c == chr ' ' || c == chr '\t'

/-- The file name in a `kernel=` line; an empty name does not count. -/
def kernelLineValue (line : Bytes) : Option Bytes :=
  let rest := line.dropWhile isBlank
  if 7 < rest.length && rest.take 7 == ascii "kernel=" then
    some ((rest.drop 7).takeWhile fun c =>
      !isBlank c && c != chr '\r' && c != chr '#')
  else none

theorem kernelLineValue_comment (line : Bytes) :
    kernelLineValue (chr '#' :: line) = none := by
  have hblank : isBlank (chr '#') = false := by decide
  have hhead : (chr '#' == chr 'k') = false := by decide
  simp [kernelLineValue, hblank, ascii, hhead]

/-- The first `kernel=` line decides; a name that is not valid selects the
default kernel. -/
def audioxConfigKernelName (text : Bytes) : Bytes :=
  match (lines text).findSome? kernelLineValue with
  | none => audioxUpdateDefaultKernel
  | some v =>
      if v.length < audioxUpdateValueMax &&
          audioxUpdateValidKernelName (cstr v) then cstr v
      else audioxUpdateDefaultKernel

theorem validKernelName_config (text : Bytes) :
    audioxUpdateValidKernelName (audioxConfigKernelName text) := by
  unfold audioxConfigKernelName
  split
  · exact validKernelName_default
  · split
    next h =>
      rw [Bool.and_eq_true] at h
      exact h.2
    · exact validKernelName_default

/-! ## The command line -/

def audioxUpdateCmdlineMax : Nat := 4096

def dropLastIf (c : UInt8) (text : Bytes) : Bytes :=
  if text.getLast? = some c then text.dropLast else text

/-- Cuts one line end, a newline with an optional carriage return. -/
def cutLineEnd (text : Bytes) : Bytes :=
  if text.getLast? = some (chr '\n') then dropLastIf (chr '\r') text.dropLast
  else text

/-- The error at the first character a command line may not have. -/
def cmdlineCharError : Bytes → Option String
  | [] => none
  | c :: rest =>
      if c = chr '\n' ∨ c = chr '\r' then some "cmdline must be a single line"
      else if c < 0x20 ∨ 0x7e < c then
        some "cmdline contains non-printable characters"
      else cmdlineCharError rest

/-- A word stands at this position, between blanks or the ends. -/
def hasWordAt (word text : Bytes) (i : Nat) : Bool :=
  let stop := i + word.length
  stop ≤ text.length && (text.drop i).take word.length == word &&
    (i == 0 || (text[i - 1]?).any isBlank) &&
    (stop == text.length || (text[stop]?).any isBlank)

def audioxValidateCmdline (text : Bytes) : Option String :=
  let line := cutLineEnd text
  if line = [] then some "cmdline is empty"
  else if audioxUpdateCmdlineMax ≤ line.length then some "cmdline is too long"
  else
    match cmdlineCharError line with
    | some e => some e
    | none =>
        if (List.range line.length).any (hasWordAt (ascii "rdinit=/init") line)
        then none
        else some "cmdline must contain rdinit=/init"

/-! ## Metadata -/

structure AudioxUpdateMetadata where
  board : Bytes
  kernel : Bytes
  version : Bytes
  kernelVersion : Bytes
deriving DecidableEq

def AudioxUpdateMetadata.empty : AudioxUpdateMetadata :=
  ⟨[], [], [], []⟩

/-- Stores the value of a known key; `none` for a key that is not known. -/
def AudioxUpdateMetadata.set (m : AudioxUpdateMetadata) (key value : Bytes) :
    Option AudioxUpdateMetadata :=
  if key = ascii "board" then some { m with board := value }
  else if key = ascii "kernel" then some { m with kernel := value }
  else if key = ascii "version" then some { m with version := value }
  else if key = ascii "kernel_version" then
    some { m with kernelVersion := value }
  else none

/-- Reads one line of the metadata. -/
def metadataLine (m : AudioxUpdateMetadata) (rawLine : Bytes) :
    Except String AudioxUpdateMetadata :=
  let line := dropLastIf (chr '\r') rawLine
  if line = [] ∨ line.head? = some (chr '#') then .ok m
  else if chr '=' ∉ line then .error "malformed metadata line"
  else
    let key := line.takeWhile (· ≠ chr '=')
    let value := line.drop (key.length + 1)
    match m.set key value with
    | none => .ok m
    | some m' =>
        if audioxUpdateValidValue value then .ok m'
        else .error "invalid metadata value"

def audioxUpdateParseMetadata (text : Bytes) :
    Except String AudioxUpdateMetadata := do
  let m ← (lines text).foldlM metadataLine .empty
  if !audioxUpdateValidBoard m.board then
    .error "metadata board is missing or unsupported"
  else if !audioxUpdateValidKernelName m.kernel then
    .error "metadata kernel name is missing or invalid"
  else .ok m

end Audiox
