import Audiox.Update.Acceptance

/-!
# The archive packer

`audiox-update-pack` checks its options and input files and writes them as an
archive.  Paths are byte strings; the files do not change while they are
packed, except that the metadata is written to a file of its own first.
-/

namespace Audiox

open ByteCodec

/-! ## Options -/

structure PackOptions where
  board : Option Bytes
  kernelName : Option Bytes
  version : Option Bytes
  kernelVersion : Option Bytes
  cmdline : Option Bytes

def PackOptions.set (o : PackOptions) (opt value : Bytes) :
    Option PackOptions :=
  if opt = ascii "--board" then some { o with board := some value }
  else if opt = ascii "--kernel-name" then
    some { o with kernelName := some value }
  else if opt = ascii "--version" then some { o with version := some value }
  else if opt = ascii "--kernel-version" then
    some { o with kernelVersion := some value }
  else if opt = ascii "--cmdline" then some { o with cmdline := some value }
  else none

def isOption (arg : Bytes) : Bool :=
  arg.take 2 == ascii "--"

def parseOptions : PackOptions → List Bytes →
    Option (PackOptions × List Bytes)
  | o, [] => some (o, [])
  | o, [arg] => if isOption arg then none else some (o, [arg])
  | o, arg :: value :: rest =>
      if isOption arg then
        match o.set arg value with
        | none => none
        | some o' => parseOptions o' rest
      else some (o, arg :: value :: rest)

/-- The arguments; an archive needs a board and five paths. -/
structure PackArgs where
  board : Bytes
  kernelName : Bytes
  version : Option Bytes
  kernelVersion : Option Bytes
  cmdline : Option Bytes
  output : Bytes
  config : Bytes
  bootloader : Bytes
  kernel : Bytes
  program : Bytes

/-- The part of a path behind its last slash. -/
def baseName (path : Bytes) : Bytes :=
  (path.reverse.takeWhile (· ≠ chr '/')).reverse

def parseArgs (args : List Bytes) : Option PackArgs :=
  match parseOptions ⟨none, none, none, none, none⟩ args with
  | some (o, [output, config, bootloader, kernel, program]) =>
      o.board.map fun board =>
        { board
          kernelName := o.kernelName.getD (baseName kernel)
          version := o.version
          kernelVersion := o.kernelVersion
          cmdline := o.cmdline
          output, config, bootloader, kernel, program }
  | _ => none

/-! ## Reading files -/

/-- The contents of the files at the given paths. -/
abbrev PackFiles := Bytes → Option Bytes

/-- What `fread` returns for a buffer of `k` bytes, call after call. -/
def freads (k : Nat) : Nat → Bytes → List Bytes
  | 0, _ => []
  | fuel + 1, data =>
      if data = [] then []
      else data.take k :: freads k fuel (data.drop k)

def readSmallFile (files : PackFiles) (path : Bytes) (size : Nat) :
    Except String Bytes :=
  match files path with
  | none => .error "failed to open"
  | some data => .ok (data.take size)

structure InputFile where
  type : UInt32
  path : Bytes
  size : UInt64
  crc : UInt32

/-- Finds the size and the checksum of an input. -/
def scanFile (files : PackFiles) (input : InputFile) :
    Except String InputFile :=
  match files input.path with
  | none => .error "failed to open"
  | some data =>
      let pieces := freads 65536 data.length data
      let size := pieces.foldl (fun n buf => n + buf.length.toUInt64) 0
      let crc := pieces.foldl audioxUpdateCrc32 0
      if size = 0 then .error "refusing empty update entry"
      else if input.type = audioxUpdateConfig ∧
          audioxUpdateConfigMax < size.toNat then
        .error "boot config is too large"
      else .ok { input with size, crc }

/-- The entry that is written for a scanned input. -/
def appendFile (files : PackFiles) (tempPath : Bytes) (input : InputFile) :
    Except String Bytes :=
  match files input.path with
  | none => .error "failed to reopen"
  | some data =>
      let pieces := freads 65536 data.length data
      let copied := pieces.foldl (fun n buf => n + buf.length.toUInt64) 0
      -- An input that is the archive being written has been truncated.
      if input.path = tempPath ∨ copied ≠ input.size then
        .error "input changed while archiving"
      else
        .ok (audioxUpdatePutU32 input.type ++
          (audioxUpdatePutU32 input.crc ++ audioxUpdatePutU64 input.size) ++
          pieces.flatten)

/-! ## Packing -/

def optionalLine (key : String) (value : Option Bytes) : Bytes :=
  match value with
  | none => []
  | some [] => []
  | some v => ascii key ++ v ++ ascii "\n"

/-- The text of the metadata entry. -/
def packMetadata (p : PackArgs) : Except String Bytes :=
  let text := ascii "board=" ++ p.board ++ ascii "\n" ++
    (ascii "kernel=" ++ p.kernelName ++ ascii "\n") ++
    optionalLine "version=" p.version
  let text :=
    if text.length < audioxUpdateMetadataMax then
      text ++ optionalLine "kernel_version=" p.kernelVersion
    else text
  if audioxUpdateMetadataMax ≤ text.length then
    .error "metadata is too large"
  else .ok text

def checkCmdline (files : PackFiles) (path : Option Bytes) :
    Except String Unit :=
  match path with
  | none => .ok ()
  | some path => do
      let text ← readSmallFile files path (audioxUpdateCmdlineMax + 1)
      if audioxUpdateCmdlineMax < text.length then
        .error "cmdline is too long"
      else
        match audioxValidateCmdline text with
        | some e => .error e
        | none => .ok ()

def metadataPath (p : PackArgs) : Bytes :=
  p.output ++ ascii ".metadata"

def tempPath (p : PackArgs) : Bytes :=
  p.output ++ ascii ".tmp"

def packInputs (p : PackArgs) : List InputFile :=
  [⟨audioxUpdateMetadata, metadataPath p, 0, 0⟩,
    ⟨audioxUpdateConfig, p.config, 0, 0⟩,
    ⟨audioxUpdateBootloader, p.bootloader, 0, 0⟩,
    ⟨audioxUpdateKernel, p.kernel, 0, 0⟩,
    ⟨audioxUpdateProgram, p.program, 0, 0⟩] ++
    match p.cmdline with
    | none => []
    | some path => [⟨audioxUpdateCmdline, path, 0, 0⟩]

/-- The files once the metadata has been written. -/
def withMetadata (files : PackFiles) (p : PackArgs) (text : Bytes) :
    PackFiles :=
  fun path => if path = metadataPath p then some (cstr text) else files path

/-- The archive that is written for the arguments. -/
def pack (files : PackFiles) (p : PackArgs) : Except String Bytes := do
  let text ← packMetadata p
  let parsed ← audioxUpdateParseMetadata text
  let config ← readSmallFile files p.config (audioxUpdateConfigMax + 1)
  if audioxConfigKernelName config ≠ parsed.kernel then
    .error "the archive kernel is not the one that is booted"
  else do
    checkCmdline files p.cmdline
    if 4096 ≤ (metadataPath p).length then .error "output path is too long"
    else do
      let files' := withMetadata files p text
      let inputs ← (packInputs p).mapM (scanFile files')
      if 4096 ≤ (tempPath p).length then .error "output path is too long"
      else do
        let parts ← inputs.mapM (appendFile files' (tempPath p))
        .ok (archiveHeader audioxUpdateVersion inputs.length.toUInt32 ++
          parts.flatten)

def packMain (files : PackFiles) (args : List Bytes) :
    Except String Bytes :=
  match parseArgs args with
  | none => .error "usage"
  | some p => pack files p

end Audiox
