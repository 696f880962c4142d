import Audiox.Plugin.Metadata
import Audiox.Support.CheckedRead
import Audiox.Update.Archive

/-!
# Plugin packages

A plugin package is a header and its entries one behind the other: the
metadata, a shared object and assets, each with its name, its size and a
checksum.
-/

namespace Audiox.Plugin

open ByteCodec CheckedRead

/-- The conversion of decimal texts, and the machine the program runs on. -/
structure Host where
  streamFloat : Bytes → Option ℚ
  hostMachine : Nat

/-! ## Constants -/

def kMaxPackageBytes : Nat := 12 * 1024 * 1024
def kMaxModuleBytes : Nat := 8 * 1024 * 1024
def kMaxAssetBytes : Nat := 256 * 1024
def kMaxAssets : Nat := 16
def kMaxEntries : Nat := 2 + kMaxAssets
def kMaxEntryName : Nat := 63

def kindMetadata : UInt32 := 1
def kindModule : UInt32 := 2
def kindAsset : UInt32 := 3

def packageMagic : Bytes := ascii "AXMODULE"

structure Entry where
  kind : UInt32
  name : Bytes
  data : Bytes
deriving DecidableEq

structure Package where
  metadata : PackageMetadata := {}
  entries : List Entry := []
deriving DecidableEq

def crc (data : Bytes) : UInt32 :=
  ~~~data.foldl crcByte 0xffffffff

def validAssetName (name : Bytes) : Bool :=
  name.length ≤ kMaxEntryName && chr '.' ∈ name &&
    identifier (name.takeWhile (· ≠ chr '.')) kMaxEntryName &&
    name.dropWhile (· ≠ chr '.') ∈ [ascii ".js", ascii ".css", ascii ".html"]

/-! ## Shared objects -/

def emX86_64 : Nat := 62
def emAarch64 : Nat := 183

/-- The identification of a little-endian ELF file of 64 bits. -/
def elfIdent : Bytes := 0x7f :: ascii "ELF" ++ [2, 1, 1]

/-- Checks a program header and tells whether a segment is loaded. -/
def elfSegment (data : Bytes) (phoff phsize : Nat) (load : Bool) (i : Nat) :
    Read String Bool := do
  let p := phoff + i * phsize
  let offset ← readLe data (p + 8) 8
  let bytes ← readLe data (p + 32) 8
  refuseIf (offset > data.length ∨ bytes > sizeSub data.length offset)
    "invalid ELF segment bounds"
  let type ← readLe data p 4
  if type = 1 then
    let memory ← readLe data (p + 40) 8
    refuseIf (memory < bytes) "invalid ELF load segment"
    pure true
  else pure load

/-- Checks a section header; sections of type 8 take no space. -/
def elfSection (data : Bytes) (shoff shsize : Nat) (_ : Unit) (i : Nat) :
    Read String Unit := do
  let s := shoff + i * shsize
  let offset ← readLe data (s + 24) 8
  let bytes ← readLe data (s + 32) 8
  let type ← readLe data (s + 4) 4
  refuseIf (type ≠ 8 ∧
      (offset > data.length ∨ bytes > sizeSub data.length offset))
    "invalid ELF section bounds"

def elfHeader (host : Host) (data : Bytes) (native : Bool) :
    Read String Unit := do
  refuseIf (data.length < 64)
    "module must be a little-endian ELF64 shared object"
  let ident ← slice data 0 7
  let type ← readLe data 16 2
  let version ← readLe data 20 4
  let headerSize ← readLe data 52 2
  refuseIf (ident ≠ elfIdent ∨ type ≠ 3 ∨ version ≠ 1 ∨ headerSize ≠ 64)
    "module must be a little-endian ELF64 shared object"
  let machine ← readLe data 18 2
  refuseIf (machine ≠ emX86_64 ∧ machine ≠ emAarch64)
    "unsupported module architecture"
  refuseIf (native = true ∧ machine ≠ host.hostMachine)
    "module architecture does not match host"

def elfTables (data : Bytes) : Read String Unit := do
  let phoff ← readLe data 32 8
  let shoff ← readLe data 40 8
  let phsize ← readLe data 54 2
  let phnum ← readLe data 56 2
  let shsize ← readLe data 58 2
  let shnum ← readLe data 60 2
  refuseIf (phnum = 0 ∨ phnum = 0xffff ∨ phsize ≠ 56 ∨ phoff < 64 ∨
      phoff > data.length ∨ phnum > sizeSub data.length phoff / phsize)
    "invalid ELF program header bounds"
  refuseIf ((shnum ≠ 0 ∧ (shsize ≠ 64 ∨ shoff < 64 ∨ shoff > data.length ∨
      shnum > sizeSub data.length shoff / shsize)) ∨ (shnum = 0 ∧ shoff ≠ 0))
    "invalid ELF section header bounds"
  let load ← (List.range phnum).foldlM (elfSegment data phoff phsize) false
  refuseIf (load = false) "ELF has no load segment"
  (List.range shnum).foldlM (elfSection data shoff shsize) ()

def elf (host : Host) (data : Bytes) (native : Bool) : Read String Unit := do
  elfHeader host data native
  elfTables data

/-! ## Parsing -/

structure PackageState where
  pos : Nat
  names : List Bytes := []
  hasMetadata : Bool := false
  hasModule : Bool := false
  result : Package := {}

/-- How large the data of an entry may be; `none` if the entry may not be
there. -/
def entryLimit (kind : UInt32) (name : Bytes) (st : PackageState) :
    Option Nat :=
  if kind = kindMetadata ∧ name = ascii "axm.txt" ∧ !st.hasMetadata then
    some kMaxMetadataBytes
  else if kind = kindModule ∧ name = ascii "module.so" ∧ !st.hasModule then
    some kMaxModuleBytes
  else if kind = kindAsset ∧ validAssetName name then some kMaxAssetBytes
  else none

/-- Reads the entry at the position of the state. -/
def readEntry (data : Bytes) (st : PackageState) : Read String Entry := do
  refuseIf (sizeSub data.length st.pos < 20) "truncated package entry"
  let kind ← readLe data st.pos 4
  let nameLength ← readLe data (st.pos + 4) 4
  let bytes ← readLe data (st.pos + 8) 8
  let checksum ← readLe data (st.pos + 16) 4
  let pos := st.pos + 20
  refuseIf (nameLength = 0 ∨ nameLength > kMaxEntryName ∨
      nameLength > sizeSub data.length pos)
    "invalid package entry name length"
  let name ← slice data pos nameLength
  let pos := pos + nameLength
  refuseIf (name ∈ st.names) "duplicate package entry"
  let limit := entryLimit kind.toUInt32 name st
  refuseIf (limit = none) "invalid package entry kind or name"
  refuseIf (bytes > limit.getD 0 ∨ bytes > sizeSub data.length pos)
    "invalid package entry size"
  let content ← slice data pos bytes
  refuseIf (crc content ≠ checksum.toUInt32) "package checksum mismatch"
  pure { kind := kind.toUInt32, name, data := content }

/-- The metadata after an entry. -/
def entryMetadata (host : Host) (e : Entry) (old : PackageMetadata) :
    Read String PackageMetadata :=
  if e.kind = kindMetadata then
    refusing (parseMetadata host.streamFloat e.data)
  else pure old

def entryModule (host : Host) (e : Entry) (requireNative : Bool) :
    Read String Unit :=
  if e.kind = kindModule then elf host e.data requireNative else pure ()

/-- Reads and checks an entry, and goes on behind it. -/
def parseEntry (host : Host) (data : Bytes) (requireNative : Bool)
    (st : PackageState) : Read String PackageState := do
  let e ← readEntry data st
  let metadata ← entryMetadata host e st.result.metadata
  entryModule host e requireNative
  pure
    { pos := st.pos + 20 + e.name.length + e.data.length
      names := e.name :: st.names
      hasMetadata := st.hasMetadata || e.kind = kindMetadata
      hasModule := st.hasModule || e.kind = kindModule
      result := { metadata, entries := st.result.entries ++ [e] } }

def parseEntries (host : Host) (data : Bytes) (requireNative : Bool) :
    Nat → PackageState → Read String PackageState
  | 0, st => pure st
  | count + 1, st => do
      let st ← parseEntry host data requireNative st
      parseEntries host data requireNative count st

def parsePackage (host : Host) (data : Bytes) (requireNative : Bool) :
    Read String Package := do
  refuseIf (data.length < 16 ∨ data.length > kMaxPackageBytes)
    "invalid package size"
  let magic ← slice data 0 8
  refuseIf (magic ≠ packageMagic) "invalid package magic"
  let version ← readLe data 8 4
  refuseIf (version ≠ 1) "unsupported package format version"
  let count ← readLe data 12 4
  refuseIf (count < 2 ∨ count > kMaxEntries) "invalid package entry count"
  let st ← parseEntries host data requireNative count { pos := 16 }
  refuseIf (!st.hasMetadata ∨ !st.hasModule)
    "package requires metadata and module"
  refuseIf (st.pos ≠ data.length) "trailing package data"
  pure st.result

/-! ## Building -/

def Entry.bytes (e : Entry) : Bytes :=
  leBytes 4 e.kind.toNat ++ leBytes 4 e.name.length ++
    leBytes 8 e.data.length ++ leBytes 4 (crc e.data).toNat ++ e.name ++ e.data

def packageBytes (entries : List Entry) : Bytes :=
  packageMagic ++ leBytes 4 1 ++ leBytes 4 entries.length ++
    entries.flatMap Entry.bytes

/-- Adds up the sizes of the entries. -/
def checkSizes : List Entry → Nat → Read String Unit
  | [], _ => pure ()
  | e :: entries, size => do
      refuseIf (e.name.length > kMaxEntryName ∨
          e.data.length > kMaxModuleBytes ∨
          e.data.length + e.name.length + 20 > sizeSub kMaxPackageBytes size)
        "package exceeds size limits"
      checkSizes entries (size + 20 + e.name.length + e.data.length)

def buildPackage (host : Host) (entries : List Entry) : Read String Bytes := do
  refuseIf (entries.length < 2 ∨ entries.length > kMaxEntries)
    "invalid package entry count"
  checkSizes entries 16
  let _ ← parsePackage host (packageBytes entries) false
  pure (packageBytes entries)

end Audiox.Plugin
