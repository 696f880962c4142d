import Audiox.Support.ByteCodec
import Audiox.Update.Text

/-!
# Update archives

The format of an update archive: a header, then one entry behind the other,
each a header of its own and a payload with a checksum.  The two versions of
the format differ in the types they know and in how they treat others.
-/

namespace Audiox

open ByteCodec

/-! ## Constants -/

def audioxUpdateMagic : Bytes := ascii "AXUPDATE"
def audioxUpdateVersionV1 : UInt32 := 1
def audioxUpdateVersion : UInt32 := 2
def audioxUpdateHeaderSize : Nat := 16
def audioxUpdateEntryHeaderSize : Nat := 16
def audioxUpdateEntryCountV1 : UInt32 := 4
def audioxUpdateEntryCount : UInt32 := 5
def audioxUpdateKnownTypes : UInt32 := 6
def audioxUpdateEntryLimit : UInt32 := 64
def audioxUpdateTypeRequired : UInt32 := 0x80000000
def audioxUpdateMetadataMax : Nat := 4096

def audioxUpdateConfig : UInt32 := 1
def audioxUpdateBootloader : UInt32 := 2
def audioxUpdateKernel : UInt32 := 3
def audioxUpdateProgram : UInt32 := 4
def audioxUpdateMetadata : UInt32 := 5
def audioxUpdateCmdline : UInt32 := 6

/-! ## Integers -/

def audioxUpdatePutU32 (value : UInt32) : Bytes :=
  leBytes 4 value.toNat

def audioxUpdatePutU64 (value : UInt64) : Bytes :=
  leBytes 8 value.toNat

def audioxUpdateGetU32 (bytes : Bytes) : UInt32 :=
  (leNat (bytes.take 4)).toUInt32

def audioxUpdateGetU64 (bytes : Bytes) : UInt64 :=
  (leNat (bytes.take 8)).toUInt64

@[simp] theorem length_putU32 (value : UInt32) :
    (audioxUpdatePutU32 value).length = 4 :=
  length_leBytes _ _

@[simp] theorem length_putU64 (value : UInt64) :
    (audioxUpdatePutU64 value).length = 8 :=
  length_leBytes _ _

@[simp] theorem getU32_putU32 (value : UInt32) (rest : Bytes) :
    audioxUpdateGetU32 (audioxUpdatePutU32 value ++ rest) = value := by
  have htake : (audioxUpdatePutU32 value ++ rest).take 4 =
      audioxUpdatePutU32 value := List.take_left' (length_putU32 value)
  have hlt : value.toNat < 256 ^ 4 := value.toNat_lt
  rw [audioxUpdateGetU32, htake, audioxUpdatePutU32, leNat_leBytes_of_lt hlt]
  exact UInt32.ofNat_toNat

@[simp] theorem getU64_putU64 (value : UInt64) (rest : Bytes) :
    audioxUpdateGetU64 (audioxUpdatePutU64 value ++ rest) = value := by
  have htake : (audioxUpdatePutU64 value ++ rest).take 8 =
      audioxUpdatePutU64 value := List.take_left' (length_putU64 value)
  have hlt : value.toNat < 256 ^ 8 := value.toNat_lt
  rw [audioxUpdateGetU64, htake, audioxUpdatePutU64, leNat_leBytes_of_lt hlt]
  exact UInt64.ofNat_toNat

theorem putU32_getU32 (bytes : Bytes) (h : bytes.length = 4) :
    audioxUpdatePutU32 (audioxUpdateGetU32 bytes) = bytes := by
  have hlt : leNat bytes < 2 ^ 32 := by
    have := leNat_lt bytes
    rwa [h] at this
  have hnat : (leNat bytes).toUInt32.toNat = leNat bytes := by
    rw [Nat.toUInt32, UInt32.toNat_ofNat_of_lt' hlt]
  rw [audioxUpdateGetU32, List.take_of_length_le h.le, audioxUpdatePutU32,
    hnat, ← h, leBytes_leNat]

theorem putU64_getU64 (bytes : Bytes) (h : bytes.length = 8) :
    audioxUpdatePutU64 (audioxUpdateGetU64 bytes) = bytes := by
  have hlt : leNat bytes < 2 ^ 64 := by
    have := leNat_lt bytes
    rwa [h] at this
  have hnat : (leNat bytes).toUInt64.toNat = leNat bytes := by
    rw [Nat.toUInt64, UInt64.toNat_ofNat_of_lt' hlt]
  rw [audioxUpdateGetU64, List.take_of_length_le h.le, audioxUpdatePutU64,
    hnat, ← h, leBytes_leNat]

/-! ## The checksum -/

/-- Shifts one bit out of the checksum. -/
def crcBit (crc : UInt32) : UInt32 :=
  (crc >>> 1) ^^^ (0xedb88320 &&& (0 - (crc &&& 1)))

def crcByte (crc : UInt32) (byte : UInt8) : UInt32 :=
  Nat.repeat crcBit 8 (crc ^^^ byte.toUInt32)

def audioxUpdateCrc32 (crc : UInt32) (data : Bytes) : UInt32 :=
  ~~~data.foldl crcByte (~~~crc)

/-- The checksum can be computed piece by piece. -/
theorem audioxUpdateCrc32_append (crc : UInt32) (a b : Bytes) :
    audioxUpdateCrc32 crc (a ++ b) =
      audioxUpdateCrc32 (audioxUpdateCrc32 crc a) b := by
  simp [audioxUpdateCrc32]

@[simp] theorem audioxUpdateCrc32_nil (crc : UInt32) :
    audioxUpdateCrc32 crc [] = crc := by
  simp [audioxUpdateCrc32]

/-! ## The format -/

/-- An entry as it stands in an archive. -/
structure ArchiveEntry where
  type : UInt32
  crc : UInt32
  payload : Bytes
deriving DecidableEq

def ArchiveEntry.size (e : ArchiveEntry) : UInt64 :=
  e.payload.length.toUInt64

def ArchiveEntry.header (e : ArchiveEntry) : Bytes :=
  audioxUpdatePutU32 e.type ++ (audioxUpdatePutU32 e.crc ++
    audioxUpdatePutU64 e.size)

def ArchiveEntry.bytes (e : ArchiveEntry) : Bytes :=
  e.header ++ e.payload

@[simp] theorem ArchiveEntry.length_header (e : ArchiveEntry) :
    e.header.length = 16 := by
  simp [ArchiveEntry.header]

@[simp] theorem ArchiveEntry.length_bytes (e : ArchiveEntry) :
    e.bytes.length = 16 + e.payload.length := by
  simp [ArchiveEntry.bytes]

def archiveBytes (version : UInt32) (l : List ArchiveEntry) : Bytes :=
  (audioxUpdateMagic ++ (audioxUpdatePutU32 version ++
    audioxUpdatePutU32 l.length.toUInt32)) ++ l.flatMap ArchiveEntry.bytes

/-- The highest type that a version knows. -/
def maxType (version : UInt32) : UInt32 :=
  if version = audioxUpdateVersionV1 then audioxUpdateProgram
  else audioxUpdateKnownTypes

def isKnown (version type : UInt32) : Bool :=
  audioxUpdateConfig ≤ type && type ≤ maxType version

/-- The types that an archive of a version must have. -/
def requiredTypes (version : UInt32) : List UInt32 :=
  [audioxUpdateConfig, audioxUpdateBootloader, audioxUpdateKernel,
    audioxUpdateProgram] ++
    if version = audioxUpdateVersionV1 then [] else [audioxUpdateMetadata]

/-- Three types have a largest size. -/
def WithinCap (type : UInt32) (size : Nat) : Prop :=
  (type = audioxUpdateConfig → size ≤ audioxUpdateConfigMax) ∧
    (type = audioxUpdateMetadata → size ≤ audioxUpdateMetadataMax) ∧
    (type = audioxUpdateCmdline → size ≤ audioxUpdateCmdlineMax)

/-- What an entry of a well-formed archive looks like. -/
structure EntryWellFormed (version : UInt32) (e : ArchiveEntry) : Prop where
  crc : audioxUpdateCrc32 0 e.payload = e.crc
  known : isKnown version e.type →
    e.payload ≠ [] ∧ WithinCap e.type e.payload.length
  unknown : ¬isKnown version e.type →
    version = audioxUpdateVersion ∧ e.type &&& audioxUpdateTypeRequired = 0

/-- The archives of the format. -/
structure ArchiveWellFormed (version : UInt32) (l : List ArchiveEntry) :
    Prop where
  count : (version = 1 ∧ l.length = 4) ∨
    (version = 2 ∧ 1 ≤ l.length ∧ l.length ≤ 64)
  entry : ∀ e ∈ l, EntryWellFormed version e
  once : ((l.map ArchiveEntry.type).filter (isKnown version)).Nodup
  required : ∀ t ∈ requiredTypes version, t ∈ l.map ArchiveEntry.type

end Audiox
