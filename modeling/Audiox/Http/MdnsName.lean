import Audiox.Support.CheckedRead
import Mathlib

/-!
# Names in a packet

A name is a row of labels with their lengths in front.  A reader may be sent
backwards by a pointer in place of a label; the writer never uses one.
-/

namespace Audiox.Http

open ByteCodec CheckedRead

def kMaxNameLength : Nat := 255

def dot : UInt8 :=
  chr '.'

/-! ## The reader -/

/-- What the loop of `readName` holds; `offset` and `out` are the caller's. -/
structure NameScan where
  position : Nat
  written : Nat
  resumeAt : Nat
  jumped : Bool
  offset : Nat
  out : Bytes

/-- What `readName` returns, and what it leaves to the caller. -/
structure NameRead where
  ok : Bool
  offset : Nat
  out : Bytes
deriving DecidableEq

def NameScan.refused (s : NameScan) : NameRead :=
  { ok := false, offset := s.offset, out := s.out }

/-- The bytes of a label, up to one that no label may have. -/
def copyLabel (packet : Bytes) :
    Nat → Nat → Nat → Bytes → Read Empty (Bool × Bytes)
  | 0, _, _, out => pure (true, out)
  | count + 1, position, written, out => do
      let c ← byteAt packet position
      if c = dot ∨ c = 0 then pure (false, out)
      else do
        let out ← store out written c
        copyLabel packet count (position + 1) (written + 1) out

/-- Pointers must point strictly backwards. -/
def NameScan.follow (s : NameScan) (target : Nat) : NameScan ⊕ NameRead :=
  if target ≥ s.position then .inr s.refused
  else
    .inl { s with
      position := target
      resumeAt := if s.jumped then s.resumeAt else s.position + 2
      jumped := true }

def NameScan.finish (s : NameScan) : Read Empty (NameScan ⊕ NameRead) := do
  let out ← store s.out s.written 0
  pure (.inr {
    ok := true
    offset := if s.jumped then s.resumeAt else s.position + 1
    out })

/-- The bytes that a label needs behind those of the labels before it. -/
def NameScan.needed (s : NameScan) (labelLength : Nat) : Nat :=
  (if s.written ≠ 0 then 1 else 0) + labelLength

/-- The dot in front of a label that is not the first. -/
def NameScan.storeDot (s : NameScan) : Read Empty Bytes :=
  if s.written ≠ 0 then store s.out s.written dot else pure s.out

def NameScan.label (packet : Bytes) (s : NameScan) (labelLength : Nat) :
    Read Empty (NameScan ⊕ NameRead) :=
  if s.position + 1 + labelLength > packet.length then pure (.inr s.refused)
  else if s.written + s.needed labelLength + 1 > s.out.length ∨
      s.written + s.needed labelLength > kMaxNameLength then
    pure (.inr s.refused)
  else do
    let dotted ← s.storeDot
    let copied ← copyLabel packet labelLength (s.position + 1)
      (s.written + s.needed 0) dotted
    if copied.1 then
      pure (.inl { s with
        position := s.position + 1 + labelLength
        written := s.written + s.needed labelLength
        out := copied.2 })
    else pure (.inr { s.refused with out := copied.2 })

/-- One turn of the loop of `readName`. -/
def nameTurn (packet : Bytes) (s : NameScan) :
    Read Empty (NameScan ⊕ NameRead) :=
  if s.position ≥ packet.length then pure (.inr s.refused)
  else do
    let labelLength ← byteAt packet s.position
    if labelLength &&& 0xC0 = 0xC0 then
      if s.position + 1 ≥ packet.length then pure (.inr s.refused)
      else do
        let low ← byteAt packet (s.position + 1)
        pure (s.follow
          (((labelLength &&& 0x3F).toNat <<< 8) ||| low.toNat))
    else if labelLength &&& 0xC0 ≠ 0 then pure (.inr s.refused)
    else if labelLength = 0 then s.finish
    else s.label packet labelLength.toNat

/-- `readName`, with a bound on the turns of its loop; `out` has the bytes of
the output. -/
def readNameLoop (packet : Bytes) (offset : Nat) (out : Bytes) (fuel : Nat) :
    Option (Read Empty NameRead) :=
  if out.length = 0 then some (pure { ok := false, offset, out })
  else
    loop (nameTurn packet) fuel
      { position := offset, written := 0, resumeAt := 0, jumped := false,
        offset, out := out.set 0 0 }

/-- More turns than the loop makes. -/
def nameTurns (packet : Bytes) : Nat :=
  (kMaxNameLength + 1) * (packet.length + 1)

def readName (packet : Bytes) (offset : Nat) (out : Bytes) :
    Read Empty NameRead :=
  (readNameLoop packet offset out (nameTurns packet)).getD (.error .pastEnd)

/-! ## The writer -/

/-- The bytes written into a buffer so far. -/
structure Writer where
  out : Bytes
  capacity : Nat
  ok : Bool
  fits : out.length ≤ capacity

def Writer.length (w : Writer) : Nat :=
  w.out.length

def Writer.start (capacity : Nat) : Writer :=
  { out := [], capacity, ok := true, fits := Nat.zero_le _ }

def Writer.fail (w : Writer) : Writer :=
  { w with ok := false }

def Writer.u8 (w : Writer) (value : UInt8) : Writer :=
  if h : w.length + 1 > w.capacity then w.fail
  else
    { out := w.out ++ [value], capacity := w.capacity, ok := w.ok
      fits := by simpa [Writer.length] using h }

def Writer.u16 (w : Writer) (value : Nat) : Writer :=
  (w.u8 (value >>> 8).toUInt8).u8 value.toUInt8

def Writer.u32 (w : Writer) (value : Nat) : Writer :=
  (w.u16 (value >>> 16)).u16 value

def Writer.bytes (w : Writer) (data : Bytes) : Writer :=
  data.foldl Writer.u8 w

/-- The labels of a dotted name: each goes up to the next dot, and no label
starts at the end. -/
def labelsOf : Bytes → List Bytes
  | [] => []
  | c :: rest =>
      if c = dot then [] :: labelsOf rest
      else
        match labelsOf rest with
        | [] => [[c]]
        | label :: labels => (c :: label) :: labels

def Writer.labels (w : Writer) : List Bytes → Writer
  | [] => w.u8 0
  | label :: labels =>
      if label.length = 0 ∨ label.length > 63 then w.fail
      else ((w.u8 label.length.toUInt8).bytes label).labels labels

/-- Names are written uncompressed. -/
def Writer.name (w : Writer) (dotted : Bytes) : Writer :=
  w.labels (labelsOf dotted)

def Writer.patch16 (w : Writer) (position : Nat) (value : Nat) : Writer :=
  if position + 2 ≤ w.length then
    { w with
      out := (w.out.set position (value >>> 8).toUInt8).set (position + 1)
        value.toUInt8
      fits := by simpa using w.fits }
  else w

end Audiox.Http
