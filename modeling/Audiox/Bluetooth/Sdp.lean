import Audiox.Support.CheckedRead
import Mathlib

/-!
# The answers of the service discovery server

Two service records are served.  A request is answered from its bytes alone:
where an answer is cut, it ends with the offset at which the next one goes on.
-/

namespace Audiox.Bluetooth

open ByteCodec CheckedRead

def sdpErrorResponse : Nat := 0x01
def sdpSearchRequest : Nat := 0x02
def sdpAttributeRequest : Nat := 0x04
def sdpSearchAttributeRequest : Nat := 0x06

def sdpInvalidHandle : Nat := 0x0002
def sdpInvalidSyntax : Nat := 0x0003
def sdpInvalidPduSize : Nat := 0x0004
def sdpInvalidContinuation : Nat := 0x0005

def sdpMaxRanges : Nat := 32
def sdpMaxPattern : Nat := 12

/-! ## The records -/

structure Attribute where
  id : Nat
  value : Bytes

structure Record where
  handle : Nat
  attributes : List Attribute
  uuids : List Nat

def kServiceName : Bytes :=
  0x25 :: 0x06 :: ascii "AudioX"

def kBrowseGroups : Bytes :=
  [0x35, 0x03, 0x19, 0x10, 0x02]

/-- Sorted by attribute id. -/
def kRecord : List Attribute :=
  [⟨0x0000, [0x0A, 0x00, 0x01, 0x00, 0x00]⟩,
    ⟨0x0001, [0x35, 0x03, 0x19, 0x11, 0x0B]⟩,
    ⟨0x0004, [0x35, 0x10,
      0x35, 0x06, 0x19, 0x01, 0x00, 0x09, 0x00, 0x19,
      0x35, 0x06, 0x19, 0x00, 0x19, 0x09, 0x01, 0x03]⟩,
    ⟨0x0005, kBrowseGroups⟩,
    ⟨0x0009, [0x35, 0x08, 0x35, 0x06, 0x19, 0x11, 0x0D, 0x09, 0x01, 0x03]⟩,
    ⟨0x0100, kServiceName⟩,
    ⟨0x0311, [0x09, 0x00, 0x02]⟩]

def kAvrcpRecord : List Attribute :=
  [⟨0x0000, [0x0a, 0x00, 0x01, 0x00, 0x01]⟩,
    ⟨0x0001, [0x35, 0x03, 0x19, 0x11, 0x0c]⟩,
    ⟨0x0004, [0x35, 0x10,
      0x35, 0x06, 0x19, 0x01, 0x00, 0x09, 0x00, 0x17,
      0x35, 0x06, 0x19, 0x00, 0x17, 0x09, 0x01, 0x00]⟩,
    ⟨0x0005, kBrowseGroups⟩,
    ⟨0x0009, [0x35, 0x08, 0x35, 0x06, 0x19, 0x11, 0x0e, 0x09, 0x01, 0x00]⟩,
    ⟨0x0100, kServiceName⟩,
    ⟨0x0311, [0x09, 0x00, 0x03]⟩]

def kRecords : List Record :=
  [⟨0x00010000, kRecord, [0x110B, 0x110D, 0x0100, 0x0019, 0x1002]⟩,
    ⟨0x00010001, kAvrcpRecord, [0x110c, 0x110e, 0x0100, 0x0017, 0x1002]⟩]

/-! ## Data elements -/

structure Element where
  type : Nat
  data : Bytes
  total : Nat

def fixedLengths : List Nat :=
  [1, 2, 4, 8, 16]

/-- The bytes of a length behind the first byte of an element. -/
def lengthBytes (sizeIndex : Nat) : Nat :=
  if sizeIndex = 5 then 1 else if sizeIndex = 6 then 2 else 4

/-- The length of the header of an element, and the length of its data. -/
def elementLength (p : Bytes) (type sizeIndex : Nat) : Read Unit (Nat × Nat) :=
  if type = 0 then pure (1, 0)
  else
    match fixedLengths[sizeIndex]? with
    | some length => pure (1, length)
    | none => do
        refuseIf (p.length < 1 + lengthBytes sizeIndex) ()
        let length ← readBe p 1 (lengthBytes sizeIndex)
        pure (1 + lengthBytes sizeIndex, length)

def readElement (p : Bytes) : Read Unit Element := do
  refuseIf (p.length < 1) ()
  let first ← readBe p 0 1
  let (header, length) ← elementLength p (first >>> 3) (first &&& 0x07)
  let room ← sub p.length header
  refuseIf (length > room) ()
  let data ← slice p header length
  pure { type := first >>> 3, data, total := header + length }

/-- The element at an offset of the data of another one. -/
def elementAt (outer : Element) (offset : Nat) : Read Unit Element := do
  let available ← sub outer.data.length offset
  let p ← slice outer.data offset available
  readElement p

def uuidBase : Bytes :=
  [0x00, 0x00, 0x10, 0x00, 0x80, 0x00, 0x00, 0x80, 0x5F, 0x9B, 0x34, 0xFB]

/-- The short form of a UUID; one that has none matches no record. -/
def uuidValue (uuid : Element) : Read Unit Nat :=
  if uuid.data.length = 2 ∨ uuid.data.length = 4 then
    readBe uuid.data 0 uuid.data.length
  else if uuid.data.length = 16 then do
    let tail ← slice uuid.data 4 12
    if tail = uuidBase then readBe uuid.data 0 4 else pure 0xFFFFFFFF
  else .error (.refused ())

/-- How many UUIDs there have been, and whether the record has all of them. -/
def matchUuid (pattern : Element) (record : Record) (offset : Nat)
    (s : Nat × Bool) : Read Unit (Nat × (Nat × Bool)) := do
  let uuid ← elementAt pattern offset
  refuseIf (uuid.type ≠ 3) ()
  refuseIf (s.1 + 1 > sdpMaxPattern) ()
  let value ← uuidValue uuid
  pure (offset + uuid.total, s.1 + 1, s.2 && record.uuids.contains value)

/-- Whether the record has every UUID of the pattern. -/
def matchPattern (pattern : Element) (record : Record) : Read Unit Bool := do
  refuseIf (pattern.type ≠ 6) ()
  let s ← walk (matchUuid pattern record) pattern.data.length
    pattern.data.length 0 (0, true)
  refuseIf (s.1 = 0) ()
  pure s.2

structure Range where
  low : Nat
  high : Nat

def parseAttribute (list : Element) (offset : Nat) (ranges : List Range) :
    Read Unit (Nat × List Range) := do
  let item ← elementAt list offset
  refuseIf (item.type ≠ 1 ∨ ranges.length ≥ sdpMaxRanges) ()
  if item.data.length = 2 then do
    let id ← readBe item.data 0 2
    pure (offset + item.total, ranges ++ [⟨id, id⟩])
  else if item.data.length = 4 then do
    let low ← readBe item.data 0 2
    let high ← readBe item.data 2 2
    pure (offset + item.total, ranges ++ [⟨low, high⟩])
  else .error (.refused ())

def parseAttributeList (list : Element) : Read Unit (List Range) := do
  refuseIf (list.type ≠ 6) ()
  let ranges ← walk (parseAttribute list) list.data.length list.data.length 0 []
  refuseIf (ranges.length = 0) ()
  pure ranges

/-! ## Writing lists -/

def appendRaw (capacity : Nat) (out data : Bytes) : Read Unit Bytes := do
  let room ← sub capacity out.length
  refuseIf (data.length > room) ()
  pure (out ++ data)

def appendSequenceHeader (capacity : Nat) (out : Bytes) (contentLength : Nat) :
    Read Unit Bytes :=
  if contentLength ≤ 0xFF then
    appendRaw capacity out (0x35 :: beBytes 1 contentLength)
  else do
    refuseIf (contentLength > 0xFFFF) ()
    appendRaw capacity out (0x36 :: beBytes 2 contentLength)

def Attribute.wanted (attr : Attribute) (ranges : List Range) : Bool :=
  ranges.any fun range => attr.id ≥ range.low && attr.id ≤ range.high

def appendAttribute (body : Bytes) (attr : Attribute) : Read Unit Bytes := do
  let body ← appendRaw 256 body (0x09 :: beBytes 2 attr.id)
  appendRaw 256 body attr.value

/-- The attributes of a record that are in one of the ranges. -/
def appendAttributeList (record : Record) (ranges : List Range)
    (capacity : Nat) (out : Bytes) : Read Unit Bytes := do
  let body ← (record.attributes.filter (·.wanted ranges)).foldlM
    appendAttribute []
  let out ← appendSequenceHeader capacity out body.length
  appendRaw capacity out body

/-! ## Requests and replies -/

def finishPdu (pdu transaction : Nat) (parameters : Bytes) : Bytes :=
  beBytes 1 pdu ++ beBytes 2 transaction ++ beBytes 2 parameters.length ++
    parameters

/-- A request is refused with an error, or without a reply. -/
inductive Refusal
  | error (code : Nat)
  | silent
deriving DecidableEq

/-- `found` tells which records match a pattern. -/
structure Target where
  found : List Bool := [false, false]
  requestedRecord : Option Record := none

def Target.ofHandle (handle : Nat) : Target where
  requestedRecord := kRecords.foldl
    (fun requested record =>
      if handle = record.handle then some record else requested) none

/-- What a request is about, and the length of that part. -/
def readTarget (pdu : Nat) (params : Bytes) : Read Refusal (Target × Nat) :=
  if pdu = sdpSearchRequest ∨ pdu = sdpSearchAttributeRequest then do
    let pattern ← refusedAs (.error sdpInvalidSyntax) (readElement params)
    let found ← refusedAs (.error sdpInvalidSyntax)
      (kRecords.mapM (matchPattern pattern))
    pure ({ found }, pattern.total)
  else if pdu = sdpAttributeRequest then do
    refuseIf (params.length < 4) (.error sdpInvalidSyntax)
    let handle ← readBe params 0 4
    let target := Target.ofHandle handle
    refuseIf (target.requestedRecord.isNone) (.error sdpInvalidHandle)
    pure (target, 4)
  else .error (.refused (.error sdpInvalidSyntax))

/-- The handles of the records that match, and how many of them are listed. -/
def Target.handles (target : Target) : List Nat :=
  ((kRecords.zip target.found).filter (·.2)).map (·.1.handle)

def currentCount (total maximum : Nat) : Nat :=
  if total < maximum then total else maximum

def searchReply (params : Bytes) (offset : Nat) (target : Target)
    (maximum capacity : Nat) : Read Refusal Bytes := do
  let left ← sub params.length offset
  refuseIf (left < 1) (.error sdpInvalidContinuation)
  let continuation ← readBe params offset 1
  refuseIf (continuation ≠ 0) (.error sdpInvalidContinuation)
  let total := target.found.count true
  refuseIf (capacity < 5 + 5 + 4 * currentCount total maximum) .silent
  pure (beBytes 2 total ++ beBytes 2 (currentCount total maximum) ++
    (target.handles.take (currentCount total maximum)).flatMap (beBytes 4) ++
    [0])

/-- The ranges that are asked for, and the length of that part. -/
def readRanges (params : Bytes) (offset maximum : Nat) :
    Read Refusal (List Range × Nat) := do
  let left ← sub params.length offset
  let p ← slice params offset left
  let list ← refusedAs (.error sdpInvalidSyntax) (readElement p)
  let ranges ← refusedAs (.error sdpInvalidSyntax) (parseAttributeList list)
  refuseIf (maximum < 7) (.error sdpInvalidSyntax)
  pure (ranges, list.total)

/-- The offset at which the reply goes on. -/
def readContinuation (params : Bytes) (offset : Nat) : Read Refusal Nat := do
  let left ← sub params.length offset
  refuseIf (left < 1) (.error sdpInvalidSyntax)
  let continuationLength ← readBe params offset 1
  let left ← sub params.length (offset + 1)
  if continuationLength = 2 ∧ left ≥ 2 then readBe params (offset + 1) 2
  else do
    refuseIf (continuationLength ≠ 0) (.error sdpInvalidContinuation)
    pure 0

def appendMatching (ranges : List Range) (lists : Bytes)
    (record : Record × Bool) : Read Unit Bytes :=
  if record.2 then appendAttributeList record.1 ranges 600 lists
  else pure lists

/-- The attribute lists, without a limit. -/
def fullLists (pdu : Nat) (target : Target) (ranges : List Range) :
    Read Unit Bytes :=
  if pdu = sdpAttributeRequest then
    match target.requestedRecord with
    | none => .error .pastEnd
    | some record => appendAttributeList record ranges 640 []
  else do
    let lists ← (kRecords.zip target.found).foldlM (appendMatching ranges) []
    let full ← appendSequenceHeader 640 [] lists.length
    appendRaw 640 full lists

/-- Where the reply goes on. -/
def continuation (next fullLength : Nat) : Bytes :=
  if next < fullLength then 2 :: beBytes 2 next else [0]

def chunkLength (rest maximum : Nat) : Nat :=
  if rest > maximum then maximum else rest

/-- A part of the lists. -/
def attributeReply (full : Bytes) (resume maximum capacity : Nat) :
    Read Refusal Bytes := do
  refuseIf (resume ≥ full.length ∧ ¬(resume = 0 ∧ full.length = 0))
    (.error sdpInvalidContinuation)
  let rest ← sub full.length resume
  refuseIf (capacity < 5 + 2 + chunkLength rest maximum + 3) .silent
  let chunk ← slice full resume (chunkLength rest maximum)
  pure (beBytes 2 chunk.length ++ chunk ++
    continuation (resume + chunk.length) full.length)

/-- The parameters of the reply to a request. -/
def replyParameters (pdu : Nat) (params : Bytes) (capacity : Nat) :
    Read Refusal Bytes := do
  let (target, offset) ← readTarget pdu params
  let left ← sub params.length offset
  refuseIf (left < 2) (.error sdpInvalidSyntax)
  let maximum ← readBe params offset 2
  if pdu = sdpSearchRequest then
    searchReply params (offset + 2) target maximum capacity
  else do
    let (ranges, length) ← readRanges params (offset + 2) maximum
    let resume ← readContinuation params (offset + 2 + length)
    let full ← refusedAs .silent (fullLists pdu target ranges)
    attributeReply full resume maximum capacity

def errorPdu (capacity transaction code : Nat) : Option Bytes :=
  if capacity < 7 then none
  else some (finishPdu sdpErrorResponse transaction (beBytes 2 code))

/-- The reply to a request, or none. -/
def buildSdpResponse (request : Bytes) (capacity : Nat) :
    Read Empty (Option Bytes) :=
  if request.length < 5 ∨ capacity < 16 then pure none
  else do
    let pdu ← readBe request 0 1
    let transaction ← readBe request 1 2
    let parameterLength ← readBe request 3 2
    let size ← sub request.length 5
    if parameterLength ≠ size then
      pure (errorPdu capacity transaction sdpInvalidPduSize)
    else do
      let params ← slice request 5 parameterLength
      match replyParameters pdu params capacity with
      | .ok parameters =>
          pure (some (finishPdu (pdu + 1) transaction parameters))
      | .error (.refused (.error code)) =>
          pure (errorPdu capacity transaction code)
      | .error (.refused .silent) => pure none
      | .error .pastEnd => .error .pastEnd

end Audiox.Bluetooth
