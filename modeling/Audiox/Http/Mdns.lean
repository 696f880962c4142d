import Audiox.Http.MdnsName
import Mathlib

/-!
# The replies of the mDNS responder

A reply has an address record and a record that denies the other types of the
host name, as answers where they were asked for and as additional records
where not.
-/

namespace Audiox.Http

open ByteCodec CheckedRead

def kTypeA : Nat := 1
def kTypePtr : Nat := 12
def kTypeNsec : Nat := 47
def kTypeAny : Nat := 255
def kTtlSeconds : Nat := 120
def kLegacyTtlSeconds : Nat := 10

def kClassIn : Nat := 1
def kClassAny : Nat := 255
def kCacheFlush : Nat := 0x8000
def kQuestionUnicast : Nat := 0x8000
def kFlagResponse : Nat := 0x8000
def kFlagAuthoritative : Nat := 0x0400
def kHeaderSize : Nat := 12
def kMaxQuestions : Nat := 32

/-- An address of four bytes, in the order of the network. -/
structure InAddr where
  first : UInt8
  second : UInt8
  third : UInt8
  fourth : UInt8

def InAddr.octets (address : InAddr) : Bytes :=
  [address.first, address.second, address.third, address.fourth]

structure Host where
  name : Bytes
  address : InAddr

structure Question where
  name : Bytes
  type : Nat
  recordClass : Nat
deriving DecidableEq

structure Reply where
  length : Nat := 0
  unicast : Bool := false
deriving DecidableEq

/-! ## Names -/

def toLower (c : UInt8) : UInt8 :=
  if chr 'A' ≤ c ∧ c ≤ chr 'Z' then c + 32 else c

/-- Whether `strcasecmp` finds two names equal. -/
def SameName (a b : Bytes) : Prop :=
  a.map toLower = b.map toLower

instance (a b : Bytes) : Decidable (SameName a b) :=
  inferInstanceAs (Decidable (_ = _))

/-- The name is cut where the buffer of `snprintf` ends. -/
def reverseName (address : InAddr) (capacity : Nat) : Bytes :=
  (showDecimal address.fourth.toNat ++ ascii "." ++
    showDecimal address.third.toNat ++ ascii "." ++
    showDecimal address.second.toNat ++ ascii "." ++
    showDecimal address.first.toNat ++ ascii ".in-addr.arpa").take
      (capacity - 1)

def Host.reverse (host : Host) : Bytes :=
  reverseName host.address 64

/-! ## Records -/

def writeRecordHeader (w : Writer) (name : Bytes)
    (type recordClass ttl : Nat) : Writer :=
  (((w.name name).u16 type).u16 recordClass).u32 ttl

def writeA (w : Writer) (host : Host) (recordClass ttl : Nat) : Writer :=
  ((writeRecordHeader w host.name kTypeA recordClass ttl).u16 4).bytes
    host.address.octets

/-- The data of a record behind its length, which is written last. -/
def Writer.withLength (w : Writer) (data : Writer → Writer) : Writer :=
  (data (w.u16 0)).patch16 w.length
    ((data (w.u16 0)).length - (w.u16 0).length)

/-- The host name owns only an address record. -/
def writeNsec (w : Writer) (host : Host) (recordClass ttl : Nat) : Writer :=
  (writeRecordHeader w host.name kTypeNsec recordClass ttl).withLength
    fun w => (((w.name host.name).u8 0).u8 1).u8 0x40

def writePtr (w : Writer) (host : Host) (reverse : Bytes)
    (recordClass ttl : Nat) : Writer :=
  (writeRecordHeader w reverse kTypePtr recordClass ttl).withLength
    fun w => w.name host.name

def writeQuestion (w : Writer) (question : Question) : Writer :=
  ((w.name question.name).u16 question.type).u16 question.recordClass

/-! ## The questions of a query -/

/-- What the loop over the questions holds. -/
structure Asked where
  answered : List Question := []
  wantA : Bool := false
  wantNsec : Bool := false
  wantPtr : Bool := false
  multicastRequested : Bool := false

def Asked.matched (s : Asked) (question : Question) (rawClass : Nat) : Asked :=
  { s with
    multicastRequested :=
      s.multicastRequested || decide (rawClass &&& kQuestionUnicast = 0)
    answered := s.answered ++ [question] }

def Asked.hostName (s : Asked) (question : Question) : Asked :=
  if question.type = kTypeA ∨ question.type = kTypeAny then
    { s with wantA := true }
  else { s with wantNsec := true }

def Asked.consider (host : Host) (s : Asked) (question : Question)
    (rawClass : Nat) : Asked :=
  if question.recordClass ≠ kClassIn ∧ question.recordClass ≠ kClassAny then s
  else if SameName question.name host.name then
    (s.hostName question).matched question rawClass
  else if SameName question.name host.reverse ∧
      (question.type = kTypePtr ∨ question.type = kTypeAny) then
    { s with wantPtr := true }.matched question rawClass
  else s

/-- The questions from an offset on, up to a malformed one. -/
def readQuestions (query : Bytes) (host : Host) :
    Nat → Nat → Asked → Read Empty Asked
  | 0, _, s => pure s
  | count + 1, offset, s => do
      let name ← readName query offset (List.replicate (kMaxNameLength + 1) 0)
      if name.ok = false ∨ name.offset + 4 > query.length then pure s
      else do
        let type ← readBe query name.offset 2
        let rawClass ← readBe query (name.offset + 2) 2
        readQuestions query host count (name.offset + 4)
          (s.consider host
            { name := cstr name.out, type
              recordClass := rawClass &&& 0x7FFF }
            rawClass)

/-! ## The reply -/

def Writer.when (w : Writer) (wanted : Bool) (write : Writer → Writer) :
    Writer :=
  if wanted then write w else w

def replyTtl (legacyUnicast : Bool) : Nat :=
  if legacyUnicast then kLegacyTtlSeconds else kTtlSeconds

def replyClass (legacyUnicast : Bool) : Nat :=
  if legacyUnicast then kClassIn else kClassIn ||| kCacheFlush

def writeHeader (w : Writer) (id : Nat) (legacyUnicast : Bool) (s : Asked) :
    Writer :=
  (((((w.u16 id).u16 (kFlagResponse ||| kFlagAuthoritative)).u16
    (if legacyUnicast then s.answered.length else 0)).u16
    (s.wantA.toNat + s.wantNsec.toNat + s.wantPtr.toNat)).u16 0).u16
    ((!s.wantA).toNat + (!s.wantNsec).toNat)

def writeRecords (w : Writer) (host : Host) (s : Asked)
    (recordClass ttl : Nat) : Writer :=
  ((((w.when s.wantA (writeA · host recordClass ttl)).when
    s.wantNsec (writeNsec · host recordClass ttl)).when
    s.wantPtr (writePtr · host host.reverse recordClass ttl)).when
    (!s.wantA) (writeA · host recordClass ttl)).when
    (!s.wantNsec) (writeNsec · host recordClass ttl)

def writeReply (host : Host) (legacyUnicast : Bool) (capacity id : Nat)
    (s : Asked) : Writer :=
  writeRecords
    ((writeHeader (Writer.start capacity) id legacyUnicast s).when
      legacyUnicast fun w => s.answered.foldl writeQuestion w)
    host s (replyClass legacyUnicast) (replyTtl legacyUnicast)

def sendReply (legacyUnicast : Bool) (s : Asked) (w : Writer) : Reply × Bytes :=
  if w.ok then
    ({ length := w.length, unicast := legacyUnicast || !s.multicastRequested },
      w.out)
  else ({}, w.out)

def replyId (query : Bytes) (legacyUnicast : Bool) : Read Empty Nat :=
  if legacyUnicast then readBe query 0 2 else pure 0

/-- The reply, and what it has written into its buffer. -/
def buildReply (query : Bytes) (host : Host) (legacyUnicast : Bool)
    (capacity : Nat) : Read Empty (Reply × Bytes) :=
  if query.length < kHeaderSize then pure ({}, [])
  else do
    let flags ← readBe query 2 2
    if flags &&& kFlagResponse ≠ 0 ∨ (flags >>> 11) &&& 0xF ≠ 0 then
      pure ({}, [])
    else do
      let questionCount ← readBe query 4 2
      let s ← readQuestions query host (min questionCount kMaxQuestions)
        kHeaderSize {}
      if s.answered.length = 0 then pure ({}, [])
      else do
        let id ← replyId query legacyUnicast
        pure (sendReply legacyUnicast s
          (writeReply host legacyUnicast capacity id s))

end Audiox.Http
