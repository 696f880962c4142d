import Audiox.Http.Mdns
import Audiox.Http.MdnsNameRoundTrip
import Audiox.Support.PlacedParser
import Mathlib

/-!
# Messages with names

A message is parsed with the reader of names.  What the records and questions
of a reply are written as is parsed back into them.
-/

namespace Audiox.Http

open ByteCodec CheckedRead PlacedParser

/-! ## Messages -/

inductive RecordData where
  | address (octets : Bytes)
  | target (name : Bytes)
  | next (name : Bytes) (block : Nat) (types : Bytes)
deriving DecidableEq

structure Record where
  name : Bytes
  type : Nat
  recordClass : Nat
  ttl : Nat
  data : RecordData
deriving DecidableEq

structure Message where
  id : Nat
  flags : Nat
  questions : List Question
  answers : List Record
  authorities : List Record
  additionals : List Record
deriving DecidableEq

def parseName : Parser Bytes :=
  fun data pos =>
    match readName data pos (List.replicate (kMaxNameLength + 1) 0) with
    | .ok r => if r.ok then some (cstr r.out, r.offset) else none
    | .error _ => none

def parseQuestion : Parser Question := do
  let name ← parseName
  let type ← number 2
  let recordClass ← number 2
  pure { name, type, recordClass }

/-- The data of a record of a type, which has so many bytes. -/
def parseData (type dataLength : Nat) : Parser RecordData :=
  if type = kTypeA then do
    check (dataLength = 4)
    let octets ← take 4
    pure (.address octets)
  else if type = kTypePtr then do
    let name ← parseName
    pure (.target name)
  else do
    check (type = kTypeNsec)
    let name ← parseName
    let block ← number 1
    let typesLength ← number 1
    let types ← take typesLength
    pure (.next name block types)

def parseRecord : Parser Record := do
  let name ← parseName
  let type ← number 2
  let recordClass ← number 2
  let ttl ← number 4
  let dataLength ← number 2
  let data ← sized dataLength (parseData type dataLength)
  pure { name, type, recordClass, ttl, data }

def parseMessage : Parser Message := do
  let id ← number 2
  let flags ← number 2
  let questionCount ← number 2
  let answerCount ← number 2
  let authorityCount ← number 2
  let additionalCount ← number 2
  let questions ← many parseQuestion questionCount
  let answers ← many parseRecord answerCount
  let authorities ← many parseRecord authorityCount
  let additionals ← many parseRecord additionalCount
  pure { id, flags, questions, answers, authorities, additionals }

/-! ## Their bytes -/

def encodeName (name : Bytes) : Bytes :=
  encodeLabels (labelsOf name)

def encodeQuestion (q : Question) : Bytes :=
  encodeName q.name ++ (beBytes 2 q.type ++ beBytes 2 q.recordClass)

def encodeData : RecordData → Bytes
  | .address octets => octets
  | .target name => encodeName name
  | .next name block types =>
      encodeName name ++ (beBytes 1 block ++ (beBytes 1 types.length ++ types))

def encodeRecord (r : Record) : Bytes :=
  encodeName r.name ++ (beBytes 2 r.type ++ (beBytes 2 r.recordClass ++
    (beBytes 4 r.ttl ++ (beBytes 2 (encodeData r.data).length ++
      encodeData r.data))))

def encodeMessage (m : Message) : Bytes :=
  beBytes 2 m.id ++ (beBytes 2 m.flags ++ (beBytes 2 m.questions.length ++
    (beBytes 2 m.answers.length ++ (beBytes 2 m.authorities.length ++
      (beBytes 2 m.additionals.length ++ (m.questions.flatMap encodeQuestion ++
        (m.answers.flatMap encodeRecord ++
          (m.authorities.flatMap encodeRecord ++
            m.additionals.flatMap encodeRecord))))))))

/-- A name that a packet can hold and the reader accepts. -/
structure PacketName (name : Bytes) : Prop extends DottedName name where
  short : name.length ≤ kMaxNameLength

structure PacketQuestion (q : Question) : Prop where
  name : PacketName q.name
  type : q.type < 256 ^ 2
  recordClass : q.recordClass < 256 ^ 2

/-- Data that a record of a type can have. -/
inductive PacketData : Nat → RecordData → Prop where
  | address (octets : Bytes) (h : octets.length = 4) :
      PacketData kTypeA (.address octets)
  | target (name : Bytes) (h : PacketName name) :
      PacketData kTypePtr (.target name)
  | next (name : Bytes) (block : Nat) (types : Bytes) (h : PacketName name)
      (hblock : block < 256 ^ 1) (htypes : types.length < 256 ^ 1) :
      PacketData kTypeNsec (.next name block types)

structure PacketRecord (r : Record) : Prop where
  name : PacketName r.name
  type : r.type < 256 ^ 2
  recordClass : r.recordClass < 256 ^ 2
  ttl : r.ttl < 256 ^ 4
  data : PacketData r.type r.data
  dataLength : (encodeData r.data).length < 256 ^ 2

structure PacketMessage (m : Message) : Prop where
  id : m.id < 256 ^ 2
  flags : m.flags < 256 ^ 2
  questions : ∀ q ∈ m.questions, PacketQuestion q
  answers : ∀ r ∈ m.answers, PacketRecord r
  authorities : ∀ r ∈ m.authorities, PacketRecord r
  additionals : ∀ r ∈ m.additionals, PacketRecord r
  questionCount : m.questions.length < 256 ^ 2
  answerCount : m.answers.length < 256 ^ 2
  authorityCount : m.authorities.length < 256 ^ 2
  additionalCount : m.additionals.length < 256 ^ 2

theorem places_name {name : Bytes} (h : PacketName name) :
    Places parseName (encodeName name) name := by
  intro front rest
  have hroom : name.length <
      (List.replicate (kMaxNameLength + 1) (0 : UInt8)).length := by
    rw [List.length_replicate]
    exact Nat.lt_succ_of_le h.short
  obtain ⟨out, hread, hcstr⟩ := readName_encoded h.toDottedName h.short front
    rest hroom
  unfold PlacedParser.run parseName encodeName
  rw [hread]
  show (if true = true then _ else _) = _
  rw [if_pos rfl, hcstr]

theorem places_question {q : Question} (h : PacketQuestion q) :
    Places parseQuestion (encodeQuestion q) q := by
  apply (places_name h.name).bind
  apply (places_number h.type).bind
  exact (places_number h.recordClass).last (places_pure q)

theorem places_data {type : Nat} {data : RecordData}
    (h : PacketData type data) :
    Places (parseData type (encodeData data).length) (encodeData data)
      data := by
  cases h with
  | address octets h =>
      apply Places.check h
      exact (places_take h).last (places_pure _)
  | target name h =>
      exact (places_name h).last (places_pure _)
  | next name block types h hblock htypes =>
      apply Places.check rfl
      apply (places_name h).bind
      apply (places_number hblock).bind
      apply (places_number htypes).bind
      exact (places_take rfl).last (places_pure _)

theorem places_record {r : Record} (h : PacketRecord r) :
    Places parseRecord (encodeRecord r) r := by
  apply (places_name h.name).bind
  apply (places_number h.type).bind
  apply (places_number h.recordClass).bind
  apply (places_number h.ttl).bind
  apply (places_number h.dataLength).bind
  exact ((places_data h.data).sized rfl).last (places_pure r)

theorem places_message {m : Message} (h : PacketMessage m) :
    Places parseMessage (encodeMessage m) m := by
  apply (places_number h.id).bind
  apply (places_number h.flags).bind
  apply (places_number h.questionCount).bind
  apply (places_number h.answerCount).bind
  apply (places_number h.authorityCount).bind
  apply (places_number h.additionalCount).bind
  apply (places_many fun q hq => places_question (h.questions q hq)).bind
  apply (places_many fun r hr => places_record (h.answers r hr)).bind
  apply (places_many fun r hr => places_record (h.authorities r hr)).bind
  exact (places_many fun r hr => places_record (h.additionals r hr)).last
    (places_pure m)

end Audiox.Http
