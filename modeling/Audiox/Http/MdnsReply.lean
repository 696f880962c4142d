import Audiox.Http.MdnsWritten
import Mathlib

/-!
# Replies are well formed

The questions of a query decide the records of the reply.  A reply is the
bytes of one message, which parses back, or it is none.
-/

namespace Audiox.Http

open ByteCodec CheckedRead PlacedParser

/-! ## The questions -/

/-- The first values that a parser reads, up to one that it does not. -/
def upTo {α : Type} (p : Parser α) (data : Bytes) : Nat → Nat → List α
  | 0, _ => []
  | count + 1, pos =>
      match run p data pos with
      | none => []
      | some (a, next) => a :: upTo p data count next

/-- A question without the bit that asks for a unicast reply. -/
def Question.stripped (q : Question) : Question :=
  { q with recordClass := q.recordClass &&& 0x7FFF }

/-- The first well-formed questions of a query, at most `kMaxQuestions`. -/
def firstQuestions (query : Bytes) : List Question :=
  upTo parseQuestion query
    (min (beNat ((query.drop 4).take 2)) kMaxQuestions) kHeaderSize

def Question.Internet (q : Question) : Prop :=
  q.stripped.recordClass = kClassIn ∨ q.stripped.recordClass = kClassAny

def AsksAddress (host : Host) (q : Question) : Prop :=
  q.Internet ∧ SameName q.name host.name ∧
    (q.type = kTypeA ∨ q.type = kTypeAny)

def AsksOther (host : Host) (q : Question) : Prop :=
  q.Internet ∧ SameName q.name host.name ∧
    ¬(q.type = kTypeA ∨ q.type = kTypeAny)

def AsksReverse (host : Host) (q : Question) : Prop :=
  q.Internet ∧ SameName q.name host.reverse ∧
    (q.type = kTypePtr ∨ q.type = kTypeAny)

/-- A question for the reverse name, where that is not the host name. -/
def AsksPointer (host : Host) (q : Question) : Prop :=
  ¬SameName q.name host.name ∧ AsksReverse host q

/-- A question that the reply answers. -/
def Matching (host : Host) (q : Question) : Prop :=
  q.Internet ∧ (SameName q.name host.name ∨ AsksReverse host q)

instance (q : Question) : Decidable q.Internet :=
  inferInstanceAs (Decidable (_ ∨ _))

instance (host : Host) (q : Question) : Decidable (AsksAddress host q) :=
  inferInstanceAs (Decidable (_ ∧ _))

instance (host : Host) (q : Question) : Decidable (AsksOther host q) :=
  inferInstanceAs (Decidable (_ ∧ _))

instance (host : Host) (q : Question) : Decidable (AsksReverse host q) :=
  inferInstanceAs (Decidable (_ ∧ _))

instance (host : Host) (q : Question) : Decidable (AsksPointer host q) :=
  inferInstanceAs (Decidable (_ ∧ _))

instance (host : Host) (q : Question) : Decidable (Matching host q) :=
  inferInstanceAs (Decidable (_ ∧ _))

/-- What the loop knows after these questions. -/
structure AskedBy (host : Host) (questions : List Question) (s : Asked) :
    Prop where
  answered : s.answered =
    (questions.filter (Matching host ·)).map Question.stripped
  wantA : s.wantA = true ↔ ∃ q ∈ questions, AsksAddress host q
  wantNsec : s.wantNsec = true ↔ ∃ q ∈ questions, AsksOther host q
  wantPtr : s.wantPtr = true ↔ ∃ q ∈ questions, AsksPointer host q

theorem askedBy_nil (host : Host) : AskedBy host [] {} := by
  constructor <;> simp

/-- One more question, by the branches of the loop. -/
theorem AskedBy.consider {host : Host} {questions : List Question} {s : Asked}
    (hs : AskedBy host questions s) (q : Question) :
    AskedBy host (questions ++ [q])
      (s.consider host q.stripped q.recordClass) := by
  obtain ⟨hanswered, ha, hnsec, hptr⟩ := hs
  have hexists : ∀ P : Question → Prop,
      (∃ q' ∈ questions ++ [q], P q') ↔ (∃ q' ∈ questions, P q') ∨ P q := by
    intro P
    simp [or_and_right, exists_or]
  have hskip : ∀ t : Asked, t = s → ¬AsksAddress host q → ¬AsksOther host q →
      ¬AsksPointer host q → ¬Matching host q →
      AskedBy host (questions ++ [q]) t := by
    rintro t rfl hna hno hnp hnm
    constructor
    · simp [hanswered, hnm]
    · rw [hexists, ha, or_iff_left hna]
    · rw [hexists, hnsec, or_iff_left hno]
    · rw [hexists, hptr, or_iff_left hnp]
  unfold Asked.consider
  split_ifs with hclass hname hreverse
  · have hinternet : ¬q.Internet := by
      rw [Question.Internet, not_or]
      exact hclass
    exact hskip s rfl (fun h => hinternet h.1) (fun h => hinternet h.1)
      (fun h => hinternet h.2.1) (fun h => hinternet h.1)
  · have hinternet : q.Internet := by
      unfold Question.Internet
      by_contra h
      exact hclass (not_or.mp h)
    have hmatch : Matching host q := ⟨hinternet, .inl hname⟩
    have hpointer : ¬AsksPointer host q := fun h => h.1 hname
    have hquestion : ((questions ++ [q]).filter (Matching host ·)).map
        Question.stripped = s.answered ++ [q.stripped] := by
      simp [hanswered, hmatch]
    unfold Asked.hostName
    split_ifs with htype
    · have hasked : AsksAddress host q := ⟨hinternet, hname, htype⟩
      have hother : ¬AsksOther host q := fun h => h.2.2 htype
      constructor
      · exact hquestion.symm
      · rw [hexists]
        exact ⟨fun _ => .inr hasked, fun _ => rfl⟩
      · rw [hexists, or_iff_left hother]
        exact hnsec
      · rw [hexists, or_iff_left hpointer]
        exact hptr
    · have hasked : ¬AsksAddress host q := fun h => htype h.2.2
      have hother : AsksOther host q := ⟨hinternet, hname, htype⟩
      constructor
      · exact hquestion.symm
      · rw [hexists, or_iff_left hasked]
        exact ha
      · rw [hexists]
        exact ⟨fun _ => .inr hother, fun _ => rfl⟩
      · rw [hexists, or_iff_left hpointer]
        exact hptr
  · have hinternet : q.Internet := by
      unfold Question.Internet
      by_contra h
      exact hclass (not_or.mp h)
    have hasked : AsksReverse host q := ⟨hinternet, hreverse⟩
    have hmatch : Matching host q := ⟨hinternet, .inr hasked⟩
    constructor
    · simp [Asked.matched, hanswered, hmatch]
    · rw [hexists, or_iff_left fun h => hname h.2.1]
      exact ha
    · rw [hexists, or_iff_left fun h => hname h.2.1]
      exact hnsec
    · rw [hexists]
      exact ⟨fun _ => .inr ⟨hname, hasked⟩, fun _ => rfl⟩
  · have hnone : ¬AsksReverse host q := fun h => hreverse h.2
    exact hskip s rfl (fun h => hname h.2.1) (fun h => hname h.2.1)
      (fun h => hnone h.2) (fun h => h.2.elim hname hnone)

/-- What the loop knows, as far as the message depends on it. -/
def askedQuestions (host : Host) (questions : List Question) : Asked :=
  { answered := (questions.filter (Matching host ·)).map Question.stripped
    wantA := decide (∃ q ∈ questions, AsksAddress host q)
    wantNsec := decide (∃ q ∈ questions, AsksOther host q)
    wantPtr := decide (∃ q ∈ questions, AsksPointer host q) }

/-! ## What the loop reads -/

theorem readBe_of_le (data : Bytes) (pos n : Nat)
    (h : pos + n ≤ data.length) :
    (readBe data pos n : Read Empty Nat) =
      .ok (beNat ((data.drop pos).take n)) :=
  readBe_eq_ok.mpr ⟨h, rfl⟩

/-- The questions of the loop are those that parse. -/
theorem readQuestions_eq (query : Bytes) (host : Host) (count offset : Nat)
    (s : Asked) :
    readQuestions query host count offset s =
      .ok ((upTo parseQuestion query count offset).foldl
        (fun s q => s.consider host q.stripped q.recordClass) s) := by
  induction count generalizing offset s with
  | zero => rfl
  | succ count ih =>
      obtain ⟨-, hyields⟩ := readName_ends query offset
        (List.replicate (kMaxNameLength + 1) 0)
      obtain ⟨r, hr, -⟩ := hyields.exists_ok
      have hquestion : run parseQuestion query offset =
          (if r.ok then some (cstr r.out, r.offset) else none).bind
            fun name => (run (number 2) query name.2).bind fun type =>
              (run (number 2) query type.2).bind fun recordClass =>
                some ({ name := name.1, type := type.1,
                        recordClass := recordClass.1 }, recordClass.2) := by
        have hname : run parseName query offset =
            if r.ok then some (cstr r.out, r.offset) else none := by
          unfold run parseName
          rw [hr]
        rw [← hname]
        simp only [parseQuestion, run_bind, run_pure]
      rw [readQuestions, hr, ok_bind, upTo, hquestion]
      cases hok : r.ok with
      | false =>
          rw [if_pos (Or.inl rfl)]
          rfl
      | true =>
          by_cases hend : r.offset + 4 > query.length
          · rw [if_pos (Or.inr hend)]
            by_cases htype : r.offset + 2 ≤ query.length
            · have hclass : ¬r.offset + 2 + 2 ≤ query.length := by omega
              rw [if_pos rfl, Option.bind_some, run_number_of_le htype,
                Option.bind_some, run_number_eq_none hclass]
              rfl
            · rw [if_pos rfl, Option.bind_some, run_number_eq_none htype]
              rfl
          · have htype : r.offset + 2 ≤ query.length := by omega
            have hclass : r.offset + 2 + 2 ≤ query.length := by omega
            rw [if_neg (by simp [hend]), readBe_of_le _ _ _ htype, ok_bind,
              readBe_of_le _ _ _ hclass, ok_bind, ih, if_pos rfl, Option.bind_some,
              run_number_of_le htype, Option.bind_some,
              run_number_of_le hclass, Option.bind_some]
            rfl

theorem askedBy_foldl (host : Host) (questions : List Question) :
    AskedBy host questions (questions.foldl
      (fun s q => s.consider host q.stripped q.recordClass) {}) := by
  induction questions using List.reverseRecOn with
  | nil => exact askedBy_nil host
  | append_singleton questions q ih =>
      rw [List.foldl_append]
      exact ih.consider q

/-! ## The reply as a message -/

/-- The record, where it is wanted. -/
def wanted (want : Bool) (r : Record) : List Record :=
  if want then [r] else []

def replyMessage (host : Host) (legacyUnicast : Bool) (id : Nat) (s : Asked) :
    Message :=
  { id
    flags := kFlagResponse ||| kFlagAuthoritative
    questions := if legacyUnicast then s.answered else []
    answers :=
      wanted s.wantA
        (recordA host (replyClass legacyUnicast) (replyTtl legacyUnicast)) ++
      (wanted s.wantNsec
        (recordNsec host (replyClass legacyUnicast)
          (replyTtl legacyUnicast)) ++
      wanted s.wantPtr
        (recordPtr host (replyClass legacyUnicast) (replyTtl legacyUnicast)))
    authorities := []
    additionals :=
      wanted (!s.wantA)
        (recordA host (replyClass legacyUnicast) (replyTtl legacyUnicast)) ++
      wanted (!s.wantNsec)
        (recordNsec host (replyClass legacyUnicast)
          (replyTtl legacyUnicast)) }

theorem AskedBy.replyMessage_eq {host : Host} {questions : List Question}
    {s : Asked} (hs : AskedBy host questions s) (legacyUnicast : Bool)
    (id : Nat) :
    replyMessage host legacyUnicast id s =
      replyMessage host legacyUnicast id (askedQuestions host questions) := by
  have ha : s.wantA = (askedQuestions host questions).wantA :=
    Bool.eq_iff_iff.mpr (hs.wantA.trans decide_eq_true_iff.symm)
  have hnsec : s.wantNsec = (askedQuestions host questions).wantNsec :=
    Bool.eq_iff_iff.mpr (hs.wantNsec.trans decide_eq_true_iff.symm)
  have hptr : s.wantPtr = (askedQuestions host questions).wantPtr :=
    Bool.eq_iff_iff.mpr (hs.wantPtr.trans decide_eq_true_iff.symm)
  have hanswered : s.answered = (askedQuestions host questions).answered :=
    hs.answered
  rw [replyMessage, replyMessage, ha, hnsec, hptr, hanswered]

theorem length_wanted (want : Bool) (r : Record) :
    (wanted want r).length = want.toNat := by
  cases want <;> rfl

theorem flatMap_wanted (want : Bool) (r : Record) :
    (wanted want r).flatMap encodeRecord =
      if want then encodeRecord r else [] := by
  cases want <;> simp [wanted]

theorem wrote_counts (w : Writer) (a b c d e f : Nat) :
    Wrote w ((((((w.u16 a).u16 b).u16 c).u16 d).u16 e).u16 f)
      (beBytes 2 a ++ (beBytes 2 b ++ (beBytes 2 c ++ (beBytes 2 d ++
        (beBytes 2 e ++ beBytes 2 f))))) := by
  have h := (((((wrote_u16 w a).trans (wrote_u16 _ b)).trans
    (wrote_u16 _ c)).trans (wrote_u16 _ d)).trans (wrote_u16 _ e)).trans
    (wrote_u16 _ f)
  simp only [List.append_assoc] at h
  exact h

section Reply

variable (host : Host) (legacyUnicast : Bool) (s : Asked)

theorem wrote_header (w : Writer) (id : Nat) :
    Wrote w (writeHeader w id legacyUnicast s)
      (beBytes 2 id ++
        (beBytes 2 (kFlagResponse ||| kFlagAuthoritative) ++
        (beBytes 2 (if legacyUnicast then s.answered.length else 0) ++
        (beBytes 2 (s.wantA.toNat + s.wantNsec.toNat + s.wantPtr.toNat) ++
        (beBytes 2 0 ++
          beBytes 2 ((!s.wantA).toNat + (!s.wantNsec).toNat)))))) := by
  exact wrote_counts w _ _ _ _ _ _

theorem wrote_records (hname : DottedName host.name) (w : Writer)
    (recordClass ttl : Nat) :
    Wrote w (writeRecords w host s recordClass ttl)
      (((wanted s.wantA (recordA host recordClass ttl) ++
        (wanted s.wantNsec (recordNsec host recordClass ttl) ++
          wanted s.wantPtr (recordPtr host recordClass ttl))) ++
        (wanted (!s.wantA) (recordA host recordClass ttl) ++
          wanted (!s.wantNsec) (recordNsec host recordClass ttl))).flatMap
            encodeRecord) := by
  have ha := fun w => wrote_a w hname recordClass ttl
  have hnsec := fun w => wrote_nsec w hname recordClass ttl
  have hptr := fun w => wrote_ptr w hname recordClass ttl
  have h := ((((Wrote.when ha s.wantA).trans (Wrote.when hnsec s.wantNsec)).trans
    (Wrote.when hptr s.wantPtr)).trans (Wrote.when ha (!s.wantA))).trans
    (Wrote.when hnsec (!s.wantNsec)) (w := w)
  simp only [List.append_assoc] at h
  simp only [List.flatMap_append, flatMap_wanted, List.append_assoc]
  exact h

theorem wrote_reply (hname : DottedName host.name)
    (hanswered : ∀ q ∈ s.answered, DottedName q.name) (capacity id : Nat) :
    Wrote (Writer.start capacity)
      (writeReply host legacyUnicast capacity id s)
      (encodeMessage (replyMessage host legacyUnicast id s)) := by
  have hquestions := Wrote.when
    (w := writeHeader (Writer.start capacity) id legacyUnicast s)
    (fun w => wrote_questions w hanswered) legacyUnicast
  have h := ((wrote_header legacyUnicast s (Writer.start capacity) id).trans
    hquestions).trans (wrote_records host s hname _ (replyClass legacyUnicast)
      (replyTtl legacyUnicast))
  have hcount : (if legacyUnicast then s.answered else []).length =
      if legacyUnicast then s.answered.length else 0 := by
    cases legacyUnicast <;> rfl
  have hechoed : (if legacyUnicast then s.answered else []).flatMap
      encodeQuestion =
        if legacyUnicast then s.answered.flatMap encodeQuestion else [] := by
    cases legacyUnicast <;> rfl
  rw [List.flatMap_append] at h
  simp only [List.append_assoc] at h
  unfold encodeMessage replyMessage
  simp only [List.length_append, length_wanted, hcount, hechoed,
    List.flatMap_nil, List.nil_append, List.length_nil, ← Nat.add_assoc]
  exact h

end Reply

/-! ## The message of a reply -/

theorem length_encodeLabels (labels : List Bytes) :
    (encodeLabels labels).length = (dottedTail labels).length + 1 := by
  induction labels with
  | nil => rfl
  | cons label labels ih =>
      simp only [encodeLabels, dottedTail, List.flatMap_cons, List.length_cons,
        List.length_append] at ih ⊢
      omega

theorem PacketName.length_encodeName {name : Bytes} (h : PacketName name) :
    (encodeName name).length ≤ 257 := by
  have hshort := h.short
  have hjoin := congrArg List.length (eq_append_dottedTail h.noTrailingDot)
  rw [kMaxNameLength] at hshort
  rw [encodeName, length_encodeLabels]
  cases hlabels : labelsOf name with
  | nil => simp [dottedTail]
  | cons label labels =>
      rw [hlabels] at hjoin
      simp only [dottedTail, List.headD_cons, List.tail_cons,
        List.flatMap_cons, List.length_cons, List.length_append] at hjoin ⊢
      omega

section Message

variable {host : Host} (hname : PacketName host.name) {recordClass ttl : Nat}
  (hclass : recordClass < 256 ^ 2) (httl : ttl < 256 ^ 4)
include hname hclass httl

theorem packetRecord_a : PacketRecord (recordA host recordClass ttl) := by
  have htype : kTypeA < 256 ^ 2 := by decide
  have hlength : 4 < 256 ^ 2 := by decide
  exact ⟨hname, htype, hclass, httl, .address _ rfl, hlength⟩

theorem packetRecord_nsec : PacketRecord (recordNsec host recordClass ttl) := by
  have htype : kTypeNsec < 256 ^ 2 := by decide
  refine ⟨hname, htype, hclass, httl, .next _ _ _ hname (by decide)
    (by decide), ?_⟩
  have hlength := hname.length_encodeName
  simp only [recordNsec, encodeData, List.length_append, length_beBytes,
    List.length_cons, List.length_nil]
  omega

theorem packetRecord_ptr : PacketRecord (recordPtr host recordClass ttl) := by
  have htype : kTypePtr < 256 ^ 2 := by decide
  refine ⟨packetName_reverse host, htype, hclass, httl, .target _ hname, ?_⟩
  have hlength := hname.length_encodeName
  simp only [recordPtr, encodeData]
  omega

end Message

theorem countP_wanted (p : Record → Bool) (want : Bool) (r : Record) :
    (wanted want r).countP p = (want && p r).toNat := by
  cases want <;> simp [wanted, List.countP_cons, Bool.toNat]

theorem mem_wanted {want : Bool} {r r' : Record} :
    r' ∈ wanted want r ↔ want = true ∧ r' = r := by
  cases want <;> simp [wanted]

/-- The message of a reply is one that a packet can hold. -/
theorem packetMessage_reply {host : Host} (hname : PacketName host.name)
    (legacyUnicast : Bool) {id : Nat} (hid : id < 256 ^ 2) {s : Asked}
    (hanswered : ∀ q ∈ s.answered, PacketQuestion q)
    (hcount : s.answered.length ≤ kMaxQuestions) :
    PacketMessage (replyMessage host legacyUnicast id s) := by
  have hclass : replyClass legacyUnicast < 256 ^ 2 := by
    cases legacyUnicast <;> decide
  have httl : replyTtl legacyUnicast < 256 ^ 4 := by
    cases legacyUnicast <;> decide
  have ha := packetRecord_a hname hclass httl
  have hnsec := packetRecord_nsec hname hclass httl
  have hptr := packetRecord_ptr hname hclass httl
  have hbool : ∀ b : Bool, b.toNat ≤ 1 := Bool.toNat_le
  have hflags : kFlagResponse ||| kFlagAuthoritative < 256 ^ 2 := by decide
  constructor
  · exact hid
  · exact hflags
  · intro q hq
    cases legacyUnicast with
    | true => exact hanswered q hq
    | false => simp [replyMessage] at hq
  · intro r hr
    simp only [replyMessage, List.mem_append, mem_wanted] at hr
    rcases hr with ⟨-, rfl⟩ | ⟨-, rfl⟩ | ⟨-, rfl⟩
    · exact ha
    · exact hnsec
    · exact hptr
  · simp [replyMessage]
  · intro r hr
    simp only [replyMessage, List.mem_append, mem_wanted] at hr
    rcases hr with ⟨-, rfl⟩ | ⟨-, rfl⟩
    · exact ha
    · exact hnsec
  · rw [kMaxQuestions] at hcount
    cases legacyUnicast with
    | true =>
        simp only [replyMessage, if_true]
        omega
    | false => simp [replyMessage]
  · have h1 := hbool s.wantA
    have h2 := hbool s.wantNsec
    have h3 := hbool s.wantPtr
    simp only [replyMessage, List.length_append, length_wanted]
    omega
  · simp [replyMessage]
  · have h1 := hbool (!s.wantA)
    have h2 := hbool (!s.wantNsec)
    simp only [replyMessage, List.length_append, length_wanted]
    omega

/-! ## Well-formed replies -/

/-- The message answers the questions of the query. -/
structure Answers (query : Bytes) (host : Host) (legacyUnicast : Bool)
    (pointerAsked : Prop) (m : Message) : Prop where
  address : (∃ r ∈ m.answers, r.type = kTypeA) ↔
    ∃ q ∈ firstQuestions query, AsksAddress host q
  other : (∃ r ∈ m.answers, r.type = kTypeNsec) ↔
    ∃ q ∈ firstQuestions query, AsksOther host q
  pointer : (∃ r ∈ m.answers ++ m.additionals, r.type = kTypePtr) ↔
    pointerAsked
  addressOnce :
    ((m.answers ++ m.additionals).countP (·.type = kTypeA)) = 1
  otherOnce :
    ((m.answers ++ m.additionals).countP (·.type = kTypeNsec)) = 1
  authorities : m.authorities = []
  data : ∀ r ∈ m.answers ++ m.additionals,
    r = recordA host (replyClass legacyUnicast) (replyTtl legacyUnicast) ∨
    r = recordNsec host (replyClass legacyUnicast) (replyTtl legacyUnicast) ∨
    r = recordPtr host (replyClass legacyUnicast) (replyTtl legacyUnicast)
  echoed : legacyUnicast = true → m.id = beNat (query.take 2) ∧
    m.questions = ((firstQuestions query).filter (Matching host ·)).map
      Question.stripped
  notEchoed : legacyUnicast = false → m.id = 0 ∧ m.questions = []

/-- There is no reply, or one that is the bytes of a message. -/
def RepliesWell (query : Bytes) (host : Host) (legacyUnicast : Bool)
    (capacity : Nat) (pointerAsked : Prop) : Prop :=
  ∃ reply out, buildReply query host legacyUnicast capacity =
      .ok (reply, out) ∧
    (reply.length = 0 ∨
      (reply.length ≤ capacity ∧ reply.length ≤ out.length ∧
        ∃ m, whole parseMessage (out.take reply.length) = some m ∧
          Answers query host legacyUnicast pointerAsked m))

def replyIdOf (query : Bytes) (legacyUnicast : Bool) : Nat :=
  if legacyUnicast then beNat (query.take 2) else 0

theorem answers_reply {query : Bytes} {host : Host} {s : Asked}
    (hs : AskedBy host (firstQuestions query) s) (legacyUnicast : Bool) :
    Answers query host legacyUnicast
      (∃ q ∈ firstQuestions query, AsksPointer host q)
      (replyMessage host legacyUnicast (replyIdOf query legacyUnicast)
        s) := by
  have hptr : kTypePtr ≠ kTypeA ∧ kTypePtr ≠ kTypeNsec := by decide
  have hnsec : kTypeNsec ≠ kTypeA := by decide
  have hboth : ∀ b : Bool, b.toNat + (!b).toNat = 1 := by decide
  have hexists : ∀ (want : Bool) (r : Record) (type : Nat),
      (∃ r' ∈ wanted want r, r'.type = type) ↔ want = true ∧ r.type = type := by
    intro want r type
    simp only [mem_wanted]
    constructor
    · rintro ⟨r', ⟨hwant, rfl⟩, htype⟩
      exact ⟨hwant, htype⟩
    · rintro ⟨hwant, htype⟩
      exact ⟨r, ⟨hwant, rfl⟩, htype⟩
  constructor
  · rw [← hs.wantA]
    simp [replyMessage, or_and_right, exists_or, hexists, recordA, recordNsec,
      recordPtr, hptr, hnsec]
  · rw [← hs.wantNsec]
    simp [replyMessage, or_and_right, exists_or, hexists, recordA, recordNsec,
      recordPtr, hptr, hnsec.symm]
  · rw [← hs.wantPtr]
    simp [replyMessage, or_and_right, exists_or, hexists, recordA, recordNsec,
      recordPtr, hptr.1.symm, hptr.2.symm]
  · have honce := hboth s.wantA
    simpa [replyMessage, countP_wanted, recordA, recordNsec, recordPtr, hptr,
      hnsec] using honce
  · have honce := hboth s.wantNsec
    simpa [replyMessage, countP_wanted, recordA, recordNsec, recordPtr, hptr,
      hnsec.symm] using honce
  · rfl
  · intro r hr
    simp only [replyMessage, List.mem_append, mem_wanted] at hr
    tauto
  · rintro rfl
    exact ⟨rfl, hs.answered⟩
  · rintro rfl
    exact ⟨rfl, rfl⟩

theorem mem_upTo {α : Type} {p : Parser α} {P : α → Prop} (hp : Ensures p P)
    (data : Bytes) (count pos : Nat) : ∀ a ∈ upTo p data count pos, P a := by
  induction count generalizing pos with
  | zero => simp [upTo]
  | succ count ih =>
      rw [upTo]
      cases hrun : run p data pos with
      | none => simp
      | some result =>
          rw [List.forall_mem_cons]
          exact ⟨hp data pos result.1 result.2 hrun, ih result.2⟩

theorem length_upTo_le {α : Type} (p : Parser α) (data : Bytes)
    (count pos : Nat) : (upTo p data count pos).length ≤ count := by
  induction count generalizing pos with
  | zero => exact le_refl 0
  | succ count ih =>
      rw [upTo]
      cases run p data pos with
      | none => exact Nat.zero_le _
      | some result => exact Nat.succ_le_succ (ih result.2)

theorem ensures_questionType :
    Ensures parseQuestion fun q => q.type < 256 ^ 2 := by
  refine (ensures_any parseName).bind fun name _ => ?_
  refine (ensures_number 2).bind fun type htype => ?_
  refine (ensures_any (number 2)).bind fun recordClass _ => ?_
  exact ensures_pure htype

/-- Every question that is echoed can be written. -/
theorem packetQuestion_stripped {query : Bytes} {host : Host}
    (hname : PacketName host.name) {q : Question}
    (hq : q ∈ firstQuestions query) (hmatch : Matching host q) :
    PacketQuestion q.stripped := by
  have hclass : q.stripped.recordClass ≤ 0x7FFF := Nat.and_le_right
  constructor
  · rcases hmatch.2 with hsame | hreverse
    · exact hname.sameName hsame
    · exact (packetName_reverse host).sameName hreverse.2.1
  · exact mem_upTo ensures_questionType _ _ _ q hq
  · exact lt_of_le_of_lt hclass (by decide)

/-- The responder answers the query, if its buffer has room. -/
structure Answerable (query : Bytes) (host : Host) : Prop where
  header : kHeaderSize ≤ query.length
  standard : ¬(beNat ((query.drop 2).take 2) &&& kFlagResponse ≠ 0 ∨
    (beNat ((query.drop 2).take 2) >>> 11) &&& 0xF ≠ 0)
  asked : ∃ q ∈ firstQuestions query, Matching host q

/-- There is no reply, or one to the first well-formed questions. -/
theorem buildReply_cases (query : Bytes) (host : Host) (legacyUnicast : Bool)
    (capacity : Nat) :
    (¬Answerable query host ∧
      buildReply query host legacyUnicast capacity = .ok ({}, [])) ∨
    ∃ s, AskedBy host (firstQuestions query) s ∧
      buildReply query host legacyUnicast capacity =
        .ok (sendReply legacyUnicast s
          (writeReply host legacyUnicast capacity
            (replyIdOf query legacyUnicast) s)) := by
  by_cases hshort : query.length < kHeaderSize
  · left
    rw [buildReply, if_pos hshort]
    exact ⟨fun h => absurd h.header (not_le.mpr hshort), rfl⟩
  have hheader : kHeaderSize = 12 := rfl
  have hflags := readBe_of_le query 2 2 (by omega)
  have hcount := readBe_of_le query 4 2 (by omega)
  have hid : replyId query legacyUnicast =
      .ok (replyIdOf query legacyUnicast) := by
    cases legacyUnicast with
    | true => exact readBe_of_le query 0 2 (by omega)
    | false => rfl
  have hasked := askedBy_foldl host (firstQuestions query)
  have hquestions := readQuestions_eq query host
    (min (beNat ((query.drop 4).take 2)) kMaxQuestions) kHeaderSize {}
  rw [← firstQuestions] at hquestions
  rw [buildReply, if_neg hshort, hflags, ok_bind]
  split_ifs with hignored
  · exact .inl ⟨fun h => h.standard hignored, rfl⟩
  · rw [hcount, ok_bind, hquestions, ok_bind, hid, ok_bind]
    split_ifs with hempty
    · refine .inl ⟨?_, rfl⟩
      intro h
      obtain ⟨q, hq, hmatch⟩ := h.asked
      have hnone := List.length_eq_zero_iff.mp hempty
      rw [hasked.answered, List.map_eq_nil_iff] at hnone
      have hmem : q ∈ (firstQuestions query).filter (Matching host ·) :=
        List.mem_filter.mpr ⟨hq, decide_eq_true hmatch⟩
      rw [hnone] at hmem
      cases hmem
    · exact .inr ⟨_, hasked, rfl⟩

theorem AskedBy.packetQuestion {query : Bytes} {host : Host} {s : Asked}
    (hs : AskedBy host (firstQuestions query) s)
    (hname : PacketName host.name) :
    (∀ q ∈ s.answered, PacketQuestion q) ∧
      s.answered.length ≤ kMaxQuestions := by
  rw [hs.answered]
  constructor
  · intro q hq
    rw [List.mem_map] at hq
    obtain ⟨q', hq', rfl⟩ := hq
    obtain ⟨hmem, hmatch⟩ := List.mem_filter.mp hq'
    exact packetQuestion_stripped hname hmem (of_decide_eq_true hmatch)
  · rw [List.length_map]
    apply (List.length_filter_le _ _).trans
    apply (length_upTo_le _ _ _ _).trans
    exact min_le_right _ _

/-- A reply that was written without an overflow is its message. -/
theorem repliesWell_of_message {query : Bytes} {host : Host}
    {legacyUnicast : Bool} {capacity id : Nat} {s : Asked}
    {pointerAsked : Prop} (hname : PacketName host.name)
    (hreply : buildReply query host legacyUnicast capacity =
      .ok (sendReply legacyUnicast s
        (writeReply host legacyUnicast capacity id s)))
    (hanswered : ∀ q ∈ s.answered, DottedName q.name)
    (hmessage : PacketMessage (replyMessage host legacyUnicast id s))
    (hanswers : Answers query host legacyUnicast pointerAsked
      (replyMessage host legacyUnicast id s)) :
    RepliesWell query host legacyUnicast capacity pointerAsked := by
  have hwrote := wrote_reply host legacyUnicast s hname.toDottedName hanswered
    capacity id
  generalize writeReply host legacyUnicast capacity id s = w at hreply hwrote
  by_cases hok : w.ok = true
  · obtain ⟨-, hcapacity, hout⟩ := hwrote.kept hok
    have hfits := w.fits
    rw [sendReply, if_pos hok] at hreply
    refine ⟨_, _, hreply, .inr ⟨?_, le_refl _, _, ?_, hanswers⟩⟩
    · rw [hcapacity] at hfits
      exact hfits
    · show whole parseMessage (w.out.take w.out.length) = _
      rw [List.take_length, hout]
      exact (places_message hmessage).whole
  · rw [sendReply, if_neg hok] at hreply
    exact ⟨_, _, hreply, .inl rfl⟩

/-- Every reply of a host whose name a packet can hold is well formed. -/
theorem buildReply_wellFormed (query : Bytes) (host : Host)
    (legacyUnicast : Bool) (capacity : Nat) (hname : PacketName host.name) :
    RepliesWell query host legacyUnicast capacity
      (∃ q ∈ firstQuestions query, AsksPointer host q) := by
  rcases buildReply_cases query host legacyUnicast capacity with
    ⟨-, hnone⟩ | ⟨s, hs, hreply⟩
  · exact ⟨{}, [], hnone, .inl rfl⟩
  · obtain ⟨hanswered, hcount⟩ := hs.packetQuestion hname
    have hid : replyIdOf query legacyUnicast < 256 ^ 2 := by
      have hlt := beNat_lt (query.take 2)
      have hle : 256 ^ (query.take 2).length ≤ 256 ^ 2 :=
        Nat.pow_le_pow_right (by decide) (List.length_take_le 2 query)
      unfold replyIdOf
      split_ifs
      · exact lt_of_lt_of_le hlt hle
      · decide
    exact repliesWell_of_message hname hreply
      (fun q hq => (hanswered q hq).name.toDottedName)
      (packetMessage_reply hname legacyUnicast hid hanswered hcount)
      (answers_reply hs legacyUnicast)

/-- A query for the pointer of the loopback address. -/
def reverseQuery : Bytes :=
  [0, 7, 0, 0, 0, 1, 0, 0, 0, 0, 0, 0] ++
    encodeQuestion {
      name := ascii "1.0.0.127.in-addr.arpa"
      type := kTypePtr
      recordClass := kClassIn }

def loopbackHost (name : Bytes) : Host :=
  { name, address := ⟨127, 0, 0, 1⟩ }

theorem firstQuestions_reverseQuery :
    firstQuestions reverseQuery =
      [{ name := ascii "1.0.0.127.in-addr.arpa", type := kTypePtr
         recordClass := kClassIn }] := by
  decide +kernel

theorem buildReply_wellFormed_local :
    RepliesWell reverseQuery (loopbackHost (ascii "audiox.local")) true 1500
      (∃ q ∈ firstQuestions reverseQuery,
        AsksPointer (loopbackHost (ascii "audiox.local")) q) :=
  buildReply_wellFormed reverseQuery (loopbackHost (ascii "audiox.local")) true
    1500 ⟨⟨by decide, by decide, by decide⟩, by decide⟩

/-! ## Hosts without such a name -/

/-- An answerable query has a reply where its message fits. -/
theorem buildReply_sent (query : Bytes) (host : Host) (legacyUnicast : Bool)
    (capacity : Nat) (hname : DottedName host.name)
    (hanswerable : Answerable query host)
    (hnames : ∀ q ∈ firstQuestions query, DottedName q.name)
    (hroom : ∀ s, AskedBy host (firstQuestions query) s →
      (encodeMessage (replyMessage host legacyUnicast
        (replyIdOf query legacyUnicast) s)).length ≤ capacity) :
    ∃ reply out, buildReply query host legacyUnicast capacity =
        .ok (reply, out) ∧ reply.length ≠ 0 := by
  rcases buildReply_cases query host legacyUnicast capacity with
    ⟨hnot, -⟩ | ⟨s, hs, hreply⟩
  · exact absurd hanswerable hnot
  · have hanswered : ∀ q ∈ s.answered, DottedName q.name := by
      intro q hq
      rw [hs.answered, List.mem_map] at hq
      obtain ⟨q', hq', rfl⟩ := hq
      exact hnames q' (List.mem_filter.mp hq').1
    have hwrote := wrote_reply host legacyUnicast s hname hanswered capacity
      (replyIdOf query legacyUnicast)
    have hfits := hroom s hs
    have hok := hwrote.fits rfl (by simpa [Writer.start] using hfits)
    obtain ⟨-, -, hout⟩ := hwrote.kept hok
    rw [sendReply, if_pos hok] at hreply
    refine ⟨_, _, hreply, ?_⟩
    show (writeReply host legacyUnicast capacity _ s).out.length ≠ 0
    rw [hout]
    simp only [encodeMessage, List.length_append, length_beBytes]
    omega

/-- A reply that is sent has one message. -/
theorem RepliesWell.exists_answers {query : Bytes} {host : Host}
    {legacyUnicast : Bool} {capacity : Nat} {pointerAsked : Prop}
    (h : RepliesWell query host legacyUnicast capacity pointerAsked)
    {reply : Reply} {out : Bytes}
    (hreply : buildReply query host legacyUnicast capacity = .ok (reply, out))
    (hsent : reply.length ≠ 0) :
    ∃ m, whole parseMessage (out.take reply.length) = some m ∧
      Answers query host legacyUnicast pointerAsked m := by
  obtain ⟨reply', out', hreply', h⟩ := h
  rw [hreply, Except.ok.injEq, Prod.mk.injEq] at hreply'
  obtain ⟨rfl, rfl⟩ := hreply'
  rcases h with hnone | ⟨-, -, hmessage⟩
  · exact absurd hnone hsent
  · exact hmessage

theorem ensures_nameLength :
    Ensures parseName fun name => name.length ≤ kMaxNameLength + 1 := by
  intro data pos name next hrun
  obtain ⟨-, hyields⟩ := readName_ends data pos
    (List.replicate (kMaxNameLength + 1) 0)
  obtain ⟨r, hr, hresult⟩ := hyields.exists_ok
  unfold run parseName at hrun
  rw [hr] at hrun
  simp only at hrun
  split_ifs at hrun
  rw [Option.some.injEq, Prod.mk.injEq] at hrun
  obtain ⟨rfl, -⟩ := hrun
  have hlength := hresult.length
  rw [List.length_replicate] at hlength
  rw [← hlength]
  exact (List.takeWhile_sublist _).length_le

theorem ensures_recordName :
    Ensures parseRecord fun r => r.name.length ≤ kMaxNameLength + 1 := by
  refine ensures_nameLength.bind fun name hname => ?_
  refine (ensures_any (number 2)).bind fun type _ => ?_
  refine (ensures_any (number 2)).bind fun recordClass _ => ?_
  refine (ensures_any (number 4)).bind fun ttl _ => ?_
  refine (ensures_any (number 2)).bind fun dataLength _ => ?_
  refine (ensures_any (sized _ _)).bind fun data _ => ?_
  exact ensures_pure hname

theorem ensures_recordNames :
    Ensures parseMessage fun m => ∀ r ∈ m.answers ++ m.additionals,
      r.name.length ≤ kMaxNameLength + 1 := by
  refine (ensures_any (number 2)).bind fun id _ => ?_
  refine (ensures_any (number 2)).bind fun flags _ => ?_
  refine (ensures_any (number 2)).bind fun questionCount _ => ?_
  refine (ensures_any (number 2)).bind fun answerCount _ => ?_
  refine (ensures_any (number 2)).bind fun authorityCount _ => ?_
  refine (ensures_any (number 2)).bind fun additionalCount _ => ?_
  refine (ensures_any (many _ _)).bind fun questions _ => ?_
  refine (ensures_many ensures_recordName _).bind fun answers hanswers => ?_
  refine (ensures_any (many _ _)).bind fun authorities _ => ?_
  refine (ensures_many ensures_recordName _).bind
    fun additionals hadditionals => ?_
  apply ensures_pure
  intro r hr
  rcases List.mem_append.mp hr with hr | hr
  · exact hanswers r hr
  · exact hadditionals r hr

/-- A name of good labels that is longer than a packet can hold. -/
def longName : Bytes :=
  (List.replicate 4 (List.replicate 63 (chr 'a') ++ [dot])).flatten ++ [chr 'a']

/-- With any name of good labels, the pointer would be missing where the name
is the reverse one, and a name that is too long would not be read. -/
theorem buildReply_not_wellFormed :
    (DottedName (loopbackHost (ascii "1.0.0.127.in-addr.arpa")).name ∧
      ¬RepliesWell reverseQuery
        (loopbackHost (ascii "1.0.0.127.in-addr.arpa")) true 1500
        (∃ q ∈ firstQuestions reverseQuery,
          AsksReverse (loopbackHost (ascii "1.0.0.127.in-addr.arpa")) q)) ∧
    (DottedName (loopbackHost longName).name ∧
      ¬RepliesWell reverseQuery (loopbackHost longName) true 1500
        (∃ q ∈ firstQuestions reverseQuery,
          AsksReverse (loopbackHost longName) q)) := by
  have hnames : ∀ q ∈ firstQuestions reverseQuery, DottedName q.name := by
    rw [firstQuestions_reverseQuery, List.forall_mem_singleton]
    exact ⟨by decide, by decide, by decide⟩
  have hreverse : DottedName (ascii "1.0.0.127.in-addr.arpa") :=
    ⟨by decide, by decide, by decide⟩
  have hlong : DottedName longName :=
    ⟨by decide, by decide, by decide⟩
  refine ⟨⟨hreverse, ?_⟩, ⟨hlong, ?_⟩⟩
  · intro h
    obtain ⟨reply, out, hreply, hsent⟩ := buildReply_sent reverseQuery
      (loopbackHost (ascii "1.0.0.127.in-addr.arpa")) true 1500 hreverse
      ⟨by decide, by decide, by
        rw [firstQuestions_reverseQuery]
        decide⟩
      hnames (by
        intro s hs
        rw [hs.replyMessage_eq, firstQuestions_reverseQuery]
        decide +kernel)
    obtain ⟨m, hm, hanswers⟩ := h.exists_answers hreply hsent
    obtain ⟨m', hm', hanswers'⟩ := (buildReply_wellFormed reverseQuery
      (loopbackHost (ascii "1.0.0.127.in-addr.arpa")) true 1500
      ⟨hreverse, by decide⟩).exists_answers hreply hsent
    rw [hm, Option.some.injEq] at hm'
    rw [← hm'] at hanswers'
    have hiff := hanswers.pointer.symm.trans hanswers'.pointer
    rw [firstQuestions_reverseQuery] at hiff
    revert hiff
    decide
  · intro h
    obtain ⟨reply, out, hreply, hsent⟩ := buildReply_sent reverseQuery
      (loopbackHost longName) true 1500 hlong
      ⟨by decide, by decide, by
        rw [firstQuestions_reverseQuery]
        decide⟩
      hnames (by
        intro s hs
        rw [hs.replyMessage_eq, firstQuestions_reverseQuery]
        decide +kernel)
    obtain ⟨m, hm, hanswers⟩ := h.exists_answers hreply hsent
    have hpos : 0 < (m.answers ++ m.additionals).countP (·.type = kTypeA) := by
      rw [hanswers.addressOnce]
      exact Nat.one_pos
    obtain ⟨r, hr, htype⟩ := List.countP_pos_iff.mp hpos
    have hlength := ensures_recordNames.whole hm r hr
    have hname : r.name = longName := by
      rcases hanswers.data r hr with rfl | rfl | rfl
      · rfl
      · rfl
      · revert htype
        decide
    rw [hname] at hlength
    revert hlength
    decide +kernel

end Audiox.Http
