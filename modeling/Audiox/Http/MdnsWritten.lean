import Audiox.Http.MdnsMessage
import Mathlib

/-!
# What the responder writes

Names that compare equal have labels of the same lengths.  The records, the
questions and the header that are written are those of a message.
-/

namespace Audiox.Http

open ByteCodec CheckedRead

/-! ## Names that compare equal -/

theorem toLower_eq_dot (c : UInt8) : toLower c = dot ↔ c = dot := by
  have hcodes : ∀ n < 256,
      toLower (UInt8.ofNat n) = dot ↔ UInt8.ofNat n = dot := by
    decide +kernel
  have h := hcodes c.toNat c.toNat_lt
  rwa [UInt8.ofNat_toNat] at h

theorem toLower_eq_zero (c : UInt8) : toLower c = 0 ↔ c = 0 := by
  have hcodes : ∀ n < 256,
      toLower (UInt8.ofNat n) = 0 ↔ UInt8.ofNat n = 0 := by
    decide +kernel
  have h := hcodes c.toNat c.toNat_lt
  rwa [UInt8.ofNat_toNat] at h

theorem labelsOf_map_toLower (name : Bytes) :
    labelsOf (name.map toLower) = (labelsOf name).map (·.map toLower) := by
  induction name with
  | nil => rfl
  | cons c rest ih =>
      rw [List.map_cons]
      by_cases hc : c = dot
      · have hlower : toLower c = dot := (toLower_eq_dot c).mpr hc
        rw [hlower, labelsOf_cons_dot, hc, labelsOf_cons_dot, ih]
        rfl
      · have hlower : toLower c ≠ dot := mt (toLower_eq_dot c).mp hc
        rw [labelsOf_cons hlower, labelsOf_cons hc, ih]
        cases labelsOf rest with
        | nil => rfl
        | cons label labels => rfl

theorem dottedName_map_toLower (name : Bytes) :
    DottedName (name.map toLower) ↔ DottedName name := by
  have hnul : 0 ∈ name.map toLower ↔ 0 ∈ name := by
    simp only [List.mem_map, toLower_eq_zero, exists_eq_right]
  have hlast : (name.map toLower).getLast? = some dot ↔
      name.getLast? = some dot := by
    rw [List.getLast?_map, Option.map_eq_some_iff]
    simp only [toLower_eq_dot, exists_eq_right]
  constructor
  · intro h
    refine ⟨mt hnul.mpr h.noNul, mt hlast.mpr h.noTrailingDot, ?_⟩
    intro label hlabel
    have hmap : label.map toLower ∈ labelsOf (name.map toLower) := by
      rw [labelsOf_map_toLower]
      exact List.mem_map_of_mem hlabel
    simpa using h.lengths _ hmap
  · intro h
    refine ⟨mt hnul.mp h.noNul, mt hlast.mp h.noTrailingDot, ?_⟩
    intro label hlabel
    rw [labelsOf_map_toLower, List.mem_map] at hlabel
    obtain ⟨label', hlabel', rfl⟩ := hlabel
    simpa using h.lengths label' hlabel'

theorem PacketName.sameName {name other : Bytes} (h : PacketName name)
    (hsame : SameName other name) : PacketName other := by
  have hlower : DottedName (other.map toLower) := by
    rw [hsame]
    exact (dottedName_map_toLower name).mpr h.toDottedName
  refine ⟨(dottedName_map_toLower other).mp hlower, ?_⟩
  have hlength := congrArg List.length hsame
  rw [List.length_map, List.length_map] at hlength
  rw [hlength]
  exact h.short

/-! ## The reverse name -/

theorem labelsOf_append_dot {label : Bytes} (hlabel : dot ∉ label)
    (rest : Bytes) :
    labelsOf (label ++ dot :: rest) = label :: labelsOf rest := by
  induction label with
  | nil => exact labelsOf_cons_dot rest
  | cons c label ih =>
      rw [List.mem_cons, not_or] at hlabel
      rw [List.cons_append, labelsOf_cons (Ne.symm hlabel.1), ih hlabel.2]
      rfl

theorem isDigit_ne {c : UInt8} (h : isDigit c = true) : c ≠ dot ∧ c ≠ 0 := by
  constructor
  · rintro rfl
    revert h
    decide
  · rintro rfl
    revert h
    decide

/-- A number in front of a name is a label of it. -/
theorem DottedName.number {name : Bytes} (h : DottedName name)
    (hname : name ≠ []) (octet : UInt8) :
    DottedName (showDecimal octet.toNat ++ dot :: name) := by
  have hdigits : ∀ c ∈ showDecimal octet.toNat, c ≠ dot ∧ c ≠ 0 :=
    fun c hc => isDigit_ne (isDigit_of_mem_showDecimal hc)
  have hlength : (showDecimal octet.toNat).length ≤ 3 :=
    length_showDecimal_le (by decide) (lt_trans octet.toNat_lt (by decide))
  have hpos : 1 ≤ (showDecimal octet.toNat).length :=
    List.length_pos_iff.mpr (showDecimal_ne_nil _)
  constructor
  · rw [List.mem_append, List.mem_cons, not_or, not_or]
    exact ⟨fun hc => (hdigits 0 hc).2 rfl, by decide, h.noNul⟩
  · rw [List.getLast?_append_of_ne_nil _ (by simp),
      List.getLast?_cons_of_ne_nil hname]
    exact h.noTrailingDot
  · rw [labelsOf_append_dot fun hc => (hdigits dot hc).1 rfl]
    rw [List.forall_mem_cons]
    exact ⟨⟨hpos, by omega⟩, h.lengths⟩

theorem packetName_reverse (host : Host) : PacketName host.reverse := by
  have hlength : ∀ octet : UInt8, (showDecimal octet.toNat).length ≤ 3 :=
    fun octet => length_showDecimal_le (by decide)
      (lt_trans octet.toNat_lt (by decide))
  have h1 := hlength host.address.first
  have h2 := hlength host.address.second
  have h3 := hlength host.address.third
  have h4 := hlength host.address.fourth
  have hdot : ascii "." = [dot] := by decide
  have harpa : ascii ".in-addr.arpa" = dot :: ascii "in-addr.arpa" := by decide
  have hwhole : host.reverse =
      showDecimal host.address.fourth.toNat ++ dot ::
        (showDecimal host.address.third.toNat ++ dot ::
          (showDecimal host.address.second.toNat ++ dot ::
            (showDecimal host.address.first.toNat ++ dot ::
              ascii "in-addr.arpa"))) := by
    unfold Host.reverse reverseName
    rw [hdot, harpa, List.take_of_length_le]
    · simp only [List.append_assoc, List.cons_append, List.nil_append]
    · simp only [List.length_append, List.length_cons, List.length_nil]
      have hascii : (ascii "in-addr.arpa").length = 12 := by decide
      omega
  rw [hwhole]
  constructor
  · have harpa : DottedName (ascii "in-addr.arpa") :=
      ⟨by decide, by decide, by decide⟩
    apply DottedName.number _ (by simp)
    apply DottedName.number _ (by simp)
    apply DottedName.number _ (by simp)
    exact harpa.number (by decide) _
  · have hascii : (ascii "in-addr.arpa").length = 12 := by decide
    simp only [List.length_append, List.length_cons, kMaxNameLength]
    omega

/-! ## Records and questions -/

theorem Wrote.when {w : Writer} {bs : Bytes} {write : Writer → Writer}
    (h : ∀ w, Wrote w (write w) bs) (wanted : Bool) :
    Wrote w (w.when wanted write) (if wanted then bs else []) := by
  cases wanted with
  | true => exact h w
  | false => exact Wrote.refl w

theorem wrote_question (w : Writer) {q : Question} (hname : DottedName q.name) :
    Wrote w (writeQuestion w q) (encodeQuestion q) := by
  have h := ((wrote_name w hname).trans (wrote_u16 _ q.type)).trans
    (wrote_u16 _ q.recordClass)
  rwa [List.append_assoc] at h

theorem wrote_questions (w : Writer) {questions : List Question}
    (hnames : ∀ q ∈ questions, DottedName q.name) :
    Wrote w (questions.foldl writeQuestion w)
      (questions.flatMap encodeQuestion) := by
  induction questions generalizing w with
  | nil => exact Wrote.refl w
  | cons q questions ih =>
      obtain ⟨hname, hnames⟩ := List.forall_mem_cons.mp hnames
      rw [List.foldl_cons, List.flatMap_cons]
      exact (wrote_question w hname).trans (ih _ hnames)

theorem patch16_kept (w : Writer) (position value : Nat) :
    (w.patch16 position value).ok = w.ok ∧
      (w.patch16 position value).capacity = w.capacity := by
  unfold Writer.patch16
  split_ifs
  · exact ⟨rfl, rfl⟩
  · exact ⟨rfl, rfl⟩

/-- The length that is patched is that of the data behind it. -/
theorem wrote_withLength {data : Writer → Writer} {bs : Bytes}
    (h : ∀ w, Wrote w (data w) bs) (w : Writer) :
    Wrote w (w.withLength data) (beBytes 2 bs.length ++ bs) := by
  obtain ⟨hpatched, hcapacity⟩ := patch16_kept (data (w.u16 0)) w.length
    ((data (w.u16 0)).length - (w.u16 0).length)
  have hunpatched := (wrote_u16 w 0).trans (h (w.u16 0))
  constructor
  · intro hok
    obtain ⟨hw, hkept, hout⟩ := hunpatched.kept (hpatched ▸ hok)
    obtain ⟨hstart, -, hdata⟩ := (h (w.u16 0)).kept (hpatched ▸ hok)
    obtain ⟨-, -, hzero⟩ := (wrote_u16 w 0).kept hstart
    refine ⟨hw, hcapacity.trans hkept, ?_⟩
    have hlength : (data (w.u16 0)).length - (w.u16 0).length =
        bs.length := by
      rw [Writer.length, hdata, List.length_append, Writer.length,
        Nat.add_sub_cancel_left]
    have hfits : w.length + 2 ≤ (data (w.u16 0)).length := by
      rw [Writer.length, Writer.length, hout, List.length_append,
        List.length_append, length_beBytes]
      omega
    rw [Writer.withLength, hlength, Writer.patch16, if_pos hfits]
    show ((data (w.u16 0)).out.set w.length _).set (w.length + 1) _ = _
    rw [hout, beBytes_two, beBytes_two, Writer.length]
    simp
  · intro hok hroom
    rw [Writer.withLength, hpatched]
    apply hunpatched.fits hok
    simpa using hroom

def recordA (host : Host) (recordClass ttl : Nat) : Record :=
  { name := host.name, type := kTypeA, recordClass, ttl
    data := .address host.address.octets }

def recordNsec (host : Host) (recordClass ttl : Nat) : Record :=
  { name := host.name, type := kTypeNsec, recordClass, ttl
    data := .next host.name 0 [0x40] }

def recordPtr (host : Host) (recordClass ttl : Nat) : Record :=
  { name := host.reverse, type := kTypePtr, recordClass, ttl
    data := .target host.name }

theorem wrote_recordHeader (w : Writer) {name : Bytes} (hname : DottedName name)
    (type recordClass ttl : Nat) :
    Wrote w (writeRecordHeader w name type recordClass ttl)
      (encodeName name ++ (beBytes 2 type ++ (beBytes 2 recordClass ++
        beBytes 4 ttl))) := by
  have h := (((wrote_name w hname).trans (wrote_u16 _ type)).trans
    (wrote_u16 _ recordClass)).trans (wrote_u32 _ ttl)
  rwa [List.append_assoc, List.append_assoc] at h

theorem wrote_a (w : Writer) {host : Host} (hname : DottedName host.name)
    (recordClass ttl : Nat) :
    Wrote w (writeA w host recordClass ttl)
      (encodeRecord (recordA host recordClass ttl)) := by
  have h := ((wrote_recordHeader w hname kTypeA recordClass ttl).trans
    (wrote_u16 _ 4)).trans (wrote_bytes _ host.address.octets)
  simp only [List.append_assoc] at h
  exact h

theorem wrote_nsec (w : Writer) {host : Host} (hname : DottedName host.name)
    (recordClass ttl : Nat) :
    Wrote w (writeNsec w host recordClass ttl)
      (encodeRecord (recordNsec host recordClass ttl)) := by
  have hdata : ∀ w : Writer, Wrote w
      ((((w.name host.name).u8 0).u8 1).u8 0x40)
      (encodeData (.next host.name 0 [0x40])) := by
    intro w
    have h := (((wrote_name w hname).trans (wrote_u8 _ 0)).trans
      (wrote_u8 _ 1)).trans (wrote_u8 _ 0x40)
    simp only [List.append_assoc] at h
    exact h
  have h := (wrote_recordHeader w hname kTypeNsec recordClass ttl).trans
    (wrote_withLength hdata _)
  simp only [List.append_assoc] at h
  exact h

theorem wrote_ptr (w : Writer) {host : Host} (hname : DottedName host.name)
    (recordClass ttl : Nat) :
    Wrote w (writePtr w host host.reverse recordClass ttl)
      (encodeRecord (recordPtr host recordClass ttl)) := by
  have h := (wrote_recordHeader w (packetName_reverse host).toDottedName
    kTypePtr recordClass ttl).trans (wrote_withLength (fun w => wrote_name w hname) _)
  simp only [List.append_assoc] at h
  exact h

end Audiox.Http
