import Audiox.Bluetooth.Sdp
import Mathlib

/-!
# The service discovery server stays inside its buffers

Whatever the bytes of a request are, they are read inside the request only, no
size wraps below zero, every walk ends, and a reply fits its buffer.
-/

namespace Audiox.Bluetooth

open ByteCodec CheckedRead

/-! ## Data elements -/

theorem yields_elementLength {p : Bytes} (hp : 1 ≤ p.length)
    (type sizeIndex : Nat) :
    Yields (elementLength p type sizeIndex) fun lengths =>
      1 ≤ lengths.1 ∧ lengths.1 ≤ 5 ∧ lengths.1 ≤ p.length := by
  have hbytes : lengthBytes sizeIndex ≤ 4 := by
    unfold lengthBytes
    split_ifs <;> omega
  unfold elementLength
  split_ifs
  · exact yields_pure ⟨le_rfl, by decide, hp⟩
  · cases fixedLengths[sizeIndex]? with
    | some length => exact yields_pure ⟨le_rfl, by simp, hp⟩
    | none =>
        apply Yields.check
        intro hlong
        have hfits := not_lt.mp hlong
        apply (yields_readBe hfits).bind
        intro length _
        exact yields_pure ⟨Nat.le_add_right 1 _, by omega, hfits⟩

theorem yields_readElement (p : Bytes) :
    Yields (readElement p) fun e =>
      1 ≤ e.total ∧ e.total ≤ e.data.length + 5 ∧ e.total ≤ p.length := by
  apply Yields.check
  intro hlength
  have hfirst : 0 + 1 ≤ p.length := by omega
  apply (yields_readBe hfirst).bind
  intro first _
  apply (yields_elementLength hfirst _ _).bind
  rintro ⟨header, length⟩ ⟨hheader, hfive, hinside⟩
  apply (yields_sub hinside).bind
  intro room hroom
  apply Yields.check
  intro hlong
  have hfits : header + length ≤ p.length := by
    dsimp only at hinside hroom
    omega
  apply (yields_slice hfits).bind
  intro data hdata
  refine yields_pure ⟨Nat.le_add_right_of_le hheader, ?_, hfits⟩
  dsimp only at hfive ⊢
  omega

theorem yields_elementAt {outer : Element} {offset : Nat}
    (hoffset : offset < outer.data.length) :
    Yields (elementAt outer offset) fun e =>
      1 ≤ e.total ∧ e.total ≤ e.data.length + 5 := by
  apply (yields_sub (le_of_lt hoffset)).bind
  rintro available rfl
  have hfits : offset + (outer.data.length - offset) ≤ outer.data.length := by
    omega
  apply (yields_slice hfits).bind
  intro p _
  apply (yields_readElement p).mono
  rintro e ⟨hpos, hdata, -⟩
  exact ⟨hpos, hdata⟩

/-! ## Patterns and attribute lists -/

theorem yields_uuidValue (uuid : Element) :
    Yields (uuidValue uuid) fun _ => uuid.data.length ≤ 16 := by
  unfold uuidValue
  split_ifs with hshort hlong
  · exact (yields_readBe (by omega)).mono fun _ _ => by omega
  · apply (yields_slice (by omega)).bind
    intro tail _
    split_ifs
    · exact (yields_readBe (by omega)).mono fun _ _ => by omega
    · exact yields_pure (by omega)
  · exact yields_refused ()

/-- UUIDs are short, and so is a pattern. -/
def PatternPart (offset : Nat) (s : Nat × Bool) : Prop :=
  offset ≤ 21 * s.1 ∧ s.1 ≤ sdpMaxPattern

theorem yields_matchUuid {pattern : Element} {offset : Nat} {s : Nat × Bool}
    (hoffset : offset < pattern.data.length) (record : Record)
    (hs : PatternPart offset s) :
    Yields (matchUuid pattern record offset s) fun next =>
      offset < next.1 ∧ PatternPart next.1 next.2 := by
  obtain ⟨hshort, hcount⟩ := hs
  apply (yields_elementAt hoffset).bind
  rintro uuid ⟨hpos, htotal⟩
  apply Yields.check
  intro _
  apply Yields.check
  intro hmax
  apply (yields_uuidValue uuid).bind
  intro value hvalue
  refine yields_pure ⟨Nat.lt_add_of_pos_right hpos, ?_, not_lt.mp hmax⟩
  dsimp only
  omega

theorem yields_matchPattern (pattern : Element) (record : Record) :
    Yields (matchPattern pattern record) fun _ =>
      pattern.data.length ≤ 252 := by
  apply Yields.check
  intro _
  have hend : pattern.data.length ≤ 0 + pattern.data.length := by omega
  have hwalk := Yields.walk
    (fun offset hoffset s hs => yields_matchUuid hoffset record hs) hend
    (0, true) ⟨by simp, by simp⟩
  apply hwalk.bind
  rintro s ⟨last, hlast, hshort, hcount⟩
  apply Yields.check
  intro _
  apply yields_pure
  rw [sdpMaxPattern] at hcount
  omega

/-- Ranges are short, and so is a list of them. -/
def ListPart (offset : Nat) (ranges : List Range) : Prop :=
  offset ≤ 9 * ranges.length ∧ ranges.length ≤ sdpMaxRanges

theorem yields_parseAttribute {list : Element} {offset : Nat}
    {ranges : List Range} (hoffset : offset < list.data.length)
    (hranges : ListPart offset ranges) :
    Yields (parseAttribute list offset ranges) fun next =>
      offset < next.1 ∧ ListPart next.1 next.2 := by
  obtain ⟨hshort, -⟩ := hranges
  apply (yields_elementAt hoffset).bind
  rintro item ⟨hpos, htotal⟩
  have hnext : offset < offset + item.total := Nat.lt_add_of_pos_right hpos
  apply Yields.check
  intro hmax
  rw [not_or, not_le] at hmax
  have hpart : item.data.length ≤ 4 → ∀ range,
      ListPart (offset + item.total) (ranges ++ [range]) := by
    intro hdata range
    rw [ListPart, List.length_append, List.length_singleton]
    omega
  split_ifs with htwo hfour
  · apply (yields_readBe (by omega)).bind
    intro id _
    exact yields_pure ⟨hnext, hpart (by omega) _⟩
  · apply (yields_readBe (by omega)).bind
    intro low _
    apply (yields_readBe (by omega)).bind
    intro high _
    exact yields_pure ⟨hnext, hpart (by omega) _⟩
  · exact yields_refused ()

theorem yields_parseAttributeList (list : Element) :
    Yields (parseAttributeList list) fun _ => list.data.length ≤ 288 := by
  apply Yields.check
  intro _
  have hend : list.data.length ≤ 0 + list.data.length := by omega
  have hwalk := Yields.walk
    (fun offset hoffset ranges h => yields_parseAttribute hoffset h) hend
    [] ⟨by simp, by simp⟩
  apply hwalk.bind
  rintro ranges ⟨last, hlast, hshort, hcount⟩
  apply Yields.check
  intro _
  apply yields_pure
  rw [sdpMaxRanges] at hcount
  omega

/-! ## Writing lists -/

theorem yields_appendRaw {capacity : Nat} {out : Bytes}
    (hout : out.length ≤ capacity) (data : Bytes) :
    Yields (appendRaw capacity out data) fun out =>
      out.length ≤ capacity := by
  apply (yields_sub hout).bind
  rintro room rfl
  apply Yields.check
  intro hroom
  apply yields_pure
  rw [List.length_append]
  omega

theorem yields_appendSequenceHeader {capacity : Nat} {out : Bytes}
    (hout : out.length ≤ capacity) (contentLength : Nat) :
    Yields (appendSequenceHeader capacity out contentLength) fun out =>
      out.length ≤ capacity := by
  unfold appendSequenceHeader
  split_ifs
  · exact yields_appendRaw hout _
  · apply Yields.check
    intro _
    exact yields_appendRaw hout _

theorem yields_appendAttributeList {capacity : Nat} {out : Bytes}
    (hout : out.length ≤ capacity) (record : Record) (ranges : List Range) :
    Yields (appendAttributeList record ranges capacity out) fun out =>
      out.length ≤ capacity := by
  have hbody : ∀ attr ∈ record.attributes.filter (·.wanted ranges),
      ∀ body : Bytes, body.length ≤ 256 →
        Yields (appendAttribute body attr) fun body => body.length ≤ 256 := by
    intro attr _ body hlength
    apply (yields_appendRaw hlength _).bind
    intro body hlength
    exact yields_appendRaw hlength _
  have hempty : ([] : Bytes).length ≤ 256 := Nat.zero_le _
  apply (Yields.foldlM hbody hempty).bind
  intro body _
  apply (yields_appendSequenceHeader hout _).bind
  intro out hout
  exact yields_appendRaw hout _

/-! ## Requests and replies -/

/-- A record is asked for by its handle if the request says so. -/
def Target.Of (target : Target) (pdu : Nat) : Prop :=
  target.found.length = kRecords.length ∧
    (pdu = sdpAttributeRequest → target.requestedRecord.isSome)

theorem yields_readTarget (pdu : Nat) (params : Bytes) :
    Yields (readTarget pdu params) fun target =>
      target.1.Of pdu ∧ target.2 ≤ 257 ∧ target.2 ≤ params.length := by
  unfold readTarget
  split_ifs with hpattern hhandle
  · apply (yields_refusedAs (yields_readElement params)).bind
    rintro pattern ⟨-, hdata, htotal⟩
    have hfound := Yields.mapM fun record (_ : record ∈ kRecords) =>
      yields_matchPattern pattern record
    apply (yields_refusedAs hfound).bind
    rintro found ⟨hlength, hshort⟩
    have hpos : 0 < found.length := by
      rw [hlength]
      decide
    have hlimit := hshort _ (List.getElem_mem hpos)
    refine yields_pure ⟨⟨hlength, ?_⟩, ?_, htotal⟩
    · rintro rfl
      rcases hpattern with h | h <;> cases h
    · dsimp only
      omega
  · apply Yields.check
    intro hlength
    apply (yields_readBe (by omega)).bind
    intro handle _
    apply Yields.check
    intro hsome
    refine yields_pure ⟨⟨rfl, ?_⟩, by simp, by omega⟩
    intro _
    rwa [Bool.not_eq_true, Option.isNone_eq_false_iff] at hsome
  · exact yields_refused _

theorem yields_searchReply {params : Bytes} {offset capacity : Nat}
    (hoffset : offset ≤ params.length) (target : Target) (maximum : Nat) :
    Yields (searchReply params offset target maximum capacity)
      fun parameters => 5 + parameters.length ≤ capacity ∧
        parameters.length < 65536 := by
  apply (yields_sub hoffset).bind
  rintro left rfl
  apply Yields.check
  intro hleft
  apply (yields_readBe (by omega)).bind
  intro continuation _
  apply Yields.check
  intro _
  apply Yields.check
  intro hroom
  apply yields_pure
  have hhandles : target.handles.length ≤ 2 := by
    have hzip : (kRecords.zip target.found).length ≤ 2 := by
      rw [List.length_zip]
      exact Nat.min_le_left _ _
    rw [Target.handles, List.length_map]
    exact (List.length_filter_le _ _).trans hzip
  have htake : (target.handles.take
      (currentCount (target.found.count true) maximum)).length ≤
      min (currentCount (target.found.count true) maximum) 2 := by
    rw [List.length_take]
    exact min_le_min_left _ hhandles
  simp only [List.length_append, length_beBytes, List.length_flatMap,
    List.map_const', List.sum_replicate, smul_eq_mul, List.length_singleton]
  omega

theorem yields_readRanges {params : Bytes} {offset : Nat}
    (hoffset : offset ≤ params.length) (maximum : Nat) :
    Yields (readRanges params offset maximum) fun ranges =>
      ranges.2 ≤ 293 ∧ offset + ranges.2 ≤ params.length := by
  apply (yields_sub hoffset).bind
  rintro left rfl
  have hfits : offset + (params.length - offset) ≤ params.length := by omega
  apply (yields_slice hfits).bind
  intro p hp
  apply (yields_refusedAs (yields_readElement p)).bind
  rintro list ⟨-, hdata, htotal⟩
  apply (yields_refusedAs (yields_parseAttributeList list)).bind
  intro ranges hshort
  apply Yields.check
  intro _
  exact yields_pure ⟨by omega, by omega⟩

theorem yields_readContinuation {params : Bytes} {offset : Nat}
    (hoffset : offset ≤ params.length) :
    Yields (readContinuation params offset) fun _ => True := by
  apply (yields_sub hoffset).bind
  rintro left rfl
  apply Yields.check
  intro hleft
  apply (yields_readBe (by omega)).bind
  intro continuationLength _
  apply (yields_sub (by omega)).bind
  rintro left rfl
  split_ifs with hresume
  · exact (yields_readBe (by omega)).mono fun _ _ => trivial
  · apply Yields.check
    intro _
    exact yields_pure trivial

theorem yields_fullLists {pdu : Nat} {target : Target}
    (htarget : target.Of pdu) (ranges : List Range) :
    Yields (fullLists pdu target ranges) fun full => full.length ≤ 640 := by
  unfold fullLists
  split_ifs with hpdu
  · obtain ⟨record, hrecord⟩ := Option.isSome_iff_exists.mp (htarget.2 hpdu)
    rw [hrecord]
    exact yields_appendAttributeList (Nat.zero_le _) record ranges
  · have hlists : ∀ record ∈ kRecords.zip target.found,
        ∀ lists : Bytes, lists.length ≤ 600 →
          Yields (appendMatching ranges lists record)
            fun lists => lists.length ≤ 600 := by
      intro record _ lists hlength
      unfold appendMatching
      split_ifs
      · exact yields_appendAttributeList hlength _ ranges
      · exact yields_pure hlength
    have hempty : ([] : Bytes).length ≤ 600 := Nat.zero_le _
    apply (Yields.foldlM hlists hempty).bind
    intro lists _
    have hnone : ([] : Bytes).length ≤ 640 := Nat.zero_le _
    apply (yields_appendSequenceHeader hnone _).bind
    intro full hfull
    exact yields_appendRaw hfull lists

theorem yields_attributeReply {full : Bytes} (hfull : full.length ≤ 640)
    (resume maximum capacity : Nat) :
    Yields (attributeReply full resume maximum capacity)
      fun parameters => 5 + parameters.length ≤ capacity ∧
        parameters.length < 65536 := by
  apply Yields.check
  intro hresume
  have hinside : resume ≤ full.length := by omega
  apply (yields_sub hinside).bind
  rintro rest rfl
  apply Yields.check
  intro hroom
  have hchunk : chunkLength (full.length - resume) maximum ≤
      full.length - resume := by
    unfold chunkLength
    split_ifs <;> omega
  have hfits : resume + chunkLength (full.length - resume) maximum ≤
      full.length := by omega
  apply (yields_slice hfits).bind
  intro chunk hlength
  have hcontinuation : (continuation (resume + chunk.length)
      full.length).length ≤ 3 := by
    unfold continuation
    split_ifs <;> simp
  apply yields_pure
  rw [List.length_append, List.length_append, length_beBytes]
  omega

theorem yields_replyParameters (pdu : Nat) (params : Bytes)
    (capacity : Nat) :
    Yields (replyParameters pdu params capacity) fun parameters =>
      5 + parameters.length ≤ capacity ∧ parameters.length < 65536 := by
  apply (yields_readTarget pdu params).bind
  rintro ⟨target, offset⟩ ⟨htarget, -, hoffset⟩
  apply (yields_sub hoffset).bind
  intro left hleft
  apply Yields.check
  intro htwo
  have hmaximum : offset + 2 ≤ params.length := by
    dsimp only at hoffset hleft
    omega
  apply (yields_readBe hmaximum).bind
  intro maximum _
  split_ifs
  · exact yields_searchReply hmaximum target maximum
  · apply (yields_readRanges hmaximum maximum).bind
    rintro ⟨ranges, length⟩ ⟨-, hranges⟩
    apply (yields_readContinuation hranges).bind
    intro resume _
    apply (yields_refusedAs (yields_fullLists htarget ranges)).bind
    intro full hfull
    exact yields_attributeReply hfull resume maximum capacity

/-- What is required of a reply. -/
structure Replies (request : Bytes) (capacity : Nat) (reply : Bytes) :
    Prop where
  fits : reply.length ≤ capacity
  header : 5 ≤ reply.length
  bodyLength : beNat ((reply.drop 3).take 2) = reply.length - 5
  transaction : (reply.drop 1).take 2 = (request.drop 1).take 2

theorem replies_finishPdu {request parameters : Bytes} {capacity : Nat}
    (hrequest : 5 ≤ request.length) (hfits : 5 + parameters.length ≤ capacity)
    (hlength : parameters.length < 65536) (pdu : Nat) :
    Replies request capacity (finishPdu pdu
      (beNat ((request.drop 1).take 2)) parameters) := by
  have htwo : ((request.drop 1).take 2).length = 2 := by
    rw [List.length_take, List.length_drop]
    omega
  have htransaction := beBytes_beNat ((request.drop 1).take 2)
  rw [htwo] at htransaction
  have hall : (finishPdu pdu (beNat ((request.drop 1).take 2))
      parameters).length = 5 + parameters.length := by
    simp only [finishPdu, List.length_append, length_beBytes]
  constructor
  · omega
  · omega
  · have hdrop : (finishPdu pdu (beNat ((request.drop 1).take 2))
        parameters).drop 3 = beBytes 2 parameters.length ++ parameters := by
      rw [finishPdu, List.append_assoc]
      exact List.drop_left' (by simp)
    have hbytes : (beBytes 2 parameters.length ++ parameters).take 2 =
        beBytes 2 parameters.length :=
      List.take_left' (length_beBytes 2 _)
    rw [hdrop, hbytes, beNat_beBytes_of_lt hlength, hall]
    omega
  · have hdrop : (finishPdu pdu (beNat ((request.drop 1).take 2))
        parameters).drop 1 = (request.drop 1).take 2 ++
          (beBytes 2 parameters.length ++ parameters) := by
      rw [finishPdu, List.append_assoc, List.append_assoc, htransaction]
      exact List.drop_left' (by simp)
    rw [hdrop]
    exact List.take_left' htwo

theorem replies_errorPdu {request : Bytes} {capacity : Nat}
    (hrequest : 5 ≤ request.length) (hcapacity : 16 ≤ capacity) (code : Nat) :
    ∀ reply ∈ errorPdu capacity (beNat ((request.drop 1).take 2)) code,
      Replies request capacity reply := by
  intro reply hreply
  rw [errorPdu, if_neg (by omega)] at hreply
  obtain rfl := Option.some.inj hreply
  apply replies_finishPdu hrequest
  · rw [length_beBytes]
    omega
  · rw [length_beBytes]
    omega

theorem yields_buildSdpResponse (request : Bytes) (capacity : Nat) :
    Yields (buildSdpResponse request capacity) fun reply =>
      ∀ r ∈ reply, Replies request capacity r := by
  unfold buildSdpResponse
  split_ifs with hshort
  · exact yields_pure (by simp)
  · obtain ⟨hlength, hcapacity⟩ := not_or.mp hshort
    rw [not_lt] at hlength hcapacity
    apply (yields_readBe (by omega)).bind
    intro pdu _
    have htransaction : Yields (readBe request 1 2 : Read Empty Nat)
        fun transaction => transaction = beNat ((request.drop 1).take 2) :=
      ⟨(yields_readBe (by omega)).inside, fun _ h => (readBe_eq_ok.mp h).2.symm⟩
    apply htransaction.bind
    rintro transaction rfl
    apply (yields_readBe (by omega)).bind
    intro parameterLength _
    apply (yields_sub hlength).bind
    rintro size rfl
    split_ifs with hsize
    · exact yields_pure (replies_errorPdu hlength hcapacity _)
    · rw [not_ne_iff] at hsize
      have hfits : 5 + parameterLength ≤ request.length := by omega
      apply (yields_slice hfits).bind
      intro params _
      have hparameters := yields_replyParameters pdu params capacity
      split
      next parameters hok =>
        obtain ⟨hroom, hlimit⟩ := hparameters.result parameters hok
        apply yields_pure
        rintro _ ⟨⟩
        exact replies_finishPdu hlength hroom hlimit _
      next => exact yields_pure (replies_errorPdu hlength hcapacity _)
      next => exact yields_pure (by simp)
      next hpast => exact absurd hpast hparameters.inside

/-- Every request is answered or dropped, without a read past its end. -/
theorem buildSdpResponse_safe (request : Bytes) (capacity : Nat) :
    ∃ reply, buildSdpResponse request capacity = .ok reply ∧
      ∀ r ∈ reply, Replies request capacity r := by
  have hyields := yields_buildSdpResponse request capacity
  cases hreply : buildSdpResponse request capacity with
  | ok reply => exact ⟨reply, rfl, hyields.result reply hreply⟩
  | error failure =>
      cases failure with
      | refused error => cases error
      | pastEnd => exact absurd hreply hyields.inside

end Audiox.Bluetooth
