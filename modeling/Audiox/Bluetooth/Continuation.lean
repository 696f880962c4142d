import Audiox.Bluetooth.SdpSafety
import Mathlib

/-!
# Replies that are continued

A reply that does not fit is cut, and the request is repeated with the offset
at which it was cut.  The parts are put together to what a single reply would
have carried, whatever the limits of the requests are.
-/

namespace Audiox.Bluetooth

open ByteCodec CheckedRead

/-! ## Parts of a request -/

section Front

variable {p p' : Bytes} {m : Nat}

theorem elementLength_of_front {type sizeIndex : Nat} {lengths : Nat × Nat}
    (h : elementLength p type sizeIndex = .ok lengths) (hm : lengths.1 ≤ m)
    (hfront : p'.take m = p.take m) :
    elementLength p' type sizeIndex = .ok lengths := by
  unfold elementLength at h ⊢
  split_ifs at h ⊢
  · exact h
  · cases hfixed : fixedLengths[sizeIndex]? with
    | some length =>
        rw [hfixed] at h
        exact h
    | none =>
        rw [hfixed] at h
        obtain ⟨u, hlong, h⟩ := bind_eq_ok.mp h
        obtain ⟨length, hread, h⟩ := bind_eq_ok.mp h
        obtain rfl := pure_eq_ok.mp h
        have hfits := not_lt.mp (refuseIf_eq_ok.mp hlong)
        have hfits' := le_length_of_front hfront hm hfits
        refine bind_eq_ok.mpr ⟨u, refuseIf_eq_ok.mpr (not_lt.mpr hfits'), ?_⟩
        refine bind_eq_ok.mpr ⟨length, ?_, rfl⟩
        rw [readBe_of_front hfront hm, hread]

/-- An element is read from its own bytes alone. -/
theorem readElement_of_front {e : Element} (h : readElement p = .ok e)
    (hm : e.total ≤ m) (hfront : p'.take m = p.take m) :
    readElement p' = .ok e := by
  obtain ⟨u, hpos, h⟩ := bind_eq_ok.mp h
  obtain ⟨first, hfirst, h⟩ := bind_eq_ok.mp h
  obtain ⟨⟨header, length⟩, hlengths, h⟩ := bind_eq_ok.mp h
  obtain ⟨room, hroom, h⟩ := bind_eq_ok.mp h
  obtain ⟨u', hlong, h⟩ := bind_eq_ok.mp h
  obtain ⟨data, hdata, h⟩ := bind_eq_ok.mp h
  obtain rfl := pure_eq_ok.mp h
  have hone := not_lt.mp (refuseIf_eq_ok.mp hpos)
  have hheader := (yields_elementLength hone _ _).result _ hlengths
  have hfits := (slice_eq_ok.mp hdata).1
  dsimp only at hheader hm hfits
  have hone' := le_length_of_front hfront (by omega) hone
  have hfits' := le_length_of_front hfront hm hfits
  refine bind_eq_ok.mpr ⟨u, refuseIf_eq_ok.mpr (by omega), ?_⟩
  refine bind_eq_ok.mpr ⟨first, ?_, ?_⟩
  · rw [readBe_of_front hfront (by omega), hfirst]
  refine bind_eq_ok.mpr ⟨(header, length), ?_, ?_⟩
  · exact elementLength_of_front hlengths (by dsimp only; omega) hfront
  refine bind_eq_ok.mpr ⟨p'.length - header, sub_eq_ok.mpr ⟨by omega, rfl⟩, ?_⟩
  refine bind_eq_ok.mpr ⟨u', refuseIf_eq_ok.mpr (by omega), ?_⟩
  refine bind_eq_ok.mpr ⟨data, ?_, rfl⟩
  rw [slice_of_front hfront hm, hdata]

theorem readTarget_of_front {pdu : Nat} {target : Target × Nat}
    (h : readTarget pdu p = .ok target) (hm : target.2 ≤ m)
    (hfront : p'.take m = p.take m) : readTarget pdu p' = .ok target := by
  unfold readTarget at h ⊢
  split_ifs at h ⊢
  · obtain ⟨pattern, hpattern, h⟩ := bind_eq_ok.mp h
    obtain ⟨found, hfound, h⟩ := bind_eq_ok.mp h
    obtain rfl := pure_eq_ok.mp h
    have hread := readElement_of_front (refusedAs_eq_ok.mp hpattern) hm hfront
    refine bind_eq_ok.mpr ⟨pattern, refusedAs_eq_ok.mpr hread, ?_⟩
    exact bind_eq_ok.mpr ⟨found, hfound, rfl⟩
  · obtain ⟨u, hfour, h⟩ := bind_eq_ok.mp h
    obtain ⟨handle, hhandle, h⟩ := bind_eq_ok.mp h
    obtain ⟨u', hsome, h⟩ := bind_eq_ok.mp h
    obtain rfl := pure_eq_ok.mp h
    have hlength := not_lt.mp (refuseIf_eq_ok.mp hfour)
    have hlength' := le_length_of_front hfront hm hlength
    refine bind_eq_ok.mpr ⟨u, refuseIf_eq_ok.mpr (not_lt.mpr hlength'), ?_⟩
    refine bind_eq_ok.mpr ⟨handle, ?_, ?_⟩
    · rw [readBe_of_front hfront hm, hhandle]
    · exact bind_eq_ok.mpr ⟨u', hsome, rfl⟩

end Front

/-- The list of ranges is read from its own bytes alone. -/
theorem readRanges_of_front {params params' : Bytes} {offset offset' m : Nat}
    {maximum maximum' : Nat} {ranges : List Range × Nat}
    (h : readRanges params offset maximum = .ok ranges) (hm : ranges.2 ≤ m)
    (hfront : (params'.drop offset').take m = (params.drop offset).take m)
    (hoffset : offset' ≤ params'.length) (hmaximum : 7 ≤ maximum') :
    readRanges params' offset' maximum' = .ok ranges := by
  obtain ⟨left, hleft, h⟩ := bind_eq_ok.mp h
  obtain ⟨p, hp, h⟩ := bind_eq_ok.mp h
  obtain ⟨list, hlist, h⟩ := bind_eq_ok.mp h
  obtain ⟨rs, hranges, h⟩ := bind_eq_ok.mp h
  obtain ⟨u, -, h⟩ := bind_eq_ok.mp h
  obtain rfl := pure_eq_ok.mp h
  obtain ⟨hinside, rfl⟩ := sub_eq_ok.mp hleft
  obtain ⟨-, rfl⟩ := slice_eq_ok.mp hp
  have hall : ∀ bs : Bytes, ∀ n, (bs.drop n).take (bs.length - n) =
      bs.drop n := by
    intro bs n
    exact List.take_of_length_le (by rw [List.length_drop])
  rw [hall] at hlist
  have hread := readElement_of_front (refusedAs_eq_ok.mp hlist) hm hfront
  refine bind_eq_ok.mpr ⟨_, sub_eq_ok.mpr ⟨hoffset, rfl⟩, ?_⟩
  refine bind_eq_ok.mpr ⟨_, slice_eq_ok.mpr ⟨by omega, rfl⟩, ?_⟩
  rw [hall]
  refine bind_eq_ok.mpr ⟨list, refusedAs_eq_ok.mpr hread, ?_⟩
  refine bind_eq_ok.mpr ⟨rs, hranges, ?_⟩
  exact bind_eq_ok.mpr ⟨u, refuseIf_eq_ok.mpr (not_lt.mpr hmaximum), rfl⟩

theorem seven_le_of_readRanges {params : Bytes} {offset maximum : Nat}
    {ranges : List Range × Nat}
    (h : readRanges params offset maximum = .ok ranges) : 7 ≤ maximum := by
  obtain ⟨left, -, h⟩ := bind_eq_ok.mp h
  obtain ⟨p, -, h⟩ := bind_eq_ok.mp h
  obtain ⟨list, -, h⟩ := bind_eq_ok.mp h
  obtain ⟨rs, -, h⟩ := bind_eq_ok.mp h
  obtain ⟨u, hleast, -⟩ := bind_eq_ok.mp h
  exact not_lt.mp (refuseIf_eq_ok.mp hleast)

/-- A continuation field and the offset it stands for. -/
def Continues (c : Bytes) (resume : Nat) : Prop :=
  c = [0] ∧ resume = 0 ∨ c = 2 :: beBytes 2 resume ∧ resume < 65536

theorem readContinuation_eq_ok {params : Bytes} {offset resume : Nat}
    (h : readContinuation params offset = .ok resume) :
    ∃ c trailing, params.drop offset = c ++ trailing ∧ Continues c resume := by
  obtain ⟨left, hleft, h⟩ := bind_eq_ok.mp h
  obtain ⟨u, -, h⟩ := bind_eq_ok.mp h
  obtain ⟨length, hlength, h⟩ := bind_eq_ok.mp h
  obtain ⟨left', hleft', h⟩ := bind_eq_ok.mp h
  obtain ⟨hinside, rfl⟩ := sub_eq_ok.mp hleft'
  obtain ⟨-, rfl⟩ := readBe_eq_ok.mp hlength
  obtain ⟨b, hb⟩ : ∃ b, params.drop offset = b :: params.drop (offset + 1) :=
    ⟨_, List.drop_eq_getElem_cons (by omega)⟩
  have hvalue : beNat ((params.drop offset).take 1) = b.toNat := by
    rw [hb]
    simp [beNat, leNat]
  rw [hvalue] at h
  split_ifs at h with htwo
  · obtain ⟨hfits, rfl⟩ := readBe_eq_ok.mp h
    have hlen : ((params.drop (offset + 1)).take 2).length = 2 := by
      rw [List.length_take, List.length_drop]
      omega
    have hbytes := beBytes_beNat ((params.drop (offset + 1)).take 2)
    have hlt := beNat_lt ((params.drop (offset + 1)).take 2)
    rw [hlen] at hbytes hlt
    have hb2 : b = 2 := UInt8.toNat_inj.mp htwo.1
    refine ⟨_, (params.drop (offset + 1)).drop 2, ?_, .inr ⟨rfl, hlt⟩⟩
    rw [hbytes, List.cons_append, List.take_append_drop, hb, hb2]
  · obtain ⟨u', hzero, h⟩ := bind_eq_ok.mp h
    obtain rfl := pure_eq_ok.mp h
    have hb0 : b = 0 := UInt8.toNat_inj.mp (not_ne_iff.mp
      (refuseIf_eq_ok.mp hzero))
    refine ⟨[0], params.drop (offset + 1), ?_, .inl ⟨rfl, rfl⟩⟩
    rw [hb, hb0, List.singleton_append]

theorem readContinuation_of_continues {params c trailing : Bytes}
    {offset resume : Nat} (hoffset : offset ≤ params.length)
    (hparams : params.drop offset = c ++ trailing) (hc : Continues c resume) :
    readContinuation params offset = .ok resume := by
  have hleft := congrArg List.length hparams
  rw [List.length_drop, List.length_append] at hleft
  have hpos : 1 ≤ c.length := by
    rcases hc with ⟨rfl, -⟩ | ⟨rfl, -⟩ <;> simp
  refine bind_eq_ok.mpr ⟨_, sub_eq_ok.mpr ⟨hoffset, rfl⟩, ?_⟩
  refine bind_eq_ok.mpr ⟨(), refuseIf_eq_ok.mpr (by omega), ?_⟩
  refine bind_eq_ok.mpr ⟨_, readBe_eq_ok.mpr ⟨by omega, rfl⟩, ?_⟩
  refine bind_eq_ok.mpr ⟨_, sub_eq_ok.mpr ⟨by omega, rfl⟩, ?_⟩
  rcases hc with ⟨rfl, rfl⟩ | ⟨rfl, hlt⟩
  · have hzero : beNat ((params.drop offset).take 1) = 0 := by
      rw [hparams]
      rfl
    rw [hzero, if_neg (by simp)]
    exact bind_eq_ok.mpr ⟨(), refuseIf_eq_ok.mpr (by simp), rfl⟩
  · have htwo : beNat ((params.drop offset).take 1) = 2 := by
      rw [hparams]
      rfl
    rw [List.length_cons, length_beBytes] at hleft
    rw [htwo, if_pos ⟨rfl, by omega⟩]
    refine readBe_eq_ok.mpr ⟨by omega, ?_⟩
    have hrest : params.drop (offset + 1) = beBytes 2 resume ++ trailing := by
      rw [← List.drop_drop, hparams]
      rfl
    rw [hrest, List.take_left' (length_beBytes 2 resume),
      beNat_beBytes_of_lt hlt]

/-! ## Requests that can be repeated -/

/-- A request for attributes without what changes from one request to the next:
what it is about, and the ranges. -/
structure Query where
  pdu : Nat
  head : Bytes
  list : Bytes
  target : Target
  ranges : List Range
  attributes : pdu = sdpAttributeRequest ∨ pdu = sdpSearchAttributeRequest
  readsTarget : readTarget pdu head = .ok (target, head.length)
  readsRanges : readRanges list 0 7 = .ok (ranges, list.length)

/-- What is chosen for each request. -/
structure Ask where
  transaction : Nat
  maximum : Nat
  capacity : Nat
  trailing : Bytes

def Query.params (q : Query) (ask : Ask) (c : Bytes) : Bytes :=
  q.head ++ (beBytes 2 ask.maximum ++ (q.list ++ (c ++ ask.trailing)))

def Query.request (q : Query) (ask : Ask) (c : Bytes) : Bytes :=
  finishPdu q.pdu ask.transaction (q.params ask c)

/-- The limits are large enough, and the numbers fit their fields. -/
structure Ask.Valid (ask : Ask) (q : Query) : Prop where
  transaction : ask.transaction < 65536
  least : 7 ≤ ask.maximum
  maximum : ask.maximum < 65536
  capacity : ask.maximum + 10 ≤ ask.capacity
  length : q.head.length + q.list.length + ask.trailing.length + 5 < 65536

theorem Query.length_le (q : Query) :
    q.head.length ≤ 257 ∧ q.list.length ≤ 293 := by
  have hhead := (yields_readTarget q.pdu q.head).result _ q.readsTarget
  have hlist := (yields_readRanges (Nat.zero_le _) 7).result _ q.readsRanges
  exact ⟨hhead.2.1, hlist.1⟩

/-- A request with nothing behind the continuation field always fits. -/
theorem Ask.valid_of_trailing_nil {ask : Ask} (q : Query)
    (htransaction : ask.transaction < 65536) (hleast : 7 ≤ ask.maximum)
    (hmaximum : ask.maximum < 65536)
    (hcapacity : ask.maximum + 10 ≤ ask.capacity) (hnil : ask.trailing = []) :
    ask.Valid q := by
  refine ⟨htransaction, hleast, hmaximum, hcapacity, ?_⟩
  have hquery := q.length_le
  rw [hnil, List.length_nil]
  omega

variable {q : Query} {ask : Ask} {c full : Bytes} {resume : Nat}

/-- The parameters of a reply that carries a part of the lists. -/
def partParameters (full : Bytes) (resume maximum : Nat) : Bytes :=
  beBytes 2 ((full.drop resume).take maximum).length ++
    (full.drop resume).take maximum ++
    continuation (resume + ((full.drop resume).take maximum).length)
      full.length

def Query.reply (q : Query) (ask : Ask) (full : Bytes) (resume : Nat) : Bytes :=
  finishPdu (q.pdu + 1) ask.transaction
    (partParameters full resume ask.maximum)

theorem take_chunkLength (full : Bytes) (resume maximum : Nat) :
    (full.drop resume).take (chunkLength (full.length - resume) maximum) =
      (full.drop resume).take maximum := by
  unfold chunkLength
  split_ifs with hlong
  · rfl
  · rw [List.take_of_length_le (by rw [List.length_drop]),
      List.take_of_length_le (by rw [List.length_drop]; omega)]

theorem attributeReply_eq {maximum capacity : Nat}
    (hresume : resume < full.length ∨ resume = 0)
    (hcapacity : maximum + 10 ≤ capacity) :
    attributeReply full resume maximum capacity =
      .ok (partParameters full resume maximum) := by
  have hchunk := take_chunkLength full resume maximum
  have hlength : chunkLength (full.length - resume) maximum ≤ maximum ∧
      chunkLength (full.length - resume) maximum ≤ full.length - resume := by
    unfold chunkLength
    split_ifs <;> omega
  have hinside : resume ≤ full.length := by omega
  refine bind_eq_ok.mpr ⟨(), refuseIf_eq_ok.mpr (by omega), ?_⟩
  refine bind_eq_ok.mpr ⟨_, sub_eq_ok.mpr ⟨hinside, rfl⟩, ?_⟩
  refine bind_eq_ok.mpr ⟨(), refuseIf_eq_ok.mpr (by omega), ?_⟩
  exact bind_eq_ok.mpr ⟨_, slice_eq_ok.mpr ⟨by omega, hchunk⟩, rfl⟩

theorem eq_of_attributeReply {maximum capacity : Nat} {parameters : Bytes}
    (h : attributeReply full resume maximum capacity = .ok parameters) :
    (resume < full.length ∨ resume = 0) ∧
      parameters = partParameters full resume maximum := by
  obtain ⟨u, hstart, h⟩ := bind_eq_ok.mp h
  obtain ⟨rest, hrest, h⟩ := bind_eq_ok.mp h
  obtain ⟨u', -, h⟩ := bind_eq_ok.mp h
  obtain ⟨chunk, hchunk, h⟩ := bind_eq_ok.mp h
  obtain rfl := pure_eq_ok.mp h
  obtain ⟨-, rfl⟩ := sub_eq_ok.mp hrest
  obtain ⟨-, rfl⟩ := slice_eq_ok.mp hchunk
  have hin := refuseIf_eq_ok.mp hstart
  rw [take_chunkLength]
  exact ⟨by omega, rfl⟩

theorem Query.replyParameters_eq (q : Query) (hask : ask.Valid q)
    (hc : Continues c resume)
    (hfull : fullLists q.pdu q.target q.ranges = .ok full)
    (hresume : resume < full.length ∨ resume = 0) :
    replyParameters q.pdu (q.params ask c) ask.capacity =
      .ok (partParameters full resume ask.maximum) := by
  have hlength : (q.params ask c).length = q.head.length +
      (2 + (q.list.length + (c.length + ask.trailing.length))) := by
    simp only [params, List.length_append, length_beBytes]
  have hhead : (q.params ask c).take q.head.length =
      q.head.take q.head.length := by
    rw [params, List.take_left' rfl, List.take_length]
  have hlist : (q.params ask c).drop (q.head.length + 2) =
      q.list ++ (c ++ ask.trailing) := by
    rw [params, ← List.append_assoc]
    exact List.drop_left' (by simp)
  have hrest : (q.params ask c).drop (q.head.length + 2 + q.list.length) =
      c ++ ask.trailing := by
    rw [← List.drop_drop, hlist]
    exact List.drop_left' rfl
  have hranges : readRanges (q.params ask c) (q.head.length + 2)
      ask.maximum = .ok (q.ranges, q.list.length) := by
    refine readRanges_of_front q.readsRanges le_rfl ?_ (by omega) hask.least
    rw [hlist, List.take_left' rfl, List.drop_zero, List.take_length]
  have hpdu : q.pdu ≠ sdpSearchRequest := by
    rcases q.attributes with h | h <;> rw [h] <;> decide
  refine bind_eq_ok.mpr ⟨_, readTarget_of_front q.readsTarget le_rfl hhead, ?_⟩
  refine bind_eq_ok.mpr ⟨_, sub_eq_ok.mpr ⟨by omega, rfl⟩, ?_⟩
  refine bind_eq_ok.mpr ⟨(), refuseIf_eq_ok.mpr (by omega), ?_⟩
  refine bind_eq_ok.mpr ⟨_, readBe_middle rfl (length_beBytes 2 _), ?_⟩
  rw [beNat_beBytes_of_lt hask.maximum, if_neg hpdu]
  refine bind_eq_ok.mpr ⟨_, hranges, ?_⟩
  refine bind_eq_ok.mpr ⟨resume, ?_, ?_⟩
  · exact readContinuation_of_continues (by omega) hrest hc
  refine bind_eq_ok.mpr ⟨full, refusedAs_eq_ok.mpr hfull, ?_⟩
  exact attributeReply_eq hresume hask.capacity

/-- The fields in front of the parameters are read back. -/
theorem buildSdpResponse_finishPdu {pdu transaction capacity : Nat}
    {params parameters : Bytes} (hpdu : pdu < 256)
    (htransaction : transaction < 65536) (hparams : params.length < 65536)
    (hcapacity : 16 ≤ capacity)
    (hreply : replyParameters pdu params capacity = .ok parameters) :
    buildSdpResponse (finishPdu pdu transaction params) capacity =
      .ok (some (finishPdu (pdu + 1) transaction parameters)) := by
  have hlength : (finishPdu pdu transaction params).length =
      5 + params.length := by
    simp only [finishPdu, List.length_append, length_beBytes]
  rw [buildSdpResponse, if_neg (by omega)]
  have hpduRead : (readBe (finishPdu pdu transaction params) 0 1 :
      Read Empty Nat) = .ok pdu := by
    rw [finishPdu, List.append_assoc, List.append_assoc, ← List.nil_append
      (beBytes 1 pdu ++ _), readBe_middle List.length_nil
      (length_beBytes 1 pdu), beNat_beBytes_of_lt hpdu]
  have htransactionRead : (readBe (finishPdu pdu transaction params) 1 2 :
      Read Empty Nat) = .ok transaction := by
    rw [finishPdu, List.append_assoc, List.append_assoc,
      readBe_middle (length_beBytes 1 pdu) (length_beBytes 2 _),
      beNat_beBytes_of_lt htransaction]
  have hlengthRead : (readBe (finishPdu pdu transaction params) 3 2 :
      Read Empty Nat) = .ok params.length := by
    rw [finishPdu, List.append_assoc,
      readBe_middle (by simp) (length_beBytes 2 _), beNat_beBytes_of_lt hparams]
  have hparamsRead : (slice (finishPdu pdu transaction params) 5
      params.length : Read Empty Bytes) = .ok params := by
    rw [finishPdu, ← List.append_nil (_ ++ params), List.append_assoc]
    exact slice_middle (by simp) rfl
  refine bind_eq_ok.mpr ⟨pdu, hpduRead, ?_⟩
  refine bind_eq_ok.mpr ⟨transaction, htransactionRead, ?_⟩
  refine bind_eq_ok.mpr ⟨params.length, hlengthRead, ?_⟩
  refine bind_eq_ok.mpr ⟨params.length, sub_eq_ok.mpr (by omega), ?_⟩
  rw [if_neg (not_not.mpr rfl)]
  refine bind_eq_ok.mpr ⟨params, hparamsRead, ?_⟩
  rw [hreply]
  rfl

/-- Every request is answered with the part of the lists it asks for. -/
theorem Query.answers (q : Query) (hask : ask.Valid q) (hc : Continues c resume)
    (hfull : fullLists q.pdu q.target q.ranges = .ok full)
    (hresume : resume < full.length ∨ resume = 0) :
    buildSdpResponse (q.request ask c) ask.capacity =
      .ok (some (q.reply ask full resume)) := by
  have hpdu : q.pdu < 256 := by
    rcases q.attributes with h | h <;> rw [h] <;> decide
  have hlong : c.length ≤ 3 := by
    rcases hc with ⟨rfl, -⟩ | ⟨rfl, -⟩ <;> simp
  have hlength : (q.params ask c).length < 65536 := by
    have hfits := hask.length
    simp only [params, List.length_append, length_beBytes]
    omega
  have hcapacity : 16 ≤ ask.capacity := by
    have hleast := hask.least
    have hroom := hask.capacity
    omega
  exact buildSdpResponse_finishPdu hpdu hask.transaction hlength hcapacity
    (q.replyParameters_eq hask hc hfull hresume)

/-! ## Every request that is answered -/

theorem take_eq_self_of_take {bs : Bytes} {n : Nat} :
    (bs.take n).take n = bs.take n := by
  rw [List.take_take, Nat.min_self]

theorem take_drop_append_drop (bs : Bytes) (pos n : Nat) :
    (bs.drop pos).take n ++ bs.drop (pos + n) = bs.drop pos := by
  rw [← List.drop_drop, List.take_append_drop]

/-- The number of a field is written as the bytes of the field. -/
theorem field_eq {bs : Bytes} {pos n : Nat} (h : pos + n ≤ bs.length) :
    beBytes n (beNat ((bs.drop pos).take n)) = (bs.drop pos).take n := by
  have hbytes := beBytes_beNat ((bs.drop pos).take n)
  rwa [List.length_take, List.length_drop, Nat.min_eq_left (by omega)] at hbytes

theorem exists_params {pdu capacity : Nat} {params parameters : Bytes}
    (hpdu : pdu = sdpAttributeRequest ∨ pdu = sdpSearchAttributeRequest)
    (h : replyParameters pdu params capacity = .ok parameters)
    (transaction : Nat) :
    ∃ (q : Query) (ask : Ask) (c full : Bytes) (resume : Nat),
      q.pdu = pdu ∧ ask.transaction = transaction ∧
        params = q.params ask c ∧ 7 ≤ ask.maximum ∧ Continues c resume ∧
        fullLists q.pdu q.target q.ranges = .ok full ∧
        (resume < full.length ∨ resume = 0) ∧
        parameters = partParameters full resume ask.maximum := by
  obtain ⟨⟨target, offset⟩, htarget, h⟩ := bind_eq_ok.mp h
  obtain ⟨left, hleft, h⟩ := bind_eq_ok.mp h
  obtain ⟨u, htwo, h⟩ := bind_eq_ok.mp h
  obtain ⟨maximum, hmaximum, h⟩ := bind_eq_ok.mp h
  have hsearch : pdu ≠ sdpSearchRequest := by
    rcases hpdu with rfl | rfl <;> decide
  rw [if_neg hsearch] at h
  obtain ⟨⟨ranges, length⟩, hranges, h⟩ := bind_eq_ok.mp h
  obtain ⟨resume, hresume, h⟩ := bind_eq_ok.mp h
  obtain ⟨full, hfull, h⟩ := bind_eq_ok.mp h
  obtain ⟨hroom, rfl⟩ := readBe_eq_ok.mp hmaximum
  have hoffset : offset ≤ params.length := by omega
  have hlength := ((yields_readRanges hroom _).result _ hranges).2
  dsimp only at hlength
  obtain ⟨c, trailing, htail, hc⟩ := readContinuation_eq_ok hresume
  have hheadLength : (params.take offset).length = offset := by
    rw [List.length_take, Nat.min_eq_left hoffset]
  have hlistLength : ((params.drop (offset + 2)).take length).length =
      length := by
    rw [List.length_take, List.length_drop]
    omega
  have hhead : readTarget pdu (params.take offset) =
      .ok (target, (params.take offset).length) := by
    rw [hheadLength]
    exact readTarget_of_front htarget le_rfl take_eq_self_of_take
  have hlist : readRanges ((params.drop (offset + 2)).take length) 0 7 =
      .ok (ranges, ((params.drop (offset + 2)).take length).length) := by
    rw [hlistLength]
    refine readRanges_of_front hranges le_rfl ?_ (Nat.zero_le _) le_rfl
    rw [List.drop_zero]
    exact take_eq_self_of_take
  refine ⟨⟨pdu, _, _, target, ranges, hpdu, hhead, hlist⟩,
    ⟨transaction, beNat ((params.drop offset).take 2), capacity, trailing⟩,
    c, full, resume, rfl, rfl, ?_, seven_le_of_readRanges hranges, hc,
    refusedAs_eq_ok.mp hfull, eq_of_attributeReply h⟩
  rw [Query.params]
  dsimp only
  rw [field_eq hroom, ← htail, take_drop_append_drop, take_drop_append_drop,
    List.take_append_drop]

theorem exists_query {request reply : Bytes} {capacity : Nat}
    (hreply : buildSdpResponse request capacity = .ok (some reply))
    (hpdu : beNat (request.take 1) = sdpAttributeRequest ∨
      beNat (request.take 1) = sdpSearchAttributeRequest)
    (herror : beNat (reply.take 1) ≠ sdpErrorResponse) :
    ∃ (q : Query) (ask : Ask) (c full : Bytes) (resume : Nat),
      request = q.request ask c ∧ 7 ≤ ask.maximum ∧ Continues c resume ∧
        fullLists q.pdu q.target q.ranges = .ok full ∧
        (resume < full.length ∨ resume = 0) ∧
        reply = q.reply ask full resume := by
  have hno : ∀ transaction code, errorPdu capacity transaction code ≠
      some reply := by
    intro transaction code heq
    rw [errorPdu] at heq
    split_ifs at heq
    obtain rfl := Option.some.inj heq
    apply herror
    rw [finishPdu, List.append_assoc, List.append_assoc,
      List.take_left' (length_beBytes 1 _)]
    exact beNat_beBytes_of_lt (by decide)
  unfold buildSdpResponse at hreply
  split_ifs at hreply with hshort
  · cases hreply
  obtain ⟨pdu, hpduRead, hreply⟩ := bind_eq_ok.mp hreply
  obtain ⟨transaction, htransaction, hreply⟩ := bind_eq_ok.mp hreply
  obtain ⟨parameterLength, hlength, hreply⟩ := bind_eq_ok.mp hreply
  obtain ⟨size, hsize, hreply⟩ := bind_eq_ok.mp hreply
  obtain ⟨hone, rfl⟩ := readBe_eq_ok.mp hpduRead
  obtain ⟨htwo, rfl⟩ := readBe_eq_ok.mp htransaction
  obtain ⟨hfive, hfield⟩ := readBe_eq_ok.mp hlength
  obtain ⟨-, rfl⟩ := sub_eq_ok.mp hsize
  split_ifs at hreply with heq
  · exact absurd (pure_eq_ok.mp hreply) (hno _ _)
  rw [not_ne_iff] at heq
  obtain ⟨params, hparams, hreply⟩ := bind_eq_ok.mp hreply
  obtain ⟨hfits, rfl⟩ := slice_eq_ok.mp hparams
  have hall : (request.drop 5).take parameterLength = request.drop 5 :=
    List.take_of_length_le (by rw [List.length_drop]; omega)
  rw [hall] at hreply
  cases hparameters : replyParameters (beNat (request.take 1))
      (request.drop 5) capacity with
  | error failure =>
      rw [List.drop_zero, hparameters] at hreply
      cases failure with
      | pastEnd => cases hreply
      | refused refusal =>
          cases refusal with
          | error code => exact absurd (pure_eq_ok.mp hreply) (hno _ _)
          | silent => cases hreply
  | ok parameters =>
      obtain ⟨q, ask, c, full, resume, hq, hask, hparams, hleast, hc, hfull,
        hresume, rfl⟩ := exists_params hpdu hparameters (beNat ((request.drop 1).take 2))
      rw [List.drop_zero, hparameters] at hreply
      have hsent := Option.some.inj (pure_eq_ok.mp hreply)
      rw [← hq, ← hask] at hsent
      refine ⟨q, ask, c, full, resume, ?_, hleast, hc, hfull, hresume,
        hsent.symm⟩
      have hbody : (request.drop 5).length = beNat ((request.drop 3).take 2) := by
        rw [List.length_drop, hfield, heq]
      have hpduField := field_eq hone
      rw [List.drop_zero] at hpduField
      rw [Query.request, ← hparams, hq, hask, finishPdu, hbody, hpduField,
        field_eq htwo, field_eq hfive, List.append_assoc, List.append_assoc,
        take_drop_append_drop request 3 2, take_drop_append_drop request 1 2,
        List.take_append_drop]

/-! ## Putting the parts together -/

/-- The part of the lists in a reply, and the continuation field behind it;
none in an error. -/
def readReply (reply : Bytes) : Option (Bytes × Bytes) :=
  if beNat (reply.take 1) = sdpErrorResponse then none
  else
    let chunkLength := beNat ((reply.drop 5).take 2)
    some ((reply.drop 7).take chunkLength, reply.drop (7 + chunkLength))

/-- Repeats a request until nothing is left, each time with the continuation
field of the reply before it. -/
def Query.collect (q : Query) (asks : Nat → Ask) (fuel n : Nat)
    (reply : Bytes) : Option Bytes :=
  match readReply reply with
  | none => none
  | some (chunk, next) =>
      if next = [0] then some chunk
      else
        match fuel with
        | 0 => none
        | fuel + 1 =>
            match buildSdpResponse (q.request (asks n) next)
                (asks n).capacity with
            | .ok (some reply) =>
                (q.collect asks fuel (n + 1) reply).map (chunk ++ ·)
            | _ => none

theorem Query.readReply_reply (q : Query) (hfull : full.length ≤ 640) :
    readReply (q.reply ask full resume) =
      some ((full.drop resume).take ask.maximum,
        continuation (resume + ((full.drop resume).take ask.maximum).length)
          full.length) := by
  have hchunk : ((full.drop resume).take ask.maximum).length < 256 ^ 2 := by
    rw [List.length_take, List.length_drop]
    omega
  have hpdu : beNat ((q.reply ask full resume).take 1) = q.pdu + 1 := by
    have hlt : q.pdu + 1 < 256 ^ 1 := by
      rcases q.attributes with h | h <;> rw [h] <;> decide
    rw [reply, finishPdu, List.append_assoc, List.append_assoc,
      List.take_left' (length_beBytes 1 _), beNat_beBytes_of_lt hlt]
  have hne : q.pdu + 1 ≠ sdpErrorResponse := by
    rcases q.attributes with h | h <;> rw [h] <;> decide
  have hbody : (q.reply ask full resume).drop 5 =
      beBytes 2 ((full.drop resume).take ask.maximum).length ++
        ((full.drop resume).take ask.maximum ++
          continuation (resume +
            ((full.drop resume).take ask.maximum).length) full.length) := by
    rw [reply, finishPdu, partParameters,
      List.append_assoc (beBytes 2 _) _ (continuation _ _)]
    exact List.drop_left' (by simp)
  have hlength : beNat (((q.reply ask full resume).drop 5).take 2) =
      ((full.drop resume).take ask.maximum).length := by
    rw [hbody, List.take_left' (length_beBytes 2 _),
      beNat_beBytes_of_lt hchunk]
  have hrest : (q.reply ask full resume).drop 7 =
      (full.drop resume).take ask.maximum ++
        continuation (resume + ((full.drop resume).take ask.maximum).length)
          full.length := by
    rw [← List.drop_drop (i := 2) (j := 5), hbody]
    exact List.drop_left' (length_beBytes 2 _)
  rw [readReply, hpdu, if_neg hne, hlength]
  dsimp only
  rw [← List.drop_drop, hrest, List.take_left' rfl, List.drop_left' rfl]

/-- A reply that is cut continues behind its chunk. -/
theorem continues_continuation {next : Nat} (hnext : next < full.length)
    (hfull : full.length ≤ 640) :
    Continues (continuation next full.length) next ∧
      continuation next full.length ≠ [0] := by
  rw [continuation, if_pos hnext]
  exact ⟨.inr ⟨rfl, by omega⟩, by simp⟩

theorem take_append_drop_length (bs : Bytes) (n : Nat) :
    bs.take n ++ bs.drop (bs.take n).length = bs := by
  rcases le_total n bs.length with hn | hn
  · rw [List.length_take_of_le hn, List.take_append_drop]
  · rw [List.take_of_length_le hn, List.drop_length, List.append_nil]

theorem Query.collect_eq (q : Query) {asks : Nat → Ask}
    (hasks : ∀ n, (asks n).Valid q)
    (hfull : fullLists q.pdu q.target q.ranges = .ok full)
    (hsmall : full.length ≤ 640) {fuel n : Nat} (hleast : 7 ≤ ask.maximum)
    (hfuel : full.length ≤ resume + fuel) :
    q.collect asks fuel n (q.reply ask full resume) =
      some (full.drop resume) := by
  induction fuel generalizing n ask resume with
  | zero =>
      have hempty : full.drop resume = [] :=
        List.drop_eq_nil_of_le (by omega)
      have hend : ¬resume + ([] : Bytes).length < full.length := by
        rw [List.length_nil]
        omega
      rw [collect, q.readReply_reply hsmall]
      dsimp only
      rw [hempty, List.take_nil, continuation, if_neg hend, if_pos rfl]
  | succ fuel ih =>
      rw [collect, q.readReply_reply hsmall]
      dsimp only
      by_cases hmore : resume +
          ((full.drop resume).take ask.maximum).length < full.length
      · obtain ⟨hnext, hne⟩ := continues_continuation hmore hsmall
        have hchunk : 1 ≤ ((full.drop resume).take ask.maximum).length := by
          rw [List.length_take, List.length_drop]
          omega
        rw [if_neg hne, q.answers (hasks n) hnext hfull (.inl hmore)]
        dsimp only
        rw [ih (hasks n).least (by omega), Option.map_some]
        congr 1
        rw [← List.drop_drop]
        exact take_append_drop_length _ _
      · rw [continuation, if_neg hmore, if_pos rfl]
        congr 1
        apply List.take_of_length_le
        rw [List.length_take, List.length_drop] at hmore
        rw [List.length_drop]
        omega

theorem fullLists_length_le
    (hfull : fullLists q.pdu q.target q.ranges = .ok full) :
    full.length ≤ 640 := by
  have htarget := (yields_readTarget q.pdu q.head).result _ q.readsTarget
  exact (yields_fullLists htarget.1 q.ranges).result full hfull

/-- A request that is answered can be repeated until the lists are complete,
with any limits, and the parts are what a single reply would carry. -/
theorem sdp_reassembly {request reply : Bytes} {capacity : Nat}
    (hreply : buildSdpResponse request capacity = .ok (some reply))
    (hpdu : beNat (request.take 1) = sdpAttributeRequest ∨
      beNat (request.take 1) = sdpSearchAttributeRequest)
    (herror : beNat (reply.take 1) ≠ sdpErrorResponse) :
    ∃ (q : Query) (ask : Ask) (c full : Bytes) (resume : Nat),
      request = q.request ask c ∧ Continues c resume ∧
      fullLists q.pdu q.target q.ranges = .ok full ∧
      (∀ ask' : Ask, ask'.Valid q → full.length ≤ ask'.maximum →
        ∃ reply', buildSdpResponse (q.request ask' c) ask'.capacity =
            .ok (some reply') ∧
          readReply reply' = some (full.drop resume, [0])) ∧
      ∀ asks : Nat → Ask, (∀ n, (asks n).Valid q) →
        q.collect asks full.length 0 reply = some (full.drop resume) := by
  obtain ⟨q, ask, c, full, resume, hrequest, hleast, hc, hfull, hresume, rfl⟩ :=
    exists_query hreply hpdu herror
  have hsmall := fullLists_length_le hfull
  refine ⟨q, ask, c, full, resume, hrequest, hc, hfull, ?_, ?_⟩
  · intro ask' hask' hmaximum
    refine ⟨_, q.answers hask' hc hfull hresume, ?_⟩
    have hwhole : (full.drop resume).take ask'.maximum = full.drop resume :=
      List.take_of_length_le (by rw [List.length_drop]; omega)
    have hend : ¬resume + (full.drop resume).length < full.length := by
      rw [List.length_drop]
      omega
    rw [q.readReply_reply hsmall, hwhole, continuation, if_neg hend]
  · intro asks hasks
    exact q.collect_eq hasks hfull hsmall hleast (by omega)

/-- A request for all attributes of the first record, seven bytes at a time. -/
def handleRequest : Bytes :=
  [4, 0, 1, 0, 14, 0, 1, 0, 0, 0, 7, 0x35, 5, 0x0A, 0, 0, 0xFF, 0xFF, 0]

def handleReply : Bytes :=
  [5, 0, 1, 0, 12, 0, 7, 0x35, 75, 9, 0, 0, 0x0A, 0, 2, 0, 7]

theorem buildSdpResponse_handleRequest :
    buildSdpResponse handleRequest 100 = .ok (some handleReply) := by
  decide

theorem sdp_reassembly_handleRequest :
    ∃ (q : Query) (full : Bytes) (resume : Nat), ∀ asks : Nat → Ask,
      (∀ n, (asks n).Valid q) →
      q.collect asks full.length 0 handleReply = some (full.drop resume) := by
  obtain ⟨q, -, -, full, resume, -, -, -, -, hcollect⟩ :=
    sdp_reassembly buildSdpResponse_handleRequest (.inl (by decide))
      (by decide)
  exact ⟨q, full, resume, hcollect⟩

end Audiox.Bluetooth
