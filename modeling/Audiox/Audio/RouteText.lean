import Audiox.Audio.RoutingHelper
import Audiox.Support.TextFields
import Mathlib

/-!
# Routes as texts

`parseRouteString` works on a copy of at most 255 bytes.  It means to accept
four fields, two ids and two channel numbers, and accepts more: a fourth comma,
an id that is cut to fit, and a channel that is empty or has a sign.  Here are
the texts it reads as it means to.
-/

namespace Audiox

open ByteCodec Config TextFields

/-! ## What is meant -/

/-- One digit at least, and digits only. -/
def Digits (s : Bytes) : Prop :=
  s ≠ [] ∧ ∀ c ∈ s, isDigit c = true

/-- A trimmed id that fits its field of the edge. -/
def IsId (s id : Bytes) : Prop :=
  s ≠ [] ∧ s.length ≤ 63 ∧ id = s

/-- A trimmed number from 0 to 255. -/
def IsChannel (s : Bytes) (channel : UInt8) : Prop :=
  Digits s ∧ decimal s = channel.toNat

/-- The whole text has four fields, and they describe the edge. -/
def RouteOf (text : Bytes) (edge : AudioGraphEdgeInfo) : Prop :=
  ∃ src dst srcField dstField : Bytes,
    text.splitOn (chr ',') = [src, dst, srcField, dstField] ∧
    IsId (trimSpace src) edge.src ∧ IsId (trimSpace dst) edge.dst ∧
    IsChannel (trimSpace srcField) edge.srcChannel ∧
    IsChannel (trimSpace dstField) edge.dstChannel

def formatRoute (edge : AudioGraphEdgeInfo) : Bytes :=
  edge.src ++ chr ',' :: (edge.dst ++ chr ',' ::
    (showDecimal edge.srcChannel.toNat ++ chr ',' ::
      showDecimal edge.dstChannel.toNat))

/-- The text is accepted exactly if it is a route, and the edge that comes of
it is read back after formatting. -/
def ParsedExactly (text : Bytes) : Prop :=
  (∀ edge : AudioGraphEdgeInfo,
    parseRouteString text = .ok edge ↔ RouteOf text edge) ∧
  ∀ edge : AudioGraphEdgeInfo, parseRouteString text = .ok edge →
    parseRouteString (formatRoute edge) = .ok edge

/-! ## What goes wrong -/

/-- The copy passes the tests of the code with these fields. -/
structure Passes (copy src dst srcField dstField : Bytes)
    (others : List Bytes) : Prop where
  fields : copy.splitOn (chr ',') =
    src :: dst :: srcField :: dstField :: others
  source : trimSpace src ≠ []
  destination : trimSpace dst ≠ []
  sourceChannel : (parseChannel (trimSpace srcField)).isSome = true
  destinationChannel : (parseChannel (trimSpace dstField)).isSome = true

/-- The ways in which a text is misread. -/
inductive Misread (text : Bytes) : Prop where
  /-- the copy passes, and the text has a fourth comma -/
  | extraField (src dst srcField dstField : Bytes) (others : List Bytes)
      (passes : Passes (text.take 255) src dst srcField dstField others)
      (extra : 4 < (text.splitOn (chr ',')).length)
  /-- the copy passes with an id that does not fit -/
  | longId (src dst srcField dstField : Bytes) (others : List Bytes)
      (passes : Passes (text.take 255) src dst srcField dstField others)
      (long : 63 < (trimSpace src).length ∨ 63 < (trimSpace dst).length)
  /-- the copy passes with a source channel that is empty or has a sign -/
  | sourceChannel (src dst srcField dstField : Bytes) (others : List Bytes)
      (passes : Passes (text.take 255) src dst srcField dstField others)
      (notPlain : ¬ Digits (trimSpace srcField))
  /-- the copy passes, and the destination channel of the text is empty, has a
  sign, or is not the one of the copy -/
  | destinationChannel (src dst srcField dstField wholeField : Bytes)
      (others : List Bytes)
      (passes : Passes (text.take 255) src dst srcField dstField others)
      (fields : text.splitOn (chr ',') = [src, dst, srcField, wholeField])
      (notPlain : ¬ Digits (trimSpace wholeField) ∨
        parseChannel (trimSpace wholeField) ≠
          parseChannel (trimSpace dstField))
  /-- the text is a route, and its third comma is not in the copy -/
  | cutOff (edge : AudioGraphEdgeInfo) (src dst srcField dstField : Bytes)
      (route : RouteOf text edge)
      (fields : text.splitOn (chr ',') = [src, dst, srcField, dstField])
      (behind : 255 < thirdEnd src dst srcField)

/-! ## Channels -/

theorem trimSpace_eq (s : Bytes) : trimSpace s = trimmed Config.isSpace s :=
  rfl

theorem Digits.not_space {s : Bytes} (h : Digits s) :
    ∀ c ∈ s, ¬ Config.isSpace c = true := by
  intro c hc
  rw [(isBlank_of_isDigit (h.2 c hc)).2.2]
  exact Bool.false_ne_true

/-- The channel of a plain number. -/
theorem parseChannel_digits {s : Bytes} (h : Digits s) :
    parseChannel s = if decimal s ≤ 255 then some (UInt8.ofNat (decimal s))
      else none := by
  rw [parseChannel, strtol_of_digits h.1 h.2]
  simp only [ne_eq, not_true_eq_false, false_or]
  by_cases hle : decimal s ≤ 255
  · have hclamp : clampLong (decimal s) = decimal s := by
      rw [clampLong]
      omega
    rw [hclamp, if_pos hle, if_neg (by omega), Int.toNat_natCast]
  · have hbig : clampLong (decimal s) > 255 := by
      rw [clampLong]
      omega
    rw [if_neg hle, if_pos (.inr hbig)]

theorem parseChannel_eq_some_iff {s : Bytes} (h : Digits s)
    {channel : UInt8} :
    parseChannel s = some channel ↔ IsChannel s channel := by
  rw [parseChannel_digits h]
  constructor
  · intro hsome
    split_ifs at hsome with hle
    obtain rfl := Option.some.inj hsome
    exact ⟨h, (UInt8.toNat_ofNat_of_lt' (by
      show decimal s < 256
      omega)).symm⟩
  · rintro ⟨-, heq⟩
    have hlt := channel.toNat_lt
    rw [if_pos (by omega), heq, UInt8.ofNat_toNat]

theorem decimal_take_le (s : Bytes) (n : Nat) :
    decimal (s.take n) ≤ decimal s := by
  have hmono : ∀ (l : Bytes) (v : Nat),
      v ≤ l.foldl (fun n c => n * 10 + (c.toNat - 48)) v := by
    intro l
    induction l with
    | nil => exact fun v => le_rfl
    | cons c l ih =>
        intro v
        rw [List.foldl_cons]
        exact le_trans (by omega) (ih _)
  have hsplit : decimal s = (s.drop n).foldl
      (fun n c => n * 10 + (c.toNat - 48)) (decimal (s.take n)) := by
    rw [decimal, decimal, ← List.foldl_append, List.take_append_drop]
  rw [hsplit]
  exact hmono _ _

/-- A shorter copy of a field with a channel has a channel too. -/
theorem parseChannel_take {field : Bytes} {channel : UInt8}
    (h : IsChannel (trimSpace field) channel) (n : Nat) :
    (parseChannel (trimSpace (field.take n))).isSome = true := by
  rw [trimSpace_eq] at h ⊢
  obtain ⟨m, hm⟩ := trimmed_take h.1.not_space n
  rw [hm]
  by_cases hnil : (trimmed Config.isSpace field).take m = []
  · rw [hnil]
    rfl
  · have hdigits : Digits ((trimmed Config.isSpace field).take m) :=
      ⟨hnil, fun c hc => h.1.2 c (List.mem_of_mem_take hc)⟩
    have hle := decimal_take_le (trimmed Config.isSpace field) m
    have hlt := channel.toNat_lt
    have heq := h.2
    rw [parseChannel_digits hdigits, if_pos (by omega)]
    rfl

/-! ## The parser -/

/-- What the code accepts, and the edge it makes of it. -/
theorem parseRouteString_eq_ok_iff {text : Bytes} {edge : AudioGraphEdgeInfo} :
    parseRouteString text = .ok edge ↔
      ∃ (src dst srcField dstField : Bytes) (others : List Bytes),
        Passes (text.take 255) src dst srcField dstField others ∧
        edge.src = (trimSpace src).take 63 ∧
        edge.dst = (trimSpace dst).take 63 ∧
        parseChannel (trimSpace srcField) = some edge.srcChannel ∧
        parseChannel (trimSpace dstField) = some edge.dstChannel := by
  rw [parseRouteString]
  have hcopy : copyBounded 256 text = text.take 255 := rfl
  rw [hcopy]
  constructor
  · intro h
    split at h
    case h_1 src dst srcField dstField others heq =>
      split_ifs at h with hempty
      obtain ⟨hsrc, hdst⟩ := not_or.mp hempty
      cases hn : parseChannel (trimSpace srcField) with
      | none =>
          simp only [hn] at h
          cases h
      | some n =>
          cases hm : parseChannel (trimSpace dstField) with
          | none =>
              simp only [hn, hm] at h
              cases h
          | some m =>
              simp only [hn, hm] at h
              obtain rfl := Except.ok.inj h
              exact ⟨src, dst, srcField, dstField, others,
                ⟨heq, hsrc, hdst, by rw [hn]; rfl, by rw [hm]; rfl⟩,
                rfl, rfl, hn, hm⟩
    case h_2 => cases h
  · rintro ⟨src, dst, srcField, dstField, others, hpasses, hsrc, hdst, hn, hm⟩
    rw [hpasses.fields]
    simp only [hpasses.source, hpasses.destination, or_self, if_false, hn, hm]
    have hcut : ∀ s : Bytes, copyBounded 64 s = s.take 63 := fun s => rfl
    rw [hcut, hcut, ← hsrc, ← hdst]

/-- What passes is accepted with some edge. -/
theorem Passes.exists_ok {text src dst srcField dstField : Bytes}
    {others : List Bytes}
    (h : Passes (text.take 255) src dst srcField dstField others) :
    ∃ edge : AudioGraphEdgeInfo, parseRouteString text = .ok edge ∧
      parseChannel (trimSpace srcField) = some edge.srcChannel ∧
      parseChannel (trimSpace dstField) = some edge.dstChannel := by
  obtain ⟨n, hn⟩ := Option.isSome_iff_exists.mp h.sourceChannel
  obtain ⟨m, hm⟩ := Option.isSome_iff_exists.mp h.destinationChannel
  exact ⟨⟨(trimSpace src).take 63, (trimSpace dst).take 63, n, m⟩,
    parseRouteString_eq_ok_iff.mpr ⟨src, dst, srcField, dstField, others, h,
      rfl, rfl, hn, hm⟩, hn, hm⟩

/-- The first three fields of a copy are those of the text, and the text has no
fewer fields. -/
theorem Passes.fields_of_text {text src dst srcField dstField : Bytes}
    {others : List Bytes}
    (h : Passes (text.take 255) src dst srcField dstField others) :
    (∃ rest : List Bytes, rest ≠ [] ∧
      text.splitOn (chr ',') = src :: dst :: srcField :: rest) ∧
    thirdEnd src dst srcField ≤ 255 := by
  obtain ⟨tail, hsrc, hdst, hfield, heq, -⟩ :=
    (splitOn_eq_four_iff (List.cons_ne_nil _ _)).mp h.fields
  constructor
  · refine ⟨(tail ++ text.drop 255).splitOn (chr ','),
      List.splitOn_ne_nil _ _, ?_⟩
    apply (splitOn_eq_four_iff (List.splitOn_ne_nil _ _)).mpr
    refine ⟨tail ++ text.drop 255, hsrc, hdst, hfield, ?_, rfl⟩
    conv_lhs => rw [← List.take_append_drop 255 text, heq]
    simp
  · have hlen := congrArg List.length heq
    simp only [List.length_take, List.length_append, List.length_cons] at hlen
    rw [thirdEnd]
    omega

theorem Passes.eq_of_fields {text src dst srcField dstField : Bytes}
    {others : List Bytes}
    (h : Passes (text.take 255) src dst srcField dstField others)
    {src' dst' srcField' wholeField : Bytes}
    (hfields : text.splitOn (chr ',') = [src', dst', srcField', wholeField]) :
    src' = src ∧ dst' = dst ∧ srcField' = srcField := by
  obtain ⟨⟨rest, -, htext⟩, -⟩ := h.fields_of_text
  rw [htext] at hfields
  simp only [List.cons.injEq] at hfields
  exact ⟨hfields.1.symm, hfields.2.1.symm, hfields.2.2.1.symm⟩

/-! ## Texts that are read as meant -/

theorem routeOf_of_ok {text : Bytes} (h : ¬ Misread text)
    {edge : AudioGraphEdgeInfo} (hok : parseRouteString text = .ok edge) :
    RouteOf text edge := by
  obtain ⟨src, dst, srcField, dstField, others, hpasses, hsrc, hdst, hn, hm⟩ :=
    parseRouteString_eq_ok_iff.mp hok
  obtain ⟨⟨rest, hrest, htext⟩, -⟩ := hpasses.fields_of_text
  have hfour : ¬ 4 < (text.splitOn (chr ',')).length :=
    fun hlt => h (.extraField _ _ _ _ _ hpasses hlt)
  obtain ⟨wholeField, rfl⟩ : ∃ wholeField : Bytes, rest = [wholeField] := by
    obtain ⟨wholeField, rest, rfl⟩ := List.exists_cons_of_ne_nil hrest
    rw [htext] at hfour
    simp only [List.length_cons] at hfour
    have hnil : rest = [] := List.length_eq_zero_iff.mp (by omega)
    exact ⟨wholeField, by rw [hnil]⟩
  have hshort : (trimSpace src).length ≤ 63 ∧ (trimSpace dst).length ≤ 63 := by
    by_contra hlong
    apply h
    exact .longId _ _ _ _ _ hpasses (by omega)
  have hplain : Digits (trimSpace srcField) := by
    by_contra hplain
    exact h (.sourceChannel _ _ _ _ _ hpasses hplain)
  have hwhole : Digits (trimSpace wholeField) ∧
      parseChannel (trimSpace wholeField) =
        parseChannel (trimSpace dstField) := by
    by_contra hwhole
    apply h
    exact .destinationChannel _ _ _ _ _ _ hpasses htext
      (not_and_or.mp hwhole)
  refine ⟨src, dst, srcField, wholeField, htext, ?_, ?_, ?_, ?_⟩
  · exact ⟨hpasses.source, hshort.1,
      by rw [hsrc, List.take_of_length_le hshort.1]⟩
  · exact ⟨hpasses.destination, hshort.2,
      by rw [hdst, List.take_of_length_le hshort.2]⟩
  · exact (parseChannel_eq_some_iff hplain).mp hn
  · exact (parseChannel_eq_some_iff hwhole.1).mp (hwhole.2.trans hm)

theorem IsChannel.unique {s : Bytes} {n m : UInt8} (hn : IsChannel s n)
    (hm : IsChannel s m) : n = m :=
  UInt8.toNat_inj.mp (hn.2.symm.trans hm.2)

/-- A route whose third comma is in the copy passes. -/
theorem passes_of_routeOf {text : Bytes} {edge : AudioGraphEdgeInfo}
    {src dst srcField dstField : Bytes}
    (hfields : text.splitOn (chr ',') = [src, dst, srcField, dstField])
    (hsrc : IsId (trimSpace src) edge.src)
    (hdst : IsId (trimSpace dst) edge.dst)
    (hn : IsChannel (trimSpace srcField) edge.srcChannel)
    (hm : IsChannel (trimSpace dstField) edge.dstChannel)
    (hend : thirdEnd src dst srcField ≤ 255) :
    Passes (text.take 255) src dst srcField
      (dstField.take (255 - thirdEnd src dst srcField)) [] := by
  obtain ⟨tail, hsrc', hdst', hfield', rfl, htail⟩ :=
    (splitOn_eq_four_iff (List.cons_ne_nil _ _)).mp hfields
  obtain ⟨hcomma, rfl⟩ := splitOn_eq_singleton_iff.mp htail
  constructor
  · rw [take_four hend]
    apply (splitOn_eq_four_iff (List.cons_ne_nil _ _)).mpr
    refine ⟨_, hsrc', hdst', hfield', rfl, ?_⟩
    apply List.splitOn_eq_singleton
    exact fun hmem => hcomma (List.mem_of_mem_take hmem)
  · exact hsrc.1
  · exact hdst.1
  · rw [(parseChannel_eq_some_iff hn.1).mpr hn]
    rfl
  · exact parseChannel_take hm _

theorem ok_of_routeOf {text : Bytes} (h : ¬ Misread text)
    {edge : AudioGraphEdgeInfo} (hroute : RouteOf text edge) :
    parseRouteString text = .ok edge := by
  obtain ⟨src, dst, srcField, dstField, hfields, hsrc, hdst, hn, hm⟩ := hroute
  have hend : thirdEnd src dst srcField ≤ 255 := by
    by_contra hbehind
    exact h (.cutOff edge src dst srcField dstField
      ⟨src, dst, srcField, dstField, hfields, hsrc, hdst, hn, hm⟩ hfields
      (Nat.lt_of_not_le hbehind))
  have hpasses := passes_of_routeOf hfields hsrc hdst hn hm hend
  have hsame : parseChannel (trimSpace dstField) =
      parseChannel (trimSpace
        (dstField.take (255 - thirdEnd src dst srcField))) := by
    by_contra hother
    exact h (.destinationChannel _ _ _ _ _ _ hpasses hfields (.inr hother))
  apply parseRouteString_eq_ok_iff.mpr
  refine ⟨_, _, _, _, _, hpasses, ?_, ?_, ?_, ?_⟩
  · rw [List.take_of_length_le hsrc.2.1]
    exact hsrc.2.2
  · rw [List.take_of_length_le hdst.2.1]
    exact hdst.2.2
  · exact (parseChannel_eq_some_iff hn.1).mpr hn
  · rw [← hsame]
    exact (parseChannel_eq_some_iff hm.1).mpr hm

/-! ## Formatted edges -/

/-- The edge of a route is read back after formatting. -/
theorem parse_formatRoute {text : Bytes} {edge : AudioGraphEdgeInfo}
    (h : RouteOf text edge) :
    parseRouteString (formatRoute edge) = .ok edge := by
  obtain ⟨src, dst, srcField, dstField, hfields, hsrc, hdst, -, -⟩ := h
  have hcomma := notMem_of_mem_splitOn hfields
  have hid : ∀ s id : Bytes, chr ',' ∉ s → IsId (trimSpace s) id →
      chr ',' ∉ id ∧ trimSpace id = id ∧ id ≠ [] ∧ id.length ≤ 63 := by
    rintro s id hs ⟨hne, hlen, rfl⟩
    exact ⟨fun hmem => hs (trimmed_sublist.subset hmem), trimmed_trimmed, hne,
      hlen⟩
  obtain ⟨hsrcComma, hsrcTrim, hsrcNe, hsrcLen⟩ :=
    hid src edge.src (hcomma src (by simp)) hsrc
  obtain ⟨hdstComma, hdstTrim, hdstNe, hdstLen⟩ :=
    hid dst edge.dst (hcomma dst (by simp)) hdst
  have hdigits : ∀ n : Nat, Digits (showDecimal n) := fun n =>
    ⟨showDecimal_ne_nil n, fun c hc => isDigit_of_mem_showDecimal hc⟩
  have hshow : ∀ n : Nat, chr ',' ∉ showDecimal n := by
    intro n hmem
    exact absurd ((hdigits n).2 _ hmem) (by decide)
  have htrim : ∀ n : Nat, trimSpace (showDecimal n) = showDecimal n :=
    fun n => trimmed_of_forall (hdigits n).not_space
  have hchannel : ∀ n : UInt8,
      parseChannel (trimSpace (showDecimal n.toNat)) = some n := by
    intro n
    rw [htrim, parseChannel_eq_some_iff (hdigits _)]
    exact ⟨hdigits _, decimal_showDecimal _⟩
  have hshort : ∀ n : UInt8, (showDecimal n.toNat).length ≤ 3 := fun n =>
    length_showDecimal_le (by decide) (n.toNat_lt.trans (by decide))
  have hlen : (formatRoute edge).take 255 = formatRoute edge := by
    apply List.take_of_length_le
    have hn := hshort edge.srcChannel
    have hm := hshort edge.dstChannel
    simp only [formatRoute, List.length_append, List.length_cons]
    omega
  apply parseRouteString_eq_ok_iff.mpr
  refine ⟨edge.src, edge.dst, showDecimal edge.srcChannel.toNat,
    showDecimal edge.dstChannel.toNat, [], ⟨?_, ?_, ?_, ?_, ?_⟩, ?_, ?_,
    hchannel _, hchannel _⟩
  · rw [hlen]
    exact (splitOn_eq_four_iff (List.cons_ne_nil _ _)).mpr
      ⟨_, hsrcComma, hdstComma, hshow _, rfl,
        List.splitOn_eq_singleton (hshow _)⟩
  · rwa [hsrcTrim]
  · rwa [hdstTrim]
  · rw [hchannel]
    rfl
  · rw [hchannel]
    rfl
  · rw [hsrcTrim, List.take_of_length_le hsrcLen]
  · rw [hdstTrim, List.take_of_length_le hdstLen]

end Audiox
