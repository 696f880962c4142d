import Audiox.Http.MdnsNameRead
import Mathlib

/-!
# Names that are written and read back

What the writer appends while it has room, and the reader on the bytes of a
name that the writer wrote.
-/

namespace Audiox.Http

open ByteCodec CheckedRead

/-! ## Dotted names -/

/-- A name of labels that a packet can hold. -/
structure DottedName (name : Bytes) : Prop where
  noNul : 0 ∉ name
  noTrailingDot : name.getLast? ≠ some dot
  lengths : ∀ label ∈ labelsOf name, 1 ≤ label.length ∧ label.length ≤ 63

/-- The labels behind the first one, with their dots. -/
def dottedTail (labels : List Bytes) : Bytes :=
  labels.flatMap (dot :: ·)

theorem labelsOf_cons_dot (rest : Bytes) :
    labelsOf (dot :: rest) = [] :: labelsOf rest := by
  rw [labelsOf, if_pos rfl]

theorem labelsOf_cons {c : UInt8} (hc : c ≠ dot) (rest : Bytes) :
    labelsOf (c :: rest) =
      (c :: (labelsOf rest).headD []) :: (labelsOf rest).tail := by
  rw [labelsOf, if_neg hc]
  cases labelsOf rest with
  | nil => rfl
  | cons label labels => rfl

theorem labelsOf_ne_nil {name : Bytes} (h : name ≠ []) : labelsOf name ≠ [] := by
  cases name with
  | nil => exact absurd rfl h
  | cons c rest =>
      by_cases hc : c = dot
      · simp [hc, labelsOf_cons_dot]
      · simp [labelsOf_cons hc]

/-- A name is its labels with a dot between any two. -/
theorem eq_append_dottedTail {name : Bytes}
    (hlast : name.getLast? ≠ some dot) :
    name = (labelsOf name).headD [] ++ dottedTail (labelsOf name).tail := by
  induction name with
  | nil => rfl
  | cons c rest ih =>
      by_cases hrest : rest = []
      · subst hrest
        have hc : c ≠ dot := by simpa using hlast
        rw [labelsOf_cons hc]
        simp [labelsOf, dottedTail]
      · have hlast' : rest.getLast? ≠ some dot := by
          rwa [List.getLast?_cons_of_ne_nil hrest] at hlast
        have hjoin := ih hlast'
        by_cases hc : c = dot
        · obtain ⟨label, labels, hlabels⟩ :=
            List.exists_cons_of_ne_nil (labelsOf_ne_nil hrest)
          rw [hlabels] at hjoin
          rw [hc, labelsOf_cons_dot, hlabels]
          rw [hjoin]
          rfl
        · rw [labelsOf_cons hc]
          exact congrArg (c :: ·) hjoin

theorem mem_of_mem_label {name label : Bytes} {c : UInt8}
    (hlabel : label ∈ labelsOf name) (hc : c ∈ label) :
    c ∈ name ∧ c ≠ dot := by
  induction name generalizing label with
  | nil => simp [labelsOf] at hlabel
  | cons b rest ih =>
      have htail : label ∈ labelsOf rest → c ∈ b :: rest ∧ c ≠ dot := by
        intro h
        obtain ⟨hmem, hne⟩ := ih h hc
        exact ⟨List.mem_cons_of_mem b hmem, hne⟩
      by_cases hb : b = dot
      · rw [hb, labelsOf_cons_dot, List.mem_cons] at hlabel
        rcases hlabel with rfl | hlabel
        · simp at hc
        · exact htail hlabel
      · rw [labelsOf_cons hb, List.mem_cons] at hlabel
        rcases hlabel with rfl | hlabel
        · rw [List.mem_cons] at hc
          rcases hc with rfl | hc
          · exact ⟨by simp, hb⟩
          · cases hlabels : labelsOf rest with
            | nil => simp [hlabels] at hc
            | cons first labels =>
                rw [hlabels] at hc
                obtain ⟨hmem, hne⟩ := ih (by simp [hlabels]) hc
                exact ⟨List.mem_cons_of_mem b hmem, hne⟩
        · exact htail (List.mem_of_mem_tail hlabel)

/-! ## What the writer appends -/

/-- A writer that is still ok has appended these bytes, and it is where they
fit. -/
structure Wrote (w w' : Writer) (bs : Bytes) : Prop where
  kept : w'.ok = true →
    w.ok = true ∧ w'.capacity = w.capacity ∧ w'.out = w.out ++ bs
  fits : w.ok = true → w.out.length + bs.length ≤ w.capacity → w'.ok = true

section Wrote

variable {w w' w'' : Writer} {bs bs' : Bytes}

theorem Wrote.refl (w : Writer) : Wrote w w [] := by
  constructor
  · intro hok
    exact ⟨hok, rfl, (List.append_nil _).symm⟩
  · intro hok _
    exact hok

theorem Wrote.trans (h : Wrote w w' bs) (h' : Wrote w' w'' bs') :
    Wrote w w'' (bs ++ bs') := by
  constructor
  · intro hok
    obtain ⟨hok', hcapacity', hout'⟩ := h'.kept hok
    obtain ⟨hok, hcapacity, hout⟩ := h.kept hok'
    exact ⟨hok, hcapacity'.trans hcapacity,
      by rw [hout', hout, List.append_assoc]⟩
  · intro hok hroom
    rw [List.length_append] at hroom
    have hok' := h.fits hok (by omega)
    obtain ⟨-, hcapacity, hout⟩ := h.kept hok'
    apply h'.fits hok'
    rw [hcapacity, hout, List.length_append]
    omega

theorem wrote_u8 (w : Writer) (value : UInt8) : Wrote w (w.u8 value) [value] := by
  unfold Writer.u8
  split_ifs with hfull
  · constructor
    · rintro ⟨⟩
    · intro _ hroom
      exact absurd hroom (not_le.mpr hfull)
  · constructor
    · intro hok
      exact ⟨hok, rfl, rfl⟩
    · intro hok _
      exact hok

theorem wrote_bytes (w : Writer) (data : Bytes) :
    Wrote w (w.bytes data) data := by
  induction data generalizing w with
  | nil => exact Wrote.refl w
  | cons c data ih => exact (wrote_u8 w c).trans (ih (w.u8 c))

theorem beBytes_two (value : Nat) :
    beBytes 2 value = [(value >>> 8).toUInt8, value.toUInt8] := by
  rw [Nat.shiftRight_eq_div_pow]
  rfl

theorem wrote_u16 (w : Writer) (value : Nat) :
    Wrote w (w.u16 value) (beBytes 2 value) := by
  rw [beBytes_two]
  exact (wrote_u8 w _).trans (wrote_u8 _ _)

theorem beBytes_four (value : Nat) :
    beBytes 4 value = beBytes 2 (value >>> 16) ++ beBytes 2 value := by
  rw [Nat.shiftRight_eq_div_pow]
  simp [beBytes, leBytes, Nat.div_div_eq_div_mul]

theorem wrote_u32 (w : Writer) (value : Nat) :
    Wrote w (w.u32 value) (beBytes 4 value) := by
  rw [beBytes_four]
  exact (wrote_u16 w _).trans (wrote_u16 _ _)

/-- The bytes of a name. -/
def encodeLabels : List Bytes → Bytes
  | [] => [0]
  | label :: labels => label.length.toUInt8 :: (label ++ encodeLabels labels)

theorem wrote_labels (w : Writer) {labels : List Bytes}
    (hlengths : ∀ label ∈ labels, 1 ≤ label.length ∧ label.length ≤ 63) :
    Wrote w (w.labels labels) (encodeLabels labels) := by
  induction labels generalizing w with
  | nil => exact wrote_u8 w 0
  | cons label labels ih =>
      obtain ⟨hlength, hlengths⟩ := List.forall_mem_cons.mp hlengths
      have hvalid : ¬(label.length = 0 ∨ label.length > 63) := by omega
      rw [Writer.labels, if_neg hvalid]
      exact ((wrote_u8 w _).trans (wrote_bytes _ label)).trans (ih _ hlengths)

theorem wrote_name (w : Writer) {dotted : Bytes} (h : DottedName dotted) :
    Wrote w (w.name dotted) (encodeLabels (labelsOf dotted)) :=
  wrote_labels w h.lengths

end Wrote

/-! ## Reading a name that was written -/

/-- The loop on a packet without pointers, with a part of the name read. -/
structure Reading (done : Bytes) (position : Nat) (s : NameScan) : Prop where
  position : s.position = position
  direct : s.jumped = false
  written : s.written = done.length
  out : s.out.take done.length = done

/-- The name as far as it was read, with one more label. -/
def addLabel (done label : Bytes) : Bytes :=
  (if done = [] then [] else done ++ [dot]) ++ label

theorem length_le_foldl_addLabel (labels : List Bytes) (done : Bytes) :
    done.length ≤ (labels.foldl addLabel done).length := by
  induction labels generalizing done with
  | nil => exact le_refl _
  | cons label labels ih =>
      apply le_trans _ (ih (addLabel done label))
      unfold addLabel
      split_ifs with hempty
      · simp [hempty]
      · simp only [List.length_append]
        omega

section Reading

variable {front label rest done : Bytes} {s : NameScan}

theorem copyLabel_of_clean (front rest : Bytes) {out : Bytes}
    (hclean : ∀ c ∈ label, c ≠ dot ∧ c ≠ 0)
    (hroom : done.length + label.length ≤ out.length)
    (hdone : out.take done.length = done) :
    ∃ out', copyLabel (front ++ (label ++ rest)) label.length front.length
        done.length out = .ok (true, out') ∧
      out'.length = out.length ∧
      out'.take (done ++ label).length = done ++ label := by
  induction label generalizing front done out with
  | nil => exact ⟨out, rfl, rfl, by simpa using hdone⟩
  | cons c label ih =>
      obtain ⟨hc, hclean⟩ := List.forall_mem_cons.mp hclean
      rw [List.length_cons] at hroom
      have hlt : done.length < out.length := by omega
      have hbyte : (front ++ (c :: label ++ rest))[front.length]? = some c := by
        simp
      have htake := take_set_next (c := c) hdone hlt
      have hnext : done.length + 1 = (done ++ [c]).length := by simp
      rw [hnext] at htake
      obtain ⟨out', hcopy, hlength, hout'⟩ := ih (front ++ [c])
        hclean (by simp; omega) htake
      refine ⟨out', ?_, by rw [hlength, List.length_set], ?_⟩
      · rw [List.length_cons, copyLabel, byteAt_of_getElem? hbyte, ok_bind,
          if_neg (not_or.mpr hc), store_of_lt hlt, ok_bind]
        simpa using hcopy
      · simpa using hout'

theorem Reading.storeDot {position : Nat} (hs : Reading done position s)
    (hroom : done.length + 1 ≤ s.out.length) :
    ∃ out, s.storeDot = .ok out ∧ out.length = s.out.length ∧
      s.written + s.needed 0 = (addLabel done []).length ∧
      out.take (addLabel done []).length = addLabel done [] := by
  unfold NameScan.storeDot NameScan.needed addLabel
  by_cases hdone : done = []
  · have hzero : s.written = 0 := by simp [hs.written, hdone]
    simp only [hzero, hdone]
    exact ⟨s.out, rfl, rfl, rfl, List.take_zero⟩
  · have hne : s.written ≠ 0 := by simp [hs.written, hdone]
    have hlt : done.length < s.out.length := by omega
    have htake := take_set_next (c := dot) hs.out hlt
    refine ⟨s.out.set done.length dot, ?_, List.length_set, ?_, ?_⟩
    · rw [if_pos hne, hs.written, store_of_lt hlt]
    · simp [hdone, hs.written]
    · simpa [hdone] using htake

theorem addLabel_nil_append (done label : Bytes) :
    addLabel done [] ++ label = addLabel done label := by
  simp [addLabel]

theorem Reading.readLabel (rest : Bytes) (hs : Reading done front.length s)
    (hlength : 1 ≤ label.length ∧ label.length ≤ 63)
    (hclean : ∀ c ∈ label, c ≠ dot ∧ c ≠ 0)
    (hroom : (addLabel done label).length + 1 ≤ s.out.length)
    (hshort : (addLabel done label).length ≤ kMaxNameLength) :
    ∃ s', nameTurn (front ++ (label.length.toUInt8 :: (label ++ rest))) s =
        .ok (.inl s') ∧
      Reading (addLabel done label) (front.length + 1 + label.length) s' ∧
      s'.out.length = s.out.length := by
  have hsplit := addLabel_nil_append done label
  have hlabel : (addLabel done label).length =
      (addLabel done []).length + label.length := by
    rw [← hsplit, List.length_append]
  have hdone : done.length ≤ (addLabel done []).length := by
    unfold addLabel
    split_ifs with hempty
    · simp [hempty]
    · simp
  obtain ⟨out, hdot, hout, hwritten, htake⟩ := hs.storeDot (by omega)
  obtain ⟨out', hcopy, hout', htake'⟩ := copyLabel_of_clean
    (front ++ [label.length.toUInt8]) rest hclean (by omega) htake
  rw [hsplit] at htake'
  have hneeded : s.written + s.needed label.length =
      (addLabel done label).length := by
    rw [hlabel, ← hwritten]
    simp [NameScan.needed, Nat.add_assoc]
  have hcount : label.length.toUInt8.toNat = label.length := by
    simp only [Nat.toUInt8, UInt8.toNat_ofNat']
    omega
  have hzero : label.length.toUInt8 &&& 0xC0 = 0 :=
    and_eq_zero_of_toNat_le (by omega)
  have hroot : label.length.toUInt8 ≠ 0 := by
    intro h
    rw [h] at hcount
    simp at hcount
    omega
  have hbyte : (front ++ (label.length.toUInt8 :: (label ++ rest)))[
      s.position]? = some label.length.toUInt8 := by
    simp [hs.position]
  refine ⟨{ s with
    position := front.length + 1 + label.length
    written := (addLabel done label).length
    out := out' }, ?_, ⟨rfl, hs.direct, rfl, htake'⟩, by rw [hout', hout]⟩
  rw [nameTurn, if_neg (by simp [hs.position]), byteAt_of_getElem? hbyte,
    ok_bind, if_neg (by rw [hzero]; decide), if_neg (not_not.mpr hzero),
    if_neg hroot, hcount, NameScan.label, if_neg (by simp [hs.position]; omega),
    hneeded, if_neg (by omega), hdot, ok_bind, hwritten, hs.position]
  rw [List.length_append, List.length_singleton, List.append_assoc,
    List.singleton_append] at hcopy
  rw [hcopy, ok_bind, if_pos rfl]
  rfl

theorem Reading.readRoot (rest : Bytes) (hs : Reading done front.length s)
    (hroom : done.length + 1 ≤ s.out.length) :
    ∃ out, nameTurn (front ++ (0 :: rest)) s =
        .ok (.inr { ok := true, offset := front.length + 1, out }) ∧
      out.take (done.length + 1) = done ++ [0] := by
  have hlt : done.length < s.out.length := hroom
  have hbyte : (front ++ (0 :: rest))[s.position]? = some 0 := by
    simp [hs.position]
  refine ⟨s.out.set done.length 0, ?_, take_set_next hs.out hlt⟩
  rw [nameTurn, if_neg (by simp [hs.position]), byteAt_of_getElem? hbyte,
    ok_bind, if_neg (by decide), if_neg (by decide), if_pos rfl,
    NameScan.finish, hs.written, store_of_lt hlt, ok_bind, hs.direct,
    hs.position]
  rfl

/-- The loop reads the labels that are left, by induction on them. -/
theorem Reading.readLabels (rest : Bytes) {labels : List Bytes}
    (hs : Reading done front.length s)
    (hlengths : ∀ label ∈ labels, 1 ≤ label.length ∧ label.length ≤ 63)
    (hclean : ∀ label ∈ labels, ∀ c ∈ label, c ≠ dot ∧ c ≠ 0)
    (hroom : (labels.foldl addLabel done).length + 1 ≤ s.out.length)
    (hshort : (labels.foldl addLabel done).length ≤ kMaxNameLength) :
    ∃ out, loop (nameTurn (front ++ (encodeLabels labels ++ rest)))
        (labels.length + 1) s =
          some (.ok {
            ok := true
            offset := (front ++ encodeLabels labels).length
            out }) ∧
      out.take ((labels.foldl addLabel done).length + 1) =
        labels.foldl addLabel done ++ [0] := by
  induction labels generalizing front done s with
  | nil =>
      obtain ⟨out, hturn, hout⟩ := hs.readRoot rest hroom
      refine ⟨out, ?_, hout⟩
      rw [List.length_append]
      exact loop_done hturn 0
  | cons label labels ih =>
      obtain ⟨hlength, hlengths⟩ := List.forall_mem_cons.mp hlengths
      obtain ⟨hlabel, hclean⟩ := List.forall_mem_cons.mp hclean
      rw [List.foldl_cons] at hroom hshort ⊢
      have hgrows := length_le_foldl_addLabel labels (addLabel done label)
      obtain ⟨s', hturn, hs', hout'⟩ := hs.readLabel
        (encodeLabels labels ++ rest) hlength hlabel (by omega)
        (by omega)
      have hposition : front.length + 1 + label.length =
          (front ++ label.length.toUInt8 :: label).length := by
        simp only [List.length_append, List.length_cons]
        omega
      rw [hposition] at hs'
      obtain ⟨out, hloop, hout⟩ := ih hs' hlengths hclean (by omega) hshort
      refine ⟨out, ?_, hout⟩
      rw [List.length_cons, encodeLabels, List.cons_append, List.append_assoc,
        loop_more hturn]
      simpa using hloop

end Reading

theorem foldl_addLabel {done : Bytes} (hdone : done ≠ []) (labels : List Bytes) :
    labels.foldl addLabel done = done ++ dottedTail labels := by
  induction labels generalizing done with
  | nil => simp [dottedTail]
  | cons label labels ih =>
      have hadd : addLabel done label = done ++ dot :: label := by
        simp [addLabel, hdone]
      rw [List.foldl_cons, hadd, ih (by simp)]
      simp [dottedTail]

theorem DottedName.foldl_labelsOf {name : Bytes} (h : DottedName name) :
    (labelsOf name).foldl addLabel [] = name := by
  have hjoin := eq_append_dottedTail h.noTrailingDot
  have hlengths := h.lengths
  cases hlabels : labelsOf name with
  | nil =>
      rw [hlabels] at hjoin
      exact hjoin.symm
  | cons label labels =>
      rw [hlabels] at hjoin hlengths
      have hlabel : label ≠ [] := by
        apply List.ne_nil_of_length_pos
        exact (hlengths label (by simp)).1
      rw [List.foldl_cons]
      exact (foldl_addLabel hlabel labels).trans hjoin.symm

theorem cstr_of_take {buf name : Bytes} (h : 0 ∉ name)
    (hbuf : buf.take (name.length + 1) = name ++ [0]) : cstr buf = name := by
  have hsplit := List.take_append_drop (name.length + 1) buf
  rw [hbuf, List.append_assoc, List.singleton_append] at hsplit
  have hname : ∀ c ∈ name, decide (c ≠ 0) = true := by
    intro c hc
    rw [decide_eq_true_eq]
    rintro rfl
    exact h hc
  rw [cstr, ← hsplit, List.takeWhile_append_of_pos hname,
    List.takeWhile_cons_of_neg (by simp), List.append_nil]

/-- The reader at the place of a name that a packet has uncompressed. -/
theorem readName_encoded {name : Bytes} (hname : DottedName name)
    (hshort : name.length ≤ kMaxNameLength) (front rest : Bytes) {out : Bytes}
    (hroom : name.length < out.length) :
    ∃ out', readName (front ++ (encodeLabels (labelsOf name) ++ rest))
        front.length out =
          .ok {
            ok := true
            offset := (front ++ encodeLabels (labelsOf name)).length
            out := out' } ∧
      cstr out' = name := by
  have hstart : Reading [] front.length
      { position := front.length, written := 0, resumeAt := 0, jumped := false,
        offset := front.length, out := out.set 0 0 } :=
    ⟨rfl, rfl, rfl, List.take_zero⟩
  have hwhole := hname.foldl_labelsOf
  have hclean : ∀ label ∈ labelsOf name, ∀ c ∈ label, c ≠ dot ∧ c ≠ 0 := by
    intro label hlabel c hc
    obtain ⟨hmem, hdot⟩ := mem_of_mem_label hlabel hc
    refine ⟨hdot, ?_⟩
    rintro rfl
    exact hname.noNul hmem
  obtain ⟨out', hloop, hout'⟩ := hstart.readLabels rest
    hname.lengths hclean (by simpa [hwhole] using hroom)
    (by rwa [hwhole])
  rw [hwhole] at hout'
  refine ⟨out', ?_, cstr_of_take hname.noNul hout'⟩
  apply readName_of_loop
  rw [readNameLoop, if_neg (by omega), hloop]

/-! ## Names of packets -/

/-- The reader ends on every packet, inside its buffers, and leaves the offset
of its caller alone unless it returns the name there; and it reads back every
name that the writer could write. -/
theorem readName_correct :
    (∀ (packet : Bytes) (offset : Nat) (out : Bytes),
      ∃ r, readName packet offset out = .ok r ∧
        (∀ fuel, nameTurns packet ≤ fuel →
          readNameLoop packet offset out fuel = some (.ok r)) ∧
        r.out.length = out.length ∧
        (r.ok = false → r.offset = offset) ∧
        (r.ok = true → NameAt packet offset r.offset)) ∧
    (∀ (w : Writer) (name : Bytes), DottedName name →
      name.length ≤ kMaxNameLength → (w.name name).ok = true →
      ∀ rest out : Bytes, name.length < out.length →
        ∃ r, readName ((w.name name).out ++ rest) w.length out = .ok r ∧
          r.ok = true ∧ cstr r.out = name ∧
          r.offset = (w.name name).length) := by
  constructor
  · intro packet offset out
    obtain ⟨hloop, hyields⟩ := readName_ends packet offset out
    obtain ⟨r, hr, hresult⟩ := hyields.exists_ok
    refine ⟨r, hr, ?_, hresult.length, hresult.unchanged, hresult.advanced⟩
    intro fuel hfuel
    rw [hloop fuel hfuel, hr]
  · intro w name hname hshort hok rest out hroom
    obtain ⟨-, -, hout⟩ := (wrote_name w hname).kept hok
    obtain ⟨out', hread, hcstr⟩ := readName_encoded hname hshort w.out rest
      hroom
    rw [← List.append_assoc, ← hout] at hread
    exact ⟨_, hread, rfl, hcstr, rfl⟩

theorem readName_correct_local :
    ∃ r, readName
        (((Writer.start 16).name (ascii "audiox.local")).out ++ [7]) 0
          (List.replicate 13 0) = .ok r ∧
      r.ok = true ∧ cstr r.out = ascii "audiox.local" ∧
      r.offset = ((Writer.start 16).name (ascii "audiox.local")).length :=
  readName_correct.2 (Writer.start 16) (ascii "audiox.local")
    ⟨by decide, by decide, by decide⟩ (by decide) (by decide) [7]
    (List.replicate 13 0) (by decide)

end Audiox.Http
