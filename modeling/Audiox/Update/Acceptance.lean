import Audiox.Update.Reader
import Mathlib

/-!
# What the archive reader accepts

The loop over the entries keeps an invariant about the entries read so far.
From it the reader accepts an archive exactly if it is well formed, and the
ranges that it records are those of the payloads.
-/

namespace Audiox

open ByteCodec

variable {f : ArchiveFile} {version : UInt32} {st st' : Scan}

/-! ## Sets of types as bits -/

theorem mem_of_isKnown {type : UInt32} (h : isKnown version type) :
    type ∈ ([1, 2, 3, 4, 5, 6] : List UInt32) := by
  simp only [isKnown, audioxUpdateConfig, Bool.and_eq_true,
    decide_eq_true_eq] at h
  have hmax : maxType version ≤ 6 := by
    unfold maxType
    split <;> decide
  have hle := UInt32.le_trans h.2 hmax
  rw [UInt32.le_iff_toNat_le] at hle
  have hpos := UInt32.le_iff_toNat_le.mp (of_decide_eq_true h.1)
  have hone : (1 : UInt32).toNat = 1 := rfl
  have hsix : (6 : UInt32).toNat = 6 := rfl
  have hcases : type.toNat = 1 ∨ type.toNat = 2 ∨ type.toNat = 3 ∨
      type.toNat = 4 ∨ type.toNat = 5 ∨ type.toNat = 6 := by omega
  simp only [List.mem_cons, List.not_mem_nil, or_false, ← UInt32.toNat_inj]
  exact hcases

theorem typeBit_and_typeBit {s t : UInt32} (hs : isKnown version s)
    (ht : isKnown version t) : typeBit s &&& typeBit t ≠ 0 ↔ t = s := by
  have hall : ([1, 2, 3, 4, 5, 6] : List UInt32).all (fun s =>
      ([1, 2, 3, 4, 5, 6] : List UInt32).all fun t =>
        decide (typeBit s &&& typeBit t ≠ 0 ↔ t = s)) := by decide
  simp only [List.all_eq_true, decide_eq_true_eq] at hall
  exact hall s (mem_of_isKnown hs) t (mem_of_isKnown ht)

theorem or_and_ne_zero {a b c : UInt32} :
    (a ||| b) &&& c ≠ 0 ↔ a &&& c ≠ 0 ∨ b &&& c ≠ 0 := by
  have hdistrib : (a ||| b) &&& c = (a &&& c) ||| (b &&& c) := by
    rw [← UInt32.toBitVec_inj]
    simp [BitVec.and_or_distrib_right]
  rw [hdistrib, ne_eq, UInt32.or_eq_zero_iff, not_and_or]

theorem and_eq_self_of_or {x a b : UInt32} (h : x &&& (a ||| b) = a ||| b) :
    x &&& a = a := by
  have habsorb : (a ||| b) &&& a = a := by
    rw [← UInt32.toBitVec_inj]
    apply BitVec.eq_of_getLsbD_eq
    intro i _
    simp only [UInt32.toBitVec_and, UInt32.toBitVec_or, BitVec.getLsbD_and,
      BitVec.getLsbD_or]
    cases a.toBitVec.getLsbD i <;> simp
  calc x &&& a = x &&& ((a ||| b) &&& a) := by rw [habsorb]
    _ = (x &&& (a ||| b)) &&& a := (UInt32.and_assoc _ _ _).symm
    _ = a := by rw [h, habsorb]

/-- A mask is covered when both of its parts are. -/
theorem and_or_eq_self {x a b : UInt32} :
    x &&& (a ||| b) = a ||| b ↔ x &&& a = a ∧ x &&& b = b := by
  constructor
  · intro h
    have hb : x &&& (b ||| a) = b ||| a := by rwa [UInt32.or_comm b a]
    exact ⟨and_eq_self_of_or h, and_eq_self_of_or hb⟩
  · rintro ⟨ha, hb⟩
    rw [← UInt32.toBitVec_inj, UInt32.toBitVec_and, UInt32.toBitVec_or,
      BitVec.and_or_distrib_left, ← UInt32.toBitVec_and,
      ← UInt32.toBitVec_and, ha, hb]

/-- A bit is covered when it is set. -/
theorem and_typeBit_eq_self {x t : UInt32} (ht : isKnown version t) :
    x &&& typeBit t = typeBit t ↔ x &&& typeBit t ≠ 0 := by
  have hpow : ∀ t ∈ ([1, 2, 3, 4, 5, 6] : List UInt32),
      (typeBit t).toBitVec = BitVec.twoPow 32 (t - 1).toNat ∧
        typeBit t ≠ 0 := by
    simp only [List.forall_mem_cons, List.not_mem_nil, false_implies,
      implies_true, and_true]
    decide
  obtain ⟨hbit, hne⟩ := hpow t (mem_of_isKnown ht)
  have hcases : x &&& typeBit t = typeBit t ∨ x &&& typeBit t = 0 := by
    simp only [← UInt32.toBitVec_inj, UInt32.toBitVec_and, hbit,
      BitVec.and_twoPow]
    split
    · exact .inl rfl
    · exact .inr rfl
  rcases hcases with h | h
  · simp [h, hne]
  · simp [h, hne.symm]

theorem isKnown_of_required {t : UInt32} (hv : version = 1 ∨ version = 2)
    (ht : t ∈ requiredTypes version) : isKnown version t := by
  have hone : ∀ t ∈ ([1, 2, 3, 4] : List UInt32), isKnown 1 t := by
    simp only [List.forall_mem_cons, List.not_mem_nil, false_implies,
      implies_true, and_true]
    decide
  have htwo : ∀ t ∈ ([1, 2, 3, 4, 5] : List UInt32), isKnown 2 t := by
    simp only [List.forall_mem_cons, List.not_mem_nil, false_implies,
      implies_true, and_true]
    decide
  rcases hv with rfl | rfl
  · exact hone t ht
  · exact htwo t ht

/-- The mask of the required types is covered when all of them are seen. -/
theorem and_requiredMask {count mask seen : UInt32}
    (h : requiredMask version count = .ok mask) :
    seen &&& mask = mask ↔
      ∀ t ∈ requiredTypes version, seen &&& typeBit t ≠ 0 := by
  have hmask : version = 1 ∧ mask =
        typeBit 1 ||| typeBit 2 ||| typeBit 3 ||| typeBit 4 ∨
      version = 2 ∧ mask =
        typeBit 1 ||| typeBit 2 ||| typeBit 3 ||| typeBit 4 ||| typeBit 5 := by
    simp only [requiredMask] at h
    split at h
    next hv =>
      split at h
      · cases h
      · cases h
        exact .inl ⟨hv, by decide⟩
    · split at h
      next hv =>
        split at h
        · cases h
        · cases h
          exact .inr ⟨hv, by decide⟩
      · cases h
  have hself : ∀ t ∈ requiredTypes version,
      (seen &&& typeBit t = typeBit t ↔ seen &&& typeBit t ≠ 0) := by
    intro t ht
    refine and_typeBit_eq_self (isKnown_of_required ?_ ht)
    exact hmask.imp And.left And.left
  have hall : seen &&& mask = mask ↔
      ∀ t ∈ requiredTypes version, seen &&& typeBit t = typeBit t := by
    rcases hmask with ⟨rfl, rfl⟩ | ⟨rfl, rfl⟩
    · have htypes : requiredTypes 1 = [1, 2, 3, 4] := by decide
      simp only [htypes, and_or_eq_self, List.forall_mem_cons,
        List.not_mem_nil, false_implies, implies_true, and_true, and_assoc]
    · have htypes : requiredTypes 2 = [1, 2, 3, 4, 5] := by decide
      simp only [htypes, and_or_eq_self, List.forall_mem_cons,
        List.not_mem_nil, false_implies, implies_true, and_true, and_assoc]
  rw [hall]
  exact forall₂_congr hself

/-- The numbers of entries that a version allows. -/
theorem requiredMask_isOk_iff {count : UInt32} :
    (∃ mask, requiredMask version count = .ok mask) ↔
      (version = 1 ∧ count = 4) ∨
        (version = 2 ∧ 1 ≤ count.toNat ∧ count.toNat ≤ 64) := by
  have hpos : count = 0 ↔ count.toNat = 0 := by
    rw [← UInt32.toNat_inj]
    rfl
  have hmany : audioxUpdateEntryLimit < count ↔ 64 < count.toNat :=
    UInt32.lt_iff_toNat_lt
  simp only [requiredMask, audioxUpdateVersionV1, audioxUpdateVersion,
    audioxUpdateEntryCountV1]
  by_cases hone : version = 1
  · subst hone
    by_cases hcount : count = 4
    · simp [hcount]
    · simp [hcount]
  · by_cases htwo : version = 2
    · subst htwo
      by_cases hbad : count = 0 ∨ audioxUpdateEntryLimit < count
      · simp only [hbad, hone, if_true, if_false, reduceCtorEq, exists_false,
          false_and, true_and, false_or, false_iff]
        rw [hpos, hmany] at hbad
        omega
      · simp only [hbad, hone, if_true, if_false, Except.ok.injEq,
          exists_eq', false_and, true_and, false_or, true_iff]
        rw [hpos, hmany] at hbad
        omega
    · simp [hone, htwo]

/-! ## The entries read so far -/

theorem entryError_eq_none_iff {seen : UInt32} {e : ArchiveEntry}
    (hv : version = 1 ∨ version = 2)
    (hsize : e.size.toNat = e.payload.length) :
    entryError version seen e.type e.size = none ∧
        audioxUpdateCrc32 0 e.payload = e.crc ↔
      EntryWellFormed version e ∧
        (isKnown version e.type → seen &&& typeBit e.type = 0) := by
  have hempty : e.size = 0 ↔ e.payload = [] := by
    rw [← UInt64.toNat_inj, hsize, ← List.length_eq_zero_iff]
    rfl
  have hversion : version ≠ audioxUpdateVersionV1 ↔
      version = audioxUpdateVersion := by
    rcases hv with rfl | rfl <;> decide
  by_cases hknown : isKnown version e.type
  · rw [entryError, if_neg (by simp [hknown])]
    simp only [hsize]
    constructor
    · rintro ⟨hnone, hcrc⟩
      split at hnone
      · cases hnone
      next hfresh =>
        split at hnone
        · cases hnone
        next hsome =>
          split at hnone
          · cases hnone
          next hcaps =>
            simp only [not_or, not_and, Nat.not_lt] at hcaps
            refine ⟨⟨hcrc, fun _ => ⟨fun h => hsome (hempty.mpr h), hcaps⟩,
              fun h => absurd hknown h⟩, fun _ => not_not.mp hfresh⟩
    · rintro ⟨hwf, hfresh⟩
      obtain ⟨hsome, hcaps⟩ := hwf.known hknown
      refine ⟨?_, hwf.crc⟩
      rw [if_neg (not_not.mpr (hfresh hknown)),
        if_neg fun h => hsome (hempty.mp h), if_neg]
      simp only [not_or, not_and, Nat.not_lt]
      exact hcaps
  · rw [entryError, if_pos (by simp [hknown])]
    constructor
    · rintro ⟨hnone, hcrc⟩
      split at hnone
      · cases hnone
      next hv2 =>
        split at hnone
        · cases hnone
        next hopt =>
          exact ⟨⟨hcrc, fun h => absurd h hknown, fun _ =>
            ⟨hversion.mp hv2, not_not.mp hopt⟩⟩, fun h => absurd h hknown⟩
    · rintro ⟨hwf, -⟩
      obtain ⟨hv2, hopt⟩ := hwf.unknown hknown
      refine ⟨?_, hwf.crc⟩
      rw [if_neg (hversion.mpr hv2), if_neg (not_not.mpr hopt)]

/-- The bytes in a recorded range. -/
def AudioxUpdateEntry.payload (f : ArchiveFile) (ent : AudioxUpdateEntry) :
    Bytes :=
  (f.bytes.drop ent.offset.toNat).take ent.size.toNat

/-- The range is that of the payload of the entry behind the given ones. -/
structure Locates (f : ArchiveFile) (pre : List ArchiveEntry)
    (e : ArchiveEntry) (ent : AudioxUpdateEntry) : Prop where
  crc : ent.crc = e.crc
  size : ent.size.toNat = e.payload.length
  offset : ent.offset.toNat =
    16 + (pre.flatMap ArchiveEntry.bytes).length + 16
  payload : ent.payload f = e.payload

/-- The ranges are those of the known entries. -/
structure Recorded (f : ArchiveFile) (version : UInt32)
    (l : List ArchiveEntry) (es : List AudioxUpdateEntry) : Prop where
  length : es.length = 6
  present : ∀ pre e post, l = pre ++ e :: post → isKnown version e.type →
    ∃ ent, es[(e.type - 1).toNat]? = some ent ∧ Locates f pre e ent
  absent : ∀ t ∈ ([1, 2, 3, 4, 5, 6] : List UInt32),
    t ∉ l.map ArchiveEntry.type → es[(t - 1).toNat]? = some .absent

def AudioxUpdateEntry.stop (ent : AudioxUpdateEntry) : Nat :=
  ent.offset.toNat + ent.size.toNat

/-- Ranges that end within a limit and have no byte in common. -/
structure Separate (limit : Nat) (es : List AudioxUpdateEntry) : Prop where
  inside : ∀ ent ∈ es, ent.stop ≤ limit
  disjoint : ∀ (i j : Nat) (a b : AudioxUpdateEntry), i ≠ j →
    es[i]? = some a → es[j]? = some b →
    a.stop ≤ b.offset.toNat ∨ b.stop ≤ a.offset.toNat

/-- The state of the reader behind the given entries. -/
structure Scanned (f : ArchiveFile) (version : UInt32)
    (done : List ArchiveEntry) (st : Scan) : Prop where
  bytes : done.flatMap ArchiveEntry.bytes <+: f.bytes.drop 16
  offset : st.offset.toNat =
    16 + (done.flatMap ArchiveEntry.bytes).length
  inside : st.offset.toNat ≤ f.bytes.length
  entry : ∀ e ∈ done, EntryWellFormed version e
  once : ((done.map ArchiveEntry.type).filter (isKnown version)).Nodup
  seen : ∀ t, isKnown version t →
    (st.seen &&& typeBit t ≠ 0 ↔ t ∈ done.map ArchiveEntry.type)
  recorded : Recorded f version done st.entries
  separate : Separate st.offset.toNat st.entries

theorem scanned_start (h : 16 ≤ f.bytes.length) :
    Scanned f version [] .start := by
  have hentries : ∀ ent ∈ Scan.start.entries, ent = .absent :=
    fun ent h => List.eq_of_mem_replicate h
  refine ⟨List.nil_prefix, rfl, h, (by rintro _ ⟨⟩), List.nodup_nil, fun t _ => ?_,
    ⟨rfl, ?_, ?_⟩, ⟨?_, ?_⟩⟩
  · simp [Scan.start]
  · intro pre e post hsplit
    simp at hsplit
  · have hall : ∀ t ∈ ([1, 2, 3, 4, 5, 6] : List UInt32),
        Scan.start.entries[(t - 1).toNat]? = some .absent := by
      simp only [List.forall_mem_cons, List.not_mem_nil, false_implies,
      implies_true, and_true]
      decide
    exact fun t ht _ => hall t ht
  · intro ent hent
    rw [hentries ent hent]
    exact Nat.zero_le _
  · intro i j a b _ ha _
    rw [hentries a (List.mem_of_getElem? ha)]
    exact .inl (Nat.zero_le _)

theorem drop_of_scanned {done : List ArchiveEntry}
    (h : Scanned f version done st) {e : ArchiveEntry} :
    e.bytes <+: f.bytes.drop st.offset.toNat ↔
      (done ++ [e]).flatMap ArchiveEntry.bytes <+: f.bytes.drop 16 := by
  obtain ⟨rest, hrest⟩ := h.bytes
  rw [h.offset, ← List.drop_drop, ← hrest, List.drop_left,
    List.flatMap_append, List.flatMap_singleton,
    List.prefix_append_right_inj]

/-- An entry at the end of a list is one in front of the end or the last. -/
theorem append_singleton_split {α : Type} {l pre post : List α} {x e : α}
    (h : l ++ [x] = pre ++ e :: post) :
    (l = pre ∧ x = e) ∨ ∃ post', l = pre ++ e :: post' := by
  rcases post.eq_nil_or_concat with rfl | ⟨post', y, rfl⟩
  · obtain ⟨hl, hx⟩ := List.append_inj' h rfl
    exact .inl ⟨hl, by simpa using hx⟩
  · right
    rw [List.concat_eq_append, ← List.cons_append, ← List.append_assoc] at h
    exact ⟨post', (List.append_inj' h rfl).1⟩

theorem typeIndex_inj {s t : UInt32}
    (hs : s ∈ ([1, 2, 3, 4, 5, 6] : List UInt32))
    (ht : t ∈ ([1, 2, 3, 4, 5, 6] : List UInt32))
    (h : (s - 1).toNat = (t - 1).toNat) : s = t := by
  have hall : ([1, 2, 3, 4, 5, 6] : List UInt32).all (fun s =>
      ([1, 2, 3, 4, 5, 6] : List UInt32).all fun t =>
        decide ((s - 1).toNat = (t - 1).toNat → s = t)) := by decide
  simp only [List.all_eq_true, decide_eq_true_eq] at hall
  exact hall s hs t ht h

theorem typeIndex_lt {t : UInt32}
    (ht : t ∈ ([1, 2, 3, 4, 5, 6] : List UInt32)) : (t - 1).toNat < 6 := by
  have hall : ∀ t ∈ ([1, 2, 3, 4, 5, 6] : List UInt32),
      (t - 1).toNat < 6 := by
    simp only [List.forall_mem_cons, List.not_mem_nil, false_implies,
      implies_true, and_true]
    decide
  exact hall t ht

/-- A known entry that was not there is recorded. -/
theorem Recorded.known {done : List ArchiveEntry} {e : ArchiveEntry}
    {es : List AudioxUpdateEntry} {ent : AudioxUpdateEntry}
    (h : Recorded f version done es) (hknown : isKnown version e.type)
    (hfresh : e.type ∉ done.map ArchiveEntry.type)
    (hent : Locates f done e ent) :
    Recorded f version (done ++ [e]) (es.set (e.type - 1).toNat ent) := by
  have hindex : (e.type - 1).toNat < es.length := by
    rw [h.length]
    exact typeIndex_lt (mem_of_isKnown hknown)
  refine ⟨by rw [List.length_set, h.length], ?_, ?_⟩
  · intro pre e' post hsplit hknown'
    rcases append_singleton_split hsplit with ⟨rfl, rfl⟩ | ⟨post', hold⟩
    · exact ⟨ent, by rw [List.getElem?_set_self hindex], hent⟩
    · have hne : (e.type - 1).toNat ≠ (e'.type - 1).toNat := by
        intro heq
        apply hfresh
        rw [typeIndex_inj (mem_of_isKnown hknown) (mem_of_isKnown hknown')
          heq, hold]
        simp
      rw [List.getElem?_set_ne hne]
      exact h.present pre e' post' hold hknown'
  · intro t ht hnot
    rw [List.map_append, List.mem_append, not_or] at hnot
    have hne : (e.type - 1).toNat ≠ (t - 1).toNat := by
      intro heq
      apply hnot.2
      simp [typeIndex_inj (mem_of_isKnown hknown) ht heq]
    rw [List.getElem?_set_ne hne]
    exact h.absent t ht hnot.1

/-- An unknown entry changes nothing. -/
theorem Recorded.unknown {done : List ArchiveEntry} {e : ArchiveEntry}
    {es : List AudioxUpdateEntry} (h : Recorded f version done es)
    (hunknown : ¬isKnown version e.type) :
    Recorded f version (done ++ [e]) es := by
  refine ⟨h.length, ?_, ?_⟩
  · intro pre e' post hsplit hknown'
    rcases append_singleton_split hsplit with ⟨rfl, rfl⟩ | ⟨post', hold⟩
    · exact absurd hknown' hunknown
    · exact h.present pre e' post' hold hknown'
  · intro t ht hnot
    rw [List.map_append, List.mem_append, not_or] at hnot
    exact h.absent t ht hnot.1

theorem Separate.mono {a b : Nat} {es : List AudioxUpdateEntry}
    (h : Separate a es) (hab : a ≤ b) : Separate b es :=
  ⟨fun ent hent => (h.inside ent hent).trans hab, h.disjoint⟩

/-- A range behind the others is separate from them. -/
theorem Separate.set {limit : Nat} {es : List AudioxUpdateEntry}
    (h : Separate limit es) {ent : AudioxUpdateEntry}
    (hent : limit ≤ ent.offset.toNat) (i : Nat) :
    Separate ent.stop (es.set i ent) := by
  have hstop : limit ≤ ent.stop := hent.trans (Nat.le_add_right _ _)
  constructor
  · intro a ha
    rcases List.mem_or_eq_of_mem_set ha with hold | rfl
    · exact (h.inside a hold).trans hstop
    · exact le_rfl
  · intro j k a b hjk ha hb
    rw [List.getElem?_set] at ha hb
    by_cases hj : i = j
    · have hk : i ≠ k := fun hk => hjk (hj.symm.trans hk)
      rw [if_neg hk] at hb
      rw [if_pos hj] at ha
      split at ha
      · cases ha
        exact .inr ((h.inside b (List.mem_of_getElem? hb)).trans hent)
      · cases ha
    · rw [if_neg hj] at ha
      by_cases hk : i = k
      · rw [if_pos hk] at hb
        split at hb
        · cases hb
          exact .inl ((h.inside a (List.mem_of_getElem? ha)).trans hent)
        · cases hb
      · rw [if_neg hk] at hb
        exact h.disjoint j k a b hjk ha hb

theorem scanned_next {done : List ArchiveEntry} {e : ArchiveEntry}
    (h : Scanned f version done st)
    (hbytes : e.bytes <+: f.bytes.drop st.offset.toNat)
    (hwf : EntryWellFormed version e)
    (hfresh : isKnown version e.type → st.seen &&& typeBit e.type = 0) :
    Scanned f version (done ++ [e]) (st.next version e) := by
  have hsmall := f.small
  have hsixteen := toNat_sixteen
  obtain ⟨hsize, hin⟩ := ArchiveEntry.toNat_size hbytes
  have hstart : (st.offset + 16).toNat = st.offset.toNat + 16 :=
    toNat_add_small (by omega)
  have hoffset : (st.next version e).offset.toNat =
      st.offset.toNat + 16 + e.payload.length := by
    rw [Scan.next_offset, toNat_add_small (by omega), hstart, hsize]
  have hunseen : isKnown version e.type →
      e.type ∉ done.map ArchiveEntry.type := by
    intro hknown hmem
    exact (h.seen e.type hknown).mpr hmem (hfresh hknown)
  have hstop : (st.next version e).offset.toNat =
      (⟨e.crc, e.size, st.offset + 16⟩ : AudioxUpdateEntry).stop := by
    rw [hoffset, AudioxUpdateEntry.stop, hstart, hsize]
  refine
    { bytes := (drop_of_scanned h).mp hbytes
      offset := ?_
      inside := by rw [hoffset]; omega
      entry := ?_
      once := ?_
      seen := ?_
      recorded := ?_
      separate := ?_ }
  · rw [hoffset, h.offset]
    simp only [List.flatMap_append, List.flatMap_singleton,
      List.length_append, ArchiveEntry.length_bytes]
    omega
  · intro e' he'
    rw [List.mem_append, List.mem_singleton] at he'
    rcases he' with hold | rfl
    · exact h.entry e' hold
    · exact hwf
  · rw [List.map_append, List.filter_append, List.nodup_append]
    refine ⟨h.once, ?_, fun a ha b hb => ?_⟩
    · exact (List.nodup_singleton _).filter _
    · rw [List.mem_filter] at ha hb
      rintro rfl
      obtain rfl : a = e.type := by simpa using hb.1
      exact hunseen hb.2 ha.1
  · intro t ht
    rw [List.map_append, List.mem_append, List.map_singleton,
      List.mem_singleton, ← h.seen t ht, Scan.next]
    by_cases hknown : isKnown version e.type
    · rw [if_pos hknown, or_and_ne_zero, typeBit_and_typeBit hknown ht]
    · rw [if_neg hknown]
      have hne : t ≠ e.type := fun heq => hknown (heq ▸ ht)
      simp [hne]
  · rw [Scan.next]
    by_cases hknown : isKnown version e.type
    · rw [if_pos hknown]
      refine h.recorded.known hknown (hunseen hknown) ⟨rfl, hsize, ?_, ?_⟩
      · rw [hstart, h.offset]
      · obtain ⟨rest, hrest⟩ := hbytes
        simp only [AudioxUpdateEntry.payload]
        rw [hstart, hsize, ← List.drop_drop, ← hrest, ArchiveEntry.bytes,
          List.append_assoc, List.drop_left' e.length_header, List.take_left]
    · rw [if_neg hknown]
      exact h.recorded.unknown hknown
  · rw [hstop, Scan.next]
    by_cases hknown : isKnown version e.type
    · rw [if_pos hknown]
      exact h.separate.set (by rw [hstart]; omega) _
    · rw [if_neg hknown, ← hstop]
      exact h.separate.mono (by omega)

/-! ## The loop -/

/-- A subtraction that is right where it does not underflow. -/
def Exact (sub : Subtraction) : Prop :=
  ∀ a b, b ≤ a → sub a b = .ok (a - b)

theorem exact_wrappingSub : Exact wrappingSub :=
  fun _ _ _ => rfl

theorem exact_checkedSub : Exact checkedSub :=
  fun _ _ h => if_pos h

variable {sub : Subtraction}

theorem scanned_entry (hsub : Exact sub) (hv : version = 1 ∨ version = 2)
    {done : List ArchiveEntry} (h : Scanned f version done st) :
    parseEntry sub f version st = .ok st' ↔
      ∃ e, (done ++ [e]).flatMap ArchiveEntry.bytes <+: f.bytes.drop 16 ∧
        EntryWellFormed version e ∧
        (isKnown version e.type → st.seen &&& typeBit e.type = 0) ∧
        st' = st.next version e := by
  rw [parseEntry_ok_iff hsub h.inside]
  constructor
  · rintro ⟨e, hbytes, hnone, hcrc, rfl⟩
    obtain ⟨hwf, hfresh⟩ := (entryError_eq_none_iff hv
      (ArchiveEntry.toNat_size hbytes).1).mp ⟨hnone, hcrc⟩
    exact ⟨e, (drop_of_scanned h).mp hbytes, hwf, hfresh, rfl⟩
  · rintro ⟨e, hbytes, hwf, hfresh, rfl⟩
    have hbytes' := (drop_of_scanned h).mpr hbytes
    obtain ⟨hnone, hcrc⟩ := (entryError_eq_none_iff hv
      (ArchiveEntry.toNat_size hbytes').1).mpr ⟨hwf, hfresh⟩
    exact ⟨e, hbytes', hnone, hcrc, rfl⟩

/-- The loop reads entries that keep the invariant. -/
theorem scanned_entries (hsub : Exact sub) (hv : version = 1 ∨ version = 2)
    {n : Nat} {done : List ArchiveEntry} (h : Scanned f version done st)
    (hok : parseEntries sub f version n st = .ok st') :
    ∃ l : List ArchiveEntry, l.length = n ∧
      Scanned f version (done ++ l) st' := by
  induction n generalizing done st with
  | zero =>
      cases hok
      exact ⟨[], rfl, by rwa [List.append_nil]⟩
  | succ n ih =>
      simp only [parseEntries, bind, Except.bind] at hok
      split at hok
      · cases hok
      next st₁ hentry =>
        obtain ⟨e, hbytes, hwf, hfresh, rfl⟩ :=
          (scanned_entry hsub hv h).mp hentry
        have hnext :=
          scanned_next h ((drop_of_scanned h).mpr hbytes) hwf hfresh
        obtain ⟨l, hlen, hl⟩ := ih hnext hok
        refine ⟨e :: l, by rw [List.length_cons, hlen], ?_⟩
        rwa [List.append_assoc, List.singleton_append] at hl

/-- The loop reads every list of well-formed entries. -/
theorem parseEntries_scanned (hsub : Exact sub)
    (hv : version = 1 ∨ version = 2) {l done : List ArchiveEntry}
    (h : Scanned f version done st)
    (hbytes : (done ++ l).flatMap ArchiveEntry.bytes <+: f.bytes.drop 16)
    (hentry : ∀ e ∈ l, EntryWellFormed version e)
    (honce : (((done ++ l).map ArchiveEntry.type).filter
      (isKnown version)).Nodup) :
    ∃ st', parseEntries sub f version l.length st = .ok st' ∧
      Scanned f version (done ++ l) st' := by
  induction l generalizing done st with
  | nil => exact ⟨st, rfl, by rwa [List.append_nil]⟩
  | cons e l ih =>
      have happend : done ++ e :: l = done ++ [e] ++ l := by simp
      rw [happend] at hbytes honce ⊢
      have hfirst : (done ++ [e]).flatMap ArchiveEntry.bytes <+:
          f.bytes.drop 16 := by
        rw [List.flatMap_append] at hbytes
        exact (List.prefix_append _ _).trans hbytes
      have hfresh : isKnown version e.type →
          st.seen &&& typeBit e.type = 0 := by
        intro hknown
        by_contra hseen
        have hmem := (h.seen e.type hknown).mp hseen
        rw [List.map_append, List.map_append, List.filter_append,
          List.filter_append] at honce
        have hdisj := (List.nodup_append.mp
          (List.nodup_append.mp honce).1).2.2
        exact hdisj e.type (List.mem_filter.mpr ⟨hmem, hknown⟩) e.type
          (List.mem_filter.mpr ⟨by simp, hknown⟩) rfl
      have hwf := hentry e List.mem_cons_self
      have hnext := scanned_next h ((drop_of_scanned h).mpr hfirst) hwf hfresh
      obtain ⟨st', hok, hscanned⟩ := ih hnext hbytes
        (fun e' he' => hentry e' (List.mem_cons_of_mem _ he')) honce
      refine ⟨st', ?_, hscanned⟩
      have hone := (scanned_entry hsub hv h).mpr ⟨e, hfirst, hwf, hfresh, rfl⟩
      simp only [List.length_cons, parseEntries, hone]
      exact hok

/-! ## Whole archives -/

def archiveHeader (version count : UInt32) : Bytes :=
  audioxUpdateMagic ++
    (audioxUpdatePutU32 version ++ audioxUpdatePutU32 count)

@[simp] theorem length_archiveHeader (version count : UInt32) :
    (archiveHeader version count).length = 16 := by
  rw [archiveHeader, List.length_append, List.length_append, length_putU32,
    length_putU32]
  rfl

theorem archiveHeader_fields (version count : UInt32) :
    (archiveHeader version count).take 8 = audioxUpdateMagic ∧
      audioxUpdateGetU32 ((archiveHeader version count).drop 8) = version ∧
      audioxUpdateGetU32 ((archiveHeader version count).drop 12) = count := by
  have hmagic : audioxUpdateMagic.length = 8 := rfl
  have height : (archiveHeader version count).drop 8 =
      audioxUpdatePutU32 version ++ audioxUpdatePutU32 count :=
    List.drop_left' hmagic
  have htwelve : (archiveHeader version count).drop 12 =
      audioxUpdatePutU32 count ++ [] := by
    rw [show 12 = 8 + 4 from rfl, ← List.drop_drop, height,
      List.drop_left' (length_putU32 _), List.append_nil]
  exact ⟨List.take_left' hmagic, by rw [height, getU32_putU32],
    by rw [htwelve, getU32_putU32]⟩

theorem eq_archiveHeader {header : Bytes} (hlen : header.length = 16)
    (hmagic : header.take 8 = audioxUpdateMagic) :
    header = archiveHeader (audioxUpdateGetU32 (header.drop 8))
      (audioxUpdateGetU32 (header.drop 12)) := by
  have hversion : audioxUpdatePutU32 (audioxUpdateGetU32 (header.drop 8)) =
      (header.drop 8).take 4 := by
    have := putU32_getU32 ((header.drop 8).take 4) (by simp [hlen])
    rwa [audioxUpdateGetU32, List.take_take] at this
  have hcount := putU32_getU32 (header.drop 12) (by simp [hlen])
  have hdrop : header.drop 12 = (header.drop 8).drop 4 := by
    rw [List.drop_drop]
  rw [archiveHeader, hversion, hcount, ← hmagic, hdrop,
    List.take_append_drop, List.take_append_drop]

/-- The reader behind a header that it has read. -/
theorem parseArchive_eq {count : UInt32} {rest : Bytes}
    (h : f.bytes = archiveHeader version count ++ rest) :
    parseArchive sub f = (do
      let mask ← requiredMask version count
      let st ← parseEntries sub f version count.toNat .start
      if st.offset ≠ f.size then
        .error "update archive has unexpected trailing data\n"
      else if st.seen &&& mask ≠ mask then
        .error "update archive is missing required entries\n"
      else .ok st.entries) := by
  have hlen : 16 ≤ f.bytes.length := by
    rw [h, List.length_append, length_archiveHeader]
    omega
  have henough : ¬f.size < 16 := by
    rw [UInt64.lt_iff_toNat_lt, f.toNat_size, toNat_sixteen]
    omega
  have hread : audioxUpdateReadAt f 16 0 =
      some (archiveHeader version count) :=
    readAt_eq_some_iff.mpr ⟨length_archiveHeader _ _, by
      rw [h]
      exact List.prefix_append _ _⟩
  obtain ⟨hmagic, hversion, hcount⟩ := archiveHeader_fields version count
  simp only [parseArchive, if_neg henough, audioxUpdateHeaderSize, hread,
    hmagic, hversion, hcount, ne_eq, not_true_eq_false, if_false]

/-- Without a header an archive is not accepted. -/
theorem exists_header {es : List AudioxUpdateEntry}
    (h : parseArchive sub f = .ok es) :
    ∃ version count rest, f.bytes = archiveHeader version count ++ rest := by
  simp only [parseArchive] at h
  split at h
  · cases h
  · split at h
    · cases h
    next header hread =>
      split at h
      · cases h
      next hmagic =>
        obtain ⟨hlen, rest, hrest⟩ := readAt_eq_some_iff.mp hread
        refine ⟨audioxUpdateGetU32 (header.drop 8),
          audioxUpdateGetU32 (header.drop 12), rest, ?_⟩
        rw [← eq_archiveHeader hlen (not_not.mp hmagic), hrest]
        rfl

/-- The ranges are determined by the archive. -/
theorem Recorded.unique {l : List ArchiveEntry}
    {es es' : List AudioxUpdateEntry}
    (hwf : ∀ e ∈ l, isKnown version e.type ∨
      e.type ∉ ([1, 2, 3, 4, 5, 6] : List UInt32))
    (h : Recorded f version l es) (h' : Recorded f version l es') :
    es = es' := by
  have heach : ∀ t ∈ ([1, 2, 3, 4, 5, 6] : List UInt32),
      es[(t - 1).toNat]? = es'[(t - 1).toNat]? := by
    intro t ht
    by_cases hmem : t ∈ l.map ArchiveEntry.type
    · obtain ⟨e, he, rfl⟩ := List.mem_map.mp hmem
      obtain ⟨pre, post, hsplit⟩ := List.append_of_mem he
      have hknown := (hwf e he).resolve_right fun hnot => hnot ht
      obtain ⟨a, ha, hla⟩ := h.present pre e post hsplit hknown
      obtain ⟨b, hb, hlb⟩ := h'.present pre e post hsplit hknown
      have hab : a = b := by
        cases a
        cases b
        have hcrc := hla.crc.trans hlb.crc.symm
        have hsize := hla.size.trans hlb.size.symm
        have hoffset := hla.offset.trans hlb.offset.symm
        simp only [UInt64.toNat_inj] at hcrc hsize hoffset
        rw [hcrc, hsize, hoffset]
      rw [ha, hb, hab]
    · rw [h.absent t ht hmem, h'.absent t ht hmem]
  apply List.ext_getElem?
  intro i
  by_cases hi : i < 6
  · have hindex : ∀ i < 6, ∃ t ∈ ([1, 2, 3, 4, 5, 6] : List UInt32),
        (t - 1).toNat = i := by decide
    obtain ⟨t, ht, rfl⟩ := hindex i hi
    exact heach t ht
  · rw [List.getElem?_eq_none (by rw [h.length]; omega),
      List.getElem?_eq_none (by rw [h'.length]; omega)]

theorem known_or_of_wellFormed {e : ArchiveEntry}
    (h : EntryWellFormed version e) : isKnown version e.type ∨
      e.type ∉ ([1, 2, 3, 4, 5, 6] : List UInt32) := by
  by_cases hknown : isKnown version e.type
  · exact .inl hknown
  · right
    obtain rfl := (h.unknown hknown).1
    have hall : ∀ t ∈ ([1, 2, 3, 4, 5, 6] : List UInt32),
        isKnown audioxUpdateVersion t := by
      simp only [List.forall_mem_cons, List.not_mem_nil, false_implies,
      implies_true, and_true]
      decide
    exact fun hmem => hknown (hall _ hmem)

/-- What the reader has found when it accepts. -/
theorem wellFormed_of_parse (hsub : Exact sub)
    {es : List AudioxUpdateEntry} (h : parseArchive sub f = .ok es) :
    ∃ version l, f.bytes = archiveBytes version l ∧
      ArchiveWellFormed version l ∧ Recorded f version l es ∧
      Separate f.bytes.length es := by
  obtain ⟨version, count, rest, hbytes⟩ := exists_header h
  rw [parseArchive_eq hbytes] at h
  have hlen : 16 ≤ f.bytes.length := by
    rw [hbytes, List.length_append, length_archiveHeader]
    omega
  have hdrop : f.bytes.drop 16 = rest := by
    rw [hbytes, List.drop_left' (length_archiveHeader _ _)]
  cases hmask : requiredMask version count with
  | error err =>
      rw [hmask] at h
      cases h
  | ok mask =>
      have hcount := requiredMask_isOk_iff.mp ⟨mask, hmask⟩
      have hv : version = 1 ∨ version = 2 := hcount.imp And.left And.left
      simp only [hmask, bind, Except.bind] at h
      split at h
      · cases h
      next st hloop =>
        obtain ⟨l, hl, hscanned⟩ := scanned_entries hsub hv
          (scanned_start hlen) hloop
        rw [List.nil_append] at hscanned
        split at h
        · cases h
        next hend =>
          split at h
          · cases h
          next hseen =>
            cases h
            have hstop : st.offset.toNat = f.bytes.length := by
              rw [not_not.mp hend, f.toNat_size]
            have hall : l.flatMap ArchiveEntry.bytes = rest := by
              rw [← hdrop]
              refine hscanned.bytes.eq_of_length ?_
              have := hscanned.offset
              rw [List.length_drop]
              omega
            have hcount' : l.length.toUInt32 = count := by
              rw [hl, Nat.toUInt32, UInt32.ofNat_toNat]
            refine ⟨version, l, ?_, ?_, hscanned.recorded,
              hstop ▸ hscanned.separate⟩
            · rw [hbytes, archiveBytes, hall, hcount']
              rfl
            · refine ⟨?_, hscanned.entry, hscanned.once, fun t ht => ?_⟩
              · rw [hl]
                rcases hcount with hv1 | hv2
                · refine .inl ⟨hv1.1, ?_⟩
                  rw [hv1.2]
                  rfl
                · exact .inr hv2
              · have hbit := (and_requiredMask hmask).mp (not_not.mp hseen) t
                  ht
                exact (hscanned.seen t (isKnown_of_required hv ht)).mp hbit

/-- The reader accepts every well-formed archive. -/
theorem parse_of_wellFormed (hsub : Exact sub) {l : List ArchiveEntry}
    (hbytes : f.bytes = archiveBytes version l)
    (hwf : ArchiveWellFormed version l) :
    ∃ es, parseArchive sub f = .ok es ∧ Recorded f version l es := by
  have hsplit : f.bytes = archiveHeader version l.length.toUInt32 ++
      l.flatMap ArchiveEntry.bytes := hbytes
  have hlen : 16 ≤ f.bytes.length := by
    rw [hsplit, List.length_append, length_archiveHeader]
    omega
  have hdrop : f.bytes.drop 16 = l.flatMap ArchiveEntry.bytes := by
    rw [hsplit, List.drop_left' (length_archiveHeader _ _)]
  have hv : version = 1 ∨ version = 2 := hwf.count.imp And.left And.left
  have hsmall : l.length ≤ 64 := by
    rcases hwf.count with ⟨-, hfour⟩ | ⟨-, -, hmany⟩
    · omega
    · exact hmany
  have hcount : (l.length.toUInt32).toNat = l.length := by
    rw [Nat.toUInt32, UInt32.toNat_ofNat_of_lt' (by
      rw [UInt32.size]
      omega)]
  obtain ⟨mask, hmask⟩ : ∃ mask,
      requiredMask version l.length.toUInt32 = .ok mask := by
    rw [requiredMask_isOk_iff, hcount]
    rcases hwf.count with hv1 | hv2
    · refine .inl ⟨hv1.1, ?_⟩
      rw [hv1.2]
      rfl
    · exact .inr hv2
  obtain ⟨st, hloop, hscanned⟩ := parseEntries_scanned hsub hv
    (scanned_start hlen) (l := l) (by
      simp only [List.nil_append, hdrop, List.prefix_refl]) hwf.entry (by
      rw [List.nil_append]
      exact hwf.once)
  rw [List.nil_append] at hscanned
  refine ⟨st.entries, ?_, hscanned.recorded⟩
  have hend : st.offset = f.size := by
    rw [← UInt64.toNat_inj, f.toNat_size, hscanned.offset, hsplit,
      List.length_append, length_archiveHeader]
  have hseen : st.seen &&& mask = mask := by
    rw [and_requiredMask hmask]
    intro t ht
    exact (hscanned.seen t (isKnown_of_required hv ht)).mpr
      (hwf.required t ht)
  simp only [parseArchive_eq hsplit, hmask, hcount, hloop, bind, Except.bind,
    hend, hseen, ne_eq, not_true_eq_false, if_false]

/-! ## No subtraction underflows -/

theorem parseEntry_exact (hsub : Exact sub)
    (hoff : st.offset.toNat ≤ f.bytes.length) :
    parseEntry sub f version st = parseEntry wrappingSub f version st := by
  have hsmall := f.small
  have hsize := f.toNat_size
  have hsixteen := toNat_sixteen
  have hle : st.offset ≤ f.size := by
    rw [UInt64.le_iff_toNat_le]
    omega
  simp only [parseEntry, hsub _ _ hle, exact_wrappingSub _ _ hle, bind,
    Except.bind]
  by_cases henough : f.size - st.offset < 16
  · rw [if_pos henough, if_pos henough]
  · rw [if_neg henough, if_neg henough]
    rw [sub_lt_iff hle] at henough
    have hstart : (st.offset + 16).toNat = st.offset.toNat + 16 :=
      toNat_add_small (by omega)
    have hle' : st.offset + 16 ≤ f.size := by
      rw [UInt64.le_iff_toNat_le]
      omega
    rw [hsub _ _ hle', exact_wrappingSub _ _ hle']

/-- Behind an entry the offset is still inside the file. -/
theorem parseEntry_inside (hoff : st.offset.toNat ≤ f.bytes.length)
    (h : parseEntry wrappingSub f version st = .ok st') :
    st'.offset.toNat ≤ f.bytes.length := by
  have hsmall := f.small
  have hsixteen := toNat_sixteen
  obtain ⟨e, hbytes, -, -, rfl⟩ :=
    (parseEntry_ok_iff exact_wrappingSub hoff).mp h
  obtain ⟨hsize, hin⟩ := ArchiveEntry.toNat_size hbytes
  have hstart : (st.offset + 16).toNat = st.offset.toNat + 16 :=
    toNat_add_small (by omega)
  rw [Scan.next_offset, toNat_add_small (by omega)]
  omega

theorem parseEntries_exact (hsub : Exact sub) {n : Nat}
    (hoff : st.offset.toNat ≤ f.bytes.length) :
    parseEntries sub f version n st =
      parseEntries wrappingSub f version n st := by
  induction n generalizing st with
  | zero => rfl
  | succ n ih =>
      simp only [parseEntries, parseEntry_exact hsub hoff, bind, Except.bind]
      cases hentry : parseEntry wrappingSub f version st with
      | error err => rfl
      | ok st₁ => exact ih (parseEntry_inside hoff hentry)

/-- On no file does a subtraction of the reader underflow. -/
theorem parseArchive_exact (hsub : Exact sub) (f : ArchiveFile) :
    parseArchive sub f = parseArchive wrappingSub f := by
  simp only [parseArchive]
  by_cases henough : f.size < 16
  · rw [if_pos henough, if_pos henough]
  · have hstart : Scan.start.offset.toNat ≤ f.bytes.length := by
      rw [UInt64.lt_iff_toNat_lt, f.toNat_size, toNat_sixteen] at henough
      exact Nat.not_lt.mp henough
    rw [if_neg henough, if_neg henough]
    simp only [parseEntries_exact hsub hstart]

/-- The reader accepts exactly the well-formed archives, and records the
ranges of their payloads, which lie in the file and do not overlap; it never
subtracts an offset from a smaller size. -/
theorem audioxUpdateParseArchive_iff (f : ArchiveFile) :
    (∀ es, audioxUpdateParseArchive f = .ok es ↔
      ∃ version l, f.bytes = archiveBytes version l ∧
        ArchiveWellFormed version l ∧ Recorded f version l es) ∧
    (∀ es, audioxUpdateParseArchive f = .ok es →
      Separate f.bytes.length es) ∧
    parseArchive checkedSub f = audioxUpdateParseArchive f := by
  refine ⟨fun es => ⟨fun h => ?_, ?_⟩, fun es h => ?_,
    parseArchive_exact exact_checkedSub f⟩
  · obtain ⟨version, l, hbytes, hwf, hrec, -⟩ :=
      wellFormed_of_parse exact_wrappingSub h
    exact ⟨version, l, hbytes, hwf, hrec⟩
  · rintro ⟨version, l, hbytes, hwf, hrec⟩
    obtain ⟨es', hok, hrec'⟩ :=
      parse_of_wellFormed exact_wrappingSub hbytes hwf
    have heq := hrec.unique
      (fun e he => known_or_of_wellFormed (hwf.entry e he)) hrec'
    rw [heq]
    exact hok
  · obtain ⟨-, -, -, -, -, hsep⟩ := wellFormed_of_parse exact_wrappingSub h
    exact hsep

end Audiox
