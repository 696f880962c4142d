import Audiox.Update.Archive

/-!
# The archive reader

The reader goes through an archive with 64-bit offsets that depend on sizes in
the archive.  It accepts exactly the archives of the format, records where the
payloads are, and never subtracts an offset from a smaller size.
-/

namespace Audiox

open ByteCodec

/-! ## The reader -/

/-- The contents of a file, whose size is an `off_t`. -/
structure ArchiveFile where
  bytes : Bytes
  small : bytes.length < 2 ^ 63

def ArchiveFile.size (f : ArchiveFile) : UInt64 :=
  f.bytes.length.toUInt64

/-- Reads all of a range; the end of the file is an error. -/
def audioxUpdateReadAt (f : ArchiveFile) (len : Nat) (offset : UInt64) :
    Option Bytes :=
  let buf := (f.bytes.drop offset.toNat).take len
  if buf.length = len then some buf else none

/-- The range of a known entry; size 0 means that the entry is absent. -/
structure AudioxUpdateEntry where
  crc : UInt32
  size : UInt64
  offset : UInt64
deriving DecidableEq

def AudioxUpdateEntry.absent : AudioxUpdateEntry :=
  ⟨0, 0, 0⟩

/-- The rest of a payload is read in pieces of 16384 bytes. -/
def entryCrcLoop (f : ArchiveFile) (entry : AudioxUpdateEntry) :
    Nat → UInt64 → UInt32 → Option UInt32
  | 0, _, crc => some crc
  | fuel + 1, done, crc =>
      if done < entry.size then
        let left := entry.size - done
        let want := if left < 16384 then left else 16384
        match audioxUpdateReadAt f want.toNat (entry.offset + done) with
        | none => none
        | some buf =>
            entryCrcLoop f entry fuel (done + want)
              (audioxUpdateCrc32 crc buf)
      else some crc

/-- Whether the payload matches its checksum; `none` if it cannot be read. -/
def audioxUpdateCheckEntryCrc (f : ArchiveFile) (entry : AudioxUpdateEntry) :
    Option Bool :=
  (entryCrcLoop f entry entry.size.toNat 0 0).map (· == entry.crc)

/-- The state between two entries. -/
structure Scan where
  seen : UInt32
  offset : UInt64
  entries : List AudioxUpdateEntry

def Scan.start : Scan where
  seen := 0
  offset := 16
  entries := List.replicate 6 .absent

def typeBit (type : UInt32) : UInt32 :=
  1 <<< (type - 1)

/-- The error of an entry whose type or size is not allowed. -/
def entryError (version seen type : UInt32) (size : UInt64) : Option String :=
  if !isKnown version type then
    if version = audioxUpdateVersionV1 then
      some "unknown update archive entry type\n"
    else if type &&& audioxUpdateTypeRequired ≠ 0 then
      some "update archive needs newer firmware (unknown required entry)\n"
    else none
  else if seen &&& typeBit type ≠ 0 then
    some "duplicate update archive entry\n"
  else if size = 0 then some "invalid update archive entry size\n"
  else if
    (type = audioxUpdateConfig ∧ audioxUpdateConfigMax < size.toNat) ∨
    (type = audioxUpdateMetadata ∧ audioxUpdateMetadataMax < size.toNat) ∨
    (type = audioxUpdateCmdline ∧ audioxUpdateCmdlineMax < size.toNat) then
    some "update archive entry is too large\n"
  else none

/-- A subtraction of 64-bit numbers. -/
abbrev Subtraction := UInt64 → UInt64 → Except String UInt64

/-- The subtraction of the code, modulo 2^64. -/
def wrappingSub : Subtraction :=
  fun a b => .ok (a - b)

/-- A subtraction that notices when it would underflow. -/
def checkedSub : Subtraction :=
  fun a b => if b ≤ a then .ok (a - b) else .error "underflow"

/-- Reads the entry at the offset, which has to end inside the file. -/
def parseEntry (sub : Subtraction) (f : ArchiveFile) (version : UInt32)
    (st : Scan) : Except String Scan := do
  if (← sub f.size st.offset) < 16 then
    .error "update archive entry header is incomplete\n"
  else
    match audioxUpdateReadAt f audioxUpdateEntryHeaderSize st.offset with
    | none => .error "update archive entry header is incomplete\n"
    | some header => do
        let type := audioxUpdateGetU32 header
        let entry : AudioxUpdateEntry :=
          { crc := audioxUpdateGetU32 (header.drop 4)
            size := audioxUpdateGetU64 (header.drop 8)
            offset := st.offset + 16 }
        if (← sub f.size entry.offset) < entry.size then
          .error "invalid update archive entry size\n"
        else
          match entryError version st.seen type entry.size with
          | some e => .error e
          | none =>
              match audioxUpdateCheckEntryCrc f entry with
              | none => .error "failed to read update archive entry\n"
              | some false =>
                  .error "update archive entry checksum mismatch\n"
              | some true =>
                  if isKnown version type then
                    .ok
                      { seen := st.seen ||| typeBit type
                        offset := entry.offset + entry.size
                        entries := st.entries.set (type - 1).toNat entry }
                  else .ok { st with offset := entry.offset + entry.size }

def parseEntries (sub : Subtraction) (f : ArchiveFile) (version : UInt32) :
    Nat → Scan → Except String Scan
  | 0, st => .ok st
  | n + 1, st => do
      let st' ← parseEntry sub f version st
      parseEntries sub f version n st'

/-- The bits of the types an archive must have; an error for a version that
is not known or that does not allow the number of entries. -/
def requiredMask (version count : UInt32) : Except String UInt32 :=
  if version = audioxUpdateVersionV1 then
    if count ≠ audioxUpdateEntryCountV1 then
      .error "update archive has the wrong number of entries\n"
    else .ok ((1 <<< audioxUpdateEntryCountV1) - 1)
  else if version = audioxUpdateVersion then
    if count = 0 ∨ audioxUpdateEntryLimit < count then
      .error "update archive has the wrong number of entries\n"
    else .ok ((1 <<< audioxUpdateEntryCount) - 1)
  else .error "unsupported update archive version (newer firmware required)\n"

/-- Checks a whole archive and returns the ranges of the known entries, the
entry of type `t` at `t - 1`. -/
def parseArchive (sub : Subtraction) (f : ArchiveFile) :
    Except String (List AudioxUpdateEntry) :=
  if f.size < 16 then .error "update archive header is incomplete\n"
  else
    match audioxUpdateReadAt f audioxUpdateHeaderSize 0 with
    | none => .error "update archive header is incomplete\n"
    | some header =>
        if header.take 8 ≠ audioxUpdateMagic then
          .error "invalid update archive magic\n"
        else do
          let version := audioxUpdateGetU32 (header.drop 8)
          let count := audioxUpdateGetU32 (header.drop 12)
          let mask ← requiredMask version count
          let st ← parseEntries sub f version count.toNat .start
          if st.offset ≠ f.size then
            .error "update archive has unexpected trailing data\n"
          else if st.seen &&& mask ≠ mask then
            .error "update archive is missing required entries\n"
          else .ok st.entries

def audioxUpdateParseArchive (f : ArchiveFile) :
    Except String (List AudioxUpdateEntry) :=
  parseArchive wrappingSub f

/-! ## Reading a range -/

variable {f : ArchiveFile} {version : UInt32} {st st' : Scan}

theorem ArchiveFile.toNat_size (f : ArchiveFile) :
    f.size.toNat = f.bytes.length := by
  have hsmall := f.small
  rw [ArchiveFile.size, Nat.toUInt64, UInt64.toNat_ofNat_of_lt' (by
    rw [UInt64.size]
    omega)]

theorem toNat_add_small {a b : UInt64} (h : a.toNat + b.toNat < 2 ^ 64) :
    (a + b).toNat = a.toNat + b.toNat := by
  rw [UInt64.toNat_add, Nat.mod_eq_of_lt h]

theorem sub_lt_iff {a b c : UInt64} (h : b ≤ a) :
    a - b < c ↔ a.toNat - b.toNat < c.toNat := by
  rw [UInt64.lt_iff_toNat_lt, UInt64.toNat_sub_of_le _ _ h]

theorem toNat_sixteen : (16 : UInt64).toNat = 16 :=
  rfl

theorem readAt_eq_some_iff {len : Nat} {offset : UInt64} {buf : Bytes} :
    audioxUpdateReadAt f len offset = some buf ↔
      buf.length = len ∧ buf <+: f.bytes.drop offset.toNat := by
  simp only [audioxUpdateReadAt]
  constructor
  · intro h
    split at h
    next hlen =>
      cases h
      exact ⟨hlen, List.take_prefix _ _⟩
    · cases h
  · rintro ⟨rfl, hpre⟩
    rw [← List.prefix_iff_eq_take.mp hpre, if_pos rfl]

theorem readAt_inside {len : Nat} {offset : UInt64}
    (h : offset.toNat + len ≤ f.bytes.length) :
    audioxUpdateReadAt f len offset =
      some ((f.bytes.drop offset.toNat).take len) := by
  rw [readAt_eq_some_iff]
  refine ⟨?_, List.take_prefix _ _⟩
  rw [List.length_take, List.length_drop]
  omega

/-- The loop computes the checksum of the rest of the payload. -/
theorem entryCrcLoop_eq {entry : AudioxUpdateEntry}
    (hin : entry.offset.toNat + entry.size.toNat ≤ f.bytes.length)
    {fuel : Nat} {done : UInt64} (hdone : done.toNat ≤ entry.size.toNat)
    (hfuel : entry.size.toNat ≤ done.toNat + fuel) (crc : UInt32) :
    entryCrcLoop f entry fuel done crc =
      some (audioxUpdateCrc32 crc
        ((f.bytes.drop (entry.offset.toNat + done.toNat)).take
          (entry.size.toNat - done.toNat))) := by
  have hsmall := f.small
  induction fuel generalizing done crc with
  | zero =>
      have hzero : entry.size.toNat - done.toNat = 0 := by omega
      rw [entryCrcLoop, hzero, List.take_zero, audioxUpdateCrc32_nil]
  | succ fuel ih =>
      rw [entryCrcLoop]
      by_cases hlt : done < entry.size
      · rw [if_pos hlt]
        have hlt' : done.toNat < entry.size.toNat :=
          UInt64.lt_iff_toNat_lt.mp hlt
        have hleft : (entry.size - done).toNat =
            entry.size.toNat - done.toNat :=
          UInt64.toNat_sub_of_le _ _ (UInt64.le_iff_toNat_le.mpr hdone)
        -- A piece is neither empty nor longer than what is left.
        obtain ⟨want, hwant, hpos, hle⟩ : ∃ want : UInt64,
            (if entry.size - done < 16384 then entry.size - done
              else 16384) = want ∧
            0 < want.toNat ∧
            want.toNat ≤ entry.size.toNat - done.toNat := by
          refine ⟨_, rfl, ?_⟩
          split
          · rw [hleft]
            omega
          next hbig =>
            rw [UInt64.lt_iff_toNat_lt, hleft] at hbig
            have h16384 : (16384 : UInt64).toNat = 16384 := rfl
            omega
        have hoffset : (entry.offset + done).toNat =
            entry.offset.toNat + done.toNat := toNat_add_small (by omega)
        have hnext : (done + want).toNat = done.toNat + want.toNat :=
          toNat_add_small (by omega)
        simp only [hwant]
        rw [readAt_inside (by omega), hoffset]
        simp only
        rw [ih (by omega) (by omega), hnext, ← audioxUpdateCrc32_append]
        congr 2
        have hsplit : entry.size.toNat - done.toNat =
            want.toNat + (entry.size.toNat - (done.toNat + want.toNat)) := by
          omega
        rw [hsplit, List.take_add, List.drop_drop, Nat.add_assoc]
      · rw [if_neg hlt]
        have hzero : entry.size.toNat - done.toNat = 0 := by
          rw [UInt64.lt_iff_toNat_lt] at hlt
          omega
        rw [hzero, List.take_zero, audioxUpdateCrc32_nil]

theorem checkEntryCrc_eq (entry : AudioxUpdateEntry)
    (hin : entry.offset.toNat + entry.size.toNat ≤ f.bytes.length) :
    audioxUpdateCheckEntryCrc f entry =
      some (audioxUpdateCrc32 0
        ((f.bytes.drop entry.offset.toNat).take entry.size.toNat) ==
          entry.crc) := by
  rw [audioxUpdateCheckEntryCrc,
    entryCrcLoop_eq hin (Nat.zero_le _) (by simp)]
  simp

/-! ## One entry -/

/-- The state behind an accepted entry. -/
def Scan.next (version : UInt32) (st : Scan) (e : ArchiveEntry) : Scan :=
  if isKnown version e.type then
    { seen := st.seen ||| typeBit e.type
      offset := st.offset + 16 + e.size
      entries := st.entries.set (e.type - 1).toNat
        ⟨e.crc, e.size, st.offset + 16⟩ }
  else { st with offset := st.offset + 16 + e.size }

theorem Scan.next_offset (st : Scan) (e : ArchiveEntry) :
    (st.next version e).offset = st.offset + 16 + e.size := by
  rw [Scan.next]
  split <;> rfl

/-- The header of an entry consists of its three fields. -/
theorem header_eq {header : Bytes} (h : header.length = 16) :
    audioxUpdatePutU32 (audioxUpdateGetU32 header) ++
        (audioxUpdatePutU32 (audioxUpdateGetU32 (header.drop 4)) ++
          audioxUpdatePutU64 (audioxUpdateGetU64 (header.drop 8))) =
      header := by
  have hfirst : audioxUpdatePutU32 (audioxUpdateGetU32 header) =
      header.take 4 := by
    have := putU32_getU32 (header.take 4) (by simp [h])
    rwa [audioxUpdateGetU32, List.take_take] at this
  have hsecond : audioxUpdatePutU32 (audioxUpdateGetU32 (header.drop 4)) =
      (header.drop 4).take 4 := by
    have := putU32_getU32 ((header.drop 4).take 4) (by simp [h])
    rwa [audioxUpdateGetU32, List.take_take] at this
  have hthird := putU64_getU64 (header.drop 8) (by simp [h])
  have hdrop : header.drop 8 = (header.drop 4).drop 4 := by
    rw [List.drop_drop]
  rw [hfirst, hsecond, hthird, hdrop, List.take_append_drop,
    List.take_append_drop]

theorem ArchiveEntry.fields_header (e : ArchiveEntry) :
    audioxUpdateGetU32 e.header = e.type ∧
      audioxUpdateGetU32 (e.header.drop 4) = e.crc ∧
      audioxUpdateGetU64 (e.header.drop 8) = e.size := by
  have hfour : e.header.drop 4 = audioxUpdatePutU32 e.crc ++
      audioxUpdatePutU64 e.size := List.drop_left' (length_putU32 _)
  have height : e.header.drop 8 = audioxUpdatePutU64 e.size := by
    rw [show 8 = 4 + 4 from rfl, ← List.drop_drop, hfour,
      List.drop_left' (length_putU32 _)]
  refine ⟨getU32_putU32 _ _, ?_, ?_⟩
  · rw [hfour, getU32_putU32]
  · have := getU64_putU64 e.size []
    rwa [List.append_nil, ← height] at this

theorem ArchiveEntry.toNat_size {e : ArchiveEntry} {n : Nat}
    (h : e.bytes <+: f.bytes.drop n) :
    e.size.toNat = e.payload.length ∧
      n + 16 + e.payload.length ≤ f.bytes.length := by
  have hsmall := f.small
  have hlen := h.length_le
  rw [ArchiveEntry.length_bytes, List.length_drop] at hlen
  refine ⟨?_, by omega⟩
  rw [ArchiveEntry.size, Nat.toUInt64, UInt64.toNat_ofNat_of_lt' (by
    rw [UInt64.size]
    omega)]

/-- The reader on an entry that is there. -/
theorem parseEntry_eq {sub : Subtraction}
    (hsub : ∀ a b, b ≤ a → sub a b = .ok (a - b)) {e : ArchiveEntry}
    (h : e.bytes <+: f.bytes.drop st.offset.toNat) :
    parseEntry sub f version st =
      match entryError version st.seen e.type e.size with
      | some err => .error err
      | none =>
          if audioxUpdateCrc32 0 e.payload = e.crc then
            .ok (st.next version e)
          else .error "update archive entry checksum mismatch\n" := by
  have hsmall := f.small
  have hsize := f.toNat_size
  obtain ⟨hlen, hin⟩ := ArchiveEntry.toNat_size h
  have hle : st.offset ≤ f.size := by
    rw [UInt64.le_iff_toNat_le]
    omega
  have hsixteen := toNat_sixteen
  have hstart : (st.offset + 16).toNat = st.offset.toNat + 16 :=
    toNat_add_small (by omega)
  have hle' : st.offset + 16 ≤ f.size := by
    rw [UInt64.le_iff_toNat_le]
    omega
  have hheader : audioxUpdateReadAt f 16 st.offset = some e.header :=
    readAt_eq_some_iff.mpr
      ⟨e.length_header, (List.prefix_append _ _).trans h⟩
  have henough : ¬f.size - st.offset < 16 := by
    rw [sub_lt_iff hle]
    omega
  have hfits : ¬f.size - (st.offset + 16) < e.size := by
    rw [sub_lt_iff hle']
    omega
  have hpayload :
      (f.bytes.drop (st.offset.toNat + 16)).take e.payload.length =
        e.payload := by
    obtain ⟨rest, hrest⟩ := h
    rw [← List.drop_drop, ← hrest, ArchiveEntry.bytes, List.append_assoc,
      List.drop_left' e.length_header, List.take_left]
  have hcrc := checkEntryCrc_eq (f := f) ⟨e.crc, e.size, st.offset + 16⟩ (by
    rw [hstart, hlen]
    exact hin)
  rw [hstart, hlen, hpayload] at hcrc
  obtain ⟨htype, hfield, hsizes⟩ := e.fields_header
  simp only [parseEntry, hsub _ _ hle, hsub _ _ hle',
    audioxUpdateEntryHeaderSize, hheader, htype, hfield, hsizes, hcrc, bind, Except.bind, if_neg henough,
    if_neg hfits]
  cases entryError version st.seen e.type e.size with
  | some err => rfl
  | none =>
      by_cases hmatch : audioxUpdateCrc32 0 e.payload = e.crc
      · simp only [hmatch, beq_self_eq_true, if_true, Scan.next]
        split <;> rfl
      · have hfalse : (audioxUpdateCrc32 0 e.payload == e.crc) = false :=
          beq_false_of_ne hmatch
        simp only [hfalse, if_neg hmatch]

/-- What the reader accepts is an entry. -/
theorem exists_entry {sub : Subtraction}
    (hsub : ∀ a b, b ≤ a → sub a b = .ok (a - b))
    (hoff : st.offset.toNat ≤ f.bytes.length)
    (h : parseEntry sub f version st = .ok st') :
    ∃ e : ArchiveEntry, e.bytes <+: f.bytes.drop st.offset.toNat := by
  have hsmall := f.small
  have hsize := f.toNat_size
  have hle : st.offset ≤ f.size := by
    rw [UInt64.le_iff_toNat_le]
    omega
  have hsixteen := toNat_sixteen
  simp only [parseEntry, hsub _ _ hle, bind, Except.bind] at h
  split at h
  · cases h
  next henough =>
    have hroom : 16 ≤ f.bytes.length - st.offset.toNat := by
      rw [sub_lt_iff hle] at henough
      omega
    have hstart : (st.offset + 16).toNat = st.offset.toNat + 16 :=
      toNat_add_small (by omega)
    have hle' : st.offset + 16 ≤ f.size := by
      rw [UInt64.le_iff_toNat_le]
      omega
    split at h
    · cases h
    next header hread =>
      obtain ⟨hlen, hpre⟩ := readAt_eq_some_iff.mp hread
      replace hlen : header.length = 16 := hlen
      rw [hsub _ _ hle'] at h
      simp only at h
      split at h
      · cases h
      next hfits =>
        rw [sub_lt_iff hle'] at hfits
        generalize hn : audioxUpdateGetU64 (header.drop 8) = size at hfits
        -- The payload is what stands behind the header.
        let payload := (f.bytes.drop (st.offset.toNat + 16)).take size.toNat
        have hpayload : payload.length = size.toNat := by
          rw [List.length_take, List.length_drop]
          omega
        refine ⟨⟨audioxUpdateGetU32 header,
          audioxUpdateGetU32 (header.drop 4), payload⟩, ?_⟩
        rw [ArchiveEntry.bytes, ArchiveEntry.header, ArchiveEntry.size]
        simp only [hpayload]
        rw [Nat.toUInt64, UInt64.ofNat_toNat, ← hn, header_eq hlen]
        obtain ⟨rest, hrest⟩ := hpre
        have hdrop : f.bytes.drop (st.offset.toNat + 16) = rest := by
          rw [← List.drop_drop, ← hrest, List.drop_left' hlen]
        rw [← hrest, List.prefix_append_right_inj]
        simp only [payload, hdrop]
        exact List.take_prefix _ _

theorem parseEntry_ok_iff {sub : Subtraction}
    (hsub : ∀ a b, b ≤ a → sub a b = .ok (a - b))
    (hoff : st.offset.toNat ≤ f.bytes.length) :
    parseEntry sub f version st = .ok st' ↔
      ∃ e : ArchiveEntry, e.bytes <+: f.bytes.drop st.offset.toNat ∧
        entryError version st.seen e.type e.size = none ∧
        audioxUpdateCrc32 0 e.payload = e.crc ∧ st' = st.next version e := by
  constructor
  · intro h
    obtain ⟨e, he⟩ := exists_entry hsub hoff h
    rw [parseEntry_eq hsub he] at h
    split at h
    · cases h
    next hnone =>
      split at h
      next hcrc =>
        cases h
        exact ⟨e, he, hnone, hcrc, rfl⟩
      · cases h
  · rintro ⟨e, he, hnone, hcrc, rfl⟩
    rw [parseEntry_eq hsub he, hnone]
    simp only
    rw [if_pos hcrc]

end Audiox
