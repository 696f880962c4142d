import Audiox.Plugin.Package

/-!
# The package format is canonical

A package that is accepted consists of the bytes of its entries and of nothing
else, and these bytes determine the entries.  So parsing and building are
inverse to each other.
-/

namespace Audiox.Plugin

open ByteCodec CheckedRead

variable {host : Host} {data : Bytes} {native : Bool} {st st' : PackageState}
  {e : Entry}

/-! ## Readers stay inside -/

theorem inside_elfSegment {phoff phnum i : Nat} (hlen : data.length < 2 ^ 64)
    (hoff : phoff ≤ data.length) (hnum : phnum ≤ sizeSub data.length phoff / 56)
    (hi : i < phnum) (load : Bool) :
    Inside (elfSegment data phoff 56 load i) := by
  rw [sizeSub_eq hlen hoff] at hnum
  have hend : phoff + i * 56 + 56 ≤ data.length := by
    have hmul := Nat.div_mul_le_self (data.length - phoff) 56
    omega
  unfold elfSegment
  apply (inside_readLe (by omega)).bind
  intro offset _
  apply (inside_readLe (by omega)).bind
  intro bytes _
  apply Inside.check
  intro _
  apply (inside_readLe (by omega)).bind
  intro type _
  split
  · apply (inside_readLe (by omega)).bind
    intro memory _
    apply Inside.check
    intro _
    exact inside_pure _
  · exact inside_pure _

theorem inside_elfSection {shoff shnum i : Nat} (hlen : data.length < 2 ^ 64)
    (hoff : shoff ≤ data.length) (hnum : shnum ≤ sizeSub data.length shoff / 64)
    (hi : i < shnum) (u : Unit) :
    Inside (elfSection data shoff 64 u i) := by
  rw [sizeSub_eq hlen hoff] at hnum
  have hend : shoff + i * 64 + 64 ≤ data.length := by
    have hmul := Nat.div_mul_le_self (data.length - shoff) 64
    omega
  unfold elfSection
  apply (inside_readLe (by omega)).bind
  intro offset _
  apply (inside_readLe (by omega)).bind
  intro bytes _
  apply (inside_readLe (by omega)).bind
  intro type _
  exact inside_refuseIf _

theorem inside_elfTables (hlen : data.length < 2 ^ 64)
    (hsize : 64 ≤ data.length) : Inside (elfTables data) := by
  unfold elfTables
  apply (inside_readLe (by omega)).bind
  intro phoff _
  apply (inside_readLe (by omega)).bind
  intro shoff _
  apply (inside_readLe (by omega)).bind
  intro phsize _
  apply (inside_readLe (by omega)).bind
  intro phnum _
  apply (inside_readLe (by omega)).bind
  intro shsize _
  apply (inside_readLe (by omega)).bind
  intro shnum _
  apply Inside.check
  intro hprograms
  apply Inside.check
  intro hsections
  push Not at hprograms hsections
  obtain ⟨-, -, hphsize, -, hphoff, hphnum⟩ := hprograms
  subst hphsize
  have hsegments : Inside ((List.range phnum).foldlM
      (elfSegment data phoff 56) false) := by
    apply Inside.foldlM
    intro i hi load
    exact inside_elfSegment hlen hphoff hphnum (List.mem_range.mp hi) load
  apply hsegments.bind
  intro load _
  apply Inside.check
  intro _
  apply Inside.foldlM
  intro i hi u
  have hi := List.mem_range.mp hi
  obtain ⟨hshsize, -, hshoff, hshnum⟩ := hsections.1 (by omega)
  subst hshsize
  exact inside_elfSection hlen hshoff hshnum hi u

theorem inside_elf (hlen : data.length < 2 ^ 64) :
    Inside (elf host data native) := by
  have hheader : Inside (elfHeader host data native) := by
    unfold elfHeader
    apply Inside.check
    intro hsize
    apply (inside_slice (by omega)).bind
    intro ident _
    apply (inside_readLe (by omega)).bind
    intro type _
    apply (inside_readLe (by omega)).bind
    intro version _
    apply (inside_readLe (by omega)).bind
    intro headerSize _
    apply Inside.check
    intro _
    apply (inside_readLe (by omega)).bind
    intro machine _
    apply Inside.check
    intro _
    exact inside_refuseIf _
  unfold elf
  apply hheader.bind
  intro u hu
  apply inside_elfTables hlen
  unfold elfHeader at hu
  obtain ⟨v, hsize, -⟩ := bind_eq_ok.mp hu
  have hsize := refuseIf_eq_ok.mp hsize
  omega

theorem entryLimit_le {kind : UInt32} {name : Bytes} {limit : Nat}
    (h : entryLimit kind name st = some limit) : limit ≤ kMaxModuleBytes := by
  unfold entryLimit at h
  split at h
  · cases h
    decide
  · split at h
    · cases h
      decide
    · split at h
      · cases h
        decide
      · cases h

theorem inside_readEntry (hlen : data.length ≤ kMaxPackageBytes)
    (hpos : st.pos ≤ data.length) : Inside (readEntry data st) := by
  have hsmall : data.length < 2 ^ 64 := lt_of_le_of_lt hlen (by decide)
  unfold readEntry
  apply Inside.check
  intro hroom
  rw [sizeSub_eq hsmall hpos] at hroom
  apply (inside_readLe (by omega)).bind
  intro kind _
  apply (inside_readLe (by omega)).bind
  intro nameLength _
  apply (inside_readLe (by omega)).bind
  intro bytes _
  apply (inside_readLe (by omega)).bind
  intro checksum _
  apply Inside.check
  intro hname
  rw [sizeSub_eq hsmall (by omega)] at hname
  apply (inside_slice (by omega)).bind
  intro name _
  apply Inside.check
  intro _
  apply Inside.check
  intro _
  apply Inside.check
  intro hbytes
  rw [sizeSub_eq hsmall (by omega)] at hbytes
  apply (inside_slice (by omega)).bind
  intro content _
  apply Inside.check
  intro _
  exact inside_pure _

/-! ## One entry -/

/-- What reading an entry finds. -/
structure EntryRead (data : Bytes) (st : PackageState) (e : Entry) :
    Prop where
  fits : st.pos + 20 + e.name.length + e.data.length ≤ data.length
  bytes : data.take (st.pos + 20 + e.name.length + e.data.length) =
    data.take st.pos ++ e.bytes
  name : e.name.length ≤ kMaxEntryName
  size : e.data.length ≤ kMaxModuleBytes
  limit : ∃ limit, entryLimit e.kind e.name st = some limit

theorem entryRead_of_readEntry (h : readEntry data st = .ok e) :
    EntryRead data st e := by
  unfold readEntry at h
  obtain ⟨_, -, h⟩ := bind_eq_ok.mp h
  obtain ⟨kind, hkind, h⟩ := bind_eq_ok.mp h
  obtain ⟨nameLength, hnameLength, h⟩ := bind_eq_ok.mp h
  obtain ⟨bytes, hbytes, h⟩ := bind_eq_ok.mp h
  obtain ⟨checksum, hchecksum, h⟩ := bind_eq_ok.mp h
  obtain ⟨_, hnameCheck, h⟩ := bind_eq_ok.mp h
  obtain ⟨name, hname, h⟩ := bind_eq_ok.mp h
  obtain ⟨_, -, h⟩ := bind_eq_ok.mp h
  obtain ⟨_, hlimit, h⟩ := bind_eq_ok.mp h
  obtain ⟨_, hsize, h⟩ := bind_eq_ok.mp h
  obtain ⟨content, hcontent, h⟩ := bind_eq_ok.mp h
  obtain ⟨_, hcrc, h⟩ := bind_eq_ok.mp h
  cases pure_eq_ok.mp h
  obtain ⟨-, hkindLt, hkindBytes⟩ := take_of_readLe hkind
  obtain ⟨-, -, hnameLengthBytes⟩ := take_of_readLe hnameLength
  obtain ⟨-, -, hbytesBytes⟩ := take_of_readLe hbytes
  obtain ⟨-, hchecksumLt, hchecksumBytes⟩ := take_of_readLe hchecksum
  obtain ⟨-, hnameLen, hnameBytes⟩ := take_of_slice hname
  obtain ⟨hfits, hcontentLen, hcontentBytes⟩ := take_of_slice hcontent
  have hnameCheck := refuseIf_eq_ok.mp hnameCheck
  have hcrc := refuseIf_eq_ok.mp hcrc
  have hsize := refuseIf_eq_ok.mp hsize
  obtain ⟨limit, hlimit⟩ :=
    Option.ne_none_iff_exists'.mp (refuseIf_eq_ok.mp hlimit)
  have hword : ∀ v < 256 ^ 4, v.toUInt32.toNat = v := by
    intro v hv
    exact UInt32.toNat_ofNat_of_lt' hv
  constructor
  · simp only [hnameLen, hcontentLen]
    exact hfits
  · simp only [Entry.bytes, hnameLen, hcontentLen, hcontentBytes, hnameBytes]
    rw [not_not.mp hcrc, hword kind hkindLt, hword checksum hchecksumLt]
    have h8 : data.take (st.pos + 8) = _ := hnameLengthBytes
    have h16 : data.take (st.pos + 16) = _ := hbytesBytes
    have h20 : data.take (st.pos + 20) = _ := hchecksumBytes
    rw [h20, h16, h8, hkindBytes]
    simp only [List.append_assoc]
  · simp only [hnameLen]
    omega
  · have hle := entryLimit_le hlimit
    rw [hlimit, Option.getD_some] at hsize
    simp only [hcontentLen]
    omega
  · exact ⟨limit, hlimit⟩

/-- The metadata entry goes by its name, and there is one at most. -/
theorem entryLimit_metadata {kind : UInt32} {name : Bytes} {limit : Nat}
    (h : entryLimit kind name st = some limit) :
    (kind = kindMetadata ↔ name = ascii "axm.txt") ∧
      (kind = kindMetadata → st.hasMetadata = false) := by
  have hkinds : kindModule ≠ kindMetadata ∧ kindAsset ≠ kindMetadata := by
    decide
  have hnames : ascii "module.so" ≠ ascii "axm.txt" ∧
      validAssetName (ascii "axm.txt") = false := by
    decide
  unfold entryLimit at h
  split at h
  next hmeta =>
    obtain ⟨rfl, rfl, hfirst⟩ := hmeta
    exact ⟨iff_of_true rfl rfl, fun _ => by simpa using hfirst⟩
  · split at h
    next hmodule =>
      obtain ⟨rfl, rfl, -⟩ := hmodule
      exact ⟨iff_of_false hkinds.1 hnames.1, fun heq => absurd heq hkinds.1⟩
    · split at h
      next hasset =>
        obtain ⟨rfl, hvalid⟩ := hasset
        refine ⟨iff_of_false hkinds.2 ?_, fun heq => absurd heq hkinds.2⟩
        rintro rfl
        rw [hnames.2] at hvalid
        cases hvalid
      · cases h

/-! ## All entries -/

/-- What the entries parsed so far make up. -/
structure Parsed (host : Host) (data : Bytes) (st : PackageState) : Prop where
  fits : st.pos ≤ data.length
  bytes : data.take st.pos =
    data.take 16 ++ st.result.entries.flatMap Entry.bytes
  small : ∀ e ∈ st.result.entries,
    e.name.length ≤ kMaxEntryName ∧ e.data.length ≤ kMaxModuleBytes
  metadata : ∀ e ∈ st.result.entries, e.name = ascii "axm.txt" →
    parseMetadata host.streamFloat e.data = .ok st.result.metadata
  hasMetadata : st.hasMetadata = true ↔
    ∃ e ∈ st.result.entries, e.name = ascii "axm.txt"

theorem parsed_start (h : 16 ≤ data.length) :
    Parsed host data { pos := 16 } := by
  constructor
  · exact h
  · simp
  · simp
  · simp
  · simp

theorem parsed_parseEntry (hst : Parsed host data st)
    (h : parseEntry host data native st = .ok st') :
    Parsed host data st' ∧
      st'.result.entries.length = st.result.entries.length + 1 := by
  unfold parseEntry at h
  obtain ⟨e, hread, h⟩ := bind_eq_ok.mp h
  obtain ⟨metadata, hmetadata, h⟩ := bind_eq_ok.mp h
  obtain ⟨_, -, h⟩ := bind_eq_ok.mp h
  cases pure_eq_ok.mp h
  have hentry := entryRead_of_readEntry hread
  obtain ⟨limit, hlimit⟩ := hentry.limit
  obtain ⟨hnamed, honce⟩ := entryLimit_metadata hlimit
  refine ⟨?_, by simp⟩
  constructor
  · exact hentry.fits
  · simp only [List.flatMap_append, List.flatMap_singleton]
    rw [hentry.bytes, hst.bytes, List.append_assoc]
  · intro e' he'
    rcases List.mem_append.mp he' with hold | hnew
    · exact hst.small e' hold
    · rw [List.mem_singleton] at hnew
      rw [hnew]
      exact ⟨hentry.name, hentry.size⟩
  · intro e' he' hname
    unfold entryMetadata at hmetadata
    by_cases hkind : e.kind = kindMetadata
    · rw [if_pos hkind] at hmetadata
      rcases List.mem_append.mp he' with hold | hnew
      · -- A second metadata entry would have been refused.
        have hseen := hst.hasMetadata.mpr ⟨e', hold, hname⟩
        rw [honce hkind] at hseen
        cases hseen
      · rw [List.mem_singleton] at hnew
        rw [hnew]
        exact refusing_eq_ok.mp hmetadata
    · rw [if_neg hkind] at hmetadata
      cases pure_eq_ok.mp hmetadata
      rcases List.mem_append.mp he' with hold | hnew
      · exact hst.metadata e' hold hname
      · rw [List.mem_singleton] at hnew
        subst hnew
        exact absurd (hnamed.mpr hname) hkind
  · simp only [Bool.or_eq_true, decide_eq_true_eq, hst.hasMetadata, hnamed,
      List.mem_append, List.mem_singleton, or_and_right, exists_or,
      exists_eq_left]

theorem parsed_parseEntries {count : Nat} (hst : Parsed host data st)
    (h : parseEntries host data native count st = .ok st') :
    Parsed host data st' ∧
      st'.result.entries.length = st.result.entries.length + count := by
  induction count generalizing st with
  | zero =>
      cases pure_eq_ok.mp h
      exact ⟨hst, rfl⟩
  | succ count ih =>
      obtain ⟨st₁, hentry, hrest⟩ := bind_eq_ok.mp h
      obtain ⟨hst₁, hlen₁⟩ := parsed_parseEntry hst hentry
      obtain ⟨hst', hlen'⟩ := ih hst₁ hrest
      exact ⟨hst', by omega⟩

/-- What parsing a package finds. -/
structure PackageParsed (host : Host) (data : Bytes) (p : Package) :
    Prop where
  small : data.length ≤ kMaxPackageBytes
  count : 2 ≤ p.entries.length ∧ p.entries.length ≤ kMaxEntries
  bytes : data = packageBytes p.entries
  entries : ∀ e ∈ p.entries,
    e.name.length ≤ kMaxEntryName ∧ e.data.length ≤ kMaxModuleBytes
  metadata : ∀ e ∈ p.entries, e.name = ascii "axm.txt" →
    parseMetadata host.streamFloat e.data = .ok p.metadata
  hasMetadata : ∃ e ∈ p.entries, e.name = ascii "axm.txt"

theorem packageParsed {p : Package}
    (h : parsePackage host data native = .ok p) :
    PackageParsed host data p := by
  unfold parsePackage at h
  obtain ⟨_, hsize, h⟩ := bind_eq_ok.mp h
  obtain ⟨magic, hmagic, h⟩ := bind_eq_ok.mp h
  obtain ⟨_, hmagicCheck, h⟩ := bind_eq_ok.mp h
  obtain ⟨version, hversion, h⟩ := bind_eq_ok.mp h
  obtain ⟨_, hversionCheck, h⟩ := bind_eq_ok.mp h
  obtain ⟨count, hcount, h⟩ := bind_eq_ok.mp h
  obtain ⟨_, hcountCheck, h⟩ := bind_eq_ok.mp h
  obtain ⟨st, hentries, h⟩ := bind_eq_ok.mp h
  obtain ⟨_, hflags, h⟩ := bind_eq_ok.mp h
  obtain ⟨_, hend, h⟩ := bind_eq_ok.mp h
  cases pure_eq_ok.mp h
  have hsize := refuseIf_eq_ok.mp hsize
  have hcountCheck := refuseIf_eq_ok.mp hcountCheck
  have hflags := refuseIf_eq_ok.mp hflags
  have hmagicCheck := not_not.mp (refuseIf_eq_ok.mp hmagicCheck)
  have hversionCheck := not_not.mp (refuseIf_eq_ok.mp hversionCheck)
  have hend := not_not.mp (refuseIf_eq_ok.mp hend)
  obtain ⟨-, -, hmagicBytes⟩ := take_of_slice hmagic
  obtain ⟨-, -, hversionBytes⟩ := take_of_readLe hversion
  obtain ⟨-, -, hcountBytes⟩ := take_of_readLe hcount
  obtain ⟨hparsed, hlen⟩ :=
    parsed_parseEntries (parsed_start (by omega)) hentries
  have hlen : st.result.entries.length = count := by simpa using hlen
  have hheader : data.take 16 = packageMagic ++ leBytes 4 1 ++
      leBytes 4 st.result.entries.length := by
    have h8 : data.take 8 = _ := hmagicBytes
    have h12 : data.take 12 = _ := hversionBytes
    have h16 : data.take 16 = _ := hcountBytes
    rw [h16, h12, h8, hmagicCheck, hversionCheck, hlen]
    rfl
  constructor
  · omega
  · omega
  · have hall := hparsed.bytes
    rw [hend, List.take_length, hheader] at hall
    exact hall
  · exact hparsed.small
  · exact hparsed.metadata
  · apply hparsed.hasMetadata.mp
    by_contra hno
    exact hflags (.inl (by simpa using hno))

theorem inside_parseEntry (hlen : data.length ≤ kMaxPackageBytes)
    (hst : Parsed host data st) : Inside (parseEntry host data native st) := by
  unfold parseEntry
  apply (inside_readEntry hlen hst.fits).bind
  intro e he
  have hentry := entryRead_of_readEntry he
  have hmetadata : Inside (entryMetadata host e st.result.metadata) := by
    unfold entryMetadata
    split
    · exact inside_refusing _
    · exact inside_pure _
  apply hmetadata.bind
  intro metadata _
  have hmodule : Inside (entryModule host e native) := by
    unfold entryModule
    split
    · apply inside_elf
      exact lt_of_le_of_lt hentry.size (by decide)
    · exact inside_pure _
  apply hmodule.bind
  intro _ _
  exact inside_pure _

theorem inside_parseEntries (hlen : data.length ≤ kMaxPackageBytes)
    (count : Nat) (hst : Parsed host data st) :
    Inside (parseEntries host data native count st) := by
  induction count generalizing st with
  | zero => exact inside_pure _
  | succ count ih =>
      unfold parseEntries
      apply (inside_parseEntry hlen hst).bind
      intro st' hst'
      exact ih (parsed_parseEntry hst hst').1

theorem inside_parsePackage (host : Host) (data : Bytes) (native : Bool) :
    Inside (parsePackage host data native) := by
  unfold parsePackage
  apply Inside.check
  intro hsize
  apply (inside_slice (by omega)).bind
  intro magic _
  apply Inside.check
  intro _
  apply (inside_readLe (by omega)).bind
  intro version _
  apply Inside.check
  intro _
  apply (inside_readLe (by omega)).bind
  intro count _
  apply Inside.check
  intro _
  have hstart : Parsed host data { pos := 16 } := parsed_start (by omega)
  apply (inside_parseEntries (by omega) count hstart).bind
  intro st _
  apply Inside.check
  intro _
  apply Inside.check
  intro _
  exact inside_pure _

/-! ## The bytes determine the entries -/

theorem leBytes_inj {k v w : Nat} (hv : v < 256 ^ k) (hw : w < 256 ^ k)
    (h : leBytes k v = leBytes k w) : v = w := by
  rw [← leNat_leBytes_of_lt hv, h, leNat_leBytes_of_lt hw]

theorem Entry.bytes_inj {e e' : Entry} {rest rest' : Bytes}
    (he : e.name.length < 256 ^ 4 ∧ e.data.length < 256 ^ 8)
    (he' : e'.name.length < 256 ^ 4 ∧ e'.data.length < 256 ^ 8)
    (h : e.bytes ++ rest = e'.bytes ++ rest') : e = e' ∧ rest = rest' := by
  simp only [Entry.bytes, List.append_assoc] at h
  obtain ⟨hkind, h⟩ := List.append_inj h (by simp)
  obtain ⟨hname, h⟩ := List.append_inj h (by simp)
  obtain ⟨hdata, h⟩ := List.append_inj h (by simp)
  obtain ⟨-, h⟩ := List.append_inj h (by simp)
  obtain ⟨hnames, h⟩ :=
    List.append_inj h (leBytes_inj he.1 he'.1 hname)
  obtain ⟨hdatas, hrest⟩ :=
    List.append_inj h (leBytes_inj he.2 he'.2 hdata)
  have hkinds : e.kind = e'.kind := by
    apply UInt32.toNat_inj.mp
    exact leBytes_inj e.kind.toNat_lt e'.kind.toNat_lt hkind
  refine ⟨?_, hrest⟩
  cases e
  cases e'
  simp_all

theorem flatMap_bytes_inj {l l' : List Entry}
    (hl : ∀ e ∈ l, e.name.length < 256 ^ 4 ∧ e.data.length < 256 ^ 8)
    (hl' : ∀ e ∈ l', e.name.length < 256 ^ 4 ∧ e.data.length < 256 ^ 8)
    (hlen : l.length = l'.length)
    (h : l.flatMap Entry.bytes = l'.flatMap Entry.bytes) : l = l' := by
  induction l generalizing l' with
  | nil =>
      rw [List.length_nil] at hlen
      exact (List.length_eq_zero_iff.mp hlen.symm).symm
  | cons e l ih =>
      obtain ⟨e', l', rfl⟩ := List.exists_cons_of_length_eq_add_one hlen.symm
      rw [List.flatMap_cons, List.flatMap_cons] at h
      obtain ⟨rfl, hrest⟩ :=
        Entry.bytes_inj (hl e (by simp)) (hl' e' (by simp)) h
      have htail := ih (fun d hd => hl d (List.mem_cons_of_mem _ hd))
        (fun d hd => hl' d (List.mem_cons_of_mem _ hd)) (by simpa using hlen)
        hrest
      rw [htail]

theorem packageBytes_inj {l l' : List Entry}
    (hl : ∀ e ∈ l, e.name.length < 256 ^ 4 ∧ e.data.length < 256 ^ 8)
    (hl' : ∀ e ∈ l', e.name.length < 256 ^ 4 ∧ e.data.length < 256 ^ 8)
    (hcount : l.length < 256 ^ 4) (hcount' : l'.length < 256 ^ 4)
    (h : packageBytes l = packageBytes l') : l = l' := by
  simp only [packageBytes, List.append_assoc] at h
  obtain ⟨-, h⟩ := List.append_inj h rfl
  obtain ⟨-, h⟩ := List.append_inj h rfl
  obtain ⟨hlen, h⟩ := List.append_inj h (by simp)
  exact flatMap_bytes_inj hl hl' (leBytes_inj hcount hcount' hlen) h

/-! ## Any machine -/

theorem elf_anyMachine (h : elf host data native = .ok ()) :
    elf host data false = .ok () := by
  unfold elf at h ⊢
  obtain ⟨_, hheader, htables⟩ := bind_eq_ok.mp h
  refine bind_eq_ok.mpr ⟨(), ?_, htables⟩
  unfold elfHeader at hheader ⊢
  obtain ⟨u₁, h₁, hheader⟩ := bind_eq_ok.mp hheader
  obtain ⟨ident, h₂, hheader⟩ := bind_eq_ok.mp hheader
  obtain ⟨type, h₃, hheader⟩ := bind_eq_ok.mp hheader
  obtain ⟨version, h₄, hheader⟩ := bind_eq_ok.mp hheader
  obtain ⟨size, h₅, hheader⟩ := bind_eq_ok.mp hheader
  obtain ⟨u₆, h₆, hheader⟩ := bind_eq_ok.mp hheader
  obtain ⟨machine, h₇, hheader⟩ := bind_eq_ok.mp hheader
  obtain ⟨u₈, h₈, -⟩ := bind_eq_ok.mp hheader
  refine bind_eq_ok.mpr ⟨u₁, h₁, bind_eq_ok.mpr ⟨ident, h₂, ?_⟩⟩
  refine bind_eq_ok.mpr ⟨type, h₃, bind_eq_ok.mpr ⟨version, h₄, ?_⟩⟩
  refine bind_eq_ok.mpr ⟨size, h₅, bind_eq_ok.mpr ⟨u₆, h₆, ?_⟩⟩
  refine bind_eq_ok.mpr ⟨machine, h₇, bind_eq_ok.mpr ⟨u₈, h₈, ?_⟩⟩
  apply refuseIf_eq_ok.mpr
  simp

theorem parseEntry_anyMachine (h : parseEntry host data native st = .ok st') :
    parseEntry host data false st = .ok st' := by
  unfold parseEntry at h ⊢
  obtain ⟨e, hread, h⟩ := bind_eq_ok.mp h
  obtain ⟨metadata, hmetadata, h⟩ := bind_eq_ok.mp h
  obtain ⟨_, hmodule, h⟩ := bind_eq_ok.mp h
  have hmodule' : entryModule host e false = .ok () := by
    unfold entryModule at hmodule ⊢
    split
    next hkind =>
      rw [if_pos hkind] at hmodule
      exact elf_anyMachine hmodule
    · rfl
  exact bind_eq_ok.mpr ⟨e, hread, bind_eq_ok.mpr ⟨metadata, hmetadata,
    bind_eq_ok.mpr ⟨(), hmodule', h⟩⟩⟩

theorem parseEntries_anyMachine {count : Nat}
    (h : parseEntries host data native count st = .ok st') :
    parseEntries host data false count st = .ok st' := by
  induction count generalizing st with
  | zero => exact h
  | succ count ih =>
      obtain ⟨st₁, hentry, hrest⟩ := bind_eq_ok.mp h
      exact bind_eq_ok.mpr ⟨st₁, parseEntry_anyMachine hentry, ih hrest⟩

theorem parsePackage_anyMachine {p : Package}
    (h : parsePackage host data native = .ok p) :
    parsePackage host data false = .ok p := by
  unfold parsePackage at h ⊢
  obtain ⟨u₁, h₁, h⟩ := bind_eq_ok.mp h
  obtain ⟨magic, h₂, h⟩ := bind_eq_ok.mp h
  obtain ⟨u₃, h₃, h⟩ := bind_eq_ok.mp h
  obtain ⟨version, h₄, h⟩ := bind_eq_ok.mp h
  obtain ⟨u₅, h₅, h⟩ := bind_eq_ok.mp h
  obtain ⟨count, h₆, h⟩ := bind_eq_ok.mp h
  obtain ⟨u₇, h₇, h⟩ := bind_eq_ok.mp h
  obtain ⟨st, hentries, h⟩ := bind_eq_ok.mp h
  refine bind_eq_ok.mpr ⟨u₁, h₁, bind_eq_ok.mpr ⟨magic, h₂, ?_⟩⟩
  refine bind_eq_ok.mpr ⟨u₃, h₃, bind_eq_ok.mpr ⟨version, h₄, ?_⟩⟩
  refine bind_eq_ok.mpr ⟨u₅, h₅, bind_eq_ok.mpr ⟨count, h₆, ?_⟩⟩
  refine bind_eq_ok.mpr ⟨u₇, h₇, ?_⟩
  exact bind_eq_ok.mpr ⟨st, parseEntries_anyMachine hentries, h⟩

/-! ## Building -/

theorem Entry.length_bytes (e : Entry) :
    e.bytes.length = 20 + e.name.length + e.data.length := by
  simp only [Entry.bytes, List.length_append, length_leBytes]

theorem length_packageBytes (entries : List Entry) :
    (packageBytes entries).length =
      16 + (entries.flatMap Entry.bytes).length := by
  have hmagic : packageMagic.length = 8 := by decide
  simp only [packageBytes, List.length_append, length_leBytes, hmagic]

theorem checkSizes_eq_ok {entries : List Entry} {size : Nat}
    (hsize : size ≤ kMaxPackageBytes) :
    checkSizes entries size = .ok () ↔
      (∀ e ∈ entries,
        e.name.length ≤ kMaxEntryName ∧ e.data.length ≤ kMaxModuleBytes) ∧
      size + (entries.flatMap Entry.bytes).length ≤ kMaxPackageBytes := by
  induction entries generalizing size with
  | nil => simp [checkSizes, hsize, pure, Except.pure]
  | cons e entries ih =>
      have hsub : sizeSub kMaxPackageBytes size = kMaxPackageBytes - size :=
        sizeSub_eq (by decide) hsize
      rw [checkSizes, bind_eq_ok, List.flatMap_cons, List.length_append,
        e.length_bytes]
      constructor
      · rintro ⟨u, hcheck, hrest⟩
        have hcheck := refuseIf_eq_ok.mp hcheck
        rw [hsub] at hcheck
        obtain ⟨hall, htotal⟩ := (ih (by omega)).mp hrest
        refine ⟨?_, by omega⟩
        intro d hd
        rcases List.mem_cons.mp hd with rfl | hd
        · omega
        · exact hall d hd
      · rintro ⟨hall, htotal⟩
        have hhead := hall e (by simp)
        refine ⟨(), refuseIf_eq_ok.mpr ?_, (ih (by omega)).mpr ⟨?_, by omega⟩⟩
        · rw [hsub]
          omega
        · exact fun d hd => hall d (List.mem_cons_of_mem _ hd)

theorem buildPackage_eq_ok {entries : List Entry} :
    buildPackage host entries = .ok data ↔
      (2 ≤ entries.length ∧ entries.length ≤ kMaxEntries) ∧
      checkSizes entries 16 = .ok () ∧ data = packageBytes entries ∧
      ∃ p, parsePackage host data false = .ok p := by
  unfold buildPackage
  constructor
  · intro h
    obtain ⟨_, hcount, h⟩ := bind_eq_ok.mp h
    obtain ⟨_, hsizes, h⟩ := bind_eq_ok.mp h
    obtain ⟨p, hparse, h⟩ := bind_eq_ok.mp h
    cases pure_eq_ok.mp h
    have hcount := refuseIf_eq_ok.mp hcount
    exact ⟨by omega, hsizes, rfl, p, hparse⟩
  · rintro ⟨hcount, hsizes, rfl, p, hparse⟩
    have hcount' : refuseIf (entries.length < 2 ∨
        entries.length > kMaxEntries) "invalid package entry count" =
        .ok () := by
      apply refuseIf_eq_ok.mpr
      omega
    exact bind_eq_ok.mpr ⟨(), hcount', bind_eq_ok.mpr ⟨(), hsizes,
      bind_eq_ok.mpr ⟨p, hparse, rfl⟩⟩⟩

/-- What was built parses to the entries it was built from. -/
theorem parse_of_build {entries : List Entry}
    (h : buildPackage host entries = .ok data) :
    ∃ metadata, parsePackage host data false = .ok ⟨metadata, entries⟩ ∧
      (∃ e ∈ entries, e.name = ascii "axm.txt") ∧
      ∀ e ∈ entries, e.name = ascii "axm.txt" →
        parseMetadata host.streamFloat e.data = .ok metadata := by
  obtain ⟨hcount, hsizes, hdata, p, hparse⟩ := buildPackage_eq_ok.mp h
  have hparsed := packageParsed hparse
  have hsmall := ((checkSizes_eq_ok (by decide)).mp hsizes).1
  have hbound : ∀ e : Entry, e.name.length ≤ kMaxEntryName ∧
      e.data.length ≤ kMaxModuleBytes →
      e.name.length < 256 ^ 4 ∧ e.data.length < 256 ^ 8 := by
    intro e he
    exact ⟨lt_of_le_of_lt he.1 (by decide), lt_of_le_of_lt he.2 (by decide)⟩
  have hentries : p.entries = entries := by
    apply packageBytes_inj
    · exact fun e he => hbound e (hparsed.entries e he)
    · exact fun e he => hbound e (hsmall e he)
    · exact lt_of_le_of_lt hparsed.count.2 (by decide)
    · exact lt_of_le_of_lt hcount.2 (by decide)
    · rw [← hparsed.bytes, hdata]
  refine ⟨p.metadata, ?_, ?_, ?_⟩
  · rw [hparse, ← hentries]
  · rw [← hentries]
    exact hparsed.hasMetadata
  · rw [← hentries]
    exact hparsed.metadata

/-- What was parsed builds the package it was parsed from. -/
theorem build_of_parse {p : Package}
    (h : parsePackage host data native = .ok p) :
    buildPackage host p.entries = .ok data := by
  have hparsed := packageParsed h
  apply buildPackage_eq_ok.mpr
  refine ⟨hparsed.count, ?_, hparsed.bytes, p, parsePackage_anyMachine h⟩
  apply (checkSizes_eq_ok (by decide)).mpr
  refine ⟨hparsed.entries, ?_⟩
  rw [← length_packageBytes, ← hparsed.bytes]
  exact hparsed.small

theorem package_canonical (host : Host) :
    (∀ entries data, buildPackage host entries = .ok data →
      ∃ metadata, parsePackage host data false = .ok ⟨metadata, entries⟩ ∧
        (∃ e ∈ entries, e.name = ascii "axm.txt") ∧
        ∀ e ∈ entries, e.name = ascii "axm.txt" →
          parseMetadata host.streamFloat e.data = .ok metadata) ∧
      (∀ data native p, parsePackage host data native = .ok p →
        buildPackage host p.entries = .ok data) ∧
      ∀ data native, parsePackage host data native ≠ .error .pastEnd :=
  ⟨fun _ _ => parse_of_build, fun _ _ _ => build_of_parse,
    inside_parsePackage host⟩

/-! ## A small package -/

def sampleHost : Host where
  streamFloat := fun _ => none
  hostMachine := emX86_64

/-- One program header behind the file header. -/
def sampleModule : Bytes :=
  elfIdent ++ List.replicate 9 0 ++ leBytes 2 3 ++ leBytes 2 62 ++
    leBytes 4 1 ++ leBytes 8 0 ++ leBytes 8 64 ++ leBytes 8 0 ++
    leBytes 4 0 ++ leBytes 2 64 ++ leBytes 2 56 ++ leBytes 2 1 ++
    leBytes 2 64 ++ leBytes 2 0 ++ leBytes 2 0 ++ leBytes 4 1 ++
    List.replicate 52 0

def sampleMetadata : Bytes :=
  ascii "id=plugin_echo\nname=Echo\nversion=1\napi=1\n"

def sampleEntries : List Entry :=
  [⟨kindMetadata, ascii "axm.txt", sampleMetadata⟩,
    ⟨kindModule, ascii "module.so", sampleModule⟩]

theorem buildPackage_sample :
    buildPackage sampleHost sampleEntries =
      .ok (packageBytes sampleEntries) := by
  decide +kernel

theorem package_canonical_sample :
    ∃ metadata, parsePackage sampleHost (packageBytes sampleEntries) false =
      .ok ⟨metadata, sampleEntries⟩ := by
  obtain ⟨metadata, hparse, -⟩ :=
    (package_canonical sampleHost).1 _ _ buildPackage_sample
  exact ⟨metadata, hparse⟩

end Audiox.Plugin
