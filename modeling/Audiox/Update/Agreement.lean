import Audiox.Update.Pack

/-!
# Packer and reader agree

Every archive that the packer writes is accepted by the reader.  Its entries
are the input files, and its metadata says what the options said, exactly if
no option contains a line break and no input is the file that the packer
writes the metadata to.
-/

namespace Audiox

open ByteCodec

variable {files : PackFiles} {p : PackArgs} {f : ArchiveFile}

/-! ## Reading in pieces -/

theorem flatten_freads {k : Nat} (hk : 0 < k) {fuel : Nat} {data : Bytes}
    (h : data.length ≤ fuel) : (freads k fuel data).flatten = data := by
  induction fuel generalizing data with
  | zero =>
      obtain rfl := List.length_eq_zero_iff.mp (Nat.le_zero.mp h)
      rfl
  | succ fuel ih =>
      rw [freads]
      split
      next hnil => rw [hnil, List.flatten_nil]
      next hne =>
        have hpos := List.length_pos_iff.mpr hne
        rw [List.flatten_cons, ih (by
          rw [List.length_drop]
          omega), List.take_append_drop]

/-- The checksum of all pieces is that of the file. -/
theorem foldl_crc (pieces : List Bytes) (crc : UInt32) :
    pieces.foldl audioxUpdateCrc32 crc =
      audioxUpdateCrc32 crc pieces.flatten := by
  induction pieces generalizing crc with
  | nil => simp
  | cons buf pieces ih =>
      rw [List.foldl_cons, ih, List.flatten_cons, audioxUpdateCrc32_append]

theorem foldl_size (pieces : List Bytes) (n : UInt64) :
    pieces.foldl (fun n buf => n + buf.length.toUInt64) n =
      n + pieces.flatten.length.toUInt64 := by
  induction pieces generalizing n with
  | nil => simp
  | cons buf pieces ih =>
      rw [List.foldl_cons, ih, List.flatten_cons, List.length_append,
        UInt64.add_assoc]
      congr 1
      simp [Nat.toUInt64]

/-- The entry of an input with the given content. -/
def entryOf (type : UInt32) (data : Bytes) : ArchiveEntry where
  type := type
  crc := audioxUpdateCrc32 0 data
  payload := data

theorem freads_file (data : Bytes) :
    (freads 65536 data.length data).flatten = data :=
  flatten_freads (by decide) le_rfl

/-- What is written for an input that was scanned is its entry. -/
theorem append_scanned {temp : Bytes} {input input' : InputFile}
    {part : Bytes} (hscan : scanFile files input = .ok input')
    (happend : appendFile files temp input' = .ok part) :
    ∃ data, files input.path = some data ∧
      part = (entryOf input.type data).bytes ∧
      data.length.toUInt64 ≠ 0 ∧
      (input.type = audioxUpdateConfig →
        data.length.toUInt64.toNat ≤ audioxUpdateConfigMax) := by
  cases hdata : files input.path with
  | none =>
      simp only [scanFile, hdata] at hscan
      cases hscan
  | some data =>
      simp only [scanFile, hdata, foldl_size, foldl_crc, freads_file,
        UInt64.zero_add] at hscan
      split at hscan
      · cases hscan
      next hne =>
        split at hscan
        · cases hscan
        next hcap =>
          cases hscan
          simp only [appendFile, hdata, foldl_size, freads_file,
            UInt64.zero_add, ne_eq, not_true_eq_false, or_false] at happend
          split at happend
          · cases happend
          · cases happend
            rw [not_and, Nat.not_lt] at hcap
            exact ⟨data, rfl, rfl, hne, hcap⟩

/-- A loop over a list in which every step succeeds. -/
theorem forall₂_of_mapM {α β : Type} {step : α → Except String β}
    {l : List α} {r : List β} (h : l.mapM step = .ok r) :
    List.Forall₂ (fun a b => step a = .ok b) l r := by
  induction l generalizing r with
  | nil =>
      cases h
      exact .nil
  | cons a l ih =>
      rw [List.mapM_cons] at h
      cases hstep : step a with
      | error e =>
          rw [hstep] at h
          cases h
      | ok b =>
          cases hrest : l.mapM step with
          | error e =>
              rw [hstep, hrest] at h
              cases h
          | ok bs =>
              rw [hstep, hrest] at h
              cases h
              exact .cons hstep (ih hrest)

/-! ## Metadata -/

/-- The lines of a metadata file keep the values valid. -/
theorem metadataLine_valid {m m' : AudioxUpdateMetadata} {line : Bytes}
    (h : metadataLine m line = .ok m') (P : Bytes → Prop)
    (hvalid : ∀ v, audioxUpdateValidValue v → P v)
    (hm : P m.board ∧ P m.kernel ∧ P m.version ∧ P m.kernelVersion) :
    P m'.board ∧ P m'.kernel ∧ P m'.version ∧ P m'.kernelVersion := by
  obtain ⟨hboard, hkernel, hversion, hkversion⟩ := hm
  simp only [metadataLine] at h
  split at h
  · cases h
    exact ⟨hboard, hkernel, hversion, hkversion⟩
  · split at h
    · cases h
    · split at h
      · cases h
        exact ⟨hboard, hkernel, hversion, hkversion⟩
      next m₁ hset =>
        split at h
        next hv =>
          cases h
          have hnew := hvalid _ hv
          simp only [AudioxUpdateMetadata.set] at hset
          split at hset
          · cases hset
            exact ⟨hnew, hkernel, hversion, hkversion⟩
          split at hset
          · cases hset
            exact ⟨hboard, hnew, hversion, hkversion⟩
          split at hset
          · cases hset
            exact ⟨hboard, hkernel, hnew, hkversion⟩
          split at hset
          · cases hset
            exact ⟨hboard, hkernel, hversion, hnew⟩
          · cases hset
        · cases h

theorem parseMetadata_fields {text : Bytes} {m : AudioxUpdateMetadata}
    (h : audioxUpdateParseMetadata text = .ok m) :
    (lines text).foldlM metadataLine .empty = .ok m ∧
      audioxUpdateValidBoard m.board ∧
      audioxUpdateValidKernelName m.kernel := by
  simp only [audioxUpdateParseMetadata] at h
  cases hfold : (lines text).foldlM metadataLine .empty with
  | error e =>
      rw [hfold] at h
      cases h
  | ok m₁ =>
      simp only [hfold, bind, Except.bind] at h
      split at h
      · cases h
      next hboard =>
        split at h
        · cases h
        next hkernel =>
          cases h
          exact ⟨rfl, by simpa using hboard, by simpa using hkernel⟩

/-- Every value that is read is empty or valid. -/
theorem parseMetadata_valid {text : Bytes} {m : AudioxUpdateMetadata}
    (h : audioxUpdateParseMetadata text = .ok m) (P : Bytes → Prop)
    (hempty : P []) (hvalid : ∀ v, audioxUpdateValidValue v → P v) :
    P m.board ∧ P m.kernel ∧ P m.version ∧ P m.kernelVersion := by
  have hfold : ∀ (l : List Bytes) (m₁ m₂ : AudioxUpdateMetadata),
      l.foldlM metadataLine m₁ = .ok m₂ →
      P m₁.board ∧ P m₁.kernel ∧ P m₁.version ∧ P m₁.kernelVersion →
      P m₂.board ∧ P m₂.kernel ∧ P m₂.version ∧ P m₂.kernelVersion := by
    intro l
    induction l with
    | nil =>
        intro m₁ m₂ hok hm
        cases hok
        exact hm
    | cons line l ih =>
        intro m₁ m₂ hok hm
        rw [List.foldlM_cons] at hok
        cases hline : metadataLine m₁ line with
        | error e =>
            rw [hline] at hok
            cases hok
        | ok m₃ =>
            rw [hline] at hok
            exact ih m₃ m₂ hok (metadataLine_valid hline P hvalid hm)
  exact hfold _ _ _ (parseMetadata_fields h).1
    ⟨hempty, hempty, hempty, hempty⟩

/-- No carriage return and no newline. -/
def NoLineBreak (v : Bytes) : Prop :=
  chr '\n' ∉ v ∧ chr '\r' ∉ v

theorem noLineBreak_of_valid {v : Bytes} (h : audioxUpdateValidValue v) :
    NoLineBreak v := by
  have hbad : ¬isValueChar (chr '\n') ∧ ¬isValueChar (chr '\r') := by decide
  exact ⟨fun hmem => hbad.1 (audioxUpdateValidValue_char h hmem),
    fun hmem => hbad.2 (audioxUpdateValidValue_char h hmem)⟩

theorem dropLastIf_of_notMem {c : UInt8} {text : Bytes} (h : c ∉ text) :
    dropLastIf c text = text := by
  rw [dropLastIf, if_neg]
  exact fun hlast => h (List.mem_of_getLast? hlast)

/-- The keys that the packer writes. -/
def metadataKeys : List Bytes :=
  [ascii "board", ascii "kernel", ascii "version", ascii "kernel_version"]

/-- A line that holds a value without line breaks. -/
theorem metadataLine_value {key v : Bytes} (hkey : key ∈ metadataKeys)
    (hv : NoLineBreak v) (m : AudioxUpdateMetadata) :
    metadataLine m (key ++ chr '=' :: v) =
      match m.set key v with
      | none => .ok m
      | some m' =>
          if audioxUpdateValidValue v then .ok m'
          else .error "invalid metadata value" := by
  have hkeys : ∀ key ∈ metadataKeys, chr '=' ∉ key ∧ chr '\r' ∉ key ∧
      key.head?.isSome ∧ key.head? ≠ some (chr '#') := by decide
  obtain ⟨heq, hcr, hsome, hhash⟩ := hkeys key hkey
  have hcr' : chr '\r' ∉ key ++ chr '=' :: v := by
    rw [List.mem_append, List.mem_cons, not_or, not_or]
    exact ⟨hcr, by decide, hv.2⟩
  have hhead : (key ++ chr '=' :: v).head? = key.head? := by
    rw [List.head?_append_of_ne_nil]
    rintro rfl
    cases hsome
  have htake : (key ++ chr '=' :: v).takeWhile (· ≠ chr '=') = key := by
    rw [List.takeWhile_append_of_pos]
    · simp
    · intro c hc
      have hne : c ≠ chr '=' := fun h => heq (h ▸ hc)
      simpa using hne
  have hdrop : (key ++ chr '=' :: v).drop (key.length + 1) = v := by
    rw [← List.drop_drop, List.drop_left, List.drop_one, List.tail_cons]
  rw [metadataLine, dropLastIf_of_notMem hcr']
  simp only [htake, hdrop, hhead, hhash]
  refine (if_neg (by simp)).trans ?_
  exact if_neg (by simp)

/-- The values that the options give. -/
def PackArgs.values (p : PackArgs) : AudioxUpdateMetadata where
  board := p.board
  kernel := p.kernelName
  version := p.version.getD []
  kernelVersion := p.kernelVersion.getD []

def PackArgs.NoLineBreaks (p : PackArgs) : Prop :=
  NoLineBreak p.values.board ∧ NoLineBreak p.values.kernel ∧
    NoLineBreak p.values.version ∧ NoLineBreak p.values.kernelVersion

theorem packMetadata_eq {text : Bytes} (h : packMetadata p = .ok text) :
    text.length < audioxUpdateMetadataMax ∧
      text = ascii "board=" ++ p.board ++ ascii "\n" ++
        (ascii "kernel=" ++ p.kernelName ++ ascii "\n") ++
        optionalLine "version=" p.version ++
        optionalLine "kernel_version=" p.kernelVersion := by
  rw [packMetadata] at h
  generalize ascii "board=" ++ p.board ++ ascii "\n" ++
    (ascii "kernel=" ++ p.kernelName ++ ascii "\n") ++
    optionalLine "version=" p.version = start at h ⊢
  by_cases hshort : start.length < audioxUpdateMetadataMax
  · simp only [if_pos hshort] at h
    split at h
    · cases h
    next hsmall =>
      cases h
      exact ⟨Nat.not_le.mp hsmall, rfl⟩
  · simp only [if_neg hshort] at h
    rw [if_pos (Nat.not_lt.mp hshort)] at h
    cases h

theorem optionalLine_eq (key : String) (value : Option Bytes) :
    optionalLine key value =
      if value.getD [] = [] then []
      else ascii key ++ value.getD [] ++ ascii "\n" := by
  cases value with
  | none => rfl
  | some v =>
      cases v with
      | nil => rfl
      | cons c v => simp [optionalLine]

/-- A line with a known key sets its value. -/
theorem set_of_metadataLine {key v : Bytes} (hkey : key ∈ metadataKeys)
    (hv : NoLineBreak v) {m m' : AudioxUpdateMetadata}
    (h : metadataLine m (key ++ chr '=' :: v) = .ok m') :
    m.set key v = some m' := by
  rw [metadataLine_value hkey hv] at h
  cases hset : m.set key v with
  | none =>
      have hkeys : ∀ key ∈ metadataKeys, m.set key v ≠ none := by
        intro key hkey
        simp only [metadataKeys, List.mem_cons, List.not_mem_nil,
          or_false] at hkey
        rcases hkey with rfl | rfl | rfl | rfl <;> rintro ⟨⟩
      exact absurd hset (hkeys key hkey)
  | some m₁ =>
      simp only [hset] at h
      split at h
      · cases h
        rfl
      · cases h

/-- A line of the metadata sets its value. -/
theorem fold_line (key : Bytes) {keyText : String}
    (hkeyText : ascii keyText = key ++ [chr '=']) (hkey : key ∈ metadataKeys)
    {v : Bytes} (hv : NoLineBreak v) {rest : Bytes}
    {m m' : AudioxUpdateMetadata}
    (h : (lines (ascii keyText ++ v ++ ascii "\n" ++ rest)).foldlM
      metadataLine m = .ok m') :
    ∃ m₁, m.set key v = some m₁ ∧
      (lines rest).foldlM metadataLine m₁ = .ok m' := by
  have hline : chr '\n' ∉ key ++ chr '=' :: v := by
    have hkeys : ∀ key ∈ metadataKeys, chr '\n' ∉ key := by decide
    rw [List.mem_append, List.mem_cons, not_or, not_or]
    exact ⟨hkeys key hkey, by decide, hv.1⟩
  have hsplit : ascii keyText ++ v ++ ascii "\n" ++ rest =
      (key ++ chr '=' :: v) ++ chr '\n' :: rest := by
    rw [hkeyText]
    simp [ascii]
  rw [hsplit, lines_line_append hline, List.foldlM_cons] at h
  cases hread : metadataLine m (key ++ chr '=' :: v) with
  | error e =>
      rw [hread] at h
      cases h
  | ok m₁ =>
      rw [hread] at h
      exact ⟨m₁, set_of_metadataLine hkey hv hread, h⟩

/-- An optional line sets its value, if there is one. -/
theorem fold_optionalLine (key : Bytes) {keyText : String}
    (hkeyText : ascii keyText = key ++ [chr '=']) (hkey : key ∈ metadataKeys)
    {value : Option Bytes} (hv : NoLineBreak (value.getD [])) {rest : Bytes}
    {m m' : AudioxUpdateMetadata}
    (h : (lines (optionalLine keyText value ++ rest)).foldlM metadataLine m =
      .ok m') :
    ∃ m₁, (if value.getD [] = [] then some m
        else m.set key (value.getD [])) = some m₁ ∧
      (lines rest).foldlM metadataLine m₁ = .ok m' := by
  rw [optionalLine_eq] at h
  by_cases hnil : value.getD [] = []
  · rw [if_pos hnil] at h ⊢
    exact ⟨m, rfl, h⟩
  · rw [if_neg hnil] at h ⊢
    exact fold_line key hkeyText hkey hv h

/-- Without line breaks the metadata says what the options say. -/
theorem parseMetadata_clean {text : Bytes} {m : AudioxUpdateMetadata}
    (hclean : p.NoLineBreaks) (htext : packMetadata p = .ok text)
    (h : audioxUpdateParseMetadata text = .ok m) : m = p.values := by
  obtain ⟨hboard, hkernel, hversion, hkversion⟩ := hclean
  obtain ⟨hfold, hvalidBoard, hvalidKernel⟩ := parseMetadata_fields h
  obtain ⟨-, rfl⟩ := packMetadata_eq htext
  have hshape : ascii "board=" ++ p.board ++ ascii "\n" ++
      (ascii "kernel=" ++ p.kernelName ++ ascii "\n") ++
      optionalLine "version=" p.version ++
      optionalLine "kernel_version=" p.kernelVersion =
      ascii "board=" ++ p.board ++ ascii "\n" ++
        (ascii "kernel=" ++ p.kernelName ++ ascii "\n" ++
          (optionalLine "version=" p.version ++
            (optionalLine "kernel_version=" p.kernelVersion ++ []))) := by
    simp only [List.append_assoc, List.append_nil]
  rw [hshape] at hfold
  obtain ⟨m₁, hset₁, hfold⟩ :=
    fold_line (ascii "board") rfl (by decide) hboard hfold
  obtain ⟨m₂, hset₂, hfold⟩ :=
    fold_line (ascii "kernel") rfl (by decide) hkernel hfold
  obtain ⟨m₃, hset₃, hfold⟩ :=
    fold_optionalLine (ascii "version") rfl (by decide) hversion hfold
  obtain ⟨m₄, hset₄, hfold⟩ :=
    fold_optionalLine (ascii "kernel_version") rfl (by decide)
      hkversion hfold
  cases hfold
  cases hset₁
  cases hset₂
  have hthird : m₃ = ⟨p.board, p.kernelName, p.version.getD [], []⟩ := by
    split at hset₃
    next hnil =>
      cases hset₃
      rw [hnil]
      rfl
    · cases hset₃
      rfl
  rw [hthird] at hset₄
  split at hset₄
  next hnil =>
    cases hset₄
    rw [PackArgs.values, hnil]
  · cases hset₄
    rfl

/-! ## The archive -/

/-- An entry holds the content of an input. -/
structure EntryOf (files : PackFiles) (input : InputFile)
    (e : ArchiveEntry) : Prop where
  content : files input.path = some e.payload
  entry : e = entryOf input.type e.payload
  size : e.payload.length.toUInt64 ≠ 0
  cap : input.type = audioxUpdateConfig →
    e.payload.length.toUInt64.toNat ≤ audioxUpdateConfigMax

theorem EntryOf.type {input : InputFile} {e : ArchiveEntry}
    (h : EntryOf files input e) : e.type = input.type := by
  rw [h.entry]
  rfl

theorem exists_entries {temp : Bytes} {inputs scanned : List InputFile}
    {parts : List Bytes}
    (hscan : List.Forall₂ (fun a b => scanFile files a = .ok b) inputs scanned)
    (happend : List.Forall₂ (fun a b => appendFile files temp a = .ok b)
      scanned parts) :
    ∃ l : List ArchiveEntry, List.Forall₂ (EntryOf files) inputs l ∧
      scanned.length = l.length ∧
      parts.flatten = l.flatMap ArchiveEntry.bytes := by
  induction hscan generalizing parts with
  | nil =>
      cases happend
      exact ⟨[], .nil, rfl, rfl⟩
  | cons hfirst _ ih =>
      cases happend with
      | cons hpart hrest =>
          obtain ⟨l, hl, hlen, hflat⟩ := ih hrest
          obtain ⟨data, hdata, rfl, hsize, hcap⟩ :=
            append_scanned hfirst hpart
          refine ⟨entryOf _ data :: l, .cons ⟨hdata, rfl, hsize, hcap⟩ hl,
            by rw [List.length_cons, List.length_cons, hlen], ?_⟩
          rw [List.flatten_cons, List.flatMap_cons, hflat]

theorem map_type_eq {inputs : List InputFile} {l : List ArchiveEntry}
    (h : List.Forall₂ (EntryOf files) inputs l) :
    l.map ArchiveEntry.type = inputs.map InputFile.type := by
  induction h with
  | nil => rfl
  | cons hfirst _ ih => rw [List.map_cons, List.map_cons, ih, hfirst.type]

theorem exists_input {inputs : List InputFile} {l : List ArchiveEntry}
    (h : List.Forall₂ (EntryOf files) inputs l) {e : ArchiveEntry}
    (he : e ∈ l) : ∃ input ∈ inputs, EntryOf files input e := by
  induction h with
  | nil => cases he
  | cons hfirst _ ih =>
      rcases List.mem_cons.mp he with rfl | hrest
      · exact ⟨_, List.mem_cons_self, hfirst⟩
      · obtain ⟨input, hmem, hinput⟩ := ih hrest
        exact ⟨input, List.mem_cons_of_mem _ hmem, hinput⟩

theorem exists_entry_of_input {inputs : List InputFile}
    {l : List ArchiveEntry} (h : List.Forall₂ (EntryOf files) inputs l)
    {input : InputFile} (hinput : input ∈ inputs) :
    ∃ e ∈ l, EntryOf files input e := by
  induction h with
  | nil => cases hinput
  | cons hfirst _ ih =>
      rcases List.mem_cons.mp hinput with rfl | hrest
      · exact ⟨_, List.mem_cons_self, hfirst⟩
      · obtain ⟨e, hmem, he⟩ := ih hrest
        exact ⟨e, List.mem_cons_of_mem _ hmem, he⟩

/-- The checks that an archive has passed when it is written. -/
structure Packed (files : PackFiles) (p : PackArgs) (archive : Bytes)
    (text : Bytes) (parsed : AudioxUpdateMetadata)
    (l : List ArchiveEntry) : Prop where
  metadata : packMetadata p = .ok text
  parse : audioxUpdateParseMetadata text = .ok parsed
  config : ∃ data, files p.config = some data ∧
    audioxConfigKernelName (data.take (audioxUpdateConfigMax + 1)) =
      parsed.kernel
  cmdline : checkCmdline files p.cmdline = .ok ()
  entries : List.Forall₂ (EntryOf (withMetadata files p text))
    (packInputs p) l
  bytes : archive = archiveBytes audioxUpdateVersion l

theorem packed_of_pack {archive : Bytes} (h : pack files p = .ok archive) :
    ∃ text parsed l, Packed files p archive text parsed l := by
  rw [pack] at h
  cases htext : packMetadata p with
  | error e => simp [htext, bind, Except.bind] at h
  | ok text =>
  cases hparse : audioxUpdateParseMetadata text with
  | error e => simp [htext, hparse, bind, Except.bind] at h
  | ok parsed =>
  cases hconfig : files p.config with
  | none =>
      simp [htext, hparse, readSmallFile, hconfig, bind, Except.bind] at h
  | some data =>
  simp only [htext, hparse, readSmallFile, hconfig, bind, Except.bind] at h
  split at h
  · cases h
  next hkernel =>
  cases hcmdline : checkCmdline files p.cmdline with
  | error e => simp [hcmdline] at h
  | ok _ =>
  simp only [hcmdline] at h
  split at h
  · cases h
  cases hscan : (packInputs p).mapM (scanFile (withMetadata files p text)) with
  | error e => simp [hscan] at h
  | ok scanned =>
  simp only [hscan] at h
  split at h
  · cases h
  cases happend : scanned.mapM
    (appendFile (withMetadata files p text) (tempPath p)) with
  | error e => simp [happend] at h
  | ok parts =>
  simp only [happend, Except.ok.injEq] at h
  obtain ⟨l, hl, hlen, hflat⟩ := exists_entries (forall₂_of_mapM hscan)
    (forall₂_of_mapM happend)
  refine ⟨text, parsed, l, htext, hparse, ⟨data, hconfig, not_not.mp hkernel⟩,
    hcmdline, hl, ?_⟩
  rw [← h, hlen, hflat]
  rfl

/-- The content of the recorded entry of a type. -/
def payloadOf (f : ArchiveFile) (es : List AudioxUpdateEntry)
    (type : UInt32) : Option Bytes :=
  match es[(type - 1).toNat]? with
  | none => none
  | some ent => if ent.size = 0 then none else some (ent.payload f)

theorem length_le_of_mem {l : List ArchiveEntry} {e : ArchiveEntry}
    (he : e ∈ l) :
    e.payload.length ≤ (l.flatMap ArchiveEntry.bytes).length := by
  obtain ⟨a, b, rfl⟩ := List.append_of_mem he
  rw [List.flatMap_append, List.flatMap_cons, List.length_append,
    List.length_append, ArchiveEntry.length_bytes]
  omega

section packed

variable {archive text : Bytes} {parsed : AudioxUpdateMetadata}
  {l : List ArchiveEntry}

/-- The entries fit into a file. -/
theorem Packed.small (h : Packed files p archive text parsed l)
    (hf : f.bytes = archive) {e : ArchiveEntry} (he : e ∈ l) :
    e.payload.length.toUInt64.toNat = e.payload.length := by
  have hsmall := f.small
  have hle := length_le_of_mem he
  rw [hf, h.bytes, archiveBytes, List.length_append] at hsmall
  rw [Nat.toUInt64, UInt64.toNat_ofNat_of_lt' (by
    rw [UInt64.size]
    omega)]

theorem packInputs_types (p : PackArgs) :
    (packInputs p).map InputFile.type = [5, 1, 2, 3, 4] ∨
      (packInputs p).map InputFile.type = [5, 1, 2, 3, 4, 6] := by
  cases hcmdline : p.cmdline with
  | none =>
      left
      simp only [packInputs, hcmdline]
      rfl
  | some c =>
      right
      simp only [packInputs, hcmdline]
      rfl

theorem packInputs_known {input : InputFile} (h : input ∈ packInputs p) :
    isKnown audioxUpdateVersion input.type := by
  have hmem : input.type ∈ (packInputs p).map InputFile.type :=
    List.mem_map_of_mem h
  have hall₁ : ∀ t ∈ ([5, 1, 2, 3, 4] : List UInt32),
      isKnown audioxUpdateVersion t := by
    simp only [List.forall_mem_cons, List.not_mem_nil, false_implies,
      implies_true, and_true]
    decide
  have hall₂ : ∀ t ∈ ([5, 1, 2, 3, 4, 6] : List UInt32),
      isKnown audioxUpdateVersion t := by
    simp only [List.forall_mem_cons, List.not_mem_nil, false_implies,
      implies_true, and_true]
    decide
  rcases packInputs_types p with ht | ht
  · exact hall₁ _ (ht ▸ hmem)
  · exact hall₂ _ (ht ▸ hmem)

theorem packInputs_metadata {input : InputFile} (h : input ∈ packInputs p)
    (htype : input.type = audioxUpdateMetadata) :
    input.path = metadataPath p := by
  simp only [packInputs, List.mem_append, List.mem_cons, List.not_mem_nil,
    or_false] at h
  rcases h with (rfl | rfl | rfl | rfl | rfl) | h
  · rfl
  · cases htype
  · cases htype
  · cases htype
  · cases htype
  · cases hcmdline : p.cmdline with
    | none => simp [hcmdline] at h
    | some c =>
        simp only [hcmdline, List.mem_singleton] at h
        rw [h] at htype
        cases htype

theorem packInputs_cmdline {input : InputFile} (h : input ∈ packInputs p)
    (htype : input.type = audioxUpdateCmdline) :
    p.cmdline = some input.path := by
  simp only [packInputs, List.mem_append, List.mem_cons, List.not_mem_nil,
    or_false] at h
  rcases h with (rfl | rfl | rfl | rfl | rfl) | h
  · cases htype
  · cases htype
  · cases htype
  · cases htype
  · cases htype
  · cases hcmdline : p.cmdline with
    | none => simp [hcmdline] at h
    | some c =>
        simp only [hcmdline, List.mem_singleton] at h
        rw [h]

theorem cstr_length (text : Bytes) : (cstr text).length ≤ text.length :=
  (List.takeWhile_sublist _).length_le

/-- The inputs with a largest size. -/
theorem Packed.capped (h : Packed files p archive text parsed l)
    (hf : f.bytes = archive) {e : ArchiveEntry} (he : e ∈ l) :
    WithinCap e.type e.payload.length := by
  obtain ⟨input, hinput, hentry⟩ := exists_input h.entries he
  obtain ⟨hshort, -⟩ := packMetadata_eq h.metadata
  have hmeta : (cstr text).length ≤ audioxUpdateMetadataMax :=
    (cstr_length text).trans hshort.le
  rw [hentry.type]
  refine ⟨fun htype => ?_, fun htype => ?_, fun htype => ?_⟩
  · rw [← h.small hf he]
    exact hentry.cap htype
  · have hcontent := hentry.content
    rw [withMetadata, if_pos (packInputs_metadata hinput htype)] at hcontent
    rwa [← Option.some.inj hcontent]
  · have hcontent := hentry.content
    have hcmdline := packInputs_cmdline hinput htype
    simp only [withMetadata] at hcontent
    split at hcontent
    · rwa [← Option.some.inj hcontent]
    · have hcheck := h.cmdline
      simp only [checkCmdline, hcmdline, readSmallFile, hcontent, bind,
        Except.bind] at hcheck
      split at hcheck
      · cases hcheck
      next hshort =>
        rw [List.length_take] at hshort
        omega

theorem Packed.wellFormed (h : Packed files p archive text parsed l)
    (hf : f.bytes = archive) : ArchiveWellFormed audioxUpdateVersion l := by
  have htypes := map_type_eq h.entries
  have hlength : l.length = (packInputs p).length := by
    rw [← List.length_map (f := ArchiveEntry.type), htypes, List.length_map]
  have hlength' : (packInputs p).length =
      ((packInputs p).map InputFile.type).length :=
    (List.length_map _).symm
  refine ⟨.inr ⟨rfl, ?_⟩, fun e he => ?_, ?_, ?_⟩
  · rw [hlength, hlength']
    rcases packInputs_types p with ht | ht
    · rw [ht]
      decide
    · rw [ht]
      decide
  · obtain ⟨input, hinput, hentry⟩ := exists_input h.entries he
    have hknown : isKnown audioxUpdateVersion e.type := by
      rw [hentry.type]
      exact packInputs_known hinput
    refine ⟨?_, fun _ => ⟨?_, h.capped hf he⟩, fun hnot =>
      absurd hknown hnot⟩
    · rw [hentry.entry]
      rfl
    · intro hnil
      apply hentry.size
      rw [hnil]
      rfl
  · rw [htypes]
    rcases packInputs_types p with ht | ht
    · rw [ht]
      decide
    · rw [ht]
      decide
  · have hrequired : requiredTypes audioxUpdateVersion =
        [1, 2, 3, 4, 5] := by decide
    rw [htypes, hrequired]
    simp only [List.forall_mem_cons, List.not_mem_nil, false_implies,
      implies_true, and_true]
    rcases packInputs_types p with ht | ht
    · rw [ht]
      decide
    · rw [ht]
      decide

/-- The recorded entry of an input holds its content. -/
theorem Packed.payloadOf_input (h : Packed files p archive text parsed l)
    (hf : f.bytes = archive) {es : List AudioxUpdateEntry}
    (hrec : Recorded f audioxUpdateVersion l es) {input : InputFile}
    (hinput : input ∈ packInputs p) :
    payloadOf f es input.type = withMetadata files p text input.path := by
  obtain ⟨e, he, hentry⟩ := exists_entry_of_input h.entries hinput
  have hwf := h.wellFormed hf
  have hknown : isKnown audioxUpdateVersion e.type := by
    rw [hentry.type]
    exact packInputs_known hinput
  obtain ⟨pre, post, hsplit⟩ := List.append_of_mem he
  obtain ⟨ent, hent, hloc⟩ := hrec.present pre e post hsplit hknown
  have hne : ent.size ≠ 0 := by
    intro hzero
    have hlen := hloc.size
    rw [hzero] at hlen
    exact ((hwf.entry e he).known hknown).1
      (List.length_eq_zero_iff.mp hlen.symm)
  rw [← hentry.type, payloadOf, hent, hentry.content]
  simp only
  rw [if_neg hne, hloc.payload]

theorem Packed.no_nul (h : Packed files p archive text parsed l)
    (hclean : p.NoLineBreaks) : 0 ∉ text := by
  have hvalues := parseMetadata_clean hclean h.metadata h.parse
  have hvalid : ∀ v, audioxUpdateValidValue v → 0 ∉ v := by
    have hzero : ¬isValueChar 0 := by decide
    exact fun v hv hmem => hzero (audioxUpdateValidValue_char hv hmem)
  obtain ⟨hboard, hkernel, hversion, hkversion⟩ :=
    parseMetadata_valid h.parse (fun v => 0 ∉ v) List.not_mem_nil hvalid
  rw [hvalues] at hboard hkernel hversion hkversion
  have hline : ∀ (key : String) (value : Option Bytes), 0 ∉ ascii key →
      0 ∉ value.getD [] → 0 ∉ optionalLine key value := by
    intro key value hkey hvalue
    rw [optionalLine_eq]
    split
    · exact List.not_mem_nil
    · rw [List.mem_append, List.mem_append, not_or, not_or]
      exact ⟨⟨hkey, hvalue⟩, by decide⟩
  obtain ⟨-, rfl⟩ := packMetadata_eq h.metadata
  simp only [List.mem_append, not_or]
  exact ⟨⟨⟨⟨⟨by decide, hboard⟩, by decide⟩, ⟨by decide, hkernel⟩,
    by decide⟩, hline _ _ (by decide) hversion⟩,
    hline _ _ (by decide) hkversion⟩

theorem Packed.cmdline_valid (h : Packed files p archive text parsed l)
    {path data : Bytes} (hpath : p.cmdline = some path)
    (hdata : files path = some data) : audioxValidateCmdline data = none := by
  have hcheck := h.cmdline
  simp only [checkCmdline, hpath, readSmallFile, hdata, bind,
    Except.bind] at hcheck
  split at hcheck
  · cases hcheck
  next hshort =>
    rw [List.length_take] at hshort
    have htake : data.take (audioxUpdateCmdlineMax + 1) = data :=
      List.take_of_length_le (by omega)
    rw [htake] at hcheck
    split at hcheck
    · cases hcheck
    next hnone => exact hnone

end packed

/-! ## Agreement -/

/-- The archive holds the input files, and its metadata what was given. -/
structure PackAgrees (files : PackFiles) (p : PackArgs) (f : ArchiveFile)
    (es : List AudioxUpdateEntry) : Prop where
  config : payloadOf f es audioxUpdateConfig = files p.config
  bootloader : payloadOf f es audioxUpdateBootloader = files p.bootloader
  kernel : payloadOf f es audioxUpdateKernel = files p.kernel
  program : payloadOf f es audioxUpdateProgram = files p.program
  cmdline : payloadOf f es audioxUpdateCmdline = p.cmdline.bind files
  metadata : ∃ text, payloadOf f es audioxUpdateMetadata = some text ∧
    audioxUpdateParseMetadata text = .ok p.values
  kernelName : ∃ data, payloadOf f es audioxUpdateConfig = some data ∧
    audioxConfigKernelName data = p.kernelName
  cmdlineValid : ∀ data, payloadOf f es audioxUpdateCmdline = some data →
    audioxValidateCmdline data = none

def inputPaths (p : PackArgs) : List Bytes :=
  [p.config, p.bootloader, p.kernel, p.program] ++ p.cmdline.toList

/-- No input is replaced by the metadata. -/
def InputsKept (files : PackFiles) (p : PackArgs) : Prop :=
  ∀ path ∈ inputPaths p, path = metadataPath p →
    ∀ text, packMetadata p = .ok text → files path = some (cstr text)

theorem withMetadata_eq {text : Bytes} (hmeta : packMetadata p = .ok text)
    {path : Bytes} (hpath : path ∈ inputPaths p)
    (hkept : InputsKept files p) :
    withMetadata files p text path = files path := by
  rw [withMetadata]
  split
  next heq => exact (hkept path hpath heq text hmeta).symm
  · rfl

theorem mem_packInputs_cmdline {path : Bytes} (h : p.cmdline = some path) :
    ⟨audioxUpdateCmdline, path, 0, 0⟩ ∈ packInputs p := by
  simp [packInputs, h]

section agreement

variable {archive text : Bytes} {parsed : AudioxUpdateMetadata}
  {l : List ArchiveEntry} {es : List AudioxUpdateEntry}

/-- Without `--cmdline` no such entry is recorded. -/
theorem Packed.payloadOf_cmdline (h : Packed files p archive text parsed l)
    (hf : f.bytes = archive) (hrec : Recorded f audioxUpdateVersion l es) :
    payloadOf f es audioxUpdateCmdline =
      p.cmdline.bind (withMetadata files p text) := by
  cases hcmdline : p.cmdline with
  | some path => exact h.payloadOf_input hf hrec (mem_packInputs_cmdline hcmdline)
  | none =>
      have htypes : l.map ArchiveEntry.type = [5, 1, 2, 3, 4] := by
        rw [map_type_eq h.entries]
        simp only [packInputs, hcmdline]
        rfl
      have hnone := hrec.absent audioxUpdateCmdline (by decide) (by
        rw [htypes]
        decide)
      rw [payloadOf, hnone]
      rfl

theorem Packed.agrees (h : Packed files p archive text parsed l)
    (hf : f.bytes = archive) (hrec : Recorded f audioxUpdateVersion l es)
    (hclean : p.NoLineBreaks) (hkept : InputsKept files p) :
    PackAgrees files p f es := by
  have hvalues := parseMetadata_clean hclean h.metadata h.parse
  have hinput : ∀ input ∈ packInputs p, input.path ∈ inputPaths p →
      payloadOf f es input.type = files input.path := by
    intro input hmem hpath
    rw [h.payloadOf_input hf hrec hmem, withMetadata_eq h.metadata hpath hkept]
  have hconfig : payloadOf f es audioxUpdateConfig = files p.config :=
    hinput ⟨audioxUpdateConfig, p.config, 0, 0⟩ (by simp [packInputs])
      (by simp [inputPaths])
  have hcmdline : payloadOf f es audioxUpdateCmdline =
      p.cmdline.bind files := by
    rw [h.payloadOf_cmdline hf hrec]
    cases hpath : p.cmdline with
    | none => rfl
    | some path =>
        exact withMetadata_eq h.metadata (by simp [inputPaths, hpath]) hkept
  refine
    { config := hconfig
      bootloader := hinput ⟨audioxUpdateBootloader, p.bootloader, 0, 0⟩
        (by simp [packInputs]) (by simp [inputPaths])
      kernel := hinput ⟨audioxUpdateKernel, p.kernel, 0, 0⟩
        (by simp [packInputs]) (by simp [inputPaths])
      program := hinput ⟨audioxUpdateProgram, p.program, 0, 0⟩
        (by simp [packInputs]) (by simp [inputPaths])
      cmdline := hcmdline
      metadata := ⟨text, ?_, ?_⟩
      kernelName := ?_
      cmdlineValid := ?_ }
  · have hmem : (⟨audioxUpdateMetadata, metadataPath p, 0, 0⟩ : InputFile) ∈
        packInputs p := by simp [packInputs]
    have hmeta := h.payloadOf_input hf hrec hmem
    rw [withMetadata, if_pos rfl, cstr_eq_self (h.no_nul hclean)] at hmeta
    exact hmeta
  · rw [← hvalues]
    exact h.parse
  · obtain ⟨data, hdata, hname⟩ := h.config
    refine ⟨data, hconfig.trans hdata, ?_⟩
    -- The whole file has been read, because it is not too large.
    have hmem : (⟨audioxUpdateConfig, p.config, 0, 0⟩ : InputFile) ∈
        packInputs p := by simp [packInputs]
    obtain ⟨e, he, hentry⟩ := exists_entry_of_input h.entries hmem
    have hcontent := hentry.content
    rw [withMetadata_eq h.metadata (by simp [inputPaths]) hkept,
      hdata] at hcontent
    have hcap := hentry.cap rfl
    rw [h.small hf he, ← Option.some.inj hcontent] at hcap
    rw [List.take_of_length_le (by omega)] at hname
    rw [hname, hvalues]
    rfl
  · intro data hdata
    rw [hcmdline] at hdata
    obtain ⟨path, hpath, hfile⟩ := Option.bind_eq_some_iff.mp hdata
    exact h.cmdline_valid hpath hfile

theorem noLineBreaks_of_agrees (h : PackAgrees files p f es) :
    p.NoLineBreaks := by
  obtain ⟨text, -, hparse⟩ := h.metadata
  exact parseMetadata_valid hparse NoLineBreak ⟨List.not_mem_nil,
    List.not_mem_nil⟩ fun _ => noLineBreak_of_valid

theorem Packed.inputsKept (h : Packed files p archive text parsed l)
    (hf : f.bytes = archive) (hrec : Recorded f audioxUpdateVersion l es)
    (hagrees : PackAgrees files p f es) : InputsKept files p := by
  have hinput : ∀ input ∈ packInputs p,
      payloadOf f es input.type = files input.path →
      input.path = metadataPath p → files input.path = some (cstr text) := by
    intro input hmem hfile hpath
    rw [← hfile, h.payloadOf_input hf hrec hmem, withMetadata, if_pos hpath]
  intro path hpath heq text' htext'
  obtain rfl : text = text' := Except.ok.inj (h.metadata.symm.trans htext')
  rw [inputPaths, List.mem_append, Option.mem_toList] at hpath
  rcases hpath with hpath | hpath
  · simp only [List.mem_cons, List.not_mem_nil, or_false] at hpath
    rcases hpath with rfl | rfl | rfl | rfl
    · exact hinput ⟨audioxUpdateConfig, _, 0, 0⟩ (by simp [packInputs])
        hagrees.config heq
    · exact hinput ⟨audioxUpdateBootloader, _, 0, 0⟩ (by simp [packInputs])
        hagrees.bootloader heq
    · exact hinput ⟨audioxUpdateKernel, _, 0, 0⟩ (by simp [packInputs])
        hagrees.kernel heq
    · exact hinput ⟨audioxUpdateProgram, _, 0, 0⟩ (by simp [packInputs])
        hagrees.program heq
  · have hcmdline := hagrees.cmdline
    rw [hpath] at hcmdline
    exact hinput ⟨audioxUpdateCmdline, path, 0, 0⟩
      (mem_packInputs_cmdline hpath) hcmdline heq

end agreement

/-- The reader accepts what the packer writes; it finds what was given if and
only if no given value has a line break and no input is the file for the
metadata. -/
theorem pack_agrees_iff (files : PackFiles) (args : List Bytes)
    (f : ArchiveFile) (hpack : packMain files args = .ok f.bytes) :
    ∃ p es, parseArgs args = some p ∧
      audioxUpdateParseArchive f = .ok es ∧
      (PackAgrees files p f es ↔ p.NoLineBreaks ∧ InputsKept files p) := by
  rw [packMain] at hpack
  cases hargs : parseArgs args with
  | none => simp [hargs] at hpack
  | some p =>
      simp only [hargs] at hpack
      obtain ⟨text, parsed, l, h⟩ := packed_of_pack hpack
      obtain ⟨es, hok, hrec⟩ := parse_of_wellFormed exact_wrappingSub h.bytes
        (h.wellFormed rfl)
      exact ⟨p, es, rfl, hok,
        fun hagrees => ⟨noLineBreaks_of_agrees hagrees,
          h.inputsKept rfl hrec hagrees⟩,
        fun hkept => h.agrees rfl hrec hkept.1 hkept.2⟩

/-! ## An option with a line break -/

def sampleFiles : PackFiles := fun path =>
  if path = ascii "config.txt" then some (ascii "kernel=kernel8.img\n")
  else if path = ascii "init.gz" then some [1]
  else if path = ascii "kernel8.img" then some [2]
  else if path = ascii "program.gz" then some [3]
  else none

def sampleArgs (version : Bytes) : List Bytes :=
  [ascii "--board", ascii "pi4", ascii "--version", version,
    ascii "a", ascii "config.txt", ascii "init.gz", ascii "kernel8.img",
    ascii "program.gz"]

/-- The archive for the sample files. -/
def sampleBytes (version : Bytes) : Bytes :=
  (packMain sampleFiles (sampleArgs version)).toOption.getD []

theorem packMain_sample {version : Bytes}
    (h : (packMain sampleFiles (sampleArgs version)).toOption.isSome) :
    packMain sampleFiles (sampleArgs version) = .ok (sampleBytes version) := by
  rw [sampleBytes]
  cases hpack : packMain sampleFiles (sampleArgs version) with
  | error e =>
      rw [hpack] at h
      cases h
  | ok archive => rfl

def sampleArchive : ArchiveFile where
  bytes := sampleBytes (ascii "1.0")
  small := by decide +kernel

theorem packMain_sampleArchive :
    packMain sampleFiles (sampleArgs (ascii "1.0")) =
      .ok sampleArchive.bytes :=
  packMain_sample (by decide)

theorem pack_agrees_sample :
    ∃ p es, parseArgs (sampleArgs (ascii "1.0")) = some p ∧
      audioxUpdateParseArchive sampleArchive = .ok es ∧
      (PackAgrees sampleFiles p sampleArchive es ↔
        p.NoLineBreaks ∧ InputsKept sampleFiles p) :=
  pack_agrees_iff sampleFiles (sampleArgs (ascii "1.0")) sampleArchive
    packMain_sampleArchive

/-- A version that brings a line of its own. -/
def brokenVersion : Bytes :=
  ascii "1.0\nboard=pi5"

def brokenArchive : ArchiveFile where
  bytes := sampleBytes brokenVersion
  small := by decide +kernel

theorem packMain_brokenArchive :
    packMain sampleFiles (sampleArgs brokenVersion) =
      .ok brokenArchive.bytes :=
  packMain_sample (by decide)

theorem parseArgs_sampleArgs (version : Bytes) :
    (parseArgs (sampleArgs version)).map PackArgs.version =
      some (some version) :=
  rfl

/-- With a line break in the version, the metadata says something else. -/
theorem pack_line_break :
    ¬∀ (files : PackFiles) (args : List Bytes) (f : ArchiveFile),
      packMain files args = .ok f.bytes →
      ∃ p es, parseArgs args = some p ∧
        audioxUpdateParseArchive f = .ok es ∧ PackAgrees files p f es := by
  intro hclaim
  obtain ⟨p, es, hargs, -, hagrees⟩ := hclaim sampleFiles
    (sampleArgs brokenVersion) brokenArchive packMain_brokenArchive
  have hversion := parseArgs_sampleArgs brokenVersion
  rw [hargs, Option.map_some, Option.some.injEq] at hversion
  have hbreak : ¬NoLineBreak brokenVersion := by
    unfold NoLineBreak
    decide
  have hclean := (noLineBreaks_of_agrees hagrees).2.2.1
  rw [PackArgs.values, hversion] at hclean
  exact hbreak hclean

end Audiox
