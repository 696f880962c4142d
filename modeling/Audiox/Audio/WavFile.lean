import Audiox.Config.Text
import Audiox.Support.FixedRecord
import Mathlib

/-!
# Sound files

`loadPcm16WavFile` walks over the chunks of a RIFF file and loads the samples
of the last data chunk in the format of the last format chunk.  A file is the
list of its bytes; there is memory for the samples.
-/

namespace Audiox.SfxBank

open ByteCodec Config FixedRecord

inductive Ret where
  | ok | err | warn
deriving DecidableEq, Repr

def midiSfxPathMax : Nat := 160

/-- A slot of the bank; `pcm` is the memory of its samples. -/
structure AudioSfxClipSlot where
  loaded : Bool
  name : Bytes
  frames : Nat
  sampleRate : Nat
  channels : Nat
  sampleCount : Nat
  pcm : Option Bytes
deriving DecidableEq

/-- `clearSfxSlot` -/
def emptySlot : AudioSfxClipSlot where
  loaded := false
  name := []
  frames := 0
  sampleRate := 0
  channels := 0
  sampleCount := 0
  pcm := none

/-! ## The walk over the chunks -/

/-- What the walk remembers; `dataOffset` is `none` for minus one. -/
structure WavWalk where
  fmtTag : Nat
  channels : Nat
  sampleRate : Nat
  bitsPerSample : Nat
  dataSize : Nat
  dataOffset : Option Nat
deriving DecidableEq

def startWalk : WavWalk where
  fmtTag := 0
  channels := 0
  sampleRate := 0
  bitsPerSample := 0
  dataSize := 0
  dataOffset := none

/-- The bytes of a format chunk that were read; short ones are ignored. -/
def WavWalk.readFmt (w : WavWalk) (fmt : Bytes) : WavWalk :=
  if 16 ≤ fmt.length then
    { w with
      fmtTag := leNat (field fmt 0 2)
      channels := leNat (field fmt 2 2)
      sampleRate := leNat (field fmt 4 4)
      bitsPerSample := leNat (field fmt 14 2) }
  else w

/-- The position behind a chunk and its padding. -/
def chunkEnd (offset chunkSize : Nat) : Nat :=
  offset + chunkSize + chunkSize % 2

/-- The loop from a position.  It ends with what it remembers, or with an error
at a format chunk that is cut short. -/
def walkChunks (file : Bytes) : Nat → Nat → WavWalk → Option WavWalk
  | 0, _, w => some w
  | fuel + 1, pos, w =>
      if (field file pos 8).length ≠ 8 then some w
      else if field file pos 4 = ascii "fmt " then
        if (field file (pos + 8) (min (read32 file (pos + 4)) 40)).length ≠
            min (read32 file (pos + 4)) 40 then none
        else
          walkChunks file fuel (chunkEnd (pos + 8) (read32 file (pos + 4)))
            (w.readFmt
              (field file (pos + 8) (min (read32 file (pos + 4)) 40)))
      else if field file pos 4 = ascii "data" then
        walkChunks file fuel (chunkEnd (pos + 8) (read32 file (pos + 4)))
          { w with
            dataSize := read32 file (pos + 4)
            dataOffset := some (pos + 8) }
      else
        walkChunks file fuel (chunkEnd (pos + 8) (read32 file (pos + 4))) w

/-! ## Loading -/

/-- The frames that are loaded. -/
def framesOf (maxFrames : Nat) (w : WavWalk) : Nat :=
  min (w.dataSize / (w.channels * 2)) maxFrames

def WavWalk.accepted (w : WavWalk) : Prop :=
  w.fmtTag = 1 ∧ (w.channels = 1 ∨ w.channels = 2) ∧ w.bitsPerSample = 16 ∧
    w.sampleRate ≠ 0 ∧ w.dataSize ≠ 0

instance (w : WavWalk) : Decidable w.accepted := by
  unfold WavWalk.accepted
  infer_instance

/-- The samples of the data chunk are read into the slot. -/
def loadSamples (maxFrames : Nat) (file name : Bytes) (w : WavWalk) :
    Ret × AudioSfxClipSlot :=
  match w.dataOffset with
  | none => (.err, emptySlot)
  | some dataOffset =>
      if ¬ w.accepted then (.err, emptySlot)
      else if (field file dataOffset
          (framesOf maxFrames w * w.channels * 2)).length / 2 ≠
            framesOf maxFrames w * w.channels then (.err, emptySlot)
      else
        (.ok, {
          loaded := true
          name := copyBounded midiSfxPathMax name
          frames := framesOf maxFrames w
          sampleRate := w.sampleRate
          channels := w.channels
          sampleCount := framesOf maxFrames w * w.channels
          pcm := some (field file dataOffset
            (framesOf maxFrames w * w.channels * 2)) })

/-- `file` is `none` when it cannot be opened. -/
def loadPcm16WavFile (maxFrames : Nat) (file : Option Bytes) (name : Bytes)
    (slot : AudioSfxClipSlot) : Ret × AudioSfxClipSlot :=
  if name = [] then (.err, slot)
  else
    match file with
    | none => (.warn, emptySlot)
    | some file =>
        if (field file 0 12).length ≠ 12 then (.err, emptySlot)
        else if field file 0 4 ≠ ascii "RIFF" ∨
            field file 8 4 ≠ ascii "WAVE" then (.err, emptySlot)
        else
          match walkChunks file file.length 12 startWalk with
          | none => (.err, emptySlot)
          | some w => loadSamples maxFrames file name w

/-! ## Files of chunks -/

/-- A chunk of the file; `offset` is the position of its content. -/
structure Chunk where
  id : Bytes
  size : Nat
  offset : Nat
deriving DecidableEq

/-- The chunks from a position up to the first header that is incomplete. -/
inductive ChunksFrom (file : Bytes) : Nat → List Chunk → Prop where
  | done {pos : Nat} (short : file.length < pos + 8) : ChunksFrom file pos []
  | chunk {pos : Nat} {chunks : List Chunk} (header : pos + 8 ≤ file.length)
      (rest : ChunksFrom file
        (pos + 8 + read32 file (pos + 4) + read32 file (pos + 4) % 2) chunks) :
      ChunksFrom file pos
        (⟨field file pos 4, read32 file (pos + 4), pos + 8⟩ :: chunks)

/-- The last of the chunks that have a property. -/
def lastChunk (p : Chunk → Bool) (chunks : List Chunk) : Option Chunk :=
  (chunks.filter p).getLast?

def isFormat (c : Chunk) : Bool :=
  c.id = ascii "fmt " ∧ 16 ≤ c.size

def isData (c : Chunk) : Bool :=
  c.id = ascii "data"

/-- A sound in a file: its format, and where its frames are. -/
structure Sound where
  channels : Nat
  sampleRate : Nat
  frames : Nat
  offset : Nat
deriving DecidableEq

/-- The file is a well-formed file of the sound.  The size of a frame is two
bytes for each channel. -/
structure PcmFile (maxFrames : Nat) (file : Bytes) (s : Sound) : Prop where
  header : 12 ≤ file.length
  riff : field file 0 4 = ascii "RIFF"
  wave : field file 8 4 = ascii "WAVE"
  channels : s.channels = 1 ∨ s.channels = 2
  sampleRate : s.sampleRate ≠ 0
  present : s.offset + s.frames * (s.channels * 2) ≤ file.length
  chunks : ∃ (chunks : List Chunk) (fmt data : Chunk),
    ChunksFrom file 12 chunks ∧
    lastChunk isFormat chunks = some fmt ∧
    leNat (field file fmt.offset 2) = 1 ∧
    leNat (field file (fmt.offset + 2) 2) = s.channels ∧
    leNat (field file (fmt.offset + 4) 4) = s.sampleRate ∧
    leNat (field file (fmt.offset + 14) 2) = 16 ∧
    lastChunk isData chunks = some data ∧ data.size ≠ 0 ∧
    s.offset = data.offset ∧
    s.frames = min (data.size / (s.channels * 2)) maxFrames

/-- No format chunk is cut short by the end of the file within the first 40
bytes of it. -/
def FormatsComplete (file : Bytes) : Prop :=
  ∀ chunks : List Chunk, ChunksFrom file 12 chunks →
    ∀ c ∈ chunks, c.id = ascii "fmt " →
      c.offset + min c.size 40 ≤ file.length

/-- The slot that holds the sound. -/
def slotOf (file name : Bytes) (s : Sound) : AudioSfxClipSlot where
  loaded := true
  name := copyBounded midiSfxPathMax name
  frames := s.frames
  sampleRate := s.sampleRate
  channels := s.channels
  sampleCount := s.frames * s.channels
  pcm := some (field file s.offset (s.frames * s.channels * 2))

/-! ## The walk and the chunks -/

section

variable {file : Bytes} {pos : Nat} {chunks : List Chunk}

theorem exists_chunksFrom (file : Bytes) (pos : Nat) :
    ∃ chunks : List Chunk, ChunksFrom file pos chunks := by
  induction hn : file.length - pos using Nat.strong_induction_on
    generalizing pos with
  | h n ih =>
      by_cases hheader : pos + 8 ≤ file.length
      · obtain ⟨chunks, hchunks⟩ := ih _ (by omega)
          (pos + 8 + read32 file (pos + 4) + read32 file (pos + 4) % 2) rfl
        exact ⟨_, .chunk hheader hchunks⟩
      · exact ⟨[], .done (Nat.lt_of_not_le hheader)⟩

theorem ChunksFrom.unique (h : ChunksFrom file pos chunks)
    {chunks' : List Chunk} (h' : ChunksFrom file pos chunks') :
    chunks' = chunks := by
  induction h generalizing chunks' with
  | done short =>
      cases h' with
      | done => rfl
      | chunk header => omega
  | chunk header rest ih =>
      cases h' with
      | done short => omega
      | chunk header' rest' => rw [ih rest']

/-- The content of a chunk starts inside the file. -/
theorem ChunksFrom.offset_le (h : ChunksFrom file pos chunks) :
    ∀ c ∈ chunks, c.offset ≤ file.length := by
  induction h with
  | done short => simp
  | chunk header rest ih =>
      intro c hc
      rcases List.mem_cons.mp hc with rfl | hc
      · exact header
      · exact ih c hc

/-- What the walk makes of one chunk. -/
def note (file : Bytes) (w : WavWalk) (c : Chunk) : WavWalk :=
  if c.id = ascii "fmt " then
    w.readFmt (field file c.offset (min c.size 40))
  else if c.id = ascii "data" then
    { w with dataSize := c.size, dataOffset := some c.offset }
  else w

def FormatComplete (file : Bytes) (c : Chunk) : Prop :=
  c.id = ascii "fmt " → c.offset + min c.size 40 ≤ file.length

instance (file : Bytes) (c : Chunk) : Decidable (FormatComplete file c) := by
  unfold FormatComplete
  infer_instance

theorem length_format_iff {c : Chunk} (hoffset : c.offset ≤ file.length) :
    (field file c.offset (min c.size 40)).length = min c.size 40 ↔
      c.offset + min c.size 40 ≤ file.length := by
  rw [field, List.length_take, List.length_drop]
  omega

/-- The walk takes the chunks one after the other, up to a format chunk that
is cut short. -/
theorem walkChunks_spec (h : ChunksFrom file pos chunks) {fuel : Nat}
    (hfuel : file.length ≤ pos + fuel) (w : WavWalk) :
    ((∀ c ∈ chunks, FormatComplete file c) ∧
      walkChunks file fuel pos w = some (chunks.foldl (note file) w)) ∨
    ((¬ ∀ c ∈ chunks, FormatComplete file c) ∧
      walkChunks file fuel pos w = none) := by
  induction h generalizing fuel w with
  | @done pos short =>
      left
      refine ⟨by simp, ?_⟩
      cases fuel with
      | zero => rfl
      | succ fuel =>
          have hshort : (field file pos 8).length ≠ 8 := by
            rw [ne_eq, length_field_eq_iff (by decide)]
            omega
          rw [walkChunks, if_pos hshort]
          rfl
  | @chunk pos chunks header rest ih =>
      obtain ⟨fuel, rfl⟩ : ∃ n, fuel = n + 1 :=
        Nat.exists_eq_succ_of_ne_zero (by omega)
      have hheader : ¬ (field file pos 8).length ≠ 8 :=
        not_not.mpr ((length_field_eq_iff (by decide)).mpr header)
      have hnext := @ih fuel (by omega)
      rw [walkChunks, if_neg hheader, List.forall_mem_cons]
      by_cases hfmt : field file pos 4 = ascii "fmt "
      · by_cases hlen : pos + 8 + min (read32 file (pos + 4)) 40 ≤ file.length
        · have hread := (@length_format_iff file
            ⟨field file pos 4, read32 file (pos + 4), pos + 8⟩ header).mpr
              hlen
          have hcomplete : FormatComplete file
              ⟨field file pos 4, read32 file (pos + 4), pos + 8⟩ :=
            fun _ => hlen
          simp only [hcomplete, true_and]
          rw [if_pos hfmt, if_neg (not_not.mpr hread), List.foldl_cons, note,
            if_pos hfmt]
          exact hnext _
        · right
          refine ⟨fun hall => hlen (hall.1 hfmt), ?_⟩
          have hread := (@length_format_iff file
            ⟨field file pos 4, read32 file (pos + 4), pos + 8⟩ header).not.mpr
              hlen
          rw [if_pos hfmt, if_pos hread]
      · have hcomplete : FormatComplete file
            ⟨field file pos 4, read32 file (pos + 4), pos + 8⟩ :=
          fun heq => absurd heq hfmt
        simp only [hcomplete, true_and]
        rw [if_neg hfmt, List.foldl_cons, note, if_neg hfmt]
        by_cases hdata : field file pos 4 = ascii "data"
        · rw [if_pos hdata, if_pos hdata]
          exact hnext _
        · rw [if_neg hdata, if_neg hdata]
          exact hnext _

/-! ## What the walk remembers -/

/-- The fields of a format chunk. -/
def formatOf (file : Bytes) (c : Chunk) : Nat × Nat × Nat × Nat :=
  (leNat (field file c.offset 2), leNat (field file (c.offset + 2) 2),
    leNat (field file (c.offset + 4) 4), leNat (field file (c.offset + 14) 2))

def WavWalk.format (w : WavWalk) : Nat × Nat × Nat × Nat :=
  (w.fmtTag, w.channels, w.sampleRate, w.bitsPerSample)

def WavWalk.data (w : WavWalk) : Nat × Option Nat :=
  (w.dataSize, w.dataOffset)

theorem lastChunk_concat (p : Chunk → Bool) (chunks : List Chunk)
    (c : Chunk) : lastChunk p (chunks ++ [c]) =
      if p c then some c else lastChunk p chunks := by
  rw [lastChunk, List.filter_append, List.filter_singleton]
  cases hp : p c with
  | true =>
      rw [cond_true, List.getLast?_concat]
      rfl
  | false =>
      rw [cond_false, List.append_nil]
      rfl

theorem format_note {c : Chunk} (h : FormatComplete file c)
    (hoffset : c.offset ≤ file.length) (w : WavWalk) :
    (note file w c).format =
      if isFormat c then formatOf file c else w.format := by
  by_cases hfmt : c.id = ascii "fmt "
  · have hlen := (length_format_iff hoffset).mpr (h hfmt)
    rw [note, if_pos hfmt, WavWalk.readFmt, hlen]
    by_cases hsize : 16 ≤ c.size
    · rw [if_pos (by omega), if_pos (by simp [isFormat, hfmt, hsize]),
        WavWalk.format, formatOf, field_field (by omega),
        field_field (by omega), field_field (by omega),
        field_field (by omega)]
      rfl
    · rw [if_neg (by omega), if_neg (by simp [isFormat, hsize])]
  · have hnot : isFormat c = false := by simp [isFormat, hfmt]
    rw [note, if_neg hfmt, hnot]
    by_cases hdata : c.id = ascii "data"
    · rw [if_pos hdata]
      rfl
    · rw [if_neg hdata]
      rfl

theorem data_note (c : Chunk) (w : WavWalk) :
    (note file w c).data =
      if isData c then (c.size, some c.offset) else w.data := by
  by_cases hfmt : c.id = ascii "fmt "
  · have hnot : c.id ≠ ascii "data" := by
      rw [hfmt]
      decide
    rw [note, if_pos hfmt, if_neg (by simp [isData, hnot]), WavWalk.readFmt]
    split <;> rfl
  · rw [note, if_neg hfmt]
    by_cases hdata : c.id = ascii "data"
    · rw [if_pos hdata, if_pos (by simp [isData, hdata])]
      rfl
    · rw [if_neg hdata, if_neg (by simp [isData, hdata])]

theorem format_foldl (h : ∀ c ∈ chunks, FormatComplete file c)
    (hoffset : ∀ c ∈ chunks, c.offset ≤ file.length) (w : WavWalk) :
    (chunks.foldl (note file) w).format =
      ((lastChunk isFormat chunks).map (formatOf file)).getD w.format := by
  induction chunks using List.reverseRecOn with
  | nil => rfl
  | append_singleton chunks c ih =>
      rw [List.foldl_append, List.foldl_cons, List.foldl_nil,
        format_note (h c (by simp)) (hoffset c (by simp)), lastChunk_concat,
        ih (fun c hc => h c (by simp [hc]))
          (fun c hc => hoffset c (by simp [hc]))]
      split <;> rfl

theorem data_foldl (chunks : List Chunk) (w : WavWalk) :
    (chunks.foldl (note file) w).data =
      ((lastChunk isData chunks).map
        fun c => (c.size, some c.offset)).getD w.data := by
  induction chunks using List.reverseRecOn with
  | nil => rfl
  | append_singleton chunks c ih =>
      rw [List.foldl_append, List.foldl_cons, List.foldl_nil, data_note,
        lastChunk_concat, ih]
      split <;> rfl

end

/-! ## What is accepted -/

section

variable {maxFrames : Nat} {file name : Bytes} {w : WavWalk}

/-- The sound that the walk found. -/
def soundOf (maxFrames : Nat) (w : WavWalk) (offset : Nat) : Sound where
  channels := w.channels
  sampleRate := w.sampleRate
  frames := framesOf maxFrames w
  offset := offset

/-- All the samples are there. -/
theorem read_all_iff {offset n : Nat} (h : offset ≤ file.length) :
    (field file offset (n * 2)).length / 2 = n ↔
      offset + n * 2 ≤ file.length := by
  rw [field, List.length_take, List.length_drop]
  omega

theorem loadSamples_of_none (h : w.dataOffset = none) :
    loadSamples maxFrames file name w = (.err, emptySlot) := by
  rw [loadSamples, h]

theorem loadSamples_of_some {offset : Nat} (h : w.dataOffset = some offset)
    (hoffset : offset ≤ file.length) :
    (w.accepted ∧
      offset + framesOf maxFrames w * w.channels * 2 ≤ file.length ∧
      loadSamples maxFrames file name w =
        (.ok, slotOf file name (soundOf maxFrames w offset))) ∨
    (¬ (w.accepted ∧
        offset + framesOf maxFrames w * w.channels * 2 ≤ file.length) ∧
      loadSamples maxFrames file name w = (.err, emptySlot)) := by
  rw [loadSamples, h]
  by_cases haccepted : w.accepted
  · by_cases hpresent :
        offset + framesOf maxFrames w * w.channels * 2 ≤ file.length
    · left
      have hread := (read_all_iff hoffset).mpr hpresent
      refine ⟨haccepted, hpresent, ?_⟩
      simp only [haccepted, not_true, if_false, hread, ne_eq]
      rfl
    · right
      have hread := (read_all_iff hoffset).not.mpr hpresent
      refine ⟨fun hboth => hpresent hboth.2, ?_⟩
      simp only [haccepted, not_true, if_false, hread, ne_eq, not_false_eq_true,
        if_true]
  · right
    refine ⟨fun hboth => haccepted hboth.1, ?_⟩
    simp only [haccepted, not_false_eq_true, if_true]

/-- The walk found the sound of a well-formed file, if there is one. -/
theorem pcmFile_iff {chunks : List Chunk} (hheader : 12 ≤ file.length)
    (hriff : field file 0 4 = ascii "RIFF")
    (hwave : field file 8 4 = ascii "WAVE")
    (hchunks : ChunksFrom file 12 chunks)
    (hcomplete : ∀ c ∈ chunks, FormatComplete file c) {s : Sound} :
    PcmFile maxFrames file s ↔
      ∃ offset : Nat,
        (chunks.foldl (note file) startWalk).dataOffset = some offset ∧
        (chunks.foldl (note file) startWalk).accepted ∧
        offset + framesOf maxFrames (chunks.foldl (note file) startWalk) *
          (chunks.foldl (note file) startWalk).channels * 2 ≤ file.length ∧
        s = soundOf maxFrames (chunks.foldl (note file) startWalk) offset := by
  have hformat := format_foldl hcomplete hchunks.offset_le startWalk
  have hdata := @data_foldl file chunks startWalk
  generalize chunks.foldl (note file) startWalk = w at hformat hdata ⊢
  constructor
  · intro h
    obtain ⟨chunks', fmt, data, hchunks', hfmt, htag, hchannels, hrate, hbits,
      hlast, hsize, hoffset, hframes⟩ := h.chunks
    obtain rfl := hchunks.unique hchunks'
    rw [hfmt, Option.map_some, Option.getD_some] at hformat
    rw [hlast, Option.map_some, Option.getD_some] at hdata
    simp only [WavWalk.format, formatOf, Prod.mk.injEq] at hformat
    simp only [WavWalk.data, Prod.mk.injEq] at hdata
    obtain ⟨hwTag, hwChannels, hwRate, hwBits⟩ := hformat
    obtain ⟨hwSize, hwOffset⟩ := hdata
    have hsame : w.channels = s.channels := hwChannels.trans hchannels
    have hcount : framesOf maxFrames w = s.frames := by
      rw [framesOf, hwSize, hsame, hframes]
    refine ⟨data.offset, hwOffset, ?_, ?_, ?_⟩
    · refine ⟨hwTag.trans htag, ?_, hwBits.trans hbits, ?_, ?_⟩
      · rw [hsame]
        exact h.channels
      · rw [hwRate, hrate]
        exact h.sampleRate
      · rwa [hwSize]
    · rw [hcount, hsame, Nat.mul_assoc, ← hoffset]
      exact h.present
    · rw [soundOf, hcount, hsame, hwRate, hrate, ← hoffset]
  · rintro ⟨offset, hoffset, haccepted, hpresent, rfl⟩
    obtain ⟨htag, hchannels, hbits, hrate, hsize⟩ := haccepted
    cases hfmt : lastChunk isFormat chunks with
    | none =>
        rw [hfmt, Option.map_none, Option.getD_none] at hformat
        have hzero := congrArg Prod.fst hformat
        exact absurd (htag.symm.trans hzero) (by decide)
    | some fmt =>
        cases hlast : lastChunk isData chunks with
        | none =>
            rw [hlast, Option.map_none, Option.getD_none] at hdata
            have hnone := congrArg Prod.snd hdata
            simp only [WavWalk.data] at hnone
            rw [hoffset] at hnone
            cases hnone
        | some data =>
            rw [hfmt, Option.map_some, Option.getD_some] at hformat
            rw [hlast, Option.map_some, Option.getD_some] at hdata
            simp only [WavWalk.format, formatOf, Prod.mk.injEq] at hformat
            simp only [WavWalk.data, Prod.mk.injEq] at hdata
            obtain ⟨hwTag, hwChannels, hwRate, hwBits⟩ := hformat
            obtain ⟨hwSize, hwOffset⟩ := hdata
            constructor
            · exact hheader
            · exact hriff
            · exact hwave
            · exact hchannels
            · exact hrate
            · rw [Nat.mul_assoc] at hpresent
              exact hpresent
            · refine ⟨chunks, fmt, data, hchunks, hfmt, hwTag.symm.trans htag,
                hwChannels.symm, hwRate.symm, hwBits.symm.trans hbits, hlast,
                ?_, ?_, ?_⟩
              · rwa [← hwSize]
              · exact Option.some.inj (hoffset.symm.trans hwOffset)
              · rw [← hwSize]
                rfl

/-- A file has one sound at most. -/
theorem PcmFile.unique {s s' : Sound} (h : PcmFile maxFrames file s)
    (h' : PcmFile maxFrames file s') : s = s' := by
  obtain ⟨chunks, fmt, data, hchunks, hfmt, -, hchannels, hrate, -, hdata, -,
    hoffset, hframes⟩ := h.chunks
  obtain ⟨chunks', fmt', data', hchunks', hfmt', -, hchannels', hrate', -,
    hdata', -, hoffset', hframes'⟩ := h'.chunks
  obtain rfl := hchunks.unique hchunks'
  obtain rfl := Option.some.inj (hfmt.symm.trans hfmt')
  obtain rfl := Option.some.inj (hdata.symm.trans hdata')
  have hsame : s.channels = s'.channels := hchannels.symm.trans hchannels'
  cases s with
  | mk channels sampleRate frames offset =>
      cases s' with
      | mk channels' sampleRate' frames' offset' =>
          simp only at *
          rw [hsame] at hframes ⊢
          rw [hframes, hframes', hoffset, hoffset', ← hrate, ← hrate']

theorem header_iff (file : Bytes) :
    (field file 0 12).length = 12 ↔ 12 ≤ file.length := by
  rw [length_field_eq_iff (by decide), Nat.zero_add]

theorem formatsComplete_iff {chunks : List Chunk}
    (h : ChunksFrom file 12 chunks) :
    FormatsComplete file ↔ ∀ c ∈ chunks, FormatComplete file c := by
  constructor
  · exact fun hall c hc => hall chunks h c hc
  · intro hall chunks' h' c hc
    rw [h.unique h'] at hc
    exact hall c hc

/-- No more turns are needed than there are bytes. -/
theorem walkChunks_of_le {fuel : Nat} (h : file.length ≤ fuel) :
    walkChunks file fuel 12 startWalk =
      walkChunks file file.length 12 startWalk := by
  obtain ⟨chunks, hchunks⟩ := exists_chunksFrom file 12
  rcases walkChunks_spec hchunks (show file.length ≤ 12 + fuel by omega)
      startWalk with ⟨hall, heq⟩ | ⟨hnot, heq⟩
  · rcases walkChunks_spec hchunks (Nat.le_add_left _ _) startWalk with
      ⟨-, heq'⟩ | ⟨hnot', -⟩
    · rw [heq, heq']
    · exact absurd hall hnot'
  · rcases walkChunks_spec hchunks (Nat.le_add_left _ _) startWalk with
      ⟨hall', -⟩ | ⟨-, heq'⟩
    · exact absurd hall' hnot
    · rw [heq, heq']

/-- The position of the data that the walk found is inside the file. -/
theorem dataOffset_le {chunks : List Chunk}
    (hchunks : ChunksFrom file pos chunks) {offset : Nat}
    (h : (chunks.foldl (note file) startWalk).dataOffset = some offset) :
    offset ≤ file.length := by
  have hlast := congrArg Prod.snd (@data_foldl file chunks startWalk)
  simp only [WavWalk.data] at hlast
  rw [h] at hlast
  cases hfound : lastChunk isData chunks with
  | none =>
      rw [hfound] at hlast
      cases hlast
  | some data =>
      rw [hfound] at hlast
      obtain rfl := Option.some.inj hlast
      exact hchunks.offset_le data
        (List.mem_of_mem_filter (List.mem_of_getLast? hfound))

/-- Behind its header a file is loaded from what the walk found. -/
theorem load_of_header (hname : name ≠ []) (hheader : 12 ≤ file.length)
    (hriff : field file 0 4 = ascii "RIFF")
    (hwave : field file 8 4 = ascii "WAVE") (slot : AudioSfxClipSlot) :
    loadPcm16WavFile maxFrames (some file) name slot =
      match walkChunks file file.length 12 startWalk with
      | none => (.err, emptySlot)
      | some w => loadSamples maxFrames file name w := by
  rw [loadPcm16WavFile, if_neg hname]
  simp [(header_iff file).mpr hheader, hriff, hwave]

theorem load_of_not_header (hname : name ≠ [])
    (h : ¬ (12 ≤ file.length ∧ field file 0 4 = ascii "RIFF" ∧
      field file 8 4 = ascii "WAVE")) (slot : AudioSfxClipSlot) :
    loadPcm16WavFile maxFrames (some file) name slot = (.err, emptySlot) := by
  rw [loadPcm16WavFile, if_neg hname]
  by_cases hheader : 12 ≤ file.length
  · have hmagic : field file 0 4 ≠ ascii "RIFF" ∨
        field file 8 4 ≠ ascii "WAVE" :=
      not_and_or.mp fun hboth => h ⟨hheader, hboth⟩
    simp only [(header_iff file).mpr hheader, ne_eq, not_true, if_false]
    exact if_pos hmagic
  · simp only [(header_iff file).not.mpr hheader, ne_eq, not_false_eq_true,
      if_true]

/-- A file is loaded with its sound, or refused because it has none. -/
theorem load_cases (hname : name ≠ []) (slot : AudioSfxClipSlot) :
    (∃ s : Sound, PcmFile maxFrames file s ∧ FormatsComplete file ∧
      loadPcm16WavFile maxFrames (some file) name slot =
        (.ok, slotOf file name s)) ∨
    ((∀ s : Sound, PcmFile maxFrames file s → ¬ FormatsComplete file) ∧
      loadPcm16WavFile maxFrames (some file) name slot =
        (.err, emptySlot)) := by
  by_cases hmagic : 12 ≤ file.length ∧ field file 0 4 = ascii "RIFF" ∧
      field file 8 4 = ascii "WAVE"
  · obtain ⟨hheader, hriff, hwave⟩ := hmagic
    obtain ⟨chunks, hchunks⟩ := exists_chunksFrom file 12
    have hload := @load_of_header maxFrames file name hname hheader hriff
      hwave slot
    rcases walkChunks_spec hchunks (Nat.le_add_left file.length 12)
        startWalk with ⟨hall, heq⟩ | ⟨hnot, heq⟩
    · have hiff := fun s : Sound => @pcmFile_iff maxFrames file chunks
        hheader hriff hwave hchunks hall s
      rw [heq] at hload
      simp only at hload
      cases hdata : (chunks.foldl (note file) startWalk).dataOffset with
      | none =>
          right
          rw [loadSamples_of_none hdata] at hload
          refine ⟨?_, hload⟩
          intro s hs
          obtain ⟨offset, hoffset, -⟩ := (hiff s).mp hs
          rw [hdata] at hoffset
          cases hoffset
      | some offset =>
          rcases @loadSamples_of_some maxFrames file name _ offset hdata
              (dataOffset_le hchunks hdata) with
            ⟨haccepted, hpresent, hok⟩ | ⟨hnot, herr⟩
          · left
            refine ⟨_, (hiff _).mpr ⟨offset, hdata, haccepted, hpresent, rfl⟩,
              (formatsComplete_iff hchunks).mpr hall, ?_⟩
            rw [hload, hok]
          · right
            rw [herr] at hload
            refine ⟨?_, hload⟩
            intro s hs
            obtain ⟨offset', hoffset', haccepted, hpresent, -⟩ :=
              (hiff s).mp hs
            rw [hdata] at hoffset'
            obtain rfl := Option.some.inj hoffset'
            exact absurd ⟨haccepted, hpresent⟩ hnot
    · right
      rw [heq] at hload
      exact ⟨fun s _ hcomplete =>
        hnot ((formatsComplete_iff hchunks).mp hcomplete), hload⟩
  · right
    refine ⟨?_, load_of_not_header hname hmagic slot⟩
    exact fun s hs => absurd ⟨hs.header, hs.riff, hs.wave⟩ hmagic

/-- A file is loaded exactly if it is well-formed and no format chunk of it is
cut short.  The slot then holds its sound, and is empty otherwise; the walk
needs no more turns than there are bytes. -/
theorem loadPcm16WavFile_spec (maxFrames : Nat) (file name : Bytes)
    (slot : AudioSfxClipSlot) (hname : name ≠ []) :
    ((loadPcm16WavFile maxFrames (some file) name slot).1 = .ok ↔
      (∃ s : Sound, PcmFile maxFrames file s) ∧ FormatsComplete file) ∧
    (∀ s : Sound, PcmFile maxFrames file s → FormatsComplete file →
      (loadPcm16WavFile maxFrames (some file) name slot).2 =
        slotOf file name s) ∧
    ((loadPcm16WavFile maxFrames (some file) name slot).1 ≠ .ok →
      (loadPcm16WavFile maxFrames (some file) name slot).2 = emptySlot) ∧
    ∀ fuel : Nat, file.length ≤ fuel →
      walkChunks file fuel 12 startWalk =
        walkChunks file file.length 12 startWalk := by
  rw [← and_assoc, ← and_assoc]
  refine ⟨?_, fun fuel hle => walkChunks_of_le hle⟩
  rw [and_assoc]
  rcases @load_cases maxFrames file name hname slot with
    ⟨s, hs, hcomplete, hload⟩ | ⟨hnone, hload⟩
  · rw [hload]
    refine ⟨⟨fun _ => ⟨⟨s, hs⟩, hcomplete⟩, fun _ => rfl⟩, ?_,
      fun h => absurd rfl h⟩
    intro s' hs' _
    rw [hs.unique hs']
  · rw [hload]
    refine ⟨⟨fun h => absurd h (by decide), ?_⟩, ?_, fun _ => rfl⟩
    · rintro ⟨⟨s, hs⟩, hcomplete⟩
      exact absurd hcomplete (hnone s hs)
    · exact fun s hs hcomplete => absurd hcomplete (hnone s hs)

end

/-! ## A file that is refused -/

/-- One frame of one channel. -/
def oneFrameFile : Bytes :=
  ascii "RIFF" ++ [0, 0, 0, 0] ++ ascii "WAVE" ++
  ascii "fmt " ++ [16, 0, 0, 0] ++
    [1, 0, 1, 0, 0x80, 0xBB, 0, 0, 0, 0x77, 1, 0, 2, 0, 16, 0] ++
  ascii "data" ++ [2, 0, 0, 0] ++ [0x34, 0x12]

/-- The same with the header of a short format chunk behind it. -/
def cutShortFile : Bytes :=
  oneFrameFile ++ ascii "fmt " ++ [8, 0, 0, 0]

def oneFrame : Sound := ⟨1, 48000, 1, 44⟩

theorem chunks_oneFrameFile :
    ChunksFrom oneFrameFile 12
      [⟨ascii "fmt ", 16, 20⟩, ⟨ascii "data", 2, 44⟩] :=
  .chunk (by decide) (.chunk (by decide) (.done (by decide)))

theorem chunks_cutShortFile :
    ChunksFrom cutShortFile 12
      [⟨ascii "fmt ", 16, 20⟩, ⟨ascii "data", 2, 44⟩,
        ⟨ascii "fmt ", 8, 54⟩] :=
  .chunk (by decide) (.chunk (by decide) (.chunk (by decide)
    (.done (by decide))))

theorem loadPcm16WavFile_spec_oneFrame :
    (loadPcm16WavFile 384000 (some oneFrameFile) (ascii "kick.wav")
      emptySlot).1 = .ok := by
  apply (loadPcm16WavFile_spec 384000 oneFrameFile (ascii "kick.wav")
    emptySlot (by decide)).1.mpr
  constructor
  · refine ⟨oneFrame, by decide, by decide, by decide, .inl rfl, by decide,
      by decide, _, ⟨ascii "fmt ", 16, 20⟩, ⟨ascii "data", 2, 44⟩,
      chunks_oneFrameFile, ?_⟩
    decide
  · apply (formatsComplete_iff chunks_oneFrameFile).mpr
    decide

theorem short_format_refused :
    ¬ ∀ (maxFrames : Nat) (file name : Bytes) (slot : AudioSfxClipSlot),
      name ≠ [] →
      ((loadPcm16WavFile maxFrames (some file) name slot).1 = .ok ↔
        ∃ s : Sound, PcmFile maxFrames file s) := by
  intro h
  have hok := (h 384000 cutShortFile (ascii "kick.wav") emptySlot
    (by decide)).mpr ⟨oneFrame, by decide, by decide, by decide, .inl rfl,
      by decide, by decide, _, ⟨ascii "fmt ", 16, 20⟩,
      ⟨ascii "data", 2, 44⟩, chunks_cutShortFile, by decide⟩
  have herr : (loadPcm16WavFile 384000 (some cutShortFile)
      (ascii "kick.wav") emptySlot).1 = .err := by
    decide
  rw [herr] at hok
  cases hok

end Audiox.SfxBank
