import Audiox.Config.Basic
import Audiox.Support.Pattern
import Mathlib

/-!
# The tail of a log

`readTail` reads a log backwards in chunks and collects the lines that a query
asks for, the newest first.  A line begins at the start of the file or behind a
newline.  The file does not change and every read gets what it asks for.
-/

namespace Audiox.Http.LogTail

open ByteCodec Config Pattern

def kLineBytes : Nat := 2048

/-- The size of the buffer of a chunk. -/
def kChunkBytes : Nat := 8192

inductive Level where
  | debug
  | info
  | warn
  | error
deriving DecidableEq

inductive Source where
  | stdout
  | stderr
deriving DecidableEq

/-- `level` is `none` for all levels; `text` is in lower case. -/
structure Query where
  limit : Nat
  scanBytes : Nat
  level : Option Level
  text : Bytes

structure Row where
  id : Bytes
  source : Source
  level : Level
  text : Bytes
  truncated : Bool
deriving DecidableEq

structure Tail where
  rows : List Row
  bytes : Nat
  more : Bool
  scanLimited : Bool
  missing : Bool
deriving DecidableEq

/-- A log with its device and its inode. -/
structure LogFile where
  content : Bytes
  dev : Nat
  ino : Nat

/-! ## Lines -/

def newline : UInt8 := chr '\n'

def Source.name : Source → Bytes
  | .stdout => ascii "stdout"
  | .stderr => ascii "stderr"

def levelRank : Level → Nat
  | .error => 3
  | .warn => 2
  | .info => 1
  | .debug => 0

def contains (text pat : Bytes) : Bool := (firstAt pat text).isSome

def detectLevel (text : Bytes) : Level :=
  if contains text (ascii "error") || contains text (ascii "[err]") ||
      contains text (ascii "fatal") then .error
  else if contains text (ascii "warn") || contains text (ascii "[wrn]") then
    .warn
  else if contains text (ascii "debug") || contains text (ascii "[dbg]") then
    .debug
  else .info

def lower (text : Bytes) : Bytes := text.map lowerCase

/-- Without a carriage return at the end. -/
def dropReturn (text : Bytes) : Bytes :=
  if text.getLast? = some (chr '\r') then text.dropLast else text

/-- Whether the level and the text of a line are asked for. -/
def wanted (q : Query) (text : Bytes) : Bool :=
  (match q.level with
    | none => true
    | some level => levelRank level ≤ levelRank (detectLevel (lower text))) &&
  (q.text == [] || contains (lower text) q.text)

def hash (text : Bytes) : UInt64 :=
  text.foldl (fun h c => (h ^^^ c.toUInt64) * 1099511628211)
    14695981039346656037

def rowId (f : LogFile) (source : Source) (offset : Nat) (text : Bytes) :
    Bytes :=
  source.name ++ ascii ":" ++ showDecimal f.dev ++ ascii ":" ++
    showDecimal f.ino ++ ascii ":" ++ showDecimal offset ++ ascii ":" ++
    showDecimal (hash text).toNat

def row (f : LogFile) (source : Source) (offset : Nat) (text : Bytes) : Row where
  id := rowId f source offset text
  source := source
  level := detectLevel (lower text)
  text := text.take kLineBytes
  truncated := kLineBytes < text.length

/-! ## Reading backwards -/

/-- What is known while the file is read: the bytes of a line that has not
begun yet are in reverse. -/
structure Scan where
  rows : List Row
  reversed : Bytes
  more : Bool

section

variable (f : LogFile) (source : Source) (q : Query)

def emit (offset : Nat) (reversed : Bytes) (rows : List Row) : List Row :=
  if reversed = [] then rows
  else if wanted q (dropReturn reversed.reverse) then
    rows ++ [row f source offset (dropReturn reversed.reverse)]
  else rows

/-- The bytes of a buffer from its end; it is left when the limit is
reached. -/
def scanBuffer (buffer : Bytes) (position : Nat) : Nat → Scan → Scan
  | 0, s => s
  | i + 1, s =>
      if buffer.getD i 0 = newline then
        if (emit f source q (position + (i + 1)) s.reversed s.rows).length =
            q.limit then
          { rows := emit f source q (position + (i + 1)) s.reversed s.rows
            reversed := []
            more := decide (0 < position + (i + 1)) }
        else
          scanBuffer buffer position i
            { s with
              rows := emit f source q (position + (i + 1)) s.reversed s.rows
              reversed := [] }
      else
        scanBuffer buffer position i
          { s with reversed := s.reversed ++ [buffer.getD i 0] }

def chunkLength (position bytes : Nat) : Nat :=
  min (min kChunkBytes position) (q.scanBytes - bytes)

/-- The chunks in front of a position; each takes at least one byte. -/
def readChunks : Nat → Nat → Nat → Scan → Nat × Nat × Scan
  | 0, position, bytes, s => (position, bytes, s)
  | fuel + 1, position, bytes, s =>
      if 0 < position ∧ bytes < q.scanBytes ∧ s.rows.length < q.limit then
        readChunks fuel (position - chunkLength q position bytes)
          (bytes + chunkLength q position bytes)
          (scanBuffer f source q
            ((f.content.drop (position - chunkLength q position bytes)).take
              (chunkLength q position bytes))
            (position - chunkLength q position bytes)
            (chunkLength q position bytes) s)
      else (position, bytes, s)

/-- The position, the bytes and the scan when no chunk is left to read. -/
def chunksRead : Nat × Nat × Scan :=
  readChunks f source q f.content.length f.content.length 0 ⟨[], [], false⟩

def rowsRead : List Row :=
  if (chunksRead f source q).1 = 0 ∧
      (chunksRead f source q).2.2.rows.length < q.limit then
    emit f source q 0 (chunksRead f source q).2.2.reversed
      (chunksRead f source q).2.2.rows
  else (chunksRead f source q).2.2.rows

def scanLimited : Bool :=
  decide (0 < (chunksRead f source q).1) &&
    decide (q.scanBytes ≤ (chunksRead f source q).2.1) &&
    decide ((rowsRead f source q).length < q.limit)

end

/-- `none` is a file that is not there. -/
def readTail (file : Option LogFile) (source : Source) (q : Query) : Tail :=
  match file with
  | none => ⟨[], 0, false, false, true⟩
  | some f =>
      { rows := rowsRead f source q
        bytes := (chunksRead f source q).2.1
        more := (chunksRead f source q).2.2.more || scanLimited f source q
        scanLimited := scanLimited f source q
        missing := false }

/-! ## The text of the newest lines -/

inductive Errno where
  | einval
  | enoent
deriving DecidableEq

/-- How many of the newest rows fit behind the bytes that are taken. -/
def fitting (capacity : Nat) : Nat → List Row → Nat
  | _, [] => 0
  | bytes, r :: rows =>
      if capacity - bytes ≤ r.text.length + 1 then 0
      else fitting capacity (bytes + (r.text.length + 1)) rows + 1

/-- Rows with a newline behind each. -/
def textOf (rows : List Row) : Bytes :=
  rows.flatMap fun r => r.text ++ [newline]

/-- What is written to the buffer, with the zero byte at its end. -/
def readSystemLogText (file : Option LogFile) (source : Source) (limit : Nat)
    (capacity : Nat) : Except Errno Bytes :=
  if limit < 1 ∨ 128 < limit ∨ capacity < 2 then .error .einval
  else if (readTail file source ⟨limit, 65536, none, []⟩).missing then
    .error .enoent
  else
    .ok (textOf ((readTail file source ⟨limit, 65536, none, []⟩).rows.take
      (fitting capacity 0
        (readTail file source ⟨limit, 65536, none, []⟩).rows)).reverse ++ [0])

/-! ## The lines of a file -/

/-- The line that begins here. -/
def lineOf (s : Bytes) : Bytes := s.takeWhile (· ≠ newline)

/-- The lines that begin behind a newline of a part of the file. -/
def linesAfter : Nat → Bytes → List (Nat × Bytes)
  | _, [] => []
  | offset, c :: rest =>
      if c = newline then (offset + 1, lineOf rest) :: linesAfter (offset + 1) rest
      else linesAfter (offset + 1) rest

/-- The lines of a file with their offsets. -/
def linesOf (content : Bytes) : List (Nat × Bytes) :=
  (0, lineOf content) :: linesAfter 0 content

theorem lineOf_newline (rest : Bytes) : lineOf (newline :: rest) = [] := by
  rw [lineOf, List.takeWhile_cons_of_neg (by simp)]

theorem lineOf_cons {c : UInt8} (hc : c ≠ newline) (rest : Bytes) :
    lineOf (c :: rest) = c :: lineOf rest := by
  rw [lineOf, List.takeWhile_cons_of_pos (by simpa using hc), lineOf]

theorem lt_of_mem_linesAfter {offset : Nat} {s : Bytes} {l : Nat × Bytes}
    (hl : l ∈ linesAfter offset s) : offset < l.1 := by
  induction s generalizing offset with
  | nil => cases hl
  | cons c rest ih =>
      rw [linesAfter] at hl
      split at hl
      · rcases List.mem_cons.mp hl with rfl | hl
        · exact Nat.lt_succ_self _
        · exact (Nat.lt_succ_self _).trans (ih hl)
      · exact (Nat.lt_succ_self _).trans (ih hl)

/-- The lines behind the newlines from a position on. -/
theorem linesAfter_drop (offset n : Nat) (s : Bytes) :
    linesAfter (offset + n) (s.drop n) =
      (linesAfter offset s).filter (fun l => decide (offset + n < l.1)) := by
  induction n generalizing offset s with
  | zero =>
      rw [List.drop_zero, Nat.add_zero, List.filter_eq_self.mpr]
      exact fun l hl => decide_eq_true (lt_of_mem_linesAfter hl)
  | succ n ih =>
      cases s with
      | nil => rfl
      | cons c rest =>
          have hnext := ih (offset + 1) rest
          rw [Nat.add_right_comm] at hnext
          rw [List.drop_succ_cons, ← Nat.add_assoc, hnext, linesAfter]
          split
          · rw [List.filter_cons_of_neg (by simp)]
          · rfl

section

variable {f : LogFile} {source : Source} {q : Query}

/-- The row of a line, if it is asked for. -/
def rowOf (f : LogFile) (source : Source) (q : Query) (l : Nat × Bytes) :
    Option Row :=
  if l.2 = [] then none
  else if wanted q (dropReturn l.2) then
    some (row f source l.1 (dropReturn l.2))
  else none

theorem emit_eq (offset : Nat) (line : Bytes) (rows : List Row) :
    emit f source q offset line.reverse rows =
      rows ++ (rowOf f source q (offset, line)).toList := by
  rw [emit, rowOf, List.reverse_reverse]
  simp only [List.reverse_eq_nil_iff]
  split
  · exact (List.append_nil rows).symm
  · split
    · rfl
    · exact (List.append_nil rows).symm

theorem length_toList_rowOf_le (f : LogFile) (source : Source) (q : Query)
    (l : Nat × Bytes) : (rowOf f source q l).toList.length ≤ 1 := by
  cases rowOf f source q l with
  | none => exact Nat.zero_le _
  | some r => exact le_rfl

/-- The rows of the lines behind the newlines from a position on, the newest
first. -/
def rowsFrom (f : LogFile) (source : Source) (q : Query) (k : Nat) : List Row :=
  (linesAfter k (f.content.drop k)).reverse.filterMap (rowOf f source q)

theorem rowsFrom_newline {k : Nat} (hk : k < f.content.length)
    (hc : f.content[k] = newline) :
    rowsFrom f source q k = rowsFrom f source q (k + 1) ++
      (rowOf f source q (k + 1, lineOf (f.content.drop (k + 1)))).toList := by
  rw [rowsFrom, List.drop_eq_getElem_cons hk, linesAfter, if_pos hc,
    List.reverse_cons, List.filterMap_append, rowsFrom]
  congr 1

theorem rowsFrom_other {k : Nat} (hk : k < f.content.length)
    (hc : f.content[k] ≠ newline) :
    rowsFrom f source q k = rowsFrom f source q (k + 1) := by
  rw [rowsFrom, List.drop_eq_getElem_cons hk, linesAfter, if_neg hc, rowsFrom]

theorem rowsFrom_length : rowsFrom f source q f.content.length = [] := by
  rw [rowsFrom, List.drop_length]
  rfl

/-- Earlier newlines add rows behind those of later ones. -/
theorem rowsFrom_mono {k j : Nat} (hkj : k ≤ j) (hj : j ≤ f.content.length) :
    rowsFrom f source q j <+: rowsFrom f source q k := by
  induction j, hkj using Nat.le_induction with
  | base => exact List.prefix_rfl
  | succ j hkj ih =>
      have hlt : j < f.content.length := hj
      refine List.IsPrefix.trans ?_ (ih hlt.le)
      by_cases hc : f.content[j] = newline
      · rw [rowsFrom_newline hlt hc]
        exact List.prefix_append _ _
      · rw [rowsFrom_other hlt hc]

/-! ## The scan -/

/-- The file is scanned down to a position. -/
structure Scanned (f : LogFile) (source : Source) (q : Query) (k : Nat)
    (s : Scan) : Prop where
  rows : s.rows = (rowsFrom f source q k).take q.limit
  line : s.rows.length < q.limit →
    s.reversed = (lineOf (f.content.drop k)).reverse
  more : s.more = decide (s.rows.length = q.limit)

namespace Scanned

theorem start (hlimit : 1 ≤ q.limit) :
    Scanned f source q f.content.length ⟨[], [], false⟩ where
  rows := by rw [rowsFrom_length, List.take_nil]
  line := by
    intro _
    rw [List.drop_length]
    rfl
  more := by
    symm
    rw [decide_eq_false_iff_not, List.length_nil]
    omega

theorem length_le {k : Nat} {s : Scan} (h : Scanned f source q k s) :
    s.rows.length ≤ q.limit := by
  rw [h.rows, List.length_take]
  exact min_le_left _ _

/-- Below the limit no row has been left out. -/
theorem rows_eq {k : Nat} {s : Scan} (h : Scanned f source q k s)
    (hopen : s.rows.length < q.limit) : s.rows = rowsFrom f source q k := by
  have hlength := hopen
  rw [h.rows, List.length_take] at hlength
  rw [h.rows, List.take_of_length_le (by omega)]

/-- At the limit nothing further down adds a row. -/
theorem take_eq {k j : Nat} {s : Scan} (h : Scanned f source q j s)
    (hkj : k ≤ j) (hj : j ≤ f.content.length)
    (hfull : s.rows.length = q.limit) :
    s.rows = (rowsFrom f source q k).take q.limit := by
  have hprefix : s.rows <+: rowsFrom f source q k := by
    rw [h.rows]
    exact (List.take_prefix _ _).trans (rowsFrom_mono hkj hj)
  rw [← hfull]
  exact List.prefix_iff_eq_take.mp hprefix

/-- One buffer. -/
theorem scanBuffer {position length : Nat}
    (hfits : position + length ≤ f.content.length) {i : Nat}
    (hi : i ≤ length) {s : Scan} (h : Scanned f source q (position + i) s)
    (hopen : s.rows.length < q.limit) :
    Scanned f source q position
      (LogTail.scanBuffer f source q
        ((f.content.drop position).take length) position i s) := by
  induction i generalizing s with
  | zero => exact h
  | succ i ih =>
      rw [← Nat.add_assoc] at h
      have hk : position + i < f.content.length := by omega
      have hbyte : ((f.content.drop position).take length).getD i 0 =
          f.content[position + i] := by
        rw [List.getD_eq_getElem?_getD, List.getElem?_take_of_lt (by omega),
          List.getElem?_drop, List.getElem?_eq_getElem hk]
        rfl
      have hrows := h.rows_eq hopen
      rw [LogTail.scanBuffer, hbyte, h.line hopen, ← Nat.add_assoc, emit_eq,
        hrows]
      by_cases hc : f.content[position + i] = newline
      · have hnext := @rowsFrom_newline f source q (position + i) hk hc
        rw [if_pos hc, ← hnext]
        have hle : (rowsFrom f source q (position + i)).length ≤ q.limit := by
          rw [hnext, List.length_append, ← hrows]
          have hone := length_toList_rowOf_le f source q
            (position + i + 1, lineOf (f.content.drop (position + i + 1)))
          omega
        have hscanned : ∀ more reversed,
            reversed = (lineOf (f.content.drop (position + i))).reverse →
            more = decide ((rowsFrom f source q (position + i)).length =
              q.limit) →
            Scanned f source q (position + i)
              ⟨rowsFrom f source q (position + i), reversed, more⟩ := by
          intro more reversed hreversed hmore
          exact ⟨(List.take_of_length_le hle).symm, fun _ => hreversed, hmore⟩
        have hline : ([] : Bytes) =
            (lineOf (f.content.drop (position + i))).reverse := by
          rw [List.drop_eq_getElem_cons hk, hc, lineOf_newline]
          rfl
        by_cases hfull : (rowsFrom f source q (position + i)).length = q.limit
        · rw [if_pos hfull]
          have hstop := hscanned true [] hline (by rw [hfull]; simp)
          refine ⟨hstop.take_eq (Nat.le_add_right _ _) hk.le hfull,
            fun hlt => absurd hfull hlt.ne, ?_⟩
          rw [decide_eq_true hfull]
          exact decide_eq_true (show 0 < position + i + 1 by omega)
        · rw [if_neg hfull]
          refine ih (by omega) (hscanned _ _ hline ?_)
            (lt_of_le_of_ne hle hfull)
          rw [h.more, decide_eq_false hfull, decide_eq_false hopen.ne]
      · rw [if_neg hc]
        have hnext := @rowsFrom_other f source q (position + i) hk hc
        have hmore := h.more
        have htake := h.rows
        rw [hrows] at hmore htake
        refine ih (by omega) ⟨?_, ?_, hmore⟩ (hrows ▸ hopen)
        · rw [hnext]
          exact htake
        · intro _
          rw [List.drop_eq_getElem_cons hk, lineOf_cons hc,
            List.reverse_cons]

/-- All chunks. -/
theorem readChunks {fuel position bytes : Nat} {s : Scan}
    (h : Scanned f source q position s) (hfuel : position ≤ fuel)
    (hsize : bytes + position = f.content.length)
    (hbytes : bytes ≤ q.scanBytes) :
    ∃ position' bytes' s',
      LogTail.readChunks f source q fuel position bytes s =
        (position', bytes', s') ∧
      Scanned f source q position' s' ∧
      bytes' + position' = f.content.length ∧ bytes' ≤ q.scanBytes ∧
      (position' = 0 ∨ bytes' = q.scanBytes ∨ s'.rows.length = q.limit) := by
  induction fuel generalizing position bytes s with
  | zero =>
      exact ⟨_, _, _, rfl, h, hsize, hbytes, .inl (Nat.le_zero.mp hfuel)⟩
  | succ fuel ih =>
      rw [LogTail.readChunks]
      by_cases hmore : 0 < position ∧ bytes < q.scanBytes ∧
          s.rows.length < q.limit
      · have hlength : 0 < chunkLength q position bytes ∧
            chunkLength q position bytes ≤ position ∧
            chunkLength q position bytes ≤ q.scanBytes - bytes := by
          unfold chunkLength kChunkBytes
          omega
        obtain ⟨hpos, hle, hbudget⟩ := hlength
        rw [if_pos hmore]
        have hsplit : position - chunkLength q position bytes +
            chunkLength q position bytes = position := Nat.sub_add_cancel hle
        have hbuffer := h
        rw [← hsplit] at hbuffer
        have hnext := hbuffer.scanBuffer
          (by omega) le_rfl hmore.2.2
        exact ih hnext (by omega) (by omega) (by omega)
      · rw [if_neg hmore]
        refine ⟨_, _, _, rfl, h, hsize, hbytes, ?_⟩
        have hle := h.length_le
        omega

end Scanned

/-- What the chunks leave. -/
theorem chunksRead_spec (f : LogFile) (source : Source) (hlimit : 1 ≤ q.limit) :
    ∃ position bytes s, chunksRead f source q = (position, bytes, s) ∧
      Scanned f source q position s ∧
      bytes + position = f.content.length ∧ bytes ≤ q.scanBytes ∧
      (position = 0 ∨ bytes = q.scanBytes ∨ s.rows.length = q.limit) :=
  (Scanned.start hlimit).readChunks le_rfl (Nat.zero_add _) (Nat.zero_le _)

/-! ## The plain scan -/

/-- A line begins at the start of the file, which is read to its start, or
behind a newline of its last bytes. -/
def InWindow (f : LogFile) (q : Query) (l : Nat × Bytes) : Bool :=
  if l.1 = 0 then decide (f.content.length ≤ q.scanBytes)
  else decide (f.content.length - q.scanBytes < l.1)

/-- The rows of the lines of the window, the newest first. -/
def windowRows (f : LogFile) (source : Source) (q : Query) : List Row :=
  ((linesOf f.content).filter (InWindow f q)).reverse.filterMap
    (rowOf f source q)

theorem windowRows_eq :
    windowRows f source q =
      rowsFrom f source q (f.content.length - q.scanBytes) ++
        if f.content.length ≤ q.scanBytes then
          (rowOf f source q (0, lineOf f.content)).toList
        else [] := by
  have hafter : (linesAfter 0 f.content).filter (InWindow f q) =
      linesAfter (f.content.length - q.scanBytes)
        (f.content.drop (f.content.length - q.scanBytes)) := by
    have hdrop := linesAfter_drop 0 (f.content.length - q.scanBytes) f.content
    rw [Nat.zero_add] at hdrop
    rw [hdrop]
    refine List.filter_congr fun l hl => ?_
    have hpos := lt_of_mem_linesAfter hl
    rw [InWindow, if_neg hpos.ne']
  rw [windowRows, linesOf, rowsFrom]
  by_cases hall : f.content.length ≤ q.scanBytes
  · rw [List.filter_cons_of_pos (by rw [InWindow, if_pos rfl]; simpa),
      hafter, List.reverse_cons, List.filterMap_append, if_pos hall]
    congr 1
  · rw [List.filter_cons_of_neg (by rw [InWindow, if_pos rfl]; simpa using hall),
      hafter, if_neg hall, List.append_nil]

/-- The rows that are read are the first ones of the plain scan. -/
theorem rowsRead_eq (f : LogFile) (source : Source) (hlimit : 1 ≤ q.limit) :
    rowsRead f source q = (windowRows f source q).take q.limit := by
  obtain ⟨position, bytes, s, hread, hscanned, hsize, hbytes, hstop⟩ :=
    chunksRead_spec f source hlimit
  have hle := hscanned.length_le
  rw [rowsRead, hread, windowRows_eq]
  dsimp only
  by_cases hfull : s.rows.length = q.limit
  · have htake := hscanned.take_eq
      (k := f.content.length - q.scanBytes) (by omega) (by omega) hfull
    have hlong : q.limit ≤
        (rowsFrom f source q (f.content.length - q.scanBytes)).length := by
      have hlength := congrArg List.length htake
      rw [List.length_take] at hlength
      omega
    rw [if_neg (by omega), List.take_append_of_le_length hlong]
    exact htake
  · have hopen : s.rows.length < q.limit := lt_of_le_of_ne hle hfull
    have hposition : position = f.content.length - q.scanBytes := by omega
    have hrows := hscanned.rows_eq hopen
    by_cases hstart : position = 0
    · subst hstart
      rw [if_pos ⟨rfl, hopen⟩, hscanned.line hopen, emit_eq, hrows,
        ← hposition, if_pos (by omega), List.drop_zero]
      symm
      apply List.take_of_length_le
      rw [List.length_append, ← hrows]
      have hone := length_toList_rowOf_le f source q (0, lineOf f.content)
      omega
    · rw [if_neg (fun h => hstart h.1), ← hposition, if_neg (by omega),
        List.append_nil]
      exact hscanned.rows

theorem rowsRead_of_ne {position bytes : Nat} {s : Scan}
    (hread : chunksRead f source q = (position, bytes, s))
    (hposition : position ≠ 0) : rowsRead f source q = s.rows := by
  rw [rowsRead, hread, if_neg (fun h => hposition h.1)]

theorem length_rows_le {position bytes : Nat} {s : Scan}
    (hread : chunksRead f source q = (position, bytes, s)) :
    s.rows.length ≤ (rowsRead f source q).length := by
  rw [rowsRead, hread]
  dsimp only
  split
  · rw [← s.reversed.reverse_reverse, emit_eq, List.length_append]
    exact Nat.le_add_right _ _
  · exact le_rfl

/-- The scan is limited if the file is longer and the limit is not reached. -/
theorem scanLimited_iff (f : LogFile) (source : Source)
    (hlimit : 1 ≤ q.limit) :
    scanLimited f source q = true ↔
      q.scanBytes < f.content.length ∧
        (rowsRead f source q).length < q.limit := by
  obtain ⟨position, bytes, s, hread, hscanned, hsize, hbytes, hstop⟩ :=
    chunksRead_spec f source hlimit
  have hrows := length_rows_le hread
  simp only [scanLimited, hread, Bool.and_eq_true, decide_eq_true_eq]
  constructor
  · rintro ⟨⟨hposition, hbudget⟩, hopen⟩
    exact ⟨by omega, hopen⟩
  · rintro ⟨hlong, hopen⟩
    exact ⟨⟨by omega, by omega⟩, hopen⟩

/-- When the whole file is in the window, all its lines are. -/
theorem windowRows_of_le (hall : f.content.length ≤ q.scanBytes) :
    windowRows f source q =
      (linesOf f.content).reverse.filterMap (rowOf f source q) := by
  rw [windowRows, List.filter_eq_self.mpr]
  intro l _
  rw [InWindow]
  split
  · exact decide_eq_true hall
  · exact decide_eq_true (by omega)

/-- Without more rows, all lines of the file that are asked for are there. -/
theorem rowsRead_of_not_more (f : LogFile) (source : Source)
    (hlimit : 1 ≤ q.limit)
    (hmore : (readTail (some f) source q).more = false) :
    rowsRead f source q =
      (linesOf f.content).reverse.filterMap (rowOf f source q) := by
  obtain ⟨position, bytes, s, hread, hscanned, hsize, hbytes, hstop⟩ :=
    chunksRead_spec f source hlimit
  have hle := hscanned.length_le
  rw [readTail, Bool.or_eq_false_iff, hread] at hmore
  obtain ⟨hscan, hlimited⟩ := hmore
  have hopen : s.rows.length < q.limit := by
    refine lt_of_le_of_ne hle fun hfull => ?_
    rw [hscanned.more, decide_eq_true hfull] at hscan
    cases hscan
  have hall : f.content.length ≤ q.scanBytes := by
    by_contra hlong
    have hrows := rowsRead_of_ne hread (show position ≠ 0 by omega)
    have htrue := (scanLimited_iff f source hlimit).mpr
      ⟨not_le.mp hlong, by rw [hrows]; exact hopen⟩
    rw [htrue] at hlimited
    cases hlimited
  have hposition : position = 0 := by omega
  subst hposition
  have hwindow := @windowRows_of_le f source q hall
  rw [rowsRead_eq f source hlimit, ← hwindow]
  apply List.take_of_length_le
  rw [windowRows_eq, if_pos hall, Nat.sub_eq_zero_of_le hall,
    ← hscanned.rows_eq hopen, List.length_append]
  have hone := length_toList_rowOf_le f source q (0, lineOf f.content)
  omega

end

/-! ## The text of the newest lines -/

theorem length_textOf_cons (r : Row) (rows : List Row) :
    (textOf (r :: rows)).length = r.text.length + 1 + (textOf rows).length := by
  rw [textOf, List.flatMap_cons, List.length_append, List.length_append]
  rfl

theorem length_textOf_reverse (rows : List Row) :
    (textOf rows.reverse).length = (textOf rows).length :=
  (rows.reverse_perm.flatMap_right _).length_eq

theorem length_fitting_lt {capacity : Nat} {bytes : Nat}
    (hbytes : bytes < capacity) (rows : List Row) :
    bytes + (textOf (rows.take (fitting capacity bytes rows))).length <
      capacity := by
  induction rows generalizing bytes with
  | nil => exact hbytes
  | cons r rows ih =>
      rw [fitting]
      split
      · exact hbytes
      · have hnext := @ih (bytes + (r.text.length + 1)) (by omega)
        rw [List.take_succ_cons, length_textOf_cons]
        omega

/-- The next row does not fit. -/
theorem le_length_fitting {capacity : Nat} {bytes : Nat} {rows : List Row}
    {r : Row}
    (hnext : rows.take (fitting capacity bytes rows) ++ [r] <+: rows) :
    capacity ≤ bytes +
      (textOf (rows.take (fitting capacity bytes rows) ++ [r])).length := by
  induction rows generalizing bytes with
  | nil =>
      have hlength := hnext.length_le
      rw [List.length_append, List.length_singleton, List.length_nil] at hlength
      omega
  | cons first rows ih =>
      rw [fitting] at hnext ⊢
      split
      · rename_i hfull
        rw [if_pos hfull, List.take_zero, List.nil_append,
          List.cons_prefix_cons] at hnext
        rw [List.take_zero, List.nil_append, length_textOf_cons, hnext.1]
        omega
      · rename_i hfits
        rw [if_neg hfits, List.take_succ_cons, List.cons_append,
          List.cons_prefix_cons] at hnext
        have hrest := @ih (bytes + (first.text.length + 1)) hnext.2
        rw [List.take_succ_cons, List.cons_append, length_textOf_cons]
        omega

/-- The text of the newest rows that fit, the oldest first. -/
theorem readSystemLogText_eq (f : LogFile) (source : Source) {limit capacity : Nat}
    (hlimit : 1 ≤ limit) (hmost : limit ≤ 128) (hcapacity : 2 ≤ capacity) :
    ∃ kept, kept <+: (windowRows f source ⟨limit, 65536, none, []⟩).take limit ∧
      readSystemLogText (some f) source limit capacity =
        .ok (textOf kept.reverse ++ [0]) ∧
      (textOf kept.reverse ++ [0]).length ≤ capacity ∧
      ∀ r, kept ++ [r] <+:
          (windowRows f source ⟨limit, 65536, none, []⟩).take limit →
        capacity < (textOf (kept ++ [r]).reverse ++ [0]).length := by
  have hrows := @rowsRead_eq ⟨limit, 65536, none, []⟩ f source hlimit
  dsimp only at hrows
  rw [← hrows]
  refine ⟨_, List.take_prefix (fitting capacity 0
    (rowsRead f source ⟨limit, 65536, none, []⟩)) _, ?_, ?_, ?_⟩
  · rw [readSystemLogText, if_neg (by omega), if_neg (by simp [readTail])]
    rfl
  · have hfits := length_fitting_lt (show 0 < capacity by omega)
      (rowsRead f source ⟨limit, 65536, none, []⟩)
    rw [List.length_append, length_textOf_reverse, List.length_singleton]
    omega
  · intro r hnext
    have hfull := le_length_fitting hnext
    rw [List.length_append, length_textOf_reverse, List.length_singleton]
    omega

/-! ## The tail -/

/-- The rows are the first ones of the plain scan of the window, newest first,
and what is said of the rest holds. -/
theorem readTail_plain (f : LogFile) (source : Source) (q : Query)
    (hlimit : 1 ≤ q.limit) :
    (readTail (some f) source q).rows =
        (windowRows f source q).take q.limit ∧
      (readTail (some f) source q).bytes ≤ q.scanBytes ∧
      ((readTail (some f) source q).more = false →
        (readTail (some f) source q).rows =
          (linesOf f.content).reverse.filterMap (rowOf f source q)) ∧
      ((readTail (some f) source q).scanLimited = true ↔
        q.scanBytes < f.content.length ∧
          (readTail (some f) source q).rows.length < q.limit) ∧
      ∀ limit capacity, 1 ≤ limit → limit ≤ 128 → 2 ≤ capacity →
        ∃ kept,
          kept <+: (windowRows f source ⟨limit, 65536, none, []⟩).take limit ∧
          readSystemLogText (some f) source limit capacity =
            .ok (textOf kept.reverse ++ [0]) ∧
          (textOf kept.reverse ++ [0]).length ≤ capacity ∧
          ∀ r, kept ++ [r] <+:
              (windowRows f source ⟨limit, 65536, none, []⟩).take limit →
            capacity < (textOf (kept ++ [r]).reverse ++ [0]).length := by
  refine ⟨rowsRead_eq f source hlimit, ?_,
    fun hmore => rowsRead_of_not_more f source hlimit hmore,
    scanLimited_iff f source hlimit, ?_⟩
  · obtain ⟨position, bytes, s, hread, -, -, hbytes, -⟩ :=
      chunksRead_spec f source hlimit
    rw [readTail, hread]
    exact hbytes
  · intro limit capacity hone hmost hcapacity
    exact readSystemLogText_eq f source hone hmost hcapacity

/-- Two lines, the newer one without an end. -/
def twoLines : LogFile where
  content := ascii "[audio] ready\r\n[http] error: closed"
  dev := 1
  ino := 2

theorem readTail_two_lines :
    (readTail (some twoLines) .stdout ⟨600, 2097152, some .error, []⟩).rows =
      (windowRows twoLines .stdout ⟨600, 2097152, some .error, []⟩).take 600 :=
  (readTail_plain twoLines .stdout ⟨600, 2097152, some .error, []⟩
    (by decide)).1

/-- The text of a row is not the line when that ends with a carriage return. -/
theorem row_without_return :
    ¬∀ (f : LogFile) (source : Source) (q : Query), 1 ≤ q.limit →
      1 ≤ q.scanBytes →
      (readTail (some f) source q).rows.map Row.text =
        (((((linesOf f.content).filter (InWindow f q)).reverse.map
          Prod.snd).filter (fun line => line ≠ [] ∧ wanted q line)).map
            (List.take kLineBytes)).take q.limit := by
  intro hall
  have hsame := hall ⟨ascii "a\r\n", 1, 2⟩ .stdout ⟨600, 2097152, none, []⟩
    (by decide) (by decide)
  revert hsame
  decide

end Audiox.Http.LogTail
