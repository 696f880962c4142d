import Audiox.Config.Text
import Mathlib

/-!
# Lines and schema headers

The configuration files are read line by line into a buffer of a fixed size: a
line that is too long comes in several pieces.  The first header of a file
tells the version of its schema.
-/

namespace Audiox.Config

open ByteCodec

/-! ## Lines -/

/-- The pieces of a text: up to a newline or `max` bytes; `piece` is what has
been read of the first one. -/
def piecesFrom (max : Nat) : Bytes → Bytes → List Bytes
  | piece, [] => if piece = [] then [] else [piece]
  | piece, c :: text =>
      if c = chr '\n' ∨ piece.length + 1 = max then
        (piece ++ [c]) :: piecesFrom max [] text
      else piecesFrom max (piece ++ [c]) text

/-- What `fgets` returns for a file, one call after the other, with a buffer of
a size. -/
def fgets (size : Nat) (file : Bytes) : List Bytes :=
  (piecesFrom (size - 1) [] file).map cstr

/-- A line that fits. -/
theorem piecesFrom_line {max : Nat} {line : Bytes} (hline : chr '\n' ∉ line)
    (piece rest : Bytes) (hfits : piece.length + line.length < max) :
    piecesFrom max piece (line ++ chr '\n' :: rest) =
      (piece ++ line ++ [chr '\n']) :: piecesFrom max [] rest := by
  induction line generalizing piece with
  | nil => simp [piecesFrom]
  | cons c line ih =>
      rw [List.mem_cons, not_or] at hline
      rw [List.length_cons] at hfits
      have hgo : ¬(c = chr '\n' ∨ piece.length + 1 = max) := by
        rintro (hc | hmax)
        · exact hline.1 hc.symm
        · omega
      have hfits' : (piece ++ [c]).length + line.length < max := by
        rw [List.length_append, List.length_singleton]
        omega
      rw [List.cons_append, piecesFrom, if_neg hgo, ih hline.2 _ hfits']
      simp

/-- The first piece of a line that does not fit. -/
theorem piecesFrom_full {max : Nat} {line : Bytes} (hline : chr '\n' ∉ line)
    (hne : line ≠ []) (piece rest : Bytes)
    (hfull : piece.length + line.length = max) :
    piecesFrom max piece (line ++ rest) =
      (piece ++ line) :: piecesFrom max [] rest := by
  induction line generalizing piece with
  | nil => exact absurd rfl hne
  | cons c line ih =>
      rw [List.mem_cons, not_or] at hline
      rw [List.length_cons] at hfull
      by_cases hlast : line = []
      · subst hlast
        have hstop : c = chr '\n' ∨ piece.length + 1 = max := by
          right
          simpa using hfull
        rw [List.cons_append, piecesFrom, if_pos hstop]
        rfl
      · have hpos := List.length_pos_of_ne_nil hlast
        have hgo : ¬(c = chr '\n' ∨ piece.length + 1 = max) := by
          rintro (hc | hmax)
          · exact hline.1 hc.symm
          · omega
        have hfull' : (piece ++ [c]).length + line.length = max := by
          rw [List.length_append, List.length_singleton]
          omega
        rw [List.cons_append, piecesFrom, if_neg hgo,
          ih hline.2 hlast _ hfull']
        simp

/-- No byte is lost between the pieces. -/
theorem flatten_piecesFrom (max : Nat) (piece text : Bytes) :
    (piecesFrom max piece text).flatten = piece ++ text := by
  induction text generalizing piece with
  | nil =>
      rw [piecesFrom]
      split
      next h => simp [h]
      next h => simp
  | cons c text ih =>
      rw [piecesFrom]
      split
      · rw [List.flatten_cons, ih, List.nil_append, List.append_assoc,
          List.singleton_append]
      · rw [ih, List.append_assoc, List.singleton_append]

theorem flatten_fgets (size : Nat) {file : Bytes} (h : 0 ∉ file) :
    (fgets size file).flatten = file := by
  have hflat := flatten_piecesFrom (size - 1) [] file
  have hcstr : ∀ piece ∈ piecesFrom (size - 1) [] file, cstr piece = id piece := by
    intro piece hpiece
    apply cstr_eq_self
    intro hzero
    have hmem := List.mem_flatten_of_mem hpiece hzero
    rw [hflat] at hmem
    exact h hmem
  rw [fgets, List.map_congr_left hcstr, List.map_id, hflat, List.nil_append]

/-! ## Headers -/

inductive ConfigTextSchemaStatus
  | legacy
  | supported
  | unsupported
  | invalid
  | ioError
deriving DecidableEq

/-- The version behind the text of a header; nothing but blanks may follow. -/
def schemaVersion (digits : Bytes) : Option Nat :=
  let number := digits.takeWhile isDigit
  if number = [] ∨ decimal number > 2 ^ 32 - 1 then none
  else if (digits.dropWhile isDigit).all isTrailing then some (decimal number)
  else none

/-- The version among the lines of a file, where one may be found already; a
malformed or a second header is invalid. -/
def scanSchema (headerPrefix : Bytes) :
    Option Nat → List Bytes → Option (Option Nat)
  | found, [] => some found
  | found, line :: lines =>
      if headerPrefix <+: trimLeft line then
        if found.isSome then none
        else
          match schemaVersion ((trimLeft line).drop headerPrefix.length) with
          | some version => scanSchema headerPrefix (some version) lines
          | none => none
      else scanSchema headerPrefix found lines

def checkConfigTextSchema (headerPrefix : Bytes) (supportedVersion : Nat)
    (file : Bytes) : ConfigTextSchemaStatus :=
  match scanSchema headerPrefix none (fgets 256 file) with
  | none => .invalid
  | some none => .legacy
  | some (some version) =>
      if version ≤ supportedVersion then .supported else .unsupported

/-- The status of a file that may be missing. -/
def checkConfigTextFileSchema (headerPrefix : Bytes) (supportedVersion : Nat) :
    Option Bytes → ConfigTextSchemaStatus
  | none => .legacy
  | some file => checkConfigTextSchema headerPrefix supportedVersion file

/-- A status with which a file is neither read nor replaced. -/
def ConfigTextSchemaStatus.refused : ConfigTextSchemaStatus → Bool
  | .legacy | .supported => false
  | .unsupported | .invalid | .ioError => true

/-- Lines without a header change nothing. -/
theorem scanSchema_of_none {headerPrefix : Bytes} {lines : List Bytes}
    (h : ∀ line ∈ lines, ¬headerPrefix <+: trimLeft line)
    (found : Option Nat) : scanSchema headerPrefix found lines = some found := by
  induction lines with
  | nil => rfl
  | cons line lines ih =>
      rw [scanSchema, if_neg (h line (by simp))]
      exact ih fun other hother => h other (List.mem_cons_of_mem _ hother)

end Audiox.Config
