import Audiox.Scripting.ScriptMap
import Audiox.Support.Runs
import Mathlib

/-!
# The data of scripts

A script keeps files and settings in a directory that is named by its id.
Deleting a script retains the directory, and a new script gets an id above
those of all directories.  An entry without an id, in a map that is loaded,
gets an id that is only free in the map.

Every datum carries its writer, so that it can be told whether a script finds
data of another one.
-/

namespace Audiox.Scripting

open ByteCodec Runs

/-! ## Storage -/

def SCRIPT_STORAGE_FILE_MAX : Nat := 4096
def SCRIPT_STORAGE_NAME_MAX : Nat := 63
def SCRIPT_STATE_KEY_MAX : Nat := 31
def UINT32_MAX : Nat := 2 ^ 32 - 1

structure StoredDatum where
  name : Bytes
  setting : Bool
  content : Bytes
  writer : Origin
deriving DecidableEq

structure ScriptDirectory where
  id : Nat
  data : List StoredDatum
deriving DecidableEq

namespace ScriptStorage

def nameChar (c : UInt8) : Bool :=
  decide (chr 'a' ≤ c ∧ c ≤ chr 'z') || decide (chr 'A' ≤ c ∧ c ≤ chr 'Z') ||
    isDigit c || c == chr '_' || c == chr '-' || c == chr '.'

def validName (name : Bytes) : Bool :=
  name != [] && decide (name.length ≤ SCRIPT_STORAGE_NAME_MAX) &&
    name.head? != some (chr '.') && !(ascii ".." <:+: name : Bool) &&
    name.all nameChar

def openDirectory (id : Nat) (directories : List ScriptDirectory) :
    List ScriptDirectory :=
  if directories.any (·.id == id) then directories
  else directories ++ [⟨id, []⟩]

/-- Changes what a directory keeps under a name. -/
def replace (id : Nat) (name : Bytes) (setting : Bool)
    (datum : Option StoredDatum) (directories : List ScriptDirectory) :
    List ScriptDirectory :=
  directories.map fun d =>
    if d.id = id then
      { d with
        data := d.data.filter (fun old =>
          !(old.name == name && old.setting == setting)) ++ datum.toList }
    else d

/-- The limits of the directory, and the file system, may refuse what is
written; then the directory is there all the same. -/
def writeFile (id : Nat) (name content : Bytes) (writer : Origin)
    (admitted : Bool) (directories : List ScriptDirectory) :
    List ScriptDirectory :=
  if validName name = true ∧ content.length ≤ SCRIPT_STORAGE_FILE_MAX then
    if admitted then
      replace id name false (some ⟨name, false, content, writer⟩)
        (openDirectory id directories)
    else openDirectory id directories
  else directories

def removeFile (id : Nat) (name : Bytes) (directories : List ScriptDirectory) :
    List ScriptDirectory :=
  if validName name = true then replace id name false none directories
  else directories

def setSetting (id : Nat) (key content : Bytes) (remove : Bool)
    (writer : Origin) (admitted : Bool)
    (directories : List ScriptDirectory) : List ScriptDirectory :=
  if key ≠ [] ∧ key.length ≤ SCRIPT_STATE_KEY_MAX then
    if admitted then
      replace id key true
        (if remove then none else some ⟨key, true, content, writer⟩)
        (openDirectory id directories)
    else openDirectory id directories
  else directories

/-- An id that is at least `minimum` and above those of all directories. -/
def nextId (minimum : Nat) (directories : List ScriptDirectory) : Option Nat :=
  if directories.length > 65536 then none
  else if directories.foldl (fun candidate d =>
      if d.id ≥ candidate then d.id + 1 else candidate) minimum >
        UINT32_MAX then none
  else
    some (directories.foldl (fun candidate d =>
      if d.id ≥ candidate then d.id + 1 else candidate) minimum)

theorem le_foldl_candidate {directories : List ScriptDirectory} :
    ∀ {minimum : Nat},
      minimum ≤ directories.foldl (fun candidate d =>
        if d.id ≥ candidate then d.id + 1 else candidate) minimum ∧
      ∀ d ∈ directories, d.id < directories.foldl (fun candidate d =>
        if d.id ≥ candidate then d.id + 1 else candidate) minimum := by
  induction directories with
  | nil =>
      intro minimum
      exact ⟨Nat.le_refl _, by simp⟩
  | cons first rest ih =>
      intro minimum
      rw [List.foldl_cons]
      have hfirst : minimum ≤ (if first.id ≥ minimum then first.id + 1
          else minimum) ∧ first.id < (if first.id ≥ minimum then first.id + 1
          else minimum) := by
        split_ifs with h
        · omega
        · omega
      obtain ⟨hle, hall⟩ := @ih
        (if first.id ≥ minimum then first.id + 1 else minimum)
      refine ⟨hfirst.1.trans hle, ?_⟩
      intro d hd
      rcases List.mem_cons.mp hd with rfl | hd
      · exact hfirst.2.trans_le hle
      · exact hall d hd

theorem nextId_spec {minimum id : Nat} {directories : List ScriptDirectory}
    (h : nextId minimum directories = some id) :
    minimum ≤ id ∧ ∀ d ∈ directories, d.id < id := by
  rw [nextId] at h
  split_ifs at h
  obtain rfl := Option.some.inj h
  exact le_foldl_candidate

/-- Every datum was written by the owner of its directory. -/
def WrittenBy (owner : Nat → Origin) (directories : List ScriptDirectory) :
    Prop :=
  ∀ d ∈ directories, ∀ datum ∈ d.data, datum.writer = owner d.id

section Writes

variable {owner : Nat → Origin} {directories : List ScriptDirectory} {id : Nat}

theorem WrittenBy.openDirectory (h : WrittenBy owner directories) :
    WrittenBy owner (openDirectory id directories) := by
  rw [ScriptStorage.openDirectory]
  split_ifs
  · exact h
  · intro d hd datum hdatum
    rcases List.mem_append.mp hd with hd | hd
    · exact h d hd datum hdatum
    · obtain rfl := List.mem_singleton.mp hd
      exact absurd hdatum List.not_mem_nil

theorem WrittenBy.replace (h : WrittenBy owner directories) {name : Bytes}
    {setting : Bool} {datum : Option StoredDatum}
    (hdatum : ∀ new ∈ datum, new.writer = owner id) :
    WrittenBy owner (replace id name setting datum directories) := by
  intro d hd old hold
  obtain ⟨before, hbefore, rfl⟩ := List.mem_map.mp hd
  split_ifs at hold ⊢ with hid
  · rcases List.mem_append.mp hold with hold | hold
    · exact h before hbefore old (List.mem_of_mem_filter hold)
    · rw [Option.mem_toList] at hold
      simp only [hid]
      exact hdatum old hold
  · exact h before hbefore old hold

theorem WrittenBy.writeFile (h : WrittenBy owner directories)
    {name content : Bytes} {writer : Origin} {admitted : Bool}
    (hwriter : writer = owner id) :
    WrittenBy owner
      (writeFile id name content writer admitted directories) := by
  rw [ScriptStorage.writeFile]
  split_ifs
  · refine h.openDirectory.replace ?_
    intro new hnew
    obtain rfl := Option.some.inj hnew
    exact hwriter
  · exact h.openDirectory
  · exact h

theorem WrittenBy.removeFile (h : WrittenBy owner directories)
    {name : Bytes} : WrittenBy owner (removeFile id name directories) := by
  rw [ScriptStorage.removeFile]
  split_ifs
  · exact h.replace (by simp)
  · exact h

theorem WrittenBy.setSetting (h : WrittenBy owner directories)
    {key content : Bytes} {remove admitted : Bool} {writer : Origin}
    (hwriter : writer = owner id) :
    WrittenBy owner
      (setSetting id key content remove writer admitted directories) := by
  rw [ScriptStorage.setSetting]
  split_ifs
  · refine h.openDirectory.replace ?_
    intro new hnew
    cases hnew
  · refine h.openDirectory.replace ?_
    intro new hnew
    obtain rfl := Option.some.inj hnew
    exact hwriter
  · exact h.openDirectory
  · exact h

end Writes

end ScriptStorage

end Audiox.Scripting
