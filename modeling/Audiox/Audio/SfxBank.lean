import Audiox.Audio.WavFile
import Audiox.Support.Runs
import Audiox.Support.SlotTable
import Mathlib

/-!
# The sound bank

`reloadSfxBank` goes through the sound directory once.  A file that the bank
holds is loaded into its slot again, another one into the first free slot, and
the slots of files that are gone are released at the end.  Until then they take
room from the files that are new.
-/

namespace Audiox.SfxBank

open ByteCodec Config SlotTable

def audioSfxSlotCount : Nat := 64

abbrev Slots : Type := Fin audioSfxSlotCount → AudioSfxClipSlot

/-- The files by their paths, and the references to the slots. -/
structure SfxEnv where
  maxFrames : Nat
  file : Bytes → Option Bytes
  sfxSlotRefs : Fin audioSfxSlotCount → Nat

structure Reload where
  slots : Slots
  seen : Fin audioSfxSlotCount → Bool
  rcOverall : Ret

def sfxPath (name : Bytes) : Bytes := ascii "/audiox/sfx" ++ chr '/' :: name

/-- The names that `reloadSfxBank` looks at. -/
def isSoundName (name : Bytes) : Bool :=
  name ≠ [] ∧ name ≠ ascii "." ∧ name ≠ ascii ".." ∧ 5 ≤ name.length ∧
    name.drop (name.length - 4) = ascii ".wav"

def AudioSfxClipSlot.holds (basename : Bytes) (slot : AudioSfxClipSlot) :
    Bool :=
  slot.loaded ∧ slot.name ≠ [] ∧ slot.name = basename

def findLoadedSfxSlot (slots : Slots) (basename : Bytes) :
    Option (Fin audioSfxSlotCount) :=
  if basename = [] then none
  else first (AudioSfxClipSlot.holds basename) slots

def findFreeSlot (env : SfxEnv) (slots : Slots) :
    Option (Fin audioSfxSlotCount) :=
  first (fun slot : AudioSfxClipSlot × Nat => !slot.1.loaded && slot.2 = 0)
    fun i => (slots i, env.sfxSlotRefs i)

def SfxEnv.load (env : SfxEnv) (name : Bytes) : Ret × AudioSfxClipSlot :=
  loadPcm16WavFile env.maxFrames (env.file (sfxPath name)) name emptySlot

def Reload.loadInto (env : SfxEnv) (name : Bytes)
    (targetSlot : Fin audioSfxSlotCount) (s : Reload) : Reload :=
  if 256 ≤ (sfxPath name).length then { s with rcOverall := .warn }
  else
    match (env.load name).1 with
    | .ok =>
        { s with
          slots := Function.update s.slots targetSlot (env.load name).2
          seen := Function.update s.seen targetSlot true }
    | .warn => { s with rcOverall := .warn }
    | .err => { s with rcOverall := .err }

/-- One turn of the loop over the directory. -/
def reloadEntry (env : SfxEnv) (s : Reload) (name : Bytes) : Reload :=
  if isSoundName name = false then s
  else
    match findLoadedSfxSlot s.slots name with
    | some existing =>
        if 0 < env.sfxSlotRefs existing then
          { s with seen := Function.update s.seen existing true }
        else
          Reload.loadInto env name existing
            { s with slots := Function.update s.slots existing emptySlot }
    | none =>
        match findFreeSlot env s.slots with
        | none => { s with rcOverall := .warn }
        | some targetSlot => s.loadInto env name targetSlot

/-- The loop over the slots behind it. -/
def Reload.releaseUnseen (env : SfxEnv) (s : Reload) : Slots := fun i =>
  if (s.slots i).loaded = false then s.slots i
  else if s.seen i then s.slots i
  else if 0 < env.sfxSlotRefs i then s.slots i
  else emptySlot

def startReload (slots : Slots) : Reload := ⟨slots, fun _ => false, .ok⟩

/-- `dir` is `none` if the directory cannot be opened. -/
def reloadSfxBank (env : SfxEnv) (dir : Option (List Bytes)) (slots : Slots) :
    Ret × Slots :=
  match dir with
  | none => (.warn, slots)
  | some names =>
      ((names.foldl (reloadEntry env) (startReload slots)).rcOverall,
        (names.foldl (reloadEntry env) (startReload slots)).releaseUnseen env)

/-! ## What is meant -/

/-- A sound file that loads. -/
def Loads (env : SfxEnv) (name : Bytes) : Prop :=
  isSoundName name = true ∧ (sfxPath name).length < 256 ∧
    (env.load name).1 = .ok

instance (env : SfxEnv) (name : Bytes) : Decidable (Loads env name) := by
  unfold Loads
  infer_instance

/-- A sound file that loads, with a name that fits a slot. -/
def Loadable (env : SfxEnv) (name : Bytes) : Prop :=
  Loads env name ∧ name.length < midiSfxPathMax

instance (env : SfxEnv) (name : Bytes) : Decidable (Loadable env name) := by
  unfold Loadable
  infer_instance

/-- The loaded slots hold the files that load, each once, as they are. -/
def Complete (env : SfxEnv) (names : List Bytes) (slots : Slots) : Prop :=
  (((List.finRange audioSfxSlotCount).map slots).filter
      AudioSfxClipSlot.loaded).Perm
    ((names.filter fun name => Loadable env name).map fun name =>
      (env.load name).2)

def InBank (slots : Slots) (name : Bytes) : Prop :=
  ∃ i, (slots i).loaded = true ∧ (slots i).name = name

instance (slots : Slots) (name : Bytes) : Decidable (InBank slots name) := by
  unfold InBank
  infer_instance

def loadedCount (slots : Slots) : Nat :=
  count AudioSfxClipSlot.loaded slots

/-- The files that load and are new to the bank. -/
def freshCount (env : SfxEnv) (slots : Slots) (names : List Bytes) : Nat :=
  names.countP fun name => Loadable env name ∧ ¬InBank slots name

/-- The files of the bank that do not load any more. -/
def failedCount (env : SfxEnv) (slots : Slots) (names : List Bytes) : Nat :=
  names.countP fun name =>
    isSoundName name = true ∧ ¬Loads env name ∧ InBank slots name

/-- Behind `names`, there is a free slot for a file that loads and is new to
the bank, and none for one whose name does not fit. -/
def RoomFor (env : SfxEnv) (slots : Slots) (names : List Bytes)
    (name : Bytes) : Prop :=
  Loads env name →
    (name.length < midiSfxPathMax → ¬InBank slots name →
      loadedCount slots + freshCount env slots names <
        audioSfxSlotCount + failedCount env slots names) ∧
    (midiSfxPathMax ≤ name.length →
      audioSfxSlotCount + failedCount env slots names ≤
        loadedCount slots + freshCount env slots names)

/-- There is room for each file when the directory comes to it. -/
def HasRoom (env : SfxEnv) (slots : Slots) (names : List Bytes) : Prop :=
  ∀ (before : List Bytes) (name : Bytes) (rest : List Bytes),
    names = before ++ name :: rest → RoomFor env slots before name

/-- The cut name of a file that loads is not the cut name of another one. -/
def CutNamesDiffer (env : SfxEnv) (names : List Bytes) : Prop :=
  ∀ name ∈ names, Loads env name → midiSfxPathMax ≤ name.length →
    ∀ other ∈ names, isSoundName other = true → other ≠ name →
      copyBounded midiSfxPathMax other ≠ copyBounded midiSfxPathMax name

/-! ## One entry -/

theorem ne_nil_of_isSoundName {name : Bytes} (h : isSoundName name = true) :
    name ≠ [] :=
  (of_decide_eq_true h).1

/-- A file that loads gives a slot with its name. -/
theorem load_of_loads {env : SfxEnv} {name : Bytes} (h : Loads env name) :
    (env.load name).2.loaded = true ∧
      (env.load name).2.name = copyBounded midiSfxPathMax name := by
  obtain ⟨hsound, _, hok⟩ := h
  have hname := ne_nil_of_isSoundName hsound
  rw [SfxEnv.load] at hok ⊢
  cases hfile : env.file (sfxPath name) with
  | none =>
      rw [hfile, loadPcm16WavFile, if_neg hname] at hok
      cases hok
  | some file =>
      rw [hfile] at hok
      rcases @load_cases env.maxFrames file name hname emptySlot with
        ⟨s, _, _, hload⟩ | ⟨_, hload⟩
      · rw [hload]
        exact ⟨rfl, rfl⟩
      · rw [hload] at hok
        cases hok

section

variable {env : SfxEnv} {s : Reload} {name : Bytes}
  {i : Fin audioSfxSlotCount}

theorem loadInto_of_loads (h : Loads env name) :
    (s.loadInto env name i).slots =
        Function.update s.slots i (env.load name).2 ∧
      (s.loadInto env name i).seen = Function.update s.seen i true := by
  obtain ⟨_, hpath, hok⟩ := h
  rw [Reload.loadInto, if_neg (not_le.mpr hpath), hok]
  exact ⟨rfl, rfl⟩

theorem loadInto_of_not_loads (hsound : isSoundName name = true)
    (h : ¬Loads env name) :
    (s.loadInto env name i).slots = s.slots ∧
      (s.loadInto env name i).seen = s.seen := by
  rw [Reload.loadInto]
  split
  case isTrue => exact ⟨rfl, rfl⟩
  case isFalse hpath =>
    split
    case h_1 hok => exact absurd ⟨hsound, not_le.mp hpath, hok⟩ h
    case h_2 => exact ⟨rfl, rfl⟩
    case h_3 => exact ⟨rfl, rfl⟩

/-- What an entry of the directory does to the slots. -/
inductive Turn (env : SfxEnv) (name : Bytes) (s s' : Reload) : Prop where
  /-- it is no sound, does not load, or there is no room -/
  | passed
      (why : isSoundName name = false ∨
        (findLoadedSfxSlot s.slots name = none ∧
          (Loads env name → ∀ i, (s.slots i).loaded = true)))
      (slots : s'.slots = s.slots) (seen : s'.seen = s.seen)
  | replaced (i : Fin audioSfxSlotCount)
      (existing : (s.slots i).loaded = true ∧ (s.slots i).name = name)
      (loads : Loads env name)
      (slots : s'.slots = Function.update s.slots i (env.load name).2)
      (seen : s'.seen = Function.update s.seen i true)
  | cleared (i : Fin audioSfxSlotCount)
      (existing : (s.slots i).loaded = true ∧ (s.slots i).name = name)
      (sound : isSoundName name = true) (fails : ¬Loads env name)
      (slots : s'.slots = Function.update s.slots i emptySlot)
      (seen : s'.seen = s.seen)
  | added (i : Fin audioSfxSlotCount)
      (absent : findLoadedSfxSlot s.slots name = none)
      (free : (s.slots i).loaded = false) (loads : Loads env name)
      (slots : s'.slots = Function.update s.slots i (env.load name).2)
      (seen : s'.seen = Function.update s.seen i true)

theorem findLoadedSfxSlot_some {slots : Slots}
    (h : findLoadedSfxSlot slots name = some i) :
    (slots i).loaded = true ∧ (slots i).name = name := by
  rw [findLoadedSfxSlot] at h
  split at h
  · cases h
  · have hholds := first_some h
    rw [AudioSfxClipSlot.holds, decide_eq_true_iff] at hholds
    exact ⟨hholds.1, hholds.2.2⟩

theorem findLoadedSfxSlot_none {slots : Slots} (hname : name ≠ []) :
    findLoadedSfxSlot slots name = none ↔ ¬InBank slots name := by
  rw [findLoadedSfxSlot, if_neg hname, first_eq_none_iff, InBank, not_exists]
  refine forall_congr' fun i => ?_
  rw [AudioSfxClipSlot.holds, decide_eq_false_iff_not]
  refine not_congr ⟨fun h => ⟨h.1, h.2.2⟩, fun h => ⟨h.1, ?_, h.2⟩⟩
  rw [h.2]
  exact hname

/-- With no references, every entry takes one of these turns. -/
theorem reloadEntry_turn (hidle : ∀ i, env.sfxSlotRefs i = 0) (s : Reload)
    (name : Bytes) : Turn env name s (reloadEntry env s name) := by
  rw [reloadEntry]
  by_cases hsound : isSoundName name = false
  · rw [if_pos hsound]
    exact .passed (.inl hsound) rfl rfl
  · rw [if_neg hsound]
    have hsound : isSoundName name = true := by simpa using hsound
    cases hfound : findLoadedSfxSlot s.slots name with
    | some existing =>
        have hholds := findLoadedSfxSlot_some hfound
        simp only [hidle, lt_self_iff_false, if_false]
        by_cases hloads : Loads env name
        · obtain ⟨hslots, hseen⟩ := loadInto_of_loads hloads
          refine .replaced existing hholds hloads (hslots.trans ?_) hseen
          exact Function.update_idem _ _ _
        · obtain ⟨hslots, hseen⟩ := loadInto_of_not_loads hsound hloads
          exact .cleared existing hholds hsound hloads hslots hseen
    | none =>
        cases hfree : findFreeSlot env s.slots with
        | none =>
            refine .passed (.inr ⟨hfound, fun _ i => ?_⟩) rfl rfl
            have htaken := first_eq_none_iff.mp hfree i
            simpa [hidle] using htaken
        | some targetSlot =>
            have htarget := first_some hfree
            have hempty : (s.slots targetSlot).loaded = false := by
              simpa [hidle] using htarget
            by_cases hloads : Loads env name
            · obtain ⟨hslots, hseen⟩ := loadInto_of_loads hloads
              exact .added targetSlot hfound hempty hloads hslots hseen
            · obtain ⟨hslots, hseen⟩ := loadInto_of_not_loads hsound hloads
              exact .passed (.inr ⟨hfound, fun h => absurd h hloads⟩) hslots
                hseen

end

/-! ## The loop with room -/

section

variable {env : SfxEnv} {bank : Slots} {names : List Bytes} {s s' : Reload}
  {name : Bytes}

/-- The bank behind `names`, where there was room for each of them. -/
structure Good (env : SfxEnv) (bank : Slots) (names : List Bytes)
    (s : Reload) : Prop where
  loaded : ∀ name ∈ names, Loadable env name →
    ∃ i, s.seen i = true ∧ s.slots i = (env.load name).2
  ofSeen : ∀ i, s.seen i = true →
    ∃ name ∈ names, Loadable env name ∧ s.slots i = (env.load name).2
  once : ∀ i j, s.seen i = true → s.seen j = true →
    (s.slots i).name = (s.slots j).name → i = j
  unseen : ∀ i, s.seen i = false → (s.slots i).loaded = true →
    s.slots i = bank i
  kept : ∀ i, (bank i).loaded = true → (bank i).name ∉ names →
    s.slots i = bank i ∧ s.seen i = false
  room : loadedCount s.slots + failedCount env bank names =
    loadedCount bank + freshCount env bank names

theorem freshCount_concat (names : List Bytes) (name : Bytes) :
    freshCount env bank (names ++ [name]) = freshCount env bank names +
      if Loadable env name ∧ ¬InBank bank name then 1 else 0 := by
  rw [freshCount, List.countP_append, List.countP_singleton]
  simp only [decide_eq_true_eq]
  rfl

theorem failedCount_concat (names : List Bytes) (name : Bytes) :
    failedCount env bank (names ++ [name]) = failedCount env bank names +
      if isSoundName name = true ∧ ¬Loads env name ∧ InBank bank name then 1
      else 0 := by
  rw [failedCount, List.countP_append, List.countP_singleton]
  simp only [decide_eq_true_eq]
  rfl

theorem good_start : Good env bank [] (startReload bank) where
  loaded := by simp
  ofSeen := by simp [startReload]
  once := by simp [startReload]
  unseen := fun _ _ _ => rfl
  kept := fun _ _ _ => ⟨rfl, rfl⟩
  room := rfl

theorem name_of_loadable (h : Loadable env name) :
    (env.load name).2.name = name :=
  (load_of_loads h.1).2.trans (copyBounded_eq_self h.2)

/-- The name of a slot that was seen is that of an entry so far. -/
theorem Good.name_mem (h : Good env bank names s) {i : Fin audioSfxSlotCount}
    (hseen : s.seen i = true) : (s.slots i).name ∈ names := by
  obtain ⟨name, hname, hloadable, hslot⟩ := h.ofSeen i hseen
  rw [hslot, name_of_loadable hloadable]
  exact hname

/-- A slot with the name of the next entry is one of the bank. -/
theorem Good.existing (h : Good env bank names s) (hnew : name ∉ names)
    {i : Fin audioSfxSlotCount}
    (hholds : (s.slots i).loaded = true ∧ (s.slots i).name = name) :
    s.seen i = false ∧ s.slots i = bank i := by
  have hseen : s.seen i = false := by
    by_contra hne
    have hmem := h.name_mem (by simpa using hne)
    rw [hholds.2] at hmem
    exact hnew hmem
  exact ⟨hseen, h.unseen i hseen hholds.1⟩

theorem Good.inBank_iff (h : Good env bank names s) (hnew : name ∉ names) :
    InBank s.slots name ↔ InBank bank name := by
  constructor
  · rintro ⟨i, hholds⟩
    rw [(h.existing hnew hholds).2] at hholds
    exact ⟨i, hholds⟩
  · rintro ⟨i, hloaded, hname⟩
    refine ⟨i, ?_⟩
    rw [(h.kept i hloaded (by rw [hname]; exact hnew)).1]
    exact ⟨hloaded, hname⟩

/-- Entries that are not looked at, or do not load, have no part in it. -/
theorem Good.skip (h : Good env bank names s)
    (hslots : s'.slots = s.slots) (hseen : s'.seen = s.seen)
    (hnot : ¬Loadable env name)
    (hcount : ¬(isSoundName name = true ∧ ¬Loads env name ∧
      InBank bank name)) :
    Good env bank (names ++ [name]) s' where
  loaded := by
    intro other hother hloadable
    rw [hslots, hseen]
    rcases List.mem_append.mp hother with hold | hlast
    · exact h.loaded other hold hloadable
    · rw [List.mem_singleton.mp hlast] at hloadable
      exact absurd hloadable hnot
  ofSeen := by
    intro i hi
    rw [hseen] at hi
    obtain ⟨other, hother, hrest⟩ := h.ofSeen i hi
    rw [hslots]
    exact ⟨other, List.mem_append_left _ hother, hrest⟩
  once := by
    rw [hslots, hseen]
    exact h.once
  unseen := by
    rw [hslots, hseen]
    exact h.unseen
  kept := by
    intro i hloaded hname
    rw [hslots, hseen]
    exact h.kept i hloaded fun hmem => hname (List.mem_append_left _ hmem)
  room := by
    rw [hslots, freshCount_concat, failedCount_concat, if_neg hcount,
      if_neg fun hfresh => hnot hfresh.1]
    exact h.room

/-- A file that loads is put into a slot that was not seen. -/
theorem Good.put (h : Good env bank names s) (hnew : name ∉ names)
    (hloadable : Loadable env name) {i : Fin audioSfxSlotCount}
    (hunseen : s.seen i = false)
    (hfree : (s.slots i).loaded = true → (s.slots i).name = name)
    (hslots : s'.slots = Function.update s.slots i (env.load name).2)
    (hseen : s'.seen = Function.update s.seen i true)
    (hroom : (InBank bank name ↔ (s.slots i).loaded = true)) :
    Good env bank (names ++ [name]) s' where
  loaded := by
    intro other hother hload
    rw [hslots, hseen]
    rcases List.mem_append.mp hother with hold | hlast
    · obtain ⟨j, hj, hslot⟩ := h.loaded other hold hload
      have hne : j ≠ i := by
        rintro rfl
        rw [hunseen] at hj
        cases hj
      refine ⟨j, ?_, ?_⟩
      · rw [Function.update_of_ne hne]
        exact hj
      · rw [Function.update_of_ne hne]
        exact hslot
    · rw [List.mem_singleton.mp hlast]
      exact ⟨i, Function.update_self _ _ _, Function.update_self _ _ _⟩
  ofSeen := by
    intro j hj
    rw [hseen] at hj
    rw [hslots]
    by_cases hne : j = i
    · subst hne
      exact ⟨name, by simp, hloadable, Function.update_self _ _ _⟩
    · rw [Function.update_of_ne hne] at hj ⊢
      obtain ⟨other, hother, hrest⟩ := h.ofSeen j hj
      exact ⟨other, List.mem_append_left _ hother, hrest⟩
  once := by
    have hother : ∀ j, j ≠ i → s.seen j = true → (s.slots j).name ≠ name := by
      intro j _ hj hname
      have hmem := h.name_mem hj
      rw [hname] at hmem
      exact hnew hmem
    intro j k hj hk hname
    rw [hseen] at hj hk
    rw [hslots] at hname
    by_cases hji : j = i
    · by_cases hki : k = i
      · rw [hji, hki]
      · rw [Function.update_of_ne hki] at hk hname
        rw [hji, Function.update_self, name_of_loadable hloadable] at hname
        exact absurd hname.symm (hother k hki hk)
    · rw [Function.update_of_ne hji] at hj hname
      by_cases hki : k = i
      · rw [hki, Function.update_self, name_of_loadable hloadable] at hname
        exact absurd hname (hother j hji hj)
      · rw [Function.update_of_ne hki] at hk hname
        exact h.once j k hj hk hname
  unseen := by
    intro j hj hloaded
    rw [hseen] at hj
    rw [hslots] at hloaded ⊢
    have hne : j ≠ i := by
      rintro rfl
      rw [Function.update_self] at hj
      cases hj
    rw [Function.update_of_ne hne] at hj hloaded ⊢
    exact h.unseen j hj hloaded
  kept := by
    intro j hloaded hname
    rw [List.mem_append, List.mem_singleton, not_or] at hname
    obtain ⟨hslot, hj⟩ := h.kept j hloaded hname.1
    have hne : j ≠ i := by
      rintro rfl
      rw [hslot] at hfree
      exact hname.2 (hfree hloaded)
    rw [hslots, hseen, Function.update_of_ne hne, Function.update_of_ne hne]
    exact ⟨hslot, hj⟩
  room := by
    have hcount := @count_update _ _ AudioSfxClipSlot.loaded s.slots i
      (env.load name).2
    have hroom' := h.room
    rw [(load_of_loads hloadable.1).1, if_pos rfl] at hcount
    rw [hslots, freshCount_concat, failedCount_concat,
      if_neg fun hfailed => hfailed.2.1 hloadable.1]
    simp only [loadedCount] at hroom' ⊢
    by_cases hin : InBank bank name
    · rw [if_pos (hroom.mp hin)] at hcount
      rw [if_neg fun hfresh => hfresh.2 hin]
      omega
    · rw [if_neg (hroom.not.mp hin)] at hcount
      rw [if_pos ⟨hloadable, hin⟩]
      omega

/-- The slot of a file that does not load any more is cleared. -/
theorem Good.clear (h : Good env bank names s)
    (hsound : isSoundName name = true) (hfails : ¬Loads env name)
    {i : Fin audioSfxSlotCount} (hunseen : s.seen i = false)
    (hholds : (s.slots i).loaded = true ∧ (s.slots i).name = name)
    (hbank : s.slots i = bank i)
    (hslots : s'.slots = Function.update s.slots i emptySlot)
    (hseen : s'.seen = s.seen) :
    Good env bank (names ++ [name]) s' where
  loaded := by
    intro other hother hload
    rw [hslots, hseen]
    rcases List.mem_append.mp hother with hold | hlast
    · obtain ⟨j, hj, hslot⟩ := h.loaded other hold hload
      have hne : j ≠ i := by
        rintro rfl
        rw [hunseen] at hj
        cases hj
      refine ⟨j, hj, ?_⟩
      rw [Function.update_of_ne hne]
      exact hslot
    · rw [List.mem_singleton.mp hlast] at hload
      exact absurd hload.1 hfails
  ofSeen := by
    intro j hj
    rw [hseen] at hj
    have hne : j ≠ i := by
      rintro rfl
      rw [hunseen] at hj
      cases hj
    rw [hslots, Function.update_of_ne hne]
    obtain ⟨other, hother, hrest⟩ := h.ofSeen j hj
    exact ⟨other, List.mem_append_left _ hother, hrest⟩
  once := by
    intro j k hj hk hname
    rw [hseen] at hj hk
    have hne : ∀ l, s.seen l = true → l ≠ i := by
      rintro l hl rfl
      rw [hunseen] at hl
      cases hl
    rw [hslots, Function.update_of_ne (hne j hj),
      Function.update_of_ne (hne k hk)] at hname
    exact h.once j k hj hk hname
  unseen := by
    intro j hj hloaded
    rw [hseen] at hj
    rw [hslots] at hloaded ⊢
    have hne : j ≠ i := by
      rintro rfl
      rw [Function.update_self] at hloaded
      cases hloaded
    rw [Function.update_of_ne hne] at hloaded ⊢
    exact h.unseen j hj hloaded
  kept := by
    intro j hloaded hname
    rw [List.mem_append, List.mem_singleton, not_or] at hname
    have hne : j ≠ i := by
      rintro rfl
      rw [← hbank] at hname
      exact hname.2 hholds.2
    rw [hslots, hseen, Function.update_of_ne hne]
    exact h.kept j hloaded hname.1
  room := by
    have hin : InBank bank name := ⟨i, by rw [← hbank]; exact hholds⟩
    have hcount := @count_update _ _ AudioSfxClipSlot.loaded s.slots i
      emptySlot
    have hroom := h.room
    rw [hholds.1, if_pos rfl, if_neg (by decide)] at hcount
    rw [hslots, freshCount_concat, failedCount_concat,
      if_pos ⟨hsound, hfails, hin⟩, if_neg fun hfresh => hfresh.2 hin]
    simp only [loadedCount] at hroom ⊢
    omega

theorem Good.inBank_of_find (h : Good env bank names s) (hnew : name ∉ names)
    (hsound : isSoundName name = true)
    (hnone : findLoadedSfxSlot s.slots name = none) : ¬InBank bank name := by
  rw [← h.inBank_iff hnew]
  exact (findLoadedSfxSlot_none (ne_nil_of_isSoundName hsound)).mp hnone

/-- The number of loaded slots is the one that the room is told by. -/
theorem Good.free_iff (h : Good env bank names s) :
    loadedCount bank + freshCount env bank names <
        audioSfxSlotCount + failedCount env bank names ↔
      ∃ i, (s.slots i).loaded = false := by
  have hcount := @count_lt_iff _ _ AudioSfxClipSlot.loaded s.slots
  have hroom := h.room
  rw [← hcount]
  simp only [loadedCount] at hroom ⊢
  omega

/-- An entry that there is room for. -/
theorem Good.turn (h : Good env bank names s)
    (hfit : ∀ i, (bank i).name.length < midiSfxPathMax)
    (hnew : name ∉ names) (hroom : RoomFor env bank names name)
    (hturn : Turn env name s s') : Good env bank (names ++ [name]) s' := by
  cases hturn with
  | passed why slots seen =>
      by_cases hsound : isSoundName name = true
      · obtain ⟨hnone, hfull⟩ := why.resolve_left (by simp [hsound])
        have hout := h.inBank_of_find hnew hsound hnone
        refine h.skip slots seen ?_ fun hcount => hout hcount.2.2
        intro hloadable
        obtain ⟨i, hi⟩ := h.free_iff.mp
          ((hroom hloadable.1).1 hloadable.2 hout)
        rw [hfull hloadable.1 i] at hi
        cases hi
      · exact h.skip slots seen (fun hload => hsound hload.1.1)
          fun hcount => hsound hcount.1
  | replaced i existing loads slots seen =>
      obtain ⟨hunseen, hbank⟩ := h.existing hnew existing
      have hshort : name.length < midiSfxPathMax := by
        rw [← existing.2, hbank]
        exact hfit i
      refine h.put hnew ⟨loads, hshort⟩ hunseen (fun _ => existing.2) slots
        seen ?_
      rw [hbank] at existing
      rw [hbank]
      exact iff_of_true ⟨i, existing⟩ existing.1
  | cleared i existing sound fails slots seen =>
      obtain ⟨hunseen, hbank⟩ := h.existing hnew existing
      exact h.clear sound fails hunseen existing hbank slots seen
  | added i absent free loads slots seen =>
      have hout := h.inBank_of_find hnew loads.1 absent
      have hshort : name.length < midiSfxPathMax := by
        by_contra hlong
        have hfull := (hroom loads).2 (not_lt.mp hlong)
        exact absurd (h.free_iff.mpr ⟨i, free⟩) (not_lt.mpr hfull)
      have hnotLoaded : ¬(s.slots i).loaded = true := by simp [free]
      have hunseen : s.seen i = false := by
        by_contra hne
        obtain ⟨other, _, hload, hslot⟩ := h.ofSeen i (by simpa using hne)
        rw [hslot, (load_of_loads hload.1).1] at hnotLoaded
        exact hnotLoaded rfl
      exact h.put hnew ⟨loads, hshort⟩ hunseen
        (fun hloaded => absurd hloaded hnotLoaded) slots seen
        (iff_of_false hout hnotLoaded)

/-- With room for each entry the loop keeps what it has loaded. -/
theorem good_foldl (hidle : ∀ i, env.sfxSlotRefs i = 0)
    (hfit : ∀ i, (bank i).name.length < midiSfxPathMax)
    (hnodup : names.Nodup) (hroom : HasRoom env bank names) :
    Good env bank names
      (names.foldl (reloadEntry env) (startReload bank)) := by
  induction names using List.reverseRecOn with
  | nil => exact good_start
  | append_singleton names name ih =>
      obtain ⟨hold, _, hdisjoint⟩ := List.nodup_append.mp hnodup
      have hnew : name ∉ names := fun hmem =>
        hdisjoint name hmem name (List.mem_singleton_self _) rfl
      have hbefore : HasRoom env bank names := by
        intro before other rest heq
        refine hroom before other (rest ++ [name]) ?_
        rw [heq, List.append_assoc]
        rfl
      rw [List.foldl_append]
      exact (ih hold hbefore).turn hfit hnew
        (hroom names name [] rfl) (reloadEntry_turn hidle _ name)

/-! ## The end of the loop -/

/-- The slots that stay loaded are those that were seen. -/
theorem releaseUnseen_loaded (hidle : ∀ i, env.sfxSlotRefs i = 0)
    (i : Fin audioSfxSlotCount) :
    (s.releaseUnseen env i).loaded = true ↔
      (s.slots i).loaded = true ∧ s.seen i = true := by
  rw [Reload.releaseUnseen]
  by_cases hloaded : (s.slots i).loaded = false
  · rw [if_pos hloaded]
    simp [hloaded]
  · rw [if_neg hloaded]
    by_cases hseen : s.seen i = true
    · rw [if_pos hseen]
      simp [hseen]
    · rw [if_neg hseen, if_neg (by simp [hidle])]
      simp [hseen, emptySlot]

theorem releaseUnseen_eq (hidle : ∀ i, env.sfxSlotRefs i = 0)
    {i : Fin audioSfxSlotCount}
    (h : (s.releaseUnseen env i).loaded = true) :
    s.releaseUnseen env i = s.slots i := by
  obtain ⟨hloaded, hseen⟩ := (releaseUnseen_loaded hidle i).mp h
  rw [Reload.releaseUnseen, if_neg (by simp [hloaded]), if_pos hseen]

theorem Good.complete (h : Good env bank names s)
    (hidle : ∀ i, env.sfxSlotRefs i = 0) (hnodup : names.Nodup) :
    Complete env names (s.releaseUnseen env) := by
  rw [Complete, List.filter_map]
  apply (List.perm_ext_iff_of_nodup _ _).mpr
  · intro slot
    simp only [List.mem_map, List.mem_filter, List.mem_finRange, true_and,
      Function.comp_apply, decide_eq_true_eq]
    constructor
    · rintro ⟨i, hi, rfl⟩
      rw [releaseUnseen_eq hidle hi]
      obtain ⟨name, hname, hloadable, hslot⟩ :=
        h.ofSeen i ((releaseUnseen_loaded hidle i).mp hi).2
      exact ⟨name, ⟨hname, hloadable⟩, hslot.symm⟩
    · rintro ⟨name, ⟨hname, hloadable⟩, rfl⟩
      obtain ⟨i, hseen, hslot⟩ := h.loaded name hname hloadable
      have hi := (@releaseUnseen_loaded env s hidle i).mpr
        ⟨by rw [hslot]; exact (load_of_loads hloadable.1).1, hseen⟩
      exact ⟨i, hi, (releaseUnseen_eq hidle hi).trans hslot⟩
  · refine List.Nodup.map_on ?_ ((List.nodup_finRange _).filter _)
    intro i hi j hj heq
    have hi := (List.mem_filter.mp hi).2
    have hj := (List.mem_filter.mp hj).2
    rw [Function.comp_apply] at hi hj
    rw [releaseUnseen_eq hidle hi, releaseUnseen_eq hidle hj] at heq
    exact h.once i j ((releaseUnseen_loaded hidle i).mp hi).2
      ((releaseUnseen_loaded hidle j).mp hj).2 (by rw [heq])
  · refine List.Nodup.map_on ?_ (hnodup.filter _)
    intro name hname other hother heq
    have hname : Loadable env name := by
      simpa using (List.mem_filter.mp hname).2
    have hother : Loadable env other := by
      simpa using (List.mem_filter.mp hother).2
    rw [← name_of_loadable hname, heq, name_of_loadable hother]

/-! ## The loop without room -/

/-- No slot holds the file. -/
def Missing (lost : Bytes) (s : Reload) : Prop :=
  ∀ i, (s.slots i).loaded = true → (s.slots i).name ≠ lost

/-- A slot was given to the file. -/
def Stray (env : SfxEnv) (stray : Bytes) (s : Reload) : Prop :=
  ∃ i, s.seen i = true ∧ s.slots i = (env.load stray).2

theorem missing_update {lost : Bytes} {i : Fin audioSfxSlotCount}
    {slot : AudioSfxClipSlot} (h : Missing lost s)
    (hslots : s'.slots = Function.update s.slots i slot)
    (hslot : slot.loaded = true → slot.name ≠ lost) : Missing lost s' := by
  intro j hloaded
  rw [hslots] at hloaded ⊢
  by_cases hj : j = i
  · rw [hj, Function.update_self] at hloaded ⊢
    exact hslot hloaded
  · rw [Function.update_of_ne hj] at hloaded ⊢
    exact h j hloaded

theorem Missing.turn {lost : Bytes} (h : Missing lost s)
    (hother : Loads env name → copyBounded midiSfxPathMax name ≠ lost)
    (hturn : Turn env name s s') : Missing lost s' := by
  cases hturn with
  | passed why slots seen =>
      rw [Missing, slots]
      exact h
  | replaced i existing loads slots seen =>
      refine missing_update h slots fun _ => ?_
      rw [(load_of_loads loads).2]
      exact hother loads
  | cleared i existing sound fails slots seen =>
      refine missing_update h slots fun hloaded => ?_
      cases hloaded
  | added i absent free loads slots seen =>
      refine missing_update h slots fun _ => ?_
      rw [(load_of_loads loads).2]
      exact hother loads

theorem Stray.turn {stray : Bytes} (h : Stray env stray s)
    (hloads : Loads env stray)
    (hother : isSoundName name = true →
      copyBounded midiSfxPathMax name ≠ copyBounded midiSfxPathMax stray)
    (hturn : Turn env name s s') : Stray env stray s' := by
  obtain ⟨k, hseen, hslot⟩ := h
  have hnamed := load_of_loads hloads
  -- a slot with the cut name is not the one that the entry finds
  have hne : ∀ i, (s.slots i).loaded = true ∧ (s.slots i).name = name →
      isSoundName name = true → k ≠ i := by
    rintro i ⟨_, hname⟩ hsound rfl
    apply hother hsound
    rw [hslot, hnamed.2] at hname
    rw [← hname, copyBounded, copyBounded, List.take_take, min_self]
  cases hturn with
  | passed why slots seen =>
      rw [Stray, slots, seen]
      exact ⟨k, hseen, hslot⟩
  | replaced i existing loads slots seen =>
      have hki := hne i existing loads.1
      rw [Stray, slots, seen]
      refine ⟨k, ?_, ?_⟩
      · rw [Function.update_of_ne hki]
        exact hseen
      · rw [Function.update_of_ne hki]
        exact hslot
  | cleared i existing sound fails slots seen =>
      have hki := hne i existing sound
      rw [Stray, slots, seen]
      refine ⟨k, hseen, ?_⟩
      rw [Function.update_of_ne hki]
      exact hslot
  | added i absent free loads slots seen =>
      have hki : k ≠ i := by
        rintro rfl
        rw [hslot, hnamed.1] at free
        cases free
      rw [Stray, slots, seen]
      refine ⟨k, ?_, ?_⟩
      · rw [Function.update_of_ne hki]
        exact hseen
      · rw [Function.update_of_ne hki]
        exact hslot

theorem foldl_keeps {P : Reload → Prop} {rest : List Bytes}
    (hstep : ∀ s, ∀ name ∈ rest, P s → P (reloadEntry env s name))
    (h : P s) : P (rest.foldl (reloadEntry env) s) := by
  induction rest generalizing s with
  | nil => exact h
  | cons name rest ih =>
      refine ih (fun s other hother =>
        hstep s other (List.mem_cons_of_mem _ hother)) ?_
      exact hstep s name List.mem_cons_self h

/-- There is room for each entry, or there is a first one without. -/
theorem hasRoom_or (env : SfxEnv) (bank : Slots) (names : List Bytes) :
    HasRoom env bank names ∨
      ∃ before name rest, names = before ++ name :: rest ∧
        HasRoom env bank before ∧ ¬RoomFor env bank before name := by
  induction names using List.reverseRecOn with
  | nil =>
      left
      intro before name rest heq
      exact absurd heq.symm (by simp)
  | append_singleton names name ih =>
      rcases ih with hroom | ⟨before, other, rest, rfl, hbefore, hnot⟩
      · by_cases hlast : RoomFor env bank names name
        · left
          intro before other rest heq
          rcases Runs.eq_concat_cases heq with
            ⟨rest', _, hnames⟩ | ⟨_, rfl, rfl⟩
          · exact hroom before other rest' hnames
          · exact hlast
        · exact .inr ⟨names, name, [], rfl, hroom, hlast⟩
      · refine .inr ⟨before, other, rest ++ [name], ?_, hbefore, hnot⟩
        rw [List.append_assoc]
        rfl

/-- A file that loads and is in no slot. -/
theorem not_complete_of_missing {lost : Bytes} (h : Missing lost s)
    (hidle : ∀ i, env.sfxSlotRefs i = 0) (hmem : lost ∈ names)
    (hloadable : Loadable env lost) :
    ¬Complete env names (s.releaseUnseen env) := by
  intro hcomplete
  have hslot := hcomplete.mem_iff.mpr (List.mem_map.mpr
    ⟨lost, List.mem_filter.mpr ⟨hmem, by simpa using hloadable⟩, rfl⟩)
  obtain ⟨hslot, hloaded⟩ := List.mem_filter.mp hslot
  obtain ⟨i, _, hi⟩ := List.mem_map.mp hslot
  rw [← hi] at hloaded
  rw [releaseUnseen_eq hidle hloaded] at hi
  apply h i ((releaseUnseen_loaded hidle i).mp hloaded).1
  rw [hi, name_of_loadable hloadable]

/-- A slot of a file whose name does not fit. -/
theorem not_complete_of_stray {stray : Bytes} (h : Stray env stray s)
    (hidle : ∀ i, env.sfxSlotRefs i = 0) (hmem : stray ∈ names)
    (hloads : Loads env stray) (hlong : midiSfxPathMax ≤ stray.length)
    (hcut : CutNamesDiffer env names) :
    ¬Complete env names (s.releaseUnseen env) := by
  intro hcomplete
  obtain ⟨k, hseen, hslot⟩ := h
  have hloaded := (@releaseUnseen_loaded env s hidle k).mpr
    ⟨by rw [hslot]; exact (load_of_loads hloads).1, hseen⟩
  have hkept := (releaseUnseen_eq hidle hloaded).trans hslot
  have hfile := hcomplete.mem_iff.mp (List.mem_filter.mpr
    ⟨List.mem_map.mpr ⟨k, List.mem_finRange k, rfl⟩, hloaded⟩)
  obtain ⟨name, hname, heq⟩ := List.mem_map.mp hfile
  obtain ⟨hnameMem, hloadable⟩ := List.mem_filter.mp hname
  have hloadable : Loadable env name := by simpa using hloadable
  have hne : name ≠ stray := by
    rintro rfl
    exact absurd hloadable.2 (not_lt.mpr hlong)
  apply hcut stray hmem hloads hlong name hnameMem hloadable.1.1 hne
  rw [copyBounded_eq_self hloadable.2, ← (load_of_loads hloads).2, ← hkept,
    ← heq, name_of_loadable hloadable]

/-- A new file that finds no free slot is in none afterwards. -/
theorem Good.missing (h : Good env bank names s) (hnew : name ∉ names)
    (hloads : Loads env name) (hout : ¬InBank bank name)
    (hfull : audioSfxSlotCount + failedCount env bank names ≤
      loadedCount bank + freshCount env bank names)
    (hturn : Turn env name s s') : Missing name s' := by
  have habsent : ¬InBank s.slots name := (h.inBank_iff hnew).not.mpr hout
  cases hturn with
  | passed why slots seen =>
      intro i hloaded hname
      rw [slots] at hloaded hname
      exact habsent ⟨i, hloaded, hname⟩
  | replaced i existing loads slots seen => exact absurd ⟨i, existing⟩ habsent
  | cleared i existing sound fails slots seen => exact absurd hloads fails
  | added i absent free loads slots seen =>
      exact absurd (h.free_iff.mpr ⟨i, free⟩) (not_lt.mpr hfull)

/-- A file whose name does not fit is given a free slot. -/
theorem Good.stray (h : Good env bank names s)
    (hfit : ∀ i, (bank i).name.length < midiSfxPathMax)
    (hnew : name ∉ names) (hloads : Loads env name)
    (hlong : midiSfxPathMax ≤ name.length)
    (hfree : loadedCount bank + freshCount env bank names <
      audioSfxSlotCount + failedCount env bank names)
    (hturn : Turn env name s s') : Stray env name s' := by
  cases hturn with
  | passed why slots seen =>
      obtain ⟨_, hfull⟩ := why.resolve_left (by simp [hloads.1])
      obtain ⟨i, hi⟩ := h.free_iff.mp hfree
      rw [hfull hloads i] at hi
      cases hi
  | replaced i existing loads slots seen =>
      have hshort := hfit i
      rw [← (h.existing hnew existing).2, existing.2] at hshort
      exact absurd hshort (not_lt.mpr hlong)
  | cleared i existing sound fails slots seen => exact absurd hloads fails
  | added i absent free loads slots seen =>
      refine ⟨i, ?_, ?_⟩
      · rw [seen, Function.update_self]
      · rw [slots, Function.update_self]

/-- The first entry without room spoils the bank. -/
theorem not_complete_of_not_roomFor {before rest : List Bytes}
    (hidle : ∀ i, env.sfxSlotRefs i = 0)
    (hfit : ∀ i, (bank i).name.length < midiSfxPathMax)
    (hnodup : (before ++ name :: rest).Nodup)
    (hcut : CutNamesDiffer env (before ++ name :: rest))
    (hgood : Good env bank before s) (hroom : ¬RoomFor env bank before name) :
    ¬Complete env (before ++ name :: rest)
      ((rest.foldl (reloadEntry env) (reloadEntry env s name)).releaseUnseen
        env) := by
  obtain ⟨_, htail, hdisjoint⟩ := List.nodup_append.mp hnodup
  obtain ⟨hlater, _⟩ := List.nodup_cons.mp htail
  have hnew : name ∉ before := fun hmem =>
    hdisjoint name hmem name List.mem_cons_self rfl
  have hmem : name ∈ before ++ name :: rest := by simp
  have hrest : ∀ other ∈ rest,
      other ∈ before ++ name :: rest ∧ other ≠ name := by
    intro other hother
    refine ⟨by simp [hother], ?_⟩
    rintro rfl
    exact hlater hother
  obtain ⟨hloads, hnot⟩ := Classical.not_imp.mp hroom
  have hturn := reloadEntry_turn hidle s name
  by_cases hshort : name.length < midiSfxPathMax
  · have hno : ¬(¬InBank bank name → loadedCount bank +
        freshCount env bank before <
          audioSfxSlotCount + failedCount env bank before) :=
      fun hyes => hnot ⟨fun _ => hyes,
        fun hlong => absurd hshort (not_lt.mpr hlong)⟩
    obtain ⟨hout, hfull⟩ := Classical.not_imp.mp hno
    have hmissing := hgood.missing hnew hloads hout (not_lt.mp hfull) hturn
    refine not_complete_of_missing (foldl_keeps ?_ hmissing) hidle hmem
      ⟨hloads, hshort⟩
    intro s other hother h
    refine h.turn (fun hload => ?_) (reloadEntry_turn hidle s other)
    obtain ⟨hotherMem, hne⟩ := hrest other hother
    rw [← @copyBounded_eq_self midiSfxPathMax name hshort]
    by_cases hfits : other.length < midiSfxPathMax
    · rw [copyBounded_eq_self hfits, copyBounded_eq_self hshort]
      exact hne
    · exact (hcut other hotherMem hload (not_lt.mp hfits) name hmem hloads.1
        hne.symm).symm
  · have hlong := not_lt.mp hshort
    have hfree : loadedCount bank + freshCount env bank before <
        audioSfxSlotCount + failedCount env bank before := by
      by_contra hfull
      exact hnot ⟨fun h => absurd h hshort, fun _ => not_lt.mp hfull⟩
    have hstray := hgood.stray hfit hnew hloads hlong hfree hturn
    refine not_complete_of_stray (foldl_keeps ?_ hstray) hidle hmem hloads
      hlong hcut
    intro s other hother h
    obtain ⟨hotherMem, hne⟩ := hrest other hother
    exact h.turn hloads (fun hsound => hcut name hmem hloads hlong other
      hotherMem hsound hne) (reloadEntry_turn hidle s other)

end

/-- With no slot referenced, the bank is complete exactly if there is room for
each file when the directory comes to it.  The slots of files that are gone
are still taken then. -/
theorem reload_complete_iff (env : SfxEnv)
    (hidle : ∀ i, env.sfxSlotRefs i = 0) (bank : Slots)
    (hfit : ∀ i, (bank i).name.length < midiSfxPathMax) (names : List Bytes)
    (hnodup : names.Nodup) (hcut : CutNamesDiffer env names) :
    Complete env names (reloadSfxBank env (some names) bank).2 ↔
      HasRoom env bank names := by
  constructor
  · intro hcomplete
    rcases hasRoom_or env bank names with
      hroom | ⟨before, name, rest, rfl, hbefore, hnot⟩
    · exact hroom
    · obtain ⟨hold, _, _⟩ := List.nodup_append.mp hnodup
      have hgood := good_foldl hidle hfit hold hbefore
      rw [reloadSfxBank, List.foldl_append, List.foldl_cons] at hcomplete
      exact absurd hcomplete
        (not_complete_of_not_roomFor hidle hfit hnodup hcut hgood hnot)
  · intro hroom
    exact (good_foldl hidle hfit hnodup hroom).complete hidle hnodup

/-- A directory with sounds of one frame, whatever they are called. -/
def oneFrameSounds : SfxEnv where
  maxFrames := 48000
  file := fun _ => some oneFrameFile
  sfxSlotRefs := fun _ => 0

/-- A bank whose first slot holds a sound. -/
def oneSoundBank : Slots := fun i =>
  if i.val = 0 then { emptySlot with loaded := true, name := ascii "kick.wav" }
  else emptySlot

/-- One of the files is in the bank, and the other one is new to it. -/
theorem reload_complete_two :
    Complete oneFrameSounds [ascii "kick.wav", ascii "snare.wav"]
      (reloadSfxBank oneFrameSounds
        (some [ascii "kick.wav", ascii "snare.wav"]) oneSoundBank).2 := by
  have hshort : ∀ name ∈ [ascii "kick.wav", ascii "snare.wav"],
      name.length < midiSfxPathMax := by decide
  refine (reload_complete_iff oneFrameSounds (fun _ => rfl) oneSoundBank
    (by decide) _ (by decide) ?_).mpr ?_
  · intro name hname _ hlong
    exact absurd (hshort name hname) (not_lt.mpr hlong)
  · intro before name rest heq _
    have hname : name ∈ [ascii "kick.wav", ascii "snare.wav"] := by
      rw [heq]
      simp
    refine ⟨fun _ _ => ?_, fun hlong =>
      absurd (hshort name hname) (not_lt.mpr hlong)⟩
    have hfew : loadedCount oneSoundBank = 1 := by decide
    have hlength : before.length + rest.length = 1 := by
      have htotal := congrArg List.length heq
      simp only [List.length_append, List.length_cons, List.length_nil]
        at htotal
      omega
    have hfresh : freshCount oneFrameSounds oneSoundBank before ≤
        before.length := List.countP_le_length
    rw [hfew, audioSfxSlotCount]
    omega

/-- The bank is full of sounds, and the directory has one other sound. -/
theorem reload_of_full_bank :
    ¬∀ (env : SfxEnv) (bank : Slots) (names : List Bytes),
      (∀ i, env.sfxSlotRefs i = 0) →
      (∀ i, (bank i).name.length < midiSfxPathMax) →
      names.Nodup → (∀ name ∈ names, name.length < midiSfxPathMax) →
      names.length ≤ audioSfxSlotCount →
      Complete env names (reloadSfxBank env (some names) bank).2 := by
  intro hall
  have hcomplete := hall oneFrameSounds
    (fun i => { emptySlot with
      loaded := true
      name := ascii "old" ++ [UInt8.ofNat (48 + i / 10),
        UInt8.ofNat (48 + i % 10)] ++ ascii ".wav" })
    [ascii "new.wav"] (fun _ => rfl) (by decide) (by decide)
    (by decide) (by decide)
  have hlength := hcomplete.length_eq
  revert hlength
  decide

end Audiox.SfxBank
