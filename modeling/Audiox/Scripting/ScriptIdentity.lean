import Audiox.Scripting.ScriptData
import Mathlib

/-!
# Scripts keep to their own data

Requests create, update and delete scripts, stored maps are loaded, and
scripts write files and settings under their ids.  Ids are handed out twice: a
request asks the storage for an id above all directories, and a load takes the
lowest ids that are free in the map.  A load can so give an entry the id, and
the data, of a script that was deleted.
-/

namespace Audiox.Scripting

open ByteCodec Runs ScriptStorage

/-! ## Model -/

inductive Reply where
  | ok
  | badRequest
  | notFound
  | conflict
  | internalServerError
deriving DecidableEq

/-- A request with its fields.  The id is zero when there is none; a request
that is not well formed changes nothing. -/
structure ScriptRequest where
  delete : Bool
  named : Bool
  scripts : Bool
  id : Nat
  channel : Nat
  note : Nat
  name : Bytes
  midiEnabled : Bool
  keys : Bytes
  script : Bytes
  hookMode : Option Bool
  eventMask : Option Nat
  configWriteAck : Bool
  idleVelocity : Option Nat
  pressedVelocity : Option Nat
deriving DecidableEq

/-- The stored map, the map in use, the directories, and which script owns
which id. -/
structure ScriptSystem where
  file : List ScriptDefinition
  scripts : List ScriptDefinition
  directories : List ScriptDirectory
  owner : Nat → Origin
  created : Nat

inductive ScriptEvent where
  | request (r : ScriptRequest)
  | saveMap
  | load (lines : List ScriptDefinition)
  | reload
  | storageWrite (index : Nat) (name content : Bytes) (admitted : Bool)
  | storageRemove (index : Nat) (name : Bytes)
  | scriptConfigSet (index : Nat) (key content : Bytes)
      (remove admitted : Bool)
  | control (id : Nat) (key content : Bytes) (admitted : Bool)
deriving DecidableEq

def emptyScript (origin : Origin) : ScriptDefinition where
  channel := 0
  note := 0
  keys := []
  idleVelocity := 0
  pressedVelocity := 0
  script := []
  id := 0
  name := []
  midiEnabled := true
  eventMask := 1
  configWriteAllowed := false
  hookMode := false
  origin := origin

namespace ScriptRequest

def findScript (r : ScriptRequest) (data : List ScriptDefinition) : Nat :=
  data.findIdx fun chord =>
    if r.named then chord.id == r.id
    else
      chord.midiEnabled && chord.channel == r.channel && chord.note == r.note &&
        chord.eventMask.testBit 0

def nameValid (name : Bytes) : Bool :=
  name != [] && name.all fun c => 32 ≤ c && c != 127

def asksForHooks (r : ScriptRequest) : Bool :=
  r.scripts || r.hookMode == some true

/-- The fields of the request that need no check against the compiler. -/
def fields (r : ScriptRequest) (chord : ScriptDefinition) : ScriptDefinition :=
  { chord with
    name := if r.named then r.name else chord.name
    midiEnabled := if r.named then r.midiEnabled else chord.midiEnabled
    keys := r.keys
    script := r.script
    eventMask :=
      match r.eventMask with
      | some mask => mask
      | none =>
          if chord.hookMode && !r.asksForHooks then 1 else chord.eventMask
    hookMode := r.asksForHooks
    configWriteAllowed := r.configWriteAck }

/-- What is refused before the hooks are inspected. -/
def malformed (lua : ScriptCompiler) (r : ScriptRequest)
    (chord : ScriptDefinition) : Bool :=
  r.named && !nameValid r.name ||
    r.script == [] && !chordReportValid r.keys ||
    r.keys != [] && !chordReportValid r.keys ||
    r.scripts && (r.hookMode == some false || r.keys != [] || r.script == []) ||
    chord.hookMode && (!r.named || chord.script == []) ||
    chord.script != [] && !lua.scriptValidate chord.script ||
    (r.eventMask.any fun mask =>
      decide (mask > if chord.hookMode then SCRIPT_EVENTS_MASK
        else SCRIPT_LEGACY_EVENTS_MASK)) ||
    !r.named && chord.eventMask != 1

def velocities (r : ScriptRequest) (chord : ScriptDefinition) :
    ScriptDefinition :=
  { chord with
    idleVelocity := r.idleVelocity.getD chord.idleVelocity
    pressedVelocity := r.pressedVelocity.getD chord.pressedVelocity
    channel := r.channel
    note := r.note }

/-- The script that a request makes of an entry, or of a new one. -/
def prepare (lua : ScriptCompiler) (r : ScriptRequest)
    (chord : ScriptDefinition) : Except Reply ScriptDefinition :=
  if malformed lua r (r.fields chord) then .error .badRequest
  else
    match inspected lua (r.fields chord) with
    | none => .error .badRequest
    | some hooked =>
        if lua.scriptNeedsDevicePermission hooked.script &&
            !hooked.configWriteAllowed then .error .conflict
        else
          match scriptMigrate lua hooked with
          | none => .error .badRequest
          | some migrated => .ok (r.velocities migrated)

end ScriptRequest

/-- An id above those of the map and of the directories, for a script that has
none. -/
def allocateId (data : List ScriptDefinition)
    (directories : List ScriptDirectory) (chord : ScriptDefinition) :
    Except Reply ScriptDefinition :=
  if chord.id ≠ 0 then .ok chord
  else if data.any (·.id == UINT32_MAX) then .error .conflict
  else
    match nextId ((ids data).foldl (fun minimum id =>
        if id ≥ minimum then id + 1 else minimum) 1) directories with
    | none => .error .internalServerError
    | some id => .ok { chord with id := id }

def placeScript (data : List ScriptDefinition) (index : Nat)
    (chord : ScriptDefinition) : List ScriptDefinition :=
  if index < data.length then data.set index chord else data ++ [chord]

namespace ScriptSystem

def empty : ScriptSystem where
  file := []
  scripts := []
  directories := []
  owner := .stored
  created := 0

variable (lua : ScriptCompiler) (s : ScriptSystem)

/-- The owners of ids when the scripts of a map have theirs. -/
def owned (scripts : List ScriptDefinition) (id : Nat) : Origin :=
  match scripts.find? (·.id == id) with
  | some script => script.origin
  | none => s.owner id

def save (data : List ScriptDefinition) : Reply × ScriptSystem :=
  match writeScripts lua data with
  | none => (.internalServerError, s)
  | some saved =>
      (.ok, { s with
        file := saved
        scripts := saved
        owner := s.owned saved
        created := s.created + 1 })

/-- The part of `handleMidiChords` for a script that is created or updated. -/
def putScript (data : List ScriptDefinition) (r : ScriptRequest) :
    Reply × ScriptSystem :=
  match r.prepare lua (data[r.findScript data]?.getD
      (emptyScript (.created s.created))) with
  | .error reply => (reply, s)
  | .ok chord =>
      if r.findScript data = SCRIPTS_MAX then (.conflict, s)
      else if (data.eraseIdx (r.findScript data)).any
          (scriptMacroTriggersOverlap chord) then (.conflict, s)
      else
        match allocateId data s.directories chord with
        | .error reply => (reply, s)
        | .ok chord => s.save lua (placeScript data (r.findScript data) chord)

def handleMidiChords (r : ScriptRequest) : Reply × ScriptSystem :=
  if r.named ∧ r.delete ∧ r.id = 0 then (.badRequest, s)
  else if r.named ∧ r.id ≠ 0 ∧
      r.findScript (readScripts lua s.file) =
        (readScripts lua s.file).length then (.notFound, s)
  else if r.delete then
    s.save lua ((readScripts lua s.file).eraseIdx
      (r.findScript (readScripts lua s.file)))
  else s.putScript lua (readScripts lua s.file) r

/-- The entries of a map that is loaded: an id tells which script an entry is,
and an entry without one is a new script. -/
def identify (lines : List ScriptDefinition) : List ScriptDefinition :=
  lines.mapIdx fun i line =>
    { line with
      origin := if line.id = 0 then .created (s.created + i)
        else s.owner line.id }

def useMap (file : List ScriptDefinition) (created : Nat) : ScriptSystem :=
  { s with
    file := file
    scripts := readScripts lua file
    owner := s.owned (readScripts lua file)
    created := created }

/-- A script that runs changes its directory. -/
def execute (index : Nat)
    (action : ScriptDefinition → List ScriptDirectory →
      List ScriptDirectory) : ScriptSystem :=
  match s.scripts[index]? with
  | some script => { s with directories := action script s.directories }
  | none => s

/-- The part of `handleScriptControl` that stores an option. -/
def control (id : Nat) (key content : Bytes) (admitted : Bool) :
    ScriptSystem :=
  match (readScripts lua s.file).find? (·.id == id) with
  | some script =>
      { s with
        scripts := readScripts lua s.file
        directories := setSetting script.id key content false script.origin
          admitted s.directories }
  | none => s

def step : ScriptEvent → ScriptSystem
  | .request r => (s.handleMidiChords lua r).2
  | .saveMap => (s.save lua (readScripts lua s.file)).2
  | .load lines =>
      s.useMap lua (s.identify lines) (s.created + lines.length)
  | .reload => s.useMap lua s.file s.created
  | .storageWrite index name content admitted =>
      s.execute index fun script =>
        writeFile script.id name content script.origin admitted
  | .storageRemove index name =>
      s.execute index fun script => removeFile script.id name
  | .scriptConfigSet index key content remove admitted =>
      s.execute index fun script =>
        setSetting script.id key content remove script.origin admitted
  | .control id key content admitted => s.control lua id key content admitted

end ScriptSystem

/-! ## Properties -/

/-- The scripts have distinct ids, and find only their own data. -/
structure Separate (s : ScriptSystem) : Prop where
  ids_distinct : (ids s.scripts).Nodup
  ids_nonzero : 0 ∉ ids s.scripts
  own_data : ∀ script ∈ s.scripts, ∀ d ∈ s.directories, d.id = script.id →
    ∀ datum ∈ d.data, datum.writer = script.origin

/-- The ids that the entries without one get when a map is read. -/
def givenIds (lines : List ScriptDefinition) : List Nat :=
  (ids (assignMacroIdentities (storedScripts lines))).filter
    (· ∉ ids (storedScripts lines))

/-- When a map is loaded, no data is left under the ids that its entries
get. -/
def NoneLeft (s : ScriptSystem) (e : ScriptEvent) : Prop :=
  match e with
  | .load lines => ∀ id ∈ givenIds (s.identify lines), ∀ d ∈ s.directories,
      d.id = id → d.data = []
  | _ => True

instance (s : ScriptSystem) (e : ScriptEvent) : Decidable (NoneLeft s e) :=
  match e with
  | .load lines => inferInstanceAs (Decidable
      (∀ id ∈ givenIds (s.identify lines), ∀ d ∈ s.directories,
        d.id = id → d.data = []))
  | .request _ => .isTrue trivial
  | .saveMap => .isTrue trivial
  | .reload => .isTrue trivial
  | .storageWrite _ _ _ _ => .isTrue trivial
  | .storageRemove _ _ => .isTrue trivial
  | .scriptConfigSet _ _ _ _ _ => .isTrue trivial
  | .control _ _ _ _ => .isTrue trivial

/-! ## The invariant -/

/-- The map in use is the stored one, ids belong to the scripts that have
them, and data to the owners of the ids. -/
structure Inv (lua : ScriptCompiler) (s : ScriptSystem) : Prop where
  scripts_eq : s.scripts = readScripts lua s.file
  owners : ∀ script ∈ s.scripts, script.origin = s.owner script.id
  written : WrittenBy s.owner s.directories

section Steps

variable {lua : ScriptCompiler} {s : ScriptSystem}

theorem Inv.identified (h : Inv lua s) : Identified (ids s.scripts) := by
  rw [h.scripts_eq]
  exact readScripts_identified lua s.file

theorem Inv.separate (h : Inv lua s) : Separate s where
  ids_distinct := h.identified.1
  ids_nonzero := h.identified.2
  own_data := by
    intro script hscript d hd hid datum hdatum
    rw [h.written d hd datum hdatum, hid, h.owners script hscript]

theorem inv_empty (lua : ScriptCompiler) : Inv lua .empty where
  scripts_eq := rfl
  owners := by simp [ScriptSystem.empty]
  written := by simp [WrittenBy, ScriptSystem.empty]

/-! ### Taking a map into use -/

/-- An entry has its id already, or no data is stored under it. -/
def Fresh (s : ScriptSystem) (script : ScriptDefinition) : Prop :=
  script.origin = s.owner script.id ∨
    ∀ d ∈ s.directories, d.id = script.id → d.data = []

theorem owned_of_mem {scripts : List ScriptDefinition}
    (hnodup : (ids scripts).Nodup) {script : ScriptDefinition}
    (hmem : script ∈ scripts) : s.owned scripts script.id = script.origin := by
  rw [ScriptSystem.owned]
  cases hfind : scripts.find? (·.id == script.id) with
  | none =>
      have hnone := List.find?_eq_none.mp hfind script hmem
      simp at hnone
  | some found =>
      have hid : found.id = script.id := by
        simpa using List.find?_some hfind
      have hfound := List.mem_of_find?_eq_some hfind
      rw [List.inj_on_of_nodup_map hnodup hfound hmem hid]

/-- Data stays with its writer when every entry is fresh. -/
theorem writtenBy_owned (h : WrittenBy s.owner s.directories)
    {scripts : List ScriptDefinition}
    (hfresh : ∀ script ∈ scripts, Fresh s script) :
    WrittenBy (s.owned scripts) s.directories := by
  intro d hd datum hdatum
  rw [ScriptSystem.owned]
  cases hfind : scripts.find? (·.id == d.id) with
  | none => exact h d hd datum hdatum
  | some found =>
      have hid : found.id = d.id := by
        simpa using List.find?_some hfind
      rcases hfresh found (List.mem_of_find?_eq_some hfind) with horigin | hnone
      · simp only [horigin, hid]
        exact h d hd datum hdatum
      · rw [hnone d hd hid.symm] at hdatum
        exact absurd hdatum List.not_mem_nil

theorem Inv.useMap (h : Inv lua s) {file : List ScriptDefinition}
    {created : Nat} (hfresh : ∀ script ∈ readScripts lua file, Fresh s script) :
    Inv lua (s.useMap lua file created) where
  scripts_eq := rfl
  owners := fun _ hmem =>
    (owned_of_mem (readScripts_identified lua file).1 hmem).symm
  written := writtenBy_owned h.written hfresh

theorem mem_of_map_identity {data saved : List ScriptDefinition}
    (heq : saved.map identity = data.map identity) {script : ScriptDefinition}
    (hmem : script ∈ saved) :
    ∃ entry ∈ data, entry.id = script.id ∧ entry.origin = script.origin := by
  have hmap : identity script ∈ data.map identity := by
    rw [← heq]
    exact List.mem_map_of_mem hmem
  obtain ⟨entry, hentry, hidentity⟩ := List.mem_map.mp hmap
  rw [identity, identity, Prod.mk.injEq] at hidentity
  exact ⟨entry, hentry, hidentity⟩

/-- A map is saved, and read back, with the identities that it has. -/
theorem Inv.save (h : Inv lua s) {data : List ScriptDefinition}
    (hids : Identified (ids data)) (hfresh : ∀ entry ∈ data, Fresh s entry) :
    Inv lua (s.save lua data).2 := by
  rw [ScriptSystem.save]
  cases hwrite : writeScripts lua data with
  | none => exact h
  | some saved =>
      obtain ⟨hmap, hread⟩ := writeScripts_spec hids.2 hwrite
      have hnodup : (ids saved).Nodup := by
        rw [ids_eq, hmap, ← ids_eq]
        exact hids.1
      refine ⟨hread.symm, ?_, writtenBy_owned h.written ?_⟩
      · intro script hmem
        exact (owned_of_mem hnodup hmem).symm
      · intro script hmem
        obtain ⟨entry, hentry, hid, horigin⟩ := mem_of_map_identity hmap hmem
        have hentry' := hfresh entry hentry
        rw [Fresh, hid, horigin] at hentry'
        exact hentry'

/-! ### Requests -/

theorem prepare_identity {r : ScriptRequest} {chord prepared : ScriptDefinition}
    (h : r.prepare lua chord = .ok prepared) :
    identity prepared = identity chord := by
  rw [ScriptRequest.prepare] at h
  split_ifs at h
  split at h
  · cases h
  · rename_i hooked hinspected
    obtain ⟨mask, rfl⟩ := inspected_spec hinspected
    split_ifs at h
    split at h
    · cases h
    · rename_i migrated hmigrate
      obtain rfl := Except.ok.inj h
      obtain ⟨-, hid, horigin, -⟩ := scriptMigrate_spec hmigrate
      rw [ScriptRequest.velocities, identity, identity, hid, horigin]
      rfl

theorem lt_foldl_minimum {used : List Nat} :
    ∀ {minimum : Nat},
      minimum ≤ used.foldl (fun minimum id =>
        if id ≥ minimum then id + 1 else minimum) minimum ∧
      ∀ id ∈ used, id < used.foldl (fun minimum id =>
        if id ≥ minimum then id + 1 else minimum) minimum := by
  induction used with
  | nil =>
      intro minimum
      exact ⟨Nat.le_refl _, by simp⟩
  | cons first rest ih =>
      intro minimum
      rw [List.foldl_cons]
      have hfirst : minimum ≤ (if first ≥ minimum then first + 1
          else minimum) ∧ first < (if first ≥ minimum then first + 1
          else minimum) := by
        split_ifs with h
        · omega
        · omega
      obtain ⟨hle, hall⟩ := @ih
        (if first ≥ minimum then first + 1 else minimum)
      refine ⟨hfirst.1.trans hle, ?_⟩
      intro id hid
      rcases List.mem_cons.mp hid with rfl | hid
      · exact hfirst.2.trans_le hle
      · exact hall id hid

/-- A new id is above those of the map, and of the directories. -/
theorem allocateId_spec {data : List ScriptDefinition}
    {directories : List ScriptDirectory} {chord placed : ScriptDefinition}
    (h : allocateId data directories chord = .ok placed) :
    placed.origin = chord.origin ∧
      (chord.id ≠ 0 → placed.id = chord.id) ∧
      (chord.id = 0 → placed.id ≠ 0 ∧ placed.id ∉ ids data ∧
        ∀ d ∈ directories, d.id ≠ placed.id) := by
  rw [allocateId] at h
  split_ifs at h with hid
  · obtain rfl := Except.ok.inj h
    exact ⟨rfl, fun _ => rfl, fun hzero => absurd hzero hid⟩
  · split at h
    · cases h
    · rename_i id hnext
      obtain rfl := Except.ok.inj h
      obtain ⟨hle, hdirectories⟩ := nextId_spec hnext
      obtain ⟨hone, hids⟩ := @lt_foldl_minimum (ids data) 1
      refine ⟨rfl, fun hne => absurd hne hid, fun _ => ⟨?_, ?_, ?_⟩⟩
      · simp only
        omega
      · intro hmem
        have hlt := hids id hmem
        omega
      · intro d hd
        exact (hdirectories d hd).ne

theorem Inv.eraseIdx (h : Inv lua s) (index : Nat) :
    Inv lua (s.save lua (s.scripts.eraseIdx index)).2 := by
  have hsub := List.eraseIdx_sublist s.scripts index
  refine h.save ⟨h.identified.1.sublist (hsub.map _), ?_⟩ ?_
  · intro hmem
    exact h.identified.2 ((hsub.map _).subset hmem)
  · intro entry hmem
    exact .inl (h.owners entry (hsub.subset hmem))

/-- An entry is replaced by one with its identity. -/
theorem Inv.updated (h : Inv lua s) {index : Nat}
    (hindex : index < s.scripts.length) {chord : ScriptDefinition}
    (hidentity : identity chord = identity s.scripts[index]) :
    Inv lua (s.save lua (s.scripts.set index chord)).2 := by
  have hmap : (s.scripts.set index chord).map identity =
      s.scripts.map identity := by
    have hmapped : index < (s.scripts.map identity).length := by
      rw [List.length_map]
      exact hindex
    rw [List.map_set, hidentity, ← List.getElem_map identity (h := hmapped),
      List.set_getElem_self hmapped]
  have hids : ids (s.scripts.set index chord) = ids s.scripts := by
    rw [ids_eq, hmap, ← ids_eq]
  refine h.save (by rw [hids]; exact h.identified) ?_
  intro entry hmem
  obtain ⟨old, hold, hid, horigin⟩ := mem_of_map_identity hmap hmem
  rw [Fresh, ← hid, ← horigin]
  exact .inl (h.owners old hold)

/-- An entry is added with an id that is new to the map and to the
directories. -/
theorem Inv.added (h : Inv lua s) {chord : ScriptDefinition}
    (hne : chord.id ≠ 0) (hnew : chord.id ∉ ids s.scripts)
    (hdirectories : ∀ d ∈ s.directories, d.id ≠ chord.id) :
    Inv lua (s.save lua (s.scripts ++ [chord])).2 := by
  refine h.save ⟨?_, ?_⟩ ?_
  · rw [ids, List.map_append, List.map_singleton, List.nodup_append]
    refine ⟨h.identified.1, List.nodup_singleton _, ?_⟩
    intro a ha b hb heq
    obtain rfl := List.mem_singleton.mp hb
    exact hnew (heq ▸ ha)
  · rw [ids, List.map_append, List.map_singleton, List.mem_append, not_or]
    exact ⟨h.identified.2, by simpa using Ne.symm hne⟩
  · intro entry hmem
    rcases List.mem_append.mp hmem with hmem | hmem
    · exact .inl (h.owners entry hmem)
    · obtain rfl := List.mem_singleton.mp hmem
      exact .inr fun d hd hid => absurd hid (hdirectories d hd)

theorem Inv.putScript (h : Inv lua s) (r : ScriptRequest) :
    Inv lua (s.putScript lua s.scripts r).2 := by
  rw [ScriptSystem.putScript]
  split
  · exact h
  · rename_i chord hprepare
    have hidentity := prepare_identity hprepare
    rw [identity, identity, Prod.mk.injEq] at hidentity
    obtain ⟨hid, horigin⟩ := hidentity
    split_ifs
    · exact h
    · exact h
    · split
      · exact h
      · rename_i placed hplaced
        obtain ⟨hsame, hkept, hnew⟩ := allocateId_spec hplaced
        rw [placeScript]
        split_ifs with hindex
        · rw [List.getElem?_eq_getElem hindex, Option.getD_some] at hid horigin
          have hne : chord.id ≠ 0 := by
            intro hzero
            apply h.identified.2
            rw [← hzero, hid]
            exact List.mem_map_of_mem (List.getElem_mem hindex)
          apply h.updated hindex
          rw [identity, identity, hsame, hkept hne, hid, horigin]
        · rw [List.getElem?_eq_none (Nat.le_of_not_lt hindex),
            Option.getD_none] at hid
          obtain ⟨hne, hfree, hdirectories⟩ := hnew hid
          exact h.added hne hfree hdirectories

theorem Inv.handleMidiChords (h : Inv lua s) (r : ScriptRequest) :
    Inv lua (s.handleMidiChords lua r).2 := by
  rw [ScriptSystem.handleMidiChords, ← h.scripts_eq]
  split_ifs
  · exact h
  · exact h
  · exact h.eraseIdx _
  · exact h.putScript r

/-! ### Loads -/

theorem mem_of_mem_storedScripts {lines : List ScriptDefinition}
    {line : ScriptDefinition} (h : line ∈ storedScripts lines) :
    line ∈ lines := by
  rw [storedScripts] at h
  induction lines using List.reverseRecOn with
  | nil => exact absurd h List.not_mem_nil
  | append_singleton lines last ih =>
      rw [List.foldl_append, List.foldl_cons, List.foldl_nil, addLine] at h
      split_ifs at h
      · rcases List.mem_append.mp h with h | h
        · exact List.mem_append_left _ (ih h)
        · exact List.mem_append_right _ h
      · exact List.mem_append_left _ (ih h)

theorem identity_mem_assignRest {data : List ScriptDefinition} :
    ∀ {before : List Nat} {entry : ScriptDefinition}, entry ∈ data →
      entry.id ≠ 0 → identity entry ∈ (assignRest before data).map identity := by
  induction data with
  | nil =>
      intro before entry hmem
      exact absurd hmem List.not_mem_nil
  | cons first rest ih =>
      intro before entry hmem hne
      rw [assignRest, List.map_cons, List.mem_cons]
      rcases List.mem_cons.mp hmem with rfl | hmem
      · left
        rw [identity, identity, withIdentity_id_of_ne hne]
        rfl
      · exact .inr (ih hmem hne)

/-- An entry of the map with an id of its lines is the entry of the line. -/
theorem readScripts_origin {lines : List ScriptDefinition}
    {script : ScriptDefinition} (hmem : script ∈ readScripts lua lines)
    (hid : script.id ∈ ids (storedScripts lines)) :
    ∃ line ∈ lines, line.id = script.id ∧ line.origin = script.origin ∧
      line.id ≠ 0 := by
  have hidentified := readScripts_identified lua lines
  obtain ⟨line, hline, heq⟩ := List.mem_map.mp hid
  have hne : line.id ≠ 0 := by
    intro hzero
    apply hidentified.2
    rw [← hzero, heq]
    exact List.mem_map_of_mem hmem
  have hread : identity line ∈ (readScripts lua lines).map identity := by
    rw [readScripts_identity]
    exact identity_mem_assignRest hline hne
  obtain ⟨found, hfound, hidentity⟩ := List.mem_map.mp hread
  rw [identity, identity, Prod.mk.injEq] at hidentity
  have hsame : found = script := by
    refine List.inj_on_of_nodup_map hidentified.1 hfound hmem ?_
    exact hidentity.1.trans heq
  subst hsame
  exact ⟨line, mem_of_mem_storedScripts hline, heq, hidentity.2.symm, hne⟩

theorem identify_origin {lines : List ScriptDefinition}
    {line : ScriptDefinition} (hmem : line ∈ s.identify lines)
    (hne : line.id ≠ 0) : line.origin = s.owner line.id := by
  rw [ScriptSystem.identify, List.mem_mapIdx] at hmem
  obtain ⟨i, hi, rfl⟩ := hmem
  simp only [if_neg hne]

theorem Inv.load (h : Inv lua s) {lines : List ScriptDefinition}
    (hnone : NoneLeft s (.load lines)) :
    Inv lua (s.step lua (.load lines)) := by
  refine h.useMap ?_
  intro script hmem
  by_cases hid : script.id ∈ ids (storedScripts (s.identify lines))
  · obtain ⟨line, hline, heq, horigin, hne⟩ := readScripts_origin hmem hid
    left
    rw [← horigin, ← heq]
    exact identify_origin hline hne
  · right
    refine hnone script.id (List.mem_filter.mpr ⟨?_, by simpa using hid⟩)
    rw [← ids_readScripts lua]
    exact List.mem_map_of_mem hmem

/-! ### Runs -/

theorem Inv.execute (h : Inv lua s) (index : Nat)
    {action : ScriptDefinition → List ScriptDirectory → List ScriptDirectory}
    (haction : ∀ script, script.origin = s.owner script.id →
      WrittenBy s.owner (action script s.directories)) :
    Inv lua (s.execute index action) := by
  rw [ScriptSystem.execute]
  split
  · rename_i script hscript
    have howner := h.owners script (List.mem_of_getElem? hscript)
    exact ⟨h.scripts_eq, h.owners, haction script howner⟩
  · exact h

theorem Inv.control (h : Inv lua s) (id : Nat) (key content : Bytes)
    (admitted : Bool) : Inv lua (s.control lua id key content admitted) := by
  rw [ScriptSystem.control, ← h.scripts_eq]
  split
  · rename_i script hfind
    have howner := h.owners script (List.mem_of_find?_eq_some hfind)
    exact ⟨h.scripts_eq, h.owners, h.written.setSetting howner⟩
  · exact h

theorem Inv.step (h : Inv lua s) {e : ScriptEvent} (hnone : NoneLeft s e) :
    Inv lua (s.step lua e) := by
  cases e with
  | request r => exact h.handleMidiChords r
  | saveMap =>
      rw [ScriptSystem.step, ← h.scripts_eq]
      exact h.save h.identified fun entry hmem => .inl (h.owners entry hmem)
  | load lines => exact h.load hnone
  | reload =>
      refine h.useMap ?_
      rw [← h.scripts_eq]
      exact fun script hmem => .inl (h.owners script hmem)
  | storageWrite index name content admitted =>
      exact h.execute index fun script howner => h.written.writeFile howner
  | storageRemove index name =>
      exact h.execute index fun script _ => h.written.removeFile
  | scriptConfigSet index key content remove admitted =>
      exact h.execute index fun script howner => h.written.setSetting howner
  | control id key content admitted => exact h.control id key content admitted

end Steps

/-- A compiler that accepts every source, and finds one hook in it. -/
def anyLua : ScriptCompiler where
  scriptValidate _ := true
  scriptInspectHooks _ := some 1
  scriptNeedsDevicePermission _ := false

def createRequest (note : Nat) : ScriptRequest where
  delete := false
  named := true
  scripts := true
  id := 0
  channel := 0
  note := note
  name := ascii "counter"
  midiEnabled := true
  keys := []
  script := ascii "hook(\"note_on\", f)"
  hookMode := none
  eventMask := none
  configWriteAck := false
  idleVelocity := none
  pressedVelocity := none

def deleteRequest (id : Nat) : ScriptRequest :=
  { createRequest 0 with delete := true, id := id }

/-- A line of a map that has no id yet. -/
def legacyLine : ScriptDefinition :=
  { emptyScript (.stored 0) with note := 60, keys := ascii "CTRL+C" }

/-- A script is created, writes a file and is deleted. -/
def createWriteDelete : List ScriptEvent :=
  [.request (createRequest 36),
    .storageWrite 0 (ascii "count") (ascii "7") true,
    .request (deleteRequest 1)]

/-- A map with a legacy entry is loaded when the script is gone. -/
def loadLegacy : List ScriptEvent :=
  createWriteDelete ++ [.load [legacyLine]]

/-- The next script gets the id behind the directory. -/
def createAgain : List ScriptEvent :=
  createWriteDelete ++
    [.request (createRequest 36),
      .storageWrite 0 (ascii "count") (ascii "8") true,
      .load [{ legacyLine with id := 2, name := ascii "second" },
        { legacyLine with id := 3, name := ascii "third", note := 61 }],
      .reload]

/-- A script finds data of another one. -/
def findsOther (s : ScriptSystem) : Bool :=
  s.scripts.any fun script => s.directories.any fun d =>
    d.id == script.id && d.data.any fun datum => datum.writer != script.origin

theorem not_separate {s : ScriptSystem} (h : findsOther s = true) :
    ¬Separate s := by
  intro hseparate
  obtain ⟨script, hscript, hfinds⟩ := List.any_eq_true.mp h
  obtain ⟨d, hd, hfinds⟩ := List.any_eq_true.mp hfinds
  rw [Bool.and_eq_true, beq_iff_eq] at hfinds
  obtain ⟨datum, hdatum, hne⟩ := List.any_eq_true.mp hfinds.2
  rw [bne_iff_ne] at hne
  exact hne (hseparate.own_data script hscript d hd hfinds.1 datum hdatum)

end Audiox.Scripting
