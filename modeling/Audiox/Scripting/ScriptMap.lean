import Audiox.Scripting.Keyboard
import Mathlib

/-!
# The stored map of scripts

A script is stored in the MIDI map under an id.  Entries of the legacy kinds
have no id: when the map is read, they get the lowest ids that are free in the
map, and they are converted to scripts with hooks.

The map is modelled by the entries of its lines, in order.  The Lua compiler
is a parameter.
-/

namespace Audiox.Scripting

open ByteCodec

/-! ## Model -/

def SCRIPTS_MAX : Nat := 16
def SCRIPT_MAX : Nat := 16385
def SCRIPT_STORAGE_MAX : Nat := SCRIPT_MAX + 1024
def SCRIPT_EVENTS_MASK : Nat := 2 ^ 14 - 1
def SCRIPT_LEGACY_EVENTS_MASK : Nat := 127

/-- Which script an entry is: the one that had an id before the run, or one
that was created in it. -/
inductive Origin where
  | stored (id : Nat)
  | created (n : Nat)
deriving DecidableEq

/-- An entry of the map.  Its origin is not stored; the program never looks at
it. -/
structure ScriptDefinition where
  channel : Nat
  note : Nat
  keys : Bytes
  idleVelocity : Nat
  pressedVelocity : Nat
  script : Bytes
  id : Nat
  name : Bytes
  midiEnabled : Bool
  eventMask : Nat
  configWriteAllowed : Bool
  hookMode : Bool
  origin : Origin
deriving DecidableEq

/-- What the Lua compiler says of a source. -/
structure ScriptCompiler where
  scriptValidate : Bytes → Bool
  scriptInspectHooks : Bytes → Option Nat
  scriptNeedsDevicePermission : Bytes → Bool

def chordReportValid (keys : Bytes) : Bool :=
  (scriptChordReport keys false).isSome

def scriptMacroTriggersOverlap (a b : ScriptDefinition) : Bool :=
  a.midiEnabled && b.midiEnabled && a.channel == b.channel &&
    a.note == b.note && a.eventMask &&& b.eventMask &&& 7 != 0

/-- The names of the events that legacy scripts know. -/
def legacyEventNames : List String :=
  ["note_on", "note_off", "cc", "sound_start", "sound_finish",
    "device_connect", "device_disconnect", "run"]

def legacySource (script : ScriptDefinition) : Bytes :=
  if script.script = [] then
    ascii "tap(\"" ++ script.keys ++ ascii "\")"
  else script.script

def legacyHooks (eventMask : Nat) : Bytes :=
  (legacyEventNames.zipIdx.filter fun event =>
    event.2 == 7 || eventMask.testBit event.2).flatMap fun event =>
      ascii "hook(\"" ++ ascii event.1 ++ ascii "\", function() legacy() end)\n"

def convertedScript (script : ScriptDefinition) : Bytes :=
  ascii "local legacy = function(...)\n" ++
    ascii "if event.type == \"run\" then event.type = \"note_on\" end\n" ++
    legacySource script ++ ascii "\nend\n" ++ legacyHooks script.eventMask

def scriptMigrate (lua : ScriptCompiler) (script : ScriptDefinition) :
    Option ScriptDefinition :=
  if script.hookMode then some script
  else if script.script.length ≥ SCRIPT_MAX ∨
      script.eventMask > SCRIPT_LEGACY_EVENTS_MASK then none
  else if script.script = [] ∧ chordReportValid script.keys = false then none
  else if lua.scriptValidate (legacySource script) = false then none
  else if (convertedScript script).length ≥ SCRIPT_STORAGE_MAX then none
  else
    (lua.scriptInspectHooks (convertedScript script)).map fun mask =>
      { script with
        script := convertedScript script
        keys := []
        hookMode := true
        eventMask := mask }

/-! ### Identities -/

def ids (data : List ScriptDefinition) : List Nat :=
  data.map (·.id)

/-- The lowest id that is not used.  One of the candidates is free, since
there is one more than there are ids. -/
def lowestFree (used : List Nat) : Nat :=
  ((List.range' 1 (used.length + 1)).find? fun candidate =>
    candidate ∉ used).getD 0

def withIdentity (used : List Nat) (entry : ScriptDefinition) :
    ScriptDefinition :=
  { entry with
    id := if entry.id = 0 then lowestFree used else entry.id
    name :=
      if entry.name = [] then
        ascii "MIDI " ++ showDecimal entry.channel ++ ascii ":" ++
          showDecimal entry.note
      else entry.name }

/-- The loop behind the entries whose ids are given. -/
def assignRest (before : List Nat) : List ScriptDefinition →
    List ScriptDefinition
  | [] => []
  | entry :: rest =>
      withIdentity (before ++ ids (entry :: rest)) entry ::
        assignRest
          (before ++ [(withIdentity (before ++ ids (entry :: rest)) entry).id])
          rest

def assignMacroIdentities (data : List ScriptDefinition) :
    List ScriptDefinition :=
  assignRest [] data

/-! ### Reading and writing -/

/-- What is checked of an entry, whatever the kind of its line. -/
def lineValid (line : ScriptDefinition) : Bool :=
  decide (line.channel ≤ 15) && decide (line.note ≤ 127) &&
    decide (line.idleVelocity ≤ 127) && decide (line.pressedVelocity ≤ 127) &&
    (line.id == 0 || line.name != []) &&
    (line.script != [] || line.keys != []) &&
    (line.keys == [] || chordReportValid line.keys)

/-- A line is dropped when it is invalid or in excess, or when its id is
taken. -/
def addLine (data : List ScriptDefinition) (line : ScriptDefinition) :
    List ScriptDefinition :=
  if data.length < SCRIPTS_MAX ∧ lineValid line = true ∧
      (line.id = 0 ∨ line.id ∉ ids data) then data ++ [line]
  else data

def storedScripts (lines : List ScriptDefinition) : List ScriptDefinition :=
  lines.foldl addLine []

/-- An entry that cannot be converted is kept as it is. -/
def readScripts (lua : ScriptCompiler) (lines : List ScriptDefinition) :
    List ScriptDefinition :=
  (assignMacroIdentities (storedScripts lines)).map fun script =>
    (scriptMigrate lua script).getD script

def definitionValid (lua : ScriptCompiler) (chord : ScriptDefinition) : Bool :=
  decide (chord.channel ≤ 15) && decide (chord.note ≤ 127) &&
    (chord.hookMode || decide (chord.eventMask ≤ SCRIPT_LEGACY_EVENTS_MASK)) &&
    (!chord.hookMode || chord.script != []) &&
    decide (chord.idleVelocity ≤ 127) && decide (chord.pressedVelocity ≤ 127) &&
    (chord.keys == [] || chordReportValid chord.keys) &&
    (chord.script != [] || chordReportValid chord.keys) &&
    (chord.script == [] || lua.scriptValidate chord.script)

/-- Inspecting the hooks also gives the events that are subscribed to. -/
def inspected (lua : ScriptCompiler) (chord : ScriptDefinition) :
    Option ScriptDefinition :=
  if chord.hookMode then
    (lua.scriptInspectHooks chord.script).map fun mask =>
      { chord with eventMask := mask }
  else some chord

/-- An entry is converted and checked, also against those in front of it. -/
def saveScript (lua : ScriptCompiler) (saved : List ScriptDefinition)
    (script : ScriptDefinition) : Option (List ScriptDefinition) := do
  let migrated ← scriptMigrate lua script
  if definitionValid lua migrated = true then
    let chord ← inspected lua migrated
    if saved.all (fun other =>
        chord.id != other.id && !scriptMacroTriggersOverlap chord other) then
      some (saved ++ [chord])
    else none
  else none

/-- The entries that are written, unless one of them is refused. -/
def writeScripts (lua : ScriptCompiler) (data : List ScriptDefinition) :
    Option (List ScriptDefinition) :=
  if data.length > SCRIPTS_MAX then none
  else (assignMacroIdentities data).foldlM (saveScript lua) []

/-! ## Identities are distinct -/

theorem exists_free (used : List Nat) :
    ∃ candidate ∈ List.range' 1 (used.length + 1), candidate ∉ used := by
  by_contra hnone
  have hall : List.range' 1 (used.length + 1) ⊆ used := by
    intro candidate hmem
    by_contra hfree
    exact hnone ⟨candidate, hmem, hfree⟩
  have hnodup : (List.range' 1 (used.length + 1)).Nodup := List.nodup_range'
  have hle := (hnodup.subperm hall).length_le
  rw [List.length_range'] at hle
  omega

theorem lowestFree_spec (used : List Nat) :
    lowestFree used ∉ used ∧ lowestFree used ≠ 0 := by
  obtain ⟨candidate, hmem, hfree⟩ := exists_free used
  rw [lowestFree]
  cases hfind : (List.range' 1 (used.length + 1)).find?
      (fun candidate => candidate ∉ used) with
  | none =>
      have hall := List.find?_eq_none.mp hfind candidate hmem
      exact absurd hfree (by simpa using hall)
  | some found =>
      have hfound := List.find?_some hfind
      have hrange := List.mem_of_find?_eq_some hfind
      rw [List.mem_range'_1] at hrange
      exact ⟨by simpa using hfound, by simp only [Option.getD_some]; omega⟩

/-- Distinct ids of scripts. -/
def Identified (used : List Nat) : Prop :=
  used.Nodup ∧ 0 ∉ used

theorem withIdentity_id_of_ne {used : List Nat} {entry : ScriptDefinition}
    (h : entry.id ≠ 0) : (withIdentity used entry).id = entry.id := by
  simp only [withIdentity, if_neg h]

theorem withIdentity_id_of_eq {used : List Nat} {entry : ScriptDefinition}
    (h : entry.id = 0) : (withIdentity used entry).id = lowestFree used := by
  simp only [withIdentity, if_pos h]

/-- The ids that the entries have already are distinct. -/
def Explicit (before : List Nat) (data : List ScriptDefinition) : Prop :=
  (before ++ (ids data).filter (· ≠ 0)).Nodup ∧ 0 ∉ before

/-- The first entry gets an id that no other entry has. -/
theorem Explicit.step {before : List Nat} {entry : ScriptDefinition}
    {rest : List ScriptDefinition} (h : Explicit before (entry :: rest)) :
    Explicit
      (before ++ [(withIdentity (before ++ ids (entry :: rest)) entry).id])
      rest := by
  obtain ⟨hnodup, hzero⟩ := h
  rw [ids, List.map_cons] at hnodup
  by_cases hid : entry.id = 0
  · obtain ⟨hfree, hne⟩ := lowestFree_spec (before ++ ids (entry :: rest))
    rw [withIdentity_id_of_eq hid]
    rw [List.filter_cons_of_neg (by simpa using hid)] at hnodup
    constructor
    · rw [List.append_assoc, List.singleton_append, List.nodup_middle,
        List.nodup_cons]
      refine ⟨?_, hnodup⟩
      intro hmem
      rcases List.mem_append.mp hmem with hmem | hmem
      · exact hfree (List.mem_append_left _ hmem)
      · exact hfree (List.mem_append_right _
          (List.mem_cons_of_mem _ (List.mem_of_mem_filter hmem)))
    · rw [List.mem_append, List.mem_singleton, not_or]
      exact ⟨hzero, hne.symm⟩
  · rw [withIdentity_id_of_ne hid]
    rw [List.filter_cons_of_pos (by simpa using hid)] at hnodup
    constructor
    · rw [List.append_assoc, List.singleton_append]
      exact hnodup
    · rw [List.mem_append, List.mem_singleton, not_or]
      exact ⟨hzero, Ne.symm hid⟩

theorem assignRest_identified {data : List ScriptDefinition} :
    ∀ {before : List Nat}, Explicit before data →
      Identified (before ++ ids (assignRest before data)) := by
  induction data with
  | nil =>
      intro before h
      rw [Explicit, ids, List.map_nil, List.filter_nil, List.append_nil] at h
      rw [assignRest, ids, List.map_nil, List.append_nil]
      exact h
  | cons entry rest ih =>
      intro before h
      have hrest := ih h.step
      rw [List.append_assoc, List.singleton_append] at hrest
      exact hrest

theorem storedScripts_explicit (lines : List ScriptDefinition) :
    Explicit [] (storedScripts lines) := by
  rw [storedScripts]
  induction lines using List.reverseRecOn with
  | nil => exact ⟨List.nodup_nil, List.not_mem_nil⟩
  | append_singleton lines line ih =>
      rw [List.foldl_append, List.foldl_cons, List.foldl_nil, addLine]
      split_ifs with hadd
      · obtain ⟨-, -, hid⟩ := hadd
        refine ⟨?_, List.not_mem_nil⟩
        rw [List.nil_append, ids, List.map_append, List.map_singleton,
          List.filter_append]
        have hnodup := ih.1
        rw [List.nil_append, ids] at hnodup
        by_cases hzero : line.id = 0
        · rw [List.filter_cons_of_neg (by simpa using hzero), List.filter_nil,
            List.append_nil]
          exact hnodup
        · have hnew := hid.resolve_left hzero
          rw [List.filter_cons_of_pos (by simpa using hzero), List.filter_nil,
            List.nodup_append]
          refine ⟨hnodup, List.nodup_singleton _, ?_⟩
          intro a ha b hb heq
          obtain rfl := List.mem_singleton.mp hb
          subst heq
          exact hnew (List.mem_of_mem_filter ha)
      · exact ih

/-! ## Conversion keeps identities -/

theorem scriptMigrate_spec {lua : ScriptCompiler}
    {script migrated : ScriptDefinition}
    (h : scriptMigrate lua script = some migrated) :
    migrated.hookMode = true ∧ migrated.id = script.id ∧
      migrated.origin = script.origin ∧ migrated.name = script.name := by
  rw [scriptMigrate] at h
  split_ifs at h with hmode
  · obtain rfl := Option.some.inj h
    exact ⟨hmode, rfl, rfl, rfl⟩
  · obtain ⟨mask, -, rfl⟩ := Option.map_eq_some_iff.mp h
    exact ⟨rfl, rfl, rfl, rfl⟩

/-- What identifies an entry. -/
def identity (script : ScriptDefinition) : Nat × Origin :=
  (script.id, script.origin)

theorem migrateOrKeep_identity (lua : ScriptCompiler)
    (script : ScriptDefinition) :
    identity ((scriptMigrate lua script).getD script) = identity script := by
  cases h : scriptMigrate lua script with
  | none => rfl
  | some migrated =>
      obtain ⟨-, hid, horigin, -⟩ := scriptMigrate_spec h
      rw [Option.getD_some, identity, identity, hid, horigin]

theorem readScripts_identity (lua : ScriptCompiler)
    (lines : List ScriptDefinition) :
    (readScripts lua lines).map identity =
      (assignMacroIdentities (storedScripts lines)).map identity := by
  rw [readScripts, List.map_map]
  exact List.map_congr_left fun script _ => migrateOrKeep_identity lua script

theorem ids_eq (data : List ScriptDefinition) :
    ids data = (data.map identity).map Prod.fst := by
  rw [List.map_map]
  rfl

theorem ids_readScripts (lua : ScriptCompiler)
    (lines : List ScriptDefinition) :
    ids (readScripts lua lines) =
      ids (assignMacroIdentities (storedScripts lines)) := by
  rw [ids_eq, readScripts_identity, ← ids_eq]

theorem readScripts_identified (lua : ScriptCompiler)
    (lines : List ScriptDefinition) :
    Identified (ids (readScripts lua lines)) := by
  rw [ids_readScripts]
  exact assignRest_identified (storedScripts_explicit lines)

/-! ## What is saved is read back -/

theorem withIdentity_name_ne (used : List Nat) (entry : ScriptDefinition) :
    (withIdentity used entry).name ≠ [] := by
  have hpre : ascii "MIDI " ≠ [] := by decide
  simp only [withIdentity]
  split_ifs with hname
  · intro hnil
    simp only [List.append_eq_nil_iff] at hnil
    exact hpre hnil.1.1.1
  · exact hname

theorem assignRest_name_ne {data : List ScriptDefinition} :
    ∀ {before : List Nat}, ∀ entry ∈ assignRest before data,
      entry.name ≠ [] := by
  induction data with
  | nil =>
      intro before entry hmem
      exact absurd hmem List.not_mem_nil
  | cons first rest ih =>
      intro before entry hmem
      rw [assignRest, List.mem_cons] at hmem
      rcases hmem with rfl | hmem
      · exact withIdentity_name_ne _ _
      · exact ih entry hmem

/-- Entries that have ids keep them. -/
theorem assignRest_identity {data : List ScriptDefinition} :
    ∀ {before : List Nat}, 0 ∉ ids data →
      (assignRest before data).map identity = data.map identity := by
  induction data with
  | nil =>
      intro before _
      rfl
  | cons first rest ih =>
      intro before h
      rw [ids, List.map_cons, List.mem_cons, not_or] at h
      have hfirst : ∀ used, identity (withIdentity used first) =
          identity first := by
        intro used
        rw [identity, withIdentity_id_of_ne (Ne.symm h.1)]
        rfl
      rw [assignRest, List.map_cons, List.map_cons, hfirst, ih h.2]

/-- Entries that have ids and names are left as they are. -/
theorem assignRest_eq_self {data : List ScriptDefinition} :
    ∀ {before : List Nat}, 0 ∉ ids data → (∀ entry ∈ data, entry.name ≠ []) →
      assignRest before data = data := by
  induction data with
  | nil =>
      intro before _ _
      rfl
  | cons first rest ih =>
      intro before h hnames
      rw [ids, List.map_cons, List.mem_cons, not_or] at h
      have hfirst : ∀ used, withIdentity used first = first := by
        intro used
        rw [withIdentity, if_neg (Ne.symm h.1),
          if_neg (hnames first List.mem_cons_self)]
      rw [assignRest, hfirst,
        ih h.2 fun entry hmem => hnames entry (List.mem_cons_of_mem _ hmem)]

/-- What is known of an entry that was written. -/
structure Saved (chord : ScriptDefinition) : Prop where
  hook : chord.hookMode = true
  name_ne : chord.name ≠ []
  valid : lineValid chord = true

theorem inspected_spec {lua : ScriptCompiler} {migrated chord : ScriptDefinition}
    (h : inspected lua migrated = some chord) :
    ∃ mask, chord = { migrated with eventMask := mask } := by
  rw [inspected] at h
  split_ifs at h
  · obtain ⟨mask, -, rfl⟩ := Option.map_eq_some_iff.mp h
    exact ⟨mask, rfl⟩
  · obtain rfl := Option.some.inj h
    exact ⟨migrated.eventMask, rfl⟩

theorem lineValid_of_definitionValid {lua : ScriptCompiler}
    {chord : ScriptDefinition} (hvalid : definitionValid lua chord = true)
    (hhook : chord.hookMode = true) (hname : chord.name ≠ []) (mask : Nat) :
    lineValid { chord with eventMask := mask } = true := by
  simp only [definitionValid, lineValid, Bool.and_eq_true, Bool.or_eq_true,
    decide_eq_true_eq, bne_iff_ne, beq_iff_eq, Bool.not_eq_true'] at hvalid ⊢
  obtain ⟨⟨⟨⟨⟨⟨⟨⟨hchannel, hnote⟩, -⟩, hscript⟩, hidle⟩, hpressed⟩, hkeys⟩, -⟩,
    -⟩ := hvalid
  have hne : chord.script ≠ [] := by
    rcases hscript with hmode | hne
    · rw [hhook] at hmode
      cases hmode
    · exact hne
  exact ⟨⟨⟨⟨⟨⟨hchannel, hnote⟩, hidle⟩, hpressed⟩, .inr hname⟩, .inl hne⟩,
    hkeys⟩

theorem saveScript_spec {lua : ScriptCompiler}
    {saved saved' : List ScriptDefinition} {script : ScriptDefinition}
    (hname : script.name ≠ [])
    (h : saveScript lua saved script = some saved') :
    ∃ chord, saved' = saved ++ [chord] ∧ identity chord = identity script ∧
      Saved chord ∧ chord.id ∉ ids saved := by
  rw [saveScript] at h
  obtain ⟨migrated, hmigrate, h⟩ := Option.bind_eq_some_iff.mp h
  obtain ⟨hhook, hid, horigin, hkept⟩ := scriptMigrate_spec hmigrate
  split_ifs at h with hvalid
  obtain ⟨chord, hinspected, h⟩ := Option.bind_eq_some_iff.mp h
  obtain ⟨mask, rfl⟩ := inspected_spec hinspected
  rw [← hkept] at hname
  split_ifs at h with hother
  obtain rfl := Option.some.inj h
  refine ⟨_, rfl, ?_, ⟨hhook, hname,
    lineValid_of_definitionValid hvalid hhook hname mask⟩, ?_⟩
  · rw [identity, identity, ← hid, ← horigin]
  · intro hmem
    obtain ⟨other, hmem, heq⟩ := List.mem_map.mp hmem
    have hne := List.all_eq_true.mp hother other hmem
    rw [Bool.and_eq_true, bne_iff_ne] at hne
    exact hne.1 heq.symm

/-- The written entries, behind those that were written before them. -/
theorem foldlM_saveScript_spec {lua : ScriptCompiler}
    {data : List ScriptDefinition} :
    ∀ {saved saved' : List ScriptDefinition},
      (∀ script ∈ data, script.name ≠ []) →
      data.foldlM (saveScript lua) saved = some saved' →
      (ids saved).Nodup →
      ∃ written, saved' = saved ++ written ∧
        written.map identity = data.map identity ∧
        (∀ chord ∈ written, Saved chord) ∧ (ids saved').Nodup := by
  induction data with
  | nil =>
      intro saved saved' _ h hnodup
      obtain rfl := Option.some.inj h
      exact ⟨[], (List.append_nil _).symm, rfl, by simp, hnodup⟩
  | cons script rest ih =>
      intro saved saved' hnames h hnodup
      rw [List.foldlM_cons] at h
      obtain ⟨next, hsave, h⟩ := Option.bind_eq_some_iff.mp h
      obtain ⟨chord, rfl, hidentity, hsaved, hnew⟩ :=
        saveScript_spec (hnames script List.mem_cons_self) hsave
      have hnext : (ids (saved ++ [chord])).Nodup := by
        rw [ids, List.map_append, List.map_singleton, List.nodup_append]
        refine ⟨hnodup, List.nodup_singleton _, ?_⟩
        intro a ha b hb heq
        obtain rfl := List.mem_singleton.mp hb
        exact hnew (heq ▸ ha)
      obtain ⟨written, rfl, hmap, hall, hids⟩ := ih
        (fun s hs => hnames s (List.mem_cons_of_mem _ hs)) h hnext
      refine ⟨chord :: written, by simp, ?_, ?_, hids⟩
      · rw [List.map_cons, List.map_cons, hidentity, hmap]
      · intro c hc
        rcases List.mem_cons.mp hc with rfl | hc
        · exact hsaved
        · exact hall c hc

theorem foldl_addLine_eq {lines : List ScriptDefinition} :
    ∀ {data : List ScriptDefinition},
      (data ++ lines).length ≤ SCRIPTS_MAX →
      (∀ line ∈ lines, lineValid line = true) →
      (ids (data ++ lines)).Nodup → lines.foldl addLine data = data ++ lines := by
  induction lines with
  | nil =>
      intro data _ _ _
      rw [List.foldl_nil, List.append_nil]
  | cons line rest ih =>
      intro data hlength hvalid hnodup
      have hnew : line.id ∉ ids data := by
        intro hmem
        rw [ids, List.map_append, List.nodup_append] at hnodup
        exact hnodup.2.2 line.id hmem line.id
          (List.mem_map_of_mem List.mem_cons_self) rfl
      have hroom : data.length < SCRIPTS_MAX := by
        rw [List.length_append, List.length_cons] at hlength
        omega
      have hadd : addLine data line = data ++ [line] := by
        rw [addLine,
          if_pos ⟨hroom, hvalid line List.mem_cons_self, .inr hnew⟩]
      have hsplit : data ++ line :: rest = data ++ [line] ++ rest := by simp
      rw [List.foldl_cons, hadd, hsplit]
      rw [hsplit] at hlength hnodup
      exact ih hlength (fun l hl => hvalid l (List.mem_cons_of_mem _ hl)) hnodup

/-- A map of entries with ids keeps them when it is written, and is read back
as it was written. -/
theorem writeScripts_spec {lua : ScriptCompiler}
    {data saved : List ScriptDefinition} (hzero : 0 ∉ ids data)
    (h : writeScripts lua data = some saved) :
    saved.map identity = data.map identity ∧ readScripts lua saved = saved := by
  rw [writeScripts] at h
  split_ifs at h with hlength
  have hassigned := @assignRest_identity data [] hzero
  obtain ⟨written, hsaved, hmap, hall, hnodup⟩ := foldlM_saveScript_spec
    (fun script hs => assignRest_name_ne script hs) h List.nodup_nil
  rw [List.nil_append] at hsaved
  subst hsaved
  rw [hassigned] at hmap
  have hids : ids saved = ids data := by
    rw [ids_eq, hmap, ← ids_eq]
  have hcount : saved.length = data.length := by
    have heq := congrArg List.length hmap
    rw [List.length_map, List.length_map] at heq
    exact heq
  refine ⟨hmap, ?_⟩
  have hstored : storedScripts saved = saved := by
    rw [storedScripts]
    refine foldl_addLine_eq ?_ (fun line hl => (hall line hl).valid) hnodup
    rw [List.nil_append]
    omega
  have hkept : assignMacroIdentities saved = saved :=
    assignRest_eq_self (by rw [hids]; exact hzero)
      fun entry hentry => (hall entry hentry).name_ne
  rw [readScripts, hstored, hkept]
  refine (List.map_congr_left ?_).trans (List.map_id saved)
  intro script hs
  rw [scriptMigrate, if_pos (hall script hs).hook, Option.getD_some, id]

end Audiox.Scripting
