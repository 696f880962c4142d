import Audiox.Http.SoundboardLayout
import Mathlib

/-!
# Owners of notes

A note belongs to one clip or to one action.  Every request keeps this: the
setters take the note out of the other table, and the layout puts a note only
into tables that it has taken it out of.
-/

namespace Audiox.Http.MidiMap

open ByteCodec Config Checks Pattern KeyedArray KeyedList

/-! ## Requests to the stored map -/

inductive Method where
  | get
  | post
  | put
  | other
deriving DecidableEq

inductive Kind where
  | mappingSet
  | mappingDelete
  | actionSet
  | actionDelete
  | soundboardLayout
deriving DecidableEq

structure Request where
  kind : Kind
  method : Method
  body : Bytes

def handle (env : Environment) (data : MidiMapData) (r : Request) :
    Except Refusal MidiMapData :=
  match r.kind with
  | .mappingSet => handleMidiMappingSet env.sfxRoot data r.body
  | .mappingDelete => handleMidiMappingDelete data r.body
  | .actionSet => handleMidiActionSet data r.body
  | .actionDelete => handleMidiActionDelete data r.body
  | .soundboardLayout => handleSoundboardLayout env data r.body

def writeRefusal (kind : Kind) : Refusal :=
  if kind = .soundboardLayout then
    internalError "Could not save the soundboard layout.\n"
  else internalError "failed to write midi_map\n"

/-- The refusal of a request if there is one, and the map that is stored. -/
def serve (env : Environment) (data : MidiMapData) (r : Request) :
    Except Refusal Unit × MidiMapData :=
  if r.kind = .soundboardLayout ∧ r.method = .get then
    (if env.listSoundboardFiles = none then
      .error (internalError "Could not read the soundboard files.\n") else .ok (),
      data)
  else if r.method ≠ .post ∧ r.method ≠ .put then
    (.error ⟨"405 Method Not Allowed", "method not allowed\n"⟩, data)
  else
    match handle env data r with
    | .error refusal => (.error refusal, data)
    | .ok new =>
        if env.writes then (.ok (), new)
        else (.error (writeRefusal r.kind), data)

/-- The map after some requests. -/
def serveAll (data : MidiMapData) (rs : List (Environment × Request)) :
    MidiMapData :=
  rs.foldl (fun data r => (serve r.1 data r.2).2) data

/-! ## Owners -/

inductive Owner where
  | clip (sfxPath : Bytes)
  | action (action : Action)
deriving DecidableEq

/-- The clip of a note, or its action. -/
def owner (data : MidiMapData) (note : Nat) : Option Owner :=
  match find MidiMapping.note note data.mappings with
  | some mapping => some (.clip mapping.sfxPath)
  | none =>
      (find MidiActionMapping.note note data.actionMappings).map
        fun mapping => .action mapping.action

/-- The tables have the capacities of the arrays. -/
structure Fits (data : MidiMapData) : Prop where
  mappings : data.mappings.length ≤ MIDI_MAPPINGS_MAX
  actions : data.actionMappings.length ≤ MIDI_ACTION_MAPPINGS_MAX

/-- No note occurs twice among clips and actions together. -/
def Unambiguous (data : MidiMapData) : Prop :=
  (data.mappings.map MidiMapping.note ++
    data.actionMappings.map MidiActionMapping.note).Nodup

instance (data : MidiMapData) : Decidable (Unambiguous data) :=
  inferInstanceAs (Decidable (List.Nodup _))

/-- A map as it is stored. -/
structure Stored (data : MidiMapData) : Prop where
  fits : Fits data
  unambiguous : Unambiguous data

variable {data new : MidiMapData} {env : Environment} {note : Nat} {sfx : Bytes}

namespace Stored

theorem clips_eq (h : Stored data) : data.clips = data.mappings :=
  List.take_of_length_le h.fits.mappings

theorem actions_eq (h : Stored data) : data.actions = data.actionMappings :=
  List.take_of_length_le h.fits.actions

theorem parts (h : Stored data) :
    (data.mappings.map MidiMapping.note).Nodup ∧
      (data.actionMappings.map MidiActionMapping.note).Nodup ∧
      ∀ m ∈ data.mappings, ∀ a ∈ data.actionMappings, m.note ≠ a.note := by
  obtain ⟨hclips, hactions, hapart⟩ := List.nodup_append'.mp h.unambiguous
  refine ⟨hclips, hactions, ?_⟩
  intro m hm a ha heq
  exact hapart (List.mem_map_of_mem hm) (heq ▸ List.mem_map_of_mem ha)

theorem of_parts (hfits : Fits data)
    (hclips : (data.mappings.map MidiMapping.note).Nodup)
    (hactions : (data.actionMappings.map MidiActionMapping.note).Nodup)
    (hapart : ∀ m ∈ data.mappings, ∀ a ∈ data.actionMappings, m.note ≠ a.note) :
    Stored data := by
  refine ⟨hfits, List.nodup_append'.mpr ⟨hclips, hactions, ?_⟩⟩
  intro n hn hn'
  obtain ⟨m, hm, rfl⟩ := List.mem_map.mp hn
  obtain ⟨a, ha, heq⟩ := List.mem_map.mp hn'
  exact hapart m hm a ha heq.symm

/-- Entries can be left out. -/
theorem sublist (h : Stored data) (hclips : new.mappings.Sublist data.mappings)
    (hactions : new.actionMappings.Sublist data.actionMappings) : Stored new := by
  constructor
  · exact ⟨hclips.length_le.trans h.fits.mappings,
      hactions.length_le.trans h.fits.actions⟩
  · exact List.Nodup.sublist
      ((hclips.map _).append (hactions.map _)) h.unambiguous

end Stored

/-! ## Setting and deleting -/

theorem setMapping_eq (h : Stored data)
    (hset : setMapping data note sfx = .ok new) :
    (position MidiMapping.note note data.mappings = data.mappings.length →
        data.mappings.length < MIDI_MAPPINGS_MAX) ∧
      dropAction new note =
        { data with
          mappings := putAt (position MidiMapping.note note data.mappings)
            ⟨note, sfx⟩ data.mappings
          actionMappings :=
            without MidiActionMapping.note note data.actionMappings } := by
  rw [setMapping, h.clips_eq] at hset
  split at hset
  · cases hset
  · next hroom =>
      cases hset
      constructor
      · intro hend
        by_contra hfull
        exact hroom ⟨hend, Nat.not_lt.mp hfull⟩
      · rw [dropAction, MidiMapData.actions,
          List.take_of_length_le h.fits.actions, eraseIdx_position h.parts.2.1]

/-- A clip that is put takes its note from the actions. -/
theorem setMapping_spec (h : Stored data)
    (hset : setMapping data note sfx = .ok new) :
    Stored (dropAction new note) ∧
      ∀ n, owner (dropAction new note) n =
        if n = note then some (.clip sfx) else owner data n := by
  obtain ⟨hclips, hactions, hapart⟩ := h.parts
  obtain ⟨hroom, hnew⟩ := setMapping_eq h hset
  rw [hnew]
  constructor
  · apply Stored.of_parts
    · constructor
      · rw [length_putAt]
        split
        · next hend => exact hroom hend
        · exact h.fits.mappings
      · exact length_without_le.trans h.fits.actions
    · exact nodup_putAt (a := (⟨note, sfx⟩ : MidiMapping)) hclips
    · exact nodup_map_without hactions
    · exact apart_putAt (a := (⟨note, sfx⟩ : MidiMapping)) hclips hapart
  · intro n
    have hfind := find_putAt (a := (⟨note, sfx⟩ : MidiMapping)) hclips n
    rw [owner, hfind, find_without]
    by_cases hn : n = note
    · rw [if_pos hn, if_pos hn, if_pos hn]
    · rw [if_neg hn, if_neg hn, if_neg hn, owner]

theorem setAction_eq {action : Action} (h : Stored data)
    (hset : setAction data note action = .ok new) :
    (position MidiActionMapping.note note data.actionMappings =
          data.actionMappings.length →
        data.actionMappings.length < MIDI_ACTION_MAPPINGS_MAX) ∧
      dropMapping new note =
        { data with
          mappings := without MidiMapping.note note data.mappings
          actionMappings :=
            putAt (position MidiActionMapping.note note data.actionMappings)
              ⟨note, action⟩ data.actionMappings } := by
  rw [setAction, h.actions_eq] at hset
  split at hset
  · cases hset
  · next hroom =>
      cases hset
      constructor
      · intro hend
        by_contra hfull
        exact hroom ⟨hend, Nat.not_lt.mp hfull⟩
      · rw [dropMapping, MidiMapData.clips,
          List.take_of_length_le h.fits.mappings, eraseIdx_position h.parts.1]

/-- An action that is put takes its note from the clips. -/
theorem setAction_spec {action : Action} (h : Stored data)
    (hset : setAction data note action = .ok new) :
    Stored (dropMapping new note) ∧
      ∀ n, owner (dropMapping new note) n =
        if n = note then some (.action action) else owner data n := by
  obtain ⟨hclips, hactions, hapart⟩ := h.parts
  obtain ⟨hroom, hnew⟩ := setAction_eq h hset
  have hother := apart_putAt (a := (⟨note, action⟩ : MidiActionMapping)) hactions
    fun a ha m hm => (hapart m hm a ha).symm
  rw [hnew]
  constructor
  · apply Stored.of_parts
    · constructor
      · exact length_without_le.trans h.fits.mappings
      · rw [length_putAt]
        split
        · next hend => exact hroom hend
        · exact h.fits.actions
    · exact nodup_map_without hclips
    · exact nodup_putAt (a := (⟨note, action⟩ : MidiActionMapping)) hactions
    · exact fun m hm a ha => (hother a ha m hm).symm
  · intro n
    have hfind := find_putAt (a := (⟨note, action⟩ : MidiActionMapping)) hactions n
    rw [owner, hfind, find_without]
    by_cases hn : n = note
    · rw [if_pos hn, if_pos hn, if_pos hn]
      rfl
    · rw [if_neg hn, if_neg hn, if_neg hn, owner]

theorem dropMapping_stored (h : Stored data) : Stored (dropMapping data note) := by
  refine h.sublist ?_ (List.Sublist.refl _)
  rw [dropMapping, h.clips_eq]
  exact List.eraseIdx_sublist _ _

theorem dropAction_stored (h : Stored data) : Stored (dropAction data note) := by
  refine h.sublist (List.Sublist.refl _) ?_
  rw [dropAction, h.actions_eq]
  exact List.eraseIdx_sublist _ _

/-! ## The layout -/

/-- The tables of notes are left as they are. -/
def SameNotes (data new : MidiMapData) : Prop :=
  new.mappings = data.mappings ∧ new.actionMappings = data.actionMappings

theorem SameNotes.stored (h : SameNotes data new) (hdata : Stored data) :
    Stored new := by
  apply hdata.sublist
  · rw [h.1]
  · rw [h.2]

theorem Stored.withCells (h : Stored data) (cells : List SoundboardGridCell) :
    Stored { data with gridCells := cells } :=
  h.sublist (List.Sublist.refl _) (List.Sublist.refl _)

theorem remove_stored (h : Stored data) (sfx : Bytes) :
    Stored (removeSoundboardGridMidiMappings env data sfx) := by
  rw [removeSoundboardGridMidiMappings, h.actions_eq, h.clips_eq]
  split
  · exact h.sublist (List.Sublist.refl _) List.filter_sublist
  · exact h.sublist List.filter_sublist (List.Sublist.refl _)

theorem clearNote_stored (env : Environment) (h : Stored data) (sfx : Bytes)
    (note : Nat) :
    Stored (clearNote env data sfx note) ∧
      (∀ m ∈ (clearNote env data sfx note).mappings, m.note ≠ note) ∧
      ∀ a ∈ (clearNote env data sfx note).actionMappings, a.note ≠ note := by
  rw [clearNote, h.actions_eq, h.clips_eq]
  refine ⟨h.sublist List.filter_sublist List.filter_sublist, ?_, ?_⟩
  · intro m hm
    rw [List.mem_filter, decide_eq_true_iff] at hm
    exact fun heq => hm.2 (.inr heq)
  · intro a ha
    rw [List.mem_filter, decide_eq_true_iff] at ha
    exact fun heq => ha.2 (.inl heq)

theorem appendNote_stored (h : Stored data)
    (hclips : ∀ m ∈ data.mappings, m.note ≠ note)
    (hactions : ∀ a ∈ data.actionMappings, a.note ≠ note)
    (happend : appendNote data sfx note = some new) : Stored new := by
  have hfresh : note ∉ data.mappings.map MidiMapping.note ++
      data.actionMappings.map MidiActionMapping.note := by
    rw [List.mem_append, not_or]
    constructor
    · intro hmem
      obtain ⟨m, hm, heq⟩ := List.mem_map.mp hmem
      exact hclips m hm heq
    · intro hmem
      obtain ⟨a, ha, heq⟩ := List.mem_map.mp hmem
      exact hactions a ha heq
  have hnodup : (note :: (data.mappings.map MidiMapping.note ++
      data.actionMappings.map MidiActionMapping.note)).Nodup :=
    List.nodup_cons.mpr ⟨hfresh, h.unambiguous⟩
  rw [appendNote] at happend
  split at happend
  · split at happend
    · cases happend
    · next hroom =>
        cases happend
        constructor
        · constructor
          · exact h.fits.mappings
          · rw [List.length_append, List.length_singleton]
            exact Nat.not_le.mp hroom
        · rw [Unambiguous, List.map_append, ← List.append_assoc]
          exact (List.perm_append_singleton _ _).nodup_iff.mpr hnodup
  · split at happend
    · cases happend
    · next hroom =>
        cases happend
        constructor
        · constructor
          · rw [List.length_append, List.length_singleton]
            exact Nat.not_le.mp hroom
          · exact h.fits.actions
        · rw [Unambiguous, List.map_append, List.append_assoc]
          exact List.perm_middle.nodup_iff.mpr hnodup

/-- A note is put only where it has been taken out of both tables. -/
theorem replace_stored (h : Stored data)
    (hreplace : replaceSoundboardGridMidiMapping env data sfx note = some new) :
    Stored new := by
  obtain ⟨hkept, hclips, hactions⟩ := clearNote_stored env h sfx note
  exact appendNote_stored hkept hclips hactions hreplace

theorem remap_stored {moved : Moved} {row column : Nat} (h : Stored data)
    (hremap : remap env data moved sfx row column = some new) : Stored new := by
  rw [remap] at hremap
  split at hremap
  · next mapped source hmapped hsource =>
      have hfirst := replace_stored h hmapped
      split at hremap
      · cases hremap
        exact hfirst
      · exact replace_stored hfirst hremap
  · exact replace_stored h hremap

theorem clearNotes_stored (h : Stored data) (moved : Moved) (sfx : Bytes) :
    Stored (clearNotes env data moved sfx) := by
  rw [clearNotes]
  split
  · exact remove_stored (remove_stored h _) _
  · exact remove_stored h _

theorem removeDisplaced_stored (env : Environment) (h : Stored data)
    (moved : Moved) :
    Stored (removeDisplaced env data moved) := by
  rw [removeDisplaced]
  split
  · exact remove_stored h _
  · exact h

theorem assignCell_stored {row column : Nat} (h : Stored data)
    (hassign : assignCell env data sfx row column = .ok new) : Stored new := by
  rw [assignCell, bind_eq_ok] at hassign
  obtain ⟨cells, -, hassign⟩ := hassign
  have hremoved := removeDisplaced_stored env (h.withCells cells)
    (displace data.gridCells sfx row column)
  rw [mapCells] at hassign
  split at hassign
  · rw [orFail_eq_ok] at hassign
    exact remap_stored (clearNotes_stored hremoved _ _) hassign
  · cases hassign
    exact hremoved

theorem setMode_same {fields : LayoutFields}
    (hset : setMode fields data = .ok new) : SameNotes data new := by
  rw [setMode] at hset
  split at hset
  · cases hset
    exact ⟨rfl, rfl⟩
  · split at hset
    · cases hset
      exact ⟨rfl, rfl⟩
    · split at hset
      · cases hset
        exact ⟨rfl, rfl⟩
      · cases hset

theorem setSize_same {fields : LayoutFields}
    (hset : setSize fields data = .ok new) : SameNotes data new := by
  rw [setSize] at hset
  split at hset
  · cases hset
    exact ⟨rfl, rfl⟩
  · rw [bind_eq_ok] at hset
    obtain ⟨rows, -, hset⟩ := hset
    rw [bind_eq_ok] at hset
    obtain ⟨columns, -, hset⟩ := hset
    cases hset
    exact ⟨rfl, rfl⟩
  · cases hset

theorem setCorner_same {files : List Bytes} {fields : LayoutFields}
    (hset : setCorner env files fields data = .ok new) : SameNotes data new := by
  rw [setCorner] at hset
  split at hset
  · cases hset
    exact ⟨rfl, rfl⟩
  · rw [bind_eq_ok] at hset
    obtain ⟨note, -, hset⟩ := hset
    rw [bind_eq_ok] at hset
    obtain ⟨index, -, hset⟩ := hset
    rw [convertToGrid, bind_eq_ok] at hset
    obtain ⟨_, -, hset⟩ := hset
    split at hset
    · rw [bind_eq_ok] at hset
      obtain ⟨cells, -, hset⟩ := hset
      cases hset
      exact ⟨rfl, rfl⟩
    · cases hset
      exact ⟨rfl, rfl⟩
  · cases hset

theorem rebuild_same {files : List Bytes} {fields : LayoutFields}
    (hset : rebuild env files fields data = .ok new) : SameNotes data new := by
  rw [rebuild] at hset
  split at hset
  · rw [bind_eq_ok] at hset
    obtain ⟨cells, -, hset⟩ := hset
    cases hset
    exact ⟨rfl, rfl⟩
  · cases hset
    exact ⟨rfl, rfl⟩

theorem assign_stored {files : List Bytes} {fields : LayoutFields}
    (h : Stored data) (hset : assign env files fields data = .ok new) :
    Stored new := by
  rw [assign] at hset
  split at hset
  · cases hset
    exact h
  · rw [assignElement, bind_eq_ok] at hset
    obtain ⟨assignment, -, hset⟩ := hset
    rw [bind_eq_ok] at hset
    obtain ⟨_, -, hset⟩ := hset
    rw [bind_eq_ok] at hset
    obtain ⟨cells, -, hset⟩ := hset
    split at hset
    · cases hset
      exact remove_stored (h.withCells _) _
    · exact assignCell_stored (h.withCells cells) hset

theorem forget_stored (h : Stored data) (original : MidiMapData) :
    Stored (forget env original data) := by
  rw [forget]
  generalize original.gridCells.take SOUNDBOARD_GRID_CELLS_MAX = cells
  induction cells generalizing data with
  | nil => exact h
  | cons cell cells ih =>
      rw [List.foldl_cons]
      split
      · exact ih h
      · exact ih (remove_stored h _)

theorem handleSoundboardLayout_stored {body : Bytes} (h : Stored data)
    (hhandle : handleSoundboardLayout env data body = .ok new) : Stored new := by
  rw [handleSoundboardLayout, bind_eq_ok] at hhandle
  obtain ⟨names, -, hhandle⟩ := hhandle
  rw [bind_eq_ok] at hhandle
  obtain ⟨fields, -, hhandle⟩ := hhandle
  rw [bind_eq_ok] at hhandle
  obtain ⟨data₁, hmode, hhandle⟩ := hhandle
  rw [bind_eq_ok] at hhandle
  obtain ⟨data₂, hsize, hhandle⟩ := hhandle
  rw [bind_eq_ok] at hhandle
  obtain ⟨data₃, hcorner, hhandle⟩ := hhandle
  rw [bind_eq_ok] at hhandle
  obtain ⟨data₄, hassign, hhandle⟩ := hhandle
  rw [bind_eq_ok] at hhandle
  obtain ⟨data₅, hrebuild, hhandle⟩ := hhandle
  cases hhandle
  have hcalibrated := (setCorner_same hcorner).stored
    ((setSize_same hsize).stored ((setMode_same hmode).stored h))
  exact forget_stored
    ((rebuild_same hrebuild).stored (assign_stored hcalibrated hassign)) _

/-! ## Requests -/

theorem handle_stored {r : Request} (h : Stored data)
    (hhandle : handle env data r = .ok new) : Stored new := by
  rw [handle] at hhandle
  split at hhandle
  · rw [handleMidiMappingSet, bind_eq_ok] at hhandle
    obtain ⟨request, -, hhandle⟩ := hhandle
    rw [bind_eq_ok] at hhandle
    obtain ⟨set, hset, hhandle⟩ := hhandle
    cases hhandle
    exact (setMapping_spec h hset).1
  · rw [handleMidiMappingDelete, bind_eq_ok] at hhandle
    obtain ⟨note, -, hhandle⟩ := hhandle
    rw [bind_eq_ok] at hhandle
    obtain ⟨_, -, hhandle⟩ := hhandle
    cases hhandle
    exact dropMapping_stored h
  · rw [handleMidiActionSet, bind_eq_ok] at hhandle
    obtain ⟨request, -, hhandle⟩ := hhandle
    rw [bind_eq_ok] at hhandle
    obtain ⟨set, hset, hhandle⟩ := hhandle
    cases hhandle
    exact (setAction_spec h hset).1
  · rw [handleMidiActionDelete, bind_eq_ok] at hhandle
    obtain ⟨note, -, hhandle⟩ := hhandle
    rw [bind_eq_ok] at hhandle
    obtain ⟨_, -, hhandle⟩ := hhandle
    cases hhandle
    exact dropAction_stored h
  · exact handleSoundboardLayout_stored h hhandle

/-- A request changes nothing, or the map of its handler is stored. -/
theorem serve_cases (env : Environment) (data : MidiMapData) (r : Request) :
    (serve env data r).2 = data ∨
      (serve env data r).1 = .ok () ∧
        handle env data r = .ok (serve env data r).2 := by
  rw [serve]
  split
  · exact .inl rfl
  · split
    · exact .inl rfl
    · split
      · exact .inl rfl
      · next new hhandle =>
          split
          · exact .inr ⟨rfl, hhandle⟩
          · exact .inl rfl

theorem serve_stored (h : Stored data) (env : Environment) (r : Request) :
    Stored (serve env data r).2 := by
  rcases serve_cases env data r with hsame | ⟨-, hhandle⟩
  · rw [hsame]
    exact h
  · exact handle_stored h hhandle

theorem serveAll_stored (h : Stored data) (rs : List (Environment × Request)) :
    Stored (serveAll data rs) := by
  induction rs generalizing data with
  | nil => exact h
  | cons r rs ih => exact ih (serve_stored h r.1 r.2)

/-- A refusal leaves the map as it is. -/
theorem serve_refused {r : Request} {refusal : Refusal}
    (h : (serve env data r).1 = .error refusal) : (serve env data r).2 = data := by
  rcases serve_cases env data r with hsame | ⟨hok, -⟩
  · exact hsame
  · rw [hok] at h
    cases h

/-- A setter that is not refused has stored the map of its handler. -/
theorem handle_of_serve_ok {r : Request} (hkind : r.kind ≠ .soundboardLayout)
    (h : (serve env data r).1 = .ok ()) :
    handle env data r = .ok (serve env data r).2 := by
  rw [serve, if_neg (fun hget => hkind hget.1)] at h ⊢
  split at h
  · cases h
  · next hmethod =>
      rw [if_neg hmethod]
      split at h
      · cases h
      · next new hhandle =>
          split at h
          · next hwrites =>
              rw [hhandle, if_pos hwrites]
          · cases h

/-- The owner that a setter asks for. -/
def requestedOwner (env : Environment) (r : Request) : Option (Nat × Owner) :=
  match r.kind with
  | .mappingSet =>
      (mappingRequest env.sfxRoot r.body).toOption.map fun request =>
        (request.1, .clip request.2)
  | .actionSet =>
      (actionRequest r.body).toOption.map fun request =>
        (request.1, .action request.2)
  | _ => none

theorem handle_setter {r : Request} (h : Stored data)
    (hkind : r.kind = .mappingSet ∨ r.kind = .actionSet)
    (hhandle : handle env data r = .ok new) :
    ∃ note o, requestedOwner env r = some (note, o) ∧
      ∀ n, owner new n = if n = note then some o else owner data n := by
  rw [handle] at hhandle
  rcases hkind with hkind | hkind
  · rw [hkind] at hhandle
    dsimp only at hhandle
    rw [handleMidiMappingSet, bind_eq_ok] at hhandle
    obtain ⟨request, hrequest, hhandle⟩ := hhandle
    rw [bind_eq_ok] at hhandle
    obtain ⟨set, hset, hhandle⟩ := hhandle
    cases hhandle
    refine ⟨request.1, .clip request.2, ?_, (setMapping_spec h hset).2⟩
    rw [requestedOwner, hkind]
    dsimp only
    rw [hrequest]
    rfl
  · rw [hkind] at hhandle
    dsimp only at hhandle
    rw [handleMidiActionSet, bind_eq_ok] at hhandle
    obtain ⟨request, hrequest, hhandle⟩ := hhandle
    rw [bind_eq_ok] at hhandle
    obtain ⟨set, hset, hhandle⟩ := hhandle
    cases hhandle
    refine ⟨request.1, .action request.2, ?_, (setAction_spec h hset).2⟩
    rw [requestedOwner, hkind]
    dsimp only
    rw [hrequest]
    rfl

/-- The map of a device without a file. -/
def freshMap : MidiMapData where
  mappings := []
  actionMappings := []
  soundboardLayout := .normal
  gridRows := 4
  gridColumns := 4
  gridInitialized := false
  gridCornerMask := fun _ => false
  gridCornerNotes := fun _ => 0
  gridCells := []

def kickOnly : Environment where
  sfxRoot := ascii "/data/sfx"
  sameFile := fun _ _ => false
  listSoundboardFiles := some [ascii "kick.wav"]
  writes := true

/-- A clip and an action are set on one note, and the clip is put on a cell. -/
def oneNote : List (Environment × Request) :=
  [(kickOnly, ⟨.mappingSet, .post, ascii "note=60&sfx=kick.wav"⟩),
    (kickOnly, ⟨.actionSet, .post, ascii "note=60&action=stop_all"⟩),
    (kickOnly, ⟨.soundboardLayout, .post, ascii "mode=grid&sfx=kick.wav&row=1&column=2"⟩)]

end Audiox.Http.MidiMap
