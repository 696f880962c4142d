import Audiox.Http.MidiMap
import Mathlib

/-!
# The layout of the soundboard

One request sets the mode and the size of the grid, calibrates its corners and
puts an element on a cell, in this order, and the cells are built anew from the
clips that exist.
-/

namespace Audiox.Http.MidiMap

open ByteCodec Config Checks Pattern KeyedArray

def SOUNDBOARD_GRID_ROWS_MAX : Nat := 8
def SOUNDBOARD_GRID_COLUMNS_MAX : Nat := 8
def SOUNDBOARD_GRID_CELLS_MAX : Nat :=
  SOUNDBOARD_GRID_ROWS_MAX * SOUNDBOARD_GRID_COLUMNS_MAX
def SOUNDBOARD_GRID_ELEMENTS_MAX : Nat := SOUNDBOARD_GRID_CELLS_MAX + 2

/-- What a request finds outside the map: the directory of the clips, whether
two paths lead to one file, the names of the clips, and whether the map can be
written. -/
structure Environment where
  sfxRoot : Bytes
  sameFile : Bytes → Bytes → Bool
  listSoundboardFiles : Option (List Bytes)
  writes : Bool

/-! ## Cells -/

def soundboardGridCellAt (cells : List SoundboardGridCell) (row column : Nat) :
    Bool :=
  cells.any fun cell => cell.row = row ∧ cell.column = column

def soundboardGridHasFile (cells : List SoundboardGridCell) (sfx : Bytes) : Bool :=
  cells.any (·.sfxPath = sfx)

def soundboardGridMappingMatches (env : Environment) (mappingPath sfx : Bytes) :
    Bool :=
  match mappingNormalizeSfx env.sfxRoot mappingPath with
  | some normalized => normalized = sfx
  | none =>
      mappingPath = sfx ∨
        (mappingPath.head? = some (chr '/') ∧
          env.sameFile mappingPath (env.sfxRoot ++ chr '/' :: sfx))

def MidiMapData.calibrated (data : MidiMapData) : Bool :=
  ∀ corner, data.gridCornerMask corner

/-- The note of a cell, from those of the corners. -/
def soundboardGridNote (data : MidiMapData) (row column : Nat) : Option Nat :=
  if data.gridRows < 2 ∨ data.gridRows > SOUNDBOARD_GRID_ROWS_MAX ∨
      data.gridColumns < 2 ∨ data.gridColumns > SOUNDBOARD_GRID_COLUMNS_MAX ∨
      row ≥ data.gridRows ∨ column ≥ data.gridColumns ∨
      data.calibrated = false then none
  else
    match ((data.gridCornerNotes 0 : Int), (data.gridCornerNotes 1 : Int),
      (data.gridCornerNotes 2 : Int), (data.gridCornerNotes 3 : Int)) with
    | (topLeft, topRight, bottomLeft, bottomRight) =>
        if (topRight - topLeft).tmod (data.gridColumns - 1) ≠ 0 ∨
            (bottomLeft - topLeft).tmod (data.gridRows - 1) ≠ 0 ∨
            topLeft + (topRight - topLeft) + (bottomLeft - topLeft) ≠ bottomRight then
          none
        else
          match topLeft + (topRight - topLeft).tdiv (data.gridColumns - 1) * column +
            (bottomLeft - topLeft).tdiv (data.gridRows - 1) * row with
          | inferred =>
              if inferred < 0 ∨ inferred > 127 then none else some inferred.toNat

/-- The positions of the grid, one row after the other. -/
def MidiMapData.positions (data : MidiMapData) : List (Nat × Nat) :=
  (List.range data.gridRows).flatMap fun row =>
    (List.range data.gridColumns).map fun column => (row, column)

def noteCell (data : MidiMapData) (note : Nat) : Option (Nat × Nat) :=
  data.positions.find? fun p => soundboardGridNote data p.1 p.2 = some note

def freeCell (data : MidiMapData) (cells : List SoundboardGridCell) :
    Option (Nat × Nat) :=
  data.positions.find? fun p => !soundboardGridCellAt cells p.1 p.2

/-- The elements that have a note, clips before actions. -/
def notedElements (data : MidiMapData) : List (Bytes × Nat) :=
  data.clips.map (fun mapping => (mapping.sfxPath, mapping.note)) ++
    data.actions.map fun mapping =>
      (match mapping.action with
        | .stopAll => SOUNDBOARD_GRID_STOP_ALL_ID
        | .samplerToggle => SOUNDBOARD_GRID_SAMPLER_TOGGLE_ID,
        mapping.note)

/-- Places an element at the cell of its note. -/
def placeNoted (env : Environment) (data : MidiMapData) (files : List Bytes)
    (fillUnassigned : Bool) (out : List SoundboardGridCell)
    (element : Bytes × Nat) : List SoundboardGridCell :=
  if fillUnassigned = false ∧
      ((data.gridCells.take SOUNDBOARD_GRID_CELLS_MAX).any fun cell =>
        soundboardGridMappingMatches env element.1 cell.sfxPath) = false then out
  else
    match noteCell data element.2,
      files.find? (soundboardGridMappingMatches env element.1) with
    | some position, some normalized =>
        if normalized = [] ∨ soundboardGridHasFile out normalized ∨
            soundboardGridCellAt out position.1 position.2 then out
        else out ++ [⟨normalized, position.1, position.2⟩]
    | _, _ => out

/-- Keeps a cell that was saved, at another position if there is one. -/
def placeSaved (data : MidiMapData) (files : List Bytes) (preferMidiNotes : Bool)
    (out : List SoundboardGridCell) (saved : SoundboardGridCell) :
    List SoundboardGridCell :=
  if saved.row ≥ data.gridRows ∨ saved.column ≥ data.gridColumns ∨
      soundboardGridHasFile out saved.sfxPath ∨ saved.sfxPath ∉ files then out
  else if soundboardGridCellAt out saved.row saved.column then
    if preferMidiNotes then
      match freeCell data out with
      | some position => out ++ [⟨saved.sfxPath, position.1, position.2⟩]
      | none => out
    else out
  else out ++ [saved]

/-- Places the clips that have no cell as long as there is one. -/
def placeFiles (data : MidiMapData) :
    List Bytes → List SoundboardGridCell → List SoundboardGridCell
  | [], out => out
  | file :: files, out =>
      if (soundboardGridAction file).isSome ∨ soundboardGridHasFile out file then
        placeFiles data files out
      else
        match freeCell data out with
        | some position =>
            placeFiles data files (out ++ [⟨file, position.1, position.2⟩])
        | none => out

def buildSoundboardGridCells (env : Environment) (data : MidiMapData)
    (files : List Bytes) (preferMidiNotes fillUnassigned : Bool) :
    Option (List SoundboardGridCell) :=
  if files.length > SOUNDBOARD_GRID_ELEMENTS_MAX ∨ data.gridRows = 0 ∨
      data.gridRows > SOUNDBOARD_GRID_ROWS_MAX ∨ data.gridColumns = 0 ∨
      data.gridColumns > SOUNDBOARD_GRID_COLUMNS_MAX then none
  else
    match (data.gridCells.take SOUNDBOARD_GRID_CELLS_MAX).foldl
      (placeSaved data files preferMidiNotes)
      (if preferMidiNotes ∧ data.calibrated then
        (notedElements data).foldl (placeNoted env data files fillUnassigned) []
      else []) with
    | out => some (if fillUnassigned then placeFiles data files out else out)

/-- All cells have notes, and no two the same. -/
def validSoundboardGridCalibration (data : MidiMapData) : Bool :=
  data.calibrated ∧ 2 ≤ data.gridRows ∧ 2 ≤ data.gridColumns ∧
    (∀ p ∈ data.positions, soundboardGridNote data p.1 p.2 ≠ none) ∧
    (data.positions.map fun p => soundboardGridNote data p.1 p.2).Nodup

/-! ## Notes of elements -/

/-- The map without a note and without the notes of an element. -/
def clearNote (env : Environment) (data : MidiMapData) (sfx : Bytes) (note : Nat) :
    MidiMapData :=
  { data with
    actionMappings := data.actions.filter fun mapping =>
      ¬(mapping.note = note ∨ soundboardGridAction sfx = some mapping.action)
    mappings := data.clips.filter fun mapping =>
      ¬(soundboardGridMappingMatches env mapping.sfxPath sfx ∨
        mapping.note = note) }

/-- Writes the note of an element behind the others. -/
def appendNote (data : MidiMapData) (sfx : Bytes) (note : Nat) :
    Option MidiMapData :=
  match soundboardGridAction sfx with
  | some action =>
      if data.actionMappings.length ≥ MIDI_ACTION_MAPPINGS_MAX then none
      else
        some { data with
          actionMappings := data.actionMappings ++ [⟨note, action⟩] }
  | none =>
      if data.mappings.length ≥ MIDI_MAPPINGS_MAX then none
      else
        some { data with
          mappings := data.mappings ++ [⟨note, copyBounded MIDI_SFX_PATH_MAX sfx⟩] }

def replaceSoundboardGridMidiMapping (env : Environment) (data : MidiMapData)
    (sfx : Bytes) (note : Nat) : Option MidiMapData :=
  appendNote (clearNote env data sfx note) sfx note

def removeSoundboardGridMidiMappings (env : Environment) (data : MidiMapData)
    (sfx : Bytes) : MidiMapData :=
  match soundboardGridAction sfx with
  | some action =>
      { data with
        actionMappings := data.actions.filter fun mapping =>
          mapping.action ≠ action }
  | none =>
      { data with
        mappings := data.clips.filter fun mapping =>
          ¬soundboardGridMappingMatches env mapping.sfxPath sfx }

/-! ## The fields of a request -/

structure LayoutFields where
  mode : Option Bytes
  rows : Option Bytes
  columns : Option Bytes
  corner : Option Bytes
  note : Option Bytes
  sfx : Option Bytes
  row : Option Bytes
  column : Option Bytes
  unassign : Option Bytes

/-- An action stands for its element. -/
def elementField (action sfx : Option Bytes) : Except Refusal (Option Bytes) :=
  match action with
  | none => .ok sfx
  | some text =>
      match sfx, midiActionFromString text with
      | none, some .stopAll => .ok (some SOUNDBOARD_GRID_STOP_ALL_ID)
      | none, some .samplerToggle => .ok (some SOUNDBOARD_GRID_SAMPLER_TOGGLE_ID)
      | _, _ => .error (badRequest "Invalid grid action.\n")

def layoutFields (body : Bytes) : Except Refusal LayoutFields := do
  let sfx ← elementField (bodyGetValue body (ascii "action") 24)
    (bodyGetValue body (ascii "sfx") MIDI_SFX_PATH_MAX)
  failIf (bodyGetValue body (ascii "mode") 16 = none ∧
      bodyGetValue body (ascii "rows") 8 = none ∧
      bodyGetValue body (ascii "corner") 24 = none ∧ sfx = none)
    (badRequest "No soundboard layout fields were provided.\n")
  .ok
    { mode := bodyGetValue body (ascii "mode") 16
      rows := bodyGetValue body (ascii "rows") 8
      columns := bodyGetValue body (ascii "columns") 8
      corner := bodyGetValue body (ascii "corner") 24
      note := bodyGetValue body (ascii "note") 8
      sfx := sfx
      row := bodyGetValue body (ascii "row") 8
      column := bodyGetValue body (ascii "column") 8
      unassign := bodyGetValue body (ascii "unassign") 8 }

def parseSoundboardGridNumber (text : Bytes) (low high : Nat) : Option Nat :=
  if text = [] then none
  else
    match strtoul text with
    | (value, [], _) => if low ≤ value ∧ value ≤ high then some value else none
    | _ => none

/-! ## The parts of a request -/

def setMode (fields : LayoutFields) (data : MidiMapData) :
    Except Refusal MidiMapData :=
  match fields.mode with
  | none => .ok data
  | some mode =>
      if mode = ascii "grid" then .ok { data with soundboardLayout := .grid }
      else if mode = ascii "normal" then
        .ok { data with soundboardLayout := .normal }
      else .error (badRequest "mode must be normal or grid\n")

/-- Another size takes the calibration back. -/
def resize (data : MidiMapData) (rows columns : Nat) : MidiMapData :=
  { data with
    gridCornerMask :=
      if data.gridRows ≠ rows ∨ data.gridColumns ≠ columns then fun _ => false
      else data.gridCornerMask
    gridRows := rows
    gridColumns := columns }

def setSize (fields : LayoutFields) (data : MidiMapData) :
    Except Refusal MidiMapData :=
  match fields.rows, fields.columns with
  | none, none => .ok data
  | some rowsText, some columnsText => do
      let rows ← orFail
        (parseSoundboardGridNumber rowsText 1 SOUNDBOARD_GRID_ROWS_MAX)
        (badRequest "Invalid grid size.\n")
      let columns ← orFail
        (parseSoundboardGridNumber columnsText 1 SOUNDBOARD_GRID_COLUMNS_MAX)
        (badRequest "Invalid grid size.\n")
      .ok (resize data rows columns)
  | _, _ => .error (badRequest "rows and columns must be set together\n")

def cornerNames : List Bytes :=
  [ascii "top_left", ascii "top_right", ascii "bottom_left", ascii "bottom_right"]

def cornerIndex (corner : Bytes) : Option (Fin 4) :=
  (List.finRange 4).find? fun i => cornerNames[i.val]? = some corner

def calibrate (data : MidiMapData) (corner : Fin 4) (note : Nat) : MidiMapData :=
  { data with
    gridCornerNotes := Function.update data.gridCornerNotes corner note
    gridCornerMask := Function.update data.gridCornerMask corner true }

/-- With the last corner the elements go to the cells of their notes. -/
def convertToGrid (env : Environment) (files : List Bytes) (data : MidiMapData) :
    Except Refusal MidiMapData := do
  failIf (data.calibrated ∧ validSoundboardGridCalibration data = false)
    (badRequest
      "Corner notes do not describe a unique, evenly numbered MIDI grid.\n")
  if validSoundboardGridCalibration data then do
    let cells ← orFail (buildSoundboardGridCells env data files true false)
      (conflict
        "Could not convert the current soundboard MIDI mappings to grid positions.\n")
    .ok { data with gridCells := cells }
  else .ok data

def setCorner (env : Environment) (files : List Bytes) (fields : LayoutFields)
    (data : MidiMapData) : Except Refusal MidiMapData :=
  match fields.corner, fields.note with
  | none, none => .ok data
  | some corner, some noteText => do
      let note ← orFail (parseSoundboardGridNumber noteText 0 127)
        (badRequest "Invalid MIDI note.\n")
      let index ← orFail (cornerIndex corner) (badRequest "Invalid grid corner.\n")
      convertToGrid env files (calibrate data index note)
  | _, _ => .error (badRequest "corner and note must be set together\n")

/-- The element of an assignment and its cell; no cell takes it off the grid. -/
structure Assignment where
  normalized : Bytes
  cell : Option (Nat × Nat)

def cellField (data : MidiMapData) (row column : Option Bytes) :
    Option (Nat × Nat) :=
  match row, column with
  | some rowText, some columnText =>
      match parseSoundboardGridNumber rowText 0 (SOUNDBOARD_GRID_ROWS_MAX - 1),
        parseSoundboardGridNumber columnText 0
          (SOUNDBOARD_GRID_COLUMNS_MAX - 1) with
      | some row, some column =>
          if row < data.gridRows ∧ column < data.gridColumns then
            some (row, column)
          else none
      | _, _ => none
  | _, _ => none

def assignmentFields (env : Environment) (fields : LayoutFields)
    (data : MidiMapData) : Option Assignment :=
  match fields.sfx.bind (mappingNormalizeSfx env.sfxRoot) with
  | none => none
  | some normalized =>
      match fields.unassign with
      | some text =>
          if text = ascii "1" ∧ fields.row = none ∧ fields.column = none then
            some ⟨normalized, none⟩
          else none
      | none =>
          (cellField data fields.row fields.column).map fun cell =>
            ⟨normalized, some cell⟩

/-- The index of another element on a cell. -/
def displacedIndex (cells : List SoundboardGridCell) (index row column : Nat) :
    Option Nat :=
  (List.range cells.length).find? fun i =>
    i ≠ index ∧ cells[i]?.any fun cell => cell.row = row ∧ cell.column = column

/-- The cells after an assignment, and the element that had the cell. -/
structure Moved where
  cells : List SoundboardGridCell
  source : Option SoundboardGridCell
  displaced : Bytes

/-- Makes room on a cell: another element on it goes where the new one was, or
off the grid. -/
def displace (cells : List SoundboardGridCell) (normalized : Bytes)
    (row column : Nat) : Moved :=
  match position SoundboardGridCell.sfxPath normalized cells with
  | index =>
      match displacedIndex cells index row column, cells[index]? with
      | none, source => ⟨cells, source, []⟩
      | some i, some source =>
          ⟨cells.modify i fun cell =>
              { cell with row := source.row, column := source.column },
            some source, (cells[i]?.map (·.sfxPath)).getD []⟩
      | some i, none =>
          ⟨takeOut i cells, none, (cells[i]?.map (·.sfxPath)).getD []⟩

/-- Writes the element behind the cells or where it was. -/
def putCell (moved : Moved) (normalized : Bytes) (row column : Nat) :
    Except Refusal (List SoundboardGridCell) :=
  match moved.source with
  | some _ =>
      .ok (moved.cells.set
        (position SoundboardGridCell.sfxPath normalized moved.cells)
        ⟨normalized, row, column⟩)
  | none =>
      if moved.cells.length ≥ SOUNDBOARD_GRID_CELLS_MAX then
        .error (conflict "Soundboard grid assignment table is full.\n")
      else .ok (moved.cells ++ [⟨normalized, row, column⟩])

/-- The notes of the cells of the element and of the one it displaced. -/
def remap (env : Environment) (data : MidiMapData) (moved : Moved)
    (normalized : Bytes) (row column : Nat) : Option MidiMapData :=
  match replaceSoundboardGridMidiMapping env data normalized
    ((soundboardGridNote data row column).getD 0), moved.source with
  | some mapped, some source =>
      if moved.displaced = [] then some mapped
      else
        replaceSoundboardGridMidiMapping env mapped moved.displaced
          ((soundboardGridNote data source.row source.column).getD
            ((soundboardGridNote data row column).getD 0))
  | mapped, _ => mapped

def unassignCell (env : Environment) (data : MidiMapData) (normalized : Bytes) :
    MidiMapData :=
  removeSoundboardGridMidiMappings env
    { data with
      gridCells :=
        if soundboardGridHasFile data.gridCells normalized then
          takeOut
            (position SoundboardGridCell.sfxPath normalized data.gridCells)
            data.gridCells
        else data.gridCells }
    normalized

/-- Takes the notes of what was displaced. -/
def removeDisplaced (env : Environment) (data : MidiMapData) (moved : Moved) :
    MidiMapData :=
  if moved.displaced ≠ [] ∧ moved.source = none then
    removeSoundboardGridMidiMappings env data moved.displaced
  else data

def clearNotes (env : Environment) (data : MidiMapData) (moved : Moved)
    (normalized : Bytes) : MidiMapData :=
  if moved.displaced ≠ [] then
    removeSoundboardGridMidiMappings env
      (removeSoundboardGridMidiMappings env data normalized) moved.displaced
  else removeSoundboardGridMidiMappings env data normalized

/-- In a calibrated grid the elements that have moved get the notes of their
cells. -/
def mapCells (env : Environment) (data : MidiMapData) (moved : Moved)
    (normalized : Bytes) (row column : Nat) : Except Refusal MidiMapData :=
  if data.soundboardLayout = .grid ∧ validSoundboardGridCalibration data then
    orFail
      (remap env (clearNotes env data moved normalized) moved normalized row column)
      (conflict "MIDI mapping table is full; the grid cell was not saved.\n")
  else .ok data

def assignCell (env : Environment) (data : MidiMapData) (normalized : Bytes)
    (row column : Nat) : Except Refusal MidiMapData := do
  let cells ← putCell (displace data.gridCells normalized row column) normalized
    row column
  mapCells env
    (removeDisplaced env { data with gridCells := cells }
      (displace data.gridCells normalized row column))
    (displace data.gridCells normalized row column) normalized row column

def assignElement (env : Environment) (files : List Bytes) (fields : LayoutFields)
    (data : MidiMapData) : Except Refusal MidiMapData := do
  let assignment ← orFail (assignmentFields env fields data)
    (badRequest "Invalid soundboard cell assignment.\n")
  failIf (assignment.normalized ∉ files)
    (conflict "Sound file not found. Refresh the soundboard and try again.\n")
  let cells ← orFail (buildSoundboardGridCells env data files false false)
    (conflict "Invalid grid.\n")
  match assignment.cell with
  | none =>
      .ok (unassignCell env { data with gridCells := cells } assignment.normalized)
  | some (row, column) =>
      assignCell env { data with gridCells := cells } assignment.normalized row
        column

def assign (env : Environment) (files : List Bytes) (fields : LayoutFields)
    (data : MidiMapData) : Except Refusal MidiMapData :=
  if fields.sfx = none ∧ fields.row = none ∧ fields.column = none ∧
      fields.unassign = none then .ok data
  else assignElement env files fields data

/-- Builds the cells anew; in the first grid all clips get cells. -/
def rebuild (env : Environment) (files : List Bytes) (fields : LayoutFields)
    (data : MidiMapData) : Except Refusal MidiMapData :=
  if data.soundboardLayout = .grid ∨ fields.rows ≠ none then do
    let cells ← orFail
      (buildSoundboardGridCells env data files false
        (data.soundboardLayout = .grid ∧ data.gridInitialized = false ∧
          data.gridCells = []))
      (conflict "Could not place all sounds in the selected grid.\n")
    .ok { data with
      gridCells := cells
      gridInitialized := data.soundboardLayout = .grid ∨ data.gridInitialized }
  else .ok data

/-- Takes the notes of the elements that are on the grid no more. -/
def forget (env : Environment) (original data : MidiMapData) : MidiMapData :=
  (original.gridCells.take SOUNDBOARD_GRID_CELLS_MAX).foldl
    (fun data cell =>
      if soundboardGridHasFile data.gridCells cell.sfxPath then data
      else removeSoundboardGridMidiMappings env data cell.sfxPath) data

/-- A request with fields. -/
def handleSoundboardLayout (env : Environment) (original : MidiMapData)
    (body : Bytes) : Except Refusal MidiMapData := do
  let names ← orFail env.listSoundboardFiles
    (internalError "Could not read the soundboard files.\n")
  let fields ← layoutFields body
  let data ← setMode fields original
  let data ← setSize fields data
  let data ← setCorner env (names ++
    [SOUNDBOARD_GRID_STOP_ALL_ID, SOUNDBOARD_GRID_SAMPLER_TOGGLE_ID]) fields data
  let data ← assign env (names ++
    [SOUNDBOARD_GRID_STOP_ALL_ID, SOUNDBOARD_GRID_SAMPLER_TOGGLE_ID]) fields data
  let data ← rebuild env (names ++
    [SOUNDBOARD_GRID_STOP_ALL_ID, SOUNDBOARD_GRID_SAMPLER_TOGGLE_ID]) fields data
  .ok (forget env original data)

end Audiox.Http.MidiMap
