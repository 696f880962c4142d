import Audiox.Bluetooth.PairedLines
import Mathlib

/-!
# Reading back the file of the paired devices

A line that does not fit into the buffer is read in two pieces, of which the
second one is no device.  The look at the schema has a smaller buffer, and a
piece of a name can look like a second header there.
-/

namespace Audiox.Bluetooth

open ByteCodec Config Scenes

/-! ## Pieces -/

/-- The pieces of a line that is not longer than two of them. -/
def linePieces (max : Nat) (line : Bytes) : List Bytes :=
  if line.length < max then [line ++ [chr '\n']]
  else [line.take max, line.drop max ++ [chr '\n']]

theorem piecesFrom_linePieces {max : Nat} (hmax : 0 < max) {line : Bytes}
    (hline : chr '\n' ∉ line) (hlen : line.length < 2 * max) (rest : Bytes) :
    piecesFrom max [] (line ++ chr '\n' :: rest) =
      linePieces max line ++ piecesFrom max [] rest := by
  by_cases hshort : line.length < max
  · rw [piecesFrom_line hline [] rest (by simpa using hshort), linePieces,
      if_pos hshort, List.nil_append]
    rfl
  · have hfront : chr '\n' ∉ line.take max :=
      fun hmem => hline (List.mem_of_mem_take hmem)
    have hback : chr '\n' ∉ line.drop max :=
      fun hmem => hline (List.mem_of_mem_drop hmem)
    have htake : (line.take max).length = max := by
      rw [List.length_take]
      omega
    have hne : line.take max ≠ [] := by
      rw [← List.length_pos_iff, htake]
      exact hmax
    have hdrop : ([] : Bytes).length + (line.drop max).length < max := by
      rw [List.length_nil, List.length_drop]
      omega
    have hsplit : line ++ chr '\n' :: rest =
        line.take max ++ (line.drop max ++ chr '\n' :: rest) := by
      rw [← List.append_assoc, List.take_append_drop]
    rw [hsplit, piecesFrom_full hfront hne [] _ (by simpa using htake),
      piecesFrom_line hback [] rest hdrop, linePieces, if_neg hshort,
      List.nil_append, List.nil_append]
    rfl

theorem piecesFrom_flatMap {max : Nat} (hmax : 0 < max) {lines : List Bytes}
    (hlines : ∀ line ∈ lines, chr '\n' ∉ line ∧ line.length < 2 * max) :
    piecesFrom max [] (lines.flatMap (· ++ ascii "\n")) =
      lines.flatMap (linePieces max) := by
  have hstop : ascii "\n" = [chr '\n'] := by decide
  induction lines with
  | nil => rfl
  | cons line lines ih =>
      have hline := hlines line (by simp)
      rw [List.flatMap_cons, List.flatMap_cons, hstop, List.append_assoc,
        List.singleton_append, piecesFrom_linePieces hmax hline.1 hline.2]
      rw [hstop] at ih
      rw [ih fun other hother => hlines other (List.mem_cons_of_mem _ hother)]

theorem mem_linePieces {max : Nat} {line piece : Bytes}
    (h : piece ∈ linePieces max line) {c : UInt8} (hc : c ∈ piece) :
    c ∈ line ∨ c = chr '\n' := by
  rw [linePieces] at h
  split at h
  · rw [List.mem_singleton.mp h, List.mem_append, List.mem_singleton] at hc
    exact hc
  · rw [List.mem_cons, List.mem_singleton] at h
    rcases h with rfl | rfl
    · exact .inl (List.mem_of_mem_take hc)
    · rw [List.mem_append, List.mem_singleton] at hc
      exact hc.imp_left List.mem_of_mem_drop

/-! ## The lines of the file -/

def headerLine : Bytes := ascii "# audiox bluetooth paired v1"

def fileLines (devices : List BluetoothDevice) : List Bytes :=
  headerLine :: (devices.filter (·.paired)).map deviceLine

theorem pairedText_eq (devices : List BluetoothDevice) :
    pairedText devices = (fileLines devices).flatMap (· ++ ascii "\n") := by
  have hhead : btPairedHeader ++ showDecimal bluetoothPairedSchemaVersion ++
      ascii "\n" = headerLine ++ ascii "\n" := by decide
  rw [pairedText, hhead, fileLines, List.flatMap_cons, List.flatMap_map]

theorem length_deviceLine {device : BluetoothDevice} (h : NameOk device.name) :
    (deviceLine device).length ≤ 326 := by
  have hhead := length_lineHead_le device
  have hname := length_writtenName_le h
  rw [deviceLine, List.length_append, List.length_append, length_lineTail]
  omega

theorem fileLines_spec {devices : List BluetoothDevice}
    (h : ∀ device ∈ devices, NameOk device.name) :
    ∀ line ∈ fileLines devices,
      (∀ c ∈ line, c = 9 ∨ 32 ≤ c) ∧ line.length ≤ 326 := by
  intro line hline
  rcases List.mem_cons.mp hline with rfl | hline
  · exact ⟨by decide +kernel, by decide +kernel⟩
  · obtain ⟨device, hdevice, rfl⟩ := List.mem_map.mp hline
    have hname := h device (List.mem_filter.mp hdevice).1
    exact ⟨deviceLine_chars hname, length_deviceLine hname⟩

/-- What the reader gets from the file, one call after the other. -/
theorem fgets_pairedText {devices : List BluetoothDevice}
    (h : ∀ device ∈ devices, NameOk device.name) {size : Nat}
    (hsize : 164 < size) :
    fgets size (pairedText devices) =
      (fileLines devices).flatMap (linePieces (size - 1)) := by
  have hspec := fileLines_spec h
  have hlines : ∀ line ∈ fileLines devices,
      chr '\n' ∉ line ∧ line.length < 2 * (size - 1) := by
    intro line hline
    obtain ⟨hchars, hlen⟩ := hspec line hline
    exact ⟨line_end_notMem hchars (by decide) (by decide), by omega⟩
  have hcstr : ∀ piece ∈ (fileLines devices).flatMap (linePieces (size - 1)),
      cstr piece = id piece := by
    intro piece hpiece
    obtain ⟨line, hline, hmem⟩ := List.mem_flatMap.mp hpiece
    apply cstr_eq_self
    intro hzero
    rcases mem_linePieces hmem hzero with hin | hnl
    · exact line_end_notMem (hspec line hline).1 (by decide) (by decide) hin
    · exact absurd hnl (by decide)
  rw [fgets, pairedText_eq, piecesFrom_flatMap (by omega) hlines,
    List.map_congr_left hcstr, List.map_id]

/-- The devices of the pieces of a line. -/
theorem filterMap_linePieces {device : BluetoothDevice}
    (h : NameOk device.name) :
    (linePieces 312 (deviceLine device)).filterMap loadLine =
      [readBack device] := by
  rw [linePieces]
  split
  case isTrue hshort =>
    have hload := loadLine_deviceLine h (.inr rfl)
    rw [List.take_of_length_le (by omega)] at hload
    rw [List.filterMap_cons, hload, List.filterMap_nil]
  case isFalse hlong =>
    have hload := loadLine_deviceLine h (.inl rfl)
    have hroom := room_ge h
    have hlen : room device ≤ 23 := by
      have hline : (deviceLine device).length =
          (lineHead device).length + (writtenName device.name).length + 23 := by
        rw [deviceLine, List.length_append, List.length_append, length_lineTail,
          Nat.add_assoc]
      rw [room]
      omega
    rw [List.append_nil] at hload
    rw [List.filterMap_cons, hload, List.filterMap_cons, drop_deviceLine h,
      loadLine_rest _ _ _ hroom hlen, List.filterMap_nil]

theorem filterMap_fileLines {devices : List BluetoothDevice}
    (h : ∀ device ∈ devices, NameOk device.name) :
    ((fileLines devices).flatMap (linePieces 312)).filterMap loadLine =
      (devices.filter (·.paired)).map readBack := by
  have hhead : (linePieces 312 headerLine).filterMap loadLine = [] := by
    decide
  have hpaired : ∀ device ∈ devices.filter (·.paired), NameOk device.name :=
    fun device hdevice => h device (List.mem_filter.mp hdevice).1
  rw [fileLines, List.flatMap_cons, List.filterMap_append, hhead,
    List.nil_append]
  generalize devices.filter (·.paired) = paired at hpaired
  induction paired with
  | nil => rfl
  | cons device paired ih =>
      rw [List.map_cons, List.flatMap_cons, List.filterMap_append,
        filterMap_linePieces (hpaired device (by simp)), List.map_cons,
        ih fun other hother => hpaired other (List.mem_cons_of_mem _ hother)]
      rfl

/-! ## The schema -/

/-- No piece of the line looks like a header. -/
def NoHeader (device : BluetoothDevice) : Prop :=
  ∀ piece ∈ linePieces 255 (deviceLine device),
    ¬btPairedHeader <+: trimLeft piece

instance (device : BluetoothDevice) : Decidable (NoHeader device) :=
  inferInstanceAs (Decidable (∀ piece ∈ linePieces 255 (deviceLine device), _))

/-- A second header makes the file invalid. -/
theorem scanSchema_found (lines : List Bytes) (version : Nat) :
    scanSchema btPairedHeader (some version) lines = some (some version) ↔
      ∀ line ∈ lines, ¬btPairedHeader <+: trimLeft line := by
  induction lines with
  | nil => simp [scanSchema]
  | cons line lines ih =>
      rw [scanSchema]
      by_cases hpre : btPairedHeader <+: trimLeft line
      · simp [hpre]
      · simp [hpre, ih]

theorem scanSchema_found_cases (lines : List Bytes) (version : Nat) :
    scanSchema btPairedHeader (some version) lines = some (some version) ∨
      scanSchema btPairedHeader (some version) lines = none := by
  induction lines with
  | nil => exact .inl rfl
  | cons line lines ih =>
      rw [scanSchema]
      split
      · exact .inr rfl
      · exact ih

theorem refused_iff {devices : List BluetoothDevice}
    (h : ∀ device ∈ devices, NameOk device.name) :
    (pairedSchema (some (pairedText devices))).refused = false ↔
      ∀ device ∈ devices.filter (·.paired), NoHeader device := by
  have hhead : linePieces 255 headerLine = [headerLine ++ [chr '\n']] := by
    decide
  have hpre : btPairedHeader <+: trimLeft (headerLine ++ [chr '\n']) := by
    decide
  have hversion : schemaVersion ((trimLeft (headerLine ++ [chr '\n'])).drop
      btPairedHeader.length) = some 1 := by decide
  have hscan : scanSchema btPairedHeader none (fgets 256 (pairedText devices)) =
      scanSchema btPairedHeader (some 1)
        (((devices.filter (·.paired)).map deviceLine).flatMap
          (linePieces 255)) := by
    rw [fgets_pairedText h (by decide), fileLines, List.flatMap_cons, hhead,
      List.singleton_append, scanSchema, if_pos hpre, hversion]
    rfl
  have hall : (∀ line ∈ ((devices.filter (·.paired)).map deviceLine).flatMap
      (linePieces 255), ¬btPairedHeader <+: trimLeft line) ↔
        ∀ device ∈ devices.filter (·.paired), NoHeader device := by
    simp only [List.flatMap_map, List.mem_flatMap, forall_exists_index, and_imp,
      NoHeader]
    exact ⟨fun h device hdevice piece hpiece => h piece device hdevice hpiece,
      fun h piece device hdevice hpiece => h device hdevice piece hpiece⟩
  rw [pairedSchema, checkConfigTextFileSchema, checkConfigTextSchema, hscan,
    ← hall, ← scanSchema_found _ 1]
  rcases scanSchema_found_cases (((devices.filter (·.paired)).map
    deviceLine).flatMap (linePieces 255)) 1 with hok | hnone
  · simp [hok, bluetoothPairedSchemaVersion, ConfigTextSchemaStatus.refused]
  · simp [hnone, ConfigTextSchemaStatus.refused]

/-! ## What comes back -/

/-- The reading of a whole file. -/
def Reading.Whole (file : Bytes) (reading : Reading) : Prop :=
  ∃ count, reading = .lines count ∧
    (fgets (btNameMax + 64) file).length ≤ count

theorem loadPaired_pairedText {devices : List BluetoothDevice}
    (h : ∀ device ∈ devices, NameOk device.name)
    (hcount : devices.length ≤ btMaxDevices) {reading : Reading}
    (hwhole : reading.Whole (pairedText devices)) :
    loadPaired (some (pairedText devices)) reading =
      if (pairedSchema (some (pairedText devices))).refused then []
      else (devices.filter (·.paired)).map readBack := by
  obtain ⟨count, rfl, hlen⟩ := hwhole
  have hpieces : fgets (btNameMax + 64) (pairedText devices) =
      (fileLines devices).flatMap (linePieces (btNameMax + 64 - 1)) :=
    fgets_pairedText h (by decide)
  have hload := filterMap_fileLines h
  have hfew : ((devices.filter (·.paired)).map readBack).length ≤
      btMaxDevices := by
    rw [List.length_map]
    exact (List.length_filter_le _ _).trans hcount
  rw [loadPaired, List.take_of_length_le hlen, hpieces]
  rw [show btNameMax + 64 - 1 = 312 by rfl, hload, List.take_of_length_le hfew]

/-- The name is read as it was written. -/
def KeepsName (name : Bytes) : Prop :=
  name = [] ∨ (name.head? ≠ some (chr ' ') ∧ name ≠ ascii "-")

/-- The markers fit into the buffer, or the device has what a device without
markers is given and a name that leaves no room for what is left of them. -/
def KeepsMarkers (device : BluetoothDevice) : Prop :=
  (lineHead device).length + (writtenName device.name).length ≤ 289 ∨
    (device.name.length = 248 ∧ device.autoConnect = true ∧
      device.audioSource = false ∧ device.audioSink = false)

instance (name : Bytes) : Decidable (KeepsName name) :=
  inferInstanceAs (Decidable (_ ∨ _))

instance (device : BluetoothDevice) : Decidable (KeepsMarkers device) :=
  inferInstanceAs (Decidable (_ ∨ _))

theorem isSpace_iff {c : UInt8} (h : 32 ≤ c) :
    Config.isSpace c = true ↔ c = chr ' ' := by
  constructor
  · intro hspace
    by_contra hne
    have hlt : 32 < c := by
      rw [UInt8.lt_iff_le_and_ne]
      exact ⟨h, fun heq => hne heq.symm⟩
    rw [isSpace_of_lt hlt] at hspace
    simp at hspace
  · rintro rfl
    decide

/-- Blanks in front of a name are lost. -/
theorem dropWhile_eq_self_iff {name : Bytes} (h : NameOk name) :
    name.dropWhile Config.isSpace = name ↔ name.head? ≠ some (chr ' ') := by
  cases name with
  | nil => simp
  | cons c rest =>
      have hc := isSpace_iff (h.chars c (by simp)).1
      rw [List.dropWhile_eq_self_iff]
      simp [hc]

theorem front_chars {name : Bytes} (h : NameOk name) :
    ∀ c ∈ (writtenName name).dropWhile Config.isSpace, 32 ≤ c :=
  fun c hc => written_chars h c ((List.dropWhile_suffix _).subset hc)

theorem splitAtText_front {device : BluetoothDevice} (h : NameOk device.name) :
    splitAtText (ascii "\tAUTO=")
        ((writtenName device.name).dropWhile Config.isSpace ++
          (lineTail device.autoConnect device.audioSource
            device.audioSink).take (room device)) =
      some ((writtenName device.name).dropWhile Config.isSpace,
        (lineTail device.autoConnect device.audioSource
          device.audioSink).take (room device)) := by
  apply splitAtText_append (prefix_marker _ _ _ (room_ge h))
  · intro c hc
    have hle := front_chars h c hc
    have htab : (ascii "\tAUTO=").head? = some 9 := by decide
    rw [htab]
    rintro heq
    rw [← Option.some.inj heq] at hle
    exact absurd hle (by decide)
  · decide

theorem length_front_le {name : Bytes} (h : NameOk name) :
    ((writtenName name).dropWhile Config.isSpace).length ≤ 248 :=
  (List.dropWhile_suffix _).length_le.trans (length_writtenName_le h)

/-- A line that fits. -/
theorem readBack_whole {device : BluetoothDevice} (h : NameOk device.name)
    (hroom : 23 ≤ room device) :
    readBack device =
      { device with
        name := if (writtenName device.name).dropWhile Config.isSpace =
            ascii "-" then [] else
          (writtenName device.name).dropWhile Config.isSpace
        paired := true
        classic := true } := by
  have hsplit := splitAtText_front h
  have htail := length_lineTail device.autoConnect device.audioSource
    device.audioSink
  rw [List.take_of_length_le (by omega)] at hsplit
  rw [readBack, List.take_of_length_le (by omega), readName, hsplit]
  dsimp only
  rw [readMarker_lineTail, loadedDevice]
  dsimp only
  congr 1
  · split
    · rfl
    · exact copyBounded_eq_self (Nat.lt_succ_of_le (length_front_le h))
  · exact UInt8.ofNat_toNat

/-- A line that is cut in its markers. -/
theorem readBack_cut {device : BluetoothDevice} (h : NameOk device.name)
    (hroom : room device < 23) :
    readBack device =
      { device with
        name := ((writtenName device.name).dropWhile Config.isSpace ++
          (lineTail device.autoConnect device.audioSource
            device.audioSink).take (room device)).take 248
        paired := true
        classic := true
        autoConnect := true
        audioSource := false
        audioSink := false } := by
  rw [readBack, readName, splitAtText_front h]
  dsimp only
  rw [readMarker_cut _ _ _ (room_ge h) hroom, loadedDevice]
  dsimp only
  congr 1
  exact UInt8.ofNat_toNat

theorem keepsName_iff {name : Bytes} (h : NameOk name) :
    (if (writtenName name).dropWhile Config.isSpace = ascii "-" then []
      else (writtenName name).dropWhile Config.isSpace) = name ↔
        KeepsName name := by
  by_cases hempty : name = []
  · subst hempty
    have hfront : (writtenName []).dropWhile Config.isSpace = ascii "-" := by
      decide
    simp [hfront, KeepsName]
  · have hself := dropWhile_eq_self_iff h
    rw [writtenName, if_neg hempty, KeepsName]
    constructor
    · intro heq
      right
      split at heq
      case isTrue => exact absurd heq.symm hempty
      case isFalse hne =>
        refine ⟨hself.mp heq, ?_⟩
        rwa [heq] at hne
    · rintro (hnil | ⟨hhead, hne⟩)
      · exact absurd hnil hempty
      · rw [hself.mpr hhead, if_neg hne]

/-- A name that is read together with a part of the markers is the written one
only if it is as long as a name can be. -/
theorem cut_name_iff {device : BluetoothDevice} (h : NameOk device.name)
    (hroom : room device < 23) :
    ((writtenName device.name).dropWhile Config.isSpace ++
      (lineTail device.autoConnect device.audioSource
        device.audioSink).take (room device)).take 248 = device.name ↔
      KeepsName device.name ∧ device.name.length = 248 := by
  have hhead := length_lineHead_le device
  have hwritten : writtenName device.name = device.name := by
    rw [writtenName, if_neg]
    intro hnil
    have hlen : (writtenName device.name).length = 1 := by
      rw [hnil]
      rfl
    rw [room] at hroom
    omega
  have hne : device.name ≠ [] := by
    intro hnil
    rw [hnil] at hwritten
    exact absurd hwritten (by decide)
  have hself := dropWhile_eq_self_iff h
  have hfront : (device.name.dropWhile Config.isSpace).length ≤
      device.name.length := (List.dropWhile_suffix _).length_le
  have hlen : device.name.length ≤ 248 := h.length
  rw [hwritten]
  constructor
  · intro heq
    have hall : 248 ≤ (device.name.dropWhile Config.isSpace).length := by
      by_contra hshort
      have hmarker := prefix_marker device.autoConnect device.audioSource
        device.audioSink (room_ge h)
      obtain ⟨rest, hrest⟩ := hmarker
      have htab : (9 : UInt8) ∈ device.name := by
        rw [← heq, List.take_append, ← hrest]
        apply List.mem_append_right
        have hpos : ∃ n, 248 -
            (device.name.dropWhile Config.isSpace).length = n + 1 :=
          ⟨_, (Nat.succ_pred_eq_of_pos (by omega)).symm⟩
        obtain ⟨n, hn⟩ := hpos
        rw [hn]
        exact List.mem_cons_self ..
      exact absurd (h.chars 9 htab).1 (by decide)
    have hsame : device.name.dropWhile Config.isSpace = device.name :=
      (List.dropWhile_suffix _).eq_of_length (by omega)
    refine ⟨.inr ⟨hself.mp hsame, ?_⟩, by omega⟩
    intro hdash
    have hone : device.name.length = 1 := by rw [hdash]; rfl
    omega
  · rintro ⟨hkeeps, hfull⟩
    rw [hself.mpr (hkeeps.resolve_left hne).1, List.take_left' hfull]

/-- When a device is read back as it was written. -/
theorem readBack_eq_iff {device : BluetoothDevice} (h : NameOk device.name)
    (hpaired : device.paired = true) :
    readBack device = { device with classic := true } ↔
      KeepsName device.name ∧ KeepsMarkers device := by
  by_cases hroom : 23 ≤ room device
  · have hfits : (lineHead device).length +
        (writtenName device.name).length ≤ 289 := by
      rw [room] at hroom
      omega
    rw [readBack_whole h hroom, ← keepsName_iff h, BluetoothDevice.mk.injEq]
    simp [hpaired, KeepsMarkers, hfits]
  · have hlong : ¬(lineHead device).length +
        (writtenName device.name).length ≤ 289 := by
      rw [room] at hroom
      omega
    rw [readBack_cut h (Nat.lt_of_not_le hroom), BluetoothDevice.mk.injEq,
      cut_name_iff h (Nat.lt_of_not_le hroom), KeepsMarkers]
    constructor
    · rintro ⟨-, ⟨hname, hlen⟩, -, -, -, -, hauto, hsource, hsink⟩
      exact ⟨hname, .inr ⟨hlen, hauto.symm, hsource.symm, hsink.symm⟩⟩
    · rintro ⟨hname, hfits | ⟨hlen, hauto, hsource, hsink⟩⟩
      · exact absurd hfits hlong
      · exact ⟨rfl, ⟨hname, hlen⟩, rfl, rfl, hpaired.symm, rfl, hauto.symm,
          hsource.symm, hsink.symm⟩

/-- A device that comes back as it was. -/
def Survives (device : BluetoothDevice) : Prop :=
  NoHeader device ∧ KeepsName device.name ∧ KeepsMarkers device

instance (device : BluetoothDevice) : Decidable (Survives device) :=
  inferInstanceAs (Decidable (_ ∧ _))

/-- What comes back from the whole file. -/
theorem loadPaired_eq_iff {devices : List BluetoothDevice}
    (h : ∀ device ∈ devices, NameOk device.name)
    (hcount : devices.length ≤ btMaxDevices) {reading : Reading}
    (hwhole : reading.Whole (pairedText devices)) :
    loadPaired (some (pairedText devices)) reading =
        (devices.filter (·.paired)).map ({ · with classic := true }) ↔
      ∀ device ∈ devices.filter (·.paired), Survives device := by
  have hread : ∀ device ∈ devices.filter (·.paired),
      (readBack device = { device with classic := true } ↔
        KeepsName device.name ∧ KeepsMarkers device) := by
    intro device hdevice
    obtain ⟨hmem, hpaired⟩ := List.mem_filter.mp hdevice
    exact readBack_eq_iff (h device hmem) hpaired
  rw [loadPaired_pairedText h hcount hwhole]
  cases hrefused : (pairedSchema (some (pairedText devices))).refused with
  | true =>
      rw [if_pos rfl]
      constructor
      · intro hnil device hdevice
        rw [eq_comm, List.map_eq_nil_iff] at hnil
        rw [hnil] at hdevice
        exact absurd hdevice List.not_mem_nil
      · intro hall
        have hfalse := (refused_iff h).mpr fun device hdevice =>
          (hall device hdevice).1
        rw [hrefused] at hfalse
        simp at hfalse
  | false =>
      have hheader := (refused_iff h).mp hrefused
      rw [if_neg Bool.false_ne_true, List.map_inj_left]
      constructor
      · exact fun heq device hdevice => ⟨hheader device hdevice,
          (hread device hdevice).mp (heq device hdevice)⟩
      · exact fun hall device hdevice =>
          (hread device hdevice).mpr (hall device hdevice).2

end Audiox.Bluetooth
