import Audiox.Bluetooth.PairedRoundTrip
import Mathlib

/-!
# Paired devices over a restart

The table of devices is filled from the file once, and the file is written anew
from the table whenever a paired device changes.  A device that the reading did
not reach is not in the table, and the next writing drops it from the file.
-/

namespace Audiox.Bluetooth

open ByteCodec Config Scenes

/-! ## The table -/

/-- The table of devices, and the devices that the file was written for. -/
structure Table where
  devices : List BluetoothDevice
  stored : List BluetoothDevice
  inboundPhone : Address
deriving DecidableEq

/-- A device that a scan found. -/
structure DiscoveredDevice where
  address : Address
  name : Bytes
  classic : Bool

theorem length_zeroAddress : (List.replicate 6 (0 : UInt8)).length = 6 :=
  List.length_replicate

def zeroAddress : Address := ⟨List.replicate 6 0, length_zeroAddress⟩

def zeroKey : LinkKey := ⟨List.replicate 16 0, List.length_replicate⟩

def newDevice (address : Address) : BluetoothDevice where
  address := address
  name := []
  linkKey := zeroKey
  linkKeyType := 0
  paired := false
  classic := false
  autoConnect := false
  audioSource := false
  audioSink := false

def findDevice (devices : List BluetoothDevice) (address : Address) :
    Option BluetoothDevice :=
  devices.find? (·.address = address)

/-- A change of the device that `findDevice` finds. -/
def updateDevice (address : Address)
    (change : BluetoothDevice → BluetoothDevice) :
    List BluetoothDevice → List BluetoothDevice
  | [] => []
  | device :: devices =>
      if device.address = address then change device :: devices
      else device :: updateDevice address change devices

/-- `savePaired`; writing the file succeeds as a whole or leaves the old one. -/
def Table.savePaired (s : Table) (saved : Bool) : Table :=
  if (pairedSchema (some (pairedText s.stored))).refused then s
  else if saved then { s with stored := s.devices.filter (·.paired) }
  else s

/-- What a scan found out about a device of the table. -/
def noteFound (found : DiscoveredDevice) (device : BluetoothDevice) :
    BluetoothDevice :=
  { device with
    name := if found.name = [] then device.name
      else copyBounded btNameMax found.name
    classic := device.classic || found.classic }

def addFound : List DiscoveredDevice → List BluetoothDevice →
    List BluetoothDevice
  | [], devices => devices
  | found :: rest, devices =>
      if (findDevice devices found.address).isSome then
        addFound rest (updateDevice found.address (noteFound found) devices)
      else if devices.length ≥ btMaxDevices then devices
      else
        addFound rest (devices ++ [noteFound found (newDevice found.address)])

def Table.runScan (s : Table) (found : List DiscoveredDevice) : Table :=
  { s with devices := addFound found (s.devices.filter (·.paired)) }

/-- The key of a device, as it is stored with it. -/
def keepKey (inboundPhone : Address) (linkKey : LinkKey)
    (linkKeyType : UInt8) (device : BluetoothDevice) : BluetoothDevice :=
  { device with
    linkKey := linkKey
    linkKeyType := linkKeyType
    autoConnect := if device.paired then device.autoConnect else true
    audioSource :=
      if inboundPhone = device.address then true else device.audioSource
    paired := true }

/-- The table with an entry for the address, unless it is full. -/
def withEntry (devices : List BluetoothDevice) (address : Address) :
    List BluetoothDevice :=
  if (findDevice devices address).isNone ∧ devices.length < btMaxDevices then
    devices ++ [{ newDevice address with classic := true, autoConnect := true }]
  else devices

def Table.linkKeyNotify (s : Table) (address : Address) (linkKey : LinkKey)
    (linkKeyType : UInt8) (saved : Bool) : Table :=
  { s with
    devices := updateDevice address (keepKey s.inboundPhone linkKey linkKeyType)
      (withEntry s.devices address) }.savePaired saved

def forgetKey (device : BluetoothDevice) : BluetoothDevice :=
  { device with paired := false, linkKey := zeroKey, linkKeyType := 0 }

def Table.runUnpair (s : Table) (address : Address) (saved : Bool) : Table :=
  { s with devices := updateDevice address forgetKey s.devices }.savePaired saved

def Table.requestAutoConnect (s : Table) (address : Address)
    (enabled saved : Bool) : Table :=
  match findDevice s.devices address with
  | none => s
  | some device =>
      if address = zeroAddress ∨ ¬device.paired ∨ ¬device.classic then s
      else
        { s with
          devices := updateDevice address
            ({ · with autoConnect := enabled }) s.devices }.savePaired saved

/-- The roles of a device, where they are given. -/
def giveRoles (source sink : Option Bool) (device : BluetoothDevice) :
    BluetoothDevice :=
  { device with
    audioSource := source.getD device.audioSource
    audioSink := sink.getD device.audioSink }

def Table.setDeviceRoles (s : Table) (address : Address)
    (source sink : Option Bool) (saved : Bool) : Table :=
  match findDevice s.devices address with
  | none => s
  | some device =>
      if address = zeroAddress ∨ giveRoles source sink device = device then s
      else if device.paired then
        { s with
          devices := updateDevice address (giveRoles source sink)
            s.devices }.savePaired saved
      else
        { s with
          devices := updateDevice address (giveRoles source sink) s.devices }

/-- What happens to the table.  A request of another thread that is saved late
is one that was not saved, followed by one that was. -/
inductive TableEvent where
  | scan (found : List DiscoveredDevice)
  | connRequest (phone : Address) (saved : Bool)
  | linkKeyNotify (address : Address) (linkKey : LinkKey) (linkKeyType : UInt8)
      (saved : Bool)
  | unpair (address : Address) (saved : Bool)
  | autoConnect (address : Address) (enabled saved : Bool)
  | roles (address : Address) (source sink : Option Bool) (saved : Bool)

def Table.step (s : Table) : TableEvent → Table
  | .scan found => s.runScan found
  | .connRequest phone saved =>
      { s with inboundPhone := phone }.setDeviceRoles phone (some true) none
        saved
  | .linkKeyNotify address linkKey linkKeyType saved =>
      s.linkKeyNotify address linkKey linkKeyType saved
  | .unpair address saved => s.runUnpair address saved
  | .autoConnect address enabled saved =>
      s.requestAutoConnect address enabled saved
  | .roles address source sink saved =>
      s.setDeviceRoles address source sink saved

/-- The user forgets the device. -/
def TableEvent.Forgets (address : Address) : TableEvent → Prop
  | .unpair forgotten _ => forgotten = address
  | _ => False

/-- The table after the start. -/
def Table.start (devices : List BluetoothDevice) (reading : Reading) : Table where
  devices := loadPaired (some (pairedText devices)) reading
  stored := devices
  inboundPhone := zeroAddress

/-! ## What a step keeps -/

/-- A device of the address is listed as paired. -/
def Holds (devices : List BluetoothDevice) (address : Address) : Prop :=
  ∃ device ∈ devices, device.address = address ∧ device.paired = true

theorem Holds.filter {devices : List BluetoothDevice} {address : Address}
    (h : Holds devices address) : Holds (devices.filter (·.paired)) address := by
  obtain ⟨device, hmem, haddress, hpaired⟩ := h
  exact ⟨device, List.mem_filter.mpr ⟨hmem, hpaired⟩, haddress, hpaired⟩

theorem Holds.append {devices : List BluetoothDevice} {address : Address}
    (h : Holds devices address) (more : List BluetoothDevice) :
    Holds (devices ++ more) address := by
  obtain ⟨device, hmem, hdevice⟩ := h
  exact ⟨device, List.mem_append_left _ hmem, hdevice⟩

theorem mem_updateDevice {changed : Address} {device : BluetoothDevice}
    {change : BluetoothDevice → BluetoothDevice} {devices : List BluetoothDevice}
    (h : device ∈ devices) :
    device ∈ updateDevice changed change devices ∨
      (device.address = changed ∧
        change device ∈ updateDevice changed change devices) := by
  induction devices with
  | nil => exact absurd h List.not_mem_nil
  | cons first devices ih =>
      rw [updateDevice]
      by_cases hfirst : first.address = changed
      · rw [if_pos hfirst]
        rcases List.mem_cons.mp h with rfl | hrest
        · exact .inr ⟨hfirst, List.mem_cons_self ..⟩
        · exact .inl (List.mem_cons_of_mem _ hrest)
      · rw [if_neg hfirst]
        rcases List.mem_cons.mp h with rfl | hrest
        · exact .inl (List.mem_cons_self ..)
        · exact (ih hrest).imp (List.mem_cons_of_mem _)
            fun hchanged => ⟨hchanged.1, List.mem_cons_of_mem _ hchanged.2⟩

/-- A change that leaves the device paired. -/
theorem Holds.update {devices : List BluetoothDevice} {address changed : Address}
    (h : Holds devices address) {change : BluetoothDevice → BluetoothDevice}
    (haddress : ∀ device, (change device).address = device.address)
    (hpaired : ∀ device, changed = address → device.paired = true →
      (change device).paired = true) :
    Holds (updateDevice changed change devices) address := by
  obtain ⟨device, hmem, rfl, hdevice⟩ := h
  rcases mem_updateDevice hmem with hsame | ⟨hchanged, hnew⟩
  · exact ⟨device, hsame, rfl, hdevice⟩
  · exact ⟨change device, hnew, haddress device,
      hpaired device hchanged.symm hdevice⟩

theorem Holds.addFound {address : Address} (found : List DiscoveredDevice)
    {devices : List BluetoothDevice} (h : Holds devices address) :
    Holds (addFound found devices) address := by
  induction found generalizing devices with
  | nil => exact h
  | cons first found ih =>
      rw [Bluetooth.addFound]
      split
      · exact ih (h.update (fun _ => rfl) fun _ _ hpaired => hpaired)
      · split
        · exact h
        · exact ih (h.append _)

/-- The device is in the table and in the file. -/
structure Table.Kept (address : Address) (s : Table) : Prop where
  devices : Holds s.devices address
  stored : Holds s.stored address

theorem Table.Kept.savePaired {address : Address} {s : Table}
    (h : s.Kept address) (saved : Bool) : (s.savePaired saved).Kept address := by
  rw [Table.savePaired]
  split
  · exact h
  · split
    · exact ⟨h.devices, h.devices.filter⟩
    · exact h

theorem Table.Kept.setDeviceRoles {address : Address} {s : Table}
    (h : s.Kept address) (changed : Address) (source sink : Option Bool)
    (saved : Bool) :
    (s.setDeviceRoles changed source sink saved).Kept address := by
  have hroles : Holds (updateDevice changed (giveRoles source sink) s.devices)
      address := h.devices.update (fun _ => rfl) fun _ _ hpaired => hpaired
  have hnew : { s with
      devices := updateDevice changed (giveRoles source sink)
        s.devices }.Kept address := ⟨hroles, h.stored⟩
  rw [Table.setDeviceRoles]
  split
  · exact h
  · split
    · exact h
    · split
      · exact hnew.savePaired saved
      · exact hnew

theorem Table.Kept.step {address : Address} {s : Table} (h : s.Kept address)
    {e : TableEvent} (hkeeps : ¬e.Forgets address) : (s.step e).Kept address := by
  cases e with
  | scan found => exact ⟨h.devices.filter.addFound found, h.stored⟩
  | connRequest phone saved =>
      have hphone : { s with inboundPhone := phone }.Kept address :=
        ⟨h.devices, h.stored⟩
      exact hphone.setDeviceRoles phone _ _ saved
  | linkKeyNotify changed linkKey linkKeyType saved =>
      have hentry : Holds (withEntry s.devices changed) address := by
        rw [withEntry]
        split
        · exact h.devices.append _
        · exact h.devices
      have hnew : { s with
          devices := updateDevice changed
            (keepKey s.inboundPhone linkKey linkKeyType)
            (withEntry s.devices changed) }.Kept address :=
        ⟨hentry.update (fun _ => rfl) fun _ _ _ => rfl, h.stored⟩
      exact hnew.savePaired saved
  | unpair changed saved =>
      have hother : changed ≠ address := hkeeps
      have hnew : { s with
          devices := updateDevice changed forgetKey s.devices }.Kept address :=
        ⟨h.devices.update (fun _ => rfl) fun _ heq => absurd heq hother,
          h.stored⟩
      exact hnew.savePaired saved
  | autoConnect changed enabled saved =>
      have hnew : { s with
          devices := updateDevice changed ({ · with autoConnect := enabled })
            s.devices }.Kept address :=
        ⟨h.devices.update (fun _ => rfl) fun _ _ hpaired => hpaired, h.stored⟩
      rw [Table.step, Table.requestAutoConnect]
      split
      · exact h
      · split
        · exact h
        · exact hnew.savePaired saved
  | roles changed source sink saved =>
      exact h.setDeviceRoles changed source sink saved

theorem Table.Kept.run {address : Address} {s : Table} (h : s.Kept address)
    {es : List TableEvent} (hkeeps : ∀ e ∈ es, ¬e.Forgets address) :
    (es.foldl Table.step s).Kept address := by
  induction es generalizing s with
  | nil => exact h
  | cons e es ih =>
      exact ih (h.step (hkeeps e (by simp)))
        fun e he => hkeeps e (List.mem_cons_of_mem _ he)

/-! ## A refused file -/

theorem stored_savePaired {s : Table}
    (h : (pairedSchema (some (pairedText s.stored))).refused = true)
    (saved : Bool) : s.savePaired saved = s := by
  rw [Table.savePaired, if_pos h]

theorem stored_setDeviceRoles {s : Table}
    (h : (pairedSchema (some (pairedText s.stored))).refused = true)
    (address : Address) (source sink : Option Bool) (saved : Bool) :
    (s.setDeviceRoles address source sink saved).stored = s.stored := by
  rw [Table.setDeviceRoles]
  split
  · rfl
  · split
    · rfl
    · split
      · rw [stored_savePaired (by exact h)]
      · rfl

/-- A file that is refused is never written. -/
theorem stored_step {s : Table}
    (h : (pairedSchema (some (pairedText s.stored))).refused = true)
    (e : TableEvent) : (s.step e).stored = s.stored := by
  cases e with
  | scan found => rfl
  | connRequest phone saved =>
      rw [Table.step, stored_setDeviceRoles (by exact h)]
  | linkKeyNotify address linkKey linkKeyType saved =>
      rw [Table.step, Table.linkKeyNotify, stored_savePaired (by exact h)]
  | unpair address saved =>
      rw [Table.step, Table.runUnpair, stored_savePaired (by exact h)]
  | autoConnect address enabled saved =>
      rw [Table.step, Table.requestAutoConnect]
      split
      · rfl
      · split
        · rfl
        · rw [stored_savePaired (by exact h)]
  | roles address source sink saved =>
      rw [Table.step, stored_setDeviceRoles h]

theorem stored_run {s : Table}
    (h : (pairedSchema (some (pairedText s.stored))).refused = true)
    (es : List TableEvent) : (es.foldl Table.step s).stored = s.stored := by
  induction es generalizing s with
  | nil => rfl
  | cons e es ih =>
      have hstep := stored_step h e
      rw [List.foldl_cons, ih (by rw [hstep]; exact h), hstep]

/-! ## What a reading reaches -/

/-- What the reader gets before the reading ends. -/
def Reading.pieces (file : Bytes) : Reading → List Bytes
  | .lines count => (fgets (btNameMax + 64) file).take count
  | _ => []

/-- The piece of a line that makes the device. -/
def devicePiece (device : BluetoothDevice) : Bytes :=
  if (deviceLine device).length < 312 then deviceLine device ++ [chr '\n']
  else (deviceLine device).take 312

/-- The file is refused, or the reading gets to every paired device. -/
def AllRead (devices : List BluetoothDevice) (reading : Reading) : Prop :=
  (pairedSchema (some (pairedText devices))).refused = true ∨
    ∀ device ∈ devices.filter (·.paired),
      devicePiece device ∈ reading.pieces (pairedText devices)

instance (devices : List BluetoothDevice) (reading : Reading) :
    Decidable (AllRead devices reading) := inferInstanceAs (Decidable (_ ∨ _))

theorem loadLine_devicePiece {device : BluetoothDevice}
    (h : NameOk device.name) :
    loadLine (devicePiece device) = some (readBack device) := by
  rw [devicePiece]
  split
  case isTrue hshort =>
    have hload := loadLine_deviceLine h (.inr rfl)
    rwa [List.take_of_length_le (by omega)] at hload
  case isFalse =>
    have hload := loadLine_deviceLine h (.inl rfl)
    rwa [List.append_nil] at hload

/-- A piece of the line that makes a device is the first one. -/
theorem piece_of_loadLine {device loaded : BluetoothDevice} {piece : Bytes}
    (h : NameOk device.name) (hpiece : piece ∈ linePieces 312 (deviceLine device))
    (hloaded : loadLine piece = some loaded) :
    piece = devicePiece device ∧ loaded = readBack device := by
  have hfirst := loadLine_devicePiece h
  have hall := filterMap_linePieces h
  obtain ⟨rest, hrest⟩ : ∃ rest, linePieces 312 (deviceLine device) =
      devicePiece device :: rest := by
    rw [linePieces, devicePiece]
    split
    · exact ⟨[], rfl⟩
    · exact ⟨_, rfl⟩
  rw [hrest] at hpiece hall
  rcases List.mem_cons.mp hpiece with rfl | hmem
  · rw [hfirst] at hloaded
    exact ⟨rfl, (Option.some.inj hloaded).symm⟩
  · rw [List.filterMap_cons, hfirst] at hall
    have hin : loaded ∈ rest.filterMap loadLine :=
      List.mem_filterMap.mpr ⟨piece, hmem, hloaded⟩
    rw [(List.cons.inj hall).2] at hin
    exact absurd hin List.not_mem_nil

theorem loadPaired_eq_pieces {file : Bytes}
    (h : (pairedSchema (some file)).refused = false) (reading : Reading) :
    loadPaired (some file) reading =
      ((reading.pieces file).filterMap loadLine).take btMaxDevices := by
  cases reading with
  | notOpened => rfl
  | schemaFails => rfl
  | lines count =>
      rw [loadPaired, h]
      rfl

theorem pieces_sublist (file : Bytes) (reading : Reading) :
    (reading.pieces file).Sublist (fgets (btNameMax + 64) file) := by
  cases reading with
  | notOpened => exact List.nil_sublist _
  | schemaFails => exact List.nil_sublist _
  | lines count => exact List.take_sublist _ _

section Loaded

variable {devices : List BluetoothDevice} {reading : Reading}
  (hnames : ∀ device ∈ devices, NameOk device.name)
include hnames

/-- The table after the start has only devices that were reached. -/
theorem mem_loadPaired {loaded : BluetoothDevice}
    (h : loaded ∈ loadPaired (some (pairedText devices)) reading) :
    ∃ device ∈ devices.filter (·.paired), loaded = readBack device ∧
      devicePiece device ∈ reading.pieces (pairedText devices) := by
  have hrefused : (pairedSchema (some (pairedText devices))).refused = false := by
    by_contra hyes
    rw [Bool.not_eq_false] at hyes
    cases reading with
    | notOpened => exact absurd h List.not_mem_nil
    | schemaFails => exact absurd h List.not_mem_nil
    | lines count =>
        rw [loadPaired, if_pos hyes] at h
        exact absurd h List.not_mem_nil
  rw [loadPaired_eq_pieces hrefused] at h
  obtain ⟨piece, hpiece, hloaded⟩ := List.mem_filterMap.mp (List.mem_of_mem_take h)
  have hline := (pieces_sublist _ _).subset hpiece
  rw [fgets_pairedText hnames (by decide)] at hline
  obtain ⟨line, hline, hmem⟩ := List.mem_flatMap.mp hline
  rcases List.mem_cons.mp hline with rfl | hline
  · have hhead : (linePieces 312 headerLine).filterMap loadLine = [] := by
      decide
    have hin : loaded ∈ (linePieces 312 headerLine).filterMap loadLine :=
      List.mem_filterMap.mpr ⟨piece, hmem, hloaded⟩
    rw [hhead] at hin
    exact absurd hin List.not_mem_nil
  · obtain ⟨device, hdevice, rfl⟩ := List.mem_map.mp hline
    have hname := hnames device (List.mem_filter.mp hdevice).1
    obtain ⟨rfl, rfl⟩ := piece_of_loadLine hname hmem hloaded
    exact ⟨device, hdevice, rfl, hpiece⟩

theorem readBack_mem_loadPaired (hcount : devices.length ≤ btMaxDevices)
    (hrefused : (pairedSchema (some (pairedText devices))).refused = false)
    {device : BluetoothDevice} (hdevice : device ∈ devices.filter (·.paired))
    (hread : devicePiece device ∈ reading.pieces (pairedText devices)) :
    readBack device ∈ loadPaired (some (pairedText devices)) reading := by
  have hname := hnames device (List.mem_filter.mp hdevice).1
  have hfew : ((reading.pieces (pairedText devices)).filterMap loadLine).length ≤
      btMaxDevices := by
    have hsub := (pieces_sublist (pairedText devices) reading).filterMap loadLine
    have hall := filterMap_fileLines hnames
    rw [fgets_pairedText hnames (by decide),
      show btNameMax + 64 - 1 = 312 by rfl, hall] at hsub
    refine hsub.length_le.trans ?_
    rw [List.length_map]
    exact (List.length_filter_le _ _).trans hcount
  rw [loadPaired_eq_pieces hrefused, List.take_of_length_le hfew]
  exact List.mem_filterMap.mpr ⟨_, hread, loadLine_devicePiece hname⟩

end Loaded

/-! ## No paired device is dropped -/

/-- No writing drops a paired device of the file that was not forgotten. -/
def Keeps (devices : List BluetoothDevice) (reading : Reading) : Prop :=
  ∀ address, Holds devices address → ∀ es : List TableEvent,
    (∀ e ∈ es, ¬e.Forgets address) →
      Holds (es.foldl Table.step (.start devices reading)).stored address

theorem keeps_of_allRead {devices : List BluetoothDevice} {reading : Reading}
    (hnames : ∀ device ∈ devices, NameOk device.name)
    (hcount : devices.length ≤ btMaxDevices) (h : AllRead devices reading) :
    Keeps devices reading := by
  intro address hheld es hkeeps
  cases hrefused : (pairedSchema (some (pairedText devices))).refused with
  | true =>
      rw [stored_run (by exact hrefused)]
      exact hheld
  | false =>
      have hread := h.resolve_left (by simp [hrefused])
      obtain ⟨device, hmem, rfl, hpaired⟩ := hheld
      have hdevice := List.mem_filter.mpr ⟨hmem, hpaired⟩
      have hloaded := readBack_mem_loadPaired hnames hcount hrefused hdevice
        (hread device hdevice)
      have hstart : (Table.start devices reading).Kept device.address :=
        ⟨⟨_, hloaded, rfl, rfl⟩, ⟨device, hmem, rfl, hpaired⟩⟩
      exact (hstart.run hkeeps).stored

theorem map_address_updateDevice (address : Address)
    {change : BluetoothDevice → BluetoothDevice}
    (h : ∀ device, (change device).address = device.address)
    (devices : List BluetoothDevice) :
    (updateDevice address change devices).map (·.address) =
      devices.map (·.address) := by
  induction devices with
  | nil => rfl
  | cons first devices ih =>
      rw [updateDevice]
      split
      · rw [List.map_cons, List.map_cons, h]
      · rw [List.map_cons, List.map_cons, ih]

/-- The table has only its addresses and that of the new device. -/
theorem address_linkKeyNotify {s : Table} {changed address : Address}
    {linkKey : LinkKey} {linkKeyType : UInt8}
    (hrefused : (pairedSchema (some (pairedText s.stored))).refused = false)
    (h : Holds (s.linkKeyNotify changed linkKey linkKeyType true).stored address)
    (hother : changed ≠ address) : ∃ device ∈ s.devices, device.address = address := by
  have hstored : (s.linkKeyNotify changed linkKey linkKeyType true).stored =
      (updateDevice changed (keepKey s.inboundPhone linkKey linkKeyType)
        (withEntry s.devices changed)).filter (·.paired) := by
    rw [Table.linkKeyNotify, Table.savePaired]
    dsimp only
    rw [hrefused]
    rfl
  rw [hstored] at h
  obtain ⟨device, hmem, haddress, -⟩ := h
  have hin : address ∈ (withEntry s.devices changed).map (·.address) := by
    have hkeeps : ∀ device, (keepKey s.inboundPhone linkKey linkKeyType
        device).address = device.address := fun _ => rfl
    rw [← map_address_updateDevice changed hkeeps, ← haddress]
    exact List.mem_map_of_mem (List.mem_filter.mp hmem).1
  obtain ⟨entry, hentry, hsame⟩ := List.mem_map.mp hin
  rw [withEntry] at hentry
  split at hentry
  · rcases List.mem_append.mp hentry with hold | hnew
    · exact ⟨entry, hold, hsame⟩
    · rw [List.mem_singleton.mp hnew] at hsame
      exact absurd hsame hother
  · exact ⟨entry, hentry, hsame⟩

def repeatedAddress (c : UInt8) : Address :=
  ⟨List.replicate 6 c, List.length_replicate⟩

theorem exists_other_address (address : Address) : ∃ other, other ≠ address := by
  by_cases h : repeatedAddress 1 = address
  · refine ⟨repeatedAddress 2, ?_⟩
    rw [← h]
    decide
  · exact ⟨_, h⟩

theorem allRead_of_keeps {devices : List BluetoothDevice} {reading : Reading}
    (hnames : ∀ device ∈ devices, NameOk device.name)
    (haddresses : (devices.map (·.address)).Nodup)
    (h : Keeps devices reading) : AllRead devices reading := by
  cases hrefused : (pairedSchema (some (pairedText devices))).refused with
  | true => exact .inl hrefused
  | false =>
      right
      intro device hdevice
      obtain ⟨hmem, hpaired⟩ := List.mem_filter.mp hdevice
      obtain ⟨other, hother⟩ := exists_other_address device.address
      -- pairing another device writes the file
      have hheld := h device.address ⟨device, hmem, rfl, hpaired⟩
        [.linkKeyNotify other zeroKey 0 true] (by simp [TableEvent.Forgets])
      obtain ⟨loaded, hloaded, haddress⟩ :=
        address_linkKeyNotify (s := .start devices reading) hrefused hheld hother
      obtain ⟨found, hfound, rfl, hpiece⟩ := mem_loadPaired hnames hloaded
      have hsame : found = device :=
        List.inj_on_of_nodup_map haddresses (List.mem_filter.mp hfound).1 hmem
          haddress
      rwa [← hsame]

/-- Which devices come back, and which readings drop none of them. -/
theorem paired_survive_iff {devices : List BluetoothDevice}
    (hnames : ∀ device ∈ devices, NameOk device.name)
    (haddresses : (devices.map (·.address)).Nodup)
    (hcount : devices.length ≤ btMaxDevices) :
    (∀ reading : Reading, reading.Whole (pairedText devices) →
      (loadPaired (some (pairedText devices)) reading =
          (devices.filter (·.paired)).map ({ · with classic := true }) ↔
        ∀ device ∈ devices.filter (·.paired), Survives device)) ∧
      ∀ reading, Keeps devices reading ↔ AllRead devices reading := by
  constructor
  · intro reading hwhole
    exact loadPaired_eq_iff hnames hcount hwhole
  · intro reading
    constructor
    · exact allRead_of_keeps hnames haddresses
    · exact keeps_of_allRead hnames hcount

def headset (name : Bytes) : BluetoothDevice :=
  { newDevice (repeatedAddress 0xa1) with
    name := name, paired := true, classic := true, autoConnect := true,
    audioSink := true }

theorem paired_survive_iff_headset :
    loadPaired (some (pairedText [headset (ascii "Kitchen speaker")]))
        (.lines 2) = [headset (ascii "Kitchen speaker")] ∧
      Keeps [headset (ascii "Kitchen speaker")] (.lines 2) := by
  have hname : ∀ device ∈ [headset (ascii "Kitchen speaker")],
      NameOk device.name := by
    intro device hdevice
    rw [List.mem_singleton.mp hdevice]
    exact nameOk_iff.mpr ⟨ascii "Kitchen speaker", by decide⟩
  obtain ⟨hback, hkeeps⟩ := paired_survive_iff hname (List.nodup_singleton _)
    (by simp [btMaxDevices])
  constructor
  · exact (hback (.lines 2) ⟨2, rfl, by decide +kernel⟩).mpr (by decide +kernel)
  · exact (hkeeps (.lines 2)).mpr (by decide +kernel)

/-- A device whose name is a dash comes back without it, and a file that is not
opened once is written without the devices it had. -/
theorem paired_are_lost :
    loadPaired (some (pairedText [headset (ascii "-")])) (.lines 2) ≠
        [headset (ascii "-")] ∧
      ¬Keeps [headset (ascii "-")] .notOpened := by
  constructor
  · decide
  · intro hkeeps
    have hheld := hkeeps (repeatedAddress 0xa1)
      ⟨headset (ascii "-"), List.mem_singleton_self _, rfl, rfl⟩
      [.linkKeyNotify (repeatedAddress 1) zeroKey 4 true]
      (by simp [TableEvent.Forgets])
    have hlost : ∀ device ∈ (Table.step (.start [headset (ascii "-")] .notOpened)
        (.linkKeyNotify (repeatedAddress 1) zeroKey 4 true)).stored,
          device.address ≠ repeatedAddress 0xa1 := by decide +kernel
    obtain ⟨device, hmem, haddress, -⟩ := hheld
    exact hlost device hmem haddress

end Audiox.Bluetooth
