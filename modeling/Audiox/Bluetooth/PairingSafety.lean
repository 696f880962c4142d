import Audiox.Bluetooth.Pairing
import Audiox.Support.KeyedList
import Mathlib

/-!
# Only approved devices are paired

The invariant ties every mark in the table to an approval by the user: a paired
device, the device that is being paired, and every device that was given a
positive reply are approved.  The replies outlive a forgetting only in the
controller.
-/

namespace Audiox.Bluetooth

open ByteCodec Config Scenes Runs

/-! ## The table -/

/-- No address is listed twice. -/
def Distinct (devices : List BluetoothDevice) : Prop :=
  (devices.map (·.address)).Nodup

theorem Distinct.update {devices : List BluetoothDevice}
    (h : Distinct devices) (address : Address)
    {change : BluetoothDevice → BluetoothDevice}
    (haddress : ∀ device, (change device).address = device.address) :
    Distinct (updateDevice address change devices) := by
  rw [Distinct, map_address_updateDevice address haddress]
  exact h

theorem Distinct.filter {devices : List BluetoothDevice} (h : Distinct devices)
    (p : BluetoothDevice → Bool) : Distinct (devices.filter p) :=
  h.sublist (List.filter_sublist.map _)

theorem find_none {devices : List BluetoothDevice} {address : Address}
    (h : (findDevice devices address).isNone = true) :
    address ∉ devices.map (·.address) := by
  intro hmem
  obtain ⟨device, hdevice, haddress⟩ := List.mem_map.mp hmem
  have hnone := List.find?_eq_none.mp (Option.isNone_iff_eq_none.mp h) device
    hdevice
  simp [haddress] at hnone

theorem Distinct.concat {devices : List BluetoothDevice} (h : Distinct devices)
    {device : BluetoothDevice}
    (hnew : (findDevice devices device.address).isNone = true) :
    Distinct (devices ++ [device]) := by
  rw [Distinct, List.map_append, List.nodup_append]
  refine ⟨h, List.nodup_singleton _, ?_⟩
  intro address hmem other hother
  obtain rfl : other = device.address := by simpa using hother
  rintro rfl
  exact find_none hnew hmem

theorem Distinct.addFound (found : List DiscoveredDevice)
    {devices : List BluetoothDevice} (h : Distinct devices) :
    Distinct (addFound found devices) := by
  induction found generalizing devices with
  | nil => exact h
  | cons first found ih =>
      rw [Bluetooth.addFound]
      split
      case isTrue => exact ih (h.update first.address fun _ => rfl)
      case isFalse hnew =>
        split
        · exact h
        · apply ih
          apply h.concat
          rw [Option.isNone_iff_eq_none, ← Option.not_isSome_iff_eq_none]
          exact hnew

theorem Distinct.withEntry {devices : List BluetoothDevice}
    (h : Distinct devices) (address : Address) :
    Distinct (withEntry devices address) := by
  rw [Bluetooth.withEntry]
  split
  case isTrue hnew => exact h.concat hnew.1
  case isFalse => exact h

/-- What a change does to the devices that are in the table afterwards. -/
theorem of_mem_updateDevice {address : Address} {device : BluetoothDevice}
    {change : BluetoothDevice → BluetoothDevice} {devices : List BluetoothDevice}
    (hdistinct : Distinct devices)
    (h : device ∈ updateDevice address change devices) :
    (device ∈ devices ∧ device.address ≠ address) ∨
      ∃ old ∈ devices, old.address = address ∧ device = change old := by
  induction devices with
  | nil => exact absurd h List.not_mem_nil
  | cons first devices ih =>
      rw [Distinct, List.map_cons, List.nodup_cons] at hdistinct
      rw [updateDevice] at h
      by_cases hfirst : first.address = address
      · rw [if_pos hfirst] at h
        rcases List.mem_cons.mp h with rfl | hrest
        · exact .inr ⟨first, List.mem_cons_self .., hfirst, rfl⟩
        · refine .inl ⟨List.mem_cons_of_mem _ hrest, ?_⟩
          intro hsame
          rw [hfirst, ← hsame] at hdistinct
          exact hdistinct.1 (List.mem_map_of_mem hrest)
      · rw [if_neg hfirst] at h
        rcases List.mem_cons.mp h with rfl | hrest
        · exact .inl ⟨List.mem_cons_self .., hfirst⟩
        · rcases ih hdistinct.2 hrest with ⟨hmem, hne⟩ | ⟨old, hold, hchange⟩
          · exact .inl ⟨List.mem_cons_of_mem _ hmem, hne⟩
          · exact .inr ⟨old, List.mem_cons_of_mem _ hold, hchange⟩

/-- Every paired device of the table is one that `P` allows with its key. -/
def PairedAll (P : Address → LinkKey → Prop) (devices : List BluetoothDevice) :
    Prop :=
  ∀ device ∈ devices, device.paired = true → P device.address device.linkKey

section Paired

variable {P : Address → LinkKey → Prop} {devices : List BluetoothDevice}

theorem PairedAll.filter (h : PairedAll P devices) (p : BluetoothDevice → Bool) :
    PairedAll P (devices.filter p) :=
  fun device hdevice => h device (List.mem_filter.mp hdevice).1

theorem PairedAll.concat (h : PairedAll P devices) {device : BluetoothDevice}
    (hnew : device.paired = false) : PairedAll P (devices ++ [device]) := by
  intro other hother hpaired
  rcases List.mem_append.mp hother with hold | hlast
  · exact h other hold hpaired
  · rw [List.mem_singleton.mp hlast, hnew] at hpaired
    simp at hpaired

/-- A change that leaves key and mark as they are. -/
theorem PairedAll.update (h : PairedAll P devices) (hdistinct : Distinct devices)
    (address : Address) {change : BluetoothDevice → BluetoothDevice}
    (haddress : ∀ device, (change device).address = device.address)
    (hkey : ∀ device, (change device).linkKey = device.linkKey)
    (hpaired : ∀ device, (change device).paired = device.paired) :
    PairedAll P (updateDevice address change devices) := by
  intro device hdevice hmark
  rcases of_mem_updateDevice hdistinct hdevice with ⟨hmem, -⟩ | ⟨old, hold, -, rfl⟩
  · exact h device hmem hmark
  · rw [haddress, hkey]
    rw [hpaired] at hmark
    exact h old hold hmark

theorem PairedAll.addFound (found : List DiscoveredDevice)
    (h : PairedAll P devices) (hdistinct : Distinct devices) :
    PairedAll P (addFound found devices) := by
  induction found generalizing devices with
  | nil => exact h
  | cons first found ih =>
      rw [Bluetooth.addFound]
      split
      case isTrue =>
        exact ih (h.update hdistinct first.address (fun _ => rfl) (fun _ => rfl)
          fun _ => rfl) (hdistinct.update first.address fun _ => rfl)
      case isFalse hnew =>
        have hnone : (findDevice devices first.address).isNone = true := by
          rw [Option.isNone_iff_eq_none, ← Option.not_isSome_iff_eq_none]
          exact hnew
        split
        · exact h
        · exact ih (h.concat rfl) (hdistinct.concat hnone)

end Paired

/-! ## The invariant -/

/-- The device whose pairing the worker has taken up. -/
def Worker.pairs : Worker → Option Address
  | .taken .pair target => some target
  | .pairing target => some target
  | .paired target => some target
  | _ => none

/-- While a device is being paired, the pairing is the one that was asked for
last, and nothing else can be asked for. -/
structure PairingContext.Flow (s : PairingContext) : Prop where
  request : s.request = .pair → s.pairing = true
  running : ∀ target, s.worker.pairs = some target →
    s.pairing = true ∧ s.pairTarget = target ∧ s.request = .none

structure Session.Inv (s : Session) : Prop where
  distinct : Distinct s.context.devices
  paired : PairedAll (fun address linkKey =>
    s.history.approved address = true ∧
      s.history.lastKey address = some linkKey) s.context.devices
  target : s.context.pairing = true →
    s.history.approved s.context.pairTarget = true
  granted : ∀ address, s.history.granted address = true →
    s.history.approved address = true
  flow : s.context.Flow
  stored : ∀ target, s.context.worker = .pairing target →
    s.context.pairKeyStored = true → Holds s.context.devices target

def ContextEvent.failsToComeUp : ContextEvent → Bool
  | .bringUpFails => true
  | _ => false

/-- A link key is notified for a device that was not forgotten since its
positive reply, and there is room for the device that is being paired; a
forgetting does not complete while the same device is to be paired; and the
adapter does not fail to come up behind a new request for pairing. -/
def Session.Careful (s : Session) (e : ContextEvent) : Prop :=
  (∀ notice ∈ e.notified, s.history.granted notice.1 = true ∧
    (s.context.pairing = true → notice.1 = s.context.pairTarget →
      (findDevice s.context.devices notice.1).isSome = true ∨
        s.context.devices.length < btMaxDevices)) ∧
    (∀ address ∈ e.forgotten s.context,
      ¬(s.context.pairing = true ∧ s.context.pairTarget = address)) ∧
    (e.failsToComeUp = true → s.context.request ≠ .pair)

instance (s : Session) (e : ContextEvent) : Decidable (s.Careful e) :=
  inferInstanceAs (Decidable (_ ∧ _ ∧ _))

theorem next_eq_some {s s' : Session} {e : ContextEvent} (h : s.next e = some s') :
    ∃ context outputs, s.context.step e = some (context, outputs) ∧
      s' = ⟨context, s.history.after s.context e outputs⟩ := by
  obtain ⟨result, hresult, rfl⟩ := Option.map_eq_some_iff.mp h
  obtain ⟨⟨context, outputs⟩, hstep, rfl⟩ := Option.map_eq_some_iff.mp hresult
  exact ⟨context, outputs, hstep, rfl⟩

/-- An event that the history does not note. -/
theorem after_quiet (h : History) {s : PairingContext} {e : ContextEvent}
    {outputs : List Output} (hnotified : e.notified = none)
    (hasked : e.asked s = none) (hforgotten : e.forgotten s = none)
    (hreplies : ∀ address, granting address outputs = false) :
    h.after s e outputs = h := by
  rw [History.after, hnotified, hasked, hforgotten]
  simp [hreplies]

section Step

variable {s : PairingContext} {h : History}

theorem Flow.not_running {target : Address} (hflow : s.Flow) (hfree : s.Free) :
    s.worker.pairs ≠ some target := by
  intro hpairs
  have hpairing := (hflow.running target hpairs).1
  rw [hfree.2.2] at hpairing
  simp at hpairing

/-- A request is taken while nothing is being carried out. -/
theorem inv_request {s' : PairingContext} {h' : History}
    (hinv : Session.Inv ⟨s, h⟩) (hfree : s.Free) (hdevices : s'.devices = s.devices)
    (hworker : s'.worker = s.worker)
    (hrequest : s'.request = .pair → s'.pairing = true)
    (happroved : ∀ address, h.approved address = true →
      h'.approved address = true)
    (htarget : s'.pairing = true → h'.approved s'.pairTarget = true)
    (hgranted : h'.granted = h.granted) (hkeys : h'.lastKey = h.lastKey) :
    Session.Inv ⟨s', h'⟩ := by
  have hidle : ∀ target, s'.worker.pairs ≠ some target := by
    intro target
    rw [hworker]
    exact Flow.not_running hinv.flow hfree
  refine ⟨?_, ?_, htarget, ?_, ⟨hrequest, ?_⟩, ?_⟩
  · change Distinct s'.devices
    rw [hdevices]
    exact hinv.distinct
  · intro device hdevice hpaired
    rw [hdevices] at hdevice
    have hold := hinv.paired device hdevice hpaired
    refine ⟨happroved _ hold.1, ?_⟩
    rw [hkeys]
    exact hold.2
  · intro address hmem
    rw [hgranted] at hmem
    exact happroved address (hinv.granted address hmem)
  · exact fun target hpairs => absurd hpairs (hidle target)
  · intro target hpairing
    have hpairs : s'.worker.pairs = some target := by
      change s'.worker = _ at hpairing
      rw [hpairing]
      rfl
    exact absurd hpairs (hidle target)

/-- The worker goes on, with the same table. -/
theorem inv_worker {s' : PairingContext} (hinv : Session.Inv ⟨s, h⟩)
    (hdevices : s'.devices = s.devices)
    (htarget : s'.pairing = true → s.pairing = true ∧ s'.pairTarget = s.pairTarget)
    (hflow : s'.Flow)
    (hstored : ∀ target, s'.worker = .pairing target → s'.pairKeyStored = true →
      s.worker = .pairing target ∧ s.pairKeyStored = true) :
    Session.Inv ⟨s', h⟩ := by
  refine ⟨?_, ?_, ?_, hinv.granted, hflow, ?_⟩
  · change Distinct s'.devices
    rw [hdevices]
    exact hinv.distinct
  · change PairedAll _ s'.devices
    rw [hdevices]
    exact hinv.paired
  · intro hpairing
    obtain ⟨hbefore, hsame⟩ := htarget hpairing
    change h.approved s'.pairTarget = true
    rw [hsame]
    exact hinv.target hbefore
  · intro target hworker hkey
    obtain ⟨hbefore, hkey⟩ := hstored target hworker hkey
    change Holds s'.devices target
    rw [hdevices]
    exact hinv.stored target hbefore hkey

/-- A device of the table changes, but neither its key nor its mark. -/
theorem inv_update (hinv : Session.Inv ⟨s, h⟩) (address : Address)
    {change : BluetoothDevice → BluetoothDevice}
    (haddress : ∀ device, (change device).address = device.address)
    (hkey : ∀ device, (change device).linkKey = device.linkKey)
    (hpaired : ∀ device, (change device).paired = device.paired) :
    Session.Inv ⟨{ s with devices := updateDevice address change s.devices }, h⟩ := by
  refine ⟨hinv.distinct.update address haddress, ?_, hinv.target, hinv.granted,
    ⟨hinv.flow.request, hinv.flow.running⟩, ?_⟩
  · exact hinv.paired.update hinv.distinct address haddress hkey hpaired
  · intro target hworker hstored
    refine (hinv.stored target hworker hstored).update haddress ?_
    intro device _ hmark
    rw [hpaired]
    exact hmark

theorem inv_roles (hinv : Session.Inv ⟨s, h⟩) (address : Address)
    (source sink : Option Bool) :
    Session.Inv ⟨s.setDeviceRoles address source sink, h⟩ := by
  rw [PairingContext.setDeviceRoles]
  split
  · exact hinv
  · exact inv_update hinv address (fun _ => rfl) (fun _ => rfl) fun _ => rfl

theorem inv_take (hinv : Session.Inv ⟨s, h⟩) : Session.Inv ⟨s.take, h⟩ := by
  refine inv_worker hinv rfl (fun hpairing => ⟨hpairing, rfl⟩) ?_ ?_
  · refine ⟨fun hrequest => by simp [PairingContext.take] at hrequest, ?_⟩
    intro target hpairs
    cases hrequest : s.request with
    | pair =>
        rw [PairingContext.take, hrequest] at hpairs
        exact ⟨hinv.flow.request hrequest, Option.some.inj hpairs, rfl⟩
    | _ =>
        rw [PairingContext.take, hrequest] at hpairs
        simp [Worker.pairs] at hpairs
  · intro target hworker
    simp [PairingContext.take] at hworker

theorem inv_bringUpFails (hinv : Session.Inv ⟨s, h⟩) (target : Address)
    (hrequest : s.request ≠ .pair) :
    Session.Inv ⟨s.bringUpFails target, h⟩ := by
  refine inv_worker hinv rfl ?_ ?_ ?_
  · intro hpairing
    simp [PairingContext.bringUpFails] at hpairing
  · refine ⟨fun hpair => absurd hpair hrequest, ?_⟩
    intro other hpairs
    simp [PairingContext.bringUpFails, Worker.pairs] at hpairs
  · intro other hworker
    simp [PairingContext.bringUpFails] at hworker

/-- The pairing is over. -/
theorem inv_endPair (hinv : Session.Inv ⟨s, h⟩) {target : Address}
    (hpairs : s.worker.pairs = some target) :
    Session.Inv ⟨{ s with pairing := false, worker := .loop }, h⟩ := by
  have hnone := (hinv.flow.running target hpairs).2.2
  have hno : s.request ≠ .pair := by
    rw [hnone]
    decide
  refine inv_worker hinv rfl ?_ ?_ ?_
  · intro hpairing
    simp at hpairing
  · refine ⟨fun hpair => absurd hpair hno, ?_⟩
    intro other hother
    simp [Worker.pairs] at hother
  · intro other hworker
    simp at hworker

theorem inv_beginPair (hinv : Session.Inv ⟨s, h⟩) {target : Address}
    (hworker : s.worker = .taken .pair target) :
    Session.Inv ⟨s.beginPair target, h⟩ := by
  have hpairs : s.worker.pairs = some target := by
    rw [hworker]
    rfl
  have hrunning := hinv.flow.running target hpairs
  have hbegin : Session.Inv ⟨{ s with
      pairKeyStored := false, pairFailure := 0, worker := .pairing target }, h⟩ := by
    refine inv_worker hinv rfl (fun hpairing => ⟨hpairing, rfl⟩) ?_ ?_
    · refine ⟨hinv.flow.request, ?_⟩
      intro other hother
      obtain rfl := Option.some.inj hother
      exact hrunning
    · intro other _ hstored
      simp at hstored
  rw [PairingContext.beginPair]
  split
  · split
    · exact inv_endPair hinv hpairs
    · exact hbegin
  · exact hbegin

/-- The worker turns to something that is no pairing. -/
theorem inv_leave (hinv : Session.Inv ⟨s, h⟩) {worker : Worker}
    (hpairs : worker.pairs = none) :
    Session.Inv ⟨{ s with worker := worker }, h⟩ := by
  refine inv_worker hinv rfl (fun hpairing => ⟨hpairing, rfl⟩) ?_ ?_
  · refine ⟨hinv.flow.request, ?_⟩
    intro target hother
    change worker.pairs = some target at hother
    rw [hpairs] at hother
    simp at hother
  · intro target hworker
    change worker = .pairing target at hworker
    rw [hworker] at hpairs
    simp [Worker.pairs] at hpairs

theorem inv_dispatch (hinv : Session.Inv ⟨s, h⟩) {next : BluetoothRequest}
    {target : Address} (hworker : s.worker = .taken next target) :
    Session.Inv ⟨s.dispatch target next, h⟩ := by
  cases next with
  | pair => exact inv_beginPair hinv hworker
  | scan => exact inv_leave hinv rfl
  | unpair => exact inv_leave hinv rfl
  | none => exact inv_leave hinv rfl
  | connect => exact inv_leave hinv rfl
  | disconnect => exact inv_leave hinv rfl

theorem inv_finishScan (hinv : Session.Inv ⟨s, h⟩)
    (found : List DiscoveredDevice) : Session.Inv ⟨s.finishScan found, h⟩ := by
  have hkept := hinv.distinct.filter (·.paired)
  refine ⟨hkept.addFound found, ?_, hinv.target, hinv.granted,
    ⟨hinv.flow.request, ?_⟩, ?_⟩
  · exact (hinv.paired.filter (·.paired)).addFound found hkept
  · intro target hpairs
    simp [PairingContext.finishScan, Worker.pairs] at hpairs
  · intro target hworker
    simp [PairingContext.finishScan] at hworker

theorem inv_publishLinkStatus (hinv : Session.Inv ⟨s, h⟩) :
    Session.Inv ⟨s.publishLinkStatus, h⟩ := by
  rw [PairingContext.publishLinkStatus]
  split
  · exact hinv
  · exact inv_worker hinv rfl (fun hpairing => ⟨hpairing, rfl⟩)
      ⟨hinv.flow.request, hinv.flow.running⟩
      fun target hworker hstored => ⟨hworker, hstored⟩

theorem inv_finishPair (hinv : Session.Inv ⟨s, h⟩) {target : Address}
    (hworker : s.worker = .pairing target) :
    Session.Inv ⟨{ s with worker := .paired target }, h⟩ := by
  have hrunning := hinv.flow.running target (by rw [hworker]; rfl)
  refine inv_worker hinv rfl (fun hpairing => ⟨hpairing, rfl⟩) ?_ ?_
  · refine ⟨hinv.flow.request, ?_⟩
    intro other hpairs
    obtain rfl := Option.some.inj hpairs
    exact hrunning
  · intro other hother
    simp at hother

theorem inv_finishUnpair (hinv : Session.Inv ⟨s, h⟩) {target : Address}
    {e : ContextEvent} (hnotified : e.notified = none)
    (hforgotten : e.forgotten s = some target)
    (hother : ¬(s.pairing = true ∧ s.pairTarget = target)) :
    Session.Inv ⟨s.finishUnpair target, h.after s e []⟩ := by
  have happroved : ∀ address, address ≠ target → h.approved address = true →
      (h.after s e []).approved address = true := by
    intro address hne hold
    rw [History.after]
    dsimp only
    rw [hold, hforgotten]
    simp [hne.symm]
  have hkeys : (h.after s e []).lastKey = h.lastKey := by
    rw [History.after, hnotified]
  refine ⟨hinv.distinct.update target fun _ => rfl, ?_, ?_, ?_,
    ⟨hinv.flow.request, ?_⟩, ?_⟩
  · intro device hdevice hpaired
    rcases of_mem_updateDevice hinv.distinct hdevice with
      ⟨hmem, hne⟩ | ⟨old, -, -, rfl⟩
    · have hold := hinv.paired device hmem hpaired
      refine ⟨happroved _ hne hold.1, ?_⟩
      rw [hkeys]
      exact hold.2
    · simp [forgetKey] at hpaired
  · intro hpairing
    have hne : s.pairTarget ≠ target := fun hsame => hother ⟨hpairing, hsame⟩
    exact happroved _ hne (hinv.target hpairing)
  · intro address hmem
    simp only [History.after, granting, List.any_nil, Bool.or_false,
      Bool.and_eq_true] at hmem
    have hne : address ≠ target := by
      rintro rfl
      simp [hforgotten] at hmem
    exact happroved address hne (hinv.granted address hmem.1)
  · intro other hpairs
    simp [PairingContext.finishUnpair, Worker.pairs] at hpairs
  · intro other hworker
    simp [PairingContext.finishUnpair] at hworker

/-- A positive reply to a device that may pair. -/
theorem inv_replied {h' : History} (hinv : Session.Inv ⟨s, h⟩)
    (happroved : h'.approved = h.approved) (hkeys : h'.lastKey = h.lastKey)
    (hgranted : ∀ address, h'.granted address = true →
      h.granted address = true ∨ h.approved address = true) :
    Session.Inv ⟨s, h'⟩ := by
  refine ⟨hinv.distinct, ?_, ?_, ?_, hinv.flow, hinv.stored⟩
  · rw [happroved, hkeys]
    exact hinv.paired
  · intro hpairing
    rw [happroved]
    exact hinv.target hpairing
  · intro address hmem
    rw [happroved]
    exact (hgranted address hmem).elim (hinv.granted address) id

theorem approved_of_isPaired (hinv : Session.Inv ⟨s, h⟩) {address : Address}
    (hpaired : s.isPaired address = true) : h.approved address = true := by
  rw [PairingContext.isPaired] at hpaired
  cases hfind : findDevice s.devices address with
  | none => simp [hfind] at hpaired
  | some device =>
      rw [hfind] at hpaired
      have haddress : device.address = address := by
        simpa using List.find?_some hfind
      have hold := hinv.paired device (List.mem_of_find?_eq_some hfind) hpaired
      rw [← haddress]
      exact hold.1

theorem approved_of_allowed (hinv : Session.Inv ⟨s, h⟩) {address : Address}
    (hallowed : s.pairingAllowed address = true) : h.approved address = true := by
  rw [PairingContext.pairingAllowed, Bool.or_eq_true, Bool.and_eq_true,
    beq_iff_eq] at hallowed
  rcases hallowed with ⟨hpairing, rfl⟩ | hpaired
  · exact hinv.target hpairing
  · exact approved_of_isPaired hinv hpaired

theorem mem_withEntry {device : BluetoothDevice} {devices : List BluetoothDevice}
    {address : Address} (hdevice : device ∈ withEntry devices address)
    (hne : device.address ≠ address) : device ∈ devices := by
  rw [withEntry] at hdevice
  split at hdevice
  · rcases List.mem_append.mp hdevice with hold | hnew
    · exact hold
    · rw [List.mem_singleton.mp hnew] at hne
      exact absurd rfl hne
  · exact hdevice

/-- The table has an entry for the address if it had one or was not full. -/
theorem exists_entry {devices : List BluetoothDevice} {address : Address}
    (h : (findDevice devices address).isSome = true ∨
      devices.length < btMaxDevices) :
    ∃ device ∈ withEntry devices address, device.address = address := by
  rw [withEntry]
  by_cases hsome : (findDevice devices address).isSome = true
  · obtain ⟨device, hfind⟩ := Option.isSome_iff_exists.mp hsome
    have hno : ¬((findDevice devices address).isNone = true ∧
        devices.length < btMaxDevices) := by simp [hfind]
    rw [if_neg hno]
    exact ⟨device, List.mem_of_find?_eq_some hfind,
      by simpa using List.find?_some hfind⟩
  · have hnone : (findDevice devices address).isNone = true := by
      simpa using hsome
    rw [if_pos ⟨hnone, h.resolve_left hsome⟩]
    exact ⟨_, List.mem_append_right _ (List.mem_singleton_self _), rfl⟩

theorem exists_changed {devices : List BluetoothDevice} {address : Address}
    (change : BluetoothDevice → BluetoothDevice)
    (h : ∃ device ∈ devices, device.address = address) :
    ∃ old ∈ devices, old.address = address ∧
      change old ∈ updateDevice address change devices := by
  induction devices with
  | nil =>
      obtain ⟨device, hdevice, -⟩ := h
      exact absurd hdevice List.not_mem_nil
  | cons first devices ih =>
      rw [updateDevice]
      by_cases hfirst : first.address = address
      · rw [if_pos hfirst]
        exact ⟨first, List.mem_cons_self .., hfirst, List.mem_cons_self ..⟩
      · rw [if_neg hfirst]
        obtain ⟨device, hdevice, haddress⟩ := h
        rcases List.mem_cons.mp hdevice with rfl | hrest
        · exact absurd haddress hfirst
        · obtain ⟨old, hold, hsame, hmem⟩ := ih ⟨device, hrest, haddress⟩
          exact ⟨old, List.mem_cons_of_mem _ hold, hsame,
            List.mem_cons_of_mem _ hmem⟩

theorem inv_storeLinkKey {h' : History} (hinv : Session.Inv ⟨s, h⟩)
    {address : Address} {linkKey : LinkKey} (linkKeyType : UInt8)
    (hgranted : h.granted address = true)
    (hroom : s.pairing = true → address = s.pairTarget →
      (findDevice s.devices address).isSome = true ∨
        s.devices.length < btMaxDevices)
    (happroved : h'.approved = h.approved) (hgrants : h'.granted = h.granted)
    (hkeys : ∀ other, h'.lastKey other =
      if address = other then some linkKey else h.lastKey other) :
    Session.Inv ⟨s.storeLinkKey address linkKey linkKeyType, h'⟩ := by
  have hentry := hinv.distinct.withEntry address
  refine ⟨hentry.update address fun _ => rfl, ?_, ?_, ?_,
    ⟨hinv.flow.request, hinv.flow.running⟩, ?_⟩
  · intro device hdevice hpaired
    rw [happroved, hkeys]
    rcases of_mem_updateDevice hentry hdevice with
      ⟨hmem, hne⟩ | ⟨old, -, hold, rfl⟩
    · rw [if_neg (Ne.symm hne)]
      exact hinv.paired device (mem_withEntry hmem hne) hpaired
    · have hsame : (keepKey s.inboundPhone linkKey linkKeyType old).address =
          address := hold
      rw [hsame, if_pos rfl]
      exact ⟨hinv.granted address hgranted, rfl⟩
  · intro hpairing
    rw [happroved]
    exact hinv.target hpairing
  · intro other hmem
    rw [hgrants] at hmem
    rw [happroved]
    exact hinv.granted other hmem
  · intro target hworker hstored
    have hrunning := hinv.flow.running target (by
      change s.worker = _ at hworker
      change s.worker.pairs = _
      rw [hworker]
      rfl)
    have hstored : s.pairKeyStored = true ∨
        (s.pairing = true ∧ address = s.pairTarget) := by
      simpa [PairingContext.storeLinkKey] using hstored
    rcases hstored with hbefore | ⟨hpairing, haddress⟩
    · have hholds : Holds (withEntry s.devices address) target := by
        rw [withEntry]
        split
        · exact (hinv.stored target hworker hbefore).append _
        · exact hinv.stored target hworker hbefore
      exact hholds.update (fun _ => rfl) fun _ _ _ => rfl
    · obtain ⟨old, -, hold, hmem⟩ := exists_changed
        (keepKey s.inboundPhone linkKey linkKeyType)
        (exists_entry (hroom hpairing haddress))
      refine ⟨_, hmem, ?_, rfl⟩
      exact hold.trans (haddress.trans hrunning.2.1)

end Step

/-! ## Steps -/

theorem granting_single (address : Address) (command : AgentCommand) :
    granting address [.command command] = true ↔
      command = .ioCapabilityReply address ∨ command = .pinCodeReply address := by
  simp [granting]

/-- A reply to a device that may pair, or one that grants nothing. -/
theorem inv_answer {s : PairingContext} {h : History} (hinv : Session.Inv ⟨s, h⟩)
    {packet : Bytes} {command : AgentCommand}
    (hnotified : (ContextEvent.agent packet).notified = none)
    (hallowed : ∀ address, granting address [.command command] = true →
      s.pairingAllowed address = true) :
    Session.Inv ⟨s, h.after s (.agent packet) [.command command]⟩ := by
  apply inv_replied hinv
  · funext address
    simp [History.after, ContextEvent.asked, ContextEvent.forgotten]
  · funext address
    rw [History.after, hnotified]
  · intro address hgranted
    simp only [History.after, Bool.and_eq_true, Bool.or_eq_true] at hgranted
    exact hgranted.1.imp_right fun hgrant =>
      approved_of_allowed hinv (hallowed address hgrant)

theorem granting_nil (address : Address) : granting address [] = false := rfl

/-- An event that is not answered. -/
theorem inv_silent {s s' : PairingContext} {h : History} {packet : Bytes}
    (hnotified : (ContextEvent.agent packet).notified = none)
    (hinv : Session.Inv ⟨s', h⟩) :
    Session.Inv ⟨s', h.after s (.agent packet) []⟩ := by
  rw [after_quiet h hnotified rfl rfl granting_nil]
  exact hinv

theorem inv_agent {s : PairingContext} {h : History} {packet : Bytes}
    {event : AgentEvent} (hinv : Session.Inv ⟨s, h⟩)
    (hevent : agentEvent packet = some event)
    (hcareful : Session.Careful ⟨s, h⟩ (.agent packet)) :
    Session.Inv ⟨(s.handleAgentEvent event).1, h.after s (.agent packet)
      ((s.handleAgentEvent event).2.map .command)⟩ := by
  cases event with
  | connRequest address majorClass =>
      rw [PairingContext.handleAgentEvent]
      split
      · apply inv_silent (by rw [ContextEvent.notified, hevent])
        apply inv_roles
        exact inv_worker hinv rfl (fun hpairing => ⟨hpairing, rfl⟩)
          ⟨hinv.flow.request, hinv.flow.running⟩
          fun target hworker hstored => ⟨hworker, hstored⟩
      · apply inv_silent (by rw [ContextEvent.notified, hevent])
        exact hinv
  | linkKeyRequest address =>
      apply inv_answer hinv (by rw [ContextEvent.notified, hevent])
      intro other hgrant
      rw [granting_single, PairingContext.linkKeyAnswer] at hgrant
      split at hgrant
      · split at hgrant
        · simp at hgrant
        · simp at hgrant
      · simp at hgrant
  | ioCapabilityRequest address =>
      rw [PairingContext.handleAgentEvent]
      split
      case isTrue hallowed =>
        apply inv_answer hinv (by rw [ContextEvent.notified, hevent])
        intro other hgrant
        rw [granting_single] at hgrant
        obtain rfl : address = other := by simpa using hgrant
        exact hallowed
      case isFalse =>
        apply inv_answer hinv (by rw [ContextEvent.notified, hevent])
        intro other hgrant
        rw [granting_single] at hgrant
        simp at hgrant
  | userConfirmRequest address =>
      apply inv_answer hinv (by rw [ContextEvent.notified, hevent])
      intro other hgrant
      rw [granting_single] at hgrant
      simp at hgrant
  | userPasskeyRequest address =>
      apply inv_answer hinv (by rw [ContextEvent.notified, hevent])
      intro other hgrant
      rw [granting_single] at hgrant
      simp at hgrant
  | pinCodeRequest address =>
      rw [PairingContext.handleAgentEvent]
      split
      case isTrue hallowed =>
        apply inv_answer hinv (by rw [ContextEvent.notified, hevent])
        intro other hgrant
        rw [granting_single] at hgrant
        obtain rfl : address = other := by simpa using hgrant
        exact hallowed
      case isFalse =>
        apply inv_answer hinv (by rw [ContextEvent.notified, hevent])
        intro other hgrant
        rw [granting_single] at hgrant
        simp at hgrant
  | linkKeyNotify address linkKey linkKeyType =>
      have hnotified : (ContextEvent.agent packet).notified =
          some (address, linkKey) := by
        rw [ContextEvent.notified, hevent]
      obtain ⟨hgranted, hroom⟩ := hcareful.1 _ hnotified
      apply inv_storeLinkKey hinv linkKeyType hgranted hroom
      · funext other
        simp [History.after, ContextEvent.asked, ContextEvent.forgotten]
      · funext other
        simp [History.after, ContextEvent.forgotten, granting,
          PairingContext.handleAgentEvent]
      · intro other
        rw [History.after, hnotified]
  | simplePairingFailed address status =>
      rw [PairingContext.handleAgentEvent]
      split
      · apply inv_silent (by rw [ContextEvent.notified, hevent])
        exact inv_worker hinv rfl (fun hpairing => ⟨hpairing, rfl⟩)
          ⟨hinv.flow.request, hinv.flow.running⟩
          fun target hworker hstored => ⟨hworker, hstored⟩
      · apply inv_silent (by rw [ContextEvent.notified, hevent])
        exact hinv
  | authFailed status =>
      rw [PairingContext.handleAgentEvent]
      split
      · apply inv_silent (by rw [ContextEvent.notified, hevent])
        exact inv_worker hinv rfl (fun hpairing => ⟨hpairing, rfl⟩)
          ⟨hinv.flow.request, hinv.flow.running⟩
          fun target hworker hstored => ⟨hworker, hstored⟩
      · apply inv_silent (by rw [ContextEvent.notified, hevent])
        exact hinv

section Requests

variable {s s' : PairingContext} {h : History}

/-- A request that is refused, or taken with the invariant. -/
theorem inv_getD {result : Option PairingContext} (hinv : Session.Inv ⟨s, h⟩)
    (htaken : ∀ s', result = some s' → Session.Inv ⟨s', h⟩) :
    Session.Inv ⟨result.getD s, h⟩ := by
  cases hresult : result with
  | none => exact hinv
  | some s' => exact htaken s' hresult

/-- A request for anything but a pairing. -/
theorem inv_other (hinv : Session.Inv ⟨s, h⟩) (hfree : s.Free)
    (hdevices : s'.devices = s.devices) (hworker : s'.worker = s.worker)
    (hpairing : s'.pairing = s.pairing) (hrequest : s'.request ≠ .pair) :
    Session.Inv ⟨s', h⟩ := by
  apply inv_request hinv hfree hdevices hworker
    (fun hpair => absurd hpair hrequest) (fun _ happroved => happroved) ?_ rfl rfl
  intro hyes
  rw [hpairing, hfree.2.2] at hyes
  simp at hyes

theorem inv_requestScan (hinv : Session.Inv ⟨s, h⟩) (linkUsed : Bool)
    (htaken : s.requestScan linkUsed = some s') : Session.Inv ⟨s', h⟩ := by
  rw [PairingContext.requestScan] at htaken
  split at htaken
  case isTrue hok =>
    obtain rfl := Option.some.inj htaken
    exact inv_other hinv hok.1 rfl rfl rfl (by simp)
  case isFalse => simp at htaken

theorem inv_requestConnect (hinv : Session.Inv ⟨s, h⟩) (target : Address)
    (linkFree : Bool) (htaken : s.requestConnect target linkFree = some s') :
    Session.Inv ⟨s', h⟩ := by
  rw [PairingContext.requestConnect] at htaken
  split at htaken
  · simp at htaken
  · split at htaken
    case isTrue hok =>
      obtain rfl := Option.some.inj htaken
      exact inv_other hinv hok.2.2.2.1 rfl rfl rfl (by simp)
    case isFalse => simp at htaken

theorem inv_requestDisconnect (hinv : Session.Inv ⟨s, h⟩) (target : Address)
    (linked : Bool) (htaken : s.requestDisconnect target linked = some s') :
    Session.Inv ⟨s', h⟩ := by
  rw [PairingContext.requestDisconnect] at htaken
  split at htaken
  case isTrue hok =>
    obtain rfl := Option.some.inj htaken
    exact inv_other hinv hok.1 rfl rfl rfl (by simp)
  case isFalse => simp at htaken

theorem inv_requestUnpair (hinv : Session.Inv ⟨s, h⟩) (target : Address)
    (htaken : s.requestUnpair target = some s') : Session.Inv ⟨s', h⟩ := by
  rw [PairingContext.requestUnpair] at htaken
  split at htaken
  · simp at htaken
  · split at htaken
    case isTrue hok =>
      obtain rfl := Option.some.inj htaken
      exact inv_other hinv hok.2.2.1 rfl rfl rfl (by simp)
    case isFalse => simp at htaken

theorem inv_requestAutoConnect (hinv : Session.Inv ⟨s, h⟩) (target : Address)
    (enabled : Bool) (htaken : s.requestAutoConnect target enabled = some s') :
    Session.Inv ⟨s', h⟩ := by
  rw [PairingContext.requestAutoConnect] at htaken
  split at htaken
  · simp at htaken
  · split at htaken
    · obtain rfl := Option.some.inj htaken
      exact inv_update hinv target (fun _ => rfl) (fun _ => rfl) fun _ => rfl
    · simp at htaken

theorem inv_requestPair (hinv : Session.Inv ⟨s, h⟩) (target : Address)
    (linkUsed : Bool) :
    Session.Inv ⟨(s.requestPair target linkUsed).getD s,
      h.after s (.requestPair target linkUsed) []⟩ := by
  have hforgotten : (ContextEvent.requestPair target linkUsed).forgotten s =
      none := rfl
  cases htaken : s.requestPair target linkUsed with
  | none =>
      have hasked : (ContextEvent.requestPair target linkUsed).asked s = none := by
        rw [ContextEvent.asked, htaken]
        rfl
      rw [after_quiet h rfl hasked hforgotten granting_nil]
      exact hinv
  | some s' =>
      have hasked : (ContextEvent.requestPair target linkUsed).asked s =
          some target := by
        rw [ContextEvent.asked, htaken]
        rfl
      rw [PairingContext.requestPair] at htaken
      split at htaken
      case isFalse => simp at htaken
      case isTrue hok =>
        obtain rfl := Option.some.inj htaken
        rw [Option.getD_some]
        refine inv_request hinv hok.2.1 rfl rfl (fun _ => rfl) ?_ ?_ ?_ ?_
        · intro address happroved
          simp [History.after, happroved, hforgotten]
        · intro _
          simp [History.after, hasked, hforgotten]
        · funext address
          simp [History.after, hforgotten, granting]
        · rfl

end Requests

theorem inv_step {s s' : Session} {e : ContextEvent} (hinv : s.Inv)
    (hcareful : s.Careful e) (hnext : s.next e = some s') : s'.Inv := by
  obtain ⟨context, outputs, hstep, rfl⟩ := next_eq_some hnext
  obtain ⟨s, h⟩ := s
  have hquiet : e.notified = none → e.asked s = none → e.forgotten s = none →
      h.after s e [] = h := fun hnotified hasked hforgotten =>
    after_quiet h hnotified hasked hforgotten granting_nil
  change s.step e = some (context, outputs) at hstep
  change Session.Inv ⟨context, h.after s e outputs⟩
  cases e with
  | requestScan linkUsed =>
      obtain ⟨rfl, rfl⟩ := Prod.mk.inj (Option.some.inj hstep)
      rw [hquiet rfl rfl rfl]
      exact inv_getD hinv fun _ => inv_requestScan hinv linkUsed
  | requestPair target linkUsed =>
      obtain ⟨rfl, rfl⟩ := Prod.mk.inj (Option.some.inj hstep)
      exact inv_requestPair hinv target linkUsed
  | requestConnect target linkFree =>
      obtain ⟨rfl, rfl⟩ := Prod.mk.inj (Option.some.inj hstep)
      rw [hquiet rfl rfl rfl]
      exact inv_getD hinv fun _ => inv_requestConnect hinv target linkFree
  | requestDisconnect target linked =>
      obtain ⟨rfl, rfl⟩ := Prod.mk.inj (Option.some.inj hstep)
      rw [hquiet rfl rfl rfl]
      exact inv_getD hinv fun _ => inv_requestDisconnect hinv target linked
  | requestUnpair target =>
      obtain ⟨rfl, rfl⟩ := Prod.mk.inj (Option.some.inj hstep)
      rw [hquiet rfl rfl rfl]
      exact inv_getD hinv fun _ => inv_requestUnpair hinv target
  | requestAutoConnect target enabled =>
      obtain ⟨rfl, rfl⟩ := Prod.mk.inj (Option.some.inj hstep)
      rw [hquiet rfl rfl rfl]
      exact inv_getD hinv fun _ => inv_requestAutoConnect hinv target enabled
  | take =>
      obtain ⟨-, hresult⟩ := Option.ite_none_right_eq_some.mp hstep
      obtain ⟨rfl, rfl⟩ := Prod.mk.inj (Option.some.inj hresult)
      rw [hquiet rfl rfl rfl]
      exact inv_take hinv
  | bringUpFails =>
      rw [PairingContext.step] at hstep
      split at hstep
      case h_1 =>
        obtain ⟨rfl, rfl⟩ := Prod.mk.inj (Option.some.inj hstep)
        rw [hquiet rfl rfl rfl]
        exact inv_bringUpFails hinv _ (hcareful.2.2 rfl)
      case h_2 => simp at hstep
  | dispatch =>
      rw [PairingContext.step] at hstep
      split at hstep
      case h_1 hworker =>
        obtain ⟨rfl, rfl⟩ := Prod.mk.inj (Option.some.inj hstep)
        rw [hquiet rfl rfl rfl]
        exact inv_dispatch hinv hworker
      case h_2 => simp at hstep
  | agent packet =>
      rw [PairingContext.step] at hstep
      split at hstep
      case isFalse => simp at hstep
      case isTrue =>
        split at hstep
        case h_1 event hevent =>
          obtain ⟨rfl, rfl⟩ := Prod.mk.inj (Option.some.inj hstep)
          exact inv_agent hinv hevent hcareful
        case h_2 hnone =>
          obtain ⟨rfl, rfl⟩ := Prod.mk.inj (Option.some.inj hstep)
          exact inv_silent (by rw [ContextEvent.notified, hnone]) hinv
  | roles address source sink =>
      obtain ⟨-, hresult⟩ := Option.ite_none_right_eq_some.mp hstep
      obtain ⟨rfl, rfl⟩ := Prod.mk.inj (Option.some.inj hresult)
      rw [hquiet rfl rfl rfl]
      exact inv_roles hinv address source sink
  | finishScan found =>
      obtain ⟨-, hresult⟩ := Option.ite_none_right_eq_some.mp hstep
      obtain ⟨rfl, rfl⟩ := Prod.mk.inj (Option.some.inj hresult)
      rw [hquiet rfl rfl rfl]
      exact inv_finishScan hinv found
  | socketFails =>
      rw [PairingContext.step] at hstep
      split at hstep
      case h_1 target hworker =>
        obtain ⟨rfl, rfl⟩ := Prod.mk.inj (Option.some.inj hstep)
        rw [hquiet rfl rfl rfl]
        exact inv_endPair hinv (by rw [hworker]; rfl)
      case h_2 => simp at hstep
  | finishPair connected =>
      rw [PairingContext.step] at hstep
      split at hstep
      case h_1 target hworker =>
        obtain ⟨rfl, rfl⟩ := Prod.mk.inj (Option.some.inj hstep)
        rw [after_quiet h rfl rfl rfl (by simp [granting])]
        exact inv_finishPair hinv hworker
      case h_2 => simp at hstep
  | endPair =>
      rw [PairingContext.step] at hstep
      split at hstep
      case h_1 target hworker =>
        obtain ⟨rfl, rfl⟩ := Prod.mk.inj (Option.some.inj hstep)
        rw [hquiet rfl rfl rfl]
        exact inv_endPair hinv (by rw [hworker]; rfl)
      case h_2 => simp at hstep
  | finishUnpair =>
      rw [PairingContext.step] at hstep
      split at hstep
      case h_1 target hworker =>
        obtain ⟨rfl, rfl⟩ := Prod.mk.inj (Option.some.inj hstep)
        have hforgotten : ContextEvent.finishUnpair.forgotten s = some target := by
          rw [ContextEvent.forgotten, hworker]
        exact inv_finishUnpair hinv rfl hforgotten
          (hcareful.2.1 target hforgotten)
      case h_2 => simp at hstep
  | publishLinkStatus =>
      obtain ⟨-, hresult⟩ := Option.ite_none_right_eq_some.mp hstep
      obtain ⟨rfl, rfl⟩ := Prod.mk.inj (Option.some.inj hresult)
      rw [hquiet rfl rfl rfl]
      exact inv_publishLinkStatus hinv

/-! ## Runs -/

theorem findDevice_of_mem {devices : List BluetoothDevice}
    (hdistinct : Distinct devices) {device : BluetoothDevice}
    (hdevice : device ∈ devices) :
    findDevice devices device.address = some device :=
  KeyedList.find_of_mem hdistinct hdevice

theorem inv_start {devices : List BluetoothDevice} (h : Distinct devices) :
    (Session.start devices).Inv := by
  refine ⟨h, ?_, ?_, ?_, ⟨?_, ?_⟩, ?_⟩
  · intro device hdevice hpaired
    have hfind : findDevice devices device.address = some device :=
      findDevice_of_mem h hdevice
    simp [Session.start, PairingContext.start, PairingContext.isPaired, hfind,
      hpaired]
  · intro hpairing
    simp [Session.start, PairingContext.start] at hpairing
  · intro address hgranted
    simp [Session.start] at hgranted
  · intro hrequest
    simp [Session.start, PairingContext.start] at hrequest
  · intro target hpairs
    simp [Session.start, PairingContext.start, Worker.pairs] at hpairs
  · intro target hworker
    simp [Session.start, PairingContext.start] at hworker

theorem inv_run {devices : List BluetoothDevice} {es : List ContextEvent}
    {s : Session} (hdistinct : Distinct devices)
    (h : Run (Guarded Session.Careful Session.next) (.start devices) es s) :
    s.Inv :=
  h.invariant Session.Inv (P := fun _ => True)
    (fun _ _ _ _ hinv hstep => inv_step hinv hstep.1 hstep.2)
    (fun _ _ => trivial) (inv_start hdistinct)

/-! ## Replies and reports -/

/-- A key is only sent in reply to a request, from the table. -/
theorem linkKeyReply_cases {s s' : PairingContext} {e : ContextEvent}
    {outputs : List Output} (h : s.step e = some (s', outputs))
    {address : Address} {linkKey : LinkKey}
    (hmem : Output.command (.linkKeyReply address linkKey) ∈ outputs) :
    ∃ device ∈ s.devices, device.address = address ∧ device.paired = true ∧
      device.linkKey = linkKey := by
  have hquiet : ∀ {result : PairingContext},
      some (result, ([] : List Output)) = some (s', outputs) → False := by
    intro result hsome
    rw [← (Prod.mk.inj (Option.some.inj hsome)).2] at hmem
    exact absurd hmem List.not_mem_nil
  have hreport : ∀ {result : PairingContext} {target : Address} {paired : Bool},
      some (result, [Output.pairResult target paired]) = some (s', outputs) →
        False := by
    intro result target paired hsome
    rw [← (Prod.mk.inj (Option.some.inj hsome)).2] at hmem
    simp at hmem
  cases e with
  | agent packet =>
      rw [PairingContext.step] at h
      split at h
      case isFalse => simp at h
      case isTrue =>
        split at h
        case h_2 => exact (hquiet h).elim
        case h_1 event hevent =>
          rw [← (Prod.mk.inj (Option.some.inj h)).2, List.mem_map] at hmem
          obtain ⟨command, hcommand, heq⟩ := hmem
          obtain rfl := Output.command.inj heq
          cases event with
          | linkKeyRequest asked =>
              have hanswer : AgentCommand.linkKeyReply address linkKey =
                  s.linkKeyAnswer asked := List.mem_singleton.mp hcommand
              rw [PairingContext.linkKeyAnswer] at hanswer
              split at hanswer
              case h_2 => simp at hanswer
              case h_1 device hfind =>
                split at hanswer
                case isFalse => simp at hanswer
                case isTrue hpaired =>
                  obtain ⟨rfl, rfl⟩ := AgentCommand.linkKeyReply.inj hanswer
                  exact ⟨device, List.mem_of_find?_eq_some hfind,
                    by simpa using List.find?_some hfind, hpaired, rfl⟩
          | _ =>
              rw [PairingContext.handleAgentEvent] at hcommand
              repeat' split at hcommand
              all_goals simp at hcommand
  | finishPair connected =>
      rw [PairingContext.step] at h
      split at h
      · exact (hreport h).elim
      · simp at h
  | requestScan | requestPair | requestConnect | requestDisconnect
  | requestUnpair | requestAutoConnect => exact (hquiet h).elim
  | take | roles | finishScan | publishLinkStatus =>
      exact (hquiet (Option.ite_none_right_eq_some.mp h).2).elim
  | bringUpFails | dispatch | socketFails | endPair | finishUnpair =>
      rw [PairingContext.step] at h
      split at h
      · exact (hquiet h).elim
      · simp at h

/-- The only report is that of `runPair`. -/
theorem pairResult_cases {s s' : PairingContext} {e : ContextEvent}
    {outputs : List Output} (h : s.step e = some (s', outputs))
    {target : Address} (hmem : Output.pairResult target true ∈ outputs) :
    ∃ connected, e = .finishPair connected ∧ s.worker = .pairing target ∧
      s.pairSucceeded target connected = true ∧ s'.devices = s.devices := by
  have hquiet : ∀ {result : PairingContext},
      some (result, ([] : List Output)) = some (s', outputs) → False := by
    intro result hsome
    rw [← (Prod.mk.inj (Option.some.inj hsome)).2] at hmem
    exact absurd hmem List.not_mem_nil
  cases e with
  | agent packet =>
      rw [PairingContext.step] at h
      split at h
      case isFalse => simp at h
      case isTrue =>
        split at h
        case h_2 => exact (hquiet h).elim
        case h_1 =>
          rw [← (Prod.mk.inj (Option.some.inj h)).2, List.mem_map] at hmem
          obtain ⟨command, -, heq⟩ := hmem
          simp at heq
  | finishPair connected =>
      rw [PairingContext.step] at h
      split at h
      case h_2 => simp at h
      case h_1 hworker =>
        obtain ⟨rfl, rfl⟩ := Prod.mk.inj (Option.some.inj h)
        obtain ⟨rfl, hsucceeded⟩ :=
          Output.pairResult.inj (List.mem_singleton.mp hmem)
        exact ⟨connected, rfl, hworker, hsucceeded.symm, rfl⟩
  | requestScan | requestPair | requestConnect | requestDisconnect
  | requestUnpair | requestAutoConnect => exact (hquiet h).elim
  | take | roles | finishScan | publishLinkStatus =>
      exact (hquiet (Option.ite_none_right_eq_some.mp h).2).elim
  | bringUpFails | dispatch | socketFails | endPair | finishUnpair =>
      rw [PairingContext.step] at h
      split at h
      · exact (hquiet h).elim
      · simp at h

/-- The devices that are marked as paired are approved. -/
def Session.OnlyApproved (s : Session) : Prop :=
  ∀ device ∈ s.context.devices, device.paired = true →
    s.history.approved device.address = true

/-- A key is sent for a paired device, and it is the last one of the device. -/
def Session.RepliesKnown (s : Session) (outputs : List Output) : Prop :=
  ∀ address linkKey, .command (.linkKeyReply address linkKey) ∈ outputs →
    (∃ device ∈ s.context.devices, device.address = address ∧
      device.paired = true) ∧ s.history.lastKey address = some linkKey

/-- A success is reported for a device that is paired with its last key. -/
def Session.ReportsPaired (s : Session) (outputs : List Output) : Prop :=
  ∀ target, .pairResult target true ∈ outputs →
    ∃ device ∈ s.context.devices, device.address = target ∧
      device.paired = true ∧ s.history.lastKey target = some device.linkKey

theorem step_eq_some {s s' : Session} {e : ContextEvent} {outputs : List Output}
    (h : s.step e = some (s', outputs)) :
    s.context.step e = some (s'.context, outputs) ∧
      s'.history = s.history.after s.context e outputs := by
  obtain ⟨⟨context, outs⟩, hstep, heq⟩ := Option.map_eq_some_iff.mp h
  obtain ⟨rfl, rfl⟩ := Prod.mk.inj heq
  exact ⟨hstep, rfl⟩

theorem repliesKnown {s s' : Session} {e : ContextEvent} {outputs : List Output}
    (hinv : s.Inv) (h : s.step e = some (s', outputs)) :
    s.RepliesKnown outputs := by
  intro address linkKey hmem
  obtain ⟨device, hdevice, rfl, hpaired, rfl⟩ :=
    linkKeyReply_cases (step_eq_some h).1 hmem
  exact ⟨⟨device, hdevice, rfl, hpaired⟩,
    (hinv.paired device hdevice hpaired).2⟩

theorem reportsPaired {s s' : Session} {e : ContextEvent}
    {outputs : List Output} (hinv : s.Inv)
    (h : s.step e = some (s', outputs)) : s'.ReportsPaired outputs := by
  intro target hmem
  obtain ⟨hstep, hhistory⟩ := step_eq_some h
  obtain ⟨connected, rfl, hworker, hsucceeded, hdevices⟩ :=
    pairResult_cases hstep hmem
  have hkey : s'.history.lastKey = s.history.lastKey := by
    rw [hhistory]
    rfl
  have hholds : Holds s.context.devices target := by
    rw [PairingContext.pairSucceeded, Bool.or_eq_true, Bool.and_eq_true]
      at hsucceeded
    rcases hsucceeded with hstored | ⟨-, hpaired⟩
    · exact hinv.stored target hworker hstored
    · rw [PairingContext.isPaired] at hpaired
      cases hfind : findDevice s.context.devices target with
      | none => simp [hfind] at hpaired
      | some device =>
          rw [hfind] at hpaired
          exact ⟨device, List.mem_of_find?_eq_some hfind,
            by simpa using List.find?_some hfind, hpaired⟩
  obtain ⟨device, hdevice, rfl, hpaired⟩ := hholds
  refine ⟨device, ?_, rfl, hpaired, ?_⟩
  · rw [hdevices]
    exact hdevice
  · rw [hkey]
    exact (hinv.paired device hdevice hpaired).2

/-- Only approved devices are paired, keys are sent for them alone, and a
success means that the device is paired. -/
theorem only_approved_are_paired {file : Option Bytes} {reading : Reading}
    {es : List ContextEvent} {s : Session}
    (hdistinct : Distinct (loadPaired file reading))
    (h : Run (Guarded Session.Careful Session.next)
      (.start (loadPaired file reading)) es s) :
    s.OnlyApproved ∧ ∀ e s' outputs, s.step e = some (s', outputs) →
      s.RepliesKnown outputs ∧ s'.ReportsPaired outputs := by
  have hinv := inv_run hdistinct h
  constructor
  · intro device hdevice hpaired
    exact (hinv.paired device hdevice hpaired).1
  · intro e s' outputs hstep
    exact ⟨repliesKnown hinv hstep, reportsPaired hinv hstep⟩

/-! ## Runs that keep to it, and runs that do not -/

/-- The controller notifies keys of devices that got a positive reply. -/
def Session.Admitted (s : Session) (e : ContextEvent) : Prop :=
  ∀ notice ∈ e.notified, s.history.replied notice.1 = true

instance (s : Session) (e : ContextEvent) : Decidable (s.Admitted e) :=
  inferInstanceAs (Decidable (∀ notice ∈ e.notified, _))

def ioCapabilityPacket (address : Address) : Bytes :=
  0x04 :: btEvtIoCapabilityRequest :: 6 :: address.b

def linkKeyPacket (address : Address) (linkKey : LinkKey) : Bytes :=
  0x04 :: btEvtLinkKeyNotify :: 23 :: (address.b ++ linkKey.bytes ++ [4])

/-- The user pairs a device from the table of the scan. -/
def pairEvents (address : Address) : List ContextEvent :=
  [.requestPair address false, .take, .dispatch,
    .agent (ioCapabilityPacket address),
    .agent (linkKeyPacket address ⟨List.replicate 16 7, List.length_replicate⟩)]

/-- Behind the pairing the device refreshes its key, and while it does the user
forgets it. -/
def forgetEvents (address : Address) : List ContextEvent :=
  pairEvents address ++
    [.finishPair true, .endPair, .agent (ioCapabilityPacket address),
      .requestUnpair address, .take, .dispatch, .finishUnpair,
      .agent (linkKeyPacket address zeroKey)]

def foundDevices : List DiscoveredDevice :=
  (List.range 32).map fun i => ⟨repeatedAddress (UInt8.ofNat (i + 1)), [], true⟩

/-- A pairing with a device that the full table does not list. -/
def fullEvents : List ContextEvent :=
  [.requestScan false, .take, .dispatch, .finishScan foundDevices] ++
    pairEvents (repeatedAddress 0xa1)

theorem only_approved_are_paired_pairEvents :
    ∃ s, Run (Guarded Session.Careful Session.next)
        (.start (loadPaired none .notOpened))
        (pairEvents (repeatedAddress 0xa1)) s ∧
      s.context.isPaired (repeatedAddress 0xa1) = true ∧ s.OnlyApproved := by
  have hrun : ((pairEvents (repeatedAddress 0xa1)).foldlM
      (guarded Session.Careful Session.next)
      (.start (loadPaired none .notOpened))).any
        (·.context.isPaired (repeatedAddress 0xa1)) = true := by decide
  obtain ⟨s, hs, hpaired⟩ := (Option.any_eq_true _ _).mp hrun
  have hcareful := Run.of_guarded hs
  exact ⟨s, hcareful, hpaired,
    (only_approved_are_paired (by exact List.nodup_nil) hcareful).1⟩

/-- A device is paired behind its forgetting, and a pairing with a device for
which there is no room is reported as done. -/
theorem unapproved_device_is_paired :
    (∃ s, Run (Guarded Session.Admitted Session.next)
        (.start (loadPaired none .notOpened))
        (forgetEvents (repeatedAddress 0xa1)) s ∧ ¬s.OnlyApproved) ∧
      ∃ s s' outputs, Run (Guarded Session.Admitted Session.next)
          (.start (loadPaired none .notOpened)) fullEvents s ∧
        s.step (.finishPair true) = some (s', outputs) ∧
          ¬s'.ReportsPaired outputs := by
  constructor
  · have hrun : ((forgetEvents (repeatedAddress 0xa1)).foldlM
        (guarded Session.Admitted Session.next)
        (.start (loadPaired none .notOpened))).any (fun s =>
          s.context.devices.any fun device =>
            device.paired && !s.history.approved device.address) = true := by
      decide
    obtain ⟨s, hs, hany⟩ := (Option.any_eq_true _ _).mp hrun
    refine ⟨s, Run.of_guarded hs, ?_⟩
    obtain ⟨device, hdevice, hmark⟩ := List.any_eq_true.mp hany
    rw [Bool.and_eq_true] at hmark
    intro hall
    rw [hall device hdevice hmark.1] at hmark
    simp at hmark
  · have hrun : (fullEvents.foldlM (guarded Session.Admitted Session.next)
        (.start (loadPaired none .notOpened))).any (fun s =>
          (s.step (.finishPair true)).any fun result =>
            result.2.contains (.pairResult (repeatedAddress 0xa1) true) &&
              result.1.context.devices.all
                (·.address ≠ repeatedAddress 0xa1)) = true := by decide
    obtain ⟨s, hs, hany⟩ := (Option.any_eq_true _ _).mp hrun
    obtain ⟨⟨s', outputs⟩, hstep, hboth⟩ := (Option.any_eq_true _ _).mp hany
    rw [Bool.and_eq_true] at hboth
    refine ⟨s, s', outputs, Run.of_guarded hs, hstep, ?_⟩
    intro hreports
    obtain ⟨device, hdevice, haddress, -⟩ := hreports _
      (List.contains_iff_mem.mp hboth.1)
    have hne := List.all_eq_true.mp hboth.2 device hdevice
    exact absurd haddress (of_decide_eq_true hne)

end Audiox.Bluetooth
