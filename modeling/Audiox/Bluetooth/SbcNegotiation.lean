import Audiox.Bluetooth.AvdtpReject
import Audiox.Support.BitFields
import Mathlib

/-!
# Negotiating SBC

As the initiator AudioX asks a device for its capabilities, looks for an SBC
entry in the reply, and proposes a configuration that the entry offers.  The
two directions walk the reply and pick a configuration in ways of their own.
-/

namespace Audiox.Bluetooth

open ByteCodec CheckedRead BitFields

/-! ## Entries of a reply -/

/-- The loop of `handleOutputResponse`.  A later entry replaces an earlier
one, and an entry that does not fit ends the walk. -/
def findOutputSbcFrom (payload : Bytes) :
    Nat → Nat → Option SbcElement → Read Unit (Option SbcElement)
  | 0, _, remoteSbc => pure remoteSbc
  | fuel + 1, offset, remoteSbc =>
      if offset + 2 ≤ payload.length then do
        let category ← readByte payload offset
        let categoryLength ← readByte payload (offset + 1)
        if offset + 2 + categoryLength.toNat > payload.length then
          pure remoteSbc
        else if category = 0x07 ∧ categoryLength = 6 then do
          let mediaType ← readByte payload (offset + 2)
          let codec ← readByte payload (offset + 3)
          if mediaType = 0 ∧ codec = 0 then do
            let sbc ← readElementAt payload (offset + 4)
            findOutputSbcFrom payload fuel
              (offset + 2 + categoryLength.toNat) (some sbc)
          else
            findOutputSbcFrom payload fuel
              (offset + 2 + categoryLength.toNat) remoteSbc
        else
          findOutputSbcFrom payload fuel
            (offset + 2 + categoryLength.toNat) remoteSbc
      else pure remoteSbc

def findOutputSbc (payload : Bytes) : Read Unit (Option SbcElement) :=
  findOutputSbcFrom payload payload.length 0 none

/-- A media codec entry of at least six bytes lies inside the payload, and
these are the four bytes behind its header. -/
structure EntryAt (payload : Bytes) (offset : Nat) (sbc : SbcElement) :
    Prop where
  category : payload[offset]? = some 0x07
  inside : ∃ categoryLength : UInt8,
    payload[offset + 1]? = some categoryLength ∧ 6 ≤ categoryLength.toNat ∧
      offset + 2 + categoryLength.toNat ≤ payload.length
  mediaType : ∃ mediaType : UInt8,
    payload[offset + 2]? = some mediaType ∧ mediaType >>> 4 = 0
  codec : payload[offset + 3]? = some 0
  bytes : sbc.b = (payload.drop (offset + 4)).take 4

/-! ## Picking a configuration -/

def pickFirst (available : UInt8) (preferred : List UInt8) : UInt8 :=
  first available preferred

namespace SbcElement

def byte (c : SbcElement) (i : Nat) : UInt8 :=
  c.b.getD i 0

def ofBytes (a b c d : UInt8) : SbcElement := ⟨[a, b, c, d], rfl⟩

end SbcElement

def frequencies : List UInt8 := [a2dpSbcFreq48000, a2dpSbcFreq44100]
def modes : List UInt8 := [0x01, 0x02, 0x04, 0x08]
def blocks : List UInt8 := [0x10, 0x20, 0x40, 0x80]
def subbands : List UInt8 := [0x04, 0x08]
def allocations : List UInt8 := [0x01, 0x02]

/-- The least bitpool, which is 2 at least. -/
def raised (n : UInt8) : UInt8 :=
  if n > a2dpSbcMinBitpool then n else a2dpSbcMinBitpool

def capped (n cap : UInt8) : UInt8 :=
  if n < cap then n else cap

def selectSbcSinkConfiguration (remote : SbcElement) : Option SbcElement :=
  if pickFirst (remote.byte 0) frequencies = 0 ∨
      pickFirst (remote.byte 0) modes = 0 ∨
      pickFirst (remote.byte 1) blocks = 0 ∨
      pickFirst (remote.byte 1) subbands = 0 ∨
      pickFirst (remote.byte 1) allocations = 0 then none
  else if raised (remote.byte 2) > capped (remote.byte 3) a2dpSbcMaxBitpool
    then none
  else
    some (.ofBytes
      (pickFirst (remote.byte 0) frequencies |||
        pickFirst (remote.byte 0) modes)
      (pickFirst (remote.byte 1) blocks |||
        pickFirst (remote.byte 1) subbands |||
        pickFirst (remote.byte 1) allocations)
      (raised (remote.byte 2))
      (capped (remote.byte 3) a2dpSbcMaxBitpool))

/-- The modes of two channels. -/
def stereoModes : List UInt8 := [0x01, 0x02, 0x04]

def btA2dpTargetBitpool : UInt8 := 20

/-- The configuration of an output, before the codec library is asked.  The
bits of the second byte are picked even where one of its fields has none. -/
def sourceConfiguration (remote : SbcElement) : SbcElement :=
  .ofBytes (0x10 ||| pickFirst (remote.byte 0) stereoModes)
    (pickFirst (remote.byte 1) blocks |||
      pickFirst (remote.byte 1) subbands |||
      pickFirst (remote.byte 1) allocations)
    (raised (remote.byte 2)) (capped (remote.byte 3) btA2dpTargetBitpool)

/-- The configuration of an output, or why the stream is closed. -/
def selectSbcSourceConfiguration (remoteSbc : Option SbcElement) :
    Except Bytes SbcElement :=
  match remoteSbc with
  | none => .error (ascii "device SBC audio does not include 48 kHz")
  | some remote =>
      if remote.byte 0 &&& 0x10 = 0 then
        .error (ascii "device SBC audio does not include 48 kHz")
      else if pickFirst (remote.byte 0) stereoModes = 0 then
        .error (ascii "device has no stereo SBC mode")
      else if (sourceConfiguration remote).byte 1 &&& 0xFC = 0 ∨
          (sourceConfiguration remote).byte 1 &&& 0x03 = 0 then
        .error (ascii "device has no compatible SBC framing")
      else if (sourceConfiguration remote).byte 3 <
          (sourceConfiguration remote).byte 2 then
        .error (ascii "device SBC bitpool range is invalid")
      else .ok (sourceConfiguration remote)

/-! ## Replies to the question for capabilities -/

/-- The link after a reply, why a stream was closed, and the parameters of the
configuration command that is sent. -/
structure Negotiated where
  link : BluetoothLink
  closed : Option Bytes
  command : Option Bytes
deriving DecidableEq

/-- The parameters of a command that proposes a configuration. -/
def setConfiguration (remoteSeid localSeid : UInt8) (selected : SbcElement) :
    Bytes :=
  [remoteSeid <<< 2, localSeid <<< 2] ++ BluetoothLink.sbcHeader ++ selected.b

namespace BluetoothLink

def linkIdle (l : BluetoothLink) : Bool :=
  !l.wantOutput && !l.outUp && !l.wantInput && !l.inConfigured

/-- `sbcInit` says which configurations the codec library accepts. -/
def onOutputCapabilities (l : BluetoothLink) (sbcInit : SbcElement → Bool)
    (payload : Bytes) : Read Unit Negotiated := do
  let remoteSbc ← findOutputSbc payload
  match selectSbcSourceConfiguration remoteSbc with
  | .error reason => pure ⟨l.closeOutputStream, some reason, none⟩
  | .ok selected =>
      if sbcInit selected then
        pure ⟨{ l with encoder := some selected, encoderReady := true }, none,
          some (setConfiguration l.remoteSinkSeid avdtpSourceSeid selected)⟩
      else
        pure ⟨l.finishEncoder.closeOutputStream,
          some (ascii "SBC encoder rejected device configuration"), none⟩

/-- The stream is closed, and a link that is idle then with it. -/
def failInput (l : BluetoothLink) (failure : Bytes) : Negotiated :=
  if l.closeInputStream.linkIdle then
    ⟨l.closeInputStream.closeLink, some failure, none⟩
  else ⟨l.closeInputStream, some failure, none⟩

def onInputCapabilities (l : BluetoothLink) (sbcInit : SbcElement → Bool)
    (payload : Bytes) : Read Unit Negotiated :=
  if l.inRemoteActive || l.inConfigured then pure ⟨l, none, none⟩
  else do
    let remoteSbc ← findSbcCodec payload
    match remoteSbc.bind selectSbcSinkConfiguration with
    | none =>
        pure (l.failInput
          (ascii "device SBC audio is not available at 44.1 or 48 kHz"))
    | some selected =>
        if (l.configureSbcDecoder selected (sbcInit selected)).2 then
          pure ⟨{ (l.configureSbcDecoder selected (sbcInit selected)).1 with
              inConfig := selected }, none,
            some (setConfiguration l.remoteSourceSeid avdtpSinkSeid selected)⟩
        else
          pure ((l.configureSbcDecoder selected (sbcInit selected)).1.failInput
            (ascii "SBC decoder rejected device configuration"))

end BluetoothLink

/-! ## What a proposal respects -/

/-- Exactly one bit in each field. -/
structure OneBitPerField (c : SbcElement) : Prop where
  frequency : OneBit (c.byte 0 &&& 0xF0)
  mode : OneBit (c.byte 0 &&& 0x0F)
  blocks : OneBit (c.byte 1 &&& 0xF0)
  subbands : OneBit (c.byte 1 &&& 0x0C)
  allocation : OneBit (c.byte 1 &&& 0x03)

theorem oneBitPerField_iff (c : SbcElement) : OneBitPerField c ↔
    OneBit (c.byte 0 &&& 0xF0) ∧ OneBit (c.byte 0 &&& 0x0F) ∧
      OneBit (c.byte 1 &&& 0xF0) ∧ OneBit (c.byte 1 &&& 0x0C) ∧
      OneBit (c.byte 1 &&& 0x03) := by
  constructor
  · rintro ⟨h1, h2, h3, h4, h5⟩
    exact ⟨h1, h2, h3, h4, h5⟩
  · rintro ⟨h1, h2, h3, h4, h5⟩
    exact ⟨h1, h2, h3, h4, h5⟩

instance (c : SbcElement) : Decidable (OneBitPerField c) :=
  decidable_of_iff' _ (oneBitPerField_iff c)

/-- The configuration is one of those that the entry of the device offers. -/
structure Respects (remote c : SbcElement) : Prop where
  oneBit : OneBitPerField c
  /-- the bits are among those of the entry -/
  bits : ∀ i < 2, remote.byte i &&& c.byte i = c.byte i
  /-- a minimum below 2 is raised, and nothing else is added to the range -/
  minimum : c.byte 2 = if remote.byte 2 < 2 then 2 else remote.byte 2
  two_le : 2 ≤ c.byte 2
  le : c.byte 2 ≤ c.byte 3
  maximum : c.byte 3 ≤ remote.byte 3

/-- The entry has a bit for every field, 44.1 or 48 kHz among them, and a range
that meets the one of AudioX. -/
structure Offers (remote : SbcElement) : Prop where
  frequency : remote.byte 0 &&& (a2dpSbcFreq48000 ||| a2dpSbcFreq44100) ≠ 0
  mode : remote.byte 0 &&& 0x0F ≠ 0
  blocks : remote.byte 1 &&& 0xF0 ≠ 0
  subbands : remote.byte 1 &&& 0x0C ≠ 0
  allocation : remote.byte 1 &&& 0x03 ≠ 0
  bitpool : ∃ n : UInt8, remote.byte 2 ≤ n ∧ n ≤ remote.byte 3 ∧
    a2dpSbcMinBitpool ≤ n ∧ n ≤ a2dpSbcMaxBitpool

/-! ## The walks -/

section

variable {payload : Bytes} {offset : Nat} {sbc : SbcElement}

theorem getElem?_of_getD {c : UInt8} (h : offset < payload.length)
    (hc : payload.getD offset 0 = c) : payload[offset]? = some c := by
  rw [List.getElem?_eq_getElem h, ← hc, List.getD_eq_getElem _ _ h]

theorem readElementAt_eq (h : offset + 4 ≤ payload.length) :
    ∃ sbc : SbcElement, readElementAt payload offset = .ok sbc ∧
      sbc.b = (payload.drop offset).take 4 := by
  rw [readElementAt, dif_pos h]
  exact ⟨_, rfl, rfl⟩

/-- The search for an input stays inside and finds an entry of the payload. -/
theorem findSbcFrom_spec (payload : Bytes) (fuel offset : Nat) :
    ∃ found : Option SbcElement,
      findSbcFrom payload fuel offset = .ok found ∧
      ∀ sbc ∈ found, ∃ o : Nat, EntryAt payload o sbc := by
  induction fuel generalizing offset with
  | zero => exact ⟨none, rfl, by simp⟩
  | succ fuel ih =>
      rw [findSbcFrom]
      split
      case isFalse => exact ⟨none, rfl, by simp⟩
      case isTrue hroom =>
        rw [readByte_eq (by omega), ok_bind, readByte_eq (by omega), ok_bind]
        split
        case isTrue => exact ⟨none, rfl, by simp⟩
        case isFalse hlength =>
          split
          case isFalse => exact ih _
          case isTrue hcodec =>
            have hsix : 6 ≤ (payload.getD (offset + 1) 0).toNat := hcodec.2
            rw [readByte_eq (by omega), ok_bind, readByte_eq (by omega),
              ok_bind]
            split
            case isFalse => exact ih _
            case isTrue hsbc =>
              obtain ⟨sbc, hread, hbytes⟩ :=
                @readElementAt_eq payload (offset + 4) (by omega)
              refine ⟨some sbc, by rw [hread]; rfl, ?_⟩
              intro sbc' hsome
              obtain rfl := Option.some.inj hsome
              refine ⟨offset, ?_, ?_, ?_, ?_, hbytes⟩
              · exact getElem?_of_getD (by omega) hcodec.1
              · exact ⟨_, getElem?_of_getD (by omega) rfl, hsix, by omega⟩
              · exact ⟨_, getElem?_of_getD (by omega) rfl, hsbc.1⟩
              · exact getElem?_of_getD (by omega) hsbc.2

/-- The walk for an output stays inside and keeps to entries of the payload. -/
theorem findOutputSbcFrom_spec (payload : Bytes) (fuel offset : Nat)
    {remoteSbc : Option SbcElement}
    (hremote : ∀ sbc ∈ remoteSbc, ∃ o : Nat, EntryAt payload o sbc) :
    ∃ found : Option SbcElement,
      findOutputSbcFrom payload fuel offset remoteSbc = .ok found ∧
      ∀ sbc ∈ found, ∃ o : Nat, EntryAt payload o sbc := by
  induction fuel generalizing offset remoteSbc with
  | zero => exact ⟨remoteSbc, rfl, hremote⟩
  | succ fuel ih =>
      rw [findOutputSbcFrom]
      split
      case isFalse => exact ⟨remoteSbc, rfl, hremote⟩
      case isTrue hroom =>
        rw [readByte_eq (by omega), ok_bind, readByte_eq (by omega), ok_bind]
        split
        case isTrue => exact ⟨remoteSbc, rfl, hremote⟩
        case isFalse hlength =>
          split
          case isFalse => exact ih _ hremote
          case isTrue hcodec =>
            have hsix : (payload.getD (offset + 1) 0).toNat = 6 := by
              rw [hcodec.2]
              rfl
            rw [readByte_eq (by omega), ok_bind, readByte_eq (by omega),
              ok_bind]
            split
            case isFalse => exact ih _ hremote
            case isTrue hsbc =>
              obtain ⟨sbc, hread, hbytes⟩ :=
                @readElementAt_eq payload (offset + 4) (by omega)
              rw [hread, ok_bind]
              apply ih
              intro sbc' hsome
              obtain rfl := Option.some.inj hsome
              refine ⟨offset, ?_, ?_, ?_, ?_, hbytes⟩
              · exact getElem?_of_getD (by omega) hcodec.1
              · exact ⟨_, getElem?_of_getD (by omega) rfl, hsix.ge, by omega⟩
              · refine ⟨_, getElem?_of_getD (by omega) rfl, ?_⟩
                rw [hsbc.1]
                rfl
              · exact getElem?_of_getD (by omega) hsbc.2

/-- No more turns are needed than there are bytes. -/
theorem findOutputSbcFrom_succ (payload : Bytes) (fuel offset : Nat)
    (remoteSbc : Option SbcElement) (h : payload.length ≤ offset + fuel) :
    findOutputSbcFrom payload (fuel + 1) offset remoteSbc =
      findOutputSbcFrom payload fuel offset remoteSbc := by
  induction fuel generalizing offset remoteSbc with
  | zero =>
      have hend : ¬offset + 2 ≤ payload.length := by omega
      simp [findOutputSbcFrom, hend]
  | succ fuel ih =>
      have hnext : ∀ (n : Nat) (remoteSbc : Option SbcElement),
          findOutputSbcFrom payload (fuel + 1) (offset + 2 + n) remoteSbc =
            findOutputSbcFrom payload fuel (offset + 2 + n) remoteSbc :=
        fun n remoteSbc => ih _ _ (by omega)
      rw [findOutputSbcFrom, findOutputSbcFrom]
      simp only [hnext]

theorem findSbcFrom_of_le {fuel : Nat} (h : payload.length ≤ fuel) :
    findSbcFrom payload fuel 0 = findSbcCodec payload := by
  induction fuel, h using Nat.le_induction with
  | base => rfl
  | succ fuel hle ih => rw [findSbcFrom_succ _ _ _ (by omega), ih]

theorem findOutputSbcFrom_of_le {fuel : Nat} (h : payload.length ≤ fuel) :
    findOutputSbcFrom payload fuel 0 none = findOutputSbc payload := by
  induction fuel, h using Nat.le_induction with
  | base => rfl
  | succ fuel hle ih => rw [findOutputSbcFrom_succ _ _ _ _ (by omega), ih]

end

/-! ## Bits -/

@[simp] theorem ofBytes_byte_zero (a b c d : UInt8) :
    (SbcElement.ofBytes a b c d).byte 0 = a := rfl

@[simp] theorem ofBytes_byte_one (a b c d : UInt8) :
    (SbcElement.ofBytes a b c d).byte 1 = b := rfl

@[simp] theorem ofBytes_byte_two (a b c d : UInt8) :
    (SbcElement.ofBytes a b c d).byte 2 = c := rfl

@[simp] theorem ofBytes_byte_three (a b c d : UInt8) :
    (SbcElement.ofBytes a b c d).byte 3 = d := rfl

theorem oneBit_of_singleBit {value : UInt8} (h : singleBit value = true) :
    OneBit value := by
  have hall : ∀ n < 256, singleBit (UInt8.ofNat n) = true →
      OneBit (UInt8.ofNat n) := by
    decide +kernel
  have hbyte := hall value.toNat value.toNat_lt
  rw [UInt8.ofNat_toNat] at hbyte
  exact hbyte h

theorem pickFirst_mem {available : UInt8} {preferred : List UInt8}
    (h : pickFirst available preferred ≠ 0) :
    pickFirst available preferred ∈ preferred :=
  first_mem h

/-- What is picked from flags is among the available bits. -/
theorem and_pickFirst {preferred : List UInt8}
    (hflags : ∀ x ∈ preferred, OneBit x) (available : UInt8) :
    available &&& pickFirst available preferred =
      pickFirst available preferred :=
  and_first hflags available

/-- Something is picked for a field in which a bit is available. -/
theorem pickFirst_ne_zero {available mask : UInt8} {preferred : List UInt8}
    (hflags : ∀ x ∈ preferred, OneBit x) (hmask : union preferred = mask)
    (h : available &&& mask ≠ 0) : pickFirst available preferred ≠ 0 := by
  rw [← hmask] at h
  exact first_ne_zero hflags h

/-- The lists name single bits. -/
theorem oneBit_lists :
    (∀ x ∈ frequencies, OneBit x) ∧ (∀ x ∈ modes, OneBit x) ∧
      (∀ x ∈ blocks, OneBit x) ∧ (∀ x ∈ subbands, OneBit x) ∧
      (∀ x ∈ allocations, OneBit x) ∧ ∀ x ∈ stereoModes, OneBit x := by
  decide +kernel

/-- The bits of the second byte are picked from the entry. -/
theorem and_framing (available : UInt8) :
    available &&& (pickFirst available blocks |||
        pickFirst available subbands ||| pickFirst available allocations) =
      pickFirst available blocks ||| pickFirst available subbands |||
        pickFirst available allocations := by
  obtain ⟨_, _, hblocks, hsubbands, hallocations, _⟩ := oneBit_lists
  rw [byte_and_or, byte_and_or, and_pickFirst hblocks,
    and_pickFirst hsubbands, and_pickFirst hallocations]

theorem oneBit_framing : ∀ block ∈ blocks, ∀ subband ∈ subbands,
    ∀ allocation ∈ allocations,
      singleBit ((block ||| subband ||| allocation) &&& 0xF0) = true ∧
      singleBit ((block ||| subband ||| allocation) &&& 0x0C) = true ∧
      singleBit ((block ||| subband ||| allocation) &&& 0x03) = true := by
  decide +kernel

theorem oneBit_format : ∀ frequency ∈ frequencies, ∀ mode ∈ modes,
    ((frequency ||| mode) &&& 0xF0 = a2dpSbcFreq44100 ∨
      (frequency ||| mode) &&& 0xF0 = a2dpSbcFreq48000) ∧
      singleBit ((frequency ||| mode) &&& 0x0F) = true := by
  decide +kernel

theorem oneBitPerField_of_isValid {c : SbcElement}
    (h : isValidSbcSinkConfiguration c = true) : OneBitPerField c := by
  simp only [isValidSbcSinkConfiguration, Bool.and_eq_true, Bool.or_eq_true,
    beq_iff_eq] at h
  obtain ⟨⟨⟨⟨⟨⟨⟨hfrequency, hmode⟩, hblocks⟩, hsubbands⟩, hallocation⟩, -⟩,
    -⟩, -⟩ := h
  refine ⟨?_, oneBit_of_singleBit hmode, oneBit_of_singleBit hblocks,
    oneBit_of_singleBit hsubbands, oneBit_of_singleBit hallocation⟩
  rcases hfrequency with heq | heq
  · have hbit : OneBit a2dpSbcFreq44100 := by decide
    rwa [← heq] at hbit
  · have hbit : OneBit a2dpSbcFreq48000 := by decide
    rwa [← heq] at hbit

/-! ## Ranges -/

theorem raised_eq (n : UInt8) : raised n = if n < 2 then 2 else n := by
  have hall : ∀ n < 256, raised (UInt8.ofNat n) =
      if UInt8.ofNat n < 2 then 2 else UInt8.ofNat n := by
    decide +kernel
  have hbyte := hall n.toNat n.toNat_lt
  rwa [UInt8.ofNat_toNat] at hbyte

theorem two_le_raised (n : UInt8) : 2 ≤ raised n := by
  rw [raised]
  split_ifs with h
  · exact UInt8.le_of_lt h
  · exact UInt8.le_refl 2

theorem raised_le {n m : UInt8} (h : n ≤ m) (hmin : a2dpSbcMinBitpool ≤ m) :
    raised n ≤ m := by
  rw [raised]
  split_ifs
  · exact h
  · exact hmin

theorem capped_le (n cap : UInt8) : capped n cap ≤ n := by
  rw [capped]
  split_ifs with h
  · exact UInt8.le_refl n
  · exact UInt8.not_lt.mp h

theorem capped_le_cap (n cap : UInt8) : capped n cap ≤ cap := by
  rw [capped]
  split_ifs with h
  · exact UInt8.le_of_lt h
  · exact UInt8.le_refl cap

theorem le_capped {n m cap : UInt8} (h : m ≤ n) (hcap : m ≤ cap) :
    m ≤ capped n cap := by
  rw [capped]
  split_ifs
  · exact h
  · exact hcap

/-! ## The sink -/

theorem selectSbcSinkConfiguration_spec {remote c : SbcElement}
    (h : selectSbcSinkConfiguration remote = some c) :
    Respects remote c ∧ isValidSbcSinkConfiguration c = true := by
  rw [selectSbcSinkConfiguration] at h
  split_ifs at h with hnone hrange
  obtain ⟨hfrequency, hmode, hblock, hsubband, hallocation⟩ :=
    by simpa only [not_or] using hnone
  obtain rfl := Option.some.inj h
  have hvalid : isValidSbcSinkConfiguration (.ofBytes
      (pickFirst (remote.byte 0) frequencies |||
        pickFirst (remote.byte 0) modes)
      (pickFirst (remote.byte 1) blocks |||
        pickFirst (remote.byte 1) subbands |||
        pickFirst (remote.byte 1) allocations)
      (raised (remote.byte 2))
      (capped (remote.byte 3) a2dpSbcMaxBitpool)) = true := by
    obtain ⟨hrate, hchannels⟩ := oneBit_format _ (pickFirst_mem hfrequency)
      _ (pickFirst_mem hmode)
    obtain ⟨hblocks, hsubbands, hallocations⟩ := oneBit_framing
      _ (pickFirst_mem hblock) _ (pickFirst_mem hsubband)
      _ (pickFirst_mem hallocation)
    have hmax := capped_le_cap (remote.byte 3) a2dpSbcMaxBitpool
    have hcap : a2dpSbcMaxBitpool ≤ 250 := by decide
    simp only [isValidSbcSinkConfiguration, Bool.and_eq_true,
      Bool.or_eq_true, beq_iff_eq, decide_eq_true_eq]
    exact ⟨⟨⟨⟨⟨⟨⟨hrate, hchannels⟩, hblocks⟩, hsubbands⟩, hallocations⟩,
      two_le_raised _⟩, UInt8.not_lt.mp hrange⟩, UInt8.le_trans hmax hcap⟩
  refine ⟨⟨oneBitPerField_of_isValid hvalid, ?_, ?_, ?_, ?_, ?_⟩, hvalid⟩
  · intro i hi
    interval_cases i
    · rw [ofBytes_byte_zero, byte_and_or, and_pickFirst oneBit_lists.1,
        and_pickFirst oneBit_lists.2.1]
    · exact and_framing _
  · exact raised_eq _
  · exact two_le_raised _
  · exact UInt8.not_lt.mp hrange
  · exact capped_le _ _

theorem selectSbcSinkConfiguration_of_offers {remote : SbcElement}
    (h : Offers remote) :
    ∃ c, selectSbcSinkConfiguration remote = some c := by
  obtain ⟨n, hlow, hhigh, hmin, hmax⟩ := h.bitpool
  obtain ⟨hfrequencies, hmodes, hblocks, hsubbands, hallocations, _⟩ :=
    oneBit_lists
  have hfrequency : pickFirst (remote.byte 0) frequencies ≠ 0 :=
    pickFirst_ne_zero hfrequencies (by decide) h.frequency
  have hmode : pickFirst (remote.byte 0) modes ≠ 0 :=
    pickFirst_ne_zero hmodes (by decide) h.mode
  have hblock : pickFirst (remote.byte 1) blocks ≠ 0 :=
    pickFirst_ne_zero hblocks (by decide) h.blocks
  have hsubband : pickFirst (remote.byte 1) subbands ≠ 0 :=
    pickFirst_ne_zero hsubbands (by decide) h.subbands
  have hallocation : pickFirst (remote.byte 1) allocations ≠ 0 :=
    pickFirst_ne_zero hallocations (by decide) h.allocation
  have hrange : ¬ raised (remote.byte 2) >
      capped (remote.byte 3) a2dpSbcMaxBitpool :=
    UInt8.not_lt.mpr (UInt8.le_trans (raised_le hlow hmin)
      (le_capped hhigh hmax))
  rw [selectSbcSinkConfiguration, if_neg (by simp [hfrequency, hmode, hblock,
    hsubband, hallocation]), if_neg hrange]
  exact ⟨_, rfl⟩

/-! ## The source -/

theorem selectSbcSourceConfiguration_spec {remoteSbc : Option SbcElement}
    {c : SbcElement} (h : selectSbcSourceConfiguration remoteSbc = .ok c)
    (hone : OneBitPerField c) :
    ∃ remote, remoteSbc = some remote ∧ Respects remote c := by
  cases remoteSbc with
  | none => cases h
  | some remote =>
      refine ⟨remote, rfl, ?_⟩
      rw [selectSbcSourceConfiguration] at h
      split_ifs at h with hrate hmode hframing hrange
      injection h with h
      subst h
      refine ⟨hone, ?_, ?_, ?_, ?_, ?_⟩
      · intro i hi
        interval_cases i
        · have hbit : OneBit 0x10 := by decide
          have heq := (hbit.and_eq (remote.byte 0)).resolve_right hrate
          rw [sourceConfiguration, ofBytes_byte_zero, byte_and_or, heq,
            and_pickFirst oneBit_lists.2.2.2.2.2]
        · exact and_framing _
      · exact raised_eq _
      · exact two_le_raised _
      · exact UInt8.not_lt.mp hrange
      · exact capped_le _ _

/-! ## Proposals -/

section

variable {l : BluetoothLink} {sbcInit : SbcElement → Bool} {payload : Bytes}
  {r : Negotiated}

theorem command_failInput (l : BluetoothLink) (failure : Bytes) :
    (l.failInput failure).command = none := by
  rw [BluetoothLink.failInput]
  split_ifs <;> rfl

theorem configureSbcDecoder_accepts (l : BluetoothLink) (c : SbcElement)
    (accepted : Bool) : (l.configureSbcDecoder c accepted).2 = accepted := by
  cases accepted <;> rfl

/-- A proposal for an output is what the selection makes of the entry that the
walk keeps, and the codec library accepts it. -/
theorem onOutputCapabilities_command
    (hr : l.onOutputCapabilities sbcInit payload = .ok r) {body : Bytes}
    (hbody : r.command = some body) :
    ∃ (remoteSbc : Option SbcElement) (c : SbcElement),
      findOutputSbc payload = .ok remoteSbc ∧
      selectSbcSourceConfiguration remoteSbc = .ok c ∧ sbcInit c = true ∧
      body = setConfiguration l.remoteSinkSeid avdtpSourceSeid c := by
  obtain ⟨remoteSbc, hfound, hr⟩ := bind_eq_ok.mp hr
  cases hselect : selectSbcSourceConfiguration remoteSbc with
  | error reason =>
      rw [hselect] at hr
      obtain rfl := pure_eq_ok.mp hr
      cases hbody
  | ok c =>
      rw [hselect] at hr
      cases hinit : sbcInit c with
      | false =>
          simp only [hinit, Bool.false_eq_true, if_false] at hr
          obtain rfl := pure_eq_ok.mp hr
          cases hbody
      | true =>
          simp only [hinit, if_true] at hr
          obtain rfl := pure_eq_ok.mp hr
          exact ⟨remoteSbc, c, hfound, hselect, hinit,
            (Option.some.inj hbody).symm⟩

/-- A proposal for an input is what the selection makes of the entry that the
search finds. -/
theorem onInputCapabilities_command
    (hr : l.onInputCapabilities sbcInit payload = .ok r) {body : Bytes}
    (hbody : r.command = some body) :
    ∃ remote c : SbcElement, findSbcCodec payload = .ok (some remote) ∧
      selectSbcSinkConfiguration remote = some c ∧
      body = setConfiguration l.remoteSourceSeid avdtpSinkSeid c := by
  rw [BluetoothLink.onInputCapabilities] at hr
  split_ifs at hr with hbusy
  · obtain rfl := pure_eq_ok.mp hr
    cases hbody
  · obtain ⟨remoteSbc, hfound, hr⟩ := bind_eq_ok.mp hr
    cases hselect : remoteSbc.bind selectSbcSinkConfiguration with
    | none =>
        rw [hselect] at hr
        obtain rfl := pure_eq_ok.mp hr
        rw [command_failInput] at hbody
        cases hbody
    | some c =>
        rw [hselect] at hr
        obtain ⟨remote, rfl, hpicked⟩ := Option.bind_eq_some_iff.mp hselect
        cases hinit : sbcInit c with
        | false =>
            simp only [hinit, configureSbcDecoder_accepts,
              Bool.false_eq_true, if_false] at hr
            obtain rfl := pure_eq_ok.mp hr
            rw [command_failInput] at hbody
            cases hbody
        | true =>
            simp only [hinit, configureSbcDecoder_accepts, if_true] at hr
            obtain rfl := pure_eq_ok.mp hr
            exact ⟨remote, c, hfound, hpicked, (Option.some.inj hbody).symm⟩

theorem onInputCapabilities_proposes (hidle : l.inRemoteActive = false)
    (hfree : l.inConfigured = false) {remote c : SbcElement}
    (hfound : findSbcCodec payload = .ok (some remote))
    (hselect : selectSbcSinkConfiguration remote = some c)
    (hinit : sbcInit c = true) :
    ∃ r : Negotiated, l.onInputCapabilities sbcInit payload = .ok r ∧
      r.command =
        some (setConfiguration l.remoteSourceSeid avdtpSinkSeid c) := by
  have hbind : (some remote).bind selectSbcSinkConfiguration = some c :=
    hselect
  rw [BluetoothLink.onInputCapabilities, hidle, hfree, if_neg (by decide),
    hfound, ok_bind, hbind]
  simp only [hinit, configureSbcDecoder_accepts, if_true]
  exact ⟨_, rfl, rfl⟩

end

/-- Both walks end inside the payload with an entry of it or none; what is
proposed respects the entry; an input that is neither configured nor started
by the device gets a proposal whenever the entry offers one; the selection for
an input is valid, and what is valid has one bit in each field. -/
theorem sbc_negotiation (sbcInit : SbcElement → Bool)
    (hinit : ∀ c, sbcInit c = true ↔ OneBitPerField c) (l : BluetoothLink)
    (payload : Bytes) :
    (∃ found : Option SbcElement,
      (∀ fuel : Nat, payload.length ≤ fuel →
        findSbcFrom payload fuel 0 = .ok found) ∧
      findSbcCodec payload = .ok found ∧
      ∀ sbc ∈ found, ∃ o : Nat, EntryAt payload o sbc) ∧
    (∃ found : Option SbcElement,
      (∀ fuel : Nat, payload.length ≤ fuel →
        findOutputSbcFrom payload fuel 0 none = .ok found) ∧
      findOutputSbc payload = .ok found ∧
      ∀ sbc ∈ found, ∃ o : Nat, EntryAt payload o sbc) ∧
    (∀ (r : Negotiated) (body : Bytes),
      l.onOutputCapabilities sbcInit payload = .ok r →
      r.command = some body →
      ∃ remote c : SbcElement, findOutputSbc payload = .ok (some remote) ∧
        body = setConfiguration l.remoteSinkSeid avdtpSourceSeid c ∧
        Respects remote c) ∧
    (∀ (r : Negotiated) (body : Bytes),
      l.onInputCapabilities sbcInit payload = .ok r →
      r.command = some body →
      ∃ remote c : SbcElement, findSbcCodec payload = .ok (some remote) ∧
        body = setConfiguration l.remoteSourceSeid avdtpSinkSeid c ∧
        Respects remote c) ∧
    (l.inRemoteActive = false → l.inConfigured = false →
      ∀ remote : SbcElement, findSbcCodec payload = .ok (some remote) →
      Offers remote →
      ∃ r : Negotiated, l.onInputCapabilities sbcInit payload = .ok r ∧
        r.command.isSome = true) ∧
    (∀ remote c : SbcElement, selectSbcSinkConfiguration remote = some c →
      isValidSbcSinkConfiguration c = true) ∧
    ∀ c : SbcElement, isValidSbcSinkConfiguration c = true →
      OneBitPerField c := by
  refine ⟨?_, ?_, ?_, ?_, ?_, ?_, fun c => oneBitPerField_of_isValid⟩
  · obtain ⟨found, hfound, hentry⟩ :=
      findSbcFrom_spec payload payload.length 0
    refine ⟨found, fun fuel hfuel => ?_, hfound, hentry⟩
    rw [findSbcFrom_of_le hfuel]
    exact hfound
  · obtain ⟨found, hfound, hentry⟩ :=
      findOutputSbcFrom_spec payload payload.length 0
        (by simp : ∀ sbc ∈ (none : Option SbcElement), _)
    refine ⟨found, fun fuel hfuel => ?_, hfound, hentry⟩
    rw [findOutputSbcFrom_of_le hfuel]
    exact hfound
  · intro r body hr hbody
    obtain ⟨remoteSbc, c, hfound, hselect, haccepted, heq⟩ :=
      onOutputCapabilities_command hr hbody
    obtain ⟨remote, rfl, hrespects⟩ :=
      selectSbcSourceConfiguration_spec hselect ((hinit c).mp haccepted)
    exact ⟨remote, c, hfound, heq, hrespects⟩
  · intro r body hr hbody
    obtain ⟨remote, c, hfound, hselect, heq⟩ :=
      onInputCapabilities_command hr hbody
    exact ⟨remote, c, hfound, heq,
      (selectSbcSinkConfiguration_spec hselect).1⟩
  · intro hidle hfree remote hfound hoffers
    obtain ⟨c, hselect⟩ := selectSbcSinkConfiguration_of_offers hoffers
    have hone := (selectSbcSinkConfiguration_spec hselect).1.oneBit
    obtain ⟨r, hr, hcommand⟩ := onInputCapabilities_proposes hidle hfree
      hfound hselect ((hinit c).mpr hone)
    exact ⟨r, hr, by rw [hcommand]; rfl⟩
  · exact fun remote c h => (selectSbcSinkConfiguration_spec h).2

def anySink : Bytes := [0x01, 0x00, 0x07, 0x06, 0x00, 0x00, 0xFF, 0xFF, 2, 53]

/-- A device that offers everything gets a proposal for an input. -/
theorem sbc_negotiation_offered :
    ∃ r : Negotiated,
      (BluetoothLink.reset ⟨0, false, 0, 0⟩).onInputCapabilities
        (fun c => decide (OneBitPerField c)) anySink = .ok r ∧
      r.command.isSome = true :=
  (sbc_negotiation (fun c => decide (OneBitPerField c))
    (fun _ => decide_eq_true_iff) (BluetoothLink.reset ⟨0, false, 0, 0⟩)
    anySink).2.2.2.2.1 rfl rfl (.ofBytes 0xFF 0xFF 2 53) (by decide)
    ⟨by decide, by decide, by decide, by decide, by decide,
      ⟨2, by decide, by decide, by decide, by decide⟩⟩

/-- A link whose input the device has configured itself ignores the reply. -/
theorem configured_input_not_proposed :
    ¬ ∀ (l : BluetoothLink) (payload : Bytes) (remote : SbcElement),
      findSbcCodec payload = .ok (some remote) → Offers remote →
      ∃ r : Negotiated,
        l.onInputCapabilities (fun c => decide (OneBitPerField c)) payload =
          .ok r ∧
        r.command.isSome = true := by
  intro h
  obtain ⟨r, hr, hcommand⟩ := h
    { BluetoothLink.reset ⟨0, false, 0, 0⟩ with
      used := true, inRemoteActive := true, inConfigured := true }
    anySink (.ofBytes 0xFF 0xFF 2 53) (by decide)
    ⟨by decide, by decide, by decide, by decide, by decide,
      ⟨2, by decide, by decide, by decide, by decide⟩⟩
  obtain rfl := pure_eq_ok.mp hr
  cases hcommand

end Audiox.Bluetooth
