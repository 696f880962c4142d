import Audiox.Bluetooth.Paired
import Audiox.Support.CheckedRead
import Mathlib

/-!
# Links

A link to a device carries an input stream and an output stream, and one
signaling channel for both.  Each link has a slot in the audio engine for each
of the two.
-/

namespace Audiox.Bluetooth

open ByteCodec CheckedRead

def btMaxLinks : Nat := 4
def btA2dpDefaultMediaMtu : Nat := 672

/-- The slots of the audio engine that belong to a link.  A slot whose peer is
zero is idle. -/
structure Slots where
  outputPeer : Nat
  outputActive : Bool
  inputPeer : Nat
  inputRate : Nat
deriving DecidableEq

/-- The SBC element of a configuration. -/
structure SbcElement where
  b : Bytes
  length : b.length = 4
deriving DecidableEq

/-- A codec is `none` unless it is initialised, and otherwise the configuration
it is set up from.  Descriptors are modelled by whether they are open. -/
structure BluetoothLink where
  used : Bool
  address : Address
  signalingFd : Bool
  signalingConnecting : Bool
  connecting : Bool
  deadlineMs : Nat
  wantOutput : Bool
  wantInput : Bool
  discovered : Bool
  discoverAtMs : Nat
  remoteSinkSeid : UInt8
  remoteSourceSeid : UInt8
  -- commands that are sent as initiator
  transaction : UInt8
  pendingSignal : UInt8
  pendingTransaction : UInt8
  pendingInput : Bool
  pendingSinceMs : Nat
  commandPacket : Bytes
  commandLength : Nat
  commandWritePending : Bool
  -- the input stream
  inConfigured : Bool
  inOpened : Bool
  inStreaming : Bool
  inRemoteActive : Bool
  inMediaConnecting : Bool
  inMediaFd : Bool
  inInitiateAtMs : Nat
  decoder : Option SbcElement
  decoderReady : Bool
  inConfig : SbcElement
  fragmentSize : Nat
  fragmentActive : Bool
  -- the output stream
  outStarting : Bool
  outConfigured : Bool
  outOpened : Bool
  outUp : Bool
  outStreaming : Bool
  outMediaConnecting : Bool
  outSuspendRequested : Bool
  outSuspendSupported : Bool
  outStartRequested : Bool
  outMediaFd : Bool
  encoder : Option SbcElement
  encoderReady : Bool
  mediaMtu : Nat
  packetLength : Nat
  silenceSinceMs : Nat
  statsNextMs : Nat
  slots : Slots
deriving DecidableEq

def packAddress (address : Address) : Nat :=
  address.b.reverse.foldl (fun value b => value * 256 + b.toNat) 0

namespace BluetoothLink

/-- `resetLink`; the slots are not part of it. -/
def reset (slots : Slots) : BluetoothLink where
  used := false
  address := ⟨List.replicate 6 0, List.length_replicate⟩
  signalingFd := false
  signalingConnecting := false
  connecting := false
  deadlineMs := 0
  wantOutput := false
  wantInput := false
  discovered := false
  discoverAtMs := 0
  remoteSinkSeid := 0
  remoteSourceSeid := 0
  transaction := 0
  pendingSignal := 0
  pendingTransaction := 0
  pendingInput := false
  pendingSinceMs := 0
  commandPacket := []
  commandLength := 0
  commandWritePending := false
  inConfigured := false
  inOpened := false
  inStreaming := false
  inRemoteActive := false
  inMediaConnecting := false
  inMediaFd := false
  inInitiateAtMs := 0
  decoder := none
  decoderReady := false
  inConfig := ⟨List.replicate 4 0, List.length_replicate⟩
  fragmentSize := 0
  fragmentActive := false
  outStarting := false
  outConfigured := false
  outOpened := false
  outUp := false
  outStreaming := false
  outMediaConnecting := false
  outSuspendRequested := false
  outSuspendSupported := true
  outStartRequested := false
  outMediaFd := false
  encoder := none
  encoderReady := false
  mediaMtu := btA2dpDefaultMediaMtu
  packetLength := 0
  silenceSinceMs := 0
  statsNextMs := 0
  slots := slots

/-! ## Codecs -/

/-- `sbc_finish` for a decoder that is ready. -/
def finishDecoder (l : BluetoothLink) : BluetoothLink :=
  if l.decoderReady then { l with decoder := none, decoderReady := false } else l

def finishEncoder (l : BluetoothLink) : BluetoothLink :=
  if l.encoderReady then { l with encoder := none, encoderReady := false } else l

/-- `sbcInit` says whether the codec library accepts the configuration. -/
def configureSbcDecoder (l : BluetoothLink) (configuration : SbcElement)
    (sbcInit : Bool) : BluetoothLink × Bool :=
  if sbcInit then
    ({ l with
      decoder := some configuration
      decoderReady := true
      fragmentSize := 0
      fragmentActive := false }, true)
  else (l.finishDecoder, false)

/-! ## Closing -/

/-- The outstanding command of one of the two streams is given up. -/
def dropCommand (l : BluetoothLink) (input : Bool) : BluetoothLink :=
  if l.pendingSignal ≠ 0 ∧ l.pendingInput = input then
    { l with pendingSignal := 0, commandLength := 0, commandWritePending := false }
  else l

def closeInputStream (l : BluetoothLink) : BluetoothLink :=
  { l.finishDecoder.dropCommand true with
    inMediaFd := false
    slots := { l.slots with inputPeer := 0 }
    inConfigured := false
    inOpened := false
    inStreaming := false
    inRemoteActive := false
    inMediaConnecting := false
    inInitiateAtMs := 0
    fragmentSize := 0
    fragmentActive := false
    wantInput := false }

/-- `slot.setActive(false)` and a peer of zero, and the input slot is stopped. -/
def closeLink (l : BluetoothLink) : BluetoothLink :=
  if l.used then
    reset { l.slots with outputPeer := 0, outputActive := false, inputPeer := 0 }
  else l

def closeOutputStream (l : BluetoothLink) : BluetoothLink :=
  if ¬l.wantInput ∧ ¬l.inConfigured then l.closeLink
  else
    { l.finishEncoder.dropCommand false with
      slots := { l.slots with outputPeer := 0, outputActive := false }
      outMediaFd := false
      outStarting := false
      outConfigured := false
      outOpened := false
      outUp := false
      outStreaming := false
      outMediaConnecting := false
      outSuspendRequested := false
      outStartRequested := false
      packetLength := 0
      silenceSinceMs := 0
      statsNextMs := 0
      wantOutput := false
      connecting := false
      deadlineMs := 0 }

end BluetoothLink

/-! ## Configurations -/

def a2dpSbcFreq44100 : UInt8 := 0x20
def a2dpSbcFreq48000 : UInt8 := 0x10
def a2dpSbcMinBitpool : UInt8 := 2
def a2dpSbcMaxBitpool : UInt8 := 53

def a2dpSbcSinkCapabilities : Bytes :=
  [a2dpSbcFreq44100 ||| a2dpSbcFreq48000 ||| 0x0F, 0xFF, a2dpSbcMinBitpool,
    a2dpSbcMaxBitpool]

def singleBit (value : UInt8) : Bool :=
  value != 0 && value &&& (value - 1) == 0

def isValidSbcSinkConfiguration (configuration : SbcElement) : Bool :=
  (configuration.b.getD 0 0 &&& 0xF0 == a2dpSbcFreq44100 ||
    configuration.b.getD 0 0 &&& 0xF0 == a2dpSbcFreq48000) &&
  singleBit (configuration.b.getD 0 0 &&& 0x0F) &&
  singleBit (configuration.b.getD 1 0 &&& 0xF0) &&
  singleBit (configuration.b.getD 1 0 &&& 0x0C) &&
  singleBit (configuration.b.getD 1 0 &&& 0x03) &&
  decide (configuration.b.getD 2 0 ≥ a2dpSbcMinBitpool) &&
  decide (configuration.b.getD 2 0 ≤ configuration.b.getD 3 0) &&
  decide (configuration.b.getD 3 0 ≤ 250)

def sbcSampleRate (configuration : SbcElement) : Nat :=
  if configuration.b.getD 0 0 &&& 0xF0 = a2dpSbcFreq48000 then 48000
  else if configuration.b.getD 0 0 &&& 0xF0 = a2dpSbcFreq44100 then 44100
  else 0

def readByte (data : Bytes) (pos : Nat) : Read Unit UInt8 :=
  (slice data pos 1).map (·.headD 0)

def readElementAt (data : Bytes) (pos : Nat) : Read Unit SbcElement :=
  if h : pos + 4 ≤ data.length then
    .ok ⟨(data.drop pos).take 4, by
      rw [List.length_take, List.length_drop]
      omega⟩
  else .error .pastEnd

/-- The loop of `findSbcCodec`; every turn skips two bytes at least. -/
def findSbcFrom (capabilities : Bytes) : Nat → Nat → Read Unit (Option SbcElement)
  | 0, _ => pure none
  | fuel + 1, offset =>
      if offset + 2 ≤ capabilities.length then do
        let category ← readByte capabilities offset
        let categoryLength ← readByte capabilities (offset + 1)
        if categoryLength.toNat > capabilities.length - (offset + 2) then pure none
        else if category = 0x07 ∧ categoryLength ≥ 6 then do
          let mediaType ← readByte capabilities (offset + 2)
          let codec ← readByte capabilities (offset + 3)
          if mediaType >>> 4 = 0 ∧ codec = 0 then do
            let sbc ← readElementAt capabilities (offset + 4)
            pure (some sbc)
          else findSbcFrom capabilities fuel (offset + 2 + categoryLength.toNat)
        else findSbcFrom capabilities fuel (offset + 2 + categoryLength.toNat)
      else pure none

def findSbcCodec (capabilities : Bytes) : Read Unit (Option SbcElement) :=
  findSbcFrom capabilities capabilities.length 0

/-- No more turns are needed than there are bytes. -/
theorem findSbcFrom_succ (capabilities : Bytes) (fuel offset : Nat)
    (h : capabilities.length ≤ offset + fuel) :
    findSbcFrom capabilities (fuel + 1) offset =
      findSbcFrom capabilities fuel offset := by
  induction fuel generalizing offset with
  | zero =>
      have hend : ¬offset + 2 ≤ capabilities.length := by omega
      simp [findSbcFrom, hend]
  | succ fuel ih =>
      have hnext : ∀ n : Nat, findSbcFrom capabilities (fuel + 1) (offset + 2 + n) =
          findSbcFrom capabilities fuel (offset + 2 + n) :=
        fun n => ih _ (by omega)
      rw [findSbcFrom, findSbcFrom]
      simp only [hnext]

end Audiox.Bluetooth
