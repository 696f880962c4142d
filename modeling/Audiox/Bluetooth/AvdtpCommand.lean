import Audiox.Bluetooth.Link
import Mathlib

/-!
# Commands of a connected device

A connected device sets up and controls streams with commands.  Ten signals are
known; each is answered once, with what was asked for or with a reject, and the
streams that it closes are closed behind the answer.
-/

namespace Audiox.Bluetooth

open ByteCodec CheckedRead

def avdtpDiscover : UInt8 := 0x01
def avdtpGetCapabilities : UInt8 := 0x02
def avdtpSetConfiguration : UInt8 := 0x03
def avdtpGetConfiguration : UInt8 := 0x04
def avdtpReconfigure : UInt8 := 0x05
def avdtpOpen : UInt8 := 0x06
def avdtpStart : UInt8 := 0x07
def avdtpClose : UInt8 := 0x08
def avdtpSuspend : UInt8 := 0x09
def avdtpAbort : UInt8 := 0x0A
def avdtpGetAllCapabilities : UInt8 := 0x0C
def avdtpDelayReport : UInt8 := 0x0D

def avdtpBadAcpSeid : UInt8 := 0x12
def avdtpSepInUse : UInt8 := 0x13
def avdtpBadPayloadFormat : UInt8 := 0x18
def avdtpUnsupportedConfiguration : UInt8 := 0x29
def avdtpBadState : UInt8 := 0x31

def avdtpSinkSeid : UInt8 := 1
def avdtpSourceSeid : UInt8 := 2

/-- What the codec library and the clock answer during a command. -/
structure CommandEnv where
  nowMs : Nat
  sbcInit : Bool

/-- What the command leaves behind before it is answered. -/
structure Switched where
  link : BluetoothLink
  body : Bytes
  error : UInt8
  errorCategory : UInt8
  rejectSeid : UInt8
  closeInput : Bool
  closeOutput : Bool

namespace Switched

def accept (l : BluetoothLink) (body : Bytes) : Switched where
  link := l
  body := body
  error := 0
  errorCategory := 0
  rejectSeid := 0
  closeInput := false
  closeOutput := false

def reject (l : BluetoothLink) (error : UInt8) : Switched :=
  { accept l [] with error := error }

end Switched

namespace BluetoothLink

/-! ## Questions -/

def onDiscover (l : BluetoothLink) : Switched :=
  .accept l
    ([avdtpSinkSeid <<< 2 ||| (if l.inConfigured then 0x02 else 0x00), 0x08] ++
      if l.outConfigured then [avdtpSourceSeid <<< 2 ||| 0x02, 0x00] else [])

def sbcHeader : Bytes := [0x01, 0x00, 0x07, 0x06, 0x00, 0x00]

def onGetCapabilities (l : BluetoothLink) (payload : Bytes) (acpSeid : UInt8) :
    Switched :=
  if payload.length < 1 then .reject l avdtpBadPayloadFormat
  else if acpSeid ≠ avdtpSinkSeid then .reject l avdtpBadAcpSeid
  else .accept l (sbcHeader ++ a2dpSbcSinkCapabilities)

def onGetConfiguration (l : BluetoothLink) (acpSeid : UInt8) : Switched :=
  if acpSeid ≠ avdtpSinkSeid then .reject l avdtpBadAcpSeid
  else if ¬l.inConfigured then .reject l avdtpBadState
  else .accept l (sbcHeader ++ l.inConfig.b)

def onDelayReport (l : BluetoothLink) (acpSeid : UInt8) : Switched :=
  if ¬(acpSeid = avdtpSourceSeid ∧ l.outConfigured) ∧ acpSeid ≠ avdtpSinkSeid then
    .reject l avdtpBadAcpSeid
  else .accept l []

/-! ## Configurations -/

/-- The checks before a configuration is looked at. -/
def configurationError (l : BluetoothLink) (reconfigure : Bool) (payload : Bytes)
    (acpSeid : UInt8) : UInt8 :=
  if payload.length < (if reconfigure then 1 else 2) then avdtpBadPayloadFormat
  else if acpSeid ≠ avdtpSinkSeid then avdtpBadAcpSeid
  else if ¬reconfigure ∧ l.inConfigured then avdtpSepInUse
  else if reconfigure ∧ (¬l.inOpened ∨ l.inStreaming) then avdtpBadState
  else 0

/-- The codec of the capabilities behind the endpoints, if it can be used. -/
def offeredCodec (reconfigure : Bool) (payload : Bytes) : Read Unit (Option SbcElement) := do
  let capabilities ← slice payload (if reconfigure then 1 else 2)
    (payload.length - if reconfigure then 1 else 2)
  let found ← findSbcCodec capabilities
  pure (found.filter isValidSbcSinkConfiguration)

/-- The input is configured by the device. -/
def configured (l : BluetoothLink) (sbc : SbcElement) : BluetoothLink :=
  { l with
    inConfig := sbc
    inConfigured := true
    inRemoteActive := true
    wantInput := true
    connecting := if l.wantOutput then l.connecting else false
    deadlineMs := if l.wantOutput then l.deadlineMs else 0 }

def onConfiguration (l : BluetoothLink) (env : CommandEnv) (reconfigure : Bool)
    (payload : Bytes) (acpSeid : UInt8) : Read Unit Switched :=
  if l.configurationError reconfigure payload acpSeid ≠ 0 then
    pure (.reject l (l.configurationError reconfigure payload acpSeid))
  else do
    let offered ← offeredCodec reconfigure payload
    match offered with
    | none =>
        pure { Switched.reject l avdtpUnsupportedConfiguration with
          errorCategory := 0x07 }
    | some sbc =>
        if (l.configureSbcDecoder sbc env.sbcInit).2 then
          pure (.accept ((l.configureSbcDecoder sbc env.sbcInit).1.configured sbc) [])
        else
          pure { Switched.reject (l.configureSbcDecoder sbc env.sbcInit).1
              avdtpUnsupportedConfiguration with
            errorCategory := 0x07 }

/-! ## Streams -/

def onOpen (l : BluetoothLink) (acpSeid : UInt8) : Switched :=
  if acpSeid ≠ avdtpSinkSeid then .reject l avdtpBadAcpSeid
  else if ¬l.inConfigured ∨ l.inOpened then .reject l avdtpBadState
  else .accept { l with inOpened := true } []

/-- The streams that a command names, or the first endpoint it cannot act on. -/
structure Named where
  output : Bool
  input : Bool
  error : UInt8
  rejectSeid : UInt8

def nameSeid (l : BluetoothLink) (named : Named) (seid : UInt8) : Named :=
  if seid = avdtpSourceSeid ∧ l.outConfigured then
    if ¬l.outOpened then { named with error := avdtpBadState, rejectSeid := seid }
    else { named with output := true }
  else if seid = avdtpSinkSeid then
    if ¬l.inOpened then { named with error := avdtpBadState, rejectSeid := seid }
    else { named with input := true }
  else { named with error := avdtpBadAcpSeid, rejectSeid := seid }

def nameSeids (l : BluetoothLink) : Bytes → Named → Named
  | [], named => named
  | b :: rest, named =>
      if named.error ≠ 0 then named
      else l.nameSeids rest (l.nameSeid named (b >>> 2))

def startOutput (l : BluetoothLink) (nowMs : Nat) : BluetoothLink :=
  { l with
    outStartRequested := false
    outStreaming := true
    silenceSinceMs := nowMs
    slots := { l.slots with outputActive := true } }

def stopOutput (l : BluetoothLink) : BluetoothLink :=
  { l with
    outStreaming := false
    outSuspendRequested := false
    outStartRequested := false
    silenceSinceMs := 0
    slots := { l.slots with outputActive := false } }

def startInputAudio (l : BluetoothLink) : BluetoothLink :=
  { l with
    inStreaming := true
    slots := { l.slots with
      inputPeer := packAddress l.address
      inputRate :=
        if sbcSampleRate l.inConfig = 0 then 48000 else sbcSampleRate l.inConfig } }

def stopInput (l : BluetoothLink) : BluetoothLink :=
  { l with inStreaming := false, slots := { l.slots with inputPeer := 0 } }

/-- The streams that were named, once there was no error. -/
def actOn (l : BluetoothLink) (starting : Bool) (nowMs : Nat) (named : Named) :
    BluetoothLink :=
  if starting then
    if named.input ∧ ¬(if named.output then l.startOutput nowMs else l).inStreaming then
      (if named.output then l.startOutput nowMs else l).startInputAudio
    else if named.output then l.startOutput nowMs else l
  else
    if named.input ∧ (if named.output then l.stopOutput else l).inStreaming then
      (if named.output then l.stopOutput else l).stopInput
    else if named.output then l.stopOutput else l

def onStartSuspend (l : BluetoothLink) (env : CommandEnv) (starting : Bool)
    (payload : Bytes) (acpSeid : UInt8) : Switched :=
  if payload.length < 1 then
    { Switched.reject l avdtpBadPayloadFormat with rejectSeid := acpSeid }
  else if (l.nameSeids payload ⟨false, false, 0, acpSeid⟩).error ≠ 0 then
    { Switched.reject l (l.nameSeids payload ⟨false, false, 0, acpSeid⟩).error with
      rejectSeid := (l.nameSeids payload ⟨false, false, 0, acpSeid⟩).rejectSeid }
  else
    .accept (l.actOn starting env.nowMs
      (l.nameSeids payload ⟨false, false, 0, acpSeid⟩)) []

/-- Aborting an endpoint that is not known is answered, but does nothing. -/
def onCloseAbort (l : BluetoothLink) (closing : Bool) (acpSeid : UInt8) : Switched :=
  if acpSeid = avdtpSourceSeid ∧ l.outConfigured then
    { Switched.accept l [] with closeOutput := true }
  else if acpSeid = avdtpSinkSeid then
    if closing ∧ ¬l.inConfigured then .reject l avdtpBadState
    else { Switched.accept l [] with closeInput := true }
  else if closing then .reject l avdtpBadAcpSeid
  else .accept l []

/-! ## Commands -/

/-- The signal is looked at; one that is not known has no result. -/
def onSignal (l : BluetoothLink) (env : CommandEnv) (signal : UInt8)
    (payload : Bytes) (acpSeid : UInt8) : Read Unit (Option Switched) :=
  if signal = avdtpDiscover then pure (some l.onDiscover)
  else if signal = avdtpGetCapabilities ∨ signal = avdtpGetAllCapabilities then
    pure (some (l.onGetCapabilities payload acpSeid))
  else if signal = avdtpSetConfiguration ∨ signal = avdtpReconfigure then
    some <$> l.onConfiguration env (signal = avdtpReconfigure) payload acpSeid
  else if signal = avdtpGetConfiguration then
    pure (some (l.onGetConfiguration acpSeid))
  else if signal = avdtpOpen then pure (some (l.onOpen acpSeid))
  else if signal = avdtpStart ∨ signal = avdtpSuspend then
    pure (some (l.onStartSuspend env (signal = avdtpStart) payload acpSeid))
  else if signal = avdtpClose ∨ signal = avdtpAbort then
    pure (some (l.onCloseAbort (signal = avdtpClose) acpSeid))
  else if signal = avdtpDelayReport then pure (some (l.onDelayReport acpSeid))
  else pure none

/-- Configuration rejects carry the category, START and SUSPEND rejects the
endpoint. -/
def rejectDetail (signal : UInt8) (r : Switched) : Bytes :=
  if signal = avdtpSetConfiguration ∨ signal = avdtpReconfigure then
    [r.errorCategory]
  else if signal = avdtpStart ∨ signal = avdtpSuspend then [r.rejectSeid <<< 2]
  else []

def replyTo (transaction signal : UInt8) : Option Switched → Bytes
  | none => [transaction <<< 4 ||| 0x01, signal]
  | some r =>
      if r.error ≠ 0 then
        [transaction <<< 4 ||| 0x03, signal] ++ rejectDetail signal r ++ [r.error]
      else [transaction <<< 4 ||| 0x02, signal] ++ r.body

/-- The streams that the command closes. -/
def afterReply (l : BluetoothLink) : Option Switched → BluetoothLink
  | none => l
  | some r =>
      if r.closeInput then r.link.closeInputStream
      else if r.closeOutput then r.link.closeOutputStream
      else r.link

def acpSeidOf (payload : Bytes) : Read Unit UInt8 :=
  if payload.length ≥ 1 then do
    let first ← readByte payload 0
    pure (first >>> 2)
  else pure 0

/-- The link behind the command, and what was sent. -/
def handleAvdtpCommand (l : BluetoothLink) (env : CommandEnv) (packet : Bytes) :
    Read Unit (BluetoothLink × List Bytes) :=
  if ¬l.signalingFd ∨ packet.length < 2 then pure (l, [])
  else do
    let first ← readByte packet 0
    let second ← readByte packet 1
    let payload ← slice packet 2 (packet.length - 2)
    let acpSeid ← acpSeidOf payload
    let result ← l.onSignal env (second &&& 0x3F) payload acpSeid
    pure (l.afterReply result, [replyTo (first >>> 4) (second &&& 0x3F) result])

end BluetoothLink

end Audiox.Bluetooth
