import Audiox.Bluetooth.PairedTable
import Audiox.Support.Runs
import Mathlib

/-!
# Pairing

The requests of the user are taken by one thread, which also answers the events
of the controller.  A device is paired from the moment at which the controller
notifies its link key; whether the device may pair is asked earlier, when the
controller wants to know the capabilities or a PIN.
-/

namespace Audiox.Bluetooth

open ByteCodec Config Scenes Runs

/-! ## Events of the controller -/

def btEvtConnRequest : UInt8 := 0x04
def btEvtAuthComplete : UInt8 := 0x06
def btEvtPinCodeRequest : UInt8 := 0x16
def btEvtLinkKeyRequest : UInt8 := 0x17
def btEvtLinkKeyNotify : UInt8 := 0x18
def btEvtIoCapabilityRequest : UInt8 := 0x31
def btEvtUserConfirmRequest : UInt8 := 0x33
def btEvtUserPasskeyRequest : UInt8 := 0x34
def btEvtSimplePairingComplete : UInt8 := 0x36
def btCodMajorPhone : Nat := 0x02
def btLinkTypeAcl : UInt8 := 0x01

inductive AgentEvent where
  | connRequest (address : Address) (majorClass : Nat)
  | linkKeyRequest (address : Address)
  | ioCapabilityRequest (address : Address)
  | userConfirmRequest (address : Address)
  | userPasskeyRequest (address : Address)
  | pinCodeRequest (address : Address)
  | linkKeyNotify (address : Address) (linkKey : LinkKey) (linkKeyType : UInt8)
  | simplePairingFailed (address : Address) (status : UInt8)
  | authFailed (status : UInt8)
deriving DecidableEq

def paramAddress (params : Bytes) : Option Address :=
  if h : (params.take 6).length = 6 then some ⟨params.take 6, h⟩ else none

def paramKey (params : Bytes) : Option LinkKey :=
  if h : ((params.drop 6).take 16).length = 16 then
    some ⟨(params.drop 6).take 16, h⟩
  else none

def classOfDevice (params : Bytes) : Nat :=
  (params.getD 6 0).toNat ||| (params.getD 7 0).toNat <<< 8 |||
    (params.getD 8 0).toNat <<< 16

/-- The events about a device, whose address comes first. -/
def deviceEvent (event : UInt8) (params : Bytes) (address : Address) :
    Option AgentEvent :=
  if event = btEvtConnRequest then
    if params.length < 10 ∨ params.getD 9 0 ≠ btLinkTypeAcl then none
    else some (.connRequest address (classOfDevice params >>> 8 &&& 0x1f))
  else if event = btEvtLinkKeyRequest then some (.linkKeyRequest address)
  else if event = btEvtIoCapabilityRequest then
    some (.ioCapabilityRequest address)
  else if event = btEvtUserConfirmRequest then some (.userConfirmRequest address)
  else if event = btEvtUserPasskeyRequest then some (.userPasskeyRequest address)
  else if event = btEvtPinCodeRequest then some (.pinCodeRequest address)
  else if event = btEvtLinkKeyNotify then
    if params.length < 23 then none
    else
      (paramKey params).map fun linkKey =>
        .linkKeyNotify address linkKey (params.getD 22 0)
  else none

def eventOf (event : UInt8) (params : Bytes) : Option AgentEvent :=
  if event = btEvtAuthComplete then
    if params.length ≥ 1 ∧ params.getD 0 0 ≠ 0 then
      some (.authFailed (params.getD 0 0))
    else none
  else if event = btEvtSimplePairingComplete then
    if params.length ≥ 7 ∧ params.getD 0 0 ≠ 0 then
      (paramAddress (params.drop 1)).map (.simplePairingFailed · (params.getD 0 0))
    else none
  else (paramAddress params).bind (deviceEvent event params)

/-- The event of a packet, if it is one that is looked at. -/
def agentEvent : Bytes → Option AgentEvent
  | 0x04 :: event :: _ :: params => eventOf event params
  | _ => none

/-! ## The context -/

inductive BluetoothRequest where
  | none
  | scan
  | pair
  | connect
  | disconnect
  | unpair
deriving DecidableEq

/-- Where the worker thread is between two regions of the mutex. -/
inductive Worker where
  | loop
  | taken (next : BluetoothRequest) (target : Address)
  | scanning
  | pairing (target : Address)
  | paired (target : Address)
  | unpairing (target : Address)
deriving DecidableEq

/-- The worker reads events in its loop and while a device is being paired. -/
def Worker.listens : Worker → Bool
  | .loop => true
  | .pairing _ => true
  | _ => false

structure PairingContext where
  request : BluetoothRequest
  pairTarget : Address
  scanning : Bool
  pairing : Bool
  connectQueued : Bool
  devices : List BluetoothDevice
  inboundPhone : Address
  pairKeyStored : Bool
  pairFailure : UInt8
  worker : Worker
deriving DecidableEq

/-- What is written to the controller. -/
inductive AgentCommand where
  | linkKeyReply (address : Address) (linkKey : LinkKey)
  | linkKeyNegReply (address : Address)
  | ioCapabilityReply (address : Address)
  | ioCapabilityNegReply (address : Address)
  | userConfirmReply (address : Address)
  | userPasskeyNegReply (address : Address)
  | pinCodeReply (address : Address)
  | pinCodeNegReply (address : Address)
deriving DecidableEq

namespace PairingContext

def start (devices : List BluetoothDevice) : PairingContext where
  request := .none
  pairTarget := zeroAddress
  scanning := false
  pairing := false
  connectQueued := false
  devices := devices
  inboundPhone := zeroAddress
  pairKeyStored := false
  pairFailure := 0
  worker := .loop

/-- Whether the device is in the table as a paired one. -/
def isPaired (s : PairingContext) (address : Address) : Bool :=
  ((findDevice s.devices address).map (·.paired)).getD false

def pairingAllowed (s : PairingContext) (address : Address) : Bool :=
  (s.pairing && address == s.pairTarget) || s.isPaired address

def setDeviceRoles (s : PairingContext) (address : Address)
    (source sink : Option Bool) : PairingContext :=
  if address = zeroAddress then s
  else { s with devices := updateDevice address (giveRoles source sink) s.devices }

/-- The key of a request, where the device is paired. -/
def linkKeyAnswer (s : PairingContext) (address : Address) : AgentCommand :=
  match findDevice s.devices address with
  | some device =>
      if device.paired then .linkKeyReply address device.linkKey
      else .linkKeyNegReply address
  | none => .linkKeyNegReply address

/-- A notified link key, which is stored with the device. -/
def storeLinkKey (s : PairingContext) (address : Address) (linkKey : LinkKey)
    (linkKeyType : UInt8) : PairingContext :=
  { s with
    devices := updateDevice address (keepKey s.inboundPhone linkKey linkKeyType)
      (withEntry s.devices address)
    pairKeyStored := s.pairKeyStored || (s.pairing && address == s.pairTarget) }

def handleAgentEvent (s : PairingContext) :
    AgentEvent → PairingContext × List AgentCommand
  | .connRequest address majorClass =>
      if majorClass = btCodMajorPhone then
        ({ s with inboundPhone := address }.setDeviceRoles address (some true)
          none, [])
      else (s, [])
  | .linkKeyRequest address => (s, [s.linkKeyAnswer address])
  | .ioCapabilityRequest address =>
      if s.pairingAllowed address then (s, [.ioCapabilityReply address])
      else (s, [.ioCapabilityNegReply address])
  | .userConfirmRequest address => (s, [.userConfirmReply address])
  | .userPasskeyRequest address => (s, [.userPasskeyNegReply address])
  | .pinCodeRequest address =>
      if s.pairingAllowed address then (s, [.pinCodeReply address])
      else (s, [.pinCodeNegReply address])
  | .linkKeyNotify address linkKey linkKeyType =>
      (s.storeLinkKey address linkKey linkKeyType, [])
  | .simplePairingFailed address status =>
      if s.pairing ∧ address = s.pairTarget then
        ({ s with pairFailure := status }, [])
      else (s, [])
  | .authFailed status =>
      if s.pairing then ({ s with pairFailure := status }, []) else (s, [])

/-! ## Requests -/

/-- No request is waiting or being carried out. -/
def Free (s : PairingContext) : Prop :=
  s.request = .none ∧ s.scanning = false ∧ s.pairing = false

instance (s : PairingContext) : Decidable s.Free :=
  inferInstanceAs (Decidable (_ ∧ _))

def requestScan (s : PairingContext) (linkUsed : Bool) : Option PairingContext :=
  if s.Free ∧ s.connectQueued = false ∧ linkUsed = false then
    some { s with request := .scan, scanning := true }
  else none

def requestPair (s : PairingContext) (target : Address) (linkUsed : Bool) :
    Option PairingContext :=
  if target ≠ zeroAddress ∧ s.Free ∧ s.connectQueued = false ∧
      linkUsed = false then
    some { s with request := .pair, pairTarget := target, pairing := true }
  else none

/-- `linkFree` says that there is a free link, that no other one is connecting
and that none belongs to the device. -/
def requestConnect (s : PairingContext) (target : Address) (linkFree : Bool) :
    Option PairingContext :=
  match findDevice s.devices target with
  | none => none
  | some device =>
      if target ≠ zeroAddress ∧ device.paired ∧ device.classic ∧ s.Free ∧
          s.connectQueued = false ∧ linkFree then
        some { s with
          request := .connect, pairTarget := target, connectQueued := true }
      else none

/-- The zero address stands for every link. -/
def requestDisconnect (s : PairingContext) (target : Address) (linked : Bool) :
    Option PairingContext :=
  if s.Free ∧ linked then
    some { s with request := .disconnect, pairTarget := target }
  else none

def requestUnpair (s : PairingContext) (target : Address) :
    Option PairingContext :=
  match findDevice s.devices target with
  | none => none
  | some device =>
      if target ≠ zeroAddress ∧ device.paired ∧ s.Free ∧
          s.connectQueued = false then
        some { s with request := .unpair, pairTarget := target }
      else none

def requestAutoConnect (s : PairingContext) (target : Address) (enabled : Bool) :
    Option PairingContext :=
  match findDevice s.devices target with
  | none => none
  | some device =>
      if target ≠ zeroAddress ∧ device.paired ∧ device.classic then
        some { s with
          devices := updateDevice target ({ · with autoConnect := enabled })
            s.devices }
      else none

/-! ## The worker -/

def take (s : PairingContext) : PairingContext :=
  { s with request := .none, worker := .taken s.request s.pairTarget }

def bringUpFails (s : PairingContext) (target : Address) : PairingContext :=
  { s with scanning := false, pairing := false, worker := .taken .none target }

/-- The first look of `runPair`. -/
def beginPair (s : PairingContext) (target : Address) : PairingContext :=
  match findDevice s.devices target with
  | some device =>
      if ¬device.classic ∧ ¬device.paired then
        { s with pairing := false, worker := .loop }
      else
        { s with
          pairKeyStored := false, pairFailure := 0, worker := .pairing target }
  | none =>
      { s with
        pairKeyStored := false, pairFailure := 0, worker := .pairing target }

def dispatch (s : PairingContext) (target : Address) :
    BluetoothRequest → PairingContext
  | .scan => { s with worker := .scanning }
  | .pair => s.beginPair target
  | .unpair => { s with worker := .unpairing target }
  | _ => { s with worker := .loop }

def finishScan (s : PairingContext) (found : List DiscoveredDevice) :
    PairingContext :=
  { s with
    devices := addFound found (s.devices.filter (·.paired))
    scanning := false
    worker := .loop }

/-- What `runPair` reports. -/
def pairSucceeded (s : PairingContext) (target : Address) (connected : Bool) :
    Bool :=
  s.pairKeyStored || (connected && s.isPaired target)

def finishUnpair (s : PairingContext) (target : Address) : PairingContext :=
  { s with
    devices := updateDevice target forgetKey s.devices
    worker := .loop }

def publishLinkStatus (s : PairingContext) : PairingContext :=
  if s.request = .connect then s else { s with connectQueued := false }

end PairingContext

inductive ContextEvent where
  | requestScan (linkUsed : Bool)
  | requestPair (target : Address) (linkUsed : Bool)
  | requestConnect (target : Address) (linkFree : Bool)
  | requestDisconnect (target : Address) (linked : Bool)
  | requestUnpair (target : Address)
  | requestAutoConnect (target : Address) (enabled : Bool)
  | take
  | bringUpFails
  | dispatch
  | agent (packet : Bytes)
  | roles (address : Address) (source sink : Option Bool)
  | finishScan (found : List DiscoveredDevice)
  | socketFails
  | finishPair (connected : Bool)
  | endPair
  | finishUnpair
  | publishLinkStatus

inductive Output where
  | command (command : AgentCommand)
  | pairResult (target : Address) (paired : Bool)
deriving DecidableEq

namespace PairingContext

/-- One region of the mutex, with what is written to the controller and what
the user is told behind it; a request that is refused changes nothing. -/
def step (s : PairingContext) :
    ContextEvent → Option (PairingContext × List Output)
  | .requestScan linkUsed => some ((s.requestScan linkUsed).getD s, [])
  | .requestPair target linkUsed => some ((s.requestPair target linkUsed).getD s, [])
  | .requestConnect target linkFree =>
      some ((s.requestConnect target linkFree).getD s, [])
  | .requestDisconnect target linked =>
      some ((s.requestDisconnect target linked).getD s, [])
  | .requestUnpair target => some ((s.requestUnpair target).getD s, [])
  | .requestAutoConnect target enabled =>
      some ((s.requestAutoConnect target enabled).getD s, [])
  | .take => if s.worker = .loop then some (s.take, []) else none
  | .bringUpFails =>
      match s.worker with
      | .taken _ target => some (s.bringUpFails target, [])
      | _ => none
  | .dispatch =>
      match s.worker with
      | .taken next target => some (s.dispatch target next, [])
      | _ => none
  | .agent packet =>
      if s.worker.listens then
        match agentEvent packet with
        | some event =>
            some ((s.handleAgentEvent event).1,
              (s.handleAgentEvent event).2.map .command)
        | none => some (s, [])
      else none
  | .roles address source sink =>
      if s.worker = .loop then some (s.setDeviceRoles address source sink, [])
      else none
  | .finishScan found =>
      if s.worker = .scanning then some (s.finishScan found, []) else none
  | .socketFails =>
      match s.worker with
      | .pairing _ => some ({ s with pairing := false, worker := .loop }, [])
      | _ => none
  | .finishPair connected =>
      match s.worker with
      | .pairing target =>
          some ({ s with worker := .paired target },
            [.pairResult target (s.pairSucceeded target connected)])
      | _ => none
  | .endPair =>
      match s.worker with
      | .paired _ => some ({ s with pairing := false, worker := .loop }, [])
      | _ => none
  | .finishUnpair =>
      match s.worker with
      | .unpairing target => some (s.finishUnpair target, [])
      | _ => none
  | .publishLinkStatus =>
      if s.worker = .loop then some (s.publishLinkStatus, []) else none

end PairingContext

/-! ## What a run has seen -/

/-- What the user and the controller have done.  `approved` are the devices that
were loaded as paired or asked for, `replied` those that got a positive reply and
`granted` those that got one since they were last forgotten; forgetting a device
ends its approval. -/
structure History where
  approved : Address → Bool
  replied : Address → Bool
  granted : Address → Bool
  lastKey : Address → Option LinkKey

structure Session where
  context : PairingContext
  history : History

/-- The device whose link key the controller notifies. -/
def ContextEvent.notified : ContextEvent → Option (Address × LinkKey)
  | .agent packet =>
      match agentEvent packet with
      | some (.linkKeyNotify address linkKey _) => some (address, linkKey)
      | _ => none
  | _ => none

/-- The device that the user asks to pair. -/
def ContextEvent.asked (s : PairingContext) : ContextEvent → Option Address
  | .requestPair target linkUsed =>
      if (s.requestPair target linkUsed).isSome then some target else none
  | _ => none

/-- The device whose forgetting is completed. -/
def ContextEvent.forgotten (s : PairingContext) : ContextEvent → Option Address
  | .finishUnpair =>
      match s.worker with
      | .unpairing target => some target
      | _ => none
  | _ => none

/-- A positive reply to the device is among the outputs. -/
def granting (address : Address) (outputs : List Output) : Bool :=
  outputs.any fun output =>
    output == .command (.ioCapabilityReply address) ||
      output == .command (.pinCodeReply address)

def History.after (h : History) (s : PairingContext) (e : ContextEvent)
    (outputs : List Output) : History where
  approved address :=
    (h.approved address || decide (e.asked s = some address)) &&
      decide (e.forgotten s ≠ some address)
  replied address := h.replied address || granting address outputs
  granted address :=
    (h.granted address || granting address outputs) &&
      decide (e.forgotten s ≠ some address)
  lastKey address :=
    match e.notified with
    | some (notified, linkKey) =>
        if notified = address then some linkKey else h.lastKey address
    | none => h.lastKey address

/-- A region of the mutex, and what it adds to the history. -/
def Session.step (s : Session) (e : ContextEvent) :
    Option (Session × List Output) :=
  (s.context.step e).map fun result =>
    (⟨result.1, s.history.after s.context e result.2⟩, result.2)

def Session.start (devices : List BluetoothDevice) : Session where
  context := .start devices
  history :=
    { approved := fun address => (PairingContext.start devices).isPaired address
      replied := fun _ => false
      granted := fun _ => false
      lastKey := fun address => (findDevice devices address).map (·.linkKey) }

def Session.next (s : Session) (e : ContextEvent) : Option Session :=
  (s.step e).map (·.1)

end Audiox.Bluetooth
