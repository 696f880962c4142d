import Audiox.Support.Runs
import Mathlib

/-!
# The exchange of blocks with a plugin

The host hands the block of a call to the worker process of the plugin, and in
the next call plays what the worker has made of it.  Both share a mailbox; the
sequence numbers in `request` and `response` say whose turn it is.  Each atomic
operation and each copy of an array is a step of its own, and the steps of the
two sides interleave.
-/

namespace Audiox.PluginExchange

open Runs

def kMaxMissedCycles : UInt32 := 32

/-- The samples of the channels of a block; a sample that is not finite is
`none`. -/
abbrev Samples (channels frames : Nat) (V : Type) : Type :=
  Fin channels → Fin frames → Option V

abbrev Params (V : Type) : Type := Nat → Option V

/-- The module in the worker, which has one instance for each channel, and the
bounds of its parameters. -/
structure Module (frames : Nat) (V S : Type) where
  create : S
  reset : S → S
  process : S → (Fin frames → Option V) → Params V →
    S × (Fin frames → Option V)
  clamp : Params V → Params V

/-! ## Both sides -/

/-- The arguments of a call of `process`, and the generation that it has
loaded. -/
structure Arguments (channels frames : Nat) (V : Type) where
  ins : Samples channels frames V
  params : Option (Params V)
  generation : UInt32

/-- What the host writes for the worker, and the number of the call. -/
structure Request (channels frames : Nat) (V : Type) where
  input : Samples channels frames V
  params : Params V
  generation : UInt32
  call : Nat

/-- A request with the instances that process it; `current` says that the host
has not been reset since it was made when the worker looks at its
generation. -/
structure Taken (channels frames : Nat) (V S : Type) extends
    Request channels frames V where
  instances : Fin channels → S
  current : Bool

/-- A call of `process`; `missed` says that it found the request of an earlier
call without a response. -/
structure Call (channels frames : Nat) (V : Type) extends
    Request channels frames V where
  output : Samples channels frames V
  missed : Bool

inductive Part where
  | input
  | params
  | frames
  | generation
  | publish
deriving DecidableEq

/-- The next thing that the host does. -/
inductive HostAt (channels frames : Nat) (V : Type) where
  | idle
  | checking (args : Arguments channels frames V)
  | loading (args : Arguments channels frames V)
  | hearing (args : Arguments channels frames V)
  | copying (args : Arguments channels frames V) (ready wet missed : Bool)
  | writing (args : Arguments channels frames V) (part : Part)
  | resetting

/-- The next thing that the worker does; the request that it has taken goes
along. -/
inductive WorkerAt (channels frames : Nat) (V S : Type) where
  | polling
  | taking
  | checking (request : UInt32)
  | comparing (request : UInt32)
  | clamping (request : UInt32) (taken : Taken channels frames V S)
  | processing (request : UInt32) (taken : Taken channels frames V S)
      (channel : Nat)
  | answering (request : UInt32) (taken : Taken channels frames V S)
  | publishing (request : UInt32) (taken : Taken channels frames V S)
  | failed

/-- The fields of the host, those of the mailbox, those of the worker, and what
has happened so far: the last request and how many there were, the calls, and
the requests that were answered.  `ready` is false in `Status::Fault`. -/
structure Exchange (channels frames : Nat) (V S : Type) where
  ready : Bool
  generation : UInt32
  localGeneration : UInt32
  sequence : UInt32
  inFlight : UInt32
  missed : UInt32
  eligible : Bool
  dryValid : Bool
  dry : Samples channels frames V
  host : HostAt channels frames V
  workerReady : Bool
  request : UInt32
  response : UInt32
  boxGeneration : UInt32
  requestGeneration : UInt32
  responseGeneration : UInt32
  boxFrames : Nat
  params : Params V
  input : Samples channels frames V
  output : Samples channels frames V
  completed : UInt32
  workerGeneration : UInt32
  instances : Fin channels → S
  worker : WorkerAt channels frames V S
  sent : Request channels frames V
  requests : Nat
  calls : List (Call channels frames V)
  taken : List (Taken channels frames V S)

inductive Event (channels frames : Nat) (V : Type) where
  | process (ins : Samples channels frames V) (params : Option (Params V))
  | reset
  | host
  | worker

section

variable {channels frames : Nat} {V S : Type} [Zero V]

/-- Samples that are not finite are replaced. -/
def clean (samples : Samples channels frames V) : Samples channels frames V :=
  fun c f => some ((samples c f).getD 0)

def silence : Samples channels frames V := fun _ _ => some 0

def cleanParams : Option (Params V) → Params V
  | some params => fun p => some ((params p).getD 0)
  | none => fun _ => some 0

/-- The sequence number 0 is left out. -/
def nextSequence (sequence : UInt32) : UInt32 :=
  if sequence + 1 = 0 then 1 else sequence + 1

namespace Exchange

variable (M : Module frames V S) (s : Exchange channels frames V S)

/-! ## The host -/

def beginProcess (ins : Samples channels frames V)
    (params : Option (Params V)) : Exchange channels frames V S :=
  if s.generation ≠ s.localGeneration then
    { s with
      localGeneration := s.generation
      dryValid := false
      eligible := false
      host := .checking ⟨ins, params, s.generation⟩ }
  else { s with host := .checking ⟨ins, params, s.generation⟩ }

def checkState (args : Arguments channels frames V) :
    Exchange channels frames V S :=
  if s.ready then
    if s.workerReady then
      if s.inFlight ≠ 0 then { s with host := .loading args }
      else { s with host := .copying args true false false }
    else { s with ready := false, host := .copying args false false false }
  else { s with host := .copying args false false false }

def loadResponse (args : Arguments channels frames V) :
    Exchange channels frames V S :=
  if s.response = s.inFlight then { s with host := .hearing args }
  else
    { s with
      eligible := false
      missed := s.missed + 1
      ready := decide (s.missed + 1 < kMaxMissedCycles)
      host := .copying args (decide (s.missed + 1 < kMaxMissedCycles)) false
        true }

def hear (args : Arguments channels frames V) : Exchange channels frames V S :=
  { s with
    inFlight := 0
    missed := 0
    host := .copying args true
      (s.eligible && s.responseGeneration == args.generation) false }

/-- The samples that are played. -/
def played (wet : Bool) : Samples channels frames V :=
  clean (if wet then s.output else if s.dryValid then s.dry else silence)

def copyAudio (args : Arguments channels frames V) (ready wet missed : Bool) :
    Exchange channels frames V S :=
  { s with
    dry := clean args.ins
    dryValid := true
    host :=
      if ready = true ∧ s.inFlight = 0 then .writing args .input else .idle
    calls := s.calls ++
      [⟨⟨clean args.ins, cleanParams args.params, args.generation,
        s.calls.length⟩, s.played wet, missed⟩] }

def writePart (args : Arguments channels frames V) :
    Part → Exchange channels frames V S
  | .input => { s with input := s.dry, host := .writing args .params }
  | .params =>
      { s with
        params := cleanParams args.params
        host := .writing args .frames }
  | .frames =>
      { s with boxFrames := frames, host := .writing args .generation }
  | .generation =>
      { s with
        requestGeneration := args.generation
        host := .writing args .publish }
  | .publish =>
      { s with
        sequence := nextSequence s.sequence
        inFlight := nextSequence s.sequence
        eligible := true
        request := nextSequence s.sequence
        sent := ⟨s.dry, cleanParams args.params, args.generation,
          s.calls.length - 1⟩
        requests := s.requests + 1
        host := .idle }

def hostStep : Exchange channels frames V S :=
  match s.host with
  | .idle => s
  | .checking args => s.checkState args
  | .loading args => s.loadResponse args
  | .hearing args => s.hear args
  | .copying args ready wet missed => s.copyAudio args ready wet missed
  | .writing args part => s.writePart args part
  | .resetting => { s with boxGeneration := s.generation, host := .idle }

/-! ## The worker -/

/-- The instances, reset if the generation is another one than the worker's. -/
def freshened (generation : UInt32) : Fin channels → S :=
  if generation ≠ s.workerGeneration then fun c => M.reset (s.instances c)
  else s.instances

def processChannel (request : UInt32) (taken : Taken channels frames V S)
    (channel : Nat) : Exchange channels frames V S :=
  if h : channel < channels then
    { s with
      instances := Function.update s.instances ⟨channel, h⟩
        (M.process (s.instances ⟨channel, h⟩) (s.input ⟨channel, h⟩)
          s.params).1
      output := Function.update s.output ⟨channel, h⟩
        (M.process (s.instances ⟨channel, h⟩) (s.input ⟨channel, h⟩)
          s.params).2
      worker := .processing request taken (channel + 1) }
  else { s with worker := .answering request taken }

def workerStep : Exchange channels frames V S :=
  match s.worker with
  | .polling =>
      { s with
        instances := s.freshened M s.boxGeneration
        workerGeneration := s.boxGeneration
        worker := .taking }
  | .taking =>
      if s.request = s.completed then { s with worker := .polling }
      else { s with worker := .checking s.request }
  | .checking request =>
      if s.boxFrames = 0 ∨ frames < s.boxFrames then
        { s with workerReady := false, worker := .failed }
      else { s with worker := .comparing request }
  | .comparing request =>
      { s with
        instances := s.freshened M s.requestGeneration
        workerGeneration := s.requestGeneration
        worker := .clamping request
          ⟨⟨s.input, s.params, s.requestGeneration, s.sent.call⟩,
            s.freshened M s.requestGeneration,
            s.generation == s.requestGeneration⟩ }
  | .clamping request taken =>
      { s with
        params := M.clamp s.params
        worker := .processing request taken 0 }
  | .processing request taken channel =>
      s.processChannel M request taken channel
  | .answering request taken =>
      { s with
        responseGeneration := s.requestGeneration
        worker := .publishing request taken }
  | .publishing request taken =>
      { s with
        completed := request
        response := request
        taken := s.taken ++ [taken]
        worker := .polling }
  | .failed => s

/-! ## Runs -/

/-- A call or a reset begins when the host has ended the one before. -/
def step (s : Exchange channels frames V S) :
    Event channels frames V → Exchange channels frames V S
  | .process ins params =>
      match s.host with
      | .idle => s.beginProcess ins params
      | _ => s
  | .reset =>
      match s.host with
      | .idle => { s with generation := s.generation + 1, host := .resetting }
      | _ => s
  | .host => s.hostStep
  | .worker => s.workerStep M

def run (s : Exchange channels frames V S)
    (events : List (Event channels frames V)) : Exchange channels frames V S :=
  events.foldl (step M) s

/-- A prepared host and a worker that has created its instances.  What is in
the arrays does not matter. -/
structure Prepared : Prop where
  ready : s.ready = true
  generation : s.generation = 1
  localGeneration : s.localGeneration = 1
  sequence : s.sequence = 0
  inFlight : s.inFlight = 0
  missed : s.missed = 0
  eligible : s.eligible = false
  dryValid : s.dryValid = false
  host : s.host = .idle
  workerReady : s.workerReady = true
  request : s.request = 0
  response : s.response = 0
  boxGeneration : s.boxGeneration = 1
  completed : s.completed = 0
  workerGeneration : s.workerGeneration = 1
  instances : ∀ c, s.instances c = M.create
  worker : s.worker = .polling
  requests : s.requests = 0
  calls : s.calls = []
  taken : s.taken = []

end Exchange

end

end Audiox.PluginExchange
