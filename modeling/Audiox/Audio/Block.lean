import Audiox.Audio.Order

/-!
# One block of audio

The mixing part of a block: buffers are cleared, sources are rendered, and the
routes are taken while the process nodes are processed in order.  Inputs and
outputs of the nodes are pointers to buffers, and a pointer is passed on
instead of a copy where that is possible.

Samples and gains are elements of a semiring with decidable equality, so the
arithmetic is exact.
-/

namespace Audiox

open ByteCodec FlowOrder

/-- The samples of one channel of a block. -/
abbrev Block (n : Nat) (R : Type) : Type :=
  Fin n → R

/-- The effect types that the mixing tells apart. -/
inductive EffectType where
  | gain | cut | plugin | builtin
deriving DecidableEq

/-- The parameters of an effect: `value` is the first of its values, and a
plugin host processes all channels of its node at once. -/
structure SlotParams (n : Nat) (R : Type) where
  type : EffectType
  enabled : Bool
  value : R
  pluginHost : Option (List (Block n R) → Nat → Block n R)

/-- What a block reads of the audio context and of the state of the
effects. -/
structure BlockContext (n : Nat) (R : Type) where
  graph : AudioGraphState
  effects : EffectTable
  nodeGain : Nat → R
  params : Nat → SlotParams n R
  rendered : Nat → Nat → Block n R
  slotNeedsSilentProcessing : Nat → Nat → Bool
  processSlot : Nat → Nat → Block n R → Block n R

/-- The buffers to which the pointers of a runtime graph can point. -/
inductive Buffer where
  | silence
  | inputStorage (node channel : Nat)
  | outputStorage (node channel : Nat)
deriving DecidableEq

/-- The part of the runtime graph that changes during a block.  `processed`
lists the channels for which an effect was run. -/
structure RuntimeGraph (n : Nat) (R : Type) where
  memory : Buffer → Block n R
  inputs : Nat → Nat → Buffer
  outputs : Nat → Nat → Buffer
  inputContributionCount : Nat → Nat → Nat
  silentEffectChannels : Nat → Nat → Bool
  processedEffectType : Nat → EffectType
  processedEffectEnabled : Nat → Bool
  processed : List (Nat × Nat)

/-- Changes the entry of one channel of one node. -/
def updateChannel {α : Type} (f : Nat → Nat → α) (node channel : Nat) (a : α) :
    Nat → Nat → α :=
  Function.update f node (Function.update (f node) channel a)

section Model

variable {n : Nat} {R : Type} [Semiring R] [DecidableEq R]

namespace BlockContext

def nodeKind (ctx : BlockContext n R) (node : Nat) : Option NodeKind :=
  ctx.graph.nodeKind ctx.effects node

/-- The channels that a node passes on. -/
def channels (ctx : BlockContext n R) (node : Nat) : Nat :=
  match ctx.graph.things[node]? with
  | some thing =>
      min (min thing.inputs.toNat kMaxChannelsPerThing)
        (min thing.outputs.toNat kMaxChannelsPerThing)
  | none => 0

def outputChannels (ctx : BlockContext n R) (node : Nat) : Nat :=
  match ctx.graph.things[node]? with
  | some thing => min thing.outputs.toNat kMaxChannelsPerThing
  | none => 0

end BlockContext

def nodeBlocksInput (ctx : BlockContext n R) (node : Nat) : Bool :=
  ctx.nodeKind node = some .effect && (ctx.params node).enabled &&
    ((ctx.params node).type = .cut ||
      ((ctx.params node).type = .gain && (ctx.params node).value = 0))

/-- Every input is silent, and every output that is not a source's. -/
def clearRuntimeBuffers (ctx : BlockContext n R) (rt : RuntimeGraph n R) :
    RuntimeGraph n R :=
  { rt with
    inputs := fun _ _ => .silence
    outputs := fun node channel =>
      if ctx.nodeKind node = some .source then .outputStorage node channel
      else .silence
    inputContributionCount := fun _ _ => 0
    memory := fun buffer =>
      match buffer with
      | .outputStorage node _ =>
          if ctx.nodeKind node = some .source then fun _ => 0
          else rt.memory buffer
      | _ => rt.memory buffer }

/-- A source renders its channels into its output storage. -/
def renderSourceNode (ctx : BlockContext n R) (rt : RuntimeGraph n R)
    (node : Nat) : RuntimeGraph n R :=
  { rt with
    memory := fun buffer =>
      match buffer with
      | .outputStorage m channel =>
          if m = node ∧ channel < ctx.outputChannels node then
            ctx.rendered node channel
          else rt.memory buffer
      | _ => rt.memory buffer }

def routeCompiledEdge (ctx : BlockContext n R) (rt : RuntimeGraph n R)
    (route : CompiledRoute) : RuntimeGraph n R :=
  let gain := ctx.nodeGain route.srcNode
  let src := rt.outputs route.srcNode route.srcChannel
  if gain = 0 ∨ src = .silence ∨ nodeBlocksInput ctx route.dstNode then rt
  else
    let dstStorage := Buffer.inputStorage route.dstNode route.dstChannel
    let dst := rt.inputs route.dstNode route.dstChannel
    let count := rt.inputContributionCount route.dstNode route.dstChannel
    if count = 0 then
      if gain = 1 then
        { rt with
          inputs := updateChannel rt.inputs route.dstNode route.dstChannel src
          inputContributionCount := updateChannel rt.inputContributionCount
            route.dstNode route.dstChannel 1 }
      else
        { rt with
          memory := Function.update rt.memory dstStorage fun frame =>
            rt.memory src frame * gain
          inputs := updateChannel rt.inputs route.dstNode route.dstChannel
            dstStorage
          inputContributionCount := updateChannel rt.inputContributionCount
            route.dstNode route.dstChannel 1 }
    else
      let copied :=
        if dst ≠ dstStorage then
          Function.update rt.memory dstStorage (rt.memory dst)
        else rt.memory
      { rt with
        memory := Function.update copied dstStorage fun frame =>
          if gain = 1 then copied dstStorage frame + copied src frame
          else copied dstStorage frame + copied src frame * gain
        inputs := updateChannel rt.inputs route.dstNode route.dstChannel
          dstStorage
        inputContributionCount := updateChannel rt.inputContributionCount
          route.dstNode route.dstChannel (if count < 255 then count + 1 else count) }

def channelIsSilent (rt : RuntimeGraph n R) (node channel : Nat) : Bool :=
  rt.inputs node channel = .silence ||
    decide (∀ frame, rt.memory (rt.inputs node channel) frame = 0)

/-- Points the outputs of a node from one channel to another to buffers. -/
def setOutputs (rt : RuntimeGraph n R) (node first last : Nat)
    (buffers : Nat → Buffer) : RuntimeGraph n R :=
  { rt with
    outputs := Function.update rt.outputs node fun channel =>
      if first ≤ channel ∧ channel < last then buffers channel
      else rt.outputs node channel }

/-- An effect runs on one channel, unless the channel is silent and nothing is
left to come out of the effect. -/
def processEffectChannel (ctx : BlockContext n R) (node : Nat)
    (rt : RuntimeGraph n R) (channel : Nat) : RuntimeGraph n R :=
  if channelIsSilent rt node channel &&
      (rt.silentEffectChannels node channel ||
        !ctx.slotNeedsSilentProcessing node channel) then
    { rt with
      outputs := updateChannel rt.outputs node channel .silence
      silentEffectChannels :=
        updateChannel rt.silentEffectChannels node channel true }
  else
    { rt with
      silentEffectChannels :=
        updateChannel rt.silentEffectChannels node channel false
      outputs := updateChannel rt.outputs node channel
        (.outputStorage node channel)
      memory := Function.update rt.memory (.outputStorage node channel)
        (ctx.processSlot node channel (rt.memory (rt.inputs node channel)))
      processed := rt.processed ++ [(node, channel)] }

/-- The host of a plugin runs on all channels of a node. -/
def processPlugin (ctx : BlockContext n R) (rt : RuntimeGraph n R) (node : Nat)
    (host : List (Block n R) → Nat → Block n R) : RuntimeGraph n R :=
  let channels := ctx.channels node
  let ins := (List.range channels).map fun channel =>
    rt.memory (rt.inputs node channel)
  let rt := setOutputs rt node 0 channels (Buffer.outputStorage node)
  { rt with
    memory := fun buffer =>
      match buffer with
      | .outputStorage m channel =>
          if m = node ∧ channel < channels then host ins channel
          else rt.memory buffer
      | _ => rt.memory buffer
    processed := rt.processed ++ (List.range channels).map (node, ·) }

/-- What happens when the type of an effect, or whether it is enabled, has
changed since the last block. -/
def noteControls (ctx : BlockContext n R) (rt : RuntimeGraph n R)
    (node : Nat) : RuntimeGraph n R :=
  let params := ctx.params node
  if rt.processedEffectType node ≠ params.type ∨
      rt.processedEffectEnabled node ≠ params.enabled then
    { rt with
      silentEffectChannels :=
        Function.update rt.silentEffectChannels node fun _ => false
      processedEffectType :=
        Function.update rt.processedEffectType node params.type
      processedEffectEnabled :=
        Function.update rt.processedEffectEnabled node params.enabled }
  else rt

def processEffectNode (ctx : BlockContext n R) (rt : RuntimeGraph n R)
    (node : Nat) : RuntimeGraph n R :=
  let params := ctx.params node
  let channels := ctx.channels node
  let outputChannels := ctx.outputChannels node
  let rt := noteControls ctx rt node
  if nodeBlocksInput ctx node then
    setOutputs rt node 0 outputChannels fun _ => .silence
  else if !params.enabled then
    let rt := setOutputs rt node 0 channels (rt.inputs node)
    setOutputs rt node channels outputChannels fun _ => .silence
  else if params.type = .plugin then
    match params.pluginHost with
    | some host => processPlugin ctx rt node host
    | none => setOutputs rt node 0 channels (rt.inputs node)
  else
    let rt := (List.range channels).foldl (processEffectChannel ctx node) rt
    setOutputs rt node channels outputChannels fun _ => .silence

def processNode (ctx : BlockContext n R) (rt : RuntimeGraph n R) (node : Nat) :
    RuntimeGraph n R :=
  let channels := ctx.channels node
  let outputChannels := ctx.outputChannels node
  if channels = 0 ∨ outputChannels = 0 then rt
  else if ctx.nodeKind node = some .effect then processEffectNode ctx rt node
  else
    let rt := setOutputs rt node 0 channels (rt.inputs node)
    setOutputs rt node channels outputChannels fun _ => .silence

/-- The compiled routes and the index by which a block finds those of a
node. -/
def BlockContext.routeIndex (ctx : BlockContext n R) : ProcessRouteIndex :=
  buildProcessRouteIndex ctx.graph.things.length
    (ctx.graph.processRoutes ctx.effects)

/-- Processes a node and takes its routes. -/
def processAndRoute (ctx : BlockContext n R) (rt : RuntimeGraph n R)
    (node : Nat) : RuntimeGraph n R :=
  (ctx.routeIndex.routesOf node).foldl (routeCompiledEdge ctx)
    (processNode ctx rt node)

/-- The mixing of a block, from the buffers that the last one has left. -/
def processGraphBlock (ctx : BlockContext n R) (rt : RuntimeGraph n R) :
    RuntimeGraph n R :=
  let rt := clearRuntimeBuffers ctx rt
  let rt := (ctx.graph.sourceNodes ctx.effects).foldl (renderSourceNode ctx) rt
  let rt := (ctx.graph.sourceRoutes ctx.effects).foldl
    (routeCompiledEdge ctx) rt
  (ctx.graph.processNodes ctx.effects).foldl (processAndRoute ctx) rt

end Model
end Audiox
