import Audiox.Audio.Block
import Audiox.Support.Saturation
import Mathlib

/-!
# The demand on idle channels

When the audio thread decides whether it may sleep, it looks only at output
channels that are demanded.  The demand starts at the inputs of the sinks and
is propagated against the routes until nothing changes.  It is exact: a
channel is demanded if and only if its signal can flow into a sink.
-/

namespace Audiox

open Relation Saturation

/-- The demanded channels of the nodes, one bit for each. -/
structure IdleDemand where
  demandedInputs : Nat → BitVec 16
  demandedOutputs : Nat → BitVec 16

namespace IdleDemand

def demandOutputs (demand : IdleDemand) (node : Nat) (mask : BitVec 16) :
    IdleDemand :=
  { demand with
    demandedOutputs := Function.update demand.demandedOutputs node
      (demand.demandedOutputs node ||| mask) }

def demandInputs (demand : IdleDemand) (node : Nat) (mask : BitVec 16) :
    IdleDemand :=
  { demand with
    demandedInputs := Function.update demand.demandedInputs node
      (demand.demandedInputs node ||| mask) }

end IdleDemand

def channelMask (channels : UInt8) : BitVec 16 :=
  BitVec.ofNat 16 (2 ^ min channels.toNat kMaxChannelsPerThing - 1)

section Model

variable {n : Nat} {R : Type} [Semiring R] [DecidableEq R]

namespace BlockContext

def inputMask (ctx : BlockContext n R) (node : Nat) : BitVec 16 :=
  match ctx.graph.things[node]? with
  | some thing => channelMask thing.inputs
  | none => 0

def inputChannels (ctx : BlockContext n R) (node : Nat) : Nat :=
  match ctx.graph.things[node]? with
  | some thing => min thing.inputs.toNat kMaxChannelsPerThing
  | none => 0

end BlockContext

/-- A route demands its source channel if its destination channel is
demanded. -/
def propagateDemand (ctx : BlockContext n R) (p : IdleDemand × Bool)
    (route : CompiledRoute) : IdleDemand × Bool :=
  if (p.1.demandedInputs route.dstNode).getLsbD route.dstChannel = true ∧
      ctx.nodeGain route.srcNode ≠ 0 then
    let demand :=
      p.1.demandOutputs route.srcNode (BitVec.twoPow 16 route.srcChannel)
    (demand, p.2 || p.1.demandedOutputs route.srcNode ≠
      demand.demandedOutputs route.srcNode)
  else p

/-- A node that does not block its input demands the inputs of its demanded
outputs. -/
def demandNodeInputs (ctx : BlockContext n R) (p : IdleDemand × Bool)
    (node : Nat) : IdleDemand × Bool :=
  if nodeBlocksInput ctx node then p
  else
    let demand := p.1.demandInputs node
      (p.1.demandedOutputs node &&& ctx.inputMask node)
    (demand, p.2 || p.1.demandedInputs node ≠ demand.demandedInputs node)

/-- One round of the fixed point, with its flag `changed`. -/
def sweepDemand (ctx : BlockContext n R) (p : IdleDemand × Bool) :
    IdleDemand × Bool :=
  (ctx.graph.processNodes ctx.effects).foldl (demandNodeInputs ctx)
    ((ctx.graph.processRoutes ctx.effects).foldl (propagateDemand ctx)
      ((ctx.graph.sourceRoutes ctx.effects).foldl (propagateDemand ctx) p))

def sinkDemand (ctx : BlockContext n R) : IdleDemand where
  demandedInputs node :=
    if node ∈ ctx.graph.sinkNodes ctx.effects then ctx.inputMask node else 0
  demandedOutputs _ := 0

def buildIdleDemand (ctx : BlockContext n R) (fuel : Nat) :
    Option IdleDemand :=
  saturate (sweepDemand ctx) fuel (sinkDemand ctx)

/-- Whether a demanded channel of a source is above the noise floor. -/
def idleSourcesActive (ctx : BlockContext n R) (demand : IdleDemand)
    (audible : Nat → Nat → Bool) : Bool :=
  (ctx.graph.sourceNodes ctx.effects).any fun node =>
    (List.range (ctx.outputChannels node)).any fun channel =>
      (demand.demandedOutputs node).getLsbD channel && audible node channel

/-- Whether an effect still has audio for a demanded channel. -/
def idleEffectsPending (ctx : BlockContext n R) (demand : IdleDemand)
    (slotHasPendingAudio : Nat → Nat → Bool) : Bool :=
  (ctx.graph.processNodes ctx.effects).any fun node =>
    ctx.nodeKind node = some .effect &&
      (List.range (ctx.outputChannels node)).any fun channel =>
        (demand.demandedOutputs node).getLsbD channel &&
          slotHasPendingAudio node channel

/-! ## The flow of a signal -/

/-- A channel of an input or of an output of a node. -/
inductive Port where
  | input (node channel : Nat)
  | output (node channel : Nat)
deriving DecidableEq

/-- A signal flows along the routes whose gain is not zero, and through the
process nodes that do not block it. -/
inductive Flows (ctx : BlockContext n R) : Port → Port → Prop where
  | route {route : CompiledRoute} :
      (route ∈ ctx.graph.sourceRoutes ctx.effects ∨
        route ∈ ctx.graph.processRoutes ctx.effects) →
      ctx.nodeGain route.srcNode ≠ 0 →
      Flows ctx (.output route.srcNode route.srcChannel)
        (.input route.dstNode route.dstChannel)
  | node {node channel : Nat} :
      node ∈ ctx.graph.processNodes ctx.effects →
      nodeBlocksInput ctx node = false →
      channel < ctx.inputChannels node →
      Flows ctx (.input node channel) (.output node channel)

/-- Some input of a sink is reachable from a port. -/
def ReachesSink (ctx : BlockContext n R) (port : Port) : Prop :=
  ∃ sink ∈ ctx.graph.sinkNodes ctx.effects,
    ∃ channel < ctx.inputChannels sink,
      ReflTransGen (Flows ctx) port (.input sink channel)

/-! ## Demanded ports -/

def IdleDemand.ports (demand : IdleDemand) : Set Port
  | .input node channel => (demand.demandedInputs node).getLsbD channel = true
  | .output node channel => (demand.demandedOutputs node).getLsbD channel = true

@[simp] theorem input_mem_ports {demand : IdleDemand} {node channel : Nat} :
    Port.input node channel ∈ demand.ports ↔
      (demand.demandedInputs node).getLsbD channel = true :=
  Iff.rfl

@[simp] theorem output_mem_ports {demand : IdleDemand} {node channel : Nat} :
    Port.output node channel ∈ demand.ports ↔
      (demand.demandedOutputs node).getLsbD channel = true :=
  Iff.rfl

omit [Semiring R] [DecidableEq R] in
theorem getLsbD_inputMask (ctx : BlockContext n R) (node channel : Nat) :
    (ctx.inputMask node).getLsbD channel = true ↔
      channel < ctx.inputChannels node := by
  rw [BlockContext.inputMask, BlockContext.inputChannels]
  cases ctx.graph.things[node]? with
  | none => simp
  | some thing =>
      have hle : min thing.inputs.toNat kMaxChannelsPerThing ≤ 16 :=
        min_le_right _ _
      simp only [channelMask, BitVec.getLsbD_ofNat,
        Nat.testBit_two_pow_sub_one, Bool.and_eq_true, decide_eq_true_eq]
      omega

theorem ports_eq_iff {demand demand' : IdleDemand} :
    demand.ports = demand'.ports ↔ demand = demand' := by
  constructor
  · intro h
    have hin : demand.demandedInputs = demand'.demandedInputs := by
      funext node
      refine BitVec.eq_of_getLsbD_eq fun channel _ => ?_
      exact Bool.eq_iff_iff.mpr (Set.ext_iff.mp h (.input node channel))
    have hout : demand.demandedOutputs = demand'.demandedOutputs := by
      funext node
      refine BitVec.eq_of_getLsbD_eq fun channel _ => ?_
      exact Bool.eq_iff_iff.mpr (Set.ext_iff.mp h (.output node channel))
    cases demand
    simp only at hin hout
    rw [hin, hout]
  · intro h
    rw [h]

/-- What a route lets conclude about the demand. -/
def RouteDemands (ctx : BlockContext n R) (route : CompiledRoute)
    (a b : Port) : Prop :=
  ctx.nodeGain route.srcNode ≠ 0 ∧
    a = .input route.dstNode route.dstChannel ∧
    b = .output route.srcNode route.srcChannel

/-- What a process node lets conclude about the demand. -/
def NodeDemands (ctx : BlockContext n R) (node : Nat) (a b : Port) : Prop :=
  nodeBlocksInput ctx node = false ∧
    ∃ channel < ctx.inputChannels node,
      a = .output node channel ∧ b = .input node channel

theorem ports_demandOutputs (demand : IdleDemand) (node : Nat)
    (mask : BitVec 16) :
    (demand.demandOutputs node mask).ports = demand.ports ∪
      {port | ∃ channel, mask.getLsbD channel = true ∧
        port = .output node channel} := by
  ext port
  cases port with
  | input other channel => simp [IdleDemand.demandOutputs]
  | output other channel =>
      by_cases heq : other = node
      · subst heq
        simp [IdleDemand.demandOutputs]
      · simp [IdleDemand.demandOutputs, heq]

theorem ports_demandInputs (demand : IdleDemand) (node : Nat)
    (mask : BitVec 16) :
    (demand.demandInputs node mask).ports = demand.ports ∪
      {port | ∃ channel, mask.getLsbD channel = true ∧
        port = .input node channel} := by
  ext port
  cases port with
  | output other channel => simp [IdleDemand.demandInputs]
  | input other channel =>
      by_cases heq : other = node
      · subst heq
        simp [IdleDemand.demandInputs]
      · simp [IdleDemand.demandInputs, heq]

theorem demandOutputs_eq_iff (demand : IdleDemand) (node : Nat)
    (mask : BitVec 16) :
    (demand.demandOutputs node mask).ports = demand.ports ↔
      demand.demandedOutputs node =
        (demand.demandOutputs node mask).demandedOutputs node := by
  rw [ports_eq_iff]
  constructor
  · intro h
    rw [h]
  · intro h
    simp only [IdleDemand.demandOutputs, Function.update_self] at h
    rw [IdleDemand.demandOutputs, ← h, Function.update_eq_self]

theorem demandInputs_eq_iff (demand : IdleDemand) (node : Nat)
    (mask : BitVec 16) :
    (demand.demandInputs node mask).ports = demand.ports ↔
      demand.demandedInputs node =
        (demand.demandInputs node mask).demandedInputs node := by
  rw [ports_eq_iff]
  constructor
  · intro h
    rw [h]
  · intro h
    simp only [IdleDemand.demandInputs, Function.update_self] at h
    rw [IdleDemand.demandInputs, ← h, Function.update_eq_self]

theorem sweeps_propagateDemand (ctx : BlockContext n R)
    {route : CompiledRoute} (hchannel : route.srcChannel < 16) :
    Sweeps IdleDemand.ports (RouteDemands ctx route)
      (fun p => propagateDemand ctx p route) := by
  apply Sweeps.of_step
  · intro p
    by_cases h : (p.1.demandedInputs route.dstNode).getLsbD
        route.dstChannel = true ∧ ctx.nodeGain route.srcNode ≠ 0
    · rw [propagateDemand, if_pos h, ports_demandOutputs]
      congr 1
      ext port
      constructor
      · rintro ⟨channel, hbit, rfl⟩
        rw [BitVec.getLsbD_twoPow] at hbit
        simp only [Bool.and_eq_true, decide_eq_true_eq] at hbit
        rw [← hbit.2]
        exact ⟨_, h.1, h.2, rfl, rfl⟩
      · rintro ⟨_, _, _, _, rfl⟩
        exact ⟨route.srcChannel, by simp [hchannel], rfl⟩
    · rw [propagateDemand, if_neg h]
      symm
      rw [Set.union_eq_left]
      rintro _ ⟨_, hdemanded, hgain, rfl, rfl⟩
      exact absurd ⟨hdemanded, hgain⟩ h
  · intro p
    rw [propagateDemand]
    split
    · rw [ne_eq, demandOutputs_eq_iff]
      simp
    · simp

theorem sweeps_demandNodeInputs (ctx : BlockContext n R) (node : Nat) :
    Sweeps IdleDemand.ports (NodeDemands ctx node)
      (fun p => demandNodeInputs ctx p node) := by
  apply Sweeps.of_step
  · intro p
    by_cases h : nodeBlocksInput ctx node = true
    · rw [demandNodeInputs, if_pos h]
      symm
      rw [Set.union_eq_left]
      rintro _ ⟨_, _, hpasses, _⟩
      exact absurd h (Bool.eq_false_iff.mp hpasses)
    · rw [demandNodeInputs, if_neg h, ports_demandInputs]
      congr 1
      ext port
      simp only [BitVec.getLsbD_and, Bool.and_eq_true, getLsbD_inputMask]
      constructor
      · rintro ⟨channel, ⟨hdemanded, hlt⟩, rfl⟩
        exact ⟨.output node channel, hdemanded, Bool.eq_false_iff.mpr h,
          channel, hlt, rfl, rfl⟩
      · rintro ⟨_, hdemanded, _, channel, hlt, rfl, rfl⟩
        exact ⟨channel, ⟨hdemanded, hlt⟩, rfl⟩
  · intro p
    rw [demandNodeInputs]
    split
    · simp
    · rw [ne_eq, demandInputs_eq_iff]
      simp

/-! ## The compiled routes -/

section Compiled

variable {ctx : BlockContext n R}

theorem compileRoute_bounds {g : AudioGraphState} {edge : AudioGraphEdgeInfo}
    {route : CompiledRoute} (h : compileRoute g edge = some route) :
    route.srcNode < g.things.length ∧ route.srcChannel < 16 := by
  simp only [compileRoute, Option.bind_eq_bind,
    Option.bind_eq_some_iff] at h
  obtain ⟨src, _, dst, _, srcThing, hthing, dstThing, _, h⟩ := h
  split at h
  · cases h
  · split at h
    · cases h
    · rename_i hlimits
      rw [not_or, not_le, not_le] at hlimits
      obtain rfl := Option.some.inj h
      exact ⟨(List.getElem?_eq_some_iff.mp hthing).1, hlimits.1⟩

omit [Semiring R] [DecidableEq R] in
theorem route_bounds {route : CompiledRoute}
    (h : route ∈ ctx.graph.sourceRoutes ctx.effects ∨
      route ∈ ctx.graph.processRoutes ctx.effects) :
    route.srcNode < ctx.graph.things.length ∧ route.srcChannel < 16 := by
  have hcompiled : route ∈
      ctx.graph.edges.filterMap (compileRoute ctx.graph) := by
    rcases h with h | h
    · exact List.mem_of_mem_filter (List.mem_of_mem_take h)
    · exact List.mem_of_mem_filter (List.mem_of_mem_take h)
  obtain ⟨edge, _, hedge⟩ := List.mem_filterMap.mp hcompiled
  exact compileRoute_bounds hedge

theorem sweeps_sweepDemand (ctx : BlockContext n R) :
    Sweeps IdleDemand.ports (fun a b => Flows ctx b a) (sweepDemand ctx) := by
  have hsource := Sweeps.foldl (ctx.graph.sourceRoutes ctx.effects)
    fun route hroute =>
      sweeps_propagateDemand ctx (route_bounds (.inl hroute)).2
  have hprocess := Sweeps.foldl (ctx.graph.processRoutes ctx.effects)
    fun route hroute =>
      sweeps_propagateDemand ctx (route_bounds (.inr hroute)).2
  have hnodes := Sweeps.foldl (ctx.graph.processNodes ctx.effects)
    fun node _ => sweeps_demandNodeInputs ctx node
  refine ((hsource.comp hprocess).comp hnodes).congr fun a b => ?_
  constructor
  · rintro ((⟨route, hroute, hgain, rfl, rfl⟩ |
      ⟨route, hroute, hgain, rfl, rfl⟩) |
      ⟨node, hnode, hpasses, channel, hlt, rfl, rfl⟩)
    · exact .route (.inl hroute) hgain
    · exact .route (.inr hroute) hgain
    · exact .node hnode hpasses hlt
  · intro hflows
    cases hflows with
    | route hroute hgain =>
        left
        rcases hroute with hroute | hroute
        · exact .inl ⟨_, hroute, hgain, rfl, rfl⟩
        · exact .inr ⟨_, hroute, hgain, rfl, rfl⟩
    | node hnode hpasses hlt =>
        exact .inr ⟨_, hnode, hpasses, _, hlt, rfl, rfl⟩

omit [Semiring R] [DecidableEq R] in
theorem ports_sinkDemand (ctx : BlockContext n R) :
    (sinkDemand ctx).ports =
      {port | ∃ sink ∈ ctx.graph.sinkNodes ctx.effects,
        ∃ channel < ctx.inputChannels sink, port = .input sink channel} := by
  ext port
  cases port with
  | output node channel => simp [sinkDemand]
  | input node channel =>
      by_cases hsink : node ∈ ctx.graph.sinkNodes ctx.effects
      · simp [sinkDemand, hsink, getLsbD_inputMask]
      · simp [sinkDemand, hsink]

/-- A port follows from the demand of the sinks when its signal flows into
one of them. -/
theorem mem_follows_iff (port : Port) :
    port ∈ Follows (fun a b => Flows ctx b a) (sinkDemand ctx).ports ↔
      ReachesSink ctx port := by
  rw [ports_sinkDemand]
  constructor
  · rintro ⟨_, ⟨sink, hsink, channel, hlt, rfl⟩, hpath⟩
    exact ⟨sink, hsink, channel, hlt, reflTransGen_swap.mp hpath⟩
  · rintro ⟨sink, hsink, channel, hlt, hpath⟩
    exact ⟨_, ⟨sink, hsink, channel, hlt, rfl⟩, reflTransGen_swap.mpr hpath⟩

/-- The ports of the nodes of a graph. -/
def allPorts (ctx : BlockContext n R) : Finset Port :=
  (Finset.range ctx.graph.things.length ×ˢ Finset.range 16).image
      (fun p => Port.input p.1 p.2) ∪
    (Finset.range ctx.graph.things.length ×ˢ Finset.range 16).image
      (fun p => Port.output p.1 p.2)

omit [Semiring R] [DecidableEq R] in
theorem card_allPorts_le (ctx : BlockContext n R) :
    (allPorts ctx).card ≤ 2 * (audioGraphMaxThings * kMaxChannelsPerThing) := by
  have hports : (Finset.range ctx.graph.things.length ×ˢ
      Finset.range 16).card ≤ audioGraphMaxThings * kMaxChannelsPerThing := by
    rw [Finset.card_product, Finset.card_range, Finset.card_range]
    exact Nat.mul_le_mul_right _ ctx.graph.thingCount_le
  rw [two_mul]
  refine (Finset.card_union_le _ _).trans (Nat.add_le_add ?_ ?_)
  · exact Finset.card_image_le.trans hports
  · exact Finset.card_image_le.trans hports

omit [Semiring R] [DecidableEq R] in
theorem inputPort_mem_allPorts {node channel : Nat}
    (h : channel < ctx.inputChannels node) :
    Port.input node channel ∈ allPorts ctx := by
  rw [BlockContext.inputChannels] at h
  cases hthing : ctx.graph.things[node]? with
  | none =>
      rw [hthing] at h
      exact absurd h (Nat.not_lt_zero _)
  | some thing =>
      rw [hthing] at h
      have hnode : node < ctx.graph.things.length :=
        (List.getElem?_eq_some_iff.mp hthing).1
      have hchannel : channel < 16 := h.trans_le (min_le_right _ _)
      simp [allPorts, hnode, hchannel]

theorem flows_mem_allPorts {a b : Port} (h : Flows ctx a b) :
    a ∈ allPorts ctx := by
  cases h with
  | route hroute _ =>
      have hbounds := route_bounds hroute
      simp [allPorts, hbounds.1, hbounds.2]
  | node _ _ hlt => exact inputPort_mem_allPorts hlt

/-- The fixed point is reached, with the ports from which a signal can flow
into a sink. -/
theorem buildIdleDemand_ports (ctx : BlockContext n R) :
    ∃ demand,
      (∀ fuel > 2 * (audioGraphMaxThings * kMaxChannelsPerThing),
        buildIdleDemand ctx fuel = some demand) ∧
      ∀ port, port ∈ demand.ports ↔ ReachesSink ctx port := by
  have hsinks : (sinkDemand ctx).ports ⊆ allPorts ctx := by
    rw [ports_sinkDemand]
    rintro _ ⟨sink, _, channel, hlt, rfl⟩
    exact inputPort_mem_allPorts hlt
  obtain ⟨demand, hruns, hports⟩ := saturate_eq_follows
    (sweeps_sweepDemand ctx) (allPorts ctx)
    (fun _ _ _ hflows => flows_mem_allPorts hflows) (sinkDemand ctx) hsinks
  refine ⟨demand, ?_, ?_⟩
  · intro fuel hfuel
    exact hruns fuel ((card_allPorts_le ctx).trans_lt hfuel)
  · intro port
    rw [hports, mem_follows_iff]

end Compiled

/-- The fixed point is reached, and a channel is demanded exactly if its
signal can flow into a sink. -/
theorem idleDemand_exact (ctx : BlockContext n R) :
    ∃ demand,
      (∀ fuel > 2 * (audioGraphMaxThings * kMaxChannelsPerThing),
        buildIdleDemand ctx fuel = some demand) ∧
      (∀ node channel,
        (demand.demandedOutputs node).getLsbD channel = true ↔
          ReachesSink ctx (.output node channel)) ∧
      (∀ audible, idleSourcesActive ctx demand audible = true ↔
        ∃ node ∈ ctx.graph.sourceNodes ctx.effects,
          ∃ channel < ctx.outputChannels node,
            audible node channel = true ∧
              ReachesSink ctx (.output node channel)) ∧
      ∀ pending, idleEffectsPending ctx demand pending = true ↔
        ∃ node ∈ ctx.graph.processNodes ctx.effects,
          ctx.nodeKind node = some .effect ∧
            ∃ channel < ctx.outputChannels node,
              pending node channel = true ∧
                ReachesSink ctx (.output node channel) := by
  obtain ⟨demand, hruns, hports⟩ := buildIdleDemand_ports ctx
  have houtputs : ∀ node channel,
      (demand.demandedOutputs node).getLsbD channel = true ↔
        ReachesSink ctx (.output node channel) :=
    fun node channel => hports (.output node channel)
  refine ⟨demand, hruns, houtputs, ?_, ?_⟩
  · intro audible
    simp only [idleSourcesActive, List.any_eq_true, List.mem_range,
      Bool.and_eq_true, houtputs]
    simp only [and_comm]
  · intro pending
    simp only [idleEffectsPending, List.any_eq_true, List.mem_range,
      Bool.and_eq_true, decide_eq_true_eq, houtputs]
    simp only [and_comm]

end Model

end Audiox
