import Audiox.Config.Routing
import Mathlib

/-!
# Routes through the routing helper

The routes of the routing file become the edges of the audio graph.  Those
that enter or leave the routing helper are replaced by paths through it, so
that the audio thread does not see it.  The helper vanishes unless a route
that joins it to itself takes part in a path.
-/

namespace Audiox

open ByteCodec Config

def routingHelper : Bytes :=
  ascii "routing_helper"

/-! ## Expanding the helper -/

/-- The edges compiled so far, and how many did not fit. -/
structure CompiledEdges where
  compiled : List AudioGraphEdgeInfo
  skipped : UInt16
deriving DecidableEq

def CompiledEdges.append (c : CompiledEdges) (edge : AudioGraphEdgeInfo) :
    CompiledEdges :=
  if c.compiled.length < audioGraphMaxEdges then
    { c with compiled := c.compiled ++ [edge] }
  else { c with skipped := c.skipped + 1 }

/-- The edge of a path that enters and leaves the helper. -/
def throughHelper (incoming outgoing : AudioGraphEdgeInfo) :
    AudioGraphEdgeInfo where
  src := incoming.src
  dst := outgoing.dst
  srcChannel := incoming.srcChannel
  dstChannel := outgoing.dstChannel

def expandRoutingHelper (edges : List AudioGraphEdgeInfo) : CompiledEdges :=
  edges.foldl (fun c incoming =>
      if incoming.dst ≠ routingHelper then c
      else edges.foldl (fun c outgoing =>
        if outgoing.src ≠ routingHelper ∨
            incoming.dstChannel ≠ outgoing.srcChannel then c
        else c.append (throughHelper incoming outgoing)) c)
    (edges.foldl (fun c edge =>
      if edge.src ≠ routingHelper ∧ edge.dst ≠ routingHelper then
        c.append edge
      else c) ⟨[], 0⟩)

/-! ## Reloading the routes -/

/-- Spaces as the C locale knows them. -/
def trimSpace (s : Bytes) : Bytes :=
  (s.dropWhile Config.isSpace).rdropWhile Config.isSpace

inductive RouteParseError where
  | badFormat | missingEndpoint | invalidSource | invalidDestination
deriving DecidableEq

def RouteParseError.prefixText : RouteParseError → Bytes
  | .badFormat => ascii "bad route format"
  | .missingEndpoint => ascii "missing route endpoint"
  | .invalidSource => ascii "invalid source channel"
  | .invalidDestination => ascii "invalid destination channel"

/-- The status that names a route that could not be parsed. -/
def RouteParseError.text (error : RouteParseError) (route : Bytes) : Bytes :=
  copyBounded 160 (error.prefixText ++ ascii ": " ++ route)

/-- A channel number that fills its field. -/
def parseChannel (field : Bytes) : Option UInt8 :=
  let (channel, rest) := strtol field
  if rest ≠ [] ∨ channel < 0 ∨ channel > 255 then none
  else some (UInt8.ofNat channel.toNat)

def parseRouteString (route : Bytes) :
    Except RouteParseError AudioGraphEdgeInfo :=
  match (copyBounded 256 route).splitOn (chr ',') with
  -- a fourth comma ends the last field, and what follows is not read
  | src :: dst :: srcField :: dstField :: _ =>
      if trimSpace src = [] ∨ trimSpace dst = [] then .error .missingEndpoint
      else
        match parseChannel (trimSpace srcField) with
        | none => .error .invalidSource
        | some srcChannel =>
            match parseChannel (trimSpace dstField) with
            | none => .error .invalidDestination
            | some dstChannel =>
                .ok ⟨copyBounded 64 (trimSpace src),
                  copyBounded 64 (trimSpace dst), srcChannel, dstChannel⟩
  | _ => .error .badFormat

/-- What a reload finds: the routes of the file (`none` when it cannot be
read), the things of the graph, how an id is normalized with the devices at
hand, and which absent ids belong to Bluetooth devices. -/
structure RoutingSource where
  routes : Option (List Bytes)
  things : List AudioGraphThingInfo
  thingCount_le : things.length ≤ audioGraphMaxThings
  normalizeRouteThingId : Bytes → Bytes
  isBluetoothId : Bytes → Bool
  topologyUnchanged : Bool

/-- The graph that a reload builds. -/
structure NextGraph where
  edges : List AudioGraphEdgeInfo
  edgeCount_le : edges.length ≤ audioGraphMaxEdges
  skipped : Nat
  dormant : Nat
  status : Bytes

def NextGraph.skip (next : NextGraph) (status : Bytes) : NextGraph :=
  { next with skipped := next.skipped + 1, status := copyBounded 160 status }

def NextGraph.addEdge (next : NextGraph) (edge : AudioGraphEdgeInfo) :
    NextGraph :=
  if h : next.edges.length < audioGraphMaxEdges then
    { next with
      edges := next.edges ++ [edge]
      edgeCount_le := by
        rw [List.length_append, List.length_singleton]
        exact h }
  else next.skip (ascii "graph edge capacity reached")

namespace RoutingSource

def findThing (source : RoutingSource) (id : Bytes) :
    Option AudioGraphThingInfo :=
  source.things.find? fun thing => thing.id = id

def isDormantBluetoothId (source : RoutingSource) (id : Bytes) : Bool :=
  (source.findThing id).isNone && source.isBluetoothId id

def normalizeEdge (source : RoutingSource) (edge : AudioGraphEdgeInfo) :
    AudioGraphEdgeInfo :=
  { edge with
    src := copyBounded 64 (source.normalizeRouteThingId edge.src)
    dst := copyBounded 64 (source.normalizeRouteThingId edge.dst) }

/-- A status text about an edge with its channels. -/
def outOfRangeText (edge : AudioGraphEdgeInfo) : Bytes :=
  ascii "skipped out-of-range route " ++ edge.src ++ ascii "[" ++
    showDecimal edge.srcChannel.toNat ++ ascii "] -> " ++ edge.dst ++
    ascii "[" ++ showDecimal edge.dstChannel.toNat ++ ascii "]"

/-- Adds an edge whose ends are known, unless one of its channels is not. -/
def acceptEdge (source : RoutingSource) (next : NextGraph)
    (edge : AudioGraphEdgeInfo) : NextGraph :=
  let src := source.findThing edge.src
  let dst := source.findThing edge.dst
  match src.bind fun src => dst.map fun dst => (src, dst) with
  | none =>
      if (src.isSome || source.isDormantBluetoothId edge.src) &&
          (dst.isSome || source.isDormantBluetoothId edge.dst) then
        { next with dormant := next.dormant + 1 }
      else
        next.skip (ascii "skipped unavailable route " ++ edge.src ++
          ascii " -> " ++ edge.dst)
  | some (src, dst) =>
      if edge.srcChannel ≥ src.outputs ∨ edge.dstChannel ≥ dst.inputs then
        next.skip (outOfRangeText edge)
      else next.addEdge edge

def acceptRoute (source : RoutingSource) (next : NextGraph) (route : Bytes) :
    NextGraph :=
  if copyBounded 256 route = [] then next
  else
    match parseRouteString (copyBounded 256 route) with
    | .error error => next.skip (error.text (copyBounded 256 route))
    | .ok edge => source.acceptEdge next (source.normalizeEdge edge)

def acceptRoutes (source : RoutingSource) (routes : List Bytes) : NextGraph :=
  routes.foldl source.acceptRoute ⟨[], Nat.zero_le _, 0, 0, []⟩

end RoutingSource

/-- The edges of the routes that a reload accepts, and `none` when it rejects
the file. -/
def acceptedEdges (source : RoutingSource) : Option NextGraph :=
  source.routes.bind fun routes =>
    let next := source.acceptRoutes routes
    if routes ≠ [] ∧ next.edges = [] ∧ next.skipped > 0 ∧
        source.topologyUnchanged then none
    else some next

def helperStatus (edgeCount droppedPaths skipped : Nat) : Bytes :=
  copyBounded 160 (ascii "routing helper capacity: " ++
    showDecimal edgeCount ++ ascii " active paths, " ++
    showDecimal droppedPaths ++ ascii " skipped path(s); " ++
    showDecimal skipped ++ ascii " total skipped")

def graphStatus (thingCount edgeCount skipped : Nat) : Bytes :=
  copyBounded 160 (
    if skipped > 0 then
      ascii "graph loaded with " ++ showDecimal thingCount ++
        ascii " thing(s), " ++ showDecimal edgeCount ++
        ascii " active edge(s), " ++ showDecimal skipped ++
        ascii " skipped edge(s)"
    else
      ascii "graph loaded with " ++ showDecimal thingCount ++
        ascii " thing(s) and " ++ showDecimal edgeCount ++ ascii " edge(s)")

/-- A published graph: its edges, the skipped ones and the status, and
whether the reload returns a warning. -/
structure PublishedGraph where
  edges : List AudioGraphEdgeInfo
  skippedEdgeCount : UInt16
  status : Bytes
  warning : Bool

/-- Publishes the graph of the routing file.  Writing normalized routes back
to the file does not change the graph and is left out. -/
def reloadRoutingGraph (source : RoutingSource) : Option PublishedGraph :=
  (acceptedEdges source).map fun next =>
    let expanded := expandRoutingHelper next.edges
    let skipped := UInt16.ofNat (next.skipped + expanded.skipped.toNat)
    let status :=
      if expanded.skipped > 0 then
        helperStatus expanded.compiled.length expanded.skipped.toNat
          skipped.toNat
      else next.status
    ⟨expanded.compiled, skipped,
      if status = [] then
        graphStatus source.things.length expanded.compiled.length
          skipped.toNat
      else status,
      next.skipped + expanded.skipped.toNat > 0⟩

/-! ## What the expansion returns -/

def directEdges (edges : List AudioGraphEdgeInfo) : List AudioGraphEdgeInfo :=
  edges.filter fun edge => edge.src ≠ routingHelper ∧ edge.dst ≠ routingHelper

/-- The edges into the helper with the edges out of it that continue them. -/
def helperPaths (edges : List AudioGraphEdgeInfo) :
    List (AudioGraphEdgeInfo × AudioGraphEdgeInfo) :=
  (edges.filter fun incoming => incoming.dst = routingHelper).flatMap
    fun incoming =>
      (edges.filter fun outgoing => outgoing.src = routingHelper ∧
        incoming.dstChannel = outgoing.srcChannel).map fun outgoing =>
          (incoming, outgoing)

/-- The direct edges, and then the paths through the helper. -/
def expandedEdges (edges : List AudioGraphEdgeInfo) :
    List AudioGraphEdgeInfo :=
  directEdges edges ++
    (helperPaths edges).map fun path => throughHelper path.1 path.2

/-- The expansion is cut at the limit, and the rest is counted. -/
def ExpandsExactly (edges : List AudioGraphEdgeInfo) : Prop :=
  (expandRoutingHelper edges).compiled =
      (expandedEdges edges).take audioGraphMaxEdges ∧
    (expandRoutingHelper edges).skipped.toNat =
      (expandedEdges edges).length - audioGraphMaxEdges

def HelperFree (edges : List AudioGraphEdgeInfo) : Prop :=
  ∀ edge ∈ edges, edge.src ≠ routingHelper ∧ edge.dst ≠ routingHelper

section Expansion

variable {edges : List AudioGraphEdgeInfo}

theorem append_direct (items : List AudioGraphEdgeInfo) (c : CompiledEdges) :
    items.foldl (fun c edge =>
        if edge.src ≠ routingHelper ∧ edge.dst ≠ routingHelper then
          c.append edge
        else c) c =
      (directEdges items).foldl CompiledEdges.append c := by
  rw [directEdges, List.foldl_filter]
  simp only [decide_eq_true_eq]

theorem append_outgoing (incoming : AudioGraphEdgeInfo)
    (items : List AudioGraphEdgeInfo) (c : CompiledEdges) :
    items.foldl (fun c outgoing =>
        if outgoing.src ≠ routingHelper ∨
            incoming.dstChannel ≠ outgoing.srcChannel then c
        else c.append (throughHelper incoming outgoing)) c =
      ((items.filter fun outgoing => outgoing.src = routingHelper ∧
        incoming.dstChannel = outgoing.srcChannel).map
          (throughHelper incoming)).foldl CompiledEdges.append c := by
  rw [List.foldl_map, List.foldl_filter]
  congr 1
  funext c outgoing
  by_cases h : outgoing.src = routingHelper ∧
      incoming.dstChannel = outgoing.srcChannel
  · rw [if_neg (by tauto), if_pos (decide_eq_true h)]
  · rw [if_pos (by tauto), if_neg (by simpa using h)]

theorem append_incoming (items : List AudioGraphEdgeInfo)
    (c : CompiledEdges) :
    items.foldl (fun c incoming =>
        if incoming.dst ≠ routingHelper then c
        else edges.foldl (fun c outgoing =>
          if outgoing.src ≠ routingHelper ∨
              incoming.dstChannel ≠ outgoing.srcChannel then c
          else c.append (throughHelper incoming outgoing)) c) c =
      ((items.filter fun incoming => incoming.dst = routingHelper).flatMap
        fun incoming =>
          (edges.filter fun outgoing => outgoing.src = routingHelper ∧
            incoming.dstChannel = outgoing.srcChannel).map
              (throughHelper incoming)).foldl CompiledEdges.append c := by
  induction items generalizing c with
  | nil => rfl
  | cons incoming items ih =>
      rw [List.foldl_cons, ih]
      by_cases h : incoming.dst = routingHelper
      · rw [if_neg (not_not.mpr h), append_outgoing, List.filter_cons,
          if_pos (decide_eq_true h), List.flatMap_cons, List.foldl_append]
      · rw [if_pos h, List.filter_cons, if_neg (by simpa using h)]

/-- The loops append the direct edges and the paths. -/
theorem expandRoutingHelper_eq (edges : List AudioGraphEdgeInfo) :
    expandRoutingHelper edges =
      (expandedEdges edges).foldl CompiledEdges.append ⟨[], 0⟩ := by
  have hpaths : (helperPaths edges).map
      (fun path => throughHelper path.1 path.2) =
      (edges.filter fun incoming => incoming.dst = routingHelper).flatMap
        fun incoming =>
          (edges.filter fun outgoing => outgoing.src = routingHelper ∧
            incoming.dstChannel = outgoing.srcChannel).map
              (throughHelper incoming) := by
    rw [helperPaths, List.map_flatMap]
    simp only [List.map_map, Function.comp_def]
  rw [expandRoutingHelper, append_direct, append_incoming, expandedEdges,
    List.foldl_append, hpaths]

/-- Appending edges one after the other. -/
theorem foldl_append (more : List AudioGraphEdgeInfo) (c : CompiledEdges) :
    (more.foldl CompiledEdges.append c).compiled =
        c.compiled ++ more.take (audioGraphMaxEdges - c.compiled.length) ∧
      (more.foldl CompiledEdges.append c).skipped = c.skipped +
        UInt16.ofNat
          (more.length - (audioGraphMaxEdges - c.compiled.length)) := by
  induction more generalizing c with
  | nil => simp
  | cons edge more ih =>
      rw [List.foldl_cons, (ih _).1, (ih _).2, CompiledEdges.append]
      by_cases hroom : c.compiled.length < audioGraphMaxEdges
      · have hleft : audioGraphMaxEdges - c.compiled.length =
            audioGraphMaxEdges - (c.compiled.length + 1) + 1 := by omega
        simp only [if_pos hroom, List.length_append, List.append_assoc,
          List.singleton_append, List.length_cons]
        rw [hleft, List.take_succ_cons, Nat.add_sub_add_right]
        exact ⟨rfl, rfl⟩
      · have hfull : audioGraphMaxEdges - c.compiled.length = 0 := by omega
        simp only [if_neg hroom, hfull, List.take_zero, Nat.sub_zero,
          List.length_cons]
        refine ⟨trivial, ?_⟩
        rw [add_assoc, UInt16.ofNat_add, add_comm (UInt16.ofNat more.length)]
        rfl

theorem length_helperPaths_le (edges : List AudioGraphEdgeInfo) :
    (helperPaths edges).length ≤ edges.length * edges.length := by
  have hpaths : ∀ items : List AudioGraphEdgeInfo,
      ((items.flatMap fun incoming =>
        (edges.filter fun outgoing => outgoing.src = routingHelper ∧
          incoming.dstChannel = outgoing.srcChannel).map fun outgoing =>
            (incoming, outgoing)).length) ≤ items.length * edges.length := by
    intro items
    induction items with
    | nil => exact Nat.zero_le _
    | cons incoming items ih =>
        have hhead := edges.length_filter_le
          fun outgoing => decide (outgoing.src = routingHelper ∧
            incoming.dstChannel = outgoing.srcChannel)
        rw [List.flatMap_cons, List.length_append, List.length_map,
          List.length_cons, Nat.succ_mul]
        omega
  refine (hpaths _).trans (Nat.mul_le_mul_right _ ?_)
  exact List.length_filter_le _ _

theorem length_expandedEdges_lt (h : edges.length ≤ audioGraphMaxEdges) :
    (expandedEdges edges).length < 2 ^ 16 := by
  have hdirect : (directEdges edges).length ≤ edges.length :=
    List.length_filter_le _ _
  have hpaths := length_helperPaths_le edges
  have hsquare : edges.length * edges.length ≤
      audioGraphMaxEdges * audioGraphMaxEdges := Nat.mul_le_mul h h
  rw [expandedEdges, List.length_append, List.length_map]
  rw [audioGraphMaxEdges] at h hsquare
  omega

theorem expandsExactly (graph : AudioGraphState) :
    ExpandsExactly graph.edges := by
  have happend := foldl_append (expandedEdges graph.edges) ⟨[], 0⟩
  have hlt := length_expandedEdges_lt graph.edgeCount_le
  rw [ExpandsExactly, expandRoutingHelper_eq]
  constructor
  · rw [happend.1]
    rfl
  · rw [happend.2]
    simp only [List.length_nil, Nat.sub_zero, zero_add]
    exact UInt16.toNat_ofNat_of_lt' ((Nat.sub_le _ _).trans_lt hlt)

/-! ## When the helper vanishes -/

/-- No path that fits uses an edge from the helper to itself. -/
def NoLoopOnPaths (edges : List AudioGraphEdgeInfo) : Prop :=
  ∀ path ∈ (helperPaths edges).take
      (audioGraphMaxEdges - (directEdges edges).length),
    path.1.src ≠ routingHelper ∧ path.2.dst ≠ routingHelper

theorem take_expandedEdges (edges : List AudioGraphEdgeInfo) :
    (expandedEdges edges).take audioGraphMaxEdges =
      (directEdges edges).take audioGraphMaxEdges ++
        ((helperPaths edges).take
          (audioGraphMaxEdges - (directEdges edges).length)).map
            fun path => throughHelper path.1 path.2 := by
  rw [expandedEdges, List.take_append, List.map_take]

theorem helperFree_iff (edges : List AudioGraphEdgeInfo) :
    HelperFree ((expandedEdges edges).take audioGraphMaxEdges) ↔
      NoLoopOnPaths edges := by
  rw [take_expandedEdges]
  constructor
  · intro hfree path hpath
    exact hfree (throughHelper path.1 path.2)
      (List.mem_append_right _ (List.mem_map_of_mem hpath))
  · intro hpaths edge hedge
    rcases List.mem_append.mp hedge with hedge | hedge
    · have hdirect := List.mem_filter.mp (List.mem_of_mem_take hedge)
      exact of_decide_eq_true hdirect.2
    · obtain ⟨path, hpath, rfl⟩ := List.mem_map.mp hedge
      exact hpaths path hpath

/-- Without an edge from the helper to itself it vanishes. -/
theorem noLoopOnPaths_of_no_loop
    (h : ∀ edge ∈ edges, edge.src = routingHelper →
      edge.dst ≠ routingHelper) :
    NoLoopOnPaths edges := by
  intro path hpath
  obtain ⟨incoming, hin, hout⟩ :=
    List.mem_flatMap.mp (List.mem_of_mem_take hpath)
  obtain ⟨outgoing, hmem, rfl⟩ := List.mem_map.mp hout
  have hincoming := List.mem_filter.mp hin
  have houtgoing := List.mem_filter.mp hmem
  have hdst : incoming.dst = routingHelper := of_decide_eq_true hincoming.2
  have hsrc := (of_decide_eq_true houtgoing.2).1
  exact ⟨fun hloop => h incoming hincoming.1 hloop hdst,
    h outgoing houtgoing.1 hsrc⟩

end Expansion

/-- The expansion is exact, and the helper vanishes from a reloaded graph
exactly if no path that fits uses an edge from the helper to itself. -/
theorem reload_expands_iff (source : RoutingSource) (next : NextGraph)
    (h : acceptedEdges source = some next) :
    (∀ graph : AudioGraphState, ExpandsExactly graph.edges) ∧
      ∃ published, reloadRoutingGraph source = some published ∧
        published.edges =
          (expandedEdges next.edges).take audioGraphMaxEdges ∧
        (HelperFree published.edges ↔ NoLoopOnPaths next.edges) := by
  refine ⟨expandsExactly, ?_⟩
  rw [reloadRoutingGraph, h]
  have hexact := expandsExactly ⟨[], next.edges, Nat.zero_le _, next.edgeCount_le⟩
  refine ⟨_, rfl, hexact.1, ?_⟩
  rw [← helperFree_iff, ← hexact.1]

/-- Two devices and the helper, with routes between them. -/
def helperSource (routes : List String) : RoutingSource where
  routes := some (routes.map ascii)
  things := [⟨ascii "soundboard_out", 0, 2⟩, ⟨routingHelper, 2, 2⟩,
    ⟨ascii "usb_gadget_out", 2, 0⟩]
  thingCount_le := by decide
  normalizeRouteThingId id := id
  isBluetoothId _ := false
  topologyUnchanged := true

theorem reload_expands_iff_soundboard :
    ∃ next, acceptedEdges (helperSource
        ["soundboard_out,routing_helper,0,0",
          "routing_helper,usb_gadget_out,0,1"]) = some next ∧
      ∃ published, reloadRoutingGraph (helperSource
          ["soundboard_out,routing_helper,0,0",
            "routing_helper,usb_gadget_out,0,1"]) = some published ∧
        published.edges =
          (expandedEdges next.edges).take audioGraphMaxEdges ∧
        (HelperFree published.edges ↔ NoLoopOnPaths next.edges) := by
  have hsome : (acceptedEdges (helperSource
      ["soundboard_out,routing_helper,0,0",
        "routing_helper,usb_gadget_out,0,1"])).isSome = true := by
    decide
  obtain ⟨next, hnext⟩ := Option.isSome_iff_exists.mp hsome
  exact ⟨next, hnext, (reload_expands_iff _ next hnext).2⟩

/-- A route from the helper to itself keeps the helper in the graph. -/
theorem loop_keeps_helper :
    ¬∀ source published, reloadRoutingGraph source = some published →
      HelperFree published.edges := by
  intro hfree
  have hedges : (reloadRoutingGraph (helperSource
      ["soundboard_out,routing_helper,0,0",
        "routing_helper,routing_helper,0,0"])).map PublishedGraph.edges =
      some [⟨ascii "soundboard_out", routingHelper, 0, 0⟩,
        ⟨routingHelper, routingHelper, 0, 0⟩] := by
    decide
  obtain ⟨published, hpublished, heq⟩ := Option.map_eq_some_iff.mp hedges
  have hhelper := hfree _ published hpublished
    ⟨ascii "soundboard_out", routingHelper, 0, 0⟩ (by simp [heq])
  exact hhelper.2 rfl

end Audiox
