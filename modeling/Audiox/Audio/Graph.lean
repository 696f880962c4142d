import Audiox.Support.ByteCodec
import Audiox.Support.FlowOrder

/-!
# The compiled audio graph

The audio thread compiles a routing graph: it classifies the nodes, resolves
the edges to routes between node indices, sorts the process nodes and groups
the process routes by their source.
-/

namespace Audiox

open ByteCodec

def audioGraphMaxThings : Nat := 64
def audioGraphMaxEdges : Nat := 128
def kMaxChannelsPerThing : Nat := 16

structure AudioGraphThingInfo where
  id : Bytes
  inputs : UInt8
  outputs : UInt8
deriving DecidableEq

structure AudioGraphEdgeInfo where
  src : Bytes
  dst : Bytes
  srcChannel : UInt8
  dstChannel : UInt8
deriving DecidableEq

/-- A routing graph fits its arrays. -/
structure AudioGraphState where
  things : List AudioGraphThingInfo
  edges : List AudioGraphEdgeInfo
  thingCount_le : things.length ≤ audioGraphMaxThings
  edgeCount_le : edges.length ≤ audioGraphMaxEdges

/-- The table of the context knows some nodes as effects. -/
abbrev EffectTable : Type :=
  Bytes → Bool

inductive NodeKind where
  | source | effect | pass | sink
deriving DecidableEq

structure CompiledRoute where
  srcNode : Nat
  dstNode : Nat
  srcChannel : Nat
  dstChannel : Nat
deriving DecidableEq

/-! ## Nodes -/

def thingIdEndsWith (thing : AudioGraphThingInfo) (suffix : String) : Bool :=
  (ascii suffix).isSuffixOf thing.id

def classifyNode (effects : EffectTable) (thing : AudioGraphThingInfo) :
    NodeKind :=
  if thing.outputs = 0 then .sink
  else if effects thing.id then .effect
  else if thing.inputs = 0 ∨ thing.id = ascii "soundboard_out" ∨
      thing.id = ascii "usb_gadget_in" ∨ thingIdEndsWith thing "_in" then
    .source
  else .pass

/-- The kind of a node of the graph. -/
def AudioGraphState.nodeKind (g : AudioGraphState) (effects : EffectTable)
    (node : Nat) : Option NodeKind :=
  g.things[node]?.map (classifyNode effects)

/-- The nodes that satisfy a condition, in the order of the things. -/
def AudioGraphState.nodesWhere (g : AudioGraphState)
    (p : AudioGraphThingInfo → Bool) : List Nat :=
  ((List.range g.things.length).filter fun node =>
    g.things[node]?.any p).take audioGraphMaxThings

def isProcessKind (kind : NodeKind) : Bool :=
  kind = .effect || kind = .pass

def AudioGraphState.sourceNodes (g : AudioGraphState) (effects : EffectTable) :
    List Nat :=
  g.nodesWhere fun thing => classifyNode effects thing = .source

/-- The nodes to process, before they are sorted. -/
def AudioGraphState.listedProcessNodes (g : AudioGraphState)
    (effects : EffectTable) : List Nat :=
  g.nodesWhere fun thing =>
    isProcessKind (classifyNode effects thing) &&
      thing.id ≠ ascii "routing_helper"

def AudioGraphState.sinkNodes (g : AudioGraphState) (effects : EffectTable) :
    List Nat :=
  g.nodesWhere fun thing => classifyNode effects thing = .sink

/-! ## Routes -/

def findThingIndex (g : AudioGraphState) (id : Bytes) : Option Nat :=
  if id = [] then none else g.things.findIdx? fun thing => thing.id = id

def compileRoute (g : AudioGraphState) (edge : AudioGraphEdgeInfo) :
    Option CompiledRoute := do
  let srcIndex ← findThingIndex g edge.src
  let dstIndex ← findThingIndex g edge.dst
  let srcThing ← g.things[srcIndex]?
  let dstThing ← g.things[dstIndex]?
  if edge.srcChannel ≥ srcThing.outputs ∨ edge.dstChannel ≥ dstThing.inputs then
    none
  else if edge.srcChannel.toNat ≥ kMaxChannelsPerThing ∨
      edge.dstChannel.toNat ≥ kMaxChannelsPerThing then
    none
  else
    some ⟨srcIndex, dstIndex, edge.srcChannel.toNat, edge.dstChannel.toNat⟩

def AudioGraphState.routesFrom (g : AudioGraphState) (effects : EffectTable)
    (p : NodeKind → Bool) : List CompiledRoute :=
  ((g.edges.filterMap (compileRoute g)).filter fun route =>
    (g.nodeKind effects route.srcNode).any p).take audioGraphMaxEdges

def AudioGraphState.sourceRoutes (g : AudioGraphState) (effects : EffectTable) :
    List CompiledRoute :=
  g.routesFrom effects fun kind => kind = .source

def AudioGraphState.processRoutes (g : AudioGraphState)
    (effects : EffectTable) : List CompiledRoute :=
  g.routesFrom effects isProcessKind

/-! ## The order of the process nodes -/

/-- How many routes between process nodes end in a node. -/
def inDegrees (nodes : List Nat) (routes : List CompiledRoute) : Nat → Nat :=
  routes.foldl (fun degrees route =>
    if route.srcNode ∈ nodes ∧ route.dstNode ∈ nodes then
      Function.update degrees route.dstNode (degrees route.dstNode + 1)
    else degrees) fun _ => 0

/-- Takes the routes of a node that was picked out of the degrees. -/
def dropDegrees (picked : Nat) (routes : List CompiledRoute)
    (degrees : Nat → Nat) : Nat → Nat :=
  routes.foldl (fun degrees route =>
    if route.srcNode = picked ∧ degrees route.dstNode > 0 then
      Function.update degrees route.dstNode (degrees route.dstNode - 1)
    else degrees) degrees

/-- The passes of the sort: each picks the first node that was not visited
and has no open route, and the sort stops when there is none. -/
def sortPasses (nodes : List Nat) (routes : List CompiledRoute) :
    Nat → (Nat → Nat) → (Nat → Bool) → List Nat → List Nat
  | 0, _, _, sorted => sorted
  | pass + 1, inDegree, visited, sorted =>
      match nodes.find? fun node => !visited node && inDegree node = 0 with
      | none => sorted
      | some picked =>
          sortPasses nodes routes pass (dropDegrees picked routes inDegree)
            (Function.update visited picked true) (sorted ++ [picked])

/-- The sorted nodes, or the listed ones when the sort could not place
all. -/
def sortProcessNodes (nodes : List Nat) (routes : List CompiledRoute) :
    List Nat :=
  if nodes.length > 1 then
    let sorted := sortPasses nodes routes nodes.length
      (inDegrees nodes routes) (fun _ => false) []
    if sorted.length = nodes.length then sorted else nodes
  else nodes

/-- The nodes in the order in which a block processes them. -/
def AudioGraphState.processNodes (g : AudioGraphState) (effects : EffectTable) :
    List Nat :=
  sortProcessNodes (g.listedProcessNodes effects) (g.processRoutes effects)

/-! ## The index of the process routes -/

/-- The process routes grouped by their source: where the group of a node
starts, how long it is, and the array of the groups. -/
structure ProcessRouteIndex where
  start : Nat → Nat
  len : Nat → Nat
  bySrc : Nat → Option CompiledRoute

def routeLens (nodeCount : Nat) (routes : List CompiledRoute) : Nat → Nat :=
  routes.foldl (fun len route =>
    if route.srcNode < nodeCount ∧ len route.srcNode < audioGraphMaxEdges then
      Function.update len route.srcNode (len route.srcNode + 1)
    else len) fun _ => 0

def routeStart (len : Nat → Nat) (node : Nat) : Nat :=
  ((List.range node).map len).sum

/-- Puts every route at the cursor of its source. -/
def placeRoutes (nodeCount : Nat) (routes : List CompiledRoute)
    (start : Nat → Nat) : (Nat → Nat) × (Nat → Option CompiledRoute) :=
  routes.foldl (fun st route =>
    if route.srcNode < nodeCount ∧ st.1 route.srcNode < audioGraphMaxEdges then
      (Function.update st.1 route.srcNode (st.1 route.srcNode + 1),
        Function.update st.2 (st.1 route.srcNode) (some route))
    else st) (start, fun _ => none)

def buildProcessRouteIndex (nodeCount : Nat) (routes : List CompiledRoute) :
    ProcessRouteIndex where
  start := routeStart (routeLens nodeCount routes)
  len := routeLens nodeCount routes
  bySrc := (placeRoutes nodeCount routes
    (routeStart (routeLens nodeCount routes))).2

/-- The routes that a block takes after it has processed a node. -/
def ProcessRouteIndex.routesOf (index : ProcessRouteIndex) (node : Nat) :
    List CompiledRoute :=
  (List.range (index.len node)).filterMap fun routeIndex =>
    index.bySrc (index.start node + routeIndex)

/-! ## The groups hold the routes of their nodes -/

/-- The routes that start in a node. -/
def routesFromNode (routes : List CompiledRoute) (node : Nat) :
    List CompiledRoute :=
  routes.filter fun route => route.srcNode = node

section RouteIndex

variable {nodeCount : Nat} {routes : List CompiledRoute}

theorem routesFromNode_append (l l' : List CompiledRoute) (node : Nat) :
    routesFromNode (l ++ l') node =
      routesFromNode l node ++ routesFromNode l' node :=
  List.filter_append ..

theorem length_routesFromNode_le (l : List CompiledRoute) (node : Nat) :
    (routesFromNode l node).length ≤ l.length :=
  List.length_filter_le ..

theorem routeLens_eq (hsrc : ∀ route ∈ routes, route.srcNode < nodeCount)
    (hlen : routes.length ≤ audioGraphMaxEdges) (node : Nat) :
    routeLens nodeCount routes node = (routesFromNode routes node).length := by
  have hfold : ∀ (l done : List CompiledRoute) (len : Nat → Nat),
      done ++ l = routes →
      (∀ v, len v = (routesFromNode done v).length) → ∀ v,
      l.foldl (fun len route =>
        if route.srcNode < nodeCount ∧
            len route.srcNode < audioGraphMaxEdges then
          Function.update len route.srcNode (len route.srcNode + 1)
        else len) len v = (routesFromNode routes v).length := by
    intro l
    induction l with
    | nil =>
        intro done len hsplit hinv v
        rw [List.foldl_nil, hinv, ← hsplit, List.append_nil]
    | cons route l ih =>
        intro done len hsplit hinv v
        have hroom : len route.srcNode < audioGraphMaxEdges := by
          have hle := length_routesFromNode_le done route.srcNode
          have htotal := congrArg List.length hsplit
          rw [List.length_append, List.length_cons] at htotal
          rw [hinv]
          omega
        have hin : route.srcNode < nodeCount :=
          hsrc route (by rw [← hsplit]; simp)
        rw [List.foldl_cons, if_pos ⟨hin, hroom⟩]
        refine ih (done ++ [route]) _ (by rw [← hsplit]; simp) ?_ v
        intro w
        rw [routesFromNode_append, List.length_append]
        by_cases hw : route.srcNode = w
        · subst w
          rw [Function.update_self, hinv]
          simp [routesFromNode]
        · rw [Function.update_of_ne (Ne.symm hw), hinv]
          simp [routesFromNode, hw]
  exact hfold routes [] _ rfl (fun _ => rfl) node

theorem routeStart_succ (len : Nat → Nat) (node : Nat) :
    routeStart len (node + 1) = routeStart len node + len node := by
  simp [routeStart, List.range_succ]

theorem routeStart_mono (len : Nat → Nat) {v w : Nat} (h : v ≤ w) :
    routeStart len v ≤ routeStart len w := by
  induction h with
  | refl => exact Nat.le_refl _
  | step _ ih =>
      rw [Nat.succ_eq_add_one, routeStart_succ]
      omega

/-- The groups of two nodes do not overlap. -/
theorem group_disjoint (len : Nat → Nat) {v w j k : Nat} (hj : j < len v)
    (hk : k < len w) (h : routeStart len v + j = routeStart len w + k) :
    v = w := by
  rcases Nat.lt_trichotomy v w with hlt | heq | hlt
  · have hle := routeStart_mono len (Nat.succ_le_of_lt hlt)
    rw [Nat.succ_eq_add_one, routeStart_succ] at hle
    omega
  · exact heq
  · have hle := routeStart_mono len (Nat.succ_le_of_lt hlt)
    rw [Nat.succ_eq_add_one, routeStart_succ] at hle
    omega

theorem routeStart_total (hsrc : ∀ route ∈ routes, route.srcNode < nodeCount) :
    routeStart (fun v => (routesFromNode routes v).length) nodeCount =
      routes.length := by
  induction routes with
  | nil => simp [routeStart, routesFromNode]
  | cons route routes ih =>
      have htail := ih fun r hr => hsrc r (List.mem_cons_of_mem _ hr)
      have hsplit : ∀ v, (routesFromNode (route :: routes) v).length =
          (routesFromNode routes v).length +
            if route.srcNode = v then 1 else 0 := by
        intro v
        by_cases hv : route.srcNode = v <;> simp [routesFromNode, hv]
      have hone : ∀ count, route.srcNode < count →
          ((List.range count).map fun v =>
            if route.srcNode = v then 1 else 0).sum = 1 := by
        intro count hcount
        have hsum : ((List.range count).map fun v =>
            if route.srcNode = v then 1 else 0).sum =
              ∑ v ∈ Finset.range count, if route.srcNode = v then 1 else 0 :=
          rfl
        rw [hsum, Finset.sum_ite_eq, if_pos (Finset.mem_range.mpr hcount)]
      rw [routeStart] at htail ⊢
      simp only [hsplit]
      rw [List.sum_map_add, htail, hone _ (hsrc route (by simp)),
        List.length_cons]

/-- What the placing keeps: every route placed so far stands in the group of
its source, behind the earlier ones. -/
def Placed (start : Nat → Nat) (done : List CompiledRoute)
    (st : (Nat → Nat) × (Nat → Option CompiledRoute)) : Prop :=
  ∀ v, st.1 v = start v + (routesFromNode done v).length ∧
    ∀ k < (routesFromNode done v).length,
      st.2 (start v + k) = (routesFromNode done v)[k]?

/-- Placing one more route. -/
theorem Placed.concat {len : Nat → Nat} {done : List CompiledRoute}
    {st : (Nat → Nat) × (Nat → Option CompiledRoute)}
    (h : Placed (routeStart len) done st) {route : CompiledRoute}
    (hroom : ∀ v, (routesFromNode (done ++ [route]) v).length ≤ len v) :
    Placed (routeStart len) (done ++ [route])
      (Function.update st.1 route.srcNode (st.1 route.srcNode + 1),
        Function.update st.2 (st.1 route.srcNode) (some route)) := by
  have hcursor := (h route.srcNode).1
  intro v
  dsimp only
  by_cases hv : route.srcNode = v
  · subst v
    have hlast : routesFromNode (done ++ [route]) route.srcNode =
        routesFromNode done route.srcNode ++ [route] := by
      simp [routesFromNode]
    rw [hlast, List.length_append, List.length_singleton]
    constructor
    · rw [Function.update_self, hcursor, Nat.add_assoc]
    · intro k hk
      by_cases hklast : k = (routesFromNode done route.srcNode).length
      · rw [hklast, ← hcursor]
        simp
      · rw [Function.update_of_ne (by omega),
          (h route.srcNode).2 k (by omega),
          List.getElem?_append_left (by omega)]
  · have hsame : routesFromNode (done ++ [route]) v =
        routesFromNode done v := by
      simp [routesFromNode, hv]
    rw [hsame]
    constructor
    · rw [Function.update_of_ne (Ne.symm hv)]
      exact (h v).1
    · intro k hk
      rw [Function.update_of_ne]
      · exact (h v).2 k hk
      · rw [hcursor]
        intro heq
        have hkgroup : k < len v := by
          have := hroom v
          rw [hsame] at this
          omega
        have hslot : (routesFromNode done route.srcNode).length <
            len route.srcNode := by
          have := hroom route.srcNode
          rw [routesFromNode_append, List.length_append] at this
          simp [routesFromNode] at this
          exact this
        exact hv (group_disjoint len hkgroup hslot heq).symm

theorem placed_placeRoutes
    (hsrc : ∀ route ∈ routes, route.srcNode < nodeCount)
    (hlen : routes.length ≤ audioGraphMaxEdges) :
    let len := fun v => (routesFromNode routes v).length
    Placed (routeStart len) routes
      (placeRoutes nodeCount routes (routeStart len)) := by
  intro len
  have hfold : ∀ (l done : List CompiledRoute)
      (st : (Nat → Nat) × (Nat → Option CompiledRoute)),
      done ++ l = routes → Placed (routeStart len) done st →
      Placed (routeStart len) routes (l.foldl (fun st route =>
        if route.srcNode < nodeCount ∧
            st.1 route.srcNode < audioGraphMaxEdges then
          (Function.update st.1 route.srcNode (st.1 route.srcNode + 1),
            Function.update st.2 (st.1 route.srcNode) (some route))
        else st) st) := by
    intro l
    induction l with
    | nil =>
        intro done st hsplit hinv
        rw [List.append_nil] at hsplit
        rw [← hsplit]
        exact hinv
    | cons route l ih =>
        intro done st hsplit hinv
        have hsplit' : (done ++ [route]) ++ l = routes := by
          rw [← hsplit]
          simp
        have hroom : ∀ v,
            (routesFromNode (done ++ [route]) v).length ≤ len v := by
          intro v
          show _ ≤ (routesFromNode routes v).length
          rw [← hsplit', routesFromNode_append _ l, List.length_append]
          exact Nat.le_add_right _ _
        have hin : route.srcNode < nodeCount :=
          hsrc route (by rw [← hsplit]; simp)
        have hfree : st.1 route.srcNode < audioGraphMaxEdges := by
          have hend := routeStart_mono len (Nat.succ_le_of_lt hin)
          have htotal : routeStart len nodeCount = routes.length :=
            routeStart_total hsrc
          have hslot := hroom route.srcNode
          rw [routesFromNode_append, List.length_append] at hslot
          simp only [routesFromNode, List.filter_cons, decide_true, if_true,
            List.filter_nil, List.length_singleton] at hslot
          have hcursor := (hinv route.srcNode).1
          rw [routesFromNode] at hcursor
          rw [Nat.succ_eq_add_one, routeStart_succ] at hend
          omega
        rw [List.foldl_cons, if_pos ⟨hin, hfree⟩]
        exact ih (done ++ [route]) _ hsplit' (hinv.concat hroom)
  refine hfold routes [] _ rfl ?_
  intro v
  exact ⟨rfl, fun k hk => absurd hk (Nat.not_lt_zero _)⟩

/-- The routes that a block takes after a node are all its routes, in their
order. -/
theorem routesOf_eq (hsrc : ∀ route ∈ routes, route.srcNode < nodeCount)
    (hlen : routes.length ≤ audioGraphMaxEdges) (node : Nat) :
    (buildProcessRouteIndex nodeCount routes).routesOf node =
      routesFromNode routes node := by
  have hlens : routeLens nodeCount routes =
      fun v => (routesFromNode routes v).length :=
    funext (routeLens_eq hsrc hlen)
  have hplaced := (placed_placeRoutes hsrc hlen node).2
  simp only [ProcessRouteIndex.routesOf, buildProcessRouteIndex, hlens]
  generalize routesFromNode routes node = group at *
  have hall : ∀ m ≤ group.length, (List.range m).filterMap (fun k =>
      (placeRoutes nodeCount routes
        (routeStart fun v => (routesFromNode routes v).length)).2
        (routeStart (fun v => (routesFromNode routes v).length) node + k)) =
      group.take m := by
    intro m
    induction m with
    | zero => simp
    | succ m ih =>
        intro hm
        rw [List.range_succ, List.filterMap_append, ih (by omega)]
        simp only [List.filterMap_cons, List.filterMap_nil]
        rw [hplaced m (by omega), List.getElem?_eq_getElem (by omega)]
        simp
  rw [hall _ (Nat.le_refl _), List.take_length]

end RouteIndex

/-- The routes of a graph go out of its nodes, and there is room for them. -/
theorem routesFrom_bounds (g : AudioGraphState) (effects : EffectTable)
    (p : NodeKind → Bool) :
    (∀ route ∈ g.routesFrom effects p, route.srcNode < g.things.length) ∧
      (g.routesFrom effects p).length ≤ audioGraphMaxEdges := by
  constructor
  · intro route hroute
    have hmem := List.mem_of_mem_take hroute
    obtain ⟨-, hkind⟩ := List.mem_filter.mp hmem
    rw [AudioGraphState.nodeKind] at hkind
    by_contra hout
    rw [List.getElem?_eq_none (by omega)] at hkind
    simp at hkind
  · exact List.length_take_le _ _

end Audiox
