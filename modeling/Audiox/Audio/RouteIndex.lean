import Audiox.Audio.Graph
import Mathlib

/-!
# The groups of the route index

Whatever routes the index is built from, the groups of the nodes lie apart and
inside their array, the group of a node holds the routes out of this node in
their order, and the groups together hold every process route once.
-/

namespace Audiox

/-- The entries of the array that belong to a node. -/
def ProcessRouteIndex.slice (index : ProcessRouteIndex) (node : Nat) :
    List (Option CompiledRoute) :=
  (List.range (index.len node)).map fun routeIndex =>
    index.bySrc (index.start node + routeIndex)

/-- The routes that are visited when the nodes are taken one after the
other. -/
def ProcessRouteIndex.visited (index : ProcessRouteIndex) (nodeCount : Nat) :
    List CompiledRoute :=
  (List.range nodeCount).flatMap index.routesOf

/-- What the index says about the routes it was built from. -/
structure Grouped (nodeCount : Nat) (routes : List CompiledRoute)
    (index : ProcessRouteIndex) : Prop where
  disjoint : ∀ v < nodeCount, ∀ w < nodeCount, v ≠ w → ∀ i,
    ¬((index.start v ≤ i ∧ i < index.start v + index.len v) ∧
      index.start w ≤ i ∧ i < index.start w + index.len w)
  inside : ∀ v < nodeCount,
    index.start v + index.len v ≤ audioGraphMaxEdges
  slice_eq : ∀ v < nodeCount,
    index.slice v = (routesFromNode routes v).map some
  visited_perm : (index.visited nodeCount).Perm
    (routes.filter fun route => route.srcNode < nodeCount)

/-! ## Routes out of no node -/

/-- The routes whose source is a node. -/
def routesInRange (nodeCount : Nat) (routes : List CompiledRoute) :
    List CompiledRoute :=
  routes.filter fun route => route.srcNode < nodeCount

section

variable {nodeCount : Nat} {routes : List CompiledRoute}

theorem src_lt_of_mem_routesInRange {route : CompiledRoute}
    (h : route ∈ routesInRange nodeCount routes) :
    route.srcNode < nodeCount := by
  simpa using (List.mem_filter.mp h).2

theorem length_routesInRange_le :
    (routesInRange nodeCount routes).length ≤ routes.length :=
  List.length_filter_le ..

theorem routesFromNode_routesInRange {v : Nat} (hv : v < nodeCount) :
    routesFromNode (routesInRange nodeCount routes) v =
      routesFromNode routes v := by
  rw [routesFromNode, routesInRange, List.filter_filter, routesFromNode]
  apply List.filter_congr
  intro route _
  by_cases h : route.srcNode = v <;> simp [h, hv]

/-- The count passes over the routes out of no node. -/
theorem routeLens_routesInRange :
    routeLens nodeCount (routesInRange nodeCount routes) =
      routeLens nodeCount routes := by
  rw [routeLens, routesInRange, List.foldl_filter, routeLens]
  congr 1
  funext len route
  by_cases h : route.srcNode < nodeCount <;> simp [h]

/-- The placing passes over the routes out of no node. -/
theorem placeRoutes_routesInRange (start : Nat → Nat) :
    placeRoutes nodeCount (routesInRange nodeCount routes) start =
      placeRoutes nodeCount routes start := by
  rw [placeRoutes, routesInRange, List.foldl_filter, placeRoutes]
  congr 1
  funext st route
  by_cases h : route.srcNode < nodeCount <;> simp [h]

theorem buildProcessRouteIndex_routesInRange :
    buildProcessRouteIndex nodeCount (routesInRange nodeCount routes) =
      buildProcessRouteIndex nodeCount routes := by
  rw [buildProcessRouteIndex, routeLens_routesInRange,
    placeRoutes_routesInRange, buildProcessRouteIndex]

/-! ## The three passes -/

/-- The lengths count the routes out of each node. -/
theorem index_len (hlen : routes.length ≤ audioGraphMaxEdges) {v : Nat}
    (hv : v < nodeCount) :
    (buildProcessRouteIndex nodeCount routes).len v =
      (routesFromNode routes v).length := by
  have hcount : routeLens nodeCount (routesInRange nodeCount routes) v =
      (routesFromNode (routesInRange nodeCount routes) v).length :=
    routeLens_eq (fun _ => src_lt_of_mem_routesInRange)
      (le_trans length_routesInRange_le hlen) v
  rw [routeLens_routesInRange, routesFromNode_routesInRange hv] at hcount
  exact hcount

/-- All groups together are as long as the list of routes out of a node. -/
theorem index_total (hlen : routes.length ≤ audioGraphMaxEdges) :
    routeStart (routeLens nodeCount routes) nodeCount =
      (routesInRange nodeCount routes).length := by
  have hsrc : ∀ route ∈ routesInRange nodeCount routes,
      route.srcNode < nodeCount := fun _ => src_lt_of_mem_routesInRange
  rw [← routeStart_total hsrc, ← routeLens_routesInRange]
  congr 1
  funext v
  exact routeLens_eq hsrc
    (le_trans length_routesInRange_le hlen) v

theorem index_inside (hlen : routes.length ≤ audioGraphMaxEdges) {v : Nat}
    (hv : v < nodeCount) :
    (buildProcessRouteIndex nodeCount routes).start v +
      (buildProcessRouteIndex nodeCount routes).len v ≤
        audioGraphMaxEdges := by
  have hend := routeStart_mono (routeLens nodeCount routes)
    (Nat.succ_le_of_lt hv)
  rw [Nat.succ_eq_add_one, routeStart_succ, index_total hlen] at hend
  exact le_trans hend (le_trans length_routesInRange_le hlen)

theorem index_disjoint {v w i : Nat} (hvw : v ≠ w) :
    let index := buildProcessRouteIndex nodeCount routes
    ¬((index.start v ≤ i ∧ i < index.start v + index.len v) ∧
      index.start w ≤ i ∧ i < index.start w + index.len w) := by
  rintro index ⟨⟨hv, hvend⟩, hw, hwend⟩
  have hj : i - index.start v < index.len v := by omega
  have hk : i - index.start w < index.len w := by omega
  refine hvw (group_disjoint (routeLens nodeCount routes) hj hk ?_)
  change index.start v + _ = index.start w + _
  omega

theorem index_routesOf (hlen : routes.length ≤ audioGraphMaxEdges) {v : Nat}
    (hv : v < nodeCount) :
    (buildProcessRouteIndex nodeCount routes).routesOf v =
      routesFromNode routes v := by
  rw [← buildProcessRouteIndex_routesInRange,
    routesOf_eq (fun _ => src_lt_of_mem_routesInRange)
      (le_trans length_routesInRange_le hlen),
    routesFromNode_routesInRange hv]

end

/-- A list of entries whose present ones are as many as the entries is full. -/
theorem map_some_reduceOption {α : Type*} {l : List (Option α)}
    (h : l.reduceOption.length = l.length) : l.reduceOption.map some = l := by
  induction l with
  | nil => rfl
  | cons entry l ih =>
      have hle := List.reduceOption_length_le l
      cases entry with
      | none =>
          rw [List.reduceOption_cons_of_none, List.length_cons] at h
          omega
      | some a =>
          rw [List.reduceOption_cons_of_some, List.length_cons,
            List.length_cons, Nat.add_right_cancel_iff] at h
          rw [List.reduceOption_cons_of_some, List.map_cons, ih h]

theorem ProcessRouteIndex.routesOf_eq_slice (index : ProcessRouteIndex)
    (node : Nat) : index.routesOf node = (index.slice node).reduceOption := by
  rw [ProcessRouteIndex.routesOf, ProcessRouteIndex.slice, List.reduceOption,
    List.filterMap_map]
  rfl

/-! ## Every route once -/

/-- The routes out of the first nodes, grouped by the nodes. -/
theorem flatMap_routesFromNode_perm (routes : List CompiledRoute)
    (nodeCount : Nat) :
    ((List.range nodeCount).flatMap (routesFromNode routes)).Perm
      (routesInRange nodeCount routes) := by
  induction nodeCount with
  | zero => simp [routesInRange]
  | succ n ih =>
      rw [List.range_succ, List.flatMap_append, List.flatMap_singleton]
      have hbelow : (routesInRange (n + 1) routes).filter
          (fun route => route.srcNode < n) = routesInRange n routes := by
        rw [routesInRange, List.filter_filter, routesInRange]
        apply List.filter_congr
        intro route _
        rw [Bool.eq_iff_iff]
        simp
        omega
      have hlast : (routesInRange (n + 1) routes).filter
          (fun route => !decide (route.srcNode < n)) =
            routesFromNode routes n := by
        rw [routesInRange, List.filter_filter, routesFromNode]
        apply List.filter_congr
        intro route _
        rw [Bool.eq_iff_iff]
        simp
        omega
      have hsplit := List.filter_append_perm
        (fun route : CompiledRoute => decide (route.srcNode < n))
        (routesInRange (n + 1) routes)
      rw [hbelow, hlast] at hsplit
      exact (ih.append_right _).trans hsplit

theorem index_grouped (nodeCount : Nat) {routes : List CompiledRoute}
    (hlen : routes.length ≤ audioGraphMaxEdges) :
    Grouped nodeCount routes (buildProcessRouteIndex nodeCount routes) where
  disjoint v _ w _ hvw _ := index_disjoint hvw
  inside _ hv := index_inside hlen hv
  slice_eq v hv := by
    have hroutes := index_routesOf hlen hv
    rw [ProcessRouteIndex.routesOf_eq_slice] at hroutes
    rw [← hroutes, map_some_reduceOption]
    rw [hroutes, ProcessRouteIndex.slice, List.length_map, List.length_range,
      index_len hlen hv]
  visited_perm := by
    have hvisited : (buildProcessRouteIndex nodeCount routes).visited
        nodeCount = (List.range nodeCount).flatMap (routesFromNode routes) := by
      rw [ProcessRouteIndex.visited, List.flatMap_congr]
      intro v hv
      exact index_routesOf hlen (List.mem_range.mp hv)
    rw [hvisited]
    exact flatMap_routesFromNode_perm routes nodeCount

/-- The index groups the routes by their source, and for the process routes of
a graph the groups leave none out and hold none twice. -/
theorem buildProcessRouteIndex_groups :
    (∀ nodeCount ≤ audioGraphMaxThings, ∀ routes : List CompiledRoute,
      routes.length ≤ audioGraphMaxEdges →
        Grouped nodeCount routes (buildProcessRouteIndex nodeCount routes)) ∧
    ∀ (g : AudioGraphState) (effects : EffectTable),
      ((buildProcessRouteIndex g.things.length
        (g.processRoutes effects)).visited g.things.length).Perm
          (g.processRoutes effects) := by
  constructor
  · intro nodeCount _ routes hlen
    exact index_grouped nodeCount hlen
  · intro g effects
    obtain ⟨hsrc, hlen⟩ := routesFrom_bounds g effects isProcessKind
    have hvisited := (index_grouped g.things.length hlen).visited_perm
    rw [List.filter_eq_self.mpr fun route hroute => by
      simpa using hsrc route hroute] at hvisited
    exact hvisited

theorem buildProcessRouteIndex_groups_two :
    Grouped 2 [⟨1, 0, 0, 0⟩, ⟨0, 1, 0, 0⟩, ⟨1, 1, 0, 1⟩]
      (buildProcessRouteIndex 2
        [⟨1, 0, 0, 0⟩, ⟨0, 1, 0, 0⟩, ⟨1, 1, 0, 1⟩]) :=
  buildProcessRouteIndex_groups.1 2 (by decide) _ (by decide)

end Audiox
