import Audiox.Audio.Graph

/-!
# The processing order

The sort appends a node when no open route ends in it, so its list follows the
routes.  It places every node exactly if the routes between process nodes have
no cycle; otherwise the listed order stays.
-/

namespace Audiox

open ByteCodec FlowOrder Relation

/-- A route between two process nodes. -/
def Feeds (nodes : List Nat) (routes : List CompiledRoute) (u v : Nat) : Prop :=
  ∃ route ∈ routes, route.srcNode = u ∧ route.dstNode = v ∧ u ∈ nodes ∧
    v ∈ nodes

/-- Every route between process nodes that is not part of a feedback loop goes
forward in the list. -/
def InFlowOrder (nodes : List Nat) (routes : List CompiledRoute)
    (order : List Nat) : Prop :=
  ∀ u v, Feeds nodes routes u v → ¬ReflTransGen (Feeds nodes routes) v u →
    [u, v].Sublist order

variable {nodes : List Nat} {routes : List CompiledRoute}

/-! ## The degrees -/

/-- The routes that are still open: their source is a process node that was
not placed. -/
def openRoutes (nodes placed : List Nat) (routes : List CompiledRoute)
    (v : Nat) : Nat :=
  routes.countP fun route =>
    route.srcNode ∈ nodes ∧ route.srcNode ∉ placed ∧ route.dstNode ∈ nodes ∧
      route.dstNode = v

theorem foldl_inDegrees (degrees : Nat → Nat) (v : Nat) :
    routes.foldl (fun degrees route =>
      if route.srcNode ∈ nodes ∧ route.dstNode ∈ nodes then
        Function.update degrees route.dstNode (degrees route.dstNode + 1)
      else degrees) degrees v = degrees v + openRoutes nodes [] routes v := by
  induction routes generalizing degrees with
  | nil => rfl
  | cons route routes ih =>
      rw [List.foldl_cons, ih, openRoutes, openRoutes, List.countP_cons]
      by_cases hnodes : route.srcNode ∈ nodes ∧ route.dstNode ∈ nodes
      · rw [if_pos hnodes]
        by_cases hv : route.dstNode = v
        · subst v
          rw [Function.update_self, if_pos (by simp [hnodes])]
          omega
        · rw [Function.update_of_ne (Ne.symm hv), if_neg (by simp [hv])]
          rfl
      · rw [if_neg hnodes, if_neg]
        · rfl
        · intro h
          have h' := of_decide_eq_true h
          exact hnodes ⟨h'.1, h'.2.2.1⟩

theorem inDegrees_eq (v : Nat) :
    inDegrees nodes routes v = openRoutes nodes [] routes v := by
  rw [inDegrees, foldl_inDegrees, Nat.zero_add]

/-- The routes of one node into another. -/
def routesInto (u v : Nat) (routes : List CompiledRoute) : Nat :=
  routes.countP fun route => route.srcNode = u ∧ route.dstNode = v

theorem dropDegrees_eq (picked : Nat) (degrees : Nat → Nat) (v : Nat) :
    dropDegrees picked routes degrees v =
      degrees v - routesInto picked v routes := by
  rw [dropDegrees]
  induction routes generalizing degrees with
  | nil => rfl
  | cons route routes ih =>
      rw [List.foldl_cons, ih, routesInto, routesInto, List.countP_cons]
      by_cases hsrc : route.srcNode = picked
      · by_cases hv : route.dstNode = v
        · rw [if_pos (by simp [hsrc, hv] : decide
            (route.srcNode = picked ∧ route.dstNode = v) = true)]
          subst v
          by_cases hpos : degrees route.dstNode > 0
          · rw [if_pos ⟨hsrc, hpos⟩, Function.update_self]
            omega
          · rw [if_neg (fun h => hpos h.2)]
            omega
        · rw [if_neg (by simp [hv] : ¬decide
            (route.srcNode = picked ∧ route.dstNode = v) = true)]
          split
          · rw [Function.update_of_ne (Ne.symm hv)]
            rfl
          · rfl
      · rw [if_neg (fun h => hsrc h.1), if_neg (by simp [hsrc] : ¬decide
          (route.srcNode = picked ∧ route.dstNode = v) = true)]
        rfl

/-- Placing a node closes its routes. -/
theorem openRoutes_concat {placed : List Nat} {picked v : Nat}
    (hpicked : picked ∈ nodes) (hnew : picked ∉ placed) (hv : v ∈ nodes) :
    openRoutes nodes placed routes v =
      openRoutes nodes (placed ++ [picked]) routes v +
        routesInto picked v routes := by
  induction routes with
  | nil => rfl
  | cons route routes ih =>
      simp only [openRoutes, routesInto, List.countP_cons] at ih ⊢
      rw [ih]
      by_cases hdst : route.dstNode = v
      · by_cases hsrc : route.srcNode = picked
        · simp [hdst, hsrc, hpicked, hnew, hv]
          omega
        · simp [hdst, hsrc, hv]
          omega
      · simp [hdst]

theorem openRoutes_eq_zero_iff {placed : List Nat} {v : Nat} :
    openRoutes nodes placed routes v = 0 ↔
      ∀ u, Feeds nodes routes u v → u ∈ placed := by
  rw [openRoutes, List.countP_eq_zero]
  constructor
  · rintro h u ⟨route, hroute, rfl, rfl, hu, hv⟩
    by_contra hnot
    exact h route hroute (by simp [hu, hv, hnot])
  · intro h route hroute hopen
    obtain ⟨hsrc, hnot, hdst, rfl⟩ := of_decide_eq_true hopen
    exact hnot (h _ ⟨route, hroute, rfl, rfl, hsrc, hdst⟩)

/-! ## The passes -/

/-- What the passes keep. -/
structure Sorting (nodes : List Nat) (routes : List CompiledRoute)
    (inDegree : Nat → Nat) (visited : Nat → Bool) (sorted : List Nat) :
    Prop where
  follows : Follows (Feeds nodes routes) sorted
  nodup : sorted.Nodup
  subset : sorted ⊆ nodes
  visited : ∀ v, visited v = true ↔ v ∈ sorted
  degree : ∀ v ∈ nodes, inDegree v = openRoutes nodes sorted routes v

theorem sorting_start (nodes : List Nat) (routes : List CompiledRoute) :
    Sorting nodes routes (inDegrees nodes routes) (fun _ => false) [] where
  follows := follows_nil
  nodup := List.nodup_nil
  subset := List.nil_subset _
  visited v := by simp
  degree v _ := inDegrees_eq v

theorem Sorting.pick {inDegree : Nat → Nat} {visited : Nat → Bool}
    {sorted : List Nat} (h : Sorting nodes routes inDegree visited sorted)
    {picked : Nat} (hmem : picked ∈ nodes) (hnew : visited picked = false)
    (hzero : inDegree picked = 0) :
    Sorting nodes routes (dropDegrees picked routes inDegree)
      (Function.update visited picked true) (sorted ++ [picked]) := by
  have hnot : picked ∉ sorted := by
    intro hin
    rw [(h.visited picked).mpr hin] at hnew
    cases hnew
  constructor
  · apply h.follows.concat
    rw [h.degree picked hmem] at hzero
    exact openRoutes_eq_zero_iff.mp hzero
  · rw [List.nodup_append]
    refine ⟨h.nodup, List.nodup_singleton _, ?_⟩
    intro x hx y hy heq
    rw [List.mem_singleton] at hy
    exact hnot (hy ▸ heq ▸ hx)
  · intro x hx
    rcases List.mem_append.mp hx with hx | hx
    · exact h.subset hx
    · rw [List.mem_singleton] at hx
      exact hx ▸ hmem
  · intro v
    by_cases hv : v = picked
    · subst v
      simp
    · rw [Function.update_of_ne hv, h.visited v]
      simp [hv]
  · intro v hv
    rw [dropDegrees_eq, h.degree v hv, openRoutes_concat hmem hnot hv]
    omega

/-- The result of the passes follows the routes.  If it stops early, no
remaining node has all its sources placed. -/
theorem sortPasses_spec (pass : Nat) {inDegree : Nat → Nat}
    {visited : Nat → Bool} {sorted : List Nat}
    (h : Sorting nodes routes inDegree visited sorted) :
    let result := sortPasses nodes routes pass inDegree visited sorted
    Follows (Feeds nodes routes) result ∧ result.Nodup ∧ result ⊆ nodes ∧
      (result.length = sorted.length + pass ∨
        ∀ x ∈ nodes, x ∉ result → ∃ y, Feeds nodes routes y x ∧
          y ∉ result) := by
  induction pass generalizing inDegree visited sorted with
  | zero => exact ⟨h.follows, h.nodup, h.subset, .inl rfl⟩
  | succ pass ih =>
      simp only [sortPasses]
      split
      next hnone =>
        refine ⟨h.follows, h.nodup, h.subset, .inr ?_⟩
        intro x hx hnot
        have hstuck := List.find?_eq_none.mp hnone x hx
        have hvisited : visited x = false := by
          rw [← Bool.not_eq_true, h.visited]
          exact hnot
        have hdegree : inDegree x ≠ 0 := by
          intro hzero
          exact hstuck (by simp [hvisited, hzero])
        rw [h.degree x hx, ne_eq, openRoutes_eq_zero_iff] at hdegree
        push Not at hdegree
        exact hdegree
      next picked hpicked =>
        have hmem := List.mem_of_find?_eq_some hpicked
        have hready := List.find?_some hpicked
        simp only [Bool.and_eq_true, Bool.not_eq_true',
          decide_eq_true_eq] at hready
        have hnext := ih (h.pick hmem hready.1 hready.2)
        simp only [List.length_append, List.length_singleton] at hnext
        obtain ⟨hfollows, hnodup, hsubset, hend⟩ := hnext
        refine ⟨hfollows, hnodup, hsubset, hend.imp ?_ id⟩
        intro hlen
        omega

theorem acyclic_sorted (hnodup : nodes.Nodup) :
    (sortPasses nodes routes nodes.length (inDegrees nodes routes)
      (fun _ => false) []).length = nodes.length ↔
        Acyclic (Feeds nodes routes) := by
  obtain ⟨hfollows, hnodup', hsubset, hend⟩ :=
    sortPasses_spec nodes.length (sorting_start nodes routes)
  generalize sortPasses nodes routes nodes.length (inDegrees nodes routes)
    (fun _ => false) [] = sorted at *
  constructor
  · intro hlen x hcycle
    have hperm := (List.subperm_of_subset hnodup' hsubset).perm_of_length_le
      hlen.ge
    obtain ⟨y, -, hlast⟩ := TransGen.tail'_iff.mp hcycle
    obtain ⟨route, -, -, -, -, hx⟩ := hlast
    exact hfollows.not_cycle (hperm.mem_iff.mpr hx) hcycle
  · intro hacyclic
    have hle := (List.subperm_of_subset hnodup' hsubset).length_le
    rcases hend with hlen | hstuck
    · simpa using hlen
    · by_cases hall : ∀ x ∈ nodes, x ∈ sorted
      · have hge := (List.subperm_of_subset hnodup hall).length_le
        omega
      · push Not at hall
        have hedges : ∀ x y, Feeds nodes routes x y → x ∈ nodes := by
          rintro x y ⟨-, -, -, -, hx, -⟩
          exact hx
        obtain ⟨x, hx, hnot, hready⟩ := exists_ready hacyclic hedges hall
        obtain ⟨y, hy, hopen⟩ := hstuck x hx hnot
        exact absurd (hready y hy) hopen

theorem sortProcessNodes_perm (nodes : List Nat)
    (routes : List CompiledRoute) :
    (sortProcessNodes nodes routes).Perm nodes := by
  obtain ⟨-, hnodup', hsubset, -⟩ :=
    sortPasses_spec nodes.length (sorting_start nodes routes)
  unfold sortProcessNodes
  split
  · simp only
    split
    next hlen =>
      exact (List.subperm_of_subset hnodup' hsubset).perm_of_length_le hlen.ge
    · exact List.Perm.refl _
  · exact List.Perm.refl _

/-- Without a feedback loop the sorted nodes follow the routes. -/
theorem sortProcessNodes_follows (hnodup : nodes.Nodup)
    (hacyclic : Acyclic (Feeds nodes routes)) :
    Follows (Feeds nodes routes) (sortProcessNodes nodes routes) := by
  obtain ⟨hfollows, -, -, -⟩ :=
    sortPasses_spec nodes.length (sorting_start nodes routes)
  unfold sortProcessNodes
  split
  · simp only
    rw [if_pos ((acyclic_sorted hnodup).mpr hacyclic)]
    exact hfollows
  next hshort =>
    -- With one node at most, a route would be a loop.
    intro a x b hsplit y hy
    obtain ⟨-, -, -, -, hymem, hxmem⟩ := id hy
    have heq : y = x := by
      cases nodes with
      | nil => cases hymem
      | cons z rest =>
          have hnil : rest = [] := by
            rw [List.length_cons] at hshort
            exact List.length_eq_zero_iff.mp (by omega)
          simp only [hnil, List.mem_singleton] at hymem hxmem
          rw [hymem, hxmem]
    rw [heq] at hy
    exact absurd (TransGen.single hy) (hacyclic x)

/-- With a feedback loop the listed order stays. -/
theorem sortProcessNodes_cyclic (hnodup : nodes.Nodup)
    (hcyclic : ¬Acyclic (Feeds nodes routes)) :
    sortProcessNodes nodes routes = nodes := by
  unfold sortProcessNodes
  split
  · simp only
    rw [if_neg (fun hlen => hcyclic ((acyclic_sorted hnodup).mp hlen))]
  · rfl

/-! ## The compiled graph -/

theorem listedProcessNodes_sorted (g : AudioGraphState)
    (effects : EffectTable) :
    (g.listedProcessNodes effects).Pairwise (· < ·) := by
  have hrange : (List.range g.things.length).Pairwise (· < ·) :=
    List.pairwise_lt_range
  exact (hrange.filter _).sublist (List.take_sublist _ _)

theorem listedProcessNodes_nodup (g : AudioGraphState)
    (effects : EffectTable) : (g.listedProcessNodes effects).Nodup :=
  (listedProcessNodes_sorted g effects).imp Nat.ne_of_lt

/-- Two nodes stand in the listed order as their indices do. -/
theorem pair_sublist_iff (hsorted : nodes.Pairwise (· < ·)) {u v : Nat}
    (hu : u ∈ nodes) (hv : v ∈ nodes) : [u, v].Sublist nodes ↔ u < v := by
  constructor
  · intro h
    have hpair := hsorted.sublist h
    simpa using hpair
  · intro hlt
    obtain ⟨a, b, rfl⟩ := List.append_of_mem hu
    have hcases := List.mem_append.mp hv
    rcases hcases with hva | hvb
    · have hback := (List.pairwise_append.mp hsorted).2.2 v hva u (by simp)
      omega
    · have htail : v ∈ b := by
        rcases List.mem_cons.mp hvb with rfl | h
        · exact absurd hlt (Nat.lt_irrefl _)
        · exact h
      have hpair : [u, v].Sublist (u :: b) :=
        (List.singleton_sublist.mpr htail).cons_cons u
      exact hpair.trans (List.sublist_append_right a _)

theorem follows_inFlowOrder {order : List Nat} (hperm : order.Perm nodes)
    (h : Follows (Feeds nodes routes) order) :
    InFlowOrder nodes routes order := by
  intro u v hfeeds _
  obtain ⟨-, -, -, -, -, hv⟩ := id hfeeds
  exact h.sublist (hperm.mem_iff.mpr hv) hfeeds

/-- The process nodes are a permutation of the listed ones; they are in flow
order exactly if there is no feedback loop, or the things happen to be listed
in flow order. -/
theorem processNodes_inFlowOrder_iff (g : AudioGraphState)
    (effects : EffectTable) :
    let nodes := g.listedProcessNodes effects
    let routes := g.processRoutes effects
    (g.processNodes effects).Perm nodes ∧
        InFlowOrder nodes routes (g.processNodes effects) ↔
      Acyclic (Feeds nodes routes) ∨
        ∀ u v, Feeds nodes routes u v →
          ¬ReflTransGen (Feeds nodes routes) v u → u < v := by
  intro nodes routes
  have hsorted := listedProcessNodes_sorted g effects
  have hnodup := listedProcessNodes_nodup g effects
  have hperm : (g.processNodes effects).Perm nodes :=
    sortProcessNodes_perm _ _
  rw [and_iff_right hperm]
  by_cases hacyclic : Acyclic (Feeds nodes routes)
  · constructor
    · exact fun _ => .inl hacyclic
    · intro _
      exact follows_inFlowOrder hperm
        (sortProcessNodes_follows hnodup hacyclic)
  · have hlisted : g.processNodes effects = nodes :=
      sortProcessNodes_cyclic hnodup hacyclic
    rw [hlisted, or_iff_right hacyclic]
    constructor
    · intro h u v hfeeds hreach
      obtain ⟨-, -, -, -, hu, hv⟩ := id hfeeds
      exact (pair_sublist_iff hsorted hu hv).mp (h u v hfeeds hreach)
    · intro h u v hfeeds hreach
      obtain ⟨-, -, -, -, hu, hv⟩ := id hfeeds
      exact (pair_sublist_iff hsorted hu hv).mpr (h u v hfeeds hreach)

/-! ## A loop that spoils the order of others -/

def loopThing (id : String) : AudioGraphThingInfo :=
  ⟨ascii id, 2, 2⟩

def loopEdge (src dst : String) : AudioGraphEdgeInfo :=
  ⟨ascii src, ascii dst, 0, 0⟩

/-- The second effect feeds the first; the last two feed each other. -/
def loopGraph : AudioGraphState where
  things := [loopThing "fx_1", loopThing "fx_2", loopThing "fx_3",
    loopThing "fx_4"]
  edges := [loopEdge "fx_2" "fx_1", loopEdge "fx_3" "fx_4",
    loopEdge "fx_4" "fx_3"]
  thingCount_le := by decide
  edgeCount_le := by decide

theorem loop_spoils_order :
    ¬((loopGraph.processNodes fun _ => true).Perm
        (loopGraph.listedProcessNodes fun _ => true) ∧
      InFlowOrder (loopGraph.listedProcessNodes fun _ => true)
        (loopGraph.processRoutes fun _ => true)
        (loopGraph.processNodes fun _ => true)) := by
  have hnodes : loopGraph.listedProcessNodes (fun _ => true) =
      [0, 1, 2, 3] := by decide
  have hroutes : loopGraph.processRoutes (fun _ => true) =
      [⟨1, 0, 0, 0⟩, ⟨2, 3, 0, 0⟩, ⟨3, 2, 0, 0⟩] := by decide
  have horder : loopGraph.processNodes (fun _ => true) = [0, 1, 2, 3] := by
    decide
  rw [hnodes, hroutes, horder]
  rintro ⟨-, h⟩
  have hfeeds : Feeds [0, 1, 2, 3]
      [⟨1, 0, 0, 0⟩, ⟨2, 3, 0, 0⟩, ⟨3, 2, 0, 0⟩] 1 0 :=
    ⟨⟨1, 0, 0, 0⟩, by simp, rfl, rfl, by simp, by simp⟩
  have hdead : ¬ReflTransGen (Feeds [0, 1, 2, 3]
      [⟨1, 0, 0, 0⟩, ⟨2, 3, 0, 0⟩, ⟨3, 2, 0, 0⟩]) 0 1 := by
    intro hreach
    rcases ReflTransGen.cases_head hreach with heq | ⟨v, hstep, -⟩
    · cases heq
    · obtain ⟨route, hroute, hsrc, -⟩ := hstep
      simp only [List.mem_cons, List.not_mem_nil, or_false] at hroute
      rcases hroute with rfl | rfl | rfl <;> cases hsrc
  have hsub := h 1 0 hfeeds hdead
  exact absurd hsub (by decide)

end Audiox
