import Audiox.Audio.Block

/-!
# The plain meaning of a block

A plain evaluator has a buffer of its own for every input and every output,
and copies and adds in all cases.  Without a feedback loop its result solves
the equations of the graph: every input is the sum over its routes, and every
process node has applied its effect to its inputs.
-/

namespace Audiox

open FlowOrder

variable {n : Nat} {R : Type} {ctx : BlockContext n R} {node : Nat}

/-! ## The kinds of the nodes -/

theorem sourceRoutes_kind {route : CompiledRoute}
    (h : route ∈ ctx.graph.sourceRoutes ctx.effects) :
    ctx.nodeKind route.srcNode = some .source := by
  have hkind := (List.mem_filter.mp (List.mem_of_mem_take h)).2
  simp only [Option.any_eq_true, decide_eq_true_eq] at hkind
  obtain ⟨kind, hget, rfl⟩ := hkind
  exact hget

theorem processRoutes_kind {route : CompiledRoute}
    (h : route ∈ ctx.graph.processRoutes ctx.effects) :
    ctx.nodeKind route.srcNode ≠ some .source := by
  have hkind := (List.mem_filter.mp (List.mem_of_mem_take h)).2
  simp only [Option.any_eq_true] at hkind
  obtain ⟨kind, hget, hprocess⟩ := hkind
  intro hsource
  rw [BlockContext.nodeKind, hget] at hsource
  cases hsource
  cases hprocess

theorem mem_nodesWhere {g : AudioGraphState} {p : AudioGraphThingInfo → Bool} :
    node ∈ g.nodesWhere p ↔ g.things[node]?.any p := by
  have hle : ((List.range g.things.length).filter fun node =>
      g.things[node]?.any p).length ≤ audioGraphMaxThings := by
    refine (List.length_filter_le _ _).trans ?_
    rw [List.length_range]
    exact g.thingCount_le
  rw [AudioGraphState.nodesWhere, List.take_of_length_le hle, List.mem_filter,
    List.mem_range]
  refine and_iff_right_of_imp fun h => ?_
  by_contra hout
  rw [List.getElem?_eq_none (by omega)] at h
  simp at h

theorem mem_sourceNodes :
    node ∈ ctx.graph.sourceNodes ctx.effects ↔
      ctx.nodeKind node = some .source := by
  rw [AudioGraphState.sourceNodes, mem_nodesWhere, BlockContext.nodeKind,
    AudioGraphState.nodeKind]
  cases ctx.graph.things[node]? <;> simp

theorem listedProcessNodes_kind
    (h : node ∈ ctx.graph.listedProcessNodes ctx.effects) :
    ctx.nodeKind node ≠ some .source := by
  rw [AudioGraphState.listedProcessNodes, mem_nodesWhere] at h
  rw [BlockContext.nodeKind, AudioGraphState.nodeKind]
  intro hsource
  cases hthing : ctx.graph.things[node]? with
  | none => simp [hthing] at h
  | some thing =>
      rw [hthing] at h hsource
      simp only [Option.map_some, Option.some.injEq] at hsource
      simp [hsource, isProcessKind] at h

theorem processNodes_nodup :
    (ctx.graph.processNodes ctx.effects).Nodup :=
  (sortProcessNodes_perm _ _).nodup_iff.mpr (listedProcessNodes_nodup _ _)

theorem mem_processNodes :
    node ∈ ctx.graph.processNodes ctx.effects ↔
      node ∈ ctx.graph.listedProcessNodes ctx.effects :=
  (sortProcessNodes_perm _ _).mem_iff

/-- No route between process nodes of the graph closes a loop. -/
def BlockContext.NoFeedback (ctx : BlockContext n R) : Prop :=
  Acyclic (Feeds (ctx.graph.listedProcessNodes ctx.effects)
    (ctx.graph.processRoutes ctx.effects))

/-- Rule for the loop over the process nodes: no route of a node ends in a
node that has been processed. -/
theorem foldl_processNodes {σ : Type} (h : ctx.NoFeedback) (f : σ → Nat → σ)
    (I : List Nat → σ → Prop) {s : σ} (hstart : I [] s)
    (hstep : ∀ done node s, node ∈ ctx.graph.processNodes ctx.effects →
      node ∉ done → done ⊆ ctx.graph.processNodes ctx.effects →
      (∀ route ∈ routesFromNode (ctx.graph.processRoutes ctx.effects) node,
        route.srcNode = node ∧ route.dstNode ∉ done ++ [node]) →
      I done s → I (done ++ [node]) (f s node)) :
    I (ctx.graph.processNodes ctx.effects)
      ((ctx.graph.processNodes ctx.effects).foldl f s) := by
  have hfollows := sortProcessNodes_follows (listedProcessNodes_nodup _ _) h
  refine hfollows.foldl processNodes_nodup f I hstart ?_
  intro done node s hnode hnew hdone hback hI
  apply hstep done node s hnode hnew hdone _ hI
  intro route hroute
  obtain ⟨hmem, hsrc⟩ := List.mem_filter.mp hroute
  simp only [decide_eq_true_eq] at hsrc
  refine ⟨hsrc, fun hdst => hback _ hdst ?_⟩
  have hdst' : route.dstNode ∈ ctx.graph.processNodes ctx.effects := by
    rcases List.mem_append.mp hdst with hd | hd
    · exact hdone hd
    · rw [List.mem_singleton] at hd
      rw [hd]
      exact hnode
  exact ⟨route, hmem, hsrc, rfl, mem_processNodes.mp hnode,
    mem_processNodes.mp hdst'⟩

/-! ## Routes -/

variable [Semiring R]

structure PlainBuffers (n : Nat) (R : Type) where
  inputs : Nat → Nat → Block n R
  outputs : Nat → Nat → Block n R

/-- What a route adds to its destination. -/
def contribution (ctx : BlockContext n R) (outputs : Nat → Nat → Block n R)
    (route : CompiledRoute) : Block n R := fun frame =>
  outputs route.srcNode route.srcChannel frame * ctx.nodeGain route.srcNode

def plainRoute (ctx : BlockContext n R) (p : PlainBuffers n R)
    (route : CompiledRoute) : PlainBuffers n R :=
  { p with
    inputs := updateChannel p.inputs route.dstNode route.dstChannel
      (p.inputs route.dstNode route.dstChannel +
        contribution ctx p.outputs route) }

/-- The sum over the routes that end in a channel. -/
def sumInto (ctx : BlockContext n R) (routes : List CompiledRoute)
    (outputs : Nat → Nat → Block n R) (node channel : Nat) : Block n R :=
  ((routes.filter fun route =>
    route.dstNode = node ∧ route.dstChannel = channel).map
      (contribution ctx outputs)).sum

variable {routes : List CompiledRoute}
  {outputs outputs' : Nat → Nat → Block n R} {channel : Nat}

@[simp] theorem sumInto_nil : sumInto ctx [] outputs node channel = 0 := rfl

theorem sumInto_cons (route : CompiledRoute) :
    sumInto ctx (route :: routes) outputs node channel =
      (if route.dstNode = node ∧ route.dstChannel = channel then
        contribution ctx outputs route else 0) +
      sumInto ctx routes outputs node channel := by
  rw [sumInto, sumInto, List.filter_cons]
  split
  next h =>
    rw [if_pos (of_decide_eq_true h), List.map_cons, List.sum_cons]
  next h =>
    rw [if_neg (fun h' => h (decide_eq_true h')), zero_add]

theorem sumInto_append (l l' : List CompiledRoute) :
    sumInto ctx (l ++ l') outputs node channel =
      sumInto ctx l outputs node channel +
        sumInto ctx l' outputs node channel := by
  rw [sumInto, List.filter_append, List.map_append, List.sum_append]
  rfl

theorem sumInto_congr (h : ∀ route ∈ routes,
    outputs route.srcNode = outputs' route.srcNode) :
    sumInto ctx routes outputs node channel =
      sumInto ctx routes outputs' node channel := by
  rw [sumInto, sumInto]
  refine congrArg List.sum (List.map_congr_left fun route hroute => ?_)
  have hmem := (List.mem_filter.mp hroute).1
  funext frame
  rw [contribution, contribution, h route hmem]

theorem sumInto_eq_zero (h : ∀ route ∈ routes, route.dstNode = node →
    outputs route.srcNode = 0) :
    sumInto ctx routes outputs node channel = 0 := by
  induction routes with
  | nil => rfl
  | cons route routes ih =>
      rw [sumInto_cons, ih fun r hr => h r (List.mem_cons_of_mem _ hr),
        add_zero]
      split
      next hinto =>
        funext frame
        have hzero := h route (by simp) hinto.1
        rw [contribution, hzero]
        exact zero_mul _
      · rfl

/-- Routes with different sources can be summed apart. -/
theorem sumInto_filter_or (p q : CompiledRoute → Prop) [DecidablePred p]
    [DecidablePred q] (hpq : ∀ route ∈ routes, p route → ¬q route) :
    sumInto ctx (routes.filter fun r => p r ∨ q r) outputs node channel =
      sumInto ctx (routes.filter fun r => p r) outputs node channel +
        sumInto ctx (routes.filter fun r => q r) outputs node channel := by
  induction routes with
  | nil => simp
  | cons route routes ih =>
      have htail := ih fun r hr => hpq r (List.mem_cons_of_mem _ hr)
      have hhead := hpq route (by simp)
      by_cases hp : p route
      · have hq := hhead hp
        simp only [List.filter_cons, hp, hq, or_false, decide_true, if_true,
          decide_false, Bool.false_eq_true, if_false, sumInto_cons, htail]
        exact (add_assoc _ _ _).symm
      · by_cases hq : q route
        · simp only [List.filter_cons, hp, hq, or_true, decide_true, if_true,
            decide_false, Bool.false_eq_true, if_false, sumInto_cons, htail]
          exact add_left_comm _ _ _
        · simpa [List.filter_cons, hp, hq] using htail

theorem foldl_plainRoute (ctx : BlockContext n R) (routes : List CompiledRoute)
    (p : PlainBuffers n R) :
    (routes.foldl (plainRoute ctx) p).outputs = p.outputs ∧
      ∀ node channel, (routes.foldl (plainRoute ctx) p).inputs node channel =
        p.inputs node channel + sumInto ctx routes p.outputs node channel := by
  induction routes generalizing p with
  | nil => exact ⟨rfl, fun _ _ => (add_zero _).symm⟩
  | cons route routes ih =>
      obtain ⟨hout, hin⟩ := ih (plainRoute ctx p route)
      refine ⟨hout, ?_⟩
      intro node channel
      rw [List.foldl_cons, hin, sumInto_cons]
      by_cases hdst : route.dstNode = node ∧ route.dstChannel = channel
      · obtain ⟨rfl, rfl⟩ := hdst
        rw [if_pos ⟨rfl, rfl⟩]
        simp [plainRoute, updateChannel, add_assoc]
      · rw [if_neg hdst, zero_add]
        congr 1
        simp only [plainRoute, updateChannel]
        by_cases hnode : node = route.dstNode
        · subst hnode
          have hchannel : channel ≠ route.dstChannel := by
            rintro rfl
            exact hdst ⟨rfl, rfl⟩
          rw [Function.update_self, Function.update_of_ne hchannel]
        · rw [Function.update_of_ne hnode]

/-! ## The evaluator -/

def plainStart (ctx : BlockContext n R) : PlainBuffers n R where
  inputs := 0
  outputs := fun node channel =>
    if ctx.nodeKind node = some .source ∧
        channel < ctx.outputChannels node then
      ctx.rendered node channel
    else 0

/-- A source has nothing but what it renders, and the nodes that are not
processed put nothing out. -/
theorem plainStart_outputs (h : ctx.nodeKind node ≠ some .source) :
    (plainStart ctx).outputs node = 0 := by
  funext channel
  simp [plainStart, h]

variable [DecidableEq R]

/-- What a node makes of its inputs. -/
def nodeOutput (ctx : BlockContext n R) (node : Nat)
    (inputs : Nat → Block n R) : Nat → Block n R := fun channel =>
  if channel < ctx.channels node then
    if ctx.nodeKind node = some .effect then
      if nodeBlocksInput ctx node then 0
      else if !(ctx.params node).enabled then inputs channel
      else if (ctx.params node).type = .plugin then
        match (ctx.params node).pluginHost with
        | some host =>
            host ((List.range (ctx.channels node)).map inputs) channel
        | none => inputs channel
      else ctx.processSlot node channel (inputs channel)
    else inputs channel
  else 0

def plainNode (ctx : BlockContext n R) (p : PlainBuffers n R) (node : Nat) :
    PlainBuffers n R :=
  { p with
    outputs := Function.update p.outputs node
      (nodeOutput ctx node (p.inputs node)) }

def plainProcess (ctx : BlockContext n R) (p : PlainBuffers n R)
    (node : Nat) : PlainBuffers n R :=
  (routesFromNode (ctx.graph.processRoutes ctx.effects) node).foldl
    (plainRoute ctx) (plainNode ctx p node)

def plainBlock (ctx : BlockContext n R) : PlainBuffers n R :=
  (ctx.graph.processNodes ctx.effects).foldl (plainProcess ctx)
    ((ctx.graph.sourceRoutes ctx.effects).foldl (plainRoute ctx)
      (plainStart ctx))

/-! ## The equations of the graph -/

/-- What holds when some of the nodes have been processed. -/
structure PlainDone (ctx : BlockContext n R) (done : List Nat)
    (p : PlainBuffers n R) : Prop where
  inputs : ∀ node channel, p.inputs node channel =
    sumInto ctx (ctx.graph.sourceRoutes ctx.effects) p.outputs node channel +
      sumInto ctx ((ctx.graph.processRoutes ctx.effects).filter
        fun route => route.srcNode ∈ done) p.outputs node channel
  outputs : ∀ node ∈ done, p.outputs node =
    nodeOutput ctx node (p.inputs node)
  rest : ∀ node, node ∉ done →
    p.outputs node = (plainStart ctx).outputs node

theorem PlainDone.step {done : List Nat} {p : PlainBuffers n R}
    (h : PlainDone ctx done p)
    (hnode : ctx.nodeKind node ≠ some .source) (hnew : node ∉ done)
    (hroutes : ∀ route ∈
      routesFromNode (ctx.graph.processRoutes ctx.effects) node,
      route.srcNode = node ∧ route.dstNode ∉ done ++ [node]) :
    PlainDone ctx (done ++ [node]) (plainProcess ctx p node) := by
  obtain ⟨hout, hin⟩ := foldl_plainRoute ctx
    (routesFromNode (ctx.graph.processRoutes ctx.effects) node)
    (plainNode ctx p node)
  -- The routes of the node change no input of a node that was processed.
  have hold : ∀ m ∈ done ++ [node],
      (plainProcess ctx p node).inputs m = p.inputs m := by
    intro m hm
    funext channel
    rw [plainProcess, hin]
    have hnone : sumInto ctx
        (routesFromNode (ctx.graph.processRoutes ctx.effects) node)
        (plainNode ctx p node).outputs m channel = 0 := by
      refine sumInto_eq_zero fun route hroute hdst => ?_
      exact absurd (hdst ▸ hm) (hroutes route hroute).2
    rw [hnone, add_zero]
    rfl
  have hother : ∀ m, m ≠ node →
      (plainProcess ctx p node).outputs m = p.outputs m := by
    intro m hm
    rw [plainProcess, hout]
    exact Function.update_of_ne hm _ _
  constructor
  · intro m channel
    have hsource : sumInto ctx (ctx.graph.sourceRoutes ctx.effects)
        (plainProcess ctx p node).outputs m channel =
        sumInto ctx (ctx.graph.sourceRoutes ctx.effects) p.outputs
          m channel := by
      refine sumInto_congr fun route hroute => hother _ ?_
      rintro rfl
      exact hnode (sourceRoutes_kind hroute)
    have hearlier : sumInto ctx ((ctx.graph.processRoutes ctx.effects).filter
          fun route => route.srcNode ∈ done)
        (plainProcess ctx p node).outputs m channel =
        sumInto ctx ((ctx.graph.processRoutes ctx.effects).filter
          fun route => route.srcNode ∈ done) p.outputs m channel := by
      refine sumInto_congr fun route hroute => hother _ ?_
      rintro rfl
      exact hnew (of_decide_eq_true (List.mem_filter.mp hroute).2)
    have hfilter : (ctx.graph.processRoutes ctx.effects).filter
        (fun route => decide (route.srcNode ∈ done ++ [node])) =
        (ctx.graph.processRoutes ctx.effects).filter
          fun route => decide (route.srcNode ∈ done ∨ route.srcNode = node) :=
      by simp only [List.mem_append, List.mem_singleton]
    have hdisjoint : ∀ route ∈ ctx.graph.processRoutes ctx.effects,
        route.srcNode ∈ done → ¬route.srcNode = node := by
      intro route _ hmem heq
      exact hnew (heq ▸ hmem)
    rw [hfilter, sumInto_filter_or _ _ hdisjoint, hsource, hearlier,
      ← add_assoc, ← h.inputs m channel, plainProcess, hin, hout]
    rfl
  · intro m hm
    rw [hold m hm]
    rcases List.mem_append.mp hm with hd | hd
    · rw [hother m (fun heq => hnew (heq ▸ hd)), h.outputs m hd]
    · rw [List.mem_singleton] at hd
      subst m
      rw [plainProcess, hout]
      exact Function.update_self _ _ _
  · intro m hm
    rw [List.mem_append, List.mem_singleton, not_or] at hm
    rw [hother m hm.2, h.rest m hm.1]

/-- The evaluator solves the equations of the graph. -/
theorem plainBlock_done (h : ctx.NoFeedback) :
    PlainDone ctx (ctx.graph.processNodes ctx.effects) (plainBlock ctx) := by
  refine foldl_processNodes h (plainProcess ctx) (PlainDone ctx) ?_ ?_
  · obtain ⟨hout, hin⟩ := foldl_plainRoute ctx
      (ctx.graph.sourceRoutes ctx.effects) (plainStart ctx)
    constructor
    · intro node channel
      rw [hin, hout]
      simp [plainStart]
    · intro node hnode
      cases hnode
    · intro node _
      rw [hout]
  · intro done node p hnode hnew _ hroutes hp
    exact hp.step (listedProcessNodes_kind (mem_processNodes.mp hnode)) hnew
      hroutes

/-- Every input is the sum over its routes. -/
theorem plainBlock_inputs (h : ctx.NoFeedback) (node channel : Nat) :
    (plainBlock ctx).inputs node channel =
      sumInto ctx (ctx.graph.sourceRoutes ctx.effects ++
        ctx.graph.processRoutes ctx.effects) (plainBlock ctx).outputs
        node channel := by
  have hdone := plainBlock_done h
  rw [hdone.inputs, sumInto_append]
  congr 1
  -- A route out of a node that is not processed carries nothing.
  have hsplit : sumInto ctx ((ctx.graph.processRoutes ctx.effects).filter
      fun r => r.srcNode ∈ ctx.graph.processNodes ctx.effects ∨
        r.srcNode ∉ ctx.graph.processNodes ctx.effects)
      (plainBlock ctx).outputs node channel = _ :=
    sumInto_filter_or _ _ fun _ _ hin hout => hout hin
  have hrest : sumInto ctx ((ctx.graph.processRoutes ctx.effects).filter
      fun r => r.srcNode ∉ ctx.graph.processNodes ctx.effects)
      (plainBlock ctx).outputs node channel = 0 := by
    refine sumInto_eq_zero fun route hroute _ => ?_
    obtain ⟨hmem, hnot⟩ := List.mem_filter.mp hroute
    rw [hdone.rest _ (of_decide_eq_true hnot)]
    exact plainStart_outputs (processRoutes_kind hmem)
  rw [hrest, add_zero] at hsplit
  rw [← hsplit]
  congr 1
  apply List.filter_eq_self.mpr
  intro route _
  exact decide_eq_true (em _)

end Audiox
