import Audiox.Audio.ProcessNode

/-!
# Mixing without copies

The pointers of a block may alias, but a buffer that something points to is
not written any more: an output storage belongs to its node, an input storage
to its input until the node is processed.  So every pointer loads what the
plain evaluator has in its own buffer.
-/

namespace Audiox

open ByteCodec FlowOrder Relation

variable {n : Nat} {R : Type} {ctx : BlockContext n R}
  {start s : RuntimeGraph n R} {p : PlainBuffers n R} {done : List Nat}
  {node : Nat}

/-! ## The invariant -/

/-- A buffer that is not written any more when these nodes have been
processed. -/
def Settled (ctx : BlockContext n R) (done : List Nat) : Buffer → Prop
  | .silence => True
  | .inputStorage node _ => node ∈ done
  | .outputStorage node _ => node ∈ done ∨ ctx.nodeKind node = some .source

theorem Settled.mono {done' : List Nat} (h : done ⊆ done') {buffer : Buffer}
    (hsettled : Settled ctx done buffer) : Settled ctx done' buffer := by
  cases buffer with
  | silence => trivial
  | inputStorage node channel => exact h hsettled
  | outputStorage node channel => exact hsettled.imp (fun hd => h hd) id

theorem noteControls_silent
    (h : s.silentEffectChannels node = start.silentEffectChannels node ∧
      s.processedEffectType node = start.processedEffectType node ∧
      s.processedEffectEnabled node = start.processedEffectEnabled node) :
    (noteControls ctx s node).silentEffectChannels node =
      (noteControls ctx start node).silentEffectChannels node := by
  unfold noteControls
  simp only [h.2.1, h.2.2]
  split
  · simp
  · exact h.1

theorem restsOnSilence_congr
    (h : s.silentEffectChannels node = start.silentEffectChannels node ∧
      s.processedEffectType node = start.processedEffectType node ∧
      s.processedEffectEnabled node = start.processedEffectEnabled node) :
    restsOnSilence ctx s node = restsOnSilence ctx start node := by
  funext channel
  rw [restsOnSilence, noteControls_silent h, restsOnSilence]

theorem foldl_renderSourceNode (ctx : BlockContext n R) (l : List Nat)
    (s : RuntimeGraph n R) :
    l.foldl (renderSourceNode ctx) s = { s with
      memory := fun buffer =>
        match buffer with
        | .outputStorage m channel =>
            if m ∈ l ∧ channel < ctx.outputChannels m then
              ctx.rendered m channel
            else s.memory buffer
        | _ => s.memory buffer } := by
  induction l generalizing s with
  | nil =>
      have hmemory : s.memory = fun buffer =>
          match buffer with
          | .outputStorage m channel =>
              if m ∈ [] ∧ channel < ctx.outputChannels m then
                ctx.rendered m channel
              else s.memory buffer
          | _ => s.memory buffer := by
        funext buffer
        cases buffer <;> simp
      rw [List.foldl_nil, ← hmemory]
  | cons node l ih =>
      rw [List.foldl_cons, ih]
      simp only [renderSourceNode]
      congr 1
      funext buffer
      cases buffer with
      | silence => rfl
      | inputStorage m channel => rfl
      | outputStorage m channel =>
          by_cases hm : m = node
          · subst m
            by_cases hc : channel < ctx.outputChannels node <;> simp [hc]
          · simp [hm]

variable [Semiring R] [DecidableEq R]

/-- The pointers of a block against the buffers of the plain evaluator. -/
structure Mixed (ctx : BlockContext n R) (start : RuntimeGraph n R)
    (done : List Nat) (s : RuntimeGraph n R) (p : PlainBuffers n R) : Prop where
  silence : s.memory .silence = 0
  inputs : ∀ node channel, nodeBlocksInput ctx node = false →
    s.memory (s.inputs node channel) = p.inputs node channel
  outputs : ∀ node channel,
    s.memory (s.outputs node channel) = p.outputs node channel
  fresh : ∀ node channel, s.inputContributionCount node channel = 0 →
    s.inputs node channel = .silence
  inputPointers : ∀ node channel, Settled ctx done (s.inputs node channel) ∨
    s.inputs node channel = .inputStorage node channel
  outputPointers : ∀ node channel, Settled ctx done (s.outputs node channel)
  rest : ∀ node, node ∉ done → ctx.nodeKind node ≠ some .source →
    ∀ channel, s.outputs node channel = .silence
  controls : ∀ node, node ∉ done →
    s.silentEffectChannels node = start.silentEffectChannels node ∧
      s.processedEffectType node = start.processedEffectType node ∧
      s.processedEffectEnabled node = start.processedEffectEnabled node
  log : ∀ node channel, s.processed.count (node, channel) =
    start.processed.count (node, channel) +
      if node ∈ done ∧ EffectRuns ctx start node (p.inputs node) channel
      then 1 else 0

/-! ## Routes -/

/-- A contribution is put into a buffer that nothing else points to, or a
settled one is pointed to. -/
theorem Mixed.contribute (h : Mixed ctx start done s p)
    {route : CompiledRoute} (hdst : route.dstNode ∉ done)
    {memory : Buffer → Block n R} {ptr : Buffer} {count : Nat}
    (hptr : Settled ctx done ptr ∨
      ptr = .inputStorage route.dstNode route.dstChannel)
    (hmemory : ∀ buffer,
      buffer ≠ .inputStorage route.dstNode route.dstChannel →
        memory buffer = s.memory buffer)
    (hload : memory ptr = s.memory (s.inputs route.dstNode route.dstChannel) +
      contribution ctx p.outputs route)
    (hcount : count ≠ 0) :
    Mixed ctx start done
      { s with
        memory := memory
        inputs := updateChannel s.inputs route.dstNode route.dstChannel ptr
        inputContributionCount := updateChannel s.inputContributionCount
          route.dstNode route.dstChannel count }
      (plainRoute ctx p route) := by
  -- The storage that may be written is not settled.
  have hsettled : ∀ buffer, Settled ctx done buffer →
      memory buffer = s.memory buffer := by
    intro buffer hbuffer
    apply hmemory
    rintro rfl
    exact hdst hbuffer
  constructor
  · exact (hsettled .silence trivial).trans h.silence
  · intro m c hopen
    simp only [plainRoute, updateChannel_apply]
    split
    next heq =>
      obtain ⟨rfl, rfl⟩ := heq
      rw [hload, h.inputs _ _ hopen]
    next hne =>
      rw [← h.inputs m c hopen]
      rcases h.inputPointers m c with hin | hin
      · exact hsettled _ hin
      · apply hmemory
        rw [hin]
        rintro ⟨⟩
        exact hne ⟨rfl, rfl⟩
  · intro m c
    exact (hsettled _ (h.outputPointers m c)).trans (h.outputs m c)
  · intro m c
    simp only [updateChannel_apply]
    split
    · intro hzero
      exact absurd hzero hcount
    · exact h.fresh m c
  · intro m c
    simp only [updateChannel_apply]
    split
    next heq =>
      obtain ⟨rfl, rfl⟩ := heq
      exact hptr
    · exact h.inputPointers m c
  · exact h.outputPointers
  · exact h.rest
  · exact h.controls
  · intro m c
    rw [h.log m c]
    congr 1
    by_cases hm : m ∈ done
    · have hsame : (plainRoute ctx p route).inputs m = p.inputs m := by
        funext d
        simp only [plainRoute, updateChannel_apply]
        rw [if_neg]
        rintro ⟨rfl, -⟩
        exact hdst hm
      rw [hsame]
    · simp only [hm, false_and]

/-- A route that is not taken contributes nothing that is heard. -/
theorem Mixed.skip (h : Mixed ctx start done s p) {route : CompiledRoute}
    (hdst : route.dstNode ∉ done)
    (hskip : ctx.nodeGain route.srcNode = 0 ∨
      s.outputs route.srcNode route.srcChannel = .silence ∨
      nodeBlocksInput ctx route.dstNode = true) :
    Mixed ctx start done s (plainRoute ctx p route) := by
  have hsame : ∀ m c, ¬(m = route.dstNode ∧ c = route.dstChannel) →
      (plainRoute ctx p route).inputs m c = p.inputs m c := by
    intro m c hne
    simp only [plainRoute, updateChannel_apply]
    rw [if_neg hne]
  constructor
  · exact h.silence
  · intro m c hopen
    by_cases heq : m = route.dstNode ∧ c = route.dstChannel
    · obtain ⟨rfl, rfl⟩ := heq
      have hzero : contribution ctx p.outputs route = 0 := by
        funext frame
        rw [contribution]
        rcases hskip with hgain | hsilence | hblocks
        · rw [hgain]
          exact mul_zero _
        · rw [← h.outputs, hsilence, h.silence]
          exact zero_mul _
        · rw [hopen] at hblocks
          cases hblocks
      rw [h.inputs _ _ hopen]
      simp [plainRoute, updateChannel_apply, hzero]
    · rw [hsame m c heq, h.inputs m c hopen]
  · exact h.outputs
  · exact h.fresh
  · exact h.inputPointers
  · exact h.outputPointers
  · exact h.rest
  · exact h.controls
  · intro m c
    rw [h.log m c]
    congr 1
    by_cases hm : m ∈ done
    · have hinputs : (plainRoute ctx p route).inputs m = p.inputs m :=
        funext fun d => hsame m d fun heq => hdst (heq.1 ▸ hm)
      rw [hinputs]
    · simp only [hm, false_and]

theorem Mixed.route (h : Mixed ctx start done s p) {route : CompiledRoute}
    (hdst : route.dstNode ∉ done) :
    Mixed ctx start done (routeCompiledEdge ctx s route)
      (plainRoute ctx p route) := by
  unfold routeCompiledEdge
  simp only
  split
  next hskip => exact h.skip hdst hskip
  have hsrc := h.outputPointers route.srcNode route.srcChannel
  have hload := h.outputs route.srcNode route.srcChannel
  have hapart : s.outputs route.srcNode route.srcChannel ≠
      .inputStorage route.dstNode route.dstChannel := by
    intro heq
    rw [heq] at hsrc
    exact hdst hsrc
  split
  next hfirst =>
    have hempty : s.memory (s.inputs route.dstNode route.dstChannel) = 0 := by
      rw [h.fresh _ _ hfirst, h.silence]
    split
    next hone =>
      apply h.contribute hdst (.inl hsrc) (fun _ _ => rfl) _ Nat.one_ne_zero
      rw [hempty, zero_add, hload]
      funext frame
      rw [contribution, hone, mul_one]
    · apply h.contribute hdst (.inr rfl) _ _ Nat.one_ne_zero
      · intro buffer hbuffer
        exact Function.update_of_ne hbuffer _ _
      · rw [Function.update_self, hempty, zero_add, hload]
        rfl
  next hmore =>
    apply h.contribute hdst (.inr rfl)
    · intro buffer hbuffer
      rw [Function.update_of_ne hbuffer]
      split
      · exact Function.update_of_ne hbuffer _ _
      · rfl
    · have hcopied : (if s.inputs route.dstNode route.dstChannel ≠
            .inputStorage route.dstNode route.dstChannel then
          Function.update s.memory
            (.inputStorage route.dstNode route.dstChannel)
            (s.memory (s.inputs route.dstNode route.dstChannel))
          else s.memory) (.inputStorage route.dstNode route.dstChannel) =
          s.memory (s.inputs route.dstNode route.dstChannel) := by
        split
        · exact Function.update_self _ _ _
        next heq => rw [Decidable.not_not.mp heq]
      have hkept : (if s.inputs route.dstNode route.dstChannel ≠
            .inputStorage route.dstNode route.dstChannel then
          Function.update s.memory
            (.inputStorage route.dstNode route.dstChannel)
            (s.memory (s.inputs route.dstNode route.dstChannel))
          else s.memory) (s.outputs route.srcNode route.srcChannel) =
          p.outputs route.srcNode route.srcChannel := by
        rw [← hload]
        split
        · exact Function.update_of_ne hapart _ _
        · rfl
      rw [Function.update_self, hcopied, hkept]
      funext frame
      rw [Pi.add_apply, contribution]
      split
      next hone => rw [hone, mul_one]
      · rfl
    · split
      · exact Nat.succ_ne_zero _
      · exact hmore

theorem Mixed.routes {routes : List CompiledRoute}
    (h : Mixed ctx start done s p)
    (hdst : ∀ route ∈ routes, route.dstNode ∉ done) :
    Mixed ctx start done (routes.foldl (routeCompiledEdge ctx) s)
      (routes.foldl (plainRoute ctx) p) := by
  induction routes generalizing s p with
  | nil => exact h
  | cons route routes ih =>
      exact ih (h.route (hdst route (by simp)))
        fun r hr => hdst r (List.mem_cons_of_mem _ hr)

/-! ## Nodes -/

/-- A node that blocks its input makes nothing of it. -/
theorem nodeOutput_congr {inputs inputs' : Nat → Block n R}
    (h : nodeBlocksInput ctx node = false → inputs = inputs') :
    nodeOutput ctx node inputs = nodeOutput ctx node inputs' := by
  cases hblocks : nodeBlocksInput ctx node with
  | false => rw [h hblocks]
  | true =>
      have heffect : ctx.nodeKind node = some .effect := by
        simp only [nodeBlocksInput, Bool.and_eq_true, decide_eq_true_eq]
          at hblocks
        exact hblocks.1.1
      funext channel
      simp [nodeOutput, heffect, hblocks]

theorem effectRuns_congr {inputs inputs' : Nat → Block n R} (channel : Nat)
    (hcontrols : restsOnSilence ctx s node = restsOnSilence ctx start node)
    (h : nodeBlocksInput ctx node = false → inputs = inputs') :
    EffectRuns ctx s node inputs channel ↔
      EffectRuns ctx start node inputs' channel := by
  unfold EffectRuns
  rw [hcontrols]
  constructor
  · rintro ⟨heffect, hopen, hrest⟩
    exact ⟨heffect, hopen, h hopen ▸ hrest⟩
  · rintro ⟨heffect, hopen, hrest⟩
    exact ⟨heffect, hopen, h hopen ▸ hrest⟩

theorem Mixed.process (h : Mixed ctx start done s p)
    (hrelied : SilenceRelied ctx start)
    (hkind : ctx.nodeKind node ≠ some .source) (hnew : node ∉ done) :
    Mixed ctx start (done ++ [node]) (processNode ctx s node)
      (plainNode ctx p node) := by
  have hcontrols : restsOnSilence ctx s node = restsOnSilence ctx start node :=
    restsOnSilence_congr (h.controls node hnew)
  -- Nothing points to the output storage of the node yet.
  have hunsettled : ∀ d, ¬Settled ctx done (.outputStorage node d) := by
    intro d hsettled
    exact hsettled.elim hnew hkind
  have hinput : ∀ m c d, s.inputs m c ≠ .outputStorage node d := by
    intro m c d heq
    rcases h.inputPointers m c with hin | hin
    · rw [heq] at hin
      exact hunsettled d hin
    · rw [heq] at hin
      cases hin
  have houtput : ∀ m c d, s.outputs m c ≠ .outputStorage node d := by
    intro m c d heq
    have hsettled := h.outputPointers m c
    rw [heq] at hsettled
    exact hunsettled d hsettled
  have hspec : NodeProcessed ctx node s (processNode ctx s node) := by
    apply nodeProcessed_processNode h.silence (h.rest node hnew hkind)
      (hinput node)
    intro c hrests
    rw [hcontrols] at hrests
    exact hrelied node c hrests
  have hloads : nodeBlocksInput ctx node = false →
      (fun c => s.memory (s.inputs node c)) = p.inputs node := by
    intro hopen
    funext c
    exact h.inputs node c hopen
  have hsub : done ⊆ done ++ [node] := List.subset_append_left _ _
  generalize processNode ctx s node = s' at hspec ⊢
  constructor
  · rw [hspec.memory _ (by simp), h.silence]
  · intro m c hopen
    rw [hspec.inputs, hspec.memory _ (hinput m c)]
    exact h.inputs m c hopen
  · intro m c
    by_cases hm : m = node
    · subst m
      rw [hspec.loads, nodeOutput_congr hloads]
      simp [plainNode]
    · rw [hspec.others m hm, hspec.memory _ (houtput m c), h.outputs]
      simp [plainNode, hm]
  · intro m c hzero
    rw [hspec.counts] at hzero
    rw [hspec.inputs]
    exact h.fresh m c hzero
  · intro m c
    rw [hspec.inputs]
    exact (h.inputPointers m c).imp (Settled.mono hsub) id
  · intro m c
    by_cases hm : m = node
    · subst m
      rcases hspec.pointers c with hp | hp | hp
      · rw [hp]
        trivial
      · rw [hp]
        exact .inl (by simp)
      · rw [hp]
        rcases h.inputPointers node c with hin | hin
        · exact hin.mono hsub
        · rw [hin]
          show node ∈ done ++ [node]
          simp
    · rw [hspec.others m hm]
      exact (h.outputPointers m c).mono hsub
  · intro m hm hsource c
    rw [List.mem_append, List.mem_singleton, not_or] at hm
    rw [hspec.others m hm.2]
    exact h.rest m hm.1 hsource c
  · intro m hm
    rw [List.mem_append, List.mem_singleton, not_or] at hm
    obtain ⟨hsilent, htype, henabled⟩ := hspec.controls m hm.2
    rw [hsilent, htype, henabled]
    exact h.controls m hm.1
  · intro m c
    rw [hspec.log m c, h.log m c, Nat.add_assoc]
    congr 1
    by_cases hm : m = node
    · subst m
      have hiff := effectRuns_congr c hcontrols hloads
      simp only [hnew, false_and, if_false, Nat.zero_add, true_and, hiff,
        List.mem_append, List.mem_singleton, or_true]
      rfl
    · simp only [hm, false_and, if_false, Nat.add_zero, List.mem_append,
        List.mem_singleton, or_false]
      rfl

/-! ## The start of a block -/

/-- Before the first route every source has been rendered, and all else is
silent. -/
theorem mixed_start (hsilence : start.memory .silence = 0) :
    Mixed ctx start []
      ((ctx.graph.sourceNodes ctx.effects).foldl (renderSourceNode ctx)
        (clearRuntimeBuffers ctx start)) (plainStart ctx) := by
  rw [foldl_renderSourceNode]
  constructor
  · exact hsilence
  · intro node channel _
    exact hsilence
  · intro node channel
    simp only [clearRuntimeBuffers, plainStart]
    by_cases hsource : ctx.nodeKind node = some .source
    · have hmem : node ∈ ctx.graph.sourceNodes ctx.effects :=
        mem_sourceNodes.mpr hsource
      simp only [hsource, if_true, true_and, hmem]
      rfl
    · simp only [hsource, if_false, false_and]
      exact hsilence
  · intro node channel _
    rfl
  · intro node channel
    exact .inl trivial
  · intro node channel
    simp only [clearRuntimeBuffers]
    split
    next hsource => exact .inr hsource
    · trivial
  · intro node _ hsource channel
    simp only [clearRuntimeBuffers, if_neg hsource]
  · intro node _
    exact ⟨rfl, rfl, rfl⟩
  · simp [clearRuntimeBuffers]

/-! ## The block -/

theorem processGraphBlock_mixed (hsilence : start.memory .silence = 0)
    (hacyclic : ctx.NoFeedback) (hrelied : SilenceRelied ctx start) :
    Mixed ctx start (ctx.graph.processNodes ctx.effects)
      (processGraphBlock ctx start) (plainBlock ctx) := by
  have hsources : Mixed ctx start []
      ((ctx.graph.sourceRoutes ctx.effects).foldl (routeCompiledEdge ctx)
        ((ctx.graph.sourceNodes ctx.effects).foldl (renderSourceNode ctx)
          (clearRuntimeBuffers ctx start)))
      ((ctx.graph.sourceRoutes ctx.effects).foldl (plainRoute ctx)
        (plainStart ctx)) := by
    apply (mixed_start hsilence).routes
    simp
  -- Both evaluators run in step.
  have hpair := foldl_processNodes hacyclic
    (fun (st : RuntimeGraph n R × PlainBuffers n R) node =>
      (processAndRoute ctx st.1 node, plainProcess ctx st.2 node))
    (fun done st => Mixed ctx start done st.1 st.2)
    (s := (_, _)) hsources ?_
  · rw [List.foldl_hom₂ _ Prod.mk (processAndRoute ctx) (plainProcess ctx)]
      at hpair
    · exact hpair
    · exact fun _ _ _ => rfl
  · intro done node st hnode hnew _ hroutes hmixed
    have hbounds := routesFrom_bounds ctx.graph ctx.effects isProcessKind
    have hindex : ctx.routeIndex.routesOf node =
        routesFromNode (ctx.graph.processRoutes ctx.effects) node :=
      routesOf_eq hbounds.1 hbounds.2 node
    simp only [processAndRoute, plainProcess, hindex]
    have hkind := listedProcessNodes_kind (mem_processNodes.mp hnode)
    apply (hmixed.process hrelied hkind hnew).routes
    exact fun route hroute => (hroutes route hroute).2

/-- A block leaves at every output, and at every input that is not blocked,
what the plain evaluator computes, which solves the equations of the graph;
and every effect is run once, or left out on a silent channel. -/
theorem processGraphBlock_plain (hsilence : start.memory .silence = 0)
    (hacyclic : ctx.NoFeedback) (hrelied : SilenceRelied ctx start) :
    let s := processGraphBlock ctx start
    let p := plainBlock ctx
    (∀ node channel, s.memory (s.outputs node channel) =
        p.outputs node channel) ∧
      (∀ node channel, nodeBlocksInput ctx node = false →
        s.memory (s.inputs node channel) = p.inputs node channel) ∧
      (∀ node channel, p.inputs node channel =
        sumInto ctx (ctx.graph.sourceRoutes ctx.effects ++
          ctx.graph.processRoutes ctx.effects) p.outputs node channel) ∧
      (∀ node ∈ ctx.graph.processNodes ctx.effects,
        p.outputs node = nodeOutput ctx node (p.inputs node)) ∧
      (∀ node channel, s.processed.count (node, channel) =
        start.processed.count (node, channel) +
          if node ∈ ctx.graph.processNodes ctx.effects ∧
            EffectRuns ctx start node (p.inputs node) channel then 1 else 0) ∧
      s.memory .silence = 0 := by
  intro s p
  have hmixed : Mixed ctx start (ctx.graph.processNodes ctx.effects) s p :=
    processGraphBlock_mixed hsilence hacyclic hrelied
  have hplain := plainBlock_done hacyclic
  exact ⟨hmixed.outputs, hmixed.inputs, plainBlock_inputs hacyclic,
    hplain.outputs, hmixed.log, hmixed.silence⟩

/-! ## A source, an effect and a sink -/

def lineGraph : AudioGraphState where
  things := [⟨ascii "mic_in", 0, 1⟩, ⟨ascii "fx_1", 1, 1⟩,
    ⟨ascii "speaker", 1, 0⟩]
  edges := [⟨ascii "mic_in", ascii "fx_1", 0, 0⟩,
    ⟨ascii "fx_1", ascii "speaker", 0, 0⟩]
  thingCount_le := by decide
  edgeCount_le := by decide

/-- A source that plays ones, an effect that doubles, and a sink. -/
def lineContext (type : EffectType) : BlockContext 1 Int where
  graph := lineGraph
  effects := fun id => id = ascii "fx_1"
  nodeGain := fun _ => 1
  params := fun _ => ⟨type, true, 1, none⟩
  rendered := fun _ _ _ => 1
  slotNeedsSilentProcessing := fun _ _ => false
  processSlot := fun _ _ input frame => 2 * input frame

def lineStart : RuntimeGraph 1 Int where
  memory := fun _ => 0
  inputs := fun _ _ => .silence
  outputs := fun _ _ => .silence
  inputContributionCount := fun _ _ => 0
  silentEffectChannels := fun _ _ => false
  processedEffectType := fun _ => .builtin
  processedEffectEnabled := fun _ => true
  processed := []

theorem lineContext_noFeedback (type : EffectType) :
    (lineContext type).NoFeedback := by
  have hnodes : lineGraph.listedProcessNodes (fun id => id = ascii "fx_1") =
      [1] := by decide
  have hroutes : lineGraph.processRoutes (fun id => id = ascii "fx_1") =
      [⟨1, 2, 0, 0⟩] := by decide
  intro x hcycle
  obtain ⟨y, hstep, -⟩ := TransGen.head'_iff.mp hcycle
  obtain ⟨route, hroute, -, hdst, -, hy⟩ := hstep
  have hroute' : route ∈ [(⟨1, 2, 0, 0⟩ : CompiledRoute)] := hroutes ▸ hroute
  have hy' : y ∈ [1] := hnodes ▸ hy
  rw [List.mem_singleton] at hroute' hy'
  subst hroute' hy'
  cases hdst

theorem lineContext_silenceRelied (type : EffectType) :
    SilenceRelied (lineContext type) lineStart := by
  intro node channel _
  exact funext fun _ => mul_zero 2

theorem processGraphBlock_plain_line :
    let s := processGraphBlock (lineContext .builtin) lineStart
    s.memory (s.inputs 2 0) = (plainBlock (lineContext .builtin)).inputs 2 0 ∧
      (plainBlock (lineContext .builtin)).inputs 2 0 0 = 2 := by
  have hplain := processGraphBlock_plain rfl
    (lineContext_noFeedback .builtin) (lineContext_silenceRelied .builtin)
  exact ⟨hplain.2.1 2 0 (by decide), by decide⟩

/-- The input of a cut stays silent, although a route brings ones. -/
theorem blocked_input_silent :
    let ctx := lineContext .cut
    let s := processGraphBlock ctx lineStart
    lineStart.memory .silence = 0 ∧ ctx.NoFeedback ∧
      SilenceRelied ctx lineStart ∧
      ¬∀ node channel, s.memory (s.inputs node channel) =
        sumInto ctx (ctx.graph.sourceRoutes ctx.effects ++
          ctx.graph.processRoutes ctx.effects)
          (fun node channel => s.memory (s.outputs node channel))
          node channel := by
  refine ⟨rfl, lineContext_noFeedback .cut, lineContext_silenceRelied .cut, ?_⟩
  intro h
  exact absurd (congrFun (h 1 0) 0) (by decide)

end Audiox
