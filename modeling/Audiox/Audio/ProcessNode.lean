import Audiox.Audio.PlainMix

/-!
# What processing a node does

Each way to process a node is summed up once: the node's outputs load what its
effect makes of its inputs, through pointers to silence, to its own storage or
to its inputs, and nothing else is changed.
-/

namespace Audiox

open FlowOrder

variable {n : Nat} {R : Type} {ctx : BlockContext n R}
  {rt s : RuntimeGraph n R} {node channel : Nat}

/-! ## Pointers -/

theorem updateChannel_apply {α : Type} (f : Nat → Nat → α)
    (node channel : Nat) (a : α) (m c : Nat) :
    updateChannel f node channel a m c =
      if m = node ∧ c = channel then a else f m c := by
  rw [updateChannel]
  by_cases hm : m = node
  · subst m
    rw [Function.update_self]
    by_cases hc : c = channel
    · subst c
      simp
    · rw [Function.update_of_ne hc, if_neg (fun h => hc h.2)]
  · rw [Function.update_of_ne hm, if_neg (fun h => hm h.1)]

theorem updateChannel_self {α : Type} (f : Nat → Nat → α)
    (node channel : Nat) (a : α) (c : Nat) :
    updateChannel f node channel a node c =
      if c = channel then a else f node c := by
  rw [updateChannel_apply]
  simp only [true_and]

theorem BlockContext.channels_le :
    ctx.channels node ≤ ctx.outputChannels node := by
  unfold channels outputChannels
  split
  · exact min_le_right _ _
  · exact Nat.le_refl _

/-- Noting the controls of a node only concerns the controls of the node. -/
structure ControlsNoted (node : Nat) (rt s : RuntimeGraph n R) : Prop where
  memory : s.memory = rt.memory
  inputs : s.inputs = rt.inputs
  outputs : s.outputs = rt.outputs
  counts : s.inputContributionCount = rt.inputContributionCount
  processed : s.processed = rt.processed
  controls : ∀ m, m ≠ node →
    s.silentEffectChannels m = rt.silentEffectChannels m ∧
      s.processedEffectType m = rt.processedEffectType m ∧
      s.processedEffectEnabled m = rt.processedEffectEnabled m

theorem ControlsNoted.refl : ControlsNoted node rt rt :=
  ⟨rfl, rfl, rfl, rfl, rfl, fun _ _ => ⟨rfl, rfl, rfl⟩⟩

theorem controlsNoted_noteControls :
    ControlsNoted node rt (noteControls ctx rt node) := by
  unfold noteControls
  simp only
  split
  · constructor
    · rfl
    · rfl
    · rfl
    · rfl
    · rfl
    · intro m hm
      exact ⟨Function.update_of_ne hm _ _, Function.update_of_ne hm _ _,
        Function.update_of_ne hm _ _⟩
  · exact .refl

/-- The pointers of a node that passes its inputs on. -/
def passPointers (ctx : BlockContext n R) (rt : RuntimeGraph n R) (node : Nat) :
    Nat → Buffer := fun channel =>
  if channel < ctx.channels node then rt.inputs node channel else .silence

/-- The outputs that lie outside of the channels are silent. -/
theorem setOutputs_rest (hnew : ∀ channel, rt.outputs node channel = .silence)
    (houtputs : s.outputs = rt.outputs) (f : Nat → Buffer) (last : Nat) :
    setOutputs (setOutputs s node 0 (ctx.channels node) f) node
        (ctx.channels node) last (fun _ => .silence) =
      { s with outputs := Function.update rt.outputs node fun channel =>
          if channel < ctx.channels node then f channel else .silence } := by
  simp only [setOutputs, houtputs, Function.update_idem, Function.update_self]
  congr 2
  funext channel
  by_cases hin : channel < ctx.channels node
  · rw [if_neg (by omega), if_pos ⟨Nat.zero_le _, hin⟩, if_pos hin]
  · have hout : ¬(0 ≤ channel ∧ channel < ctx.channels node) :=
      fun h => hin h.2
    rw [if_neg hin, if_neg hout, hnew, ite_self]

/-- Silent outputs of a node that had none. -/
theorem setOutputs_silence (hnew : ∀ channel, rt.outputs node channel = .silence)
    (houtputs : s.outputs = rt.outputs) (last : Nat) :
    setOutputs s node 0 last (fun _ => .silence) =
      { s with outputs :=
          Function.update rt.outputs node fun _ => .silence } := by
  simp only [setOutputs, houtputs]
  congr 2
  funext channel
  rw [hnew, ite_self]

/-! ## Silence -/

variable [Semiring R]

theorem passPointers_load (hsilence : rt.memory .silence = 0) :
    rt.memory (passPointers ctx rt node channel) =
      if channel < ctx.channels node then
        rt.memory (rt.inputs node channel) else 0 := by
  rw [passPointers]
  split
  · rfl
  · exact hsilence

variable [DecidableEq R]

theorem channelIsSilent_iff (h : rt.memory .silence = 0) :
    channelIsSilent rt node channel ↔
      rt.memory (rt.inputs node channel) = 0 := by
  rw [channelIsSilent, Bool.or_eq_true, decide_eq_true_eq, decide_eq_true_eq]
  constructor
  · rintro (hsilence | hzero)
    · rw [hsilence, h]
    · exact funext hzero
  · intro hzero
    exact .inr fun frame => congrFun hzero frame

/-- An effect may be left out on a silent channel. -/
def restsOnSilence (ctx : BlockContext n R) (rt : RuntimeGraph n R)
    (node channel : Nat) : Bool :=
  (noteControls ctx rt node).silentEffectChannels node channel ||
    !ctx.slotNeedsSilentProcessing node channel

/-- The effect of a node is run on a channel with these inputs. -/
def EffectRuns (ctx : BlockContext n R) (rt : RuntimeGraph n R) (node : Nat)
    (inputs : Nat → Block n R) (channel : Nat) : Prop :=
  ctx.nodeKind node = some .effect ∧ nodeBlocksInput ctx node = false ∧
    (ctx.params node).enabled = true ∧ channel < ctx.channels node ∧
    if (ctx.params node).type = .plugin then
      (ctx.params node).pluginHost.isSome = true
    else ¬(inputs channel = 0 ∧ restsOnSilence ctx rt node channel)

instance (inputs : Nat → Block n R) :
    Decidable (EffectRuns ctx rt node inputs channel) :=
  inferInstanceAs (Decidable (_ ∧ _))

/-- An effect that is left out on a silent channel would make nothing of
silence. -/
def SilenceRelied (ctx : BlockContext n R) (rt : RuntimeGraph n R) : Prop :=
  ∀ node channel, restsOnSilence ctx rt node channel →
    ctx.processSlot node channel 0 = 0

/-! ## One node -/

/-- All that processing a node does. -/
structure NodeProcessed (ctx : BlockContext n R) (node : Nat)
    (rt s : RuntimeGraph n R) : Prop where
  inputs : s.inputs = rt.inputs
  counts : s.inputContributionCount = rt.inputContributionCount
  memory : ∀ buffer, (∀ channel, buffer ≠ .outputStorage node channel) →
    s.memory buffer = rt.memory buffer
  others : ∀ m, m ≠ node → s.outputs m = rt.outputs m
  pointers : ∀ channel, s.outputs node channel = .silence ∨
    s.outputs node channel = .outputStorage node channel ∨
    s.outputs node channel = rt.inputs node channel
  loads : ∀ channel, s.memory (s.outputs node channel) =
    nodeOutput ctx node (fun channel => rt.memory (rt.inputs node channel))
      channel
  controls : ∀ m, m ≠ node →
    s.silentEffectChannels m = rt.silentEffectChannels m ∧
      s.processedEffectType m = rt.processedEffectType m ∧
      s.processedEffectEnabled m = rt.processedEffectEnabled m
  log : ∀ m channel, s.processed.count (m, channel) =
    rt.processed.count (m, channel) +
      if m = node ∧ EffectRuns ctx rt node
          (fun channel => rt.memory (rt.inputs node channel)) channel
      then 1 else 0

/-- The channels of a node below a bound have been processed. -/
structure ChannelsProcessed (ctx : BlockContext n R) (node bound : Nat)
    (rt s : RuntimeGraph n R) : Prop where
  inputs : s.inputs = rt.inputs
  counts : s.inputContributionCount = rt.inputContributionCount
  memory : ∀ buffer, (∀ channel, buffer ≠ .outputStorage node channel) →
    s.memory buffer = rt.memory buffer
  others : ∀ m channel, ¬(m = node ∧ channel < bound) →
    s.outputs m channel = rt.outputs m channel
  pointers : ∀ channel < bound, s.outputs node channel = .silence ∨
    s.outputs node channel = .outputStorage node channel
  loads : ∀ channel < bound, s.memory (s.outputs node channel) =
    ctx.processSlot node channel (rt.memory (rt.inputs node channel))
  controls : ∀ m, m ≠ node →
    s.silentEffectChannels m = rt.silentEffectChannels m
  kept : ∀ channel, bound ≤ channel → s.silentEffectChannels node channel =
    rt.silentEffectChannels node channel
  types : s.processedEffectType = rt.processedEffectType ∧
    s.processedEffectEnabled = rt.processedEffectEnabled
  log : ∀ m channel, s.processed.count (m, channel) =
    rt.processed.count (m, channel) +
      if m = node ∧ channel < bound ∧
        ¬(rt.memory (rt.inputs node channel) = 0 ∧
          (rt.silentEffectChannels node channel ||
            !ctx.slotNeedsSilentProcessing node channel))
      then 1 else 0

theorem ChannelsProcessed.zero : ChannelsProcessed ctx node 0 rt rt := by
  constructor
  · rfl
  · rfl
  · exact fun _ _ => rfl
  · exact fun _ _ _ => rfl
  · exact fun _ h => absurd h (Nat.not_lt_zero _)
  · exact fun _ h => absurd h (Nat.not_lt_zero _)
  · exact fun _ _ => rfl
  · exact fun _ _ => rfl
  · exact ⟨rfl, rfl⟩
  · simp

/-- One channel more.  No input of the node points to its own output
storage. -/
theorem ChannelsProcessed.step (h : ChannelsProcessed ctx node channel rt s)
    (hsilence : rt.memory .silence = 0)
    (hinput : ∀ c d, rt.inputs node c ≠ .outputStorage node d)
    (hrelied : ∀ c, (rt.silentEffectChannels node c ||
      !ctx.slotNeedsSilentProcessing node c) = true →
        ctx.processSlot node c 0 = 0) :
    ChannelsProcessed ctx node (channel + 1) rt
      (processEffectChannel ctx node s channel) := by
  have hload : s.memory (s.inputs node channel) =
      rt.memory (rt.inputs node channel) := by
    rw [h.inputs]
    exact h.memory _ fun d => hinput channel d
  have hsilent : channelIsSilent s node channel = true ↔
      rt.memory (rt.inputs node channel) = 0 := by
    have hs : s.memory .silence = 0 := by
      rw [h.memory _ (by simp), hsilence]
    rw [channelIsSilent_iff hs, hload]
  have hbit := h.kept channel (Nat.le_refl _)
  have hbound : ∀ c, c < channel + 1 ↔ c < channel ∨ c = channel :=
    fun c => Nat.lt_succ_iff_lt_or_eq
  unfold processEffectChannel
  by_cases hskip : rt.memory (rt.inputs node channel) = 0 ∧
      (rt.silentEffectChannels node channel ||
        !ctx.slotNeedsSilentProcessing node channel) = true
  · rw [if_pos (by rw [hbit, Bool.and_eq_true, hsilent]; exact hskip)]
    constructor
    · exact h.inputs
    · exact h.counts
    · exact h.memory
    · intro m c hout
      simp only [updateChannel_apply]
      rw [if_neg (fun heq => hout (by omega))]
      exact h.others m c fun hin => hout (by omega)
    · intro c hc
      simp only [updateChannel_self]
      split
      · exact .inl rfl
      · exact h.pointers c (by omega)
    · intro c hc
      simp only [updateChannel_self]
      split
      next heq =>
        subst c
        rw [hskip.1, hrelied channel hskip.2, h.memory _ (by simp), hsilence]
      · exact h.loads c (by omega)
    · intro m hm
      funext c
      simp only [updateChannel_apply]
      rw [if_neg (fun heq => hm heq.1), h.controls m hm]
    · intro c hc
      simp only [updateChannel_self]
      rw [if_neg (by omega)]
      exact h.kept c (by omega)
    · exact h.types
    · intro m c
      rw [h.log m c]
      congr 1
      by_cases heq : c = channel
      · subst c
        simp [hskip]
      · have hiff : c < channel + 1 ↔ c < channel := by omega
        simp only [hiff]
  · rw [if_neg (by rw [hbit, Bool.and_eq_true, hsilent]; exact hskip)]
    constructor
    · exact h.inputs
    · exact h.counts
    · intro buffer hbuffer
      have hother := Function.update_of_ne (hbuffer channel)
        (ctx.processSlot node channel (s.memory (s.inputs node channel)))
        s.memory
      exact hother.trans (h.memory buffer hbuffer)
    · intro m c hout
      simp only [updateChannel_apply]
      rw [if_neg (fun heq => hout (by omega))]
      exact h.others m c fun hin => hout (by omega)
    · intro c hc
      simp only [updateChannel_self]
      split
      next heq => exact .inr (by rw [heq])
      · exact h.pointers c (by omega)
    · intro c hc
      simp only [updateChannel_self]
      split
      next heq =>
        subst c
        rw [Function.update_self, hload]
      next hne =>
        have hold : c < channel := by omega
        rw [Function.update_of_ne]
        · exact h.loads c hold
        · rcases h.pointers c hold with hp | hp
          · rw [hp]
            simp
          · rw [hp]
            simp only [ne_eq, Buffer.outputStorage.injEq, true_and]
            omega
    · intro m hm
      funext c
      simp only [updateChannel_apply]
      rw [if_neg (fun heq => hm heq.1), h.controls m hm]
    · intro c hc
      simp only [updateChannel_self]
      rw [if_neg (by omega)]
      exact h.kept c (by omega)
    · exact h.types
    · intro m c
      rw [List.count_append, h.log m c, Nat.add_assoc]
      congr 1
      by_cases heq : m = node ∧ c = channel
      · obtain ⟨rfl, rfl⟩ := heq
        simp only [Nat.lt_irrefl, false_and, and_false, if_false,
          List.count_singleton_self, Nat.lt_succ_self, true_and, hskip,
          not_false_eq_true, if_true]
      · have hnone : [(node, channel)].count (m, c) = 0 := by
          rw [List.count_eq_zero, List.mem_singleton]
          rintro ⟨⟩
          exact heq ⟨rfl, rfl⟩
        have hiff : m = node ∧ c < channel + 1 ↔ m = node ∧ c < channel := by
          omega
        rw [hnone, Nat.add_zero]
        simp only [← and_assoc, hiff]

theorem channelsProcessed_foldl (ctx : BlockContext n R)
    (rt : RuntimeGraph n R) (node : Nat) (hsilence : rt.memory .silence = 0)
    (hinput : ∀ c d, rt.inputs node c ≠ .outputStorage node d)
    (hrelied : ∀ c, (rt.silentEffectChannels node c ||
      !ctx.slotNeedsSilentProcessing node c) = true →
        ctx.processSlot node c 0 = 0) (bound : Nat) :
    ChannelsProcessed ctx node bound rt
      ((List.range bound).foldl (processEffectChannel ctx node) rt) := by
  induction bound with
  | zero => exact .zero
  | succ bound ih =>
      rw [List.range_succ, List.foldl_append]
      exact ih.step hsilence hinput hrelied

/-- A node that only moves pointers. -/
theorem ControlsNoted.pointers {ptr : Nat → Buffer}
    (h : ControlsNoted node rt s)
    (hptr : ∀ channel, ptr channel = .silence ∨
      ptr channel = rt.inputs node channel)
    (hload : ∀ channel, rt.memory (ptr channel) =
      nodeOutput ctx node (fun channel => rt.memory (rt.inputs node channel))
        channel)
    (hruns : ∀ channel, ¬EffectRuns ctx rt node
      (fun channel => rt.memory (rt.inputs node channel)) channel) :
    NodeProcessed ctx node rt
      { s with outputs := Function.update rt.outputs node ptr } := by
  constructor
  · exact h.inputs
  · exact h.counts
  · intro buffer _
    exact congrFun h.memory buffer
  · intro m hm
    exact Function.update_of_ne hm _ _
  · intro channel
    simp only [Function.update_self]
    exact (hptr channel).imp id .inr
  · intro channel
    simp only [Function.update_self, h.memory]
    exact hload channel
  · exact h.controls
  · intro m channel
    rw [if_neg (fun heq => hruns channel heq.2)]
    exact congrArg (List.count _) h.processed


/-- A node that passes its inputs on in all its channels. -/
theorem ControlsNoted.pass (h : ControlsNoted node rt s)
    (hsilence : rt.memory .silence = 0)
    (hplain : ∀ inputs channel, nodeOutput ctx node inputs channel =
      if channel < ctx.channels node then inputs channel else 0)
    (hruns : ∀ inputs channel, ¬EffectRuns ctx rt node inputs channel) :
    NodeProcessed ctx node rt
      { s with outputs :=
          Function.update rt.outputs node (passPointers ctx rt node) } := by
  apply h.pointers
  · intro channel
    rw [passPointers]
    split
    · exact .inr rfl
    · exact .inl rfl
  · intro channel
    rw [passPointers_load hsilence, hplain]
  · exact fun channel => hruns _ channel

/-- A node without channels is left alone. -/
theorem nodeProcessed_none (hsilence : rt.memory .silence = 0)
    (hnew : ∀ channel, rt.outputs node channel = .silence)
    (hnone : ctx.channels node = 0 ∨ ctx.outputChannels node = 0) :
    NodeProcessed ctx node rt rt := by
  have hzero : ctx.channels node = 0 := by
    have hle : ctx.channels node ≤ ctx.outputChannels node :=
      BlockContext.channels_le
    omega
  have hpass : passPointers ctx rt node = rt.outputs node := by
    funext channel
    rw [passPointers, hzero, if_neg (Nat.not_lt_zero _), hnew]
  have hsame : NodeProcessed ctx node rt
      { rt with outputs :=
          Function.update rt.outputs node (passPointers ctx rt node) } := by
    apply ControlsNoted.refl.pass hsilence
    · simp [nodeOutput, hzero]
    · simp [EffectRuns, hzero]
  rw [hpass, Function.update_eq_self] at hsame
  exact hsame

theorem count_channels (m bound : Nat) :
    ((List.range bound).map (node, ·)).count (m, channel) =
      if m = node ∧ channel < bound then 1 else 0 := by
  have hnodup : ((List.range bound).map (node, ·)).Nodup :=
    List.nodup_range.map (Prod.mk_right_injective node)
  have hmem : (m, channel) ∈ (List.range bound).map (node, ·) ↔
      m = node ∧ channel < bound := by
    rw [List.mem_map]
    constructor
    · rintro ⟨c, hc, ⟨⟩⟩
      exact ⟨rfl, List.mem_range.mp hc⟩
    · rintro ⟨rfl, hlt⟩
      exact ⟨channel, List.mem_range.mpr hlt, rfl⟩
  rw [hnodup.count]
  simp only [hmem]

/-- The host of a plugin runs on all channels. -/
theorem nodeProcessed_plugin (h : ControlsNoted node rt s)
    (hsilence : rt.memory .silence = 0)
    (hnew : ∀ channel, rt.outputs node channel = .silence)
    (hinput : ∀ c d, rt.inputs node c ≠ .outputStorage node d)
    {host : List (Block n R) → Nat → Block n R}
    (hplain : ∀ inputs channel, nodeOutput ctx node inputs channel =
      if channel < ctx.channels node then
        host ((List.range (ctx.channels node)).map inputs) channel else 0)
    (hruns : ∀ inputs channel, EffectRuns ctx rt node inputs channel ↔
      channel < ctx.channels node) :
    NodeProcessed ctx node rt (processPlugin ctx s node host) := by
  have hins : (List.range (ctx.channels node)).map (fun channel =>
      s.memory (s.inputs node channel)) = (List.range (ctx.channels node)).map
        fun channel => rt.memory (rt.inputs node channel) := by
    rw [h.inputs, h.memory]
  constructor
  · exact h.inputs
  · exact h.counts
  · intro buffer hbuffer
    rw [← h.memory]
    cases buffer with
    | silence => rfl
    | inputStorage m d => rfl
    | outputStorage m d =>
        have hm : m ≠ node := by
          rintro rfl
          exact hbuffer d rfl
        simp [processPlugin, setOutputs, hm]
  · intro m hm
    simp [processPlugin, setOutputs, hm, h.outputs]
  · intro channel
    simp only [processPlugin, setOutputs, Function.update_self, h.outputs]
    split
    · exact .inr (.inl rfl)
    · exact .inl (hnew channel)
  · intro channel
    rw [hplain]
    simp only [processPlugin, setOutputs, Function.update_self, h.outputs,
      Nat.zero_le, true_and, hins]
    by_cases hin : channel < ctx.channels node
    · simp [hin]
    · simp [hin, hnew, h.memory, hsilence]
  · intro m hm
    exact h.controls m hm
  · intro m channel
    simp only [processPlugin, setOutputs, List.count_append, hruns]
    rw [h.processed, count_channels]

/-- An effect that runs channel by channel. -/
theorem nodeProcessed_channels (h : ControlsNoted node rt s)
    (hsilence : rt.memory .silence = 0)
    (hnew : ∀ channel, rt.outputs node channel = .silence)
    (hinput : ∀ c d, rt.inputs node c ≠ .outputStorage node d)
    (hrelied : ∀ c, (s.silentEffectChannels node c ||
      !ctx.slotNeedsSilentProcessing node c) = true →
        ctx.processSlot node c 0 = 0)
    (hplain : ∀ inputs channel, nodeOutput ctx node inputs channel =
      if channel < ctx.channels node then
        ctx.processSlot node channel (inputs channel) else 0)
    (hruns : ∀ inputs channel, EffectRuns ctx rt node inputs channel ↔
      channel < ctx.channels node ∧ ¬(inputs channel = 0 ∧
        (s.silentEffectChannels node channel ||
          !ctx.slotNeedsSilentProcessing node channel) = true)) :
    NodeProcessed ctx node rt
      (setOutputs ((List.range (ctx.channels node)).foldl
        (processEffectChannel ctx node) s) node (ctx.channels node)
        (ctx.outputChannels node) fun _ => .silence) := by
  have hdone := channelsProcessed_foldl ctx s node
    (by rw [h.memory, hsilence]) (by rw [h.inputs]; exact hinput) hrelied
    (ctx.channels node)
  generalize (List.range (ctx.channels node)).foldl
    (processEffectChannel ctx node) s = s' at hdone ⊢
  have houtside : ∀ channel, ¬channel < ctx.channels node →
      s'.outputs node channel = .silence := by
    intro channel hout
    rw [hdone.others node channel (fun hin => hout hin.2), h.outputs, hnew]
  have hout : (setOutputs s' node (ctx.channels node)
      (ctx.outputChannels node) fun _ => .silence) = s' := by
    have hsame : (fun channel => if ctx.channels node ≤ channel ∧
        channel < ctx.outputChannels node then Buffer.silence
        else s'.outputs node channel) = s'.outputs node := by
      funext channel
      split
      next hin => exact (houtside channel (by omega)).symm
      · rfl
    rw [setOutputs, hsame, Function.update_eq_self]
  rw [hout]
  constructor
  · rw [hdone.inputs, h.inputs]
  · rw [hdone.counts, h.counts]
  · intro buffer hbuffer
    rw [hdone.memory buffer hbuffer, h.memory]
  · intro m hm
    funext channel
    rw [hdone.others m channel (fun hin => hm hin.1), h.outputs]
  · intro channel
    by_cases hin : channel < ctx.channels node
    · exact (hdone.pointers channel hin).imp id .inl
    · exact .inl (houtside channel hin)
  · intro channel
    rw [hplain]
    by_cases hin : channel < ctx.channels node
    · rw [if_pos hin, hdone.loads channel hin, h.inputs, h.memory]
    · rw [if_neg hin, houtside channel hin, hdone.memory _ (by simp),
        h.memory, hsilence]
  · intro m hm
    rw [hdone.controls m hm, hdone.types.1, hdone.types.2]
    exact h.controls m hm
  · intro m channel
    rw [hdone.log m channel, h.processed, h.memory, h.inputs]
    simp only [hruns]

theorem nodeProcessed_effect (hsilence : rt.memory .silence = 0)
    (hnew : ∀ channel, rt.outputs node channel = .silence)
    (hinput : ∀ c d, rt.inputs node c ≠ .outputStorage node d)
    (hrelied : ∀ c, restsOnSilence ctx rt node c →
      ctx.processSlot node c 0 = 0)
    (heffect : ctx.nodeKind node = some .effect) :
    NodeProcessed ctx node rt (processEffectNode ctx rt node) := by
  have hnoted : ControlsNoted node rt (noteControls ctx rt node) :=
    controlsNoted_noteControls
  unfold processEffectNode
  simp only [hnoted.inputs]
  by_cases hblocks : nodeBlocksInput ctx node = true
  · rw [if_pos hblocks, setOutputs_silence hnew hnoted.outputs]
    apply hnoted.pointers
    · exact fun _ => .inl rfl
    · simp [nodeOutput, heffect, hblocks, hsilence]
    · simp [EffectRuns, hblocks]
  · rw [if_neg hblocks]
    rw [Bool.not_eq_true] at hblocks
    cases henabled : (ctx.params node).enabled
    · -- A bypassed effect.
      simp only [Bool.not_false, if_true]
      rw [setOutputs_rest hnew hnoted.outputs]
      apply hnoted.pass hsilence
      · simp [nodeOutput, heffect, hblocks, henabled]
      · simp [EffectRuns, henabled]
    · simp only [Bool.not_true, Bool.false_eq_true, if_false]
      by_cases hplugin : (ctx.params node).type = .plugin
      · rw [if_pos hplugin]
        cases hhost : (ctx.params node).pluginHost with
        | none =>
            have hpass : setOutputs (noteControls ctx rt node) node 0
                (ctx.channels node) (rt.inputs node) =
                { noteControls ctx rt node with
                  outputs := Function.update rt.outputs node
                    (passPointers ctx rt node) } := by
              simp only [setOutputs, hnoted.outputs, Nat.zero_le, true_and,
                hnew]
              rfl
            simp only [hpass]
            apply hnoted.pass hsilence
            · simp [nodeOutput, heffect, hblocks, henabled, hplugin, hhost]
            · simp [EffectRuns, hplugin, hhost]
        | some host =>
            apply nodeProcessed_plugin hnoted hsilence hnew hinput
            · simp [nodeOutput, heffect, hblocks, henabled, hplugin, hhost]
            · simp [EffectRuns, heffect, hblocks, henabled, hplugin, hhost]
      · rw [if_neg hplugin]
        apply nodeProcessed_channels hnoted hsilence hnew hinput hrelied
        · simp [nodeOutput, heffect, hblocks, henabled, hplugin]
        · intro inputs channel
          rw [EffectRuns, if_neg hplugin]
          rw [and_iff_right heffect, and_iff_right hblocks,
            and_iff_right henabled]
          rfl

theorem nodeProcessed_processNode (hsilence : rt.memory .silence = 0)
    (hnew : ∀ channel, rt.outputs node channel = .silence)
    (hinput : ∀ c d, rt.inputs node c ≠ .outputStorage node d)
    (hrelied : ∀ c, restsOnSilence ctx rt node c →
      ctx.processSlot node c 0 = 0) :
    NodeProcessed ctx node rt (processNode ctx rt node) := by
  unfold processNode
  simp only
  split
  next hnone => exact nodeProcessed_none hsilence hnew hnone
  · split
    next heffect =>
      exact nodeProcessed_effect hsilence hnew hinput hrelied heffect
    next heffect =>
      rw [setOutputs_rest hnew rfl]
      apply ControlsNoted.refl.pass hsilence
      · simp [nodeOutput, heffect]
      · simp [EffectRuns, heffect]

end Audiox
