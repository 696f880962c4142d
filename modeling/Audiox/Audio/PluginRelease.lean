import Audiox.Audio.PluginHosts
import Mathlib

/-!
# No host is freed while a block uses it

A block reads the sequence number first, then refreshes the cache of every
effect node whose number is another one, each in its own region of
`effectsMutex`, and then publishes the number as observed.  Other regions may
come between any two of these steps.
-/

namespace Audiox.Effects

open Runs

/-- Where the audio thread is: between two blocks, in `updateIdleControls` with
the nodes that it has still to look at, or in the rest of a block. -/
inductive Phase where
  | between
  | controls (effectSeq : UInt32) (rest : List (Nat × String))
  | processing

/-- The effect nodes of the adopted graph that are processed, with their ids,
and the part of the runtime graph that caches their effects. -/
structure AudioThread where
  nodes : List (Nat × String)
  pluginHost : Nat → Option Host
  effectParamsSeq : Nat → UInt32
  idleControlsKnown : Bool
  phase : Phase

/-- `changes` and `observed` are the two sequence numbers without wrapping, and
`loaded` is the one that the block has read. -/
structure System (V : Type) where
  effects : State V
  audio : AudioThread
  changes : Nat
  observed : Nat
  loaded : Nat

inductive SystemEvent (V : Type) where
  | control (e : Event V)
  | rebuild (nodes : List (Nat × String))
  | load
  | refresh
  | observe
  | finish

namespace System

section Steps

variable {V : Type} (types : Types V)

def start (V : Type) : System V where
  effects := Effects.start V
  audio :=
    { nodes := []
      pluginHost := fun _ => none
      effectParamsSeq := fun _ => 0
      idleControlsKnown := false
      phase := .between }
  changes := 1
  observed := 0
  loaded := 0

/-- One region of `effectsMutex`. -/
def control (s : System V) (e : Event V) : Option (System V) :=
  match Effects.step types s.effects e with
  | none => none
  | some effects =>
      some { s with
        effects
        changes :=
          if effects.effectStatesSeq = s.effects.effectStatesSeq then s.changes
          else s.changes + 1 }

/-- A new graph makes the thread look at every node again. -/
def rebuild (s : System V) (nodes : List (Nat × String)) :
    Option (System V) :=
  match s.audio.phase with
  | .between =>
      some { s with audio := { s.audio with
        nodes
        effectParamsSeq := fun _ => 0
        idleControlsKnown := false } }
  | _ => none

def load (s : System V) : Option (System V) :=
  match s.audio.phase with
  | .between =>
      some { s with
        audio := { s.audio with
          phase := .controls s.effects.effectStatesSeq s.audio.nodes }
        loaded := s.changes }
  | _ => none

/-- What `getEffectParams` says of the host of an effect. -/
def hostOf (s : System V) (id : String) : Option Host :=
  match s.effects.effectStates id with
  | some effect => effect.pluginHost
  | none => none

/-- A node is copied anew. -/
def copy (s : System V) (effectSeq : UInt32) (node : Nat) (id : String)
    (rest : List (Nat × String)) : System V :=
  { s with audio := { s.audio with
      pluginHost := Function.update s.audio.pluginHost node (s.hostOf id)
      effectParamsSeq :=
        Function.update s.audio.effectParamsSeq node effectSeq
      phase := .controls effectSeq rest } }

/-- The next node, which is copied where its number is another one. -/
def refresh (s : System V) : Option (System V) :=
  match s.audio.phase with
  | .controls effectSeq ((node, id) :: rest) =>
      if !s.audio.idleControlsKnown ||
          s.audio.effectParamsSeq node != effectSeq then
        some (s.copy effectSeq node id rest)
      else
        some { s with audio := { s.audio with
          phase := .controls effectSeq rest } }
  | _ => none

def observe (s : System V) : Option (System V) :=
  match s.audio.phase with
  | .controls effectSeq [] =>
      some { s with
        effects := { s.effects with pluginObservedSeq := effectSeq }
        audio := { s.audio with
          idleControlsKnown := true
          phase := .processing }
        observed := s.loaded }
  | _ => none

def finish (s : System V) : Option (System V) :=
  match s.audio.phase with
  | .processing => some { s with audio := { s.audio with phase := .between } }
  | _ => none

def step (s : System V) : SystemEvent V → Option (System V)
  | .control e => s.control types e
  | .rebuild nodes => s.rebuild nodes
  | .load => s.load
  | .refresh => s.refresh
  | .observe => s.observe
  | .finish => s.finish

end Steps

variable {V : Type}

/-- Fewer than 2^31 changes since the number that the last block has
observed. -/
def Paced (s : System V) : Prop := s.changes < s.observed + 2 ^ 31

instance (s : System V) : Decidable s.Paced :=
  inferInstanceAs (Decidable (_ < _))

/-- The steps in which blocks keep pace with changes. -/
def PacedStep (types : Types V) (s : System V) (e : SystemEvent V)
    (s' : System V) : Prop :=
  s.step types e = some s' ∧ s'.Paced

/-- A host that is not freed. -/
def Alive (s : System V) (host : Host) : Prop :=
  (∃ id, (id, host) ∈ s.effects.pluginHosts) ∨
    ∃ sequence, (sequence, host) ∈ s.effects.retiredPlugins

/-! ## What is kept -/

/-- A retired host, by the unwrapped number of its change. -/
def RetiredAt (s : System V) (host : Host) (n : Nat) : Prop :=
  (UInt32.ofNat n, host) ∈ s.effects.retiredPlugins ∧ n ≤ s.changes

/-- The cache of a node holds what was there under some number that is not
below the observed one, and not what was retired before. -/
def Fresh (s : System V) (node : Nat) : Prop :=
  ∃ n, s.observed ≤ n ∧ n ≤ s.changes ∧
    s.audio.effectParamsSeq node = UInt32.ofNat n ∧
    ∀ host, s.audio.pluginHost node = some host →
      (∃ id, (id, host) ∈ s.effects.pluginHosts) ∨
        ∃ m, n < m ∧ s.RetiredAt host m

/-- The nodes whose caches are as they should be. -/
def Looked (s : System V) : Prop :=
  match s.audio.phase with
  | .controls effectSeq rest =>
      effectSeq = UInt32.ofNat s.loaded ∧
        s.observed ≤ s.loaded ∧ s.loaded ≤ s.changes ∧
        (∀ node ∈ s.audio.nodes, node ∉ rest →
          s.Fresh node.1 ∧ s.audio.effectParamsSeq node.1 = effectSeq) ∧
        (s.audio.idleControlsKnown → ∀ node ∈ s.audio.nodes, s.Fresh node.1) ∧
        rest ⊆ s.audio.nodes
  | .processing => ∀ node ∈ s.audio.nodes, s.Fresh node.1
  | .between =>
      s.audio.idleControlsKnown → ∀ node ∈ s.audio.nodes, s.Fresh node.1

structure Inv (s : System V) : Prop where
  owned : Owned s.effects
  seq : s.effects.effectStatesSeq = UInt32.ofNat s.changes
  observedSeq : s.effects.pluginObservedSeq = UInt32.ofNat s.observed
  observed_le : s.observed ≤ s.changes
  retired : ∀ plugin ∈ s.effects.retiredPlugins,
    ∃ n, plugin.1 = UInt32.ofNat n ∧ n ≤ s.changes
  looked : s.Looked

theorem inv_start : Inv (start V) where
  owned := owned_start
  seq := rfl
  observedSeq := rfl
  observed_le := Nat.zero_le _
  retired _ h := absurd h List.not_mem_nil
  looked _ _ h := absurd h List.not_mem_nil

/-! ### Sequence numbers -/

theorem ofNat_succ (n : Nat) : UInt32.ofNat (n + 1) = UInt32.ofNat n + 1 := by
  rw [UInt32.ofNat_add]
  rfl

theorem add_one_ne (a : UInt32) : a + 1 ≠ a := by
  intro h
  have hnat := congrArg UInt32.toNat h
  rw [UInt32.toNat_add, UInt32.toNat_one] at hnat
  have hlt := a.toNat_lt
  omega

/-- A number that has not been observed is not taken for one that has. -/
theorem not_released {observed n changes : Nat} (hlt : observed < n)
    (hle : n ≤ changes) (hpace : changes < observed + 2 ^ 31) :
    released (UInt32.ofNat observed) (UInt32.ofNat n) = false := by
  rw [released, UInt32.toNat_sub, UInt32.toNat_ofNat', UInt32.toNat_ofNat',
    decide_eq_false_iff_not]
  omega

/-- Numbers that are not too far apart differ when wrapped. -/
theorem eq_of_ofNat_eq {observed n m changes : Nat}
    (h : UInt32.ofNat n = UInt32.ofNat m) (hn : observed ≤ n)
    (hm : observed ≤ m) (hn' : n ≤ changes) (hm' : m ≤ changes)
    (hpace : changes < observed + 2 ^ 31) : n = m := by
  have hnat := congrArg UInt32.toNat h
  rw [UInt32.toNat_ofNat', UInt32.toNat_ofNat'] at hnat
  omega

/-! ### Regions of other threads -/

section Control

variable {types : Types V} {s s' : System V}

/-- What a region does to the two numbers. -/
theorem changes_control {effects : State V}
    (hmoves : Moves s.effects effects) (hinv : s.Inv)
    (hs' : s' = { s with
      effects
      changes :=
        if effects.effectStatesSeq = s.effects.effectStatesSeq then s.changes
        else s.changes + 1 }) :
    s.changes ≤ s'.changes ∧
      effects.effectStatesSeq = UInt32.ofNat s'.changes ∧
      (effects.effectStatesSeq = s.effects.effectStatesSeq + 1 →
        s'.changes = s.changes + 1) := by
  subst hs'
  by_cases hsame : effects.effectStatesSeq = s.effects.effectStatesSeq
  · simp only [if_pos hsame]
    refine ⟨le_rfl, hsame.trans hinv.seq, fun hbump => ?_⟩
    rw [hbump] at hsame
    exact absurd hsame (add_one_ne _)
  · simp only [if_neg hsame]
    have hbump := hmoves.seq.resolve_left hsame
    refine ⟨Nat.le_succ _, ?_, fun _ => trivial⟩
    rw [hbump, hinv.seq, ofNat_succ]

/-- A region that frees no host keeps the caches as they should be. -/
theorem fresh_control {effects : State V} (hinv : s.Inv)
    (heffects : s'.effects = effects) (haudio : s'.audio = s.audio)
    (hobserved : s'.observed = s.observed)
    (hmoves : Moves s.effects effects) (hle : s.changes ≤ s'.changes)
    (hbump : effects.effectStatesSeq = s.effects.effectStatesSeq + 1 →
      s'.changes = s.changes + 1)
    {node : Nat} (h : s.Fresh node) : s'.Fresh node := by
  obtain ⟨n, hobs, hn, hseq, hhost⟩ := h
  refine ⟨n, by rw [hobserved]; exact hobs, hn.trans hle,
    by rw [haudio]; exact hseq, fun host hcache => ?_⟩
  rw [haudio] at hcache
  rcases hhost host hcache with ⟨id, hmem⟩ | ⟨m, hlt, hmem, hm⟩
  · rcases hmoves.hosts _ hmem with hkept | ⟨hretired, hseq'⟩
    · exact .inl ⟨id, by rw [heffects]; exact hkept⟩
    · right
      refine ⟨s.changes + 1, Nat.lt_succ_of_le hn, ?_, ?_⟩
      · rw [heffects, ofNat_succ, ← hinv.seq]
        exact hretired
      · rw [hbump hseq']
  · exact .inr ⟨m, hlt, by rw [heffects]; exact hmoves.kept _ hmem,
      hm.trans hle⟩

theorem looked_of_fresh (haudio : s'.audio = s.audio)
    (hloaded : s'.loaded = s.loaded) (hobserved : s'.observed = s.observed)
    (hle : s.changes ≤ s'.changes)
    (hfresh : ∀ node, s.Fresh node → s'.Fresh node) (h : s.Looked) :
    s'.Looked := by
  unfold Looked at h ⊢
  rw [haudio, hloaded, hobserved]
  split
  case h_1 effectSeq rest hphase =>
    rw [hphase] at h
    obtain ⟨hseq, hobs, hchanges, hdone, hknown, hrest⟩ := h
    refine ⟨hseq, hobs, hchanges.trans hle, ?_, ?_, hrest⟩
    · intro node hnode hnot
      have hold := hdone node hnode hnot
      exact ⟨hfresh _ hold.1, hold.2⟩
    · exact fun hk node hnode => hfresh _ (hknown hk node hnode)
  case h_2 hphase =>
    rw [hphase] at h
    exact fun node hnode => hfresh _ (h node hnode)
  case h_3 hphase =>
    rw [hphase] at h
    exact fun hk node hnode => hfresh _ (h hk node hnode)

/-- `pollPlugins` frees no host that a cache may hold. -/
theorem inv_pollPlugins (hpace : s.Paced) (hinv : s.Inv) :
    Inv { s with effects := pollPlugins s.effects } := by
  have hretired : ∀ host n, s.observed < n → s.RetiredAt host n →
      RetiredAt { s with effects := pollPlugins s.effects } host n := by
    intro host n hlt ⟨hmem, hle⟩
    refine ⟨List.mem_filter.mpr ⟨hmem, ?_⟩, hle⟩
    rw [hinv.observedSeq, not_released hlt hle hpace]
    rfl
  constructor
  · exact ⟨hinv.owned.keys, hinv.owned.owner⟩
  · exact hinv.seq
  · exact hinv.observedSeq
  · exact hinv.observed_le
  · intro plugin hplugin
    exact hinv.retired plugin (List.mem_of_mem_filter hplugin)
  · refine looked_of_fresh (s := s) rfl rfl rfl le_rfl ?_ hinv.looked
    rintro node ⟨n, hobs, hn, hseq, hhost⟩
    refine ⟨n, hobs, hn, hseq, fun host hcache => ?_⟩
    rcases hhost host hcache with hmem | ⟨m, hlt, hm⟩
    · exact .inl hmem
    · exact .inr ⟨m, hlt, hretired host m (hobs.trans_lt hlt) hm⟩

theorem inv_control {e : Event V} (h : s.control types e = some s')
    (hpace : s.Paced) (hinv : s.Inv) : s'.Inv := by
  rw [control] at h
  split at h
  case h_1 => simp at h
  case h_2 effects hstep =>
    have hs' := (Option.some.inj h).symm
    by_cases hpoll : e.isPoll
    · cases e with
      | pollPlugins =>
          obtain rfl := Option.some.inj hstep
          rw [hs']
          have hsame : (pollPlugins s.effects).effectStatesSeq =
            s.effects.effectStatesSeq := rfl
          rw [if_pos hsame]
          exact inv_pollPlugins hpace hinv
      | _ => simp [Event.isPoll] at hpoll
    · obtain ⟨howned, hmoves⟩ := owned_step hstep (by simpa using hpoll)
        hinv.owned
      obtain ⟨hle, hseq, hbump⟩ := changes_control hmoves hinv hs'
      have heffects : s'.effects = effects := by rw [hs']
      have haudio : s'.audio = s.audio := by rw [hs']
      have hobserved : s'.observed = s.observed := by rw [hs']
      have hfresh : ∀ node, s.Fresh node → s'.Fresh node :=
        fun _ hnode => fresh_control hinv heffects haudio hobserved hmoves hle
          hbump hnode
      constructor
      · rw [heffects]
        exact howned
      · rw [heffects]
        exact hseq
      · rw [heffects, hmoves.observed, hobserved]
        exact hinv.observedSeq
      · rw [hobserved]
        exact hinv.observed_le.trans hle
      · intro plugin hplugin
        rw [heffects] at hplugin
        rcases hmoves.added plugin hplugin with hold | ⟨hnew, hseq'⟩
        · obtain ⟨n, hn, hn'⟩ := hinv.retired plugin hold
          exact ⟨n, hn, hn'.trans hle⟩
        · exact ⟨s.changes + 1, by rw [hnew, hinv.seq, ofNat_succ],
            (hbump hseq').ge⟩
      · exact looked_of_fresh haudio (by rw [hs']) hobserved hle hfresh
          hinv.looked

end Control

/-! ### Blocks -/

section Blocks

variable {s s' : System V}

theorem inv_rebuild {nodes : List (Nat × String)}
    (h : s.rebuild nodes = some s') (hinv : s.Inv) : s'.Inv := by
  rw [rebuild] at h
  split at h
  case h_1 hphase =>
    obtain rfl := Option.some.inj h
    refine ⟨hinv.owned, hinv.seq, hinv.observedSeq, hinv.observed_le,
      hinv.retired, ?_⟩
    simp only [Looked, hphase]
    simp
  case h_2 => simp at h

theorem inv_load (h : s.load = some s') (hinv : s.Inv) : s'.Inv := by
  rw [load] at h
  split at h
  case h_1 hphase =>
    obtain rfl := Option.some.inj h
    refine ⟨hinv.owned, hinv.seq, hinv.observedSeq, hinv.observed_le,
      hinv.retired, ?_⟩
    have hlooked := hinv.looked
    rw [Looked, hphase] at hlooked
    exact ⟨hinv.seq, hinv.observed_le, le_rfl,
      fun node hnode hnot => absurd hnode hnot, hlooked, List.Subset.refl _⟩
  case h_2 => simp at h

/-- What is copied in a block is there under the number that the block has
read. -/
theorem hostOf_mem (hinv : s.Inv) {id : String} {host : Host}
    (h : s.hostOf id = some host) : (id, host) ∈ s.effects.pluginHosts := by
  rw [hostOf] at h
  split at h
  case h_1 effect heffect => exact hinv.owned.owner id effect host heffect h
  case h_2 => simp at h

theorem fresh_copy (hinv : s.Inv) {effectSeq : UInt32} {node other : Nat}
    {id : String} {rest : List (Nat × String)}
    (hseq : effectSeq = UInt32.ofNat s.loaded) (hobs : s.observed ≤ s.loaded)
    (hchanges : s.loaded ≤ s.changes) (h : other = node ∨ s.Fresh other) :
    (s.copy effectSeq node id rest).Fresh other := by
  by_cases hother : other = node
  · refine ⟨s.loaded, hobs, hchanges, ?_, fun host hcache => .inl ⟨id, ?_⟩⟩
    · rw [hother, ← hseq]
      exact Function.update_self ..
    · rw [hother] at hcache
      have hhost : Function.update s.audio.pluginHost node (s.hostOf id) node =
          some host := hcache
      rw [Function.update_self] at hhost
      exact hostOf_mem hinv hhost
  · obtain ⟨n, hn, hn', hcached, hhost⟩ := h.resolve_left hother
    refine ⟨n, hn, hn', ?_, fun host hcache => hhost host ?_⟩
    · exact (Function.update_of_ne hother ..).trans hcached
    · exact (Function.update_of_ne hother ..).symm.trans hcache

theorem inv_refresh (h : s.refresh = some s') (hinv : s.Inv) : s'.Inv := by
  have hlooked := hinv.looked
  rw [refresh] at h
  split at h
  case h_1 effectSeq node id rest hphase =>
    rw [Looked, hphase] at hlooked
    obtain ⟨hseq, hobs, hchanges, hdone, hknown, hrest⟩ := hlooked
    have hmem : (node, id) ∈ s.audio.nodes := hrest (by simp)
    split at h
    case isTrue hcopy =>
      obtain rfl := Option.some.inj h
      refine ⟨hinv.owned, hinv.seq, hinv.observedSeq, hinv.observed_le,
        hinv.retired, hseq, hobs, hchanges, ?_, ?_, ?_⟩
      · intro other hother hnot
        by_cases heq : other.1 = node
        · refine ⟨fresh_copy hinv hseq hobs hchanges (.inl heq), ?_⟩
          rw [heq]
          exact Function.update_self ..
        · have hne : other ≠ (node, id) := fun h => heq (by rw [h])
          have hold := hdone other hother (by simp [hne, hnot])
          refine ⟨fresh_copy hinv hseq hobs hchanges (.inr hold.1), ?_⟩
          exact (Function.update_of_ne heq ..).trans hold.2
      · exact fun hk other hother =>
          fresh_copy hinv hseq hobs hchanges (.inr (hknown hk other hother))
      · exact fun other hother => hrest (List.mem_cons_of_mem _ hother)
    case isFalse hskip =>
      obtain rfl := Option.some.inj h
      refine ⟨hinv.owned, hinv.seq, hinv.observedSeq, hinv.observed_le,
        hinv.retired, hseq, hobs, hchanges, ?_, hknown, ?_⟩
      · intro other hother hnot
        by_cases heq : other = (node, id)
        · obtain ⟨hk, hsame⟩ : s.audio.idleControlsKnown = true ∧
              s.audio.effectParamsSeq node = effectSeq := by
            simpa using hskip
          rw [heq]
          exact ⟨hknown hk _ hmem, hsame⟩
        · exact hdone other hother (by simp [heq, hnot])
      · exact fun other hother => hrest (List.mem_cons_of_mem _ hother)
  case h_2 => simp at h

/-- When all nodes have been looked at, no cache is older than the block. -/
theorem inv_observe (h : s.observe = some s') (hpace : s.Paced)
    (hinv : s.Inv) : s'.Inv := by
  have hlooked := hinv.looked
  rw [observe] at h
  split at h
  case h_1 effectSeq hphase =>
    rw [Looked, hphase] at hlooked
    obtain ⟨hseq, hobs, hchanges, hdone, hknown, hrest⟩ := hlooked
    obtain rfl := Option.some.inj h
    refine ⟨⟨hinv.owned.keys, hinv.owned.owner⟩, hinv.seq, hseq, hchanges,
      hinv.retired, ?_⟩
    intro node hnode
    obtain ⟨⟨n, hn, hn', hcached, hhost⟩, hnow⟩ :=
      hdone node hnode List.not_mem_nil
    have hloaded : n = s.loaded :=
      eq_of_ofNat_eq (hcached.symm.trans (hnow.trans hseq)) hn hobs hn'
        hchanges hpace
    exact ⟨n, hloaded.ge, hn', hcached, hhost⟩
  case h_2 => simp at h

theorem inv_finish (h : s.finish = some s') (hinv : s.Inv) : s'.Inv := by
  rw [finish] at h
  split at h
  case h_1 hphase =>
    obtain rfl := Option.some.inj h
    have hlooked := hinv.looked
    rw [Looked, hphase] at hlooked
    exact ⟨hinv.owned, hinv.seq, hinv.observedSeq, hinv.observed_le,
      hinv.retired, fun _ => hlooked⟩
  case h_2 => simp at h

/-! ## Runs -/

variable {types : Types V}

theorem inv_step {e : SystemEvent V} (h : s.step types e = some s')
    (hpace : s.Paced) (hinv : s.Inv) : s'.Inv := by
  cases e with
  | control e => exact inv_control h hpace hinv
  | rebuild nodes => exact inv_rebuild h hinv
  | load => exact inv_load h hinv
  | refresh => exact inv_refresh h hinv
  | observe => exact inv_observe h hpace hinv
  | finish => exact inv_finish h hinv

theorem inv_run {es : List (SystemEvent V)}
    (h : Run (PacedStep types) s es s') (hpace : s.Paced) (hinv : s.Inv) :
    s'.Paced ∧ s'.Inv := by
  refine h.invariant (fun s => s.Paced ∧ s.Inv) (P := fun _ => True) ?_
    (fun _ _ => trivial) ⟨hpace, hinv⟩
  rintro s e s' - ⟨hpace, hinv⟩ ⟨hstep, hpace'⟩
  exact ⟨hpace', inv_step hstep hpace hinv⟩

theorem paced_start : (start V).Paced := by
  rw [Paced, start]
  norm_num

/-- In the rest of a block no cached host has been freed. -/
theorem alive_of_inv (hinv : s.Inv) (hphase : s.audio.phase = .processing)
    {node : Nat × String} (hnode : node ∈ s.audio.nodes) {host : Host}
    (hcache : s.audio.pluginHost node.1 = some host) : s.Alive host := by
  have hlooked := hinv.looked
  rw [Looked, hphase] at hlooked
  obtain ⟨n, -, -, -, hhost⟩ := hlooked node hnode
  rcases hhost host hcache with hmem | ⟨m, -, hmem, -⟩
  · exact .inl hmem
  · exact .inr ⟨_, hmem⟩

/-! ### The release -/

/-- What a step does to the three numbers. -/
theorem numbers_step {e : SystemEvent V} (h : s.step types e = some s') :
    s.changes ≤ s'.changes ∧
      (s'.loaded = s.loaded ∨ s'.loaded = s.changes) ∧
      (s'.observed = s.observed ∨ s'.observed = s.loaded) ∧
      (e = .load → s'.loaded = s.changes) ∧
      (e = .observe → s'.observed = s.loaded) := by
  cases e with
  | control e =>
      rw [step, control] at h
      split at h
      · simp at h
      · obtain rfl := Option.some.inj h
        refine ⟨?_, .inl rfl, .inl rfl, by simp, by simp⟩
        dsimp only
        split
        · exact le_rfl
        · exact Nat.le_succ _
  | rebuild nodes =>
      rw [step, rebuild] at h
      split at h
      · obtain rfl := Option.some.inj h
        exact ⟨le_rfl, .inl rfl, .inl rfl, by simp, by simp⟩
      · simp at h
  | load =>
      rw [step, load] at h
      split at h
      · obtain rfl := Option.some.inj h
        exact ⟨le_rfl, .inr rfl, .inl rfl, fun _ => rfl, by simp⟩
      · simp at h
  | refresh =>
      rw [step, refresh] at h
      split at h
      · split at h
        · obtain rfl := Option.some.inj h
          exact ⟨le_rfl, .inl rfl, .inl rfl, by simp, by simp⟩
        · obtain rfl := Option.some.inj h
          exact ⟨le_rfl, .inl rfl, .inl rfl, by simp, by simp⟩
      · simp at h
  | observe =>
      rw [step, observe] at h
      split at h
      · obtain rfl := Option.some.inj h
        exact ⟨le_rfl, .inl rfl, .inr rfl, by simp, fun _ => rfl⟩
      · simp at h
  | finish =>
      rw [step, finish] at h
      split at h
      · obtain rfl := Option.some.inj h
        exact ⟨le_rfl, .inl rfl, .inl rfl, by simp, by simp⟩
      · simp at h

theorem changes_run {es : List (SystemEvent V)}
    (h : Run (PacedStep types) s es s') : s.changes ≤ s'.changes := by
  induction h with
  | nil s => exact le_rfl
  | cons hstep _ ih => exact (numbers_step hstep.1).1.trans ih

/-- Without changes, what a block has read stays the number of changes, and
becomes the one that is observed. -/
theorem observed_run {es : List (SystemEvent V)}
    (h : Run (PacedStep types) s es s') (hloaded : s.loaded = s.changes)
    (hchanges : s'.changes = s.changes)
    (hobserved : s.observed = s.changes ∨ SystemEvent.observe ∈ es) :
    s'.observed = s'.changes := by
  induction h with
  | nil s => exact hobserved.resolve_right List.not_mem_nil
  | @cons s t s' e es hstep hrun ih =>
      obtain ⟨hle, hload, hobs, -, hobserve⟩ := numbers_step hstep.1
      have hrest := changes_run hrun
      have hsame : t.changes = s.changes := by omega
      have ht : t.loaded = t.changes := by
        rw [hsame]
        rcases hload with h | h
        · rw [h, hloaded]
        · exact h
      refine ih ht (hchanges.trans hsame.symm) ?_
      rw [hsame]
      rcases hobserved with h | h
      · left
        rcases hobs with h' | h'
        · rw [h', h]
        · rw [h', hloaded]
      · rcases List.mem_cons.mp h with heq | hmem
        · exact .inl ((hobserve heq.symm).trans hloaded)
        · exact .inr hmem

/-- Every host that is still kept aside was retired fewer than 2^31 changes
ago. -/
def RetiredLately (s : System V) : Prop :=
  ∀ plugin ∈ s.effects.retiredPlugins,
    ∃ n, plugin.1 = UInt32.ofNat n ∧ n ≤ s.changes ∧ s.changes < n + 2 ^ 31

theorem released_of_le {observed n : Nat} (hle : n ≤ observed)
    (hlately : observed < n + 2 ^ 31) :
    released (UInt32.ofNat observed) (UInt32.ofNat n) = true := by
  rw [released, UInt32.toNat_sub, UInt32.toNat_ofNat', UInt32.toNat_ofNat',
    decide_eq_true_iff]
  omega

theorem pollPlugins_frees_all (hinv : s.Inv) (hlately : s.RetiredLately)
    (hobserved : s.observed = s.changes) :
    (pollPlugins s.effects).retiredPlugins = [] := by
  refine List.filter_eq_nil_iff.mpr fun plugin hplugin => ?_
  obtain ⟨n, hn, hle, hlt⟩ := hlately plugin hplugin
  rw [hinv.observedSeq, hobserved, hn, released_of_le hle hlt]
  simp

/-- No host is freed while a block uses it.  When a block has run and nothing
has changed since it began, `pollPlugins` frees every retired host. -/
theorem hosts_outlive_their_use {es : List (SystemEvent V)}
    (h : Run (PacedStep types) (start V) es s) :
    (s.audio.phase = .processing → ∀ node ∈ s.audio.nodes, ∀ host,
      s.audio.pluginHost node.1 = some host → s.Alive host) ∧
      ∀ es' s', Run (PacedStep types) s (.load :: es') s' →
        SystemEvent.observe ∈ es' → s'.changes = s.changes →
        s'.RetiredLately → (pollPlugins s'.effects).retiredPlugins = [] := by
  obtain ⟨hpace, hinv⟩ := inv_run h paced_start inv_start
  constructor
  · exact fun hphase node hnode host hcache =>
      alive_of_inv hinv hphase hnode hcache
  · intro es' s' hrun hobserve hchanges hlately
    have hinv' := (inv_run hrun hpace hinv).2
    refine pollPlugins_frees_all hinv' hlately ?_
    obtain ⟨t, hload, hrest⟩ := Run.cons_iff.mp hrun
    obtain ⟨hle, -, -, hloaded, -⟩ := numbers_step hload.1
    have ht := changes_run hrest
    have hsame : t.changes = s.changes := by omega
    exact observed_run hrest ((hloaded rfl).trans hsame.symm)
      (hchanges.trans hsame.symm) (.inr hobserve)

/-! ### A host that stays -/

/-- The steps that are paced, as a function. -/
def pacedStep (types : Types V) (s : System V) (e : SystemEvent V) :
    Option (System V) :=
  (s.step types e).filter fun s' => s'.Paced

theorem run_of_foldlM {es : List (SystemEvent V)}
    (h : es.foldlM (pacedStep types) s = some s') :
    Run (PacedStep types) s es s' := by
  refine (Run.of_foldlM h).mono fun s e s' hstep => ?_
  obtain ⟨hsome, hpaced⟩ := Option.filter_eq_some_iff.mp hstep
  exact ⟨hsome, by simpa using hpaced⟩

/-- The state after so many changes that leave all effects as they are. -/
def turned (s : System V) (k : Nat) : System V :=
  { s with
    effects := { s.effects with
      effectStatesSeq := UInt32.ofNat (s.changes + k) }
    changes := s.changes + k }

theorem step_turned {id : String} {effect : Effect V}
    (heffect : s.effects.effectStates id = some effect) (k : Nat) :
    (s.turned k).step types
        (.control (.setEffect id effect.enabled effect.values)) =
      some (s.turned (k + 1)) := by
  have hsame : Function.update s.effects.effectStates id
      (some { effect with enabled := effect.enabled, values := effect.values }) =
        s.effects.effectStates := by
    rw [← heffect]
    exact Function.update_eq_self ..
  have hset : setEffect (s.turned k).effects id effect.enabled effect.values =
      (s.turned (k + 1)).effects := by
    rw [setEffect]
    simp only [turned, heffect]
    rw [hsame, ← Nat.add_assoc, ofNat_succ]
  rw [step, control, Effects.step, hset]
  have hne : (s.turned (k + 1)).effects.effectStatesSeq ≠
      (s.turned k).effects.effectStatesSeq := by
    rw [turned, turned, ← Nat.add_assoc, ofNat_succ]
    exact add_one_ne _
  simp only [if_neg hne]
  rfl

theorem run_turned {id : String} {effect : Effect V}
    (heffect : s.effects.effectStates id = some effect)
    (hseq : s.effects.effectStatesSeq = UInt32.ofNat s.changes) (k : Nat)
    (hk : s.changes + k < s.observed + 2 ^ 31) :
    Run (PacedStep types) s
      (List.replicate k
        (.control (.setEffect id effect.enabled effect.values)))
      (s.turned k) := by
  induction k with
  | zero =>
      have hstart : s.turned 0 = s := by
        rw [turned, Nat.add_zero, ← hseq]
      rw [hstart]
      exact .nil s
  | succ k ih =>
      rw [List.replicate_succ']
      refine Run.append_iff.mpr ⟨s.turned k, ih (by omega), ?_⟩
      exact .cons ⟨step_turned heffect k, hk⟩ (.nil _)

/-- The state after a block of a graph without effects. -/
def blocked (s : System V) : System V :=
  { s with
    effects := { s.effects with pluginObservedSeq := s.effects.effectStatesSeq }
    audio := { s.audio with idleControlsKnown := true }
    observed := s.changes
    loaded := s.changes }

theorem run_blocked (hphase : s.audio.phase = .between)
    (hnodes : s.audio.nodes = []) (hpace : s.Paced) :
    Run (PacedStep types) s [.load, .observe, .finish] s.blocked := by
  have hpaced : s.blocked.Paced := Nat.lt_add_of_pos_right (by norm_num)
  have hload : s.step types .load =
      some { s with
        audio := { s.audio with phase := .controls s.effects.effectStatesSeq [] }
        loaded := s.changes } := by
    rw [step, load, hphase, hnodes]
  have hfinish : { s.blocked with
      audio := { s.blocked.audio with phase := .processing } }.step types
        .finish = some s.blocked := by
    rw [step, finish, blocked, ← hphase]
  exact .cons ⟨hload, hpace⟩
    (.cons ⟨rfl, hpaced⟩ (.cons ⟨hfinish, hpaced⟩ (.nil _)))

/-- What is known of a state after a retirement that the audio thread has
seen. -/
structure Waiting (s : System V) (id : String) (host : Host) (n : Nat) : Prop where
  effect : (s.effects.effectStates id).isSome
  seq : s.effects.effectStatesSeq = UInt32.ofNat s.changes
  retired : (UInt32.ofNat n, host) ∈ s.effects.retiredPlugins
  phase : s.audio.phase = .between
  nodes : s.audio.nodes = []
  changes : s.changes = n
  observed : s.observed = n

/-- With `pollPlugins` late by 2^31 changes the host stays. -/
theorem Waiting.stays {id : String} {host : Host} {n : Nat}
    (h : s.Waiting id host n) :
    ∃ es s₁ es' s', Run (PacedStep types) s es s₁ ∧
      Run (PacedStep types) s₁ (.load :: es') s' ∧
      SystemEvent.observe ∈ es' ∧ s'.changes = s₁.changes ∧
      (UInt32.ofNat n, host) ∈ (pollPlugins s'.effects).retiredPlugins := by
  obtain ⟨effect, heffect⟩ := Option.isSome_iff_exists.mp h.effect
  obtain ⟨k, hk⟩ : ∃ k, k + 1 = 2 ^ 31 := ⟨2 ^ 31 - 1, rfl⟩
  have hnear : s.changes + k < s.observed + 2 ^ 31 := by
    rw [h.changes, h.observed]
    omega
  have hsoon : (s.changes + k) + 1 < (s.changes + k) + 2 ^ 31 := by omega
  have hfirst : Run (PacedStep types) s _ _ :=
    run_turned heffect h.seq k hnear
  have hblock : Run (PacedStep types) (s.turned k) _ _ :=
    run_blocked h.phase h.nodes hnear
  have hlast : Run (PacedStep types) (s.turned k).blocked _ _ :=
    run_turned (s := (s.turned k).blocked) heffect rfl 1 hsoon
  refine ⟨_, _, [.observe, .finish], _,
    Run.append_iff.mpr ⟨_, hfirst, Run.append_iff.mpr ⟨_, hblock, hlast⟩⟩,
    run_blocked h.phase h.nodes hsoon, by simp, rfl, ?_⟩
  refine List.mem_filter.mpr ⟨h.retired, ?_⟩
  have hlate : released (UInt32.ofNat ((s.changes + k) + 1)) (UInt32.ofNat n) =
      false := by
    rw [h.changes, Nat.add_assoc, hk, released, UInt32.toNat_sub,
      UInt32.toNat_ofNat', UInt32.toNat_ofNat', decide_eq_false_iff_not]
    omega
  exact congrArg not hlate

end Blocks

/-! ### A concrete host -/

def someTypes : Types Unit where
  isPluginType type := type == 6
  slotDefaults _ := ()
  clampValues _ values := values
  clampType type := type
  fxNumber id := if id = "fx_1" then some 1 else if id = "fx_2" then some 2 else none

/-- An effect is deleted in the middle of a block that has its host cached. -/
def deletedInBlock : List (SystemEvent Unit) :=
  [.control (.loadEffectsFromConfig [⟨"fx_1", true, 6, (), true⟩]),
    .rebuild [(0, "fx_1")], .load, .refresh, .observe,
    .control (.deleteEffect "fx_1")]

theorem deletedInBlock_any :
    (deletedInBlock.foldlM (pacedStep someTypes) (start Unit)).any
        (fun s =>
          (match s.audio.phase with | .processing => true | _ => false) &&
          decide ((0, "fx_1") ∈ s.audio.nodes) &&
          decide (s.audio.pluginHost 0 = some 0) &&
          ([.load, .refresh, .observe].foldlM (pacedStep someTypes)
            { s with audio := { s.audio with phase := .between } }).any
              fun s' => decide (s'.changes = s.changes) &&
                decide (s'.effects.retiredPlugins = [(3, 0)]) &&
                decide (s'.changes = 3)) = true := by
  decide

theorem hosts_outlive_their_use_deletedInBlock :
    ∃ s s', Run (PacedStep someTypes) (start Unit) deletedInBlock s ∧
      s.audio.pluginHost 0 = some 0 ∧ s.Alive 0 ∧
      Run (PacedStep someTypes) s [.finish, .load, .refresh, .observe] s' ∧
      s'.effects.retiredPlugins = [(3, 0)] ∧
      (pollPlugins s'.effects).retiredPlugins = [] := by
  obtain ⟨s, hsome, hs⟩ := (Option.any_eq_true _ _).mp deletedInBlock_any
  rw [Bool.and_eq_true] at hs
  obtain ⟨hs, hblock⟩ := hs
  obtain ⟨s', hsome', hs'⟩ := (Option.any_eq_true _ _).mp hblock
  simp only [Bool.and_eq_true, decide_eq_true_eq] at hs hs'
  obtain ⟨⟨hphase, hnode⟩, hcache⟩ := hs
  obtain ⟨⟨hsame, hretired⟩, hchanges⟩ := hs'
  have hprocessing : s.audio.phase = .processing := by
    revert hphase
    cases s.audio.phase <;> simp
  have hrun := run_of_foldlM hsome
  have hpace := (inv_run hrun paced_start inv_start).1
  have hfinish : s.step someTypes .finish =
      some { s with audio := { s.audio with phase := .between } } := by
    rw [step, finish, hprocessing]
  have hlast := run_of_foldlM hsome'
  have hend : Run (PacedStep someTypes) s [.finish, .load, .refresh, .observe]
      s' := .cons ⟨hfinish, hpace⟩ hlast
  have hbetween := Run.append_iff.mpr
    ⟨s, hrun, .cons ⟨hfinish, hpace⟩ (.nil _)⟩
  refine ⟨s, s', hrun, hcache,
    (hosts_outlive_their_use hrun).1 hprocessing _ hnode 0 hcache, hend,
    hretired, ?_⟩
  refine (hosts_outlive_their_use hbetween).2 _ s' hlast (by simp) hsame ?_
  intro plugin hplugin
  rw [hretired] at hplugin
  obtain rfl := List.mem_singleton.mp hplugin
  exact ⟨3, rfl, hchanges.ge, by rw [hchanges]; norm_num⟩

/-- An effect is deleted, and the next block has seen it. -/
def deletedAndSeen : List (SystemEvent Unit) :=
  [.control (.loadEffectsFromConfig
      [⟨"fx_1", true, 6, (), true⟩, ⟨"fx_2", true, 0, (), true⟩]),
    .control (.deleteEffect "fx_1"), .load, .observe, .finish]

theorem deletedAndSeen_any :
    (deletedAndSeen.foldlM (pacedStep someTypes) (start Unit)).any
        (fun s => (s.effects.effectStates "fx_2").isSome &&
          decide (s.effects.effectStatesSeq = 3) &&
          decide ((3, 0) ∈ s.effects.retiredPlugins) &&
          (match s.audio.phase with | .between => true | _ => false) &&
          decide (s.audio.nodes = []) && decide (s.changes = 3) &&
          decide (s.observed = 3)) = true := by
  decide

/-- A retired host is not freed when the block comes too late for the
comparison. -/
theorem hosts_are_not_all_released :
    ¬ ∀ es s, Run (PacedStep someTypes) (start Unit) es s →
      ∀ es' s', Run (PacedStep someTypes) s (.load :: es') s' →
        SystemEvent.observe ∈ es' → s'.changes = s.changes →
        (pollPlugins s'.effects).retiredPlugins = [] := by
  intro hclaim
  obtain ⟨s, hsome, hs⟩ := (Option.any_eq_true _ _).mp deletedAndSeen_any
  simp only [Bool.and_eq_true, decide_eq_true_eq] at hs
  obtain ⟨⟨⟨⟨⟨⟨heffect, hseq⟩, hretired⟩, hphase⟩, hnodes⟩, hchanges⟩,
    hobserved⟩ := hs
  have hbetween : s.audio.phase = .between := by
    revert hphase
    cases s.audio.phase <;> simp
  have hwaiting : s.Waiting "fx_2" 0 3 :=
    ⟨heffect, by rw [hseq, hchanges]; rfl, hretired, hbetween, hnodes, hchanges,
      hobserved⟩
  obtain ⟨es, s₁, es', s', hrun, hlast, hmem, hsame, hkept⟩ :=
    @Waiting.stays _ s someTypes _ _ _ hwaiting
  have hempty := hclaim _ _
    (Run.append_iff.mpr ⟨s, run_of_foldlM hsome, hrun⟩) es' s' hlast hmem hsame
  rw [hempty] at hkept
  exact absurd hkept List.not_mem_nil

end System
end Audiox.Effects
