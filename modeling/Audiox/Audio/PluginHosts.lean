import Audiox.Audio.Effects
import Audiox.Support.Runs
import Mathlib

/-!
# Plugin hosts and the audio thread

The audio thread reads effects through a cache, which a block refreshes where
the sequence number of the effects has changed, and then it stores the number
that it has seen.  A retired host is freed when this number has reached the one
of the change that retired it.
-/

namespace Audiox.Effects

open Runs

/-! ## The lifetime of a host -/

section Lifetime

variable {V : Type} {types : Types V} {s s' : State V}

/-- Every effect with a host has it under its own id. -/
structure Owned (s : State V) : Prop where
  keys : (s.pluginHosts.map Prod.fst).Nodup
  owner : ∀ id effect host, s.effectStates id = some effect →
    effect.pluginHost = some host → (id, host) ∈ s.pluginHosts

/-- What a region may do with hosts: it retires them under the number that it
gives to its own change. -/
structure Moves (s s' : State V) : Prop where
  seq : s'.effectStatesSeq = s.effectStatesSeq ∨
    s'.effectStatesSeq = s.effectStatesSeq + 1
  observed : s'.pluginObservedSeq = s.pluginObservedSeq
  hosts : ∀ found ∈ s.pluginHosts, found ∈ s'.pluginHosts ∨
    (s.effectStatesSeq + 1, found.2) ∈ s'.retiredPlugins ∧
      s'.effectStatesSeq = s.effectStatesSeq + 1
  kept : ∀ plugin ∈ s.retiredPlugins, plugin ∈ s'.retiredPlugins
  added : ∀ plugin ∈ s'.retiredPlugins, plugin ∈ s.retiredPlugins ∨
    plugin.1 = s.effectStatesSeq + 1 ∧
      s'.effectStatesSeq = s.effectStatesSeq + 1

theorem owned_start : Owned (start V) where
  keys := List.nodup_nil
  owner _ _ _ h := by simp [start] at h

/-- A region that changes neither hosts nor the number. -/
theorem Moves.of_same (hseq : s'.effectStatesSeq = s.effectStatesSeq)
    (hobserved : s'.pluginObservedSeq = s.pluginObservedSeq)
    (hhosts : s'.pluginHosts = s.pluginHosts)
    (hretired : s'.retiredPlugins = s.retiredPlugins) : Moves s s' where
  seq := .inl hseq
  observed := hobserved
  hosts := fun found hfound => .inl (by rw [hhosts]; exact hfound)
  kept := fun plugin hplugin => by rw [hretired]; exact hplugin
  added := fun plugin hplugin => .inl (by rw [← hretired]; exact hplugin)

/-! ### Retiring the host of an id -/

theorem mem_pluginHosts_retirePlugin (s : State V) (id : String)
    {found : String × Host} :
    found ∈ (retirePlugin s id).pluginHosts ↔
      found ∈ s.pluginHosts ∧ found.1 ≠ id := by
  rw [retirePlugin]
  split
  case h_1 hnone =>
    constructor
    · exact fun h => ⟨h, KeyedList.find_eq_none.mp hnone found h⟩
    · exact And.left
  case h_2 => exact KeyedList.mem_without

theorem keys_retirePlugin (howned : Owned s) (id : String) :
    ((retirePlugin s id).pluginHosts.map Prod.fst).Nodup := by
  rw [retirePlugin]
  split
  · exact howned.keys
  · exact KeyedList.nodup_map_without howned.keys

theorem retired_retirePlugin (howned : Owned s) {id : String} {host : Host}
    (h : (id, host) ∈ s.pluginHosts) :
    (retirePlugin s id).retiredPlugins =
      s.retiredPlugins ++ [(s.effectStatesSeq + 1, host)] := by
  have hfind : KeyedList.find Prod.fst id s.pluginHosts = some (id, host) :=
    KeyedList.find_of_mem howned.keys h
  rw [retirePlugin, hfind]

theorem retired_retirePlugin_cases (s : State V) (id : String) :
    (retirePlugin s id).retiredPlugins = s.retiredPlugins ∨
      ∃ host, (retirePlugin s id).retiredPlugins =
        s.retiredPlugins ++ [(s.effectStatesSeq + 1, host)] := by
  rw [retirePlugin]
  split
  · exact .inl rfl
  · exact .inr ⟨_, rfl⟩

/-- A region that retires the host of one id, and may give it another one. -/
theorem moves_of_retire (howned : Owned s) (id : String)
    (hseq : s'.effectStatesSeq = s.effectStatesSeq + 1)
    (hobserved : s'.pluginObservedSeq = s.pluginObservedSeq)
    (hhosts : ∀ found ∈ (retirePlugin s id).pluginHosts,
      found ∈ s'.pluginHosts)
    (hretired : s'.retiredPlugins = (retirePlugin s id).retiredPlugins) :
    Moves s s' where
  seq := .inr hseq
  observed := hobserved
  hosts := by
    intro found hfound
    by_cases hid : found.1 = id
    · right
      have hmem : (id, found.2) ∈ s.pluginHosts := by
        rw [← hid]
        exact hfound
      rw [hretired, retired_retirePlugin howned hmem]
      exact ⟨by simp, hseq⟩
    · exact .inl (hhosts found
        ((mem_pluginHosts_retirePlugin s id).mpr ⟨hfound, hid⟩))
  kept := by
    intro plugin hplugin
    rw [hretired]
    rcases retired_retirePlugin_cases s id with heq | ⟨host, heq⟩
    · rw [heq]
      exact hplugin
    · rw [heq]
      exact List.mem_append_left _ hplugin
  added := by
    intro plugin hplugin
    rw [hretired] at hplugin
    rcases retired_retirePlugin_cases s id with heq | ⟨host, heq⟩
    · rw [heq] at hplugin
      exact .inl hplugin
    · rw [heq, List.mem_append, List.mem_singleton] at hplugin
      rcases hplugin with hold | hnew
      · exact .inl hold
      · exact .inr ⟨by rw [hnew], hseq⟩

/-! ### Putting an effect -/

theorem pluginHosts_attachPlugin (s : State V) (id : String)
    (host : Option Host) {found : String × Host} :
    found ∈ (attachPlugin s id host).pluginHosts ↔
      host = some found.2 ∧ found.1 = id ∨
        found ∈ s.pluginHosts ∧ found.1 ≠ id := by
  cases host with
  | none =>
      rw [attachPlugin, mem_pluginHosts_retirePlugin]
      simp
  | some host =>
      rw [attachPlugin, KeyedList.mem_put, mem_pluginHosts_retirePlugin]
      constructor
      · rintro (heq | ⟨hold, _⟩)
        · exact .inl ⟨by rw [heq], by rw [heq]⟩
        · exact .inr hold
      · rintro (⟨hhost, hid⟩ | hold)
        · exact .inl (Prod.ext hid (Option.some.inj hhost).symm)
        · exact .inr ⟨hold, hold.2⟩

theorem keys_attachPlugin (howned : Owned s) (id : String)
    (host : Option Host) :
    ((attachPlugin s id host).pluginHosts.map Prod.fst).Nodup := by
  cases host with
  | none => exact keys_retirePlugin howned id
  | some host =>
      exact KeyedList.nodup_map_put (keys_retirePlugin howned id)
        fun _ _ h => h

theorem owned_putEffect (howned : Owned s) (id : String) (effect : Effect V)
    (host : Option Host) : Owned (putEffect s id effect host) where
  keys := keys_attachPlugin howned id host
  owner := by
    intro id' effect' host' heffect hhost
    refine (pluginHosts_attachPlugin s id host).mpr ?_
    by_cases hid : id' = id
    · subst hid
      have hput := (Function.update_self id' _ _).symm.trans heffect
      obtain rfl := Option.some.inj hput
      exact .inl ⟨hhost, rfl⟩
    · have hkept := (Function.update_of_ne hid _ _).symm.trans heffect
      exact .inr ⟨howned.owner id' effect' host' hkept hhost, hid⟩

theorem observed_retirePlugin (s : State V) (id : String) :
    (retirePlugin s id).pluginObservedSeq = s.pluginObservedSeq := by
  rw [retirePlugin]
  split
  · rfl
  · rfl

theorem moves_putEffect (howned : Owned s) (id : String) (effect : Effect V)
    (host : Option Host) : Moves s (putEffect s id effect host) := by
  refine moves_of_retire howned id rfl ?_ ?_ ?_
  · cases host with
    | none => exact observed_retirePlugin s id
    | some host => exact observed_retirePlugin s id
  · intro found hfound
    exact (pluginHosts_attachPlugin s id host).mpr
      (.inr ((mem_pluginHosts_retirePlugin s id).mp hfound))
  · cases host with
    | none => rfl
    | some host => rfl

/-! ### Loading -/

/-- What a load has built so far. -/
structure OwnedBy (l : Loaded V) : Prop where
  keys : (l.hosts.map Prod.fst).Nodup
  owner : ∀ id effect host, l.states id = some effect →
    effect.pluginHost = some host → (id, host) ∈ l.hosts

theorem ownedBy_addEntry {l : Loaded V} (howned : OwnedBy l)
    (entry : Entry V) : OwnedBy (addEntry types l entry) := by
  have hmem : ∀ {found}, found ∈ l.hosts → found.1 ≠ entry.id →
      found ∈ (addEntry types l entry).hosts := by
    intro found hfound hid
    rw [addEntry]
    split
    · exact KeyedList.mem_put.mpr (.inr ⟨hfound, hid⟩)
    · exact hfound
  constructor
  · rw [addEntry]
    split
    · exact KeyedList.nodup_map_put howned.keys fun _ _ h => h
    · exact howned.keys
  · intro id effect host heffect hhost
    by_cases hid : id = entry.id
    · subst hid
      have hnew := (Function.update_self entry.id _ _).symm.trans heffect
      obtain rfl := Option.some.inj hnew
      simp only [addEntry]
      rw [show entryHost types l entry = some host from hhost]
      exact KeyedList.mem_put.mpr (.inl rfl)
    · have hkept := (Function.update_of_ne hid _ _).symm.trans heffect
      exact hmem (howned.owner id effect host hkept hhost) hid

theorem ownedBy_loaded (s : State V) (entries : List (Entry V)) :
    OwnedBy (loaded types s entries) := by
  have hfold : ∀ (entries : List (Entry V)) (l : Loaded V), OwnedBy l →
      OwnedBy (entries.foldl (addEntry types) l) := by
    intro entries
    induction entries with
    | nil => exact fun _ h => h
    | cons entry entries ih => exact fun l h => ih _ (ownedBy_addEntry h entry)
  refine hfold entries _ ⟨List.nodup_nil, ?_⟩
  intro id effect host h
  simp at h

theorem owned_replaceEffects (s : State V) (entries : List (Entry V))
    (next : UInt32) : Owned (replaceEffects types s entries next) where
  keys := (ownedBy_loaded s entries).keys
  owner := (ownedBy_loaded s entries).owner

theorem moves_replaceEffects (s : State V) (entries : List (Entry V))
    (next : UInt32) : Moves s (replaceEffects types s entries next) where
  seq := .inr rfl
  observed := rfl
  hosts := by
    intro found hfound
    right
    exact ⟨List.mem_append_right _ (List.mem_map.mpr ⟨found, hfound, rfl⟩), rfl⟩
  kept := fun plugin hplugin => List.mem_append_left _ hplugin
  added := by
    intro plugin hplugin
    rcases List.mem_append.mp hplugin with hold | hnew
    · exact .inl hold
    · obtain ⟨found, _, rfl⟩ := List.mem_map.mp hnew
      exact .inr ⟨rfl, rfl⟩

/-! ### All regions -/

/-- A region other than that of `pollPlugins`. -/
def Event.isPoll : Event V → Bool
  | .pollPlugins => true
  | _ => false

theorem owned_deleteEffect (howned : Owned s) (id : String) :
    Owned (deleteEffect s id) ∧ Moves s (deleteEffect s id) := by
  rw [deleteEffect]
  split
  case h_1 => exact ⟨howned, .of_same rfl rfl rfl rfl⟩
  case h_2 =>
    refine ⟨⟨keys_retirePlugin howned id, ?_⟩, moves_of_retire howned id rfl
      (observed_retirePlugin s id) (fun _ h => h) rfl⟩
    intro id' effect host heffect hhost
    by_cases hid : id' = id
    · simp [hid] at heffect
    · have hkept := (Function.update_of_ne hid _ _).symm.trans heffect
      exact (mem_pluginHosts_retirePlugin s id).mpr
        ⟨howned.owner id' effect host hkept hhost, hid⟩

theorem owned_setEffect (howned : Owned s) (id : String) (enabled : Bool)
    (values : V) : Owned (setEffect s id enabled values) ∧
      Moves s (setEffect s id enabled values) := by
  rw [setEffect]
  split
  case h_1 => exact ⟨howned, .of_same rfl rfl rfl rfl⟩
  case h_2 effect heffect =>
    refine ⟨⟨howned.keys, ?_⟩, .inr rfl, rfl, fun _ h => .inl h,
      fun _ h => h, fun _ h => .inl h⟩
    intro id' effect' host heffect' hhost
    by_cases hid : id' = id
    · subst hid
      have hset := (Function.update_self id' _ _).symm.trans heffect'
      obtain rfl := Option.some.inj hset
      exact howned.owner id' effect host heffect hhost
    · have hkept := (Function.update_of_ne hid _ _).symm.trans heffect'
      exact howned.owner id' effect' host hkept hhost

theorem owned_step {e : Event V} (h : step types s e = some s')
    (hpoll : e.isPoll = false) (howned : Owned s) :
    Owned s' ∧ Moves s s' := by
  have hsame : Moves s s := .of_same rfl rfl rfl rfl
  cases e with
  | reserve type =>
      rw [step, reserve] at h
      split at h
      · simp at h
      · obtain rfl := Option.some.inj h
        exact ⟨⟨howned.keys, howned.owner⟩, .of_same rfl rfl rfl rfl⟩
  | insert call started =>
      rw [step, insert] at h
      split at h
      · simp at h
      · split at h
        · obtain rfl := Option.some.inj h
          exact ⟨⟨howned.keys, howned.owner⟩, .of_same rfl rfl rfl rfl⟩
        · obtain rfl := Option.some.inj h
          have hput := owned_putEffect howned call.id
            { enabled := call.type != EFFECT_CUT
              type := call.type
              values := types.clampValues call.type
                (types.slotDefaults call.type)
              pluginHost := none
              serial := s.serials } (prepared types s call.type)
          have hmoves := moves_putEffect howned call.id
            { enabled := call.type != EFFECT_CUT
              type := call.type
              values := types.clampValues call.type
                (types.slotDefaults call.type)
              pluginHost := none
              serial := s.serials } (prepared types s call.type)
          exact ⟨⟨hput.keys, hput.owner⟩, hmoves.seq, hmoves.observed,
            hmoves.hosts, hmoves.kept, hmoves.added⟩
  | readType id type =>
      obtain rfl := Option.some.inj h
      rw [readType]
      split
      · exact ⟨howned, hsame⟩
      · exact ⟨⟨howned.keys, howned.owner⟩, .of_same rfl rfl rfl rfl⟩
  | writeType call started =>
      rw [step, writeType] at h
      split at h
      · simp at h
      · split at h
        · obtain rfl := Option.some.inj h
          exact ⟨⟨howned.keys, howned.owner⟩, .of_same rfl rfl rfl rfl⟩
        · split at h
          · obtain rfl := Option.some.inj h
            exact ⟨⟨howned.keys, howned.owner⟩, .of_same rfl rfl rfl rfl⟩
          · rename_i effect _
            split at h
            · obtain rfl := Option.some.inj h
              exact ⟨⟨howned.keys, howned.owner⟩, .of_same rfl rfl rfl rfl⟩
            · obtain rfl := Option.some.inj h
              have hput := owned_putEffect howned call.id
                { effect with
                  type := call.type
                  values := types.slotDefaults call.type }
                (prepared types s call.type)
              have hmoves := moves_putEffect howned call.id
                { effect with
                  type := call.type
                  values := types.slotDefaults call.type }
                (prepared types s call.type)
              exact ⟨⟨hput.keys, hput.owner⟩, hmoves.seq, hmoves.observed,
                hmoves.hosts, hmoves.kept, hmoves.added⟩
  | deleteEffect id =>
      obtain rfl := Option.some.inj h
      exact owned_deleteEffect howned id
  | setEffect id enabled values =>
      obtain rfl := Option.some.inj h
      exact owned_setEffect howned id enabled values
  | reloadPlugin id type values =>
      obtain rfl := Option.some.inj h
      rw [reloadPlugin]
      split
      · exact ⟨howned, hsame⟩
      · split
        · exact ⟨howned, hsame⟩
        · exact ⟨owned_putEffect howned id _ _, moves_putEffect howned id _ _⟩
  | loadEffectsFromConfig entries =>
      obtain rfl := Option.some.inj h
      exact ⟨owned_replaceEffects s entries _, moves_replaceEffects s entries _⟩
  | recallScene entries =>
      rw [step, recallScene] at h
      split at h
      · simp at h
      · obtain rfl := Option.some.inj h
        exact ⟨owned_replaceEffects s entries _,
          moves_replaceEffects s entries _⟩
  | pollPlugins => simp [Event.isPoll] at hpoll

end Lifetime
end Audiox.Effects
