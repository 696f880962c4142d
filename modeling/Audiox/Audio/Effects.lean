import Audiox.Support.KeyedList
import Mathlib

/-!
# The set of effects

Every change of the effects happens in one region of `effectsMutex`.  The
calls that start a plugin have two regions: they read or reserve what they need
in the first one, start the plugin without the lock, and write in the second
one.  A plugin host that an effect loses is kept aside until the audio thread
has seen the change.
-/

namespace Audiox.Effects

/-- A plugin host, by the number of those made before it. -/
abbrev Host : Type := Nat

def EFFECT_CUT : Nat := 5

/-- What the code knows of the types of effects, and how it reads the number
of an id `fx_%u`. -/
structure Types (V : Type) where
  isPluginType : Nat → Bool
  slotDefaults : Nat → V
  clampValues : Nat → V → V
  clampType : Nat → Nat
  fxNumber : String → Option UInt32

structure SlotParams (V : Type) where
  enabled : Bool
  type : Nat
  values : V
  pluginHost : Option Host

/-- An effect; `serial` counts the effects created before it. -/
structure Effect (V : Type) extends SlotParams V where
  serial : Nat

/-- A call of `createEffect` between its two regions. -/
structure Creating where
  id : String
  type : Nat
deriving DecidableEq

/-- A call of `setEffectType` between its two regions, with what it has
read. -/
structure Retyping where
  id : String
  serial : Nat
  previousType : Nat
  type : Nat
deriving DecidableEq

/-- `made` counts the hosts and `serials` the effects so far. -/
structure State (V : Type) where
  effectStates : String → Option (Effect V)
  pluginHosts : List (String × Host)
  retiredPlugins : List (UInt32 × Host)
  effectStatesSeq : UInt32
  pluginObservedSeq : UInt32
  nextEffectId : UInt32
  creating : List Creating
  retyping : List Retyping
  made : Nat
  serials : Nat

/-- An effect of the configuration or of a scene; `started` tells whether its
plugin could be started. -/
structure Entry (V : Type) where
  id : String
  enabled : Bool
  type : Nat
  values : V
  started : Bool

inductive Event (V : Type) where
  | reserve (type : Nat)
  | insert (call : Creating) (started : Bool)
  | readType (id : String) (type : Nat)
  | writeType (call : Retyping) (started : Bool)
  | deleteEffect (id : String)
  | setEffect (id : String) (enabled : Bool) (values : V)
  | reloadPlugin (id : String) (type : Nat) (values : V)
  | loadEffectsFromConfig (entries : List (Entry V))
  | recallScene (entries : List (Entry V))
  | pollPlugins

section Steps

variable {V : Type} (types : Types V)

/-! ## Plugin hosts -/

def retirePlugin (s : State V) (id : String) : State V :=
  match KeyedList.find Prod.fst id s.pluginHosts with
  | none => s
  | some found =>
      { s with
        retiredPlugins :=
          s.retiredPlugins ++ [(s.effectStatesSeq + 1, found.2)]
        pluginHosts := KeyedList.without Prod.fst id s.pluginHosts }

/-- Retires what the effect has and gives it the host made last. -/
def attachPlugin (s : State V) (id : String) (host : Option Host) : State V :=
  match host with
  | none => retirePlugin s id
  | some host =>
      { retirePlugin s id with
        pluginHosts :=
          KeyedList.put Prod.fst (id, host) (retirePlugin s id).pluginHosts }

def retireAll (s : State V) : State V :=
  { s with
    retiredPlugins := s.retiredPlugins ++
      s.pluginHosts.map fun found => (s.effectStatesSeq + 1, found.2)
    pluginHosts := [] }

/-- The host that `preparePlugin` makes for a type; a builtin type has
none. -/
def prepared (s : State V) (type : Nat) : Option Host :=
  if types.isPluginType type then some s.made else none

/-- The call returns an error when the plugin does not start. -/
def startFails (type : Nat) (started : Bool) : Bool :=
  types.isPluginType type && !started

/-- One effect is put in place of what has its id. -/
def putEffect (s : State V) (id : String) (effect : Effect V)
    (host : Option Host) : State V :=
  { attachPlugin s id host with
    effectStates := Function.update s.effectStates id
      (some { effect with pluginHost := host })
    effectStatesSeq := s.effectStatesSeq + 1
    made := s.made + 1 }

/-! ## `createEffect` -/

def fx (id : UInt32) : String := "fx_" ++ toString id.toNat

def nextId (id : UInt32) : UInt32 := if id + 1 = 0 then 1 else id + 1

/-- The loop over the counter, which goes on for ever when every id is
taken. -/
def firstFree (effectStates : String → Option (Effect V)) :
    Nat → UInt32 → Option UInt32
  | 0, _ => none
  | fuel + 1, id =>
      if (effectStates (fx id)).isNone then some id
      else firstFree effectStates fuel (nextId id)

def reserve (s : State V) (type : Nat) : Option (State V) :=
  match firstFree s.effectStates (2 ^ 32) s.nextEffectId with
  | none => none
  | some id =>
      some { s with
        nextEffectId := nextId id
        creating := ⟨fx id, type⟩ :: s.creating }

def insert (s : State V) (call : Creating) (started : Bool) :
    Option (State V) :=
  if call ∉ s.creating then none
  else if startFails types call.type started then
    some { s with creating := s.creating.erase call }
  else
    some { putEffect s call.id
        { enabled := call.type != EFFECT_CUT
          type := call.type
          values := types.clampValues call.type (types.slotDefaults call.type)
          pluginHost := none
          serial := s.serials } (prepared types s call.type) with
      creating := s.creating.erase call
      serials := s.serials + 1 }

/-! ## `setEffectType` -/

def readType (s : State V) (id : String) (type : Nat) : State V :=
  match s.effectStates id with
  | none => s
  | some effect =>
      { s with retyping :=
          ⟨id, effect.serial, types.clampType effect.type, type⟩ :: s.retyping }

def writeType (s : State V) (call : Retyping) (started : Bool) :
    Option (State V) :=
  if call ∉ s.retyping then none
  else if startFails types call.type started then
    some { s with retyping := s.retyping.erase call }
  else
    match s.effectStates call.id with
    | none => some { s with retyping := s.retyping.erase call }
    | some effect =>
        if effect.type ≠ call.previousType then
          some { s with retyping := s.retyping.erase call }
        else
          some { putEffect s call.id
              { effect with
                type := call.type
                values := types.slotDefaults call.type }
              (prepared types s call.type) with
            retyping := s.retyping.erase call }

/-! ## The other calls -/

def deleteEffect (s : State V) (id : String) : State V :=
  match s.effectStates id with
  | none => s
  | some _ =>
      { retirePlugin s id with
        effectStates := Function.update s.effectStates id none
        effectStatesSeq := s.effectStatesSeq + 1 }

/-- `setEffectEnabled`, `toggleEffectEnabled` and `setEffectParam`. -/
def setEffect (s : State V) (id : String) (enabled : Bool) (values : V) :
    State V :=
  match s.effectStates id with
  | none => s
  | some effect =>
      { s with
        effectStates := Function.update s.effectStates id
          (some { effect with enabled := enabled, values := values })
        effectStatesSeq := s.effectStatesSeq + 1 }

/-- The region of `reloadPlugins` for one effect, whose plugin has been started
anew. -/
def reloadPlugin (s : State V) (id : String) (type : Nat) (values : V) :
    State V :=
  match s.effectStates id with
  | none => s
  | some effect =>
      if effect.type ≠ type ∨ !types.isPluginType type then s
      else
        putEffect s id
          { effect with
            values :=
              if effect.pluginHost.isNone then values else effect.values }
          (some s.made)

/-- What a load builds before it takes the lock. -/
structure Loaded (V : Type) where
  states : String → Option (Effect V)
  hosts : List (String × Host)
  made : Nat
  serials : Nat

def entryHost (l : Loaded V) (entry : Entry V) : Option Host :=
  if types.isPluginType entry.type && entry.started then some l.made else none

def addEntry (l : Loaded V) (entry : Entry V) : Loaded V where
  states := Function.update l.states entry.id
    (some { enabled := entry.enabled
            type := entry.type
            values := entry.values
            pluginHost := entryHost types l entry
            serial := l.serials })
  hosts :=
    match entryHost types l entry with
    | some host => KeyedList.put Prod.fst (entry.id, host) l.hosts
    | none => l.hosts
  made := l.made + 1
  serials := l.serials + 1

def loaded (s : State V) (entries : List (Entry V)) : Loaded V :=
  entries.foldl (addEntry types) ⟨fun _ => none, [], s.made, s.serials⟩

/-- Replaces the whole set. -/
def replaceEffects (s : State V) (entries : List (Entry V))
    (nextEffectId : UInt32) : State V :=
  { retireAll s with
    effectStates := (loaded types s entries).states
    pluginHosts := (loaded types s entries).hosts
    effectStatesSeq := s.effectStatesSeq + 1
    nextEffectId := nextEffectId
    made := (loaded types s entries).made
    serials := (loaded types s entries).serials }

def maxId (entries : List (Entry V)) : UInt32 :=
  entries.foldl (fun m entry =>
    match types.fxNumber entry.id with
    | some id => if m < id then id else m
    | none => m) 0

def loadEffectsFromConfig (s : State V) (entries : List (Entry V)) :
    State V :=
  replaceEffects types s entries (nextId (maxId types entries))

/-- A scene is recalled only when all its plugins could be started. -/
def recallScene (s : State V) (entries : List (Entry V)) : Option (State V) :=
  if entries.any fun entry => startFails types entry.type entry.started then
    none
  else
    some (replaceEffects types s entries
      (entries.foldl (fun next entry =>
        match types.fxNumber entry.id with
        | some id => if id < 4294967295 then max next (id + 1) else next
        | none => next) 1))

/-- The comparison is that of signed 32-bit numbers. -/
def released (observed sequence : UInt32) : Bool :=
  (observed - sequence).toNat < 2 ^ 31

def pollPlugins (s : State V) : State V :=
  { s with retiredPlugins := s.retiredPlugins.filter fun plugin =>
      !released s.pluginObservedSeq plugin.1 }

def step (s : State V) : Event V → Option (State V)
  | .reserve type => reserve s type
  | .insert call started => insert types s call started
  | .readType id type => some (readType types s id type)
  | .writeType call started => writeType types s call started
  | .deleteEffect id => some (deleteEffect s id)
  | .setEffect id enabled values => some (setEffect s id enabled values)
  | .reloadPlugin id type values => some (reloadPlugin types s id type values)
  | .loadEffectsFromConfig entries =>
      some (loadEffectsFromConfig types s entries)
  | .recallScene entries => recallScene types s entries
  | .pollPlugins => some (pollPlugins s)

end Steps

/-- Before the first load. -/
def start (V : Type) : State V where
  effectStates _ := none
  pluginHosts := []
  retiredPlugins := []
  effectStatesSeq := 1
  pluginObservedSeq := 0
  nextEffectId := 1
  creating := []
  retyping := []
  made := 0
  serials := 0

end Audiox.Effects
