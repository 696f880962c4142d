import Audiox.Audio.Effects
import Audiox.Support.Runs
import Mathlib

/-!
# Effects keep their identity

A call that has reserved an id, or read an effect, does not hold the lock while
it starts a plugin.  Meanwhile the set may be replaced and the counter of ids
reset.  Each effect stays what it is, except for calls that name it, as long as
no effect is put under an id that such a call is still to write.
-/

namespace Audiox.Effects

open Runs

section Identity

variable {V : Type} (types : Types V)

/-- The calls that may change the effect of an id. -/
def Event.Names (id : String) : Event V → Prop
  | .writeType call _ => call.id = id
  | .deleteEffect id' => id' = id
  | .setEffect id' _ _ => id' = id
  | .reloadPlugin id' _ _ => id' = id
  | .loadEffectsFromConfig _ => True
  | .recallScene _ => True
  | _ => False

/-- What a step may do to the effects that are there. -/
structure Law (s : State V) (e : Event V) (s' : State V) : Prop where
  kept : ∀ id effect, s.effectStates id = some effect → ¬e.Names id →
    s'.effectStates id = some effect ∧
      KeyedList.find Prod.fst id s'.pluginHosts =
        KeyedList.find Prod.fst id s.pluginHosts
  created : ∀ call started, e = .insert call started →
    startFails types call.type started = false →
      s.effectStates call.id = none
  retyped : ∀ call started effect, e = .writeType call started →
    s.effectStates call.id = some effect →
      s'.effectStates call.id = some effect ∨
        effect.serial = call.serial ∧
          ∃ effect', s'.effectStates call.id = some effect' ∧
            effect'.serial = call.serial ∧ effect'.type = call.type ∧
              effect'.values = types.slotDefaults call.type

/-! ## The condition on a step -/

/-- No effect of the type is put under the id while a call of `setEffectType`
that has read another effect of that type under it is still to write. -/
def FreeOf (retyping : List Retyping) (id : String) (type serial : Nat) :
    Prop :=
  ∀ call ∈ retyping, call.id = id → call.previousType = type →
    call.serial = serial

/-- No call of `createEffect` has reserved the id. -/
def Unreserved (s : State V) (id : String) : Prop :=
  ∀ call ∈ s.creating, call.id ≠ id

/-- The set of a load or a recall has none of the ids that are reserved, and
no effect in place of one that a call is still to write. -/
def EntriesFree (s : State V) (entries : List (Entry V)) : Prop :=
  ∀ entry ∈ entries, Unreserved s entry.id ∧
    ∀ call ∈ s.retyping, call.id = entry.id →
      call.previousType ≠ entry.type

def Careful (s : State V) : Event V → Prop
  | .reserve _ =>
      ∀ id ∈ firstFree s.effectStates (2 ^ 32) s.nextEffectId,
        Unreserved s (fx id)
  | .insert call started =>
      startFails types call.type started = false →
        ∀ other ∈ s.retyping, other.id = call.id →
          other.previousType ≠ call.type
  | .writeType call _ =>
      ∀ effect, s.effectStates call.id = some effect →
        FreeOf (s.retyping.erase call) call.id call.type effect.serial
  | .loadEffectsFromConfig entries => EntriesFree s entries
  | .recallScene entries => EntriesFree s entries
  | _ => True

/-! ## What is kept -/

/-- Reserved ids are free and apart, and a call that has read an effect finds
no other of the same type. -/
structure Inv (s : State V) : Prop where
  free : ∀ call ∈ s.creating, s.effectStates call.id = none
  apart : (s.creating.map Creating.id).Nodup
  read : ∀ call ∈ s.retyping, ∀ effect,
    s.effectStates call.id = some effect →
      effect.type = call.previousType → effect.serial = call.serial

theorem inv_start : Inv (start V) where
  free _ h := absurd h List.not_mem_nil
  apart := List.nodup_nil
  read _ h := absurd h List.not_mem_nil

variable {types} {s s' : State V}

/-! ### Lemmas about the operations -/

@[simp]
theorem effectStates_retirePlugin (s : State V) (id : String) :
    (retirePlugin s id).effectStates = s.effectStates := by
  rw [retirePlugin]
  split
  · rfl
  · rfl

theorem calls_retirePlugin (s : State V) (id : String) :
    (retirePlugin s id).creating = s.creating ∧
      (retirePlugin s id).retyping = s.retyping := by
  rw [retirePlugin]
  split
  · exact ⟨rfl, rfl⟩
  · exact ⟨rfl, rfl⟩

@[simp]
theorem creating_putEffect (s : State V) (id : String) (effect : Effect V)
    (host : Option Host) : (putEffect s id effect host).creating = s.creating := by
  cases host with
  | none => exact (calls_retirePlugin s id).1
  | some host => exact (calls_retirePlugin s id).1

@[simp]
theorem retyping_putEffect (s : State V) (id : String) (effect : Effect V)
    (host : Option Host) : (putEffect s id effect host).retyping = s.retyping := by
  cases host with
  | none => exact (calls_retirePlugin s id).2
  | some host => exact (calls_retirePlugin s id).2

theorem find_retirePlugin {id id' : String} (h : id' ≠ id) :
    KeyedList.find Prod.fst id' (retirePlugin s id).pluginHosts =
      KeyedList.find Prod.fst id' s.pluginHosts := by
  rw [retirePlugin]
  split
  · rfl
  · rw [KeyedList.find_without, if_neg h]

theorem find_attachPlugin {id id' : String} {host : Option Host}
    (h : id' ≠ id) :
    KeyedList.find Prod.fst id' (attachPlugin s id host).pluginHosts =
      KeyedList.find Prod.fst id' s.pluginHosts := by
  cases host with
  | none => exact find_retirePlugin h
  | some host =>
      rw [attachPlugin, KeyedList.find_put, if_neg h, find_retirePlugin h]

theorem effectStates_putEffect_of_ne {id id' : String} {effect : Effect V}
    {host : Option Host} (h : id' ≠ id) :
    (putEffect s id effect host).effectStates id' = s.effectStates id' :=
  Function.update_of_ne h _ _

theorem effectStates_putEffect_self (id : String) (effect : Effect V)
    (host : Option Host) :
    (putEffect s id effect host).effectStates id =
      some { effect with pluginHost := host } :=
  Function.update_self id _ _

theorem firstFree_free {states : String → Option (Effect V)} {fuel : Nat}
    {id found : UInt32} (h : firstFree states fuel id = some found) :
    states (fx found) = none := by
  induction fuel generalizing id with
  | zero => simp [firstFree] at h
  | succ fuel ih =>
      rw [firstFree] at h
      split at h
      case isTrue hfree =>
        obtain rfl := Option.some.inj h
        exact Option.isNone_iff_eq_none.mp hfree
      case isFalse => exact ih h

theorem states_addEntry (l : Loaded V) (entry : Entry V) :
    (addEntry types l entry).states =
      Function.update l.states entry.id
        (some { enabled := entry.enabled
                type := entry.type
                values := entry.values
                pluginHost := entryHost types l entry
                serial := l.serials }) := rfl

/-- An effect of a load comes from an entry. -/
theorem loaded_entry {entries : List (Entry V)} {id : String}
    {effect : Effect V} (h : (loaded types s entries).states id = some effect) :
    ∃ entry ∈ entries, entry.id = id ∧ entry.type = effect.type := by
  have hfold : ∀ (entries : List (Entry V)) (l : Loaded V),
      (entries.foldl (addEntry types) l).states id = some effect →
        l.states id = some effect ∨
          ∃ entry ∈ entries, entry.id = id ∧ entry.type = effect.type := by
    intro entries
    induction entries with
    | nil => exact fun l h => .inl h
    | cons entry entries ih =>
        intro l h
        rcases ih (addEntry types l entry) h with hbefore | ⟨e, he, hrest⟩
        · by_cases hid : id = entry.id
          · right
            refine ⟨entry, by simp, hid.symm, ?_⟩
            rw [hid, states_addEntry, Function.update_self] at hbefore
            rw [← Option.some.inj hbefore]
          · left
            rw [states_addEntry, Function.update_of_ne hid] at hbefore
            exact hbefore
        · exact .inr ⟨e, by simp [he], hrest⟩
  rcases hfold entries _ h with hnone | hentry
  · simp at hnone
  · exact hentry

/-! ### One step -/

theorem inv_reserve {type : Nat} (h : reserve s type = some s')
    (hcare : Careful types s (.reserve type)) (hinv : Inv s) : Inv s' := by
  rw [reserve] at h
  cases hfree : firstFree s.effectStates (2 ^ 32) s.nextEffectId with
  | none =>
      rw [hfree] at h
      simp at h
  | some id =>
      rw [hfree] at h
      obtain rfl := Option.some.inj h
      refine ⟨?_, ?_, hinv.read⟩
      · intro call hcall
        rcases List.mem_cons.mp hcall with rfl | hold
        · exact firstFree_free hfree
        · exact hinv.free call hold
      · refine List.nodup_cons.mpr ⟨fun hmem => ?_, hinv.apart⟩
        obtain ⟨call, hcall, heq⟩ := List.mem_map.mp hmem
        exact hcare id hfree call hcall heq

theorem apart_erase (hinv : Inv s) (call : Creating) :
    ((s.creating.erase call).map Creating.id).Nodup :=
  hinv.apart.sublist (List.erase_sublist.map _)

/-- A call that returns leaves the others as they are. -/
theorem inv_return (hinv : Inv s) (call : Creating) :
    Inv { s with creating := s.creating.erase call } where
  free other h := hinv.free other (List.mem_of_mem_erase h)
  apart := apart_erase hinv call
  read := hinv.read

theorem inv_returnType (hinv : Inv s) (call : Retyping) :
    Inv { s with retyping := s.retyping.erase call } where
  free := hinv.free
  apart := hinv.apart
  read other h := hinv.read other (List.mem_of_mem_erase h)

theorem ne_of_mem_erase (hinv : Inv s) {call other : Creating}
    (hcall : call ∈ s.creating) (h : other ∈ s.creating.erase call) :
    other.id ≠ call.id := by
  have hnodup : s.creating.Nodup := hinv.apart.of_map
  obtain ⟨hne, hmem⟩ := hnodup.mem_erase_iff.mp h
  exact fun heq => hne (List.inj_on_of_nodup_map hinv.apart hmem hcall heq)

theorem inv_insert {call : Creating} {started : Bool}
    (h : insert types s call started = some s')
    (hcare : Careful types s (.insert call started)) (hinv : Inv s) :
    Inv s' := by
  rw [insert] at h
  split at h
  case isTrue => simp at h
  case isFalse hmem =>
    have hmem : call ∈ s.creating := not_not.mp hmem
    split at h
    case isTrue =>
      obtain rfl := Option.some.inj h
      exact inv_return hinv call
    case isFalse hstarts =>
      obtain rfl := Option.some.inj h
      refine ⟨?_, apart_erase hinv call, ?_⟩
      · intro other hother
        have hne := ne_of_mem_erase hinv hmem hother
        exact (effectStates_putEffect_of_ne hne).trans
          (hinv.free other (List.mem_of_mem_erase hother))
      · intro other hother effect heffect htype
        have hother : other ∈ s.retyping := by simpa using hother
        by_cases hid : other.id = call.id
        · rw [hid] at heffect
          have hput := (effectStates_putEffect_self (s := s) call.id _ _).symm.trans
            heffect
          obtain rfl := Option.some.inj hput
          exact absurd htype.symm
            (hcare (by simpa using hstarts) other hother hid)
        · exact hinv.read other hother effect
            ((effectStates_putEffect_of_ne hid).symm.trans heffect) htype

theorem inv_readType (id : String) (type : Nat) (hinv : Inv s) :
    Inv (readType types s id type) := by
  rw [readType]
  split
  case h_1 => exact hinv
  case h_2 effect heffect =>
    refine ⟨hinv.free, hinv.apart, ?_⟩
    intro call hcall effect' heffect' htype
    rcases List.mem_cons.mp hcall with rfl | hold
    · rw [Option.some.inj (heffect'.symm.trans heffect)]
    · exact hinv.read call hold effect' heffect' htype

theorem inv_writeType {call : Retyping} {started : Bool}
    (h : writeType types s call started = some s')
    (hcare : Careful types s (.writeType call started)) (hinv : Inv s) :
    Inv s' := by
  rw [writeType] at h
  split at h
  case isTrue => simp at h
  case isFalse =>
    split at h
    case isTrue =>
      obtain rfl := Option.some.inj h
      exact inv_returnType hinv call
    case isFalse =>
      split at h
      case h_1 =>
        obtain rfl := Option.some.inj h
        exact inv_returnType hinv call
      case h_2 effect heffect =>
        split at h
        case isTrue =>
          obtain rfl := Option.some.inj h
          exact inv_returnType hinv call
        case isFalse =>
          obtain rfl := Option.some.inj h
          refine ⟨?_, ?_, ?_⟩
          · intro other hother
            have hother : other ∈ s.creating := by simpa using hother
            have hfree := hinv.free other hother
            have hne : other.id ≠ call.id := by
              intro heq
              rw [heq, heffect] at hfree
              simp at hfree
            exact (effectStates_putEffect_of_ne hne).trans hfree
          · simpa using hinv.apart
          · intro other hother effect' heffect' htype
            by_cases hid : other.id = call.id
            · rw [hid] at heffect'
              have hput := (effectStates_putEffect_self (s := s) call.id _
                _).symm.trans heffect'
              obtain rfl := Option.some.inj hput
              exact (hcare effect heffect other hother hid htype.symm).symm
            · exact hinv.read other (List.mem_of_mem_erase hother) effect'
                ((effectStates_putEffect_of_ne hid).symm.trans heffect') htype

/-- Where an effect stays or goes with its type and its number, the calls in
progress keep what they have. -/
theorem Inv.of_same (hinv : Inv s) (hcreating : s'.creating = s.creating)
    (hretyping : s'.retyping = s.retyping)
    (hstates : ∀ id effect', s'.effectStates id = some effect' →
      ∃ effect, s.effectStates id = some effect ∧
        effect.type = effect'.type ∧ effect.serial = effect'.serial) :
    Inv s' := by
  refine ⟨?_, by rw [hcreating]; exact hinv.apart, ?_⟩
  · intro call hcall
    rw [hcreating] at hcall
    by_contra hne
    obtain ⟨effect', heffect'⟩ := Option.ne_none_iff_exists'.mp hne
    obtain ⟨effect, heffect, _⟩ := hstates call.id effect' heffect'
    rw [hinv.free call hcall] at heffect
    simp at heffect
  · intro call hcall effect' heffect' htype
    rw [hretyping] at hcall
    obtain ⟨effect, heffect, htype', hserial⟩ :=
      hstates call.id effect' heffect'
    rw [← hserial]
    exact hinv.read call hcall effect heffect (htype'.trans htype)

theorem inv_deleteEffect (id : String) (hinv : Inv s) :
    Inv (deleteEffect s id) := by
  rw [deleteEffect]
  split
  case h_1 => exact hinv
  case h_2 =>
    obtain ⟨hcreating, hretyping⟩ := calls_retirePlugin s id
    refine hinv.of_same hcreating hretyping fun id' effect' h => ?_
    by_cases hid : id' = id
    · simp [hid] at h
    · exact ⟨effect', (Function.update_of_ne hid _ _).symm.trans h, rfl, rfl⟩

theorem inv_setEffect (id : String) (enabled : Bool) (values : V)
    (hinv : Inv s) : Inv (setEffect s id enabled values) := by
  rw [setEffect]
  split
  case h_1 => exact hinv
  case h_2 effect heffect =>
    refine hinv.of_same rfl rfl fun id' effect' h => ?_
    by_cases hid : id' = id
    · subst hid
      have hset := (Function.update_self id' _ _).symm.trans h
      obtain rfl := Option.some.inj hset
      exact ⟨effect, heffect, rfl, rfl⟩
    · exact ⟨effect', (Function.update_of_ne hid _ _).symm.trans h, rfl, rfl⟩

theorem inv_reloadPlugin (id : String) (type : Nat) (values : V)
    (hinv : Inv s) : Inv (reloadPlugin types s id type values) := by
  rw [reloadPlugin]
  split
  case h_1 => exact hinv
  case h_2 effect heffect =>
    split
    · exact hinv
    · refine hinv.of_same (creating_putEffect s id _ _)
        (retyping_putEffect s id _ _) fun id' effect' h => ?_
      by_cases hid : id' = id
      · subst hid
        have hput := (effectStates_putEffect_self id' _ _).symm.trans h
        obtain rfl := Option.some.inj hput
        exact ⟨effect, heffect, rfl, rfl⟩
      · exact ⟨effect', (effectStates_putEffect_of_ne hid).symm.trans h,
          rfl, rfl⟩

theorem inv_replaceEffects {entries : List (Entry V)} {next : UInt32}
    (hcare : EntriesFree s entries) (hinv : Inv s) :
    Inv (replaceEffects types s entries next) where
  free := by
    intro call hcall
    by_contra hne
    obtain ⟨effect, heffect⟩ := Option.ne_none_iff_exists'.mp hne
    obtain ⟨entry, hentry, hid, _⟩ := loaded_entry heffect
    exact (hcare entry hentry).1 call hcall hid.symm
  apart := hinv.apart
  read := by
    intro call hcall effect heffect htype
    obtain ⟨entry, hentry, hid, htype'⟩ := loaded_entry heffect
    exact absurd (htype'.trans htype).symm
      ((hcare entry hentry).2 call hcall hid.symm)

theorem inv_step {e : Event V} (h : step types s e = some s')
    (hcare : Careful types s e) (hinv : Inv s) : Inv s' := by
  cases e with
  | reserve type => exact inv_reserve h hcare hinv
  | insert call started => exact inv_insert h hcare hinv
  | readType id type =>
      obtain rfl := Option.some.inj h
      exact inv_readType id type hinv
  | writeType call started => exact inv_writeType h hcare hinv
  | deleteEffect id =>
      obtain rfl := Option.some.inj h
      exact inv_deleteEffect id hinv
  | setEffect id enabled values =>
      obtain rfl := Option.some.inj h
      exact inv_setEffect id enabled values hinv
  | reloadPlugin id type values =>
      obtain rfl := Option.some.inj h
      exact inv_reloadPlugin id type values hinv
  | loadEffectsFromConfig entries =>
      obtain rfl := Option.some.inj h
      exact inv_replaceEffects hcare hinv
  | recallScene entries =>
      rw [step, recallScene] at h
      split at h
      · simp at h
      · obtain rfl := Option.some.inj h
        exact inv_replaceEffects hcare hinv
  | pollPlugins =>
      obtain rfl := Option.some.inj h
      exact ⟨hinv.free, hinv.apart, hinv.read⟩

/-! ## The law -/

/-- A region that names an id leaves the effects of the others alone. -/
theorem kept_of_names {e : Event V} (h : step types s e = some s')
    (hinv : Inv s) {id : String} {effect : Effect V}
    (heffect : s.effectStates id = some effect) (hnames : ¬e.Names id) :
    s'.effectStates id = some effect ∧
      KeyedList.find Prod.fst id s'.pluginHosts =
        KeyedList.find Prod.fst id s.pluginHosts := by
  cases e with
  | reserve type =>
      rw [step, reserve] at h
      split at h
      · simp at h
      · obtain rfl := Option.some.inj h
        exact ⟨heffect, rfl⟩
  | insert call started =>
      rw [step, insert] at h
      split at h
      · simp at h
      · rename_i hmem
        split at h
        · obtain rfl := Option.some.inj h
          exact ⟨heffect, rfl⟩
        · obtain rfl := Option.some.inj h
          have hne : id ≠ call.id := by
            rintro rfl
            rw [hinv.free call (not_not.mp hmem)] at heffect
            simp at heffect
          exact ⟨(effectStates_putEffect_of_ne hne).trans heffect,
            find_attachPlugin hne⟩
  | readType id' type =>
      obtain rfl := Option.some.inj h
      rw [readType]
      split
      · exact ⟨heffect, rfl⟩
      · exact ⟨heffect, rfl⟩
  | writeType call started =>
      have hne : id ≠ call.id := fun heq => hnames heq.symm
      rw [step, writeType] at h
      split at h
      · simp at h
      · split at h
        · obtain rfl := Option.some.inj h
          exact ⟨heffect, rfl⟩
        · split at h
          · obtain rfl := Option.some.inj h
            exact ⟨heffect, rfl⟩
          · split at h
            · obtain rfl := Option.some.inj h
              exact ⟨heffect, rfl⟩
            · obtain rfl := Option.some.inj h
              exact ⟨(effectStates_putEffect_of_ne hne).trans heffect,
                find_attachPlugin hne⟩
  | deleteEffect id' =>
      have hne : id ≠ id' := fun heq => hnames heq.symm
      obtain rfl := Option.some.inj h
      rw [deleteEffect]
      split
      · exact ⟨heffect, rfl⟩
      · exact ⟨(Function.update_of_ne hne _ _).trans heffect,
          find_retirePlugin hne⟩
  | setEffect id' enabled values =>
      have hne : id ≠ id' := fun heq => hnames heq.symm
      obtain rfl := Option.some.inj h
      rw [setEffect]
      split
      · exact ⟨heffect, rfl⟩
      · exact ⟨(Function.update_of_ne hne _ _).trans heffect, rfl⟩
  | reloadPlugin id' type values =>
      have hne : id ≠ id' := fun heq => hnames heq.symm
      obtain rfl := Option.some.inj h
      rw [reloadPlugin]
      split
      · exact ⟨heffect, rfl⟩
      · split
        · exact ⟨heffect, rfl⟩
        · exact ⟨(effectStates_putEffect_of_ne hne).trans heffect,
            find_attachPlugin hne⟩
  | loadEffectsFromConfig entries => exact absurd trivial hnames
  | recallScene entries => exact absurd trivial hnames
  | pollPlugins =>
      obtain rfl := Option.some.inj h
      exact ⟨heffect, rfl⟩

/-- `setEffectType` writes the type it was called with, and only onto the
effect that it has read. -/
theorem retyped_of_writeType {call : Retyping} {started : Bool}
    {effect : Effect V} (h : writeType types s call started = some s')
    (hinv : Inv s) (heffect : s.effectStates call.id = some effect) :
    s'.effectStates call.id = some effect ∨
      effect.serial = call.serial ∧
        ∃ effect', s'.effectStates call.id = some effect' ∧
          effect'.serial = call.serial ∧ effect'.type = call.type ∧
            effect'.values = types.slotDefaults call.type := by
  rw [writeType] at h
  split at h
  · simp at h
  · rename_i hmem
    split at h
    · obtain rfl := Option.some.inj h
      exact .inl heffect
    · rw [heffect] at h
      simp only at h
      split at h
      · obtain rfl := Option.some.inj h
        exact .inl heffect
      · rename_i htype
        obtain rfl := Option.some.inj h
        have hserial := hinv.read call (not_not.mp hmem) effect heffect
          (not_not.mp htype)
        exact .inr ⟨hserial, _, effectStates_putEffect_self call.id _ _,
          hserial, rfl, rfl⟩

theorem law_of_inv {e : Event V} (h : step types s e = some s')
    (hinv : Inv s) : Law types s e s' where
  kept _ _ heffect hnames := kept_of_names h hinv heffect hnames
  created call started he hstarts := by
    subst he
    rw [step, insert] at h
    split at h
    · simp at h
    · rename_i hmem
      exact hinv.free call (not_not.mp hmem)
  retyped call started effect he heffect := by
    subst he
    exact retyped_of_writeType h hinv heffect

theorem inv_run {es : List (Event V)}
    (h : Run (Guarded (Careful types) (step types)) (start V) es s) : Inv s :=
  Run.invariant Inv (P := fun _ => True)
    (fun _ _ _ _ hinv hstep => inv_step hstep.2 hstep.1 hinv)
    h (fun _ _ => trivial) inv_start

/-- After a run of careful steps the next one obeys the law. -/
theorem effects_keep_identity {es : List (Event V)} {e : Event V}
    (h : Run (Guarded (Careful types) (step types)) (start V) es s)
    (hstep : step types s e = some s') : Law types s e s' :=
  law_of_inv hstep (inv_run h)

end Identity

/-! ## A load between the two regions of a call -/

/-- Types without plugins. -/
def builtinTypes : Types Unit where
  isPluginType _ := false
  slotDefaults _ := ()
  clampValues _ _ := ()
  clampType type := type
  fxNumber _ := none

/-- After `createEffect` has reserved its id. -/
def reserved : State Unit :=
  { start Unit with nextEffectId := 2, creating := [⟨fx 1, 0⟩] }

theorem reserve_start : reserve (start Unit) 0 = some reserved := by
  have hfree : firstFree (start Unit).effectStates (2 ^ 32)
      (start Unit).nextEffectId = some 1 := by
    decide
  rw [reserve, hfree]
  rfl

theorem insert_eq {s : State Unit} {call : Creating}
    (hmem : call ∈ s.creating) :
    ∃ s', step builtinTypes s (.insert call true) = some s' ∧
      ∃ effect, s'.effectStates call.id = some effect ∧
        effect.type = call.type := by
  have hstarts : startFails builtinTypes call.type true = false := rfl
  have hstep : insert builtinTypes s call true = some
      { putEffect s call.id
          { enabled := call.type != EFFECT_CUT
            type := call.type
            values := ()
            pluginHost := none
            serial := s.serials } none with
        creating := s.creating.erase call
        serials := s.serials + 1 } := by
    rw [insert, if_neg (not_not.mpr hmem), hstarts]
    rfl
  exact ⟨_, hstep, _, effectStates_putEffect_self call.id _ _, rfl⟩

/-- The next step after a reservation creates the effect. -/
theorem effects_keep_identity_created :
    ∃ s', step builtinTypes reserved (.insert ⟨fx 1, 0⟩ true) = some s' ∧
      Law builtinTypes reserved (.insert ⟨fx 1, 0⟩ true) s' := by
  have hrun : Run (Guarded (Careful builtinTypes) (step builtinTypes))
      (start Unit) [.reserve 0] reserved :=
    .cons ⟨fun _ _ _ hcall => absurd hcall List.not_mem_nil, reserve_start⟩
      (.nil _)
  obtain ⟨s', hstep, _⟩ := insert_eq (s := reserved) (List.mem_singleton.mpr rfl)
  exact ⟨s', hstep, effects_keep_identity hrun hstep⟩

/-- A recalled scene has an effect with the id that the call has reserved. -/
def recalled : List (Entry Unit) := [⟨fx 1, true, 1, (), true⟩]

/-- The call then writes its own effect over that of the scene. -/
theorem effect_overwritten :
    ¬∀ (types : Types Unit) es s e s',
      Run (fun s e s' => step types s e = some s') (start Unit) es s →
        step types s e = some s' → Law types s e s' := by
  intro h
  have hscene : ∃ s, step builtinTypes reserved (.recallScene recalled) =
      some s ∧ (⟨fx 1, 0⟩ : Creating) ∈ s.creating ∧
        ∃ effect, s.effectStates (fx 1) = some effect ∧ effect.type = 1 := by
    have hstates : (loaded builtinTypes reserved recalled).states (fx 1) =
        some ⟨⟨true, 1, (), none⟩, 0⟩ := by
      rw [loaded, recalled, List.foldl_cons, List.foldl_nil,
        states_addEntry]
      exact Function.update_self (fx 1) _ _
    exact ⟨_, rfl, List.mem_singleton.mpr rfl, _, hstates, rfl⟩
  obtain ⟨s, hrecall, hmem, effect, heffect, htype⟩ := hscene
  obtain ⟨s', hstep, effect', heffect', htype'⟩ := insert_eq hmem
  have hrun : Run (fun s e s' => step builtinTypes s e = some s')
      (start Unit) [.reserve 0, .recallScene recalled] s :=
    .cons reserve_start (.cons hrecall (.nil s))
  have hlaw := h builtinTypes _ s _ s' hrun hstep
  have hkept := (hlaw.kept (fx 1) effect heffect id).1
  rw [heffect'] at hkept
  rw [← Option.some.inj hkept, htype'] at htype
  exact absurd htype (by decide)

end Audiox.Effects
