import Audiox.Audio.Soundboard
import Mathlib

/-!
# The voices as a list of sounds

For the listener a soundboard is the list of what plays, in the order in which
it was started: a stop takes sounds out, and a start adds one at the end, in
the place of the first one that may go where all voices are in use.  The voices
do the same as long as the one that is stolen is the first to have been
started.
-/

namespace Audiox.Soundboard

/-! ## The list of sounds -/

namespace Sounds

def stopHold (sounds : List Sound) : List Sound :=
  sounds.filter fun s => !s.hold

/-- A place for a sound. -/
def makeRoom (forHold : Bool) (sounds : List Sound) : List Sound :=
  if sounds.length < kMaxSoundboardVoices then sounds
  else sounds.eraseP fun s => forHold || !s.hold

def startSound (sound : Sound) (sounds : List Sound) : List Sound :=
  makeRoom sound.hold (if sound.hold then stopHold sounds else sounds) ++
    [sound]

@[simp]
theorem stopHold_nil : stopHold [] = [] := rfl

@[simp]
theorem stopHold_stopHold (sounds : List Sound) :
    stopHold (stopHold sounds) = stopHold sounds := by
  simp [stopHold, List.filter_filter]

theorem length_stopHold_le (sounds : List Sound) :
    (stopHold sounds).length ≤ sounds.length :=
  List.length_filter_le _ _

theorem makeRoom_of_lt {forHold : Bool} {sounds : List Sound}
    (h : sounds.length < kMaxSoundboardVoices) :
    makeRoom forHold sounds = sounds :=
  if_pos h

end Sounds

/-! ## What is kept by every operation -/

namespace Runtime

/-- The active voices are those that were started and not stopped since, and
`holdVoiceIndex` names the one that holds. -/
structure Inv (rt : Runtime) : Prop where
  nodup : rt.order.Nodup
  active : ∀ i, i ∈ rt.order ↔ (rt.soundboardVoices i).isSome
  hold : ∀ i, rt.isHold i ↔ rt.holdVoiceIndex = some i

theorem inv_silent : silent.Inv where
  nodup := List.nodup_nil
  active := by simp [silent]
  hold := by simp [silent, isHold]

variable {rt : Runtime} {i : VoiceIndex}

theorem Inv.active_of_hold (hinv : rt.Inv)
    (h : rt.holdVoiceIndex = some i) : (rt.soundboardVoices i).isSome := by
  have hhold := (hinv.hold i).mpr h
  rw [isHold] at hhold
  obtain ⟨v, hv, _⟩ := (Option.any_eq_true _ _).mp hhold
  rw [hv]
  rfl

/-! ### Stopping a voice -/

theorem soundboardVoices_stopVoice (rt : Runtime) (i : VoiceIndex) :
    (rt.stopVoice i).soundboardVoices =
      Function.update rt.soundboardVoices i none := by
  rw [stopVoice]
  split
  case isTrue h =>
    rw [← Option.isNone_iff_eq_none.mp h, Function.update_eq_self]
  case isFalse => rfl

theorem order_stopVoice (hinv : rt.Inv) (i : VoiceIndex) :
    (rt.stopVoice i).order = rt.order.erase i := by
  rw [stopVoice]
  split
  case isTrue h =>
    refine (List.erase_of_not_mem fun hmem => ?_).symm
    rw [hinv.active i, Option.isSome_iff_ne_none] at hmem
    exact hmem (Option.isNone_iff_eq_none.mp h)
  case isFalse => rfl

theorem holdVoiceIndex_stopVoice (hinv : rt.Inv) (i : VoiceIndex) :
    (rt.stopVoice i).holdVoiceIndex =
      if rt.holdVoiceIndex = some i then none else rt.holdVoiceIndex := by
  rw [stopVoice]
  split
  case isTrue h =>
    refine (if_neg fun hhold => ?_).symm
    have hactive := hinv.active_of_hold hhold
    rw [Option.isNone_iff_eq_none.mp h] at hactive
    simp at hactive
  case isFalse => rfl

@[simp]
theorem blocksProcessed_stopVoice (rt : Runtime) (i : VoiceIndex) :
    (rt.stopVoice i).blocksProcessed = rt.blocksProcessed := by
  rw [stopVoice]
  split
  · rfl
  · rfl

theorem isHold_stopVoice_self (rt : Runtime) (i : VoiceIndex) :
    (rt.stopVoice i).isHold i = false := by
  rw [isHold, soundboardVoices_stopVoice, Function.update_self]
  rfl

theorem isHold_stopVoice_of_ne {j : VoiceIndex} (h : j ≠ i) :
    (rt.stopVoice i).isHold j = rt.isHold j := by
  rw [isHold, soundboardVoices_stopVoice, Function.update_of_ne h, isHold]

theorem inv_stopVoice (hinv : rt.Inv) (i : VoiceIndex) :
    (rt.stopVoice i).Inv := by
  constructor
  · rw [order_stopVoice hinv]
    exact hinv.nodup.erase i
  · intro j
    rw [order_stopVoice hinv, soundboardVoices_stopVoice,
      hinv.nodup.mem_erase_iff, hinv.active j]
    by_cases hj : j = i
    · simp [hj]
    · simp [hj]
  · intro j
    rw [holdVoiceIndex_stopVoice hinv]
    by_cases hj : j = i
    · rw [hj, isHold_stopVoice_self]
      by_cases hhold : rt.holdVoiceIndex = some i
      · simp [hhold]
      · simp [hhold]
    · rw [isHold_stopVoice_of_ne hj, hinv.hold j]
      by_cases hhold : rt.holdVoiceIndex = some i
      · simp [hhold, Ne.symm hj]
      · simp [hhold]

/-- What plays once a voice is stopped: the others. -/
theorem playing_stopVoice (hinv : rt.Inv) (i : VoiceIndex) :
    (rt.stopVoice i).playing = (rt.order.erase i).filterMap fun j =>
      (rt.soundboardVoices j).map SoundboardVoice.toSound := by
  rw [playing, order_stopVoice hinv, soundboardVoices_stopVoice]
  apply List.filterMap_congr
  intro j hj
  have hne : j ≠ i := (hinv.nodup.mem_erase_iff.mp hj).1
  rw [Function.update_of_ne hne]

theorem length_playing (hinv : rt.Inv) : rt.playing.length = rt.order.length := by
  have hactive : ∀ j ∈ rt.order, (rt.soundboardVoices j).isSome :=
    fun j hj => (hinv.active j).mp hj
  rw [playing]
  generalize rt.order = order at hactive
  induction order with
  | nil => rfl
  | cons j rest ih =>
      have hhead := hactive j (by simp)
      obtain ⟨v, hv⟩ := Option.isSome_iff_exists.mp hhead
      rw [List.filterMap_cons_some (by rw [hv]; rfl), List.length_cons,
        List.length_cons, ih fun k hk => hactive k (by simp [hk])]

theorem isHold_of_voice {v : SoundboardVoice}
    (h : rt.soundboardVoices i = some v) : rt.isHold i = v.hold := by
  rw [isHold, h, Option.any_some]

/-! ### Stopping the voice that holds -/

theorem inv_stopHoldVoice (hinv : rt.Inv) : rt.stopHoldVoice.Inv := by
  rw [stopHoldVoice]
  split
  · exact inv_stopVoice hinv _
  · exact hinv

theorem holdVoiceIndex_stopHoldVoice (hinv : rt.Inv) :
    rt.stopHoldVoice.holdVoiceIndex = none := by
  rw [stopHoldVoice]
  split
  case h_1 i hhold =>
    rw [holdVoiceIndex_stopVoice hinv, if_pos hhold]
  case h_2 hhold => exact hhold

/-- Taking out the first element that has a property, where no other has it,
takes out all of them. -/
theorem filterMap_erase_eq_filter {order : List VoiceIndex}
    {f : VoiceIndex → Option Sound} {p : Sound → Bool} (hnodup : order.Nodup)
    (hp : ∀ j ∈ order, ∀ s, f j = some s → (p s = false ↔ j = i)) :
    (order.erase i).filterMap f = (order.filterMap f).filter p := by
  rw [hnodup.erase_eq_filter, List.filterMap_filter, List.filter_filterMap]
  apply List.filterMap_congr
  intro j hj
  cases hf : f j with
  | none => simp
  | some s =>
      have hiff := hp j hj s hf
      by_cases hji : j = i
      · have hfalse : p s = false := hiff.mpr hji
        simp [hji, hfalse, Option.filter]
      · have htrue : p s = true := by
          by_contra hfalse
          exact hji (hiff.mp (by simpa using hfalse))
        simp [hji, htrue, Option.filter]

theorem playing_stopHoldVoice (hinv : rt.Inv) :
    rt.stopHoldVoice.playing = Sounds.stopHold rt.playing := by
  have hvoice : ∀ j s, (rt.soundboardVoices j).map SoundboardVoice.toSound =
      some s → (s.hold = true ↔ rt.holdVoiceIndex = some j) := by
    intro j s hs
    obtain ⟨v, hv, rfl⟩ := Option.map_eq_some_iff.mp hs
    rw [← hinv.hold j, isHold_of_voice hv]
  rw [stopHoldVoice]
  split
  case h_1 i hhold =>
    rw [playing_stopVoice hinv, Sounds.stopHold, playing]
    apply filterMap_erase_eq_filter hinv.nodup
    intro j _ s hs
    have hiff := hvoice j s hs
    rw [hhold, Option.some.injEq] at hiff
    rw [Bool.not_eq_false', hiff]
    exact eq_comm
  case h_2 hhold =>
    refine (List.filter_eq_self.mpr fun s hs => ?_).symm
    obtain ⟨j, _, hj⟩ := List.mem_filterMap.mp hs
    have hiff := hvoice j s hj
    rw [hhold] at hiff
    simpa using hiff

/-! ### Starting a voice -/

theorem soundboardVoices_play_self (rt : Runtime) (i : VoiceIndex)
    (sound : Sound) :
    (rt.play i sound).soundboardVoices i =
      some { sound with startedAtBlock := rt.blocksProcessed } :=
  Function.update_self i _ _

theorem soundboardVoices_play_of_ne {sound : Sound} {j : VoiceIndex}
    (h : j ≠ i) :
    (rt.play i sound).soundboardVoices j = rt.soundboardVoices j :=
  Function.update_of_ne h _ _

theorem inv_play {sound : Sound} (hinv : rt.Inv)
    (hfree : rt.soundboardVoices i = none)
    (hhold : sound.hold → rt.holdVoiceIndex = none) :
    (rt.play i sound).Inv := by
  have hnew : i ∉ rt.order := by
    rw [hinv.active i, hfree]
    simp
  constructor
  · exact List.nodup_append.mpr ⟨hinv.nodup, by simp, by
      intro j hj k hk hjk
      rw [List.mem_singleton.mp hk] at hjk
      exact hnew (hjk ▸ hj)⟩
  · intro j
    rw [play, List.mem_append, List.mem_singleton, hinv.active j]
    by_cases hj : j = i
    · simp [hj]
    · simp [hj]
  · intro j
    by_cases hj : j = i
    · subst hj
      have hnone : rt.holdVoiceIndex ≠ some j := by
        intro h
        have hactive := hinv.active_of_hold h
        rw [hfree] at hactive
        simp at hactive
      by_cases hs : sound.hold
      · simp [play, isHold, hs]
      · simp [play, isHold, hs, hnone]
    · have hkept : (rt.play i sound).isHold j = rt.isHold j := by
        rw [isHold, soundboardVoices_play_of_ne hj, isHold]
      rw [hkept, hinv.hold j]
      by_cases hs : sound.hold
      · simp [play, hs, hhold hs, Ne.symm hj]
      · simp [play, hs]

theorem playing_play {sound : Sound} (hinv : rt.Inv)
    (hfree : rt.soundboardVoices i = none) :
    (rt.play i sound).playing = rt.playing ++ [sound] := by
  have hnew : ∀ j ∈ rt.order, j ≠ i := by
    rintro j hj rfl
    rw [hinv.active j, hfree] at hj
    simp at hj
  have horder : (rt.play i sound).order = rt.order ++ [i] := rfl
  rw [playing, playing, horder, List.filterMap_append]
  congr 1
  · apply List.filterMap_congr
    intro j hj
    rw [soundboardVoices_play_of_ne (hnew j hj)]
  · simp [soundboardVoices_play_self]

theorem firstInactive_some (h : rt.firstInactive = some i) :
    rt.soundboardVoices i = none := by
  have hnone := List.find?_some h
  simpa using hnone

theorem firstInactive_none (h : rt.firstInactive = none) (i : VoiceIndex) :
    (rt.soundboardVoices i).isSome := by
  have hall := List.find?_eq_none.mp h i (List.mem_finRange i)
  simpa [Option.isSome_iff_ne_none] using hall

theorem length_order_of_free (hinv : rt.Inv)
    (hfree : rt.soundboardVoices i = none) :
    rt.order.length < kMaxSoundboardVoices := by
  have hnew : i ∉ rt.order := by
    rw [hinv.active i, hfree]
    simp
  have hle := (List.nodup_cons.mpr ⟨hnew, hinv.nodup⟩).length_le_card
  rw [Fintype.card_fin, List.length_cons] at hle
  exact hle

theorem length_order_of_full (hinv : rt.Inv) (h : rt.firstInactive = none) :
    rt.order.length = kMaxSoundboardVoices := by
  have hall : rt.order.toFinset = Finset.univ := by
    ext j
    simpa using (hinv.active j).mpr (firstInactive_none h j)
  rw [← List.toFinset_card_of_nodup hinv.nodup, hall, Finset.card_univ,
    Fintype.card_fin]

/-- The condition on a start: where all voices are in use, the one that is
stolen is the first that was started, of those that may be. -/
def OldestFirst (rt : Runtime) (forHold : Bool) : Prop :=
  rt.firstInactive = none →
    rt.pickVoiceForStart forHold = rt.order.find? (rt.mayReplace forHold)

/-- Where all voices are in use, there is one to steal. -/
theorem exists_mayReplace (hinv : rt.Inv) (h : rt.firstInactive = none)
    (forHold : Bool) : ∃ j ∈ rt.order, rt.mayReplace forHold j := by
  obtain ⟨j, hj⟩ : ∃ j : VoiceIndex, rt.holdVoiceIndex ≠ some j := by
    by_cases hzero : rt.holdVoiceIndex = some ⟨0, by decide⟩
    · refine ⟨⟨1, by decide⟩, ?_⟩
      rw [hzero]
      simp
    · exact ⟨_, hzero⟩
  have hactive := firstInactive_none h j
  have hhold : rt.isHold j = false := by
    rw [← Bool.not_eq_true, hinv.hold j]
    exact hj
  exact ⟨j, (hinv.active j).mpr hactive, by simp [mayReplace, hactive, hhold]⟩

theorem filterMap_erase_eq_eraseP {order : List VoiceIndex}
    {f : VoiceIndex → Option Sound} {p : Sound → Bool} {q : VoiceIndex → Bool}
    (hfirst : order.find? q = some i)
    (hp : ∀ j ∈ order, ∃ s, f j = some s ∧ p s = q j) :
    (order.erase i).filterMap f = (order.filterMap f).eraseP p := by
  induction order with
  | nil => simp at hfirst
  | cons j rest ih =>
      obtain ⟨s, hs, hps⟩ := hp j (by simp)
      rw [List.filterMap_cons_some hs]
      by_cases hq : q j
      · rw [List.find?_cons_of_pos hq, Option.some.injEq] at hfirst
        rw [hfirst, List.erase_cons_head,
          List.eraseP_cons_of_pos (by rw [hps, hq])]
      · have hne : j ≠ i := by
          rintro rfl
          rw [List.find?_cons_of_neg hq] at hfirst
          exact hq (List.find?_some hfirst)
        rw [List.find?_cons_of_neg hq] at hfirst
        rw [List.erase_cons_tail (by simpa using hne),
          List.filterMap_cons_some hs,
          List.eraseP_cons_of_neg (by rw [hps]; exact hq),
          ih hfirst fun k hk => hp k (by simp [hk])]

theorem mem_order_active (hinv : rt.Inv) {j : VoiceIndex}
    (hj : j ∈ rt.order) : ∃ v, rt.soundboardVoices j = some v :=
  Option.isSome_iff_exists.mp ((hinv.active j).mp hj)

/-- Stealing takes the first sound that may go. -/
theorem playing_steal {forHold : Bool} (hinv : rt.Inv)
    (hfirst : rt.order.find? (rt.mayReplace forHold) = some i) :
    (rt.stopVoice i).playing =
      rt.playing.eraseP fun s => forHold || !s.hold := by
  rw [playing_stopVoice hinv, playing]
  apply filterMap_erase_eq_eraseP hfirst
  intro j hj
  obtain ⟨v, hv⟩ := mem_order_active hinv hj
  refine ⟨v.toSound, by rw [hv]; rfl, ?_⟩
  rw [mayReplace, isHold_of_voice hv, hv]
  rfl

/-- What a start needs to know of the voice it gets. -/
theorem pickVoiceForStart_cases {forHold : Bool} (hinv : rt.Inv)
    (hold : rt.OldestFirst forHold) :
    ∃ i, rt.pickVoiceForStart forHold = some i ∧
      (rt.stopVoice i).playing = Sounds.makeRoom forHold rt.playing := by
  cases hfree : rt.firstInactive with
  | some i =>
      have hnone := firstInactive_some hfree
      have hlt := length_order_of_free hinv hnone
      refine ⟨i, by rw [pickVoiceForStart, hfree], ?_⟩
      have hsame : rt.stopVoice i = rt := by
        rw [stopVoice, if_pos (by rw [hnone]; rfl)]
      rw [hsame, Sounds.makeRoom_of_lt (by rw [length_playing hinv]; exact hlt)]
  | none =>
      obtain ⟨j, hj, hmay⟩ := exists_mayReplace hinv hfree forHold
      have hsome : (rt.order.find? (rt.mayReplace forHold)).isSome :=
        List.find?_isSome.mpr ⟨j, hj, hmay⟩
      obtain ⟨i, hi⟩ := Option.isSome_iff_exists.mp hsome
      refine ⟨i, (hold hfree).trans hi, ?_⟩
      have hfull : ¬rt.playing.length < kMaxSoundboardVoices := by
        rw [length_playing hinv, length_order_of_full hinv hfree]
        exact Nat.lt_irrefl _
      rw [playing_steal hinv hi, Sounds.makeRoom, if_neg hfull]

theorem soundboardVoices_stopVoice_self (rt : Runtime) (i : VoiceIndex) :
    (rt.stopVoice i).soundboardVoices i = none := by
  rw [soundboardVoices_stopVoice, Function.update_self]

theorem inv_startVoice {sound : Sound} (hinv : rt.Inv)
    (hhold : sound.hold → rt.holdVoiceIndex = none) :
    (rt.startVoice sound).Inv := by
  rw [startVoice]
  split
  case h_1 i _ =>
    refine inv_play (inv_stopVoice hinv i)
      (soundboardVoices_stopVoice_self rt i) fun hs => ?_
    rw [holdVoiceIndex_stopVoice hinv, hhold hs]
    simp
  case h_2 => exact hinv

theorem playing_startVoice {sound : Sound} (hinv : rt.Inv)
    (hold : rt.OldestFirst sound.hold) :
    (rt.startVoice sound).playing =
      Sounds.makeRoom sound.hold rt.playing ++ [sound] := by
  obtain ⟨i, hpick, hroom⟩ := pickVoiceForStart_cases hinv hold
  rw [startVoice, hpick, ← hroom]
  exact playing_play (inv_stopVoice hinv i)
    (soundboardVoices_stopVoice_self rt i)

theorem inv_startSfx (hinv : rt.Inv) (bank : Bank)
    (ev : AudioSfxTriggerEvent) : (rt.startSfx bank ev).Inv := by
  rw [startSfx]
  split
  · exact hinv
  · split
    · exact hinv
    · split
      · exact inv_startVoice (inv_stopHoldVoice hinv)
          fun _ => holdVoiceIndex_stopHoldVoice hinv
      · rename_i hs
        exact inv_startVoice hinv fun hheld => absurd hheld hs

/-- A clip that is loaded, in a slot of the bank. -/
def Loaded (bank : Bank) (slotIndex : Nat) : Prop :=
  slotIndex < AUDIO_SFX_SLOT_COUNT ∧ (bank slotIndex).playable

instance (bank : Bank) (slotIndex : Nat) : Decidable (Loaded bank slotIndex) :=
  inferInstanceAs (Decidable (_ ∧ _))

/-- The condition on a start, where a held sound has replaced the held one
before. -/
def StartsOldestFirst (rt : Runtime) (ev : AudioSfxTriggerEvent) : Prop :=
  if ev.holdStart then rt.stopHoldVoice.OldestFirst true
  else rt.OldestFirst false

theorem playing_startSfx {bank : Bank} {ev : AudioSfxTriggerEvent}
    (hinv : rt.Inv) (hload : Loaded bank ev.slotIndex)
    (hold : rt.StartsOldestFirst ev) :
    (rt.startSfx bank ev).playing =
      Sounds.startSound (soundOf bank ev) rt.playing := by
  rw [startSfx, if_neg (by simpa using hload.1), if_neg (by simp [hload.2]),
    Sounds.startSound]
  rw [StartsOldestFirst] at hold
  by_cases hs : ev.holdStart
  · rw [if_pos hs] at hold
    have hsound : (soundOf bank ev).hold = true := hs
    rw [if_pos hs, if_pos hsound, ← playing_stopHoldVoice hinv]
    refine playing_startVoice (inv_stopHoldVoice hinv) ?_
    rw [hsound]
    exact hold
  · rw [if_neg hs] at hold
    have hsound : (soundOf bank ev).hold = false := by simpa [soundOf] using hs
    rw [if_neg hs, if_neg (by rw [hsound]; simp)]
    refine playing_startVoice hinv ?_
    rw [hsound]
    exact hold

/-! ### Stopping all voices -/

theorem inv_foldl_stopVoice (is : List VoiceIndex) (hinv : rt.Inv) :
    (is.foldl stopVoice rt).Inv := by
  induction is generalizing rt with
  | nil => exact hinv
  | cons i is ih => exact ih (inv_stopVoice hinv i)

theorem foldl_stopVoice_none (is : List VoiceIndex) {j : VoiceIndex}
    (h : j ∈ is ∨ rt.soundboardVoices j = none) :
    (is.foldl stopVoice rt).soundboardVoices j = none := by
  induction is generalizing rt with
  | nil => simpa using h
  | cons i is ih =>
      apply ih
      rw [soundboardVoices_stopVoice]
      by_cases hj : j = i
      · rw [hj, Function.update_self]
        exact .inr rfl
      · rw [Function.update_of_ne hj]
        simpa [hj] using h

theorem stopAllVoices_spec (hinv : rt.Inv) :
    rt.stopAllVoices.Inv ∧ rt.stopAllVoices.playing = [] := by
  have hall := inv_foldl_stopVoice (List.finRange kMaxSoundboardVoices) hinv
  have hnone : ∀ j, ((List.finRange kMaxSoundboardVoices).foldl stopVoice
      rt).soundboardVoices j = none :=
    fun j => foldl_stopVoice_none _ (.inl (List.mem_finRange j))
  rw [stopAllVoices]
  generalize (List.finRange kMaxSoundboardVoices).foldl stopVoice rt = stopped
    at hall hnone
  have hempty : stopped.order = [] := by
    rw [List.eq_nil_iff_forall_not_mem]
    intro j hj
    have hactive := (hall.active j).mp hj
    rw [hnone j] at hactive
    simp at hactive
  refine ⟨⟨?_, ?_, ?_⟩, ?_⟩
  · show stopped.order.Nodup
    rw [hempty]
    exact List.nodup_nil
  · intro j
    show j ∈ stopped.order ↔ (stopped.soundboardVoices j).isSome
    rw [hempty, hnone j]
    simp
  · intro j
    simp [isHold, hnone j]
  · simp [playing, hempty]

/-! ### Voices of different ages -/

/-- The voices were started in different blocks, the last one before block
`n`. -/
structure Aged (rt : Runtime) (n : Nat) : Prop where
  sorted : rt.order.Pairwise fun i j =>
    rt.startedAtBlock i < rt.startedAtBlock j
  past : ∀ i ∈ rt.order, rt.startedAtBlock i < n

theorem startedAtBlock_stopVoice {j : VoiceIndex} (h : j ≠ i) :
    (rt.stopVoice i).startedAtBlock j = rt.startedAtBlock j := by
  rw [startedAtBlock, soundboardVoices_stopVoice, Function.update_of_ne h,
    startedAtBlock]

theorem startedAtBlock_play {sound : Sound} {j : VoiceIndex} (h : j ≠ i) :
    (rt.play i sound).startedAtBlock j = rt.startedAtBlock j := by
  rw [startedAtBlock, soundboardVoices_play_of_ne h, startedAtBlock]

theorem aged_stopVoice {n : Nat} (hinv : rt.Inv) (haged : rt.Aged n)
    (i : VoiceIndex) : (rt.stopVoice i).Aged n := by
  have hne : ∀ j ∈ rt.order.erase i, j ≠ i :=
    fun j hj => (hinv.nodup.mem_erase_iff.mp hj).1
  constructor
  · rw [order_stopVoice hinv]
    refine (haged.sorted.sublist List.erase_sublist).imp_of_mem ?_
    intro j k hj hk hlt
    rw [startedAtBlock_stopVoice (hne j hj), startedAtBlock_stopVoice (hne k hk)]
    exact hlt
  · intro j hj
    rw [order_stopVoice hinv] at hj
    rw [startedAtBlock_stopVoice (hne j hj)]
    exact haged.past j (List.mem_of_mem_erase hj)

theorem aged_stopHoldVoice {n : Nat} (hinv : rt.Inv) (haged : rt.Aged n) :
    rt.stopHoldVoice.Aged n := by
  rw [stopHoldVoice]
  split
  · exact aged_stopVoice hinv haged _
  · exact haged

theorem aged_foldl_stopVoice {n : Nat} (is : List VoiceIndex)
    (hinv : rt.Inv) (haged : rt.Aged n) : (is.foldl stopVoice rt).Aged n := by
  induction is generalizing rt with
  | nil => exact haged
  | cons i is ih => exact ih (inv_stopVoice hinv i) (aged_stopVoice hinv haged i)

theorem aged_play {sound : Sound} (hinv : rt.Inv)
    (hfree : rt.soundboardVoices i = none)
    (haged : rt.Aged rt.blocksProcessed) :
    (rt.play i sound).Aged (rt.blocksProcessed + 1) := by
  have hne : ∀ j ∈ rt.order, j ≠ i := by
    rintro j hj rfl
    rw [hinv.active j, hfree] at hj
    simp at hj
  have hnow : (rt.play i sound).startedAtBlock i = rt.blocksProcessed := by
    rw [startedAtBlock, soundboardVoices_play_self]
  constructor
  · show (rt.order ++ [i]).Pairwise _
    rw [List.pairwise_append]
    refine ⟨haged.sorted.imp_of_mem ?_, List.pairwise_singleton _ _, ?_⟩
    · intro j k hj hk hlt
      rw [startedAtBlock_play (hne j hj), startedAtBlock_play (hne k hk)]
      exact hlt
    · intro j hj k hk
      rw [List.mem_singleton.mp hk, hnow, startedAtBlock_play (hne j hj)]
      exact haged.past j hj
  · intro j hj
    rcases List.mem_append.mp hj with hold | hnew
    · rw [startedAtBlock_play (hne j hold)]
      exact Nat.lt_succ_of_lt (haged.past j hold)
    · rw [List.mem_singleton.mp hnew, hnow]
      exact Nat.lt_succ_self _

theorem Aged.next {n : Nat} (haged : rt.Aged n) : rt.Aged (n + 1) where
  sorted := haged.sorted
  past i hi := Nat.lt_succ_of_lt (haged.past i hi)

theorem aged_startVoice {sound : Sound} (hinv : rt.Inv)
    (haged : rt.Aged rt.blocksProcessed) :
    (rt.startVoice sound).Aged (rt.blocksProcessed + 1) := by
  rw [startVoice]
  split
  case h_1 i _ =>
    have hblocks := blocksProcessed_stopVoice rt i
    have hstopped := aged_stopVoice hinv haged i
    rw [← hblocks] at hstopped ⊢
    exact aged_play (inv_stopVoice hinv i)
      (soundboardVoices_stopVoice_self rt i) hstopped
  case h_2 => exact haged.next

@[simp]
theorem blocksProcessed_stopHoldVoice (rt : Runtime) :
    rt.stopHoldVoice.blocksProcessed = rt.blocksProcessed := by
  rw [stopHoldVoice]
  split
  · exact blocksProcessed_stopVoice rt _
  · rfl

theorem aged_startSfx (hinv : rt.Inv) (haged : rt.Aged rt.blocksProcessed)
    (bank : Bank) (ev : AudioSfxTriggerEvent) :
    (rt.startSfx bank ev).Aged (rt.blocksProcessed + 1) := by
  have hstopped := aged_stopHoldVoice hinv haged
  rw [← blocksProcessed_stopHoldVoice] at hstopped
  rw [startSfx]
  split
  · exact haged.next
  · split
    · exact haged.next
    · split
      · rw [← blocksProcessed_stopHoldVoice]
        exact aged_startVoice (inv_stopHoldVoice hinv) hstopped
      · exact aged_startVoice hinv haged

/-- Of voices of different ages the oldest is the first that was started. -/
theorem oldestFirst_of_aged {n : Nat} (hinv : rt.Inv) (haged : rt.Aged n)
    (forHold : Bool) : rt.OldestFirst forHold := by
  intro hfull
  obtain ⟨j, hj, hmay⟩ := exists_mayReplace hinv hfull forHold
  have hsome : (rt.order.find? (rt.mayReplace forHold)).isSome :=
    List.find?_isSome.mpr ⟨j, hj, hmay⟩
  obtain ⟨i, hi⟩ := Option.isSome_iff_exists.mp hsome
  obtain ⟨hmayi, before, after, horder, hbefore⟩ :=
    List.find?_eq_some_iff_append.mp hi
  have hoptions : ∀ k, k ∈ (List.finRange kMaxSoundboardVoices).filter
      (rt.mayReplace forHold) ↔ rt.mayReplace forHold k := by
    intro k
    rw [List.mem_filter]
    simp
  have hleast : ∀ k, rt.mayReplace forHold k → k ≠ i →
      rt.startedAtBlock i < rt.startedAtBlock k := by
    intro k hk hne
    have hmem : k ∈ rt.order :=
      (hinv.active k).mpr (firstInactive_none hfull k)
    have hsorted := haged.sorted
    rw [horder, List.pairwise_append, List.pairwise_cons] at hsorted
    rw [horder, List.mem_append, List.mem_cons] at hmem
    rcases hmem with hmem | heq | hmem
    · have hnot := hbefore k hmem
      rw [hk] at hnot
      simp at hnot
    · exact absurd heq hne
    · exact hsorted.2.1.1 k hmem
  have hpick : rt.oldest (rt.mayReplace forHold) = some i := by
    cases hold : rt.oldest (rt.mayReplace forHold) with
    | none =>
        rw [oldest, List.argmin_eq_none] at hold
        have hmem := (hoptions i).mpr hmayi
        rw [hold] at hmem
        simp at hmem
    | some k =>
        have hk := List.argmin_mem hold
        have hle := List.le_of_mem_argmin ((hoptions i).mpr hmayi) hold
        by_contra hne
        have hlt := hleast k ((hoptions k).mp hk) fun h => hne (by rw [h])
        exact absurd hle (Nat.not_le.mpr hlt)
  rw [pickVoiceForStart, hfull, hpick, hi]

end Runtime
end Audiox.Soundboard
