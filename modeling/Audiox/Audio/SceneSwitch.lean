import Audiox.Support.Runs
import Mathlib

/-!
# The fade of a scene switch

A recall mutes the output, waits until the audio thread says that it is silent,
writes the configuration and swaps the effects, and leaves the release to the
audio thread, which unmutes when it has adopted the graph that the recall has
published.
-/

namespace Audiox.SceneSwitch

open Runs

/-! ## The fade -/

/-- The gain behind one more frame. -/
def Fade.next (sampleRate : Nat) (muted : Bool) (gain : ℚ) : ℚ :=
  if muted then max 0 (gain - 1 / max 1 (sampleRate / 100 : ℕ))
  else min 1 (gain + 1 / max 1 (sampleRate / 100 : ℕ))

/-- The gains of the frames of a block. -/
def envelope (sampleRate : Nat) (muted : Bool) : Nat → ℚ → List ℚ
  | 0, _ => []
  | frames + 1, gain =>
      Fade.next sampleRate muted gain ::
        envelope sampleRate muted frames (Fade.next sampleRate muted gain)

/-- What the samples of a block are multiplied by on their way to the sinks. -/
def factors (sampleRate frames : Nat) (muted : Bool) (gain : ℚ) : List ℚ :=
  if muted ∨ gain < 1 then envelope sampleRate muted frames gain
  else List.replicate frames 1

theorem next_zero (sampleRate : Nat) : Fade.next sampleRate true 0 = 0 := by
  have hpos : (0 : ℚ) ≤ 1 / max 1 (sampleRate / 100 : ℕ) := by positivity
  rw [Fade.next, if_pos rfl, zero_sub]
  exact max_eq_left (neg_nonpos.mpr hpos)

theorem envelope_zero (sampleRate frames : Nat) :
    envelope sampleRate true frames 0 = List.replicate frames 0 := by
  induction frames with
  | zero => rfl
  | succ frames ih => rw [envelope, next_zero, ih, List.replicate_succ]

/-- The gain behind a block. -/
def gainAfter (sampleRate frames : Nat) (muted : Bool) (gain : ℚ) : ℚ :=
  if muted ∨ gain < 1 then
    (envelope sampleRate muted frames gain).getLastD gain
  else gain

theorem gainAfter_zero (sampleRate frames : Nat) :
    gainAfter sampleRate frames true 0 = 0 := by
  rw [gainAfter, if_pos (.inl rfl), envelope_zero]
  cases frames with
  | zero => rfl
  | succ frames => simp [List.getLast?_replicate]

/-! ## The two threads -/

inductive Reload where
  | published
  | rejected
  | failed
deriving DecidableEq

/-- The next thing that the recall does. -/
inductive RecallAt where
  | idle
  | resetSilent
  | resetRelease
  | mute
  | wait
  | readConfig
  | firstWrite
  | writes
  | swapEffects
  | swapGains
  | reload
  | finish (result : Reload)
  | waitRelease
deriving DecidableEq

/-- The next thing that the audio thread does. -/
inductive AudioAt where
  | adopt
  | check
  | unmute
  | clearRelease
  | load
  | block (muted : Bool)
deriving DecidableEq

/-- From the first write of the configuration until the audio thread adopts a
graph that was published after the swap of the effects. -/
inductive Window where
  | closed
  | written
  | swapped (generation : Nat)
deriving DecidableEq

/-- `published` is the generation of the last published graph and `generation`
that of the adopted one. -/
structure State where
  running : Bool
  sceneMuted : Bool
  sceneSilent : Bool
  sceneReleaseGeneration : Nat
  published : Nat
  generation : Nat
  gain : ℚ
  recallAt : RecallAt
  audio : AudioAt
  window : Window
deriving DecidableEq

inductive Event where
  | begin
  | prepareFails
  | resetSilent
  | resetRelease
  | mute
  | look
  | timeout
  | readConfig (ok : Bool)
  | firstWrite
  | writes (ok : Bool)
  | swapEffects
  | swapGains
  | reload (result : Reload)
  | finish
  | lookRelease
  | giveUp
  | publish
  | adopt (fresh : Bool)
  | check
  | unmute
  | clearRelease
  | skip
  | load
  | finishBlock
deriving DecidableEq

namespace State

section Steps

variable (sampleRate frames : Nat)

def start (running : Bool) : State where
  running := running
  sceneMuted := false
  sceneSilent := false
  sceneReleaseGeneration := 0
  published := 0
  generation := 0
  gain := 1
  recallAt := .idle
  audio := .adopt
  window := .closed

/-- A recall that does not go on. -/
def fail (s : State) : State :=
  { s with sceneMuted := false, recallAt := .idle, window := .closed }

/-- The steps of a recall, and the publications of other threads. -/
def recallStep (s : State) : Event → Option State
  | .begin =>
      if s.recallAt = .idle then
        if s.sceneReleaseGeneration = 0 then
          some { s with recallAt := .resetSilent }
        else some s
      else none
  | .prepareFails =>
      if s.recallAt = .resetSilent then some { s with recallAt := .idle } else none
  | .resetSilent =>
      if s.recallAt = .resetSilent then
        some { s with sceneSilent := false, recallAt := .resetRelease }
      else none
  | .resetRelease =>
      if s.recallAt = .resetRelease then
        some { s with sceneReleaseGeneration := 0, recallAt := .mute }
      else none
  | .mute =>
      if s.recallAt = .mute then
        some { s with sceneMuted := true, recallAt := .wait }
      else none
  | .look =>
      if s.recallAt = .wait then
        if s.running = false ∨ s.sceneSilent = true then
          some { s with recallAt := .readConfig }
        else some s
      else none
  | .timeout =>
      if s.recallAt = .wait ∧ s.running = true then some s.fail else none
  | .readConfig ok =>
      if s.recallAt = .readConfig then
        if ok then some { s with recallAt := .firstWrite } else some s.fail
      else none
  | .firstWrite =>
      if s.recallAt = .firstWrite then
        some { s with recallAt := .writes, window := .written }
      else none
  | .writes ok =>
      if s.recallAt = .writes then
        if ok then some { s with recallAt := .swapEffects } else some s.fail
      else none
  | .swapEffects =>
      if s.recallAt = .swapEffects then
        some { s with recallAt := .swapGains, window := .swapped s.published }
      else none
  | .swapGains =>
      if s.recallAt = .swapGains then some { s with recallAt := .reload } else none
  | .reload result =>
      if s.recallAt = .reload then
        some { s with
          recallAt := .finish result
          published :=
            if result = .published then s.published + 1 else s.published
          window := if result = .published then s.window else .closed }
      else none
  | .finish =>
      match s.recallAt with
      | .finish result =>
          if s.running = false ∨ result = .failed then
            some { s with sceneMuted := false, recallAt := .waitRelease }
          else
            some { s with
              sceneReleaseGeneration := s.published
              recallAt := .waitRelease }
      | _ => none
  | .lookRelease =>
      if s.recallAt = .waitRelease then
        if s.sceneReleaseGeneration = 0 then some { s with recallAt := .idle }
        else some s
      else none
  | .giveUp =>
      if s.recallAt = .waitRelease then some { s with recallAt := .idle } else none
  | .publish => some { s with published := s.published + 1 }
  | _ => none

def adopted (s : State) (fresh : Bool) : Nat :=
  if fresh then s.published else s.generation

/-- The window ends when a graph is adopted that is new enough. -/
def windowAfter (window : Window) (generation : Nat) : Window :=
  match window with
  | .swapped g => if g < generation then .closed else .swapped g
  | window => window

/-- The steps of the audio thread. -/
def audioStep (s : State) : Event → Option State
  | .adopt fresh =>
      if s.audio = .adopt then
        some { s with
          generation := s.adopted fresh
          window := windowAfter s.window (s.adopted fresh)
          audio := .check }
      else none
  | .check =>
      if s.audio = .check then
        if s.sceneReleaseGeneration ≠ 0 ∧
            s.sceneReleaseGeneration ≤ s.generation then
          some { s with audio := .unmute }
        else some { s with audio := .load }
      else none
  | .unmute =>
      if s.audio = .unmute then
        some { s with sceneMuted := false, audio := .clearRelease }
      else none
  | .clearRelease =>
      if s.audio = .clearRelease then
        some { s with sceneReleaseGeneration := 0, audio := .load }
      else none
  | .skip => if s.audio = .load then some { s with audio := .adopt } else none
  | .load =>
      if s.audio = .load ∧ 0 < s.generation then
        some { s with audio := .block s.sceneMuted }
      else none
  | .finishBlock =>
      match s.audio with
      | .block muted =>
          some { s with
            gain := gainAfter sampleRate frames muted s.gain
            sceneSilent :=
              muted && gainAfter sampleRate frames muted s.gain == 0
            audio := .adopt }
      | _ => none
  | _ => none

def ofAudio : Event → Bool
  | .adopt _ | .check | .unmute | .clearRelease | .skip | .load
  | .finishBlock => true
  | _ => false

def step (s : State) (e : Event) : Option State :=
  if ofAudio e then
    if s.running = true then s.audioStep sampleRate frames e else none
  else s.recallStep e

end Steps

/-! ## What holds in every run -/

section Runs

variable {sampleRate frames : Nat} {s s' : State}

/-- A mute that is not over has its release pending. -/
def Released (s : State) : Prop :=
  s.sceneMuted = false ∨
    (0 < s.sceneReleaseGeneration ∧ s.sceneReleaseGeneration ≤ s.published)

/-- What holds at each point of a recall. -/
def RecallInv (s : State) : Prop :=
  match s.recallAt with
  | .idle | .waitRelease => s.Released
  | .resetSilent | .resetRelease | .mute =>
      s.sceneMuted = false ∧ s.sceneReleaseGeneration = 0
  | .wait => s.sceneMuted = true ∧ s.sceneReleaseGeneration = 0
  | .readConfig | .firstWrite | .writes | .swapEffects | .swapGains | .reload
  | .finish _ =>
      s.sceneMuted = true ∧ s.sceneReleaseGeneration = 0 ∧
        (s.running = true → 0 < s.published)

/-- What holds at each point of the audio thread. -/
def AudioInv (s : State) : Prop :=
  match s.audio with
  | .unmute =>
      0 < s.sceneReleaseGeneration ∧ s.sceneReleaseGeneration ≤ s.generation
  | .clearRelease =>
      0 < s.sceneReleaseGeneration ∧
        s.sceneReleaseGeneration ≤ s.generation ∧ s.sceneMuted = false
  | .block _ => 0 < s.generation
  | _ => True

structure Inv (s : State) : Prop where
  recalled : s.RecallInv
  audible : s.AudioInv
  adopted : s.generation ≤ s.published
  silent : s.sceneSilent = true → 0 < s.published
  stopped : s.running = false →
    s.audio = .adopt ∧ s.sceneReleaseGeneration = 0

theorem inv_start (running : Bool) : (start running).Inv where
  recalled := .inl rfl
  audible := trivial
  adopted := le_rfl
  silent h := absurd h (by simp [start])
  stopped _ := ⟨rfl, rfl⟩

/-- Where no release is pending, the audio thread is at none of the points that
depend on the flags. -/
theorem audible_of_zero (h : s.AudioInv) (hzero : s.sceneReleaseGeneration = 0)
    (haudio : s'.audio = s.audio) (hgeneration : s'.generation = s.generation) :
    s'.AudioInv := by
  rw [AudioInv] at h ⊢
  rw [haudio, hgeneration]
  split at h
  · omega
  · omega
  · exact h
  · trivial

theorem recalled_publish (h : s.RecallInv) :
    RecallInv { s with published := s.published + 1 } := by
  have hreleased : s.Released →
      Released { s with published := s.published + 1 } :=
    fun h => h.imp_right fun h => ⟨h.1, h.2.trans (Nat.le_succ _)⟩
  have hpositive : (s.running = true → 0 < s.published) →
      s.running = true → 0 < s.published + 1 := fun h hrunning => by omega
  rw [RecallInv] at h ⊢
  dsimp only
  cases hat : s.recallAt
  all_goals rw [hat] at h
  all_goals first
    | exact hreleased h
    | exact h
    | exact ⟨h.1, h.2.1, hpositive h.2.2⟩

theorem inv_fail (hinv : s.Inv) (hzero : s.sceneReleaseGeneration = 0) :
    s.fail.Inv where
  recalled := .inl rfl
  audible := audible_of_zero hinv.audible hzero rfl rfl
  adopted := hinv.adopted
  silent := hinv.silent
  stopped := hinv.stopped

theorem inv_recallStep {e : Event} (h : s.recallStep e = some s')
    (hinv : s.Inv) : s'.Inv := by
  have hrecall := hinv.recalled
  have haudio := hinv.audible
  have hadopted := hinv.adopted
  have hsilent := hinv.silent
  have hstopped := hinv.stopped
  rw [RecallInv] at hrecall
  cases e with
  | begin =>
      rw [recallStep] at h
      split at h
      case isTrue hat =>
        rw [hat] at hrecall
        split at h
        case isTrue hzero =>
          obtain rfl := Option.some.inj h
          exact ⟨⟨hrecall.resolve_right (by omega), hzero⟩, haudio, hadopted,
            hsilent, hstopped⟩
        case isFalse =>
          obtain rfl := Option.some.inj h
          exact hinv
      case isFalse => simp at h
  | prepareFails =>
      rw [recallStep] at h
      split at h
      case isTrue hat =>
        rw [hat] at hrecall
        obtain rfl := Option.some.inj h
        exact ⟨.inl hrecall.1, haudio, hadopted, hsilent, hstopped⟩
      case isFalse => simp at h
  | resetSilent =>
      rw [recallStep] at h
      split at h
      case isTrue hat =>
        rw [hat] at hrecall
        obtain rfl := Option.some.inj h
        exact ⟨hrecall, haudio, hadopted, by simp, hstopped⟩
      case isFalse => simp at h
  | resetRelease =>
      rw [recallStep] at h
      split at h
      case isTrue hat =>
        rw [hat] at hrecall
        obtain rfl := Option.some.inj h
        exact ⟨⟨hrecall.1, rfl⟩, audible_of_zero haudio hrecall.2 rfl rfl,
          hadopted, hsilent, fun hrunning => ⟨(hstopped hrunning).1, rfl⟩⟩
      case isFalse => simp at h
  | mute =>
      rw [recallStep] at h
      split at h
      case isTrue hat =>
        rw [hat] at hrecall
        obtain rfl := Option.some.inj h
        exact ⟨⟨rfl, hrecall.2⟩, audible_of_zero haudio hrecall.2 rfl rfl,
          hadopted, hsilent, hstopped⟩
      case isFalse => simp at h
  | look =>
      rw [recallStep] at h
      split at h
      case isTrue hat =>
        rw [hat] at hrecall
        split at h
        case isTrue hsilent' =>
          obtain rfl := Option.some.inj h
          refine ⟨⟨hrecall.1, hrecall.2, fun hrunning => ?_⟩, haudio, hadopted,
            hsilent, hstopped⟩
          have hrun : s.running = true := hrunning
          exact hsilent (hsilent'.resolve_left (by simp [hrun]))
        case isFalse =>
          obtain rfl := Option.some.inj h
          exact hinv
      case isFalse => simp at h
  | timeout =>
      rw [recallStep] at h
      split at h
      case isTrue hat =>
        rw [hat.1] at hrecall
        obtain rfl := Option.some.inj h
        exact inv_fail hinv hrecall.2
      case isFalse => simp at h
  | readConfig ok =>
      rw [recallStep] at h
      split at h
      case isTrue hat =>
        rw [hat] at hrecall
        split at h
        · obtain rfl := Option.some.inj h
          exact ⟨hrecall, haudio, hadopted, hsilent, hstopped⟩
        · obtain rfl := Option.some.inj h
          exact inv_fail hinv hrecall.2.1
      case isFalse => simp at h
  | firstWrite =>
      rw [recallStep] at h
      split at h
      case isTrue hat =>
        rw [hat] at hrecall
        obtain rfl := Option.some.inj h
        exact ⟨hrecall, haudio, hadopted, hsilent, hstopped⟩
      case isFalse => simp at h
  | writes ok =>
      rw [recallStep] at h
      split at h
      case isTrue hat =>
        rw [hat] at hrecall
        split at h
        · obtain rfl := Option.some.inj h
          exact ⟨hrecall, haudio, hadopted, hsilent, hstopped⟩
        · obtain rfl := Option.some.inj h
          exact inv_fail hinv hrecall.2.1
      case isFalse => simp at h
  | swapEffects =>
      rw [recallStep] at h
      split at h
      case isTrue hat =>
        rw [hat] at hrecall
        obtain rfl := Option.some.inj h
        exact ⟨hrecall, haudio, hadopted, hsilent, hstopped⟩
      case isFalse => simp at h
  | swapGains =>
      rw [recallStep] at h
      split at h
      case isTrue hat =>
        rw [hat] at hrecall
        obtain rfl := Option.some.inj h
        exact ⟨hrecall, haudio, hadopted, hsilent, hstopped⟩
      case isFalse => simp at h
  | reload result =>
      rw [recallStep] at h
      split at h
      case isTrue hat =>
        rw [hat] at hrecall
        obtain rfl := Option.some.inj h
        have hle : s.published ≤
            if result = .published then s.published + 1 else s.published := by
          split <;> omega
        exact ⟨⟨hrecall.1, hrecall.2.1, fun hrun =>
            (hrecall.2.2 hrun).trans_le hle⟩,
          haudio, hadopted.trans hle, fun h => (hsilent h).trans_le hle,
          hstopped⟩
      case isFalse => simp at h
  | finish =>
      rw [recallStep] at h
      split at h
      case h_1 result hat =>
        rw [hat] at hrecall
        split at h
        case isTrue =>
          obtain rfl := Option.some.inj h
          exact ⟨.inl rfl, audible_of_zero haudio hrecall.2.1 rfl rfl, hadopted,
            hsilent, hstopped⟩
        case isFalse hgo =>
          obtain rfl := Option.some.inj h
          have hrunning : s.running = true := by
            by_contra hnot
            exact hgo (.inl (by simpa using hnot))
          exact ⟨.inr ⟨hrecall.2.2 hrunning, le_rfl⟩,
            audible_of_zero haudio hrecall.2.1 rfl rfl, hadopted, hsilent,
            fun hstop => absurd hrunning (by simp [show s.running = false from hstop])⟩
      case h_2 => simp at h
  | lookRelease =>
      rw [recallStep] at h
      split at h
      case isTrue hat =>
        rw [hat] at hrecall
        split at h
        · obtain rfl := Option.some.inj h
          exact ⟨hrecall, haudio, hadopted, hsilent, hstopped⟩
        · obtain rfl := Option.some.inj h
          exact hinv
      case isFalse => simp at h
  | giveUp =>
      rw [recallStep] at h
      split at h
      case isTrue hat =>
        rw [hat] at hrecall
        obtain rfl := Option.some.inj h
        exact ⟨hrecall, haudio, hadopted, hsilent, hstopped⟩
      case isFalse => simp at h
  | publish =>
      obtain rfl := Option.some.inj h
      exact ⟨recalled_publish hinv.recalled, haudio,
        hadopted.trans (Nat.le_succ _), fun h => (hsilent h).trans
          (Nat.lt_succ_self _), hstopped⟩
  | _ => simp [recallStep] at h

/-- The recall is at one of the points at which a release can be pending. -/
def Resting (s : State) : Prop :=
  s.recallAt = .idle ∨ s.recallAt = .waitRelease

theorem resting_of_pos (h : s.RecallInv) (hpos : 0 < s.sceneReleaseGeneration) :
    s.Resting := by
  rw [RecallInv] at h
  cases hat : s.recallAt
  case idle => exact .inl hat
  case waitRelease => exact .inr hat
  all_goals
    rw [hat] at h
    have hzero : s.sceneReleaseGeneration = 0 := by
      first | exact h.2 | exact h.2.1
    omega

theorem recalled_of_resting (hrest : s.Resting) (hat : s'.recallAt = s.recallAt)
    (h : s'.Released) : s'.RecallInv := by
  rw [RecallInv, hat]
  rcases hrest with hrest | hrest
  · rw [hrest]
    exact h
  · rw [hrest]
    exact h

theorem inv_audioStep {e : Event}
    (h : s.audioStep sampleRate frames e = some s')
    (hrunning : s.running = true) (hinv : s.Inv) : s'.Inv := by
  have hrecall := hinv.recalled
  have haudio := hinv.audible
  have hadopted := hinv.adopted
  have hsilent := hinv.silent
  rw [AudioInv] at haudio
  have hstopped : s.running = false → s'.audio = .adopt ∧
      s'.sceneReleaseGeneration = 0 := by
    rw [hrunning]
    simp
  cases e with
  | adopt fresh =>
      rw [audioStep] at h
      split at h
      case isTrue hat =>
        obtain rfl := Option.some.inj h
        refine ⟨hrecall, trivial, ?_, hsilent, hstopped⟩
        show s.adopted fresh ≤ s.published
        rw [State.adopted]
        split
        · exact le_rfl
        · exact hadopted
      case isFalse => simp at h
  | check =>
      rw [audioStep] at h
      split at h
      case isTrue hat =>
        split at h
        case isTrue hdue =>
          obtain rfl := Option.some.inj h
          exact ⟨hrecall, ⟨Nat.pos_of_ne_zero hdue.1, hdue.2⟩, hadopted,
            hsilent, hstopped⟩
        case isFalse =>
          obtain rfl := Option.some.inj h
          exact ⟨hrecall, trivial, hadopted, hsilent, hstopped⟩
      case isFalse => simp at h
  | unmute =>
      rw [audioStep] at h
      split at h
      case isTrue hat =>
        rw [hat] at haudio
        obtain rfl := Option.some.inj h
        exact ⟨recalled_of_resting (resting_of_pos hrecall haudio.1) rfl
            (.inl rfl),
          ⟨haudio.1, haudio.2, rfl⟩, hadopted, hsilent, hstopped⟩
      case isFalse => simp at h
  | clearRelease =>
      rw [audioStep] at h
      split at h
      case isTrue hat =>
        rw [hat] at haudio
        obtain rfl := Option.some.inj h
        exact ⟨recalled_of_resting (resting_of_pos hrecall haudio.1) rfl
            (.inl haudio.2.2),
          trivial, hadopted, hsilent, hstopped⟩
      case isFalse => simp at h
  | skip =>
      rw [audioStep] at h
      split at h
      case isTrue hat =>
        obtain rfl := Option.some.inj h
        exact ⟨hrecall, trivial, hadopted, hsilent, hstopped⟩
      case isFalse => simp at h
  | load =>
      rw [audioStep] at h
      split at h
      case isTrue hat =>
        obtain rfl := Option.some.inj h
        exact ⟨hrecall, hat.2, hadopted, hsilent, hstopped⟩
      case isFalse => simp at h
  | finishBlock =>
      rw [audioStep] at h
      split at h
      case h_1 muted hat =>
        rw [hat] at haudio
        obtain rfl := Option.some.inj h
        exact ⟨hrecall, trivial, hadopted, fun _ => haudio.trans_le hadopted,
          hstopped⟩
      case h_2 => simp at h
  | _ => simp [audioStep] at h

theorem inv_step {e : Event} (h : s.step sampleRate frames e = some s')
    (hinv : s.Inv) : s'.Inv := by
  rw [step] at h
  split at h
  · split at h
    case isTrue hrunning => exact inv_audioStep h hrunning hinv
    case isFalse => simp at h
  · exact inv_recallStep h hinv

theorem inv_run {es : List Event} {running : Bool}
    (h : Run (fun s e s' => s.step sampleRate frames e = some s')
      (start running) es s) : s.Inv :=
  h.invariant Inv (P := fun _ => True)
    (fun _ _ _ _ hinv hstep => inv_step hstep hinv) (fun _ _ => trivial)
    (inv_start running)

/-- The next adoption of the last graph clears both flags. -/
theorem cleared_by_adoption (hrunning : s.running = true)
    (haudio : s.audio = .adopt) (hpos : 0 < s.sceneReleaseGeneration)
    (hle : s.sceneReleaseGeneration ≤ s.published) :
    ∃ s', Run (fun s e s' => s.step sampleRate frames e = some s') s
      [.adopt true, .check, .unmute, .clearRelease] s' ∧
      s'.sceneMuted = false ∧ s'.sceneReleaseGeneration = 0 := by
  have hadopt : s.step sampleRate frames (.adopt true) =
      some { s with
        generation := s.published
        window := windowAfter s.window s.published
        audio := .check } := by
    simp [step, ofAudio, audioStep, adopted, hrunning, haudio]
  have hcheck : { s with
        generation := s.published
        window := windowAfter s.window s.published
        audio := .check }.step sampleRate frames .check =
      some { s with
        generation := s.published
        window := windowAfter s.window s.published
        audio := .unmute } := by
    simp [step, ofAudio, audioStep, hrunning, hle, Nat.pos_iff_ne_zero.mp hpos]
  have hunmute : { s with
        generation := s.published
        window := windowAfter s.window s.published
        audio := .unmute }.step sampleRate frames .unmute =
      some { s with
        sceneMuted := false
        generation := s.published
        window := windowAfter s.window s.published
        audio := .clearRelease } := by
    simp [step, ofAudio, audioStep, hrunning]
  have hclear : { s with
        sceneMuted := false
        generation := s.published
        window := windowAfter s.window s.published
        audio := .clearRelease }.step sampleRate frames .clearRelease =
      some { s with
        sceneMuted := false
        sceneReleaseGeneration := 0
        generation := s.published
        window := windowAfter s.window s.published
        audio := .load } := by
    simp [step, ofAudio, audioStep, hrunning]
  exact ⟨_, .cons hadopt (.cons hcheck (.cons hunmute
    (.cons hclear (.nil _)))), rfl, rfl⟩

/-! ## The silence of a switch -/

/-- A recall that has passed its wait and has not handed its release over. -/
def Passed (s : State) : Prop :=
  match s.recallAt with
  | .readConfig | .firstWrite | .writes | .swapEffects | .swapGains | .reload
  | .finish _ => True
  | _ => False

/-- What ends the window is still to come. -/
def WindowInv (s : State) : Prop :=
  match s.window with
  | .closed => True
  | .written => s.recallAt = .writes ∨ s.recallAt = .swapEffects
  | .swapped g => s.generation ≤ g ∧
      (((s.recallAt = .swapGains ∨ s.recallAt = .reload) ∧ g ≤ s.published) ∨
        (s.recallAt = .finish .published ∧ g < s.published) ∨
        g < s.sceneReleaseGeneration)

/-- A silence that has been acknowledged stays one. -/
structure Quiet (s : State) : Prop where
  silent : s.sceneSilent = true → s.gain = 0
  muted : s.Passed ∨ s.window ≠ .closed →
    s.sceneMuted = true ∧ s.gain = 0 ∧ s.audio ≠ .block false
  window : s.WindowInv

/-- The acknowledgement that the recall takes is not followed by a block that
has read `sceneMuted` before the recall set it. -/
def Taken (s : State) (e : Event) : Prop :=
  e = .look → s.sceneSilent = true → s.audio ≠ .block false

instance (s : State) (e : Event) : Decidable (s.Taken e) :=
  inferInstanceAs (Decidable (_ → _ → _))

theorem quiet_start (running : Bool) : (start running).Quiet where
  silent h := absurd h (by simp [start])
  muted h := absurd h (by simp [start, Passed])
  window := trivial

/-- With no release pending, the window is open only while the recall goes on. -/
theorem window_closed (hquiet : s.Quiet) (hzero : s.sceneReleaseGeneration = 0)
    (hpassed : s.recallAt ≠ .writes ∧ s.recallAt ≠ .swapEffects ∧
      s.recallAt ≠ .swapGains ∧ s.recallAt ≠ .reload ∧
      s.recallAt ≠ .finish .published) : s.window = .closed := by
  have hwindow := hquiet.window
  rw [WindowInv] at hwindow
  split at hwindow
  case h_1 hclosed => exact hclosed
  case h_2 => exact absurd hwindow (by simp [hpassed])
  case h_3 => exact absurd hwindow (by simp [hpassed, hzero])

theorem quiet_fail (hquiet : s.Quiet) : s.fail.Quiet where
  silent := hquiet.silent
  muted h := absurd h (by simp [fail, Passed])
  window := trivial

/-- A point of the recall that is not past its wait, with the window closed. -/
theorem quiet_of_closed (hsilent : s.sceneSilent = true → s.gain = 0)
    (hpassed : ¬ s.Passed) (hwindow : s.window = .closed) : s.Quiet where
  silent := hsilent
  muted h := by
    rcases h with h | h
    · exact absurd h hpassed
    · exact absurd hwindow h
  window := by rw [WindowInv, hwindow]; trivial

theorem quiet_recallStep {e : Event} (h : s.recallStep e = some s')
    (hrunning : s.running = true) (htaken : s.Taken e) (hinv : s.Inv)
    (hquiet : s.Quiet) : s'.Quiet := by
  have hrecall := hinv.recalled
  have hwindow := hquiet.window
  have hclosed := fun hzero hat => window_closed hquiet hzero hat
  rw [RecallInv] at hrecall
  cases e with
  | begin =>
      rw [recallStep] at h
      split at h
      case isTrue hat =>
        split at h
        case isTrue hzero =>
          obtain rfl := Option.some.inj h
          exact quiet_of_closed hquiet.silent (by simp [Passed])
            (hclosed hzero (by simp [hat]))
        case isFalse =>
          obtain rfl := Option.some.inj h
          exact hquiet
      case isFalse => simp at h
  | prepareFails =>
      rw [recallStep] at h
      split at h
      case isTrue hat =>
        rw [hat] at hrecall
        obtain rfl := Option.some.inj h
        exact quiet_of_closed hquiet.silent (by simp [Passed])
          (hclosed hrecall.2 (by simp [hat]))
      case isFalse => simp at h
  | resetSilent =>
      rw [recallStep] at h
      split at h
      case isTrue hat =>
        rw [hat] at hrecall
        obtain rfl := Option.some.inj h
        exact quiet_of_closed (by simp) (by simp [Passed])
          (hclosed hrecall.2 (by simp [hat]))
      case isFalse => simp at h
  | resetRelease =>
      rw [recallStep] at h
      split at h
      case isTrue hat =>
        rw [hat] at hrecall
        obtain rfl := Option.some.inj h
        exact quiet_of_closed hquiet.silent (by simp [Passed])
          (hclosed hrecall.2 (by simp [hat]))
      case isFalse => simp at h
  | mute =>
      rw [recallStep] at h
      split at h
      case isTrue hat =>
        rw [hat] at hrecall
        obtain rfl := Option.some.inj h
        exact quiet_of_closed hquiet.silent (by simp [Passed])
          (hclosed hrecall.2 (by simp [hat]))
      case isFalse => simp at h
  | look =>
      rw [recallStep] at h
      split at h
      case isTrue hat =>
        rw [hat] at hrecall
        split at h
        case isTrue hsilent =>
          obtain rfl := Option.some.inj h
          have hack : s.sceneSilent = true :=
            hsilent.resolve_left (by simp [hrunning])
          have hshut : s.window = .closed := hclosed hrecall.2 (by simp [hat])
          refine ⟨hquiet.silent, fun _ => ?_, ?_⟩
          · exact ⟨hrecall.1, hquiet.silent hack, htaken rfl hack⟩
          · rw [WindowInv]
            simp only [hshut]
        case isFalse =>
          obtain rfl := Option.some.inj h
          exact hquiet
      case isFalse => simp at h
  | timeout =>
      rw [recallStep] at h
      split at h
      case isTrue =>
        obtain rfl := Option.some.inj h
        exact quiet_fail hquiet
      case isFalse => simp at h
  | readConfig ok =>
      rw [recallStep] at h
      split at h
      case isTrue hat =>
        rw [hat] at hrecall
        have hpassed : s.Passed := by rw [Passed, hat]; trivial
        split at h
        · obtain rfl := Option.some.inj h
          have hshut : s.window = .closed :=
            hclosed hrecall.2.1 (by simp [hat])
          refine ⟨hquiet.silent, fun _ => hquiet.muted (.inl hpassed), ?_⟩
          rw [WindowInv]
          simp only [hshut]
        · obtain rfl := Option.some.inj h
          exact quiet_fail hquiet
      case isFalse => simp at h
  | firstWrite =>
      rw [recallStep] at h
      split at h
      case isTrue hat =>
        have hpassed : s.Passed := by rw [Passed, hat]; trivial
        obtain rfl := Option.some.inj h
        exact ⟨hquiet.silent, fun _ => hquiet.muted (.inl hpassed), .inl rfl⟩
      case isFalse => simp at h
  | writes ok =>
      rw [recallStep] at h
      split at h
      case isTrue hat =>
        rw [hat] at hrecall
        have hpassed : s.Passed := by rw [Passed, hat]; trivial
        split at h
        · obtain rfl := Option.some.inj h
          refine ⟨hquiet.silent, fun _ => hquiet.muted (.inl hpassed), ?_⟩
          rw [WindowInv] at hwindow ⊢
          dsimp only
          split at hwindow
          · trivial
          · exact .inr rfl
          · simp [hat, hrecall.2.1] at hwindow
        · obtain rfl := Option.some.inj h
          exact quiet_fail hquiet
      case isFalse => simp at h
  | swapEffects =>
      rw [recallStep] at h
      split at h
      case isTrue hat =>
        have hpassed : s.Passed := by rw [Passed, hat]; trivial
        obtain rfl := Option.some.inj h
        exact ⟨hquiet.silent, fun _ => hquiet.muted (.inl hpassed),
          hinv.adopted, .inl ⟨.inl rfl, le_rfl⟩⟩
      case isFalse => simp at h
  | swapGains =>
      rw [recallStep] at h
      split at h
      case isTrue hat =>
        rw [hat] at hrecall
        have hpassed : s.Passed := by rw [Passed, hat]; trivial
        obtain rfl := Option.some.inj h
        refine ⟨hquiet.silent, fun _ => hquiet.muted (.inl hpassed), ?_⟩
        rw [WindowInv] at hwindow ⊢
        dsimp only
        split at hwindow
        · trivial
        · simp [hat] at hwindow
        · simp only [hat, hrecall.2.1] at hwindow
          exact ⟨hwindow.1, .inl ⟨.inr rfl, by simpa using hwindow.2⟩⟩
      case isFalse => simp at h
  | reload result =>
      rw [recallStep] at h
      split at h
      case isTrue hat =>
        rw [hat] at hrecall
        have hpassed : s.Passed := by rw [Passed, hat]; trivial
        obtain rfl := Option.some.inj h
        refine ⟨hquiet.silent, fun _ => hquiet.muted (.inl hpassed), ?_⟩
        rw [WindowInv] at hwindow ⊢
        dsimp only
        by_cases hpublished : result = .published
        · simp only [if_pos hpublished]
          split at hwindow
          case h_1 => trivial
          case h_2 => simp [hat] at hwindow
          case h_3 g _ =>
            simp only [hat, hrecall.2.1] at hwindow
            have hle : g ≤ s.published := by simpa using hwindow.2
            exact ⟨hwindow.1, .inr (.inl ⟨by rw [hpublished],
              Nat.lt_succ_of_le hle⟩)⟩
        · simp only [if_neg hpublished]
      case isFalse => simp at h
  | finish =>
      rw [recallStep] at h
      split at h
      case h_1 result hat =>
        rw [hat] at hrecall
        have hpassed : s.Passed := by rw [Passed, hat]; trivial
        split at h
        case isTrue hfailed =>
          obtain rfl := Option.some.inj h
          have hresult : result = .failed :=
            hfailed.resolve_left (by simp [hrunning])
          exact quiet_of_closed hquiet.silent (by simp [Passed])
            (hclosed hrecall.2.1 (by simp [hat, hresult]))
        case isFalse =>
          obtain rfl := Option.some.inj h
          refine ⟨hquiet.silent, fun _ => hquiet.muted (.inl hpassed), ?_⟩
          rw [WindowInv] at hwindow ⊢
          dsimp only
          split at hwindow
          case h_1 => trivial
          case h_2 => simp [hat] at hwindow
          case h_3 g _ =>
            simp only [hat, hrecall.2.1] at hwindow
            have hlt : result = .published ∧ g < s.published := by
              simpa using hwindow.2
            exact ⟨hwindow.1, .inr (.inr hlt.2)⟩
      case h_2 => simp at h
  | lookRelease =>
      rw [recallStep] at h
      split at h
      case isTrue hat =>
        split at h
        case isTrue hzero =>
          obtain rfl := Option.some.inj h
          exact quiet_of_closed hquiet.silent (by simp [Passed])
            (hclosed hzero (by simp [hat]))
        case isFalse =>
          obtain rfl := Option.some.inj h
          exact hquiet
      case isFalse => simp at h
  | giveUp =>
      rw [recallStep] at h
      split at h
      case isTrue hat =>
        obtain rfl := Option.some.inj h
        refine ⟨hquiet.silent, fun hopen => hquiet.muted (.inr ?_), ?_⟩
        · exact hopen.resolve_left (by simp [Passed])
        · rw [WindowInv] at hwindow ⊢
          dsimp only
          split at hwindow
          · trivial
          · simp [hat] at hwindow
          · simp only [hat] at hwindow
            exact ⟨hwindow.1, .inr (.inr (by simpa using hwindow.2))⟩
      case isFalse => simp at h
  | publish =>
      obtain rfl := Option.some.inj h
      refine ⟨hquiet.silent, hquiet.muted, ?_⟩
      rw [WindowInv] at hwindow ⊢
      dsimp only
      split at hwindow
      · trivial
      · exact hwindow
      · refine ⟨hwindow.1, ?_⟩
        rcases hwindow.2 with ⟨hat, hle⟩ | ⟨hat, hlt⟩ | hlt
        · exact .inl ⟨hat, hle.trans (Nat.le_succ _)⟩
        · exact .inr (.inl ⟨hat, hlt.trans (Nat.lt_succ_self _)⟩)
        · exact .inr (.inr hlt)
  | _ => simp [recallStep] at h

/-- When a release is due, the recall is over and its window closed. -/
theorem over_of_due (hinv : s.Inv) (hquiet : s.Quiet)
    (hpos : 0 < s.sceneReleaseGeneration)
    (hdue : s.sceneReleaseGeneration ≤ s.generation) :
    ¬ s.Passed ∧ s.window = .closed := by
  have hrest := resting_of_pos hinv.recalled hpos
  have hwindow := hquiet.window
  constructor
  · rw [Passed]
    rcases hrest with hat | hat <;> simp [hat]
  · rw [WindowInv] at hwindow
    split at hwindow
    case h_1 hclosed => exact hclosed
    case h_2 => rcases hrest with hat | hat <;> simp [hat] at hwindow
    case h_3 g _ =>
      have hlt : g < s.sceneReleaseGeneration := by
        rcases hrest with hat | hat <;> simpa [hat] using hwindow.2
      omega

theorem windowAfter_closed {window : Window} {generation : Nat}
    (h : windowAfter window generation ≠ .closed) : window ≠ .closed := by
  rintro rfl
  exact h rfl

theorem windowInv_adopt (h : s.WindowInv) {generation : Nat} {audio : AudioAt} :
    WindowInv { s with
      generation
      window := windowAfter s.window generation
      audio } := by
  rw [WindowInv] at h ⊢
  dsimp only
  cases hwindow : s.window with
  | closed => trivial
  | written =>
      rw [hwindow] at h
      exact h
  | swapped g =>
      rw [hwindow] at h
      rw [windowAfter]
      by_cases hlt : g < generation
      · simp only [if_pos hlt]
      · simp only [if_neg hlt]
        exact ⟨Nat.not_lt.mp hlt, h.2⟩

theorem quiet_audioStep {e : Event}
    (h : s.audioStep sampleRate frames e = some s') (hinv : s.Inv)
    (hquiet : s.Quiet) : s'.Quiet := by
  have haudio := hinv.audible
  rw [AudioInv] at haudio
  cases e with
  | adopt fresh =>
      rw [audioStep] at h
      split at h
      case isTrue hat =>
        obtain rfl := Option.some.inj h
        refine ⟨hquiet.silent, fun hopen => ?_, windowInv_adopt hquiet.window⟩
        obtain ⟨hmuted, hgain, -⟩ :=
          hquiet.muted (hopen.imp id windowAfter_closed)
        exact ⟨hmuted, hgain, by simp⟩
      case isFalse => simp at h
  | check =>
      rw [audioStep] at h
      split at h
      case isTrue hat =>
        have hmuted : s.Passed ∨ s.window ≠ .closed →
            s.sceneMuted = true ∧ s.gain = 0 := fun hopen =>
          ⟨(hquiet.muted hopen).1, (hquiet.muted hopen).2.1⟩
        split at h
        · obtain rfl := Option.some.inj h
          exact ⟨hquiet.silent, fun hopen =>
            ⟨(hmuted hopen).1, (hmuted hopen).2, by simp⟩, hquiet.window⟩
        · obtain rfl := Option.some.inj h
          exact ⟨hquiet.silent, fun hopen =>
            ⟨(hmuted hopen).1, (hmuted hopen).2, by simp⟩, hquiet.window⟩
      case isFalse => simp at h
  | unmute =>
      rw [audioStep] at h
      split at h
      case isTrue hat =>
        rw [hat] at haudio
        obtain ⟨hpassed, hclosed⟩ := over_of_due hinv hquiet haudio.1 haudio.2
        obtain rfl := Option.some.inj h
        exact quiet_of_closed hquiet.silent hpassed hclosed
      case isFalse => simp at h
  | clearRelease =>
      rw [audioStep] at h
      split at h
      case isTrue hat =>
        rw [hat] at haudio
        obtain ⟨hpassed, hclosed⟩ :=
          over_of_due hinv hquiet haudio.1 haudio.2.1
        obtain rfl := Option.some.inj h
        exact quiet_of_closed hquiet.silent hpassed hclosed
      case isFalse => simp at h
  | skip =>
      rw [audioStep] at h
      split at h
      case isTrue hat =>
        obtain rfl := Option.some.inj h
        refine ⟨hquiet.silent, fun hopen => ?_, hquiet.window⟩
        obtain ⟨hmuted, hgain, -⟩ := hquiet.muted hopen
        exact ⟨hmuted, hgain, by simp⟩
      case isFalse => simp at h
  | load =>
      rw [audioStep] at h
      split at h
      case isTrue hat =>
        obtain rfl := Option.some.inj h
        refine ⟨hquiet.silent, fun hopen => ?_, hquiet.window⟩
        obtain ⟨hmuted, hgain, -⟩ := hquiet.muted hopen
        exact ⟨hmuted, hgain, by simp [hmuted]⟩
      case isFalse => simp at h
  | finishBlock =>
      rw [audioStep] at h
      split at h
      case h_1 muted hat =>
        obtain rfl := Option.some.inj h
        refine ⟨fun hack => ?_, fun hopen => ?_, hquiet.window⟩
        · have hboth : muted = true ∧
              gainAfter sampleRate frames muted s.gain = 0 := by
            simpa using hack
          exact hboth.2
        · obtain ⟨hmuted, hgain, hblock⟩ := hquiet.muted hopen
          have htrue : muted = true := by
            cases muted with
            | true => rfl
            | false => exact absurd hat hblock
          refine ⟨hmuted, ?_, by simp⟩
          show gainAfter sampleRate frames muted s.gain = 0
          rw [htrue, hgain]
          exact gainAfter_zero sampleRate frames
      case h_2 => simp at h
  | _ => simp [audioStep] at h

theorem running_step {e : Event} (h : s.step sampleRate frames e = some s') :
    s'.running = s.running := by
  rw [step] at h
  cases e <;> simp only [ofAudio, Bool.false_eq_true, if_true, if_false,
    recallStep, audioStep, fail] at h <;> repeat' split at h
  all_goals first
    | (obtain rfl := Option.some.inj h; rfl)
    | simp at h

theorem quiet_step {e : Event} (h : s.step sampleRate frames e = some s')
    (hrunning : s.running = true) (htaken : s.Taken e) (hinv : s.Inv)
    (hquiet : s.Quiet) : s'.Quiet := by
  rw [step] at h
  split at h
  · exact quiet_audioStep h hinv hquiet
  · exact quiet_recallStep h hrunning htaken hinv hquiet

theorem quiet_run {es : List Event}
    (h : Run (Guarded Taken (step sampleRate frames)) (start true) es s) :
    s.Quiet := by
  have hall := h.invariant (P := fun _ => True)
    (fun s => s.running = true ∧ s.Inv ∧ s.Quiet)
    (fun s e s' _ hinv hstep => by
      obtain ⟨hrunning, hinv, hquiet⟩ := hinv
      exact ⟨(running_step hstep.2).trans hrunning, inv_step hstep.2 hinv,
        quiet_step hstep.2 hrunning hstep.1 hinv hquiet⟩)
    (fun _ _ => trivial) ⟨rfl, inv_start true, quiet_start true⟩
  exact hall.2.2

/-- What the sinks get in a block of a switch that is silent. -/
theorem factors_of_quiet (hquiet : s.Quiet) (hopen : s.window ≠ .closed)
    {muted : Bool} (hblock : s.audio = .block muted) :
    ∀ factor ∈ factors sampleRate frames muted s.gain, factor = 0 := by
  obtain ⟨-, hgain, hnot⟩ := hquiet.muted (.inr hopen)
  have htrue : muted = true := by
    cases muted with
    | true => rfl
    | false => exact absurd hblock hnot
  rw [hgain, htrue, factors, if_pos (.inl rfl), envelope_zero]
  exact fun factor hfactor => List.eq_of_mem_replicate hfactor

end Runs

/-! ## A switch -/

def block : List Event := [.adopt true, .check, .load, .finishBlock]

def muteNow : List Event := [.begin, .resetSilent, .resetRelease, .mute]

/-- A recall that waits for the end of the fade. -/
def waiting (gain : ℚ) : State where
  running := true
  sceneMuted := true
  sceneSilent := false
  sceneReleaseGeneration := 0
  published := 1
  generation := 1
  gain := gain
  recallAt := .wait
  audio := .adopt
  window := .closed

theorem waiting_fades :
    (.publish :: (block ++ muteNow)).foldlM (guarded Taken (step 48000 128))
        (start true) = some (waiting 1) ∧
      block.foldlM (guarded Taken (step 48000 128)) (waiting 1) =
        some (waiting (352 / 480)) ∧
      block.foldlM (guarded Taken (step 48000 128)) (waiting (352 / 480)) =
        some (waiting (224 / 480)) ∧
      block.foldlM (guarded Taken (step 48000 128)) (waiting (224 / 480)) =
        some (waiting (96 / 480)) := by
  decide +kernel

theorem run_waiting :
    ∃ es, Run (Guarded Taken (step 48000 128)) (start true) es
      (waiting (96 / 480)) := by
  obtain ⟨hstart, hfirst, hsecond, hthird⟩ := waiting_fades
  exact ⟨_, Run.append_iff.mpr ⟨_, Run.of_guarded hstart,
    Run.append_iff.mpr ⟨_, Run.of_guarded hfirst,
      Run.append_iff.mpr ⟨_, Run.of_guarded hsecond, Run.of_guarded hthird⟩⟩⟩⟩

/-- The end of a fade that is waited for, up to a block behind the first
write. -/
def waitedFor : List Event :=
  block ++ [.look, .readConfig true, .firstWrite, .adopt true, .check, .load]

theorem waitedFor_any :
    (waitedFor.foldlM (guarded Taken (step 48000 128))
      (waiting (96 / 480))).any
        (fun s => s.audio == .block true && s.window == .written) = true := by
  decide +kernel

/-- The recall gives up while the audio thread ends its fade, and the next one
takes the acknowledgement. -/
def lateSilence : List Event :=
  [.adopt true, .check, .load, .timeout, .begin, .resetSilent, .finishBlock,
    .resetRelease, .adopt true, .check, .load, .mute, .look, .readConfig true,
    .firstWrite]

def lateSwitch : List Event :=
  [.finishBlock, .writes true, .swapEffects, .swapGains, .reload .published]

theorem lateSilence_any :
    (lateSilence.foldlM (step 48000 128) (waiting (96 / 480))).any
      (fun s => s.audio == .block false && s.window == .written &&
        (factors 48000 128 false s.gain).any (· != 0) &&
        (lateSwitch.foldlM (step 48000 128) s).any
          (·.recallAt == .finish .published)) = true := by
  decide +kernel

end State
end Audiox.SceneSwitch
