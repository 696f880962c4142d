import Mathlib

/-!
# The soundboard between a control thread and the audio thread

Starts of sounds reach the audio thread through a queue.  Stops reach it
through two counters, which a block exchanges for zero, one after the other,
before it reads how far the queue is filled.  A request may be made at any
time, also between these reads.
-/

namespace Audiox.Soundboard

def kMaxSoundboardVoices : Nat := 64
def AUDIO_SFX_SLOT_COUNT : Nat := 64
def AUDIO_SFX_QUEUE_CAP : Nat := 128

abbrev VoiceIndex : Type := Fin kMaxSoundboardVoices

/-- What a start looks at in a slot of the bank. -/
structure AudioSfxClipSlot where
  loaded : Bool
  pcm : Bool
  frames : Nat
  sampleRate : Nat
  channels : Nat

def AudioSfxClipSlot.playable (clip : AudioSfxClipSlot) : Bool :=
  clip.loaded && clip.pcm && clip.frames != 0 && clip.sampleRate != 0 &&
    (clip.channels == 1 || clip.channels == 2)

abbrev Bank : Type := Nat → AudioSfxClipSlot

structure AudioSfxTriggerEvent where
  slotIndex : Nat
  holdStart : Bool
  pitchRatio : ℚ
deriving DecidableEq

/-- What an active voice plays. -/
structure Sound where
  hold : Bool
  slotIndex : Nat
  channels : Nat
  frames : Nat
  sampleRate : Nat
  pitchRatio : ℚ
deriving DecidableEq

structure SoundboardVoice extends Sound where
  startedAtBlock : Nat

def clampPitchRatio (ratio : ℚ) : ℚ :=
  if ¬0 < ratio then 1
  else if ratio < 1 / 8 then 1 / 8
  else if 8 < ratio then 8
  else ratio

/-! ## The requests -/

inductive Request where
  | triggerSfx (slotIndex : Nat)
  | startHeldSfx (slotIndex : Nat)
  | stopHeldSfx
  | stopAllSfx
deriving DecidableEq

/-- What both threads see.  `sfxQueue` is the part of the ring between the two
indices, so the write index is the read index plus its length. -/
structure Mailbox where
  pendingSfxStopAll : UInt32
  pendingSfxHoldStops : UInt32
  sfxQueue : List AudioSfxTriggerEvent
  sfxQueueRead : UInt32

namespace Mailbox

def empty : Mailbox where
  pendingSfxStopAll := 0
  pendingSfxHoldStops := 0
  sfxQueue := []
  sfxQueueRead := 0

def sfxQueueWrite (m : Mailbox) : UInt32 :=
  m.sfxQueueRead + UInt32.ofNat m.sfxQueue.length

/-- An event for a slot, unless the queue is full. -/
def enqueueSfxEvent (m : Mailbox) (slotIndex : Nat) (holdStart : Bool)
    (pitchRatio : ℚ) : Mailbox :=
  if AUDIO_SFX_SLOT_COUNT ≤ slotIndex then m
  else if AUDIO_SFX_QUEUE_CAP ≤ m.sfxQueue.length then m
  else { m with sfxQueue := m.sfxQueue ++ [⟨slotIndex, holdStart, pitchRatio⟩] }

def request (m : Mailbox) : Request → Mailbox
  | .triggerSfx slotIndex => m.enqueueSfxEvent slotIndex false 1
  | .startHeldSfx slotIndex => m.enqueueSfxEvent slotIndex true 1
  | .stopHeldSfx =>
      { m with pendingSfxHoldStops := m.pendingSfxHoldStops + 1 }
  | .stopAllSfx => { m with pendingSfxStopAll := m.pendingSfxStopAll + 1 }

def requests (m : Mailbox) (rs : List Request) : Mailbox :=
  rs.foldl request m

/-- The events that the loop over the queue reads.  It compares the two
indices without regard to their wrapping. -/
def queued (m : Mailbox) : List AudioSfxTriggerEvent :=
  if m.sfxQueueRead < m.sfxQueueWrite then m.sfxQueue else []

/-- The queue after the loop. -/
def read (m : Mailbox) : Mailbox :=
  if m.sfxQueueRead < m.sfxQueueWrite then
    { m with sfxQueue := [], sfxQueueRead := m.sfxQueueWrite }
  else m

end Mailbox

/-! ## The voices -/

/-- The voices, an inactive one being `none`.  `order` lists the active ones
as they were started; no operation looks at it. -/
structure Runtime where
  soundboardVoices : VoiceIndex → Option SoundboardVoice
  holdVoiceIndex : Option VoiceIndex
  blocksProcessed : Nat
  order : List VoiceIndex

namespace Runtime

def silent : Runtime where
  soundboardVoices _ := none
  holdVoiceIndex := none
  blocksProcessed := 0
  order := []

def stopVoice (rt : Runtime) (voiceIndex : VoiceIndex) : Runtime :=
  if (rt.soundboardVoices voiceIndex).isNone then rt
  else { rt with
    soundboardVoices := Function.update rt.soundboardVoices voiceIndex none
    holdVoiceIndex :=
      if rt.holdVoiceIndex = some voiceIndex then none else rt.holdVoiceIndex
    order := rt.order.erase voiceIndex }

def stopAllVoices (rt : Runtime) : Runtime :=
  { (List.finRange kMaxSoundboardVoices).foldl stopVoice rt with
    holdVoiceIndex := none }

/-- Stops the voice that holds, if there is one. -/
def stopHoldVoice (rt : Runtime) : Runtime :=
  match rt.holdVoiceIndex with
  | some voiceIndex => rt.stopVoice voiceIndex
  | none => rt

def isHold (rt : Runtime) (voiceIndex : VoiceIndex) : Bool :=
  (rt.soundboardVoices voiceIndex).any fun v => v.hold

/-- Whether a start may take the place of the voice. -/
def mayReplace (rt : Runtime) (forHold : Bool) (voiceIndex : VoiceIndex) :
    Bool :=
  (rt.soundboardVoices voiceIndex).isSome &&
    (forHold || !rt.isHold voiceIndex)

def startedAtBlock (rt : Runtime) (voiceIndex : VoiceIndex) : Nat :=
  match rt.soundboardVoices voiceIndex with
  | some v => v.startedAtBlock
  | none => 0

/-- The first voice of those with the smallest start block. -/
def oldest (rt : Runtime) (candidate : VoiceIndex → Bool) :
    Option VoiceIndex :=
  ((List.finRange kMaxSoundboardVoices).filter candidate).argmin
    rt.startedAtBlock

def firstInactive (rt : Runtime) : Option VoiceIndex :=
  (List.finRange kMaxSoundboardVoices).find? fun voiceIndex =>
    (rt.soundboardVoices voiceIndex).isNone

def pickVoiceForStart (rt : Runtime) (forHold : Bool) : Option VoiceIndex :=
  match rt.firstInactive with
  | some voiceIndex => some voiceIndex
  | none =>
      match rt.oldest (rt.mayReplace forHold) with
      | some voiceIndex => some voiceIndex
      | none => rt.oldest (rt.mayReplace true)

/-- The sound of an event, with the data of its clip. -/
def soundOf (bank : Bank) (ev : AudioSfxTriggerEvent) : Sound where
  hold := ev.holdStart
  slotIndex := ev.slotIndex
  channels := (bank ev.slotIndex).channels
  frames := (bank ev.slotIndex).frames
  sampleRate := (bank ev.slotIndex).sampleRate
  pitchRatio := clampPitchRatio ev.pitchRatio

def play (rt : Runtime) (voiceIndex : VoiceIndex) (sound : Sound) : Runtime :=
  { rt with
    soundboardVoices := Function.update rt.soundboardVoices voiceIndex
      (some { sound with startedAtBlock := rt.blocksProcessed })
    holdVoiceIndex :=
      if sound.hold then some voiceIndex else rt.holdVoiceIndex
    order := rt.order ++ [voiceIndex] }

/-- A voice for a sound, where a held one has replaced the held one before. -/
def startVoice (rt : Runtime) (sound : Sound) : Runtime :=
  match rt.pickVoiceForStart sound.hold with
  | some voiceIndex => (rt.stopVoice voiceIndex).play voiceIndex sound
  | none => rt

/-- The body of the loop over the queue. -/
def startSfx (bank : Bank) (rt : Runtime) (ev : AudioSfxTriggerEvent) :
    Runtime :=
  if AUDIO_SFX_SLOT_COUNT ≤ ev.slotIndex then rt
  else if !(bank ev.slotIndex).playable then rt
  else if ev.holdStart then rt.stopHoldVoice.startVoice (soundOf bank ev)
  else rt.startVoice (soundOf bank ev)

def consumeHoldStops (rt : Runtime) (holdStops : UInt32) : Runtime :=
  if 0 < holdStops then { rt.stopHoldVoice with holdVoiceIndex := none }
  else rt

/-- The effect on the voices of a block that finds these counts of stops and
these events. -/
def consumeSoundboardTriggers (bank : Bank) (rt : Runtime)
    (stopAll holdStops : UInt32) (queued : List AudioSfxTriggerEvent) :
    Runtime :=
  if 0 < stopAll then rt.stopAllVoices
  else queued.foldl (startSfx bank) (rt.consumeHoldStops holdStops)

/-- What plays, in the order of the starts. -/
def playing (rt : Runtime) : List Sound :=
  rt.order.filterMap fun voiceIndex =>
    (rt.soundboardVoices voiceIndex).map SoundboardVoice.toSound

end Runtime

/-! ## Blocks -/

structure State where
  mailbox : Mailbox
  rt : Runtime

def start : State where
  mailbox := .empty
  rt := .silent

/-- An audio block, with the requests made before it reads the first counter,
before it reads the second one, and before it reads the write index. -/
structure Block where
  before : List Request
  between : List Request
  late : List Request

def Block.requests (b : Block) : List Request :=
  b.before ++ b.between ++ b.late

namespace State

/-- The mailbox when the block exchanges `pendingSfxStopAll`. -/
def atStopAll (s : State) (b : Block) : Mailbox :=
  s.mailbox.requests b.before

/-- The mailbox when the block exchanges `pendingSfxHoldStops`. -/
def atHoldStops (s : State) (b : Block) : Mailbox :=
  { s.atStopAll b with pendingSfxStopAll := 0 }.requests b.between

/-- The mailbox when the block reads the write index. -/
def atQueue (s : State) (b : Block) : Mailbox :=
  { s.atHoldStops b with pendingSfxHoldStops := 0 }.requests b.late

def processGraphBlock (bank : Bank) (s : State) (b : Block) : State where
  mailbox := (s.atQueue b).read
  rt :=
    { s.rt.consumeSoundboardTriggers bank
        (s.atStopAll b).pendingSfxStopAll
        (s.atHoldStops b).pendingSfxHoldStops
        (s.atQueue b).queued with
      blocksProcessed := s.rt.blocksProcessed + 1 }

/-- The audio thread has seen every request. -/
def CaughtUp (s : State) : Prop :=
  s.mailbox.pendingSfxStopAll = 0 ∧ s.mailbox.pendingSfxHoldStops = 0 ∧
    s.mailbox.sfxQueue = []

instance (s : State) : Decidable s.CaughtUp :=
  inferInstanceAs (Decidable (_ ∧ _))

/-- A block for every request, right after it is made. -/
def alone (bank : Bank) (s : State) (rs : List Request) : State :=
  rs.foldl (fun s r => s.processGraphBlock bank ⟨[r], [], []⟩) s

end State

end Audiox.Soundboard
