import Audiox.Audio.SoundboardVoices
import Audiox.Support.Runs
import Mathlib

/-!
# Soundboard requests in call order

A block lets the stops it finds take effect before the starts it finds, and a
stop of all sounds drops the starts.  The requests have the same effect as when
each of them has a block of its own, as long as no block turns a stop and a
start round where that matters, and no voice is stolen whose age is that of one
started before it.
-/

namespace Audiox.Soundboard

open Runs

/-! ## Requests on the list of sounds -/

namespace Request

def event? : Request → Option AudioSfxTriggerEvent
  | .triggerSfx slotIndex => some ⟨slotIndex, false, 1⟩
  | .startHeldSfx slotIndex => some ⟨slotIndex, true, 1⟩
  | _ => none

def isStart (r : Request) : Bool := r.event?.isSome

/-- A request that decides which sound holds. -/
def isHoldRequest : Request → Bool
  | .startHeldSfx _ => true
  | .stopHeldSfx => true
  | _ => false

/-- The request as the listener understands it. -/
def apply (bank : Bank) (sounds : List Sound) : Request → List Sound
  | .triggerSfx slotIndex =>
      Sounds.startSound (Runtime.soundOf bank ⟨slotIndex, false, 1⟩) sounds
  | .startHeldSfx slotIndex =>
      Sounds.startSound (Runtime.soundOf bank ⟨slotIndex, true, 1⟩) sounds
  | .stopHeldSfx => Sounds.stopHold sounds
  | .stopAllSfx => []

end Request

def events (rs : List Request) : List AudioSfxTriggerEvent :=
  rs.filterMap Request.event?

def applyAll (bank : Bank) (sounds : List Sound) (rs : List Request) :
    List Sound :=
  rs.foldl (Request.apply bank) sounds

@[simp]
theorem applyAll_nil (bank : Bank) (sounds : List Sound) :
    applyAll bank sounds [] = sounds := rfl

theorem applyAll_append (bank : Bank) (sounds : List Sound)
    (rs rs' : List Request) :
    applyAll bank sounds (rs ++ rs') =
      applyAll bank (applyAll bank sounds rs) rs' :=
  List.foldl_append

@[simp]
theorem events_append (rs rs' : List Request) :
    events (rs ++ rs') = events rs ++ events rs' :=
  List.filterMap_append

theorem events_filter_isStart (rs : List Request) :
    events (rs.filter Request.isStart) = events rs := by
  rw [events, events, List.filterMap_filter]
  apply List.filterMap_congr
  intro r _
  cases h : r.event? with
  | none => simp
  | some ev => simp [Request.isStart, h]

/-- Requests without a start leave silence as it is. -/
theorem applyAll_silence {bank : Bank} {rs : List Request}
    (h : ∀ r ∈ rs, r.event? = none) : applyAll bank [] rs = [] := by
  induction rs with
  | nil => rfl
  | cons r rs ih =>
      have hhead : r.apply bank [] = [] := by
        cases r with
        | triggerSfx => simp [Request.event?] at h
        | startHeldSfx => simp [Request.event?] at h
        | stopHeldSfx => rfl
        | stopAllSfx => rfl
      rw [applyAll, List.foldl_cons, hhead]
      exact ih fun r hr => h r (by simp [hr])

/-! ## The condition on a block -/

/-- The requests after the last stop of all sounds. -/
def afterStopAll (rs : List Request) : List Request :=
  rs.reverse.takeWhile fun r => r ≠ .stopAllSfx

/-- The requests of a block without a stop of all sounds, in the order in
which they take effect. -/
def Block.effects (b : Block) : List Request :=
  (b.before ++ b.between).filter (fun r => r = .stopHeldSfx) ++
    (b.requests.filter Request.isStart ++
      b.late.filter fun r => r = .stopHeldSfx)

def lastHoldRequest (rs : List Request) : Option Request :=
  (rs.filter Request.isHoldRequest).getLast?

/-- No counter wraps, and the indices of the queue do not either. -/
structure Room (s : State) (b : Block) : Prop where
  stopAll : s.mailbox.pendingSfxStopAll.toNat +
    b.requests.count .stopAllSfx < 2 ^ 32
  holdStops : s.mailbox.pendingSfxHoldStops.toNat +
    b.requests.count .stopHeldSfx < 2 ^ 32
  queue : s.mailbox.sfxQueueRead.toNat + (events b.requests).length < 2 ^ 32

/-- The requests of a block take effect as they were called; or else no voice
is stolen and the same request decides which sound holds. -/
def InOrder (s : State) (b : Block) : Prop :=
  b.effects = b.requests ∨
    s.rt.playing.length + (events b.requests).length ≤ kMaxSoundboardVoices ∧
      lastHoldRequest b.effects = lastHoldRequest b.requests

def AllOldestFirst (bank : Bank) (rt : Runtime) :
    List AudioSfxTriggerEvent → Prop
  | [] => True
  | ev :: evs =>
      rt.StartsOldestFirst ev ∧ AllOldestFirst bank (rt.startSfx bank ev) evs

/-- A stop of all sounds is still to be seen, or comes with the block. -/
def StopsAll (s : State) (b : Block) : Prop :=
  0 < s.mailbox.pendingSfxStopAll ∨ Request.stopAllSfx ∈ b.requests

/-- The condition on a block.  After a stop of all sounds no sound is started;
without one, requests take effect in call order and voices are stolen by
age. -/
def Careful (bank : Bank) (s : State) (b : Block) : Prop :=
  Room s b ∧
    (StopsAll s b → ∀ r ∈ afterStopAll b.requests, r.event? = none) ∧
    (¬StopsAll s b → InOrder s b ∧
      AllOldestFirst bank
        (s.rt.consumeHoldStops (s.atHoldStops b).pendingSfxHoldStops)
        (events b.requests))

/-- What a control thread may ask for: clips that are loaded, and no more
starts than the queue has room for. -/
def Admissible (bank : Bank) (b : Block) : Prop :=
  (∀ ev ∈ events b.requests, Runtime.Loaded bank ev.slotIndex) ∧
    (events b.requests).length ≤ AUDIO_SFX_QUEUE_CAP

instance (bank : Bank) (b : Block) : Decidable (Admissible bank b) :=
  inferInstanceAs (Decidable (_ ∧ _))

/-! ## What a block finds -/

theorem toNat_add_ofNat {a : UInt32} {n : Nat} (h : a.toNat + n < 2 ^ 32) :
    (a + UInt32.ofNat n).toNat = a.toNat + n := by
  have hn : n % 2 ^ 32 = n := Nat.mod_eq_of_lt (by omega)
  rw [UInt32.toNat_add, UInt32.toNat_ofNat', hn]
  exact Nat.mod_eq_of_lt h

theorem add_ofNat_add (a : UInt32) (m n : Nat) :
    a + UInt32.ofNat m + UInt32.ofNat n = a + UInt32.ofNat (m + n) := by
  rw [UInt32.ofNat_add, UInt32.add_assoc]

namespace Mailbox

/-- What requests do to the mailbox, where the queue has room. -/
def noted (m : Mailbox) (rs : List Request) : Mailbox where
  pendingSfxStopAll :=
    m.pendingSfxStopAll + UInt32.ofNat (rs.count .stopAllSfx)
  pendingSfxHoldStops :=
    m.pendingSfxHoldStops + UInt32.ofNat (rs.count .stopHeldSfx)
  sfxQueue := m.sfxQueue ++ events rs
  sfxQueueRead := m.sfxQueueRead

theorem noted_nil (m : Mailbox) : m.noted [] = m := by
  simp [noted, events]

theorem noted_noted (m : Mailbox) (rs rs' : List Request) :
    (m.noted rs).noted rs' = m.noted (rs ++ rs') := by
  simp only [noted, add_ofNat_add, List.count_append, events_append,
    List.append_assoc]

theorem request_eq {m : Mailbox} {r : Request}
    (hslot : ∀ ev ∈ events [r], ev.slotIndex < AUDIO_SFX_SLOT_COUNT)
    (hroom : m.sfxQueue.length + (events [r]).length ≤ AUDIO_SFX_QUEUE_CAP) :
    m.request r = m.noted [r] := by
  cases r with
  | triggerSfx slotIndex =>
      have hev : slotIndex < AUDIO_SFX_SLOT_COUNT :=
        hslot ⟨slotIndex, false, 1⟩ (by simp [events, Request.event?])
      have hlt : m.sfxQueue.length < AUDIO_SFX_QUEUE_CAP := by
        simpa [events, Request.event?] using hroom
      rw [request, enqueueSfxEvent, if_neg (by omega), if_neg (by omega)]
      simp [noted, events, Request.event?]
  | startHeldSfx slotIndex =>
      have hev : slotIndex < AUDIO_SFX_SLOT_COUNT :=
        hslot ⟨slotIndex, true, 1⟩ (by simp [events, Request.event?])
      have hlt : m.sfxQueue.length < AUDIO_SFX_QUEUE_CAP := by
        simpa [events, Request.event?] using hroom
      rw [request, enqueueSfxEvent, if_neg (by omega), if_neg (by omega)]
      simp [noted, events, Request.event?]
  | stopHeldSfx => simp [request, noted, events, Request.event?]
  | stopAllSfx => simp [request, noted, events, Request.event?]

theorem requests_eq {m : Mailbox} {rs : List Request}
    (hslot : ∀ ev ∈ events rs, ev.slotIndex < AUDIO_SFX_SLOT_COUNT)
    (hroom : m.sfxQueue.length + (events rs).length ≤ AUDIO_SFX_QUEUE_CAP) :
    m.requests rs = m.noted rs := by
  induction rs generalizing m with
  | nil => exact m.noted_nil.symm
  | cons r rs ih =>
      have hcons : events (r :: rs) = events [r] ++ events rs :=
        events_append [r] rs
      rw [hcons] at hslot
      rw [hcons, List.length_append] at hroom
      have hone := request_eq (m := m)
        (fun ev hev => hslot ev (List.mem_append_left _ hev)) (by omega)
      have hlength : (m.noted [r]).sfxQueue.length =
          m.sfxQueue.length + (events [r]).length := List.length_append
      have hrest := ih (m := m.noted [r])
        (fun ev hev => hslot ev (List.mem_append_right _ hev)) (by omega)
      rw [noted_noted] at hrest
      rw [requests, List.foldl_cons, hone]
      exact hrest

/-- The queue is read to its end where the write index has not wrapped. -/
theorem queued_eq {m : Mailbox}
    (h : m.sfxQueueRead.toNat + m.sfxQueue.length < 2 ^ 32) :
    m.queued = m.sfxQueue ∧ m.read.sfxQueue = [] ∧
      m.read.sfxQueueRead.toNat =
        m.sfxQueueRead.toNat + m.sfxQueue.length := by
  have hwrite : m.sfxQueueWrite.toNat =
      m.sfxQueueRead.toNat + m.sfxQueue.length := toNat_add_ofNat h
  by_cases hempty : m.sfxQueue = []
  · have hnot : ¬m.sfxQueueRead < m.sfxQueueWrite := by
      rw [UInt32.lt_iff_toNat_lt, hwrite, hempty]
      simp
    rw [queued, read, if_neg hnot, if_neg hnot]
    simp [hempty]
  · have hpos : 0 < m.sfxQueue.length := List.length_pos_of_ne_nil hempty
    have hlt : m.sfxQueueRead < m.sfxQueueWrite := by
      rw [UInt32.lt_iff_toNat_lt, hwrite]
      omega
    rw [queued, read, if_pos hlt, if_pos hlt]
    exact ⟨rfl, rfl, hwrite⟩

@[simp]
theorem pendingSfxStopAll_read (m : Mailbox) :
    m.read.pendingSfxStopAll = m.pendingSfxStopAll := by
  rw [read]
  split
  · rfl
  · rfl

@[simp]
theorem pendingSfxHoldStops_read (m : Mailbox) :
    m.read.pendingSfxHoldStops = m.pendingSfxHoldStops := by
  rw [read]
  split
  · rfl
  · rfl

end Mailbox

/-! ## Requests without a stop of all sounds -/

theorem applyAll_stops (bank : Bank) (sounds : List Sound)
    (rs : List Request) :
    applyAll bank sounds (rs.filter fun r => r = .stopHeldSfx) =
      if 0 < rs.count .stopHeldSfx then Sounds.stopHold sounds
      else sounds := by
  have hreplicate : ∀ n, applyAll bank sounds
      (List.replicate n .stopHeldSfx) =
        if 0 < n then Sounds.stopHold sounds else sounds := by
    intro n
    induction n with
    | zero => rfl
    | succ n ih =>
        rw [List.replicate_succ', applyAll_append, ih, if_pos n.succ_pos]
        show Sounds.stopHold _ = Sounds.stopHold sounds
        split
        · exact Sounds.stopHold_stopHold sounds
        · rfl
  rw [← hreplicate, ← List.filter_eq]

theorem applyAll_starts (bank : Bank) (sounds : List Sound)
    (rs : List Request) :
    applyAll bank sounds (rs.filter Request.isStart) =
      (events rs).foldl (fun sounds ev =>
        Sounds.startSound (Runtime.soundOf bank ev) sounds) sounds := by
  induction rs generalizing sounds with
  | nil => rfl
  | cons r rs ih =>
      cases r with
      | triggerSfx slotIndex => exact ih _
      | startHeldSfx slotIndex => exact ih _
      | stopHeldSfx => exact ih _
      | stopAllSfx => exact ih _

theorem length_startSound_le (sound : Sound) (sounds : List Sound) :
    (Sounds.startSound sound sounds).length ≤ sounds.length + 1 := by
  have hroom : ∀ (forHold : Bool) (l : List Sound),
      (Sounds.makeRoom forHold l).length ≤ l.length := by
    intro forHold l
    rw [Sounds.makeRoom]
    split
    · exact le_rfl
    · exact List.length_eraseP_le
  rw [Sounds.startSound, List.length_append, List.length_singleton]
  split
  · exact Nat.succ_le_succ
      ((hroom _ _).trans (Sounds.length_stopHold_le sounds))
  · exact Nat.succ_le_succ (hroom _ _)

theorem length_applyAll_le (bank : Bank) (sounds : List Sound)
    (rs : List Request) :
    (applyAll bank sounds rs).length ≤
      sounds.length + (events rs).length := by
  induction rs using List.reverseRecOn with
  | nil => simp
  | append_singleton rs r ih =>
      rw [applyAll_append, events_append, List.length_append]
      cases r with
      | triggerSfx slotIndex =>
          have hone := length_startSound_le
            (Runtime.soundOf bank ⟨slotIndex, false, 1⟩)
            (applyAll bank sounds rs)
          exact hone.trans (Nat.succ_le_succ ih)
      | startHeldSfx slotIndex =>
          have hone := length_startSound_le
            (Runtime.soundOf bank ⟨slotIndex, true, 1⟩)
            (applyAll bank sounds rs)
          exact hone.trans (Nat.succ_le_succ ih)
      | stopHeldSfx => exact (Sounds.length_stopHold_le _).trans ih
      | stopAllSfx => exact Nat.zero_le _

theorem lastHoldRequest_append (rs : List Request) (r : Request) :
    lastHoldRequest (rs ++ [r]) =
      if r.isHoldRequest then some r else lastHoldRequest rs := by
  rw [lastHoldRequest, List.filter_append]
  by_cases h : r.isHoldRequest
  · rw [List.filter_cons_of_pos h, List.filter_nil, if_pos h,
      List.getLast?_concat]
  · rw [List.filter_cons_of_neg h, List.filter_nil, if_neg h,
      List.append_nil, lastHoldRequest]

theorem startSound_free {sound : Sound} {sounds : List Sound}
    (hfree : sound.hold = false) (h : sounds.length < kMaxSoundboardVoices) :
    Sounds.startSound sound sounds = sounds ++ [sound] := by
  rw [Sounds.startSound, if_neg (by rw [hfree]; simp), Sounds.makeRoom_of_lt h]

theorem startSound_held {sound : Sound} {sounds : List Sound}
    (hheld : sound.hold = true) (h : sounds.length < kMaxSoundboardVoices) :
    Sounds.startSound sound sounds = Sounds.stopHold sounds ++ [sound] := by
  rw [Sounds.startSound, if_pos hheld, Sounds.makeRoom_of_lt
    ((Sounds.length_stopHold_le sounds).trans_lt h)]

/-- Where no voice is stolen, all that stops of held sounds do is to decide
whether one holds at the end. -/
theorem applyAll_eq_starts {bank : Bank} {sounds : List Sound}
    {rs : List Request}
    (hroom : sounds.length + (events rs).length ≤ kMaxSoundboardVoices)
    (hno : Request.stopAllSfx ∉ rs) :
    applyAll bank sounds rs =
      if lastHoldRequest rs = some .stopHeldSfx then
        Sounds.stopHold (applyAll bank sounds (rs.filter Request.isStart))
      else applyAll bank sounds (rs.filter Request.isStart) := by
  induction rs using List.reverseRecOn with
  | nil => rfl
  | append_singleton rs r ih =>
      rw [events_append, List.length_append] at hroom
      rw [List.mem_append, not_or] at hno
      have hbefore := length_applyAll_le bank sounds rs
      have hstarts := length_applyAll_le bank sounds (rs.filter Request.isStart)
      rw [events_filter_isStart] at hstarts
      have ih := ih (by omega) hno.1
      rw [List.filter_append, applyAll_append, applyAll_append]
      cases r with
      | triggerSfx slotIndex =>
          have hone : (events [Request.triggerSfx slotIndex]).length = 1 := rfl
          have hlast : lastHoldRequest (rs ++ [.triggerSfx slotIndex]) =
              lastHoldRequest rs := by
            rw [lastHoldRequest_append]
            rfl
          have happly : ∀ l : List Sound, l.length < kMaxSoundboardVoices →
              applyAll bank l [.triggerSfx slotIndex] =
                l ++ [Runtime.soundOf bank ⟨slotIndex, false, 1⟩] :=
            fun l hl => startSound_free rfl hl
          have hfilter : [Request.triggerSfx slotIndex].filter
              Request.isStart = [.triggerSfx slotIndex] := rfl
          rw [hlast, hfilter, happly _ (by omega), happly _ (by omega), ih]
          by_cases h : lastHoldRequest rs = some .stopHeldSfx
          · rw [if_pos h, if_pos h, Sounds.stopHold, Sounds.stopHold,
              List.filter_append]
            rfl
          · rw [if_neg h, if_neg h]
      | startHeldSfx slotIndex =>
          have hone : (events [Request.startHeldSfx slotIndex]).length = 1 := rfl
          have hlast : lastHoldRequest (rs ++ [.startHeldSfx slotIndex]) =
              some (.startHeldSfx slotIndex) := by
            rw [lastHoldRequest_append]
            rfl
          have happly : ∀ l : List Sound, l.length < kMaxSoundboardVoices →
              applyAll bank l [.startHeldSfx slotIndex] = Sounds.stopHold l ++
                [Runtime.soundOf bank ⟨slotIndex, true, 1⟩] :=
            fun l hl => startSound_held rfl hl
          have hfilter : [Request.startHeldSfx slotIndex].filter
              Request.isStart = [.startHeldSfx slotIndex] := rfl
          rw [hlast, if_neg (by simp), hfilter, happly _ (by omega),
            happly _ (by omega), ih]
          by_cases h : lastHoldRequest rs = some .stopHeldSfx
          · rw [if_pos h, Sounds.stopHold_stopHold]
          · rw [if_neg h]
      | stopHeldSfx =>
          have hlast : lastHoldRequest (rs ++ [.stopHeldSfx]) =
              some .stopHeldSfx := by
            rw [lastHoldRequest_append]
            rfl
          have happly : ∀ l : List Sound,
              applyAll bank l [.stopHeldSfx] = Sounds.stopHold l :=
            fun _ => rfl
          have hfilter : [Request.stopHeldSfx].filter Request.isStart = [] := rfl
          rw [hlast, if_pos rfl, hfilter, happly, applyAll_nil, ih]
          by_cases h : lastHoldRequest rs = some .stopHeldSfx
          · rw [if_pos h, Sounds.stopHold_stopHold]
          · rw [if_neg h]
      | stopAllSfx => simp at hno

/-- The starts of a block and its stops of held sounds have the effect that
they have in call order. -/
theorem applyAll_effects {bank : Bank} {s : State} {b : Block}
    {sounds : List Sound} (hle : sounds.length ≤ s.rt.playing.length)
    (horder : InOrder s b) (hno : Request.stopAllSfx ∉ b.requests) :
    applyAll bank sounds b.effects = applyAll bank sounds b.requests := by
  rcases horder with heq | ⟨hroom, hlast⟩
  · rw [heq]
  · have hstarts : b.effects.filter Request.isStart =
        b.requests.filter Request.isStart := by
      have hstops : ∀ l : List Request,
          (l.filter fun r => r = .stopHeldSfx).filter Request.isStart = [] := by
        intro l
        rw [List.filter_filter, List.filter_eq_nil_iff]
        intro r _
        cases r <;> simp [Request.isStart, Request.event?]
      simp only [Block.effects, List.filter_append, hstops, List.nil_append,
        List.append_nil]
      simp
    have hevents : events b.effects = events b.requests := by
      rw [← events_filter_isStart b.effects, hstarts, events_filter_isStart]
    have hno' : Request.stopAllSfx ∉ b.effects := by
      simp [Block.effects, Request.isStart, Request.event?]
    rw [applyAll_eq_starts (by rw [hevents]; omega) hno',
      applyAll_eq_starts (by omega) hno, hlast, hstarts]

/-- Nothing plays after a stop of all sounds that no start follows. -/
theorem applyAll_stopAll {bank : Bank} {sounds : List Sound}
    {rs : List Request} (hstop : sounds = [] ∨ Request.stopAllSfx ∈ rs)
    (hafter : ∀ r ∈ afterStopAll rs, r.event? = none) :
    applyAll bank sounds rs = [] := by
  induction rs using List.reverseRecOn with
  | nil => simpa using hstop
  | append_singleton rs r ih =>
      rw [applyAll_append]
      by_cases hr : r = .stopAllSfx
      · rw [hr]
        rfl
      · have hcons : afterStopAll (rs ++ [r]) = r :: afterStopAll rs := by
          simp [afterStopAll, hr]
        rw [hcons] at hafter
        have hstop' : sounds = [] ∨ Request.stopAllSfx ∈ rs := by
          simpa [Ne.symm hr] using hstop
        rw [ih hstop' fun r hr => hafter r (by simp [hr])]
        refine applyAll_silence fun r' hr' => ?_
        rw [List.mem_singleton.mp hr']
        exact hafter r (by simp)

/-! ## One block -/

/-- What plays once the stops that are still to be seen have been. -/
def settled (s : State) : List Sound :=
  if 0 < s.mailbox.pendingSfxStopAll then []
  else if 0 < s.mailbox.pendingSfxHoldStops then
    Sounds.stopHold s.rt.playing
  else s.rt.playing

theorem settled_of_silence {s : State} (h : s.rt.playing = []) :
    settled s = [] := by
  rw [settled, h]
  split
  · rfl
  · split
    · rfl
    · rfl

theorem settled_of_caughtUp {s : State} (h : s.CaughtUp) :
    settled s = s.rt.playing := by
  rw [settled, h.1, h.2.1]
  rfl

/-- Between two blocks the queue is empty. -/
structure AtRest (s : State) : Prop where
  voices : s.rt.Inv
  queue : s.mailbox.sfxQueue = []

namespace Runtime

variable {rt : Runtime}

theorem consumeHoldStops_spec (hinv : rt.Inv) (holdStops : UInt32) :
    (rt.consumeHoldStops holdStops).Inv ∧
      (rt.consumeHoldStops holdStops).playing =
        if 0 < holdStops then Sounds.stopHold rt.playing else rt.playing := by
  rw [consumeHoldStops]
  split
  · have hsame : { rt.stopHoldVoice with holdVoiceIndex := none } =
        rt.stopHoldVoice := by
      rw [← holdVoiceIndex_stopHoldVoice hinv]
    rw [hsame]
    exact ⟨inv_stopHoldVoice hinv, playing_stopHoldVoice hinv⟩
  · exact ⟨hinv, rfl⟩

theorem inv_foldl_startSfx (hinv : rt.Inv) (bank : Bank)
    (evs : List AudioSfxTriggerEvent) : (evs.foldl (startSfx bank) rt).Inv := by
  induction evs generalizing rt with
  | nil => exact hinv
  | cons ev evs ih => exact ih (inv_startSfx hinv bank ev)

theorem playing_foldl_startSfx {bank : Bank}
    {evs : List AudioSfxTriggerEvent} (hinv : rt.Inv)
    (hload : ∀ ev ∈ evs, Loaded bank ev.slotIndex)
    (hold : AllOldestFirst bank rt evs) :
    (evs.foldl (startSfx bank) rt).playing =
      evs.foldl (fun sounds ev => Sounds.startSound (soundOf bank ev) sounds)
        rt.playing := by
  induction evs generalizing rt with
  | nil => rfl
  | cons ev evs ih =>
      have hhead := playing_startSfx hinv (hload ev (by simp)) hold.1
      rw [List.foldl_cons, List.foldl_cons, ← hhead]
      exact ih (inv_startSfx hinv bank ev)
        (fun ev hev => hload ev (by simp [hev])) hold.2

end Runtime

section Block

variable {bank : Bank} {s : State} {b : Block}

theorem events_requests (b : Block) : events b.requests =
    events b.before ++ events b.between ++ events b.late := by
  rw [Block.requests, events_append, events_append]

theorem Admissible.slot (hadm : Admissible bank b) :
    ∀ ev ∈ events b.requests, ev.slotIndex < AUDIO_SFX_SLOT_COUNT :=
  fun ev hev => (hadm.1 ev hev).1

theorem atStopAll_eq (hadm : Admissible bank b) (hrest : AtRest s) :
    s.atStopAll b = s.mailbox.noted b.before := by
  have hslot := hadm.slot
  have hroom := hadm.2
  rw [events_requests] at hslot hroom
  refine Mailbox.requests_eq (fun ev hev => hslot ev (by simp [hev])) ?_
  rw [hrest.queue]
  simp only [List.length_append, List.length_nil] at hroom ⊢
  omega

theorem atHoldStops_eq (hadm : Admissible bank b) (hrest : AtRest s) :
    s.atHoldStops b =
      { s.mailbox.noted (b.before ++ b.between) with
        pendingSfxStopAll := UInt32.ofNat (b.between.count .stopAllSfx) } := by
  have hslot := hadm.slot
  have hroom := hadm.2
  rw [events_requests] at hslot hroom
  rw [State.atHoldStops, atStopAll_eq hadm hrest, Mailbox.requests_eq
    (fun ev hev => hslot ev (by simp [hev]))]
  · rw [← Mailbox.noted_noted]
    simp [Mailbox.noted]
  · rw [Mailbox.noted, hrest.queue]
    simp only [List.length_append, List.nil_append] at hroom ⊢
    omega

theorem atQueue_eq (hadm : Admissible bank b) (hrest : AtRest s) :
    s.atQueue b =
      { pendingSfxStopAll :=
          UInt32.ofNat ((b.between ++ b.late).count .stopAllSfx)
        pendingSfxHoldStops := UInt32.ofNat (b.late.count .stopHeldSfx)
        sfxQueue := events b.requests
        sfxQueueRead := s.mailbox.sfxQueueRead } := by
  have hslot := hadm.slot
  have hroom := hadm.2
  rw [events_requests] at hslot hroom
  rw [State.atQueue, atHoldStops_eq hadm hrest, Mailbox.requests_eq
    (fun ev hev => hslot ev (by simp [hev]))]
  · simp [Mailbox.noted, hrest.queue, events_requests]
  · rw [Mailbox.noted, hrest.queue, events_append]
    simp only [List.length_append, List.nil_append] at hroom ⊢
    omega

theorem pos_add_ofNat_iff {a : UInt32} {n : Nat}
    (h : a.toNat + n < 2 ^ 32) : 0 < a + UInt32.ofNat n ↔ 0 < a ∨ 0 < n := by
  rw [UInt32.lt_iff_toNat_lt, UInt32.lt_iff_toNat_lt, toNat_add_ofNat h,
    UInt32.toNat_zero]
  omega

theorem pos_ofNat_iff {n : Nat} (h : n < 2 ^ 32) :
    0 < UInt32.ofNat n ↔ 0 < n := by
  rw [UInt32.lt_iff_toNat_lt, UInt32.toNat_ofNat', Nat.mod_eq_of_lt h,
    UInt32.toNat_zero]

theorem inv_consume (hinv : s.rt.Inv) (stopAll holdStops : UInt32)
    (evs : List AudioSfxTriggerEvent) :
    (s.rt.consumeSoundboardTriggers bank stopAll holdStops evs).Inv := by
  rw [Runtime.consumeSoundboardTriggers]
  split
  · exact (Runtime.stopAllVoices_spec hinv).1
  · exact Runtime.inv_foldl_startSfx
      (Runtime.consumeHoldStops_spec hinv holdStops).1 bank evs

theorem playing_nextBlock (rt : Runtime) (n : Nat) :
    { rt with blocksProcessed := n }.playing = rt.playing := rfl

theorem playing_processGraphBlock (bank : Bank) (s : State) (b : Block) :
    (s.processGraphBlock bank b).rt.playing =
      (s.rt.consumeSoundboardTriggers bank
        (s.atStopAll b).pendingSfxStopAll
        (s.atHoldStops b).pendingSfxHoldStops
        (s.atQueue b).queued).playing :=
  playing_nextBlock _ _

/-- After a block the queue is empty, and its read index has passed the
events of the block. -/
theorem atRest_processGraphBlock (hadm : Admissible bank b)
    (hroom : Room s b) (hrest : AtRest s) :
    AtRest (s.processGraphBlock bank b) ∧
      (s.processGraphBlock bank b).mailbox.sfxQueueRead.toNat =
        s.mailbox.sfxQueueRead.toNat + (events b.requests).length := by
  have hqueue := atQueue_eq hadm hrest
  have hread := Mailbox.queued_eq (m := s.atQueue b)
    (by rw [hqueue]; exact hroom.queue)
  have hinv : (s.rt.consumeSoundboardTriggers bank
      (s.atStopAll b).pendingSfxStopAll (s.atHoldStops b).pendingSfxHoldStops
      (s.atQueue b).queued).Inv := inv_consume hrest.voices _ _ _
  refine ⟨⟨⟨hinv.nodup, hinv.active, hinv.hold⟩, hread.2.1⟩, ?_⟩
  rw [State.processGraphBlock, hread.2.2, hqueue]

/-- With a stop of all sounds nothing plays in the end, neither here nor where
every request has its own block. -/
theorem settled_of_stopsAll (hadm : Admissible bank b) (hroom : Room s b)
    (hrest : AtRest s) (hstops : StopsAll s b)
    (hafter : ∀ r ∈ afterStopAll b.requests, r.event? = none) :
    settled (s.processGraphBlock bank b) =
      applyAll bank (settled s) b.requests := by
  have hcount : b.requests.count .stopAllSfx =
      b.before.count .stopAllSfx +
        (b.between ++ b.late).count .stopAllSfx := by
    simp only [Block.requests, List.count_append, Nat.add_assoc]
  have hbound := hroom.stopAll
  have halone : applyAll bank (settled s) b.requests = [] := by
    refine applyAll_stopAll ?_ hafter
    rcases hstops with hpending | hmem
    · exact .inl (by rw [settled, if_pos hpending])
    · exact .inr hmem
  rw [halone]
  by_cases hseen : 0 < (s.atStopAll b).pendingSfxStopAll
  · apply settled_of_silence
    have hsilent := (Runtime.stopAllVoices_spec hrest.voices).2
    rw [playing_processGraphBlock, Runtime.consumeSoundboardTriggers,
      if_pos hseen, hsilent]
  · rw [atStopAll_eq hadm hrest, Mailbox.noted, pos_add_ofNat_iff (by omega),
      not_or] at hseen
    have hmem : Request.stopAllSfx ∈ b.requests :=
      hstops.resolve_left hseen.1
    have hleft := List.count_pos_iff.mpr hmem
    rw [settled, if_pos]
    rw [State.processGraphBlock, Mailbox.pendingSfxStopAll_read,
      atQueue_eq hadm hrest, pos_ofNat_iff (by omega)]
    omega

/-- Without a stop of all sounds the requests of a block take effect, in the
order of `effects`. -/
theorem settled_eq_effects (hadm : Admissible bank b) (hroom : Room s b)
    (hrest : AtRest s) (hno : ¬StopsAll s b)
    (hold : AllOldestFirst bank
      (s.rt.consumeHoldStops (s.atHoldStops b).pendingSfxHoldStops)
      (events b.requests)) :
    settled (s.processGraphBlock bank b) =
      applyAll bank (settled s) b.effects := by
  rw [StopsAll, not_or] at hno
  obtain ⟨hpending, hmem⟩ := hno
  have hnone : ∀ l : List Request, l ⊆ b.requests →
      l.count .stopAllSfx = 0 :=
    fun l hl => List.count_eq_zero.mpr fun h => hmem (hl h)
  have hholds : b.requests.count .stopHeldSfx =
      (b.before ++ b.between).count .stopHeldSfx +
        b.late.count .stopHeldSfx := by
    rw [Block.requests, List.count_append]
  have hbound := hroom.holdStops
  -- the counters that the block reads
  have hstopAll : ¬0 < (s.atStopAll b).pendingSfxStopAll := by
    have hbefore := hnone b.before (by intro r hr; simp [Block.requests, hr])
    rw [atStopAll_eq hadm hrest, Mailbox.noted, hbefore]
    simpa using hpending
  have hseen : 0 < (s.atHoldStops b).pendingSfxHoldStops ↔
      0 < s.mailbox.pendingSfxHoldStops ∨
        0 < (b.before ++ b.between).count .stopHeldSfx := by
    rw [atHoldStops_eq hadm hrest]
    exact pos_add_ofNat_iff (by omega)
  have hqueued : (s.atQueue b).queued = events b.requests := by
    have hread := Mailbox.queued_eq (m := s.atQueue b)
      (by rw [atQueue_eq hadm hrest]; exact hroom.queue)
    rw [hread.1, atQueue_eq hadm hrest]
  -- the counters that it leaves
  have hleftAll : ¬0 <
      (s.processGraphBlock bank b).mailbox.pendingSfxStopAll := by
    have hlate := hnone (b.between ++ b.late)
      (by intro r hr; simp [Block.requests, List.mem_append.mp hr])
    rw [State.processGraphBlock, Mailbox.pendingSfxStopAll_read,
      atQueue_eq hadm hrest, hlate]
    simp
  have hleft : 0 < (s.processGraphBlock bank b).mailbox.pendingSfxHoldStops ↔
      0 < b.late.count .stopHeldSfx := by
    rw [State.processGraphBlock, Mailbox.pendingSfxHoldStops_read,
      atQueue_eq hadm hrest]
    exact pos_ofNat_iff (by omega)
  obtain ⟨hinv, hstopped⟩ := Runtime.consumeHoldStops_spec hrest.voices
    (s.atHoldStops b).pendingSfxHoldStops
  have hplaying : (s.processGraphBlock bank b).rt.playing =
      applyAll bank (applyAll bank (settled s)
        ((b.before ++ b.between).filter fun r => r = .stopHeldSfx))
        (b.requests.filter Request.isStart) := by
    rw [playing_processGraphBlock, Runtime.consumeSoundboardTriggers,
      if_neg hstopAll, hqueued,
      Runtime.playing_foldl_startSfx hinv hadm.1 hold, applyAll_starts,
      hstopped, applyAll_stops, settled, if_neg hpending]
    congr 1
    by_cases hold : 0 < s.mailbox.pendingSfxHoldStops
    · rw [if_pos (hseen.mpr (.inl hold)), if_pos hold,
        Sounds.stopHold_stopHold, ite_self]
    · rw [if_neg hold]
      by_cases hnew : 0 < (b.before ++ b.between).count .stopHeldSfx
      · rw [if_pos (hseen.mpr (.inr hnew)), if_pos hnew]
      · rw [if_neg (by rw [hseen]; exact not_or.mpr ⟨hold, hnew⟩), if_neg hnew]
  rw [settled, if_neg hleftAll, Block.effects, applyAll_append,
    applyAll_append, ← hplaying, applyAll_stops]
  by_cases hlate : 0 < b.late.count .stopHeldSfx
  · rw [if_pos (hleft.mpr hlate), if_pos hlate]
  · rw [if_neg (by rw [hleft]; exact hlate), if_neg hlate]

theorem length_settled_le (s : State) :
    (settled s).length ≤ s.rt.playing.length := by
  rw [settled]
  split
  · exact Nat.zero_le _
  · split
    · exact Sounds.length_stopHold_le _
    · exact le_rfl

/-- A careful block has the effect of its requests in call order. -/
theorem settled_processGraphBlock (hadm : Admissible bank b)
    (hcare : Careful bank s b) (hrest : AtRest s) :
    settled (s.processGraphBlock bank b) =
      applyAll bank (settled s) b.requests := by
  obtain ⟨hroom, hafter, horder⟩ := hcare
  by_cases hstops : StopsAll s b
  · exact settled_of_stopsAll hadm hroom hrest hstops (hafter hstops)
  · obtain ⟨hin, hold⟩ := horder hstops
    rw [settled_eq_effects hadm hroom hrest hstops hold]
    exact applyAll_effects (length_settled_le s) hin
      fun hmem => hstops (.inr hmem)

end Block

/-! ## A block for every request -/

def single (r : Request) : Block := ⟨[r], [], []⟩

/-- Where every request has had its own block. -/
structure Quiet (s : State) : Prop where
  rest : AtRest s
  caught : s.CaughtUp
  aged : s.rt.Aged s.rt.blocksProcessed

section Single

variable {bank : Bank} {s : State}

theorem aged_consumeHoldStops (hquiet : Quiet s) (holdStops : UInt32) :
    (s.rt.consumeHoldStops holdStops).Aged s.rt.blocksProcessed := by
  rw [Runtime.consumeHoldStops]
  split
  · have haged := Runtime.aged_stopHoldVoice hquiet.rest.voices hquiet.aged
    exact ⟨haged.sorted, haged.past⟩
  · exact hquiet.aged

theorem blocksProcessed_consumeHoldStops (rt : Runtime) (holdStops : UInt32) :
    (rt.consumeHoldStops holdStops).blocksProcessed = rt.blocksProcessed := by
  rw [Runtime.consumeHoldStops]
  split
  · exact Runtime.blocksProcessed_stopHoldVoice rt
  · rfl

theorem length_events_singleton_le (r : Request) : (events [r]).length ≤ 1 :=
  List.length_filterMap_le _ _

theorem careful_single (hquiet : Quiet s) (r : Request)
    (hroom : s.mailbox.sfxQueueRead.toNat + (events [r]).length < 2 ^ 32) :
    Careful bank s (single r) := by
  have hcount : ∀ r', [r].count r' ≤ 1 := fun r' => List.count_le_length
  refine ⟨⟨?_, ?_, hroom⟩, ?_, ?_⟩
  · have hone : (single r).requests.count .stopAllSfx ≤ 1 := hcount _
    rw [hquiet.caught.1, UInt32.toNat_zero]
    omega
  · have hone : (single r).requests.count .stopHeldSfx ≤ 1 := hcount _
    rw [hquiet.caught.2.1, UInt32.toNat_zero]
    omega
  · intro hstops
    have hr : r = .stopAllSfx := by
      rcases hstops with hpending | hmem
      · rw [hquiet.caught.1] at hpending
        exact absurd hpending (by decide)
      · exact (List.mem_singleton.mp hmem).symm
    rw [hr]
    exact fun r' hr' => absurd hr' List.not_mem_nil
  · intro hno
    constructor
    · left
      cases r with
      | triggerSfx slotIndex => rfl
      | startHeldSfx slotIndex => rfl
      | stopHeldSfx => rfl
      | stopAllSfx => exact absurd (.inr (List.mem_singleton.mpr rfl)) hno
    · have hinv := (Runtime.consumeHoldStops_spec hquiet.rest.voices
        (s.atHoldStops (single r)).pendingSfxHoldStops).1
      have haged := aged_consumeHoldStops hquiet
        (s.atHoldStops (single r)).pendingSfxHoldStops
      cases r with
      | triggerSfx slotIndex =>
          exact ⟨Runtime.oldestFirst_of_aged hinv haged false, trivial⟩
      | startHeldSfx slotIndex =>
          exact ⟨Runtime.oldestFirst_of_aged (Runtime.inv_stopHoldVoice hinv)
            (Runtime.aged_stopHoldVoice hinv haged) true, trivial⟩
      | stopHeldSfx => trivial
      | stopAllSfx => trivial

theorem aged_consume (hquiet : Quiet s) (stopAll holdStops : UInt32)
    {evs : List AudioSfxTriggerEvent} (hevs : evs.length ≤ 1) :
    (s.rt.consumeSoundboardTriggers bank stopAll holdStops evs).Aged
      (s.rt.blocksProcessed + 1) := by
  rw [Runtime.consumeSoundboardTriggers]
  split
  · have haged := Runtime.aged_foldl_stopVoice
      (List.finRange kMaxSoundboardVoices) hquiet.rest.voices hquiet.aged
    rw [Runtime.stopAllVoices]
    generalize (List.finRange kMaxSoundboardVoices).foldl Runtime.stopVoice
      s.rt = stopped at haged
    exact Runtime.Aged.next ⟨haged.sorted, haged.past⟩
  · have hinv := (Runtime.consumeHoldStops_spec hquiet.rest.voices holdStops).1
    have haged := aged_consumeHoldStops hquiet holdStops
    cases evs with
    | nil => exact haged.next
    | cons ev rest =>
        obtain rfl : rest = [] := by simpa using hevs
        rw [← blocksProcessed_consumeHoldStops s.rt holdStops] at haged ⊢
        exact Runtime.aged_startSfx hinv haged bank ev

theorem quiet_single (hquiet : Quiet s) {r : Request}
    (hadm : Admissible bank (single r))
    (hroom : s.mailbox.sfxQueueRead.toNat + (events [r]).length < 2 ^ 32) :
    Quiet (s.processGraphBlock bank (single r)) := by
  have hcare : Careful bank s (single r) := careful_single hquiet r hroom
  have hrest := (atRest_processGraphBlock hadm hcare.1 hquiet.rest).1
  have hqueue := atQueue_eq hadm hquiet.rest
  refine ⟨hrest, ⟨?_, ?_, hrest.queue⟩, ?_⟩
  · rw [State.processGraphBlock, Mailbox.pendingSfxStopAll_read, hqueue]
    rfl
  · rw [State.processGraphBlock, Mailbox.pendingSfxHoldStops_read, hqueue]
    rfl
  · have hqueued := (Mailbox.queued_eq (m := s.atQueue (single r))
      (by rw [hqueue]; exact hcare.1.queue)).1
    have hshort : (s.atQueue (single r)).queued.length ≤ 1 := by
      rw [hqueued, hqueue]
      exact length_events_singleton_le r
    have haged : (s.rt.consumeSoundboardTriggers bank
        (s.atStopAll (single r)).pendingSfxStopAll
        (s.atHoldStops (single r)).pendingSfxHoldStops
        (s.atQueue (single r)).queued).Aged (s.rt.blocksProcessed + 1) :=
      aged_consume hquiet _ _ hshort
    exact ⟨haged.sorted, haged.past⟩

theorem alone_spec {rs : List Request} (hquiet : Quiet s)
    (hload : ∀ ev ∈ events rs, Runtime.Loaded bank ev.slotIndex)
    (hroom : s.mailbox.sfxQueueRead.toNat + (events rs).length < 2 ^ 32) :
    (s.alone bank rs).CaughtUp ∧
      (s.alone bank rs).rt.playing = applyAll bank s.rt.playing rs := by
  induction rs generalizing s with
  | nil => exact ⟨hquiet.caught, rfl⟩
  | cons r rs ih =>
      have hcons : events (r :: rs) = events [r] ++ events rs :=
        events_append [r] rs
      rw [hcons] at hload
      rw [hcons, List.length_append] at hroom
      have hone := length_events_singleton_le r
      have hadm : Admissible bank (single r) :=
        ⟨fun ev hev => hload ev (List.mem_append_left _ hev),
          hone.trans (by decide)⟩
      have hroom' : s.mailbox.sfxQueueRead.toNat + (events [r]).length <
          2 ^ 32 := by omega
      have hcare : Careful bank s (single r) :=
        careful_single hquiet r hroom'
      have hnext := quiet_single hquiet hadm hroom'
      have hread := (atRest_processGraphBlock hadm hcare.1 hquiet.rest).2
      have heffect := settled_processGraphBlock hadm hcare hquiet.rest
      rw [settled_of_caughtUp hnext.caught,
        settled_of_caughtUp hquiet.caught] at heffect
      have hrequests : (single r).requests = [r] := rfl
      rw [hrequests] at hread heffect
      obtain ⟨hcaught, hplaying⟩ := ih hnext
        (fun ev hev => hload ev (List.mem_append_right _ hev)) (by omega)
      refine ⟨hcaught, hplaying.trans ?_⟩
      rw [heffect]
      rfl

end Single

/-! ## Whole runs -/

/-- The blocks of the audio thread, where each meets the condition. -/
def CarefulRun (bank : Bank) : List Block → State → Prop :=
  Run (Guarded (Careful bank) fun s b => some (s.processGraphBlock bank b))
    start

theorem atRest_start : AtRest start where
  voices := Runtime.inv_silent
  queue := rfl

theorem quiet_start : Quiet start where
  rest := atRest_start
  caught := ⟨rfl, rfl, rfl⟩
  aged := ⟨List.Pairwise.nil, fun _ h => absurd h List.not_mem_nil⟩

/-- What a run of blocks has seen so far. -/
structure Seen (bank : Bank) (rs : List Request) (s : State) : Prop where
  rest : AtRest s
  read : s.mailbox.sfxQueueRead.toNat = (events rs).length
  effect : settled s = applyAll bank [] rs

theorem seen_block {bank : Bank} {rs : List Request} {s : State} {b : Block}
    (hseen : Seen bank rs s) (hadm : Admissible bank b)
    (hcare : Careful bank s b) :
    Seen bank (rs ++ b.requests) (s.processGraphBlock bank b) := by
  obtain ⟨hrest, hread⟩ := atRest_processGraphBlock hadm hcare.1 hseen.rest
  refine ⟨hrest, ?_, ?_⟩
  · rw [hread, hseen.read, events_append, List.length_append]
  · rw [settled_processGraphBlock hadm hcare hseen.rest, hseen.effect,
      applyAll_append]

theorem seen_run {bank : Bank} {bs : List Block} {s s' : State}
    {rs : List Request}
    (h : Run (Guarded (Careful bank)
      fun s b => some (s.processGraphBlock bank b)) s bs s')
    (hadm : ∀ b ∈ bs, Admissible bank b) (hseen : Seen bank rs s) :
    Seen bank (rs ++ bs.flatMap Block.requests) s' := by
  induction h generalizing rs with
  | nil s => simpa using hseen
  | cons hstep _ ih =>
      obtain ⟨hcare, hnext⟩ := hstep
      obtain rfl := Option.some.inj hnext
      have hblock := seen_block hseen (hadm _ (by simp)) hcare
      have hrest := ih (fun b hb => hadm b (by simp [hb])) hblock
      rw [List.append_assoc] at hrest
      exact hrest

/-- Requests that are spread over careful blocks have the effect that they
have when every one is processed right after it is made. -/
theorem requests_take_effect_in_order {bank : Bank} {bs : List Block}
    {s : State} (hadm : ∀ b ∈ bs, Admissible bank b)
    (h : CarefulRun bank bs s) (hcaught : s.CaughtUp) :
    (start.alone bank (bs.flatMap Block.requests)).CaughtUp ∧
      s.rt.playing =
        (start.alone bank (bs.flatMap Block.requests)).rt.playing := by
  have hstart : Seen bank [] start := ⟨atRest_start, rfl, rfl⟩
  have hseen : Seen bank (bs.flatMap Block.requests) s :=
    seen_run h hadm hstart
  have hread := hseen.read
  have hload : ∀ ev ∈ events (bs.flatMap Block.requests),
      Runtime.Loaded bank ev.slotIndex := by
    intro ev hev
    obtain ⟨r, hr, hev⟩ := List.mem_filterMap.mp hev
    obtain ⟨b, hb, hr⟩ := List.mem_flatMap.mp hr
    exact (hadm b hb).1 ev (List.mem_filterMap.mpr ⟨r, hr, hev⟩)
  have hbound := s.mailbox.sfxQueueRead.toNat_lt
  obtain ⟨hdone, hplaying⟩ := alone_spec quiet_start hload (by
    rw [← hread]
    show 0 + _ < _
    omega)
  refine ⟨hdone, ?_⟩
  rw [hplaying, ← settled_of_caughtUp hcaught]
  exact hseen.effect

/-- A bank where every slot holds a clip. -/
def fullBank : Bank := fun _ => ⟨true, true, 48000, 48000, 1⟩

/-- The stop of an older held sound, and a new one. -/
def stopThenStart : Block := ⟨[.stopHeldSfx, .startHeldSfx 0], [], []⟩

theorem careful_stopThenStart : Careful fullBank start stopThenStart := by
  refine ⟨⟨by decide, by decide, by decide⟩, ?_, ?_⟩
  · exact fun h => absurd h (by
      rintro (hpending | hmem)
      · exact absurd hpending (by decide)
      · exact absurd hmem (by decide))
  · have hinv := (Runtime.consumeHoldStops_spec atRest_start.voices
      (start.atHoldStops stopThenStart).pendingSfxHoldStops).1
    have haged := aged_consumeHoldStops quiet_start
      (start.atHoldStops stopThenStart).pendingSfxHoldStops
    exact fun _ => ⟨.inl rfl, Runtime.oldestFirst_of_aged
      (Runtime.inv_stopHoldVoice hinv)
      (Runtime.aged_stopHoldVoice hinv haged) true, trivial⟩

theorem requests_take_effect_in_order_stopThenStart :
    (start.processGraphBlock fullBank stopThenStart).rt.playing =
      (start.alone fullBank [.stopHeldSfx, .startHeldSfx 0]).rt.playing :=
  (@requests_take_effect_in_order fullBank [stopThenStart] _
    (by decide)
    (.cons ⟨careful_stopThenStart, rfl⟩ (.nil _))
    (by decide)).2

/-- A held sound that is stopped in the block of its start goes on, and a sound
that is started in the block of a stop of all sounds is not heard. -/
theorem requests_out_of_order :
    ¬∀ (bank : Bank) (bs : List Block), (∀ b ∈ bs, Admissible bank b) →
      (bs.foldl (State.processGraphBlock bank) start).CaughtUp →
      (bs.foldl (State.processGraphBlock bank) start).rt.playing =
        (start.alone bank (bs.flatMap Block.requests)).rt.playing := by
  intro h
  have hheld := h fullBank [⟨[.startHeldSfx 0, .stopHeldSfx], [], []⟩]
    (by decide) (by decide)
  exact absurd hheld (by decide)

end Audiox.Soundboard
