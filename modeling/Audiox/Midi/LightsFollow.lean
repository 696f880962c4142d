import Audiox.Midi.Lighting
import Mathlib

/-!
# When the lights follow the state

The lights show what the last refresh wanted, in every run in which the queue
has room for the messages of a refresh, the velocities are velocities of MIDI,
macros leave the notes of the lights alone, and another channel comes with a
refresh of all lights.
-/

namespace Audiox.Midi

open ByteCodec ControllerQueue

/-! ## Runs -/

inductive LightEvent where
  | changed (state : LightState)
  | refreshed
  | refreshedAll
  | midi (midiBytes : Bytes)
  | released
  | polled

def LightContext.step (c : LightContext) : LightEvent → LightContext
  | .changed state => { c with state }
  | .refreshed => c.refreshLightingFromState
  | .refreshedAll => c.refreshAllLighting
  | .midi midiBytes => c.midiAction midiBytes
  | .released => c.releaseMacroMidi
  | .polled => { c with queue := c.queue.flushControllerMidi }

/-- A context, and the channel and the velocities of its last refresh. -/
structure LightRun where
  context : LightContext
  shown : Option (UInt8 × (Nat → UInt8))

def LightRun.shownBy (r : LightRun) :
    LightEvent → Option (UInt8 × (Nat → UInt8))
  | .refreshed => some (r.context.state.channel, r.context.state.target)
  | .refreshedAll => some (r.context.state.channel, r.context.state.target)
  | .changed _ => r.shown
  | .midi _ => r.shown
  | .released => r.shown
  | .polled => r.shown

def LightRun.step (r : LightRun) (e : LightEvent) : LightRun where
  context := r.context.step e
  shown := r.shownBy e

def LightRun.run (r : LightRun) (events : List LightEvent) : LightRun :=
  events.foldl LightRun.step r

/-! ## What the controller was told -/

/-- The channel, the note and the velocity of a note message; a note-off has
velocity 0. -/
def toldVelocity : Bytes → Option (UInt8 × UInt8 × UInt8)
  | [status, note, velocity] =>
      if status &&& 0xf0 = 0x90 then some (status &&& 15, note, velocity)
      else if status &&& 0xf0 = 0x80 then some (status &&& 15, note, 0)
      else none
  | _ => none

/-- The last velocity after one more message. -/
def hear (channel : UInt8) (note : Nat) (last : Option UInt8)
    (message : Bytes) : Option UInt8 :=
  match toldVelocity message with
  | some (c, n, v) => if c = channel ∧ n.toNat = note then some v else last
  | none => last

/-- The velocity of the last message for a note on a channel. -/
def lastVelocity (queued : List Bytes) (channel : UInt8) (note : Nat) :
    Option UInt8 :=
  queued.foldl (hear channel note) none

/-- The controller receives whole messages, and when it has received all of
them, each note was last told what the last refresh wanted. -/
structure LightsFollow (r : LightRun) : Prop where
  whole : r.context.queue.Whole
  lights : r.context.queue.controllerPending = [] →
    ∀ shown, r.shown = some shown → ∀ note < 128,
      lastVelocity r.context.queue.queued shown.1 note = some (shown.2 note)

/-! ## Steps that the lights survive -/

def LightContext.changedNotes (c : LightContext) : List Nat :=
  (List.range 128).filter fun note => c.ledStateByNote note ≠ c.state.target note

/-- The messages of a refresh. -/
def LightContext.lightMessages (c : LightContext) : List Bytes :=
  c.changedNotes.map fun note =>
    lightMessage note c.state.channel (c.state.target note)

/-- The messages of a refresh are queued and say what is wanted. -/
def LightContext.Sendable (c : LightContext) : Prop :=
  (∀ note < 128, c.state.target note ≤ 127) ∧ c.queue.AllFit c.lightMessages

/-- A message says nothing new about a light. -/
def Repeats (shown : UInt8 × (Nat → UInt8)) (message : Bytes) : Prop :=
  ∀ note velocity, toldVelocity message = some (shown.1, note, velocity) →
    velocity = shown.2 note.toNat

/-- The steps after which the lights still show what was wanted. -/
def LightRun.Admitted (r : LightRun) : LightEvent → Prop
  | .changed _ => True
  | .refreshed =>
      (∀ shown, r.shown = some shown → shown.1 = r.context.state.channel) ∧
        r.context.Sendable
  | .refreshedAll =>
      { r.context with ledStateByNote := fun _ => 255 }.Sendable
  | .midi midiBytes => r.context.queue.Fits midiBytes →
      ∀ shown, r.shown = some shown → Repeats shown midiBytes
  | .released => ∀ shown, r.shown = some shown → ∀ note,
      r.context.macroMidiNotes shown.1 note = true → shown.2 note.toNat = 0
  | .polled => True

/-- Every step of a run is one that the lights survive. -/
def LightRun.AllAdmitted : LightRun → List LightEvent → Prop
  | _, [] => True
  | r, e :: events => r.Admitted e ∧ (r.step e).AllAdmitted events

/-! ## Hearing messages -/

section

variable {channel : UInt8} {note : Nat}

theorem lastVelocity_append (queued messages : List Bytes) :
    lastVelocity (queued ++ messages) channel note =
      messages.foldl (hear channel note) (lastVelocity queued channel note) :=
  List.foldl_append ..

/-- Messages that say nothing about a note. -/
theorem foldl_hear_of_silent {messages : List Bytes} {last : Option UInt8}
    (h : ∀ m ∈ messages, ∀ n v, toldVelocity m = some (channel, n, v) →
      n.toNat ≠ note) :
    messages.foldl (hear channel note) last = last := by
  induction messages with
  | nil => rfl
  | cons m messages ih =>
      have hm : hear channel note last m = last := by
        unfold hear
        split
        next c n v hsome =>
          rw [if_neg]
          rintro ⟨rfl, hn⟩
          exact h m (by simp) n v hsome hn
        next => rfl
      rw [List.foldl_cons, hm]
      exact ih fun m' hm' => h m' (List.mem_cons_of_mem _ hm')

/-- Messages that say one thing about a note. -/
theorem foldl_hear_of_repeats {messages : List Bytes} {velocity : UInt8}
    (h : ∀ m ∈ messages, ∀ n v, toldVelocity m = some (channel, n, v) →
      n.toNat = note → v = velocity) :
    messages.foldl (hear channel note) (some velocity) = some velocity := by
  induction messages with
  | nil => rfl
  | cons m messages ih =>
      have hm : hear channel note (some velocity) m = some velocity := by
        unfold hear
        split
        next c n v hsome =>
          split
          next heq =>
            obtain ⟨rfl, hn⟩ := heq
            rw [h m (by simp) n v hsome hn]
          next => rfl
        next => rfl
      rw [List.foldl_cons, hm]
      exact ih fun m' hm' => h m' (List.mem_cons_of_mem _ hm')

end

theorem channel_bits : ∀ n < 16, ∀ channel : UInt8, channel = UInt8.ofNat n →
    (0x90 ||| channel) &&& 0xf0 = 0x90 ∧ (0x90 ||| channel) &&& 15 = channel ∧
      (0x80 ||| channel) &&& 0xf0 = 0x80 ∧
      (0x80 ||| channel) &&& 15 = channel ∧
      (0xb0 ||| channel) &&& 0xf0 = 0xb0 := by
  simp only [forall_eq]
  decide

theorem LightState.channel_lt (s : LightState) : s.channel.toNat < 16 := by
  have hmod : s.channel.toNat =
      s.cachedMidiMap.globalLight.channel.toNat % 16 :=
    Nat.and_two_pow_sub_one_eq_mod _ 4
  omega

theorem toldVelocity_lightMessage {note : Nat} {channel velocity : UInt8}
    (hchannel : channel.toNat < 16) (hvelocity : velocity ≤ 127) :
    toldVelocity (lightMessage note channel velocity) =
      some (channel, note.toUInt8 &&& 0x7f, velocity) := by
  obtain ⟨hkind, hbits, -⟩ :=
    channel_bits channel.toNat hchannel channel UInt8.ofNat_toNat.symm
  have hmask : velocity &&& 0x7f = velocity := by
    apply UInt8.toNat_inj.mp
    have hmod : (velocity &&& 0x7f).toNat = velocity.toNat % 128 :=
      Nat.and_two_pow_sub_one_eq_mod _ 7
    have hle : velocity.toNat ≤ 127 := hvelocity
    omega
  rw [lightMessage, toldVelocity, if_pos hkind, hbits, hmask]

theorem toNat_note {note : Nat} (h : note < 128) :
    (note.toUInt8 &&& 0x7f).toNat = note := by
  have hmod : (note.toUInt8 &&& 0x7f).toNat = note.toUInt8.toNat % 128 :=
    Nat.and_two_pow_sub_one_eq_mod _ 7
  have hnote : note.toUInt8.toNat = note :=
    UInt8.toNat_ofNat_of_lt' (lt_trans h (by decide))
  omega

/-! ## A refresh -/

/-- The messages of a refresh tell each of its notes what is wanted. -/
theorem foldl_hear_lightMessages {channel : UInt8} {target : Nat → UInt8}
    (hchannel : channel.toNat < 16) {notes : List Nat} (hnodup : notes.Nodup)
    (hnotes : ∀ n ∈ notes, n < 128 ∧ target n ≤ 127) {note : Nat}
    (last : Option UInt8) :
    (notes.map fun n => lightMessage n channel (target n)).foldl
        (hear channel note) last =
      if note ∈ notes then some (target note) else last := by
  induction notes generalizing last with
  | nil => simp
  | cons n notes ih =>
      obtain ⟨hn, hnodup⟩ := List.nodup_cons.mp hnodup
      obtain ⟨hlt, hle⟩ := hnotes n (by simp)
      have hhear : hear channel note last
          (lightMessage n channel (target n)) =
            if n = note then some (target n) else last := by
        rw [hear, toldVelocity_lightMessage hchannel hle]
        dsimp only
        rw [toNat_note hlt]
        simp
      rw [List.map_cons, List.foldl_cons, hhear,
        ih hnodup fun m hm => hnotes m (List.mem_cons_of_mem _ hm)]
      by_cases hnote : n = note
      · subst hnote
        rw [if_neg hn, if_pos rfl, if_pos (by simp)]
      · rw [if_neg hnote]
        simp [Ne.symm hnote]

theorem foldl_refreshNote {notes : List Nat} (hnodup : notes.Nodup)
    (c : LightContext) :
    notes.foldl LightContext.refreshNote c =
      { c with
        queue := c.queue.queueAll ((notes.filter fun note =>
          c.ledStateByNote note ≠ c.state.target note).map fun note =>
            lightMessage note c.state.channel (c.state.target note))
        ledStateByNote := fun note =>
          if note ∈ notes then c.state.target note
          else c.ledStateByNote note } := by
  induction notes generalizing c with
  | nil => simp [queueAll]
  | cons n notes ih =>
      obtain ⟨hn, hnodup⟩ := List.nodup_cons.mp hnodup
      rw [List.foldl_cons, ih hnodup]
      by_cases hsame : c.ledStateByNote n = c.state.target n
      · have hskip : c.refreshNote n = c := if_pos hsame
        rw [hskip, List.filter_cons_of_neg (by simpa using hsame)]
        congr 1
        funext note
        by_cases hnote : note = n
        · subst hnote
          simp [hn, hsame]
        · simp [hnote]
      · have hsend : c.refreshNote n =
            { c.sendLightNote n (c.state.target n) with
              ledStateByNote := Function.update c.ledStateByNote n
                (c.state.target n) } := if_neg hsame
        have hfilter : (notes.filter fun note =>
            Function.update c.ledStateByNote n (c.state.target n) note ≠
              c.state.target note) = notes.filter fun note =>
            c.ledStateByNote note ≠ c.state.target note := by
          apply List.filter_congr
          intro note hnote
          rw [Function.update_of_ne]
          rintro rfl
          exact hn hnote
        rw [hsend, List.filter_cons_of_pos (by simpa using hsame)]
        congr 1
        · funext note
          by_cases hnote : note = n
          · subst hnote
            simp [hn]
          · simp [hnote, LightContext.sendLightNote]
        · rw [List.map_cons, ← hfilter]
          rfl

theorem refreshLightingFromState_eq (c : LightContext) :
    c.refreshLightingFromState =
      { c with
        queue := c.queue.queueAll c.lightMessages
        ledStateByNote := fun note =>
          if note < 128 then c.state.target note
          else c.ledStateByNote note } := by
  rw [LightContext.refreshLightingFromState,
    foldl_refreshNote List.nodup_range]
  simp only [List.mem_range]
  rfl

/-- After a refresh the lights were told what is wanted, if what was believed
about them was told before. -/
theorem lastVelocity_refresh {c : LightContext} (hsend : c.Sendable)
    {note : Nat} (hnote : note < 128)
    (hbelieved : c.ledStateByNote note = c.state.target note →
      lastVelocity c.queue.queued c.state.channel note =
        some (c.state.target note)) :
    lastVelocity (c.queue.queueAll c.lightMessages).queued c.state.channel
      note = some (c.state.target note) := by
  obtain ⟨hvelocity, hfit⟩ := hsend
  have hnodup : c.changedNotes.Nodup := List.nodup_range.filter _
  rw [queued_queueAll hfit, lastVelocity_append, LightContext.lightMessages,
    foldl_hear_lightMessages c.state.channel_lt hnodup]
  · split
    next => rfl
    next hmem =>
      apply hbelieved
      by_contra hne
      exact hmem (List.mem_filter.mpr
        ⟨List.mem_range.mpr hnote, by simpa using hne⟩)
  · intro n hn
    have hlt := List.mem_range.mp (List.mem_filter.mp hn).1
    exact ⟨hlt, hvelocity n hlt⟩

/-! ## Releasing what macros have left on -/

/-- What releasing changes: note-offs for notes that were on are queued. -/
structure NotesOff (c c' : LightContext) : Prop where
  state : c'.state = c.state
  led : c'.ledStateByNote = c.ledStateByNote
  whole : c.queue.Whole → c'.queue.Whole
  notes : ∀ channel note, c'.macroMidiNotes channel note = true →
    c.macroMidiNotes channel note = true
  queued : ∃ messages, c'.queue.queued = c.queue.queued ++ messages ∧
    ∀ m ∈ messages, ∀ channel note velocity,
      toldVelocity m = some (channel, note, velocity) →
        velocity = 0 ∧ c.macroMidiNotes channel note = true

namespace NotesOff

variable {c c' c'' : LightContext}

theorem refl (c : LightContext) : NotesOff c c :=
  ⟨rfl, rfl, id, fun _ _ => id, [], by simp, by simp⟩

theorem trans (h : NotesOff c c') (h' : NotesOff c' c'') :
    NotesOff c c'' := by
  obtain ⟨messages, hqueued, hmessages⟩ := h.queued
  obtain ⟨messages', hqueued', hmessages'⟩ := h'.queued
  refine ⟨h'.state.trans h.state, h'.led.trans h.led,
    fun hw => h'.whole (h.whole hw),
    fun channel note hnote => h.notes _ _ (h'.notes _ _ hnote),
    messages ++ messages', ?_, ?_⟩
  · rw [hqueued', hqueued, List.append_assoc]
  · intro m hm channel note velocity hsome
    rcases List.mem_append.mp hm with hm | hm
    · exact hmessages m hm channel note velocity hsome
    · obtain ⟨hzero, hon⟩ := hmessages' m hm channel note velocity hsome
      exact ⟨hzero, h.notes _ _ hon⟩

theorem foldl {α : Type} {f : LightContext → α → LightContext} {l : List α}
    (hf : ∀ a ∈ l, ∀ c, NotesOff c (f c a)) (c : LightContext) :
    NotesOff c (l.foldl f c) := by
  induction l generalizing c with
  | nil => exact refl c
  | cons a l ih =>
      exact (hf a (by simp) c).trans
        (ih (fun b hb => hf b (List.mem_cons_of_mem _ hb)) (f c a))

/-- Queueing one message, and turning some notes off. -/
theorem queue (message : Bytes) {notes : UInt8 → UInt8 → Bool}
    {sustain : UInt8 → Bool}
    (hnotes : ∀ channel note, notes channel note = true →
      c.macroMidiNotes channel note = true)
    (hmessage : ∀ channel note velocity,
      toldVelocity message = some (channel, note, velocity) →
        velocity = 0 ∧ c.macroMidiNotes channel note = true) :
    NotesOff c
      { c with
        queue := (c.queue.queueControllerMidi message).1
        macroMidiNotes := notes
        macroMidiSustain := sustain } := by
  refine ⟨rfl, rfl, fun hw => hw.queue message, hnotes, ?_⟩
  dsimp only
  rw [queued_queueControllerMidi]
  split
  next =>
    refine ⟨[message], rfl, ?_⟩
    intro m hm
    rw [List.mem_singleton.mp hm]
    exact hmessage
  next => exact ⟨[], by simp, by simp⟩

end NotesOff

theorem notesOff_releaseNote {channel : UInt8} (hchannel : channel.toNat < 16)
    (c : LightContext) (note : Nat) :
    NotesOff c (c.releaseNote channel note) := by
  obtain ⟨-, -, hkind, hbits, -⟩ :=
    channel_bits channel.toNat hchannel channel UInt8.ofNat_toNat.symm
  rw [LightContext.releaseNote]
  split
  next hon =>
    apply NotesOff.queue
    · intro ch n hn
      by_cases hch : ch = channel
      · subst hch
        rw [Function.update_self] at hn
        by_cases hnote : n = note.toUInt8
        · subst hnote
          exact hon
        · rwa [Function.update_of_ne hnote] at hn
      · rwa [Function.update_of_ne hch] at hn
    · intro ch n v hsome
      rw [toldVelocity, if_neg (by rw [hkind]; decide), if_pos hkind, hbits,
        Option.some.injEq, Prod.mk.injEq, Prod.mk.injEq] at hsome
      obtain ⟨rfl, rfl, rfl⟩ := hsome
      exact ⟨rfl, hon⟩
  next => exact NotesOff.refl c

theorem notesOff_releaseSustain {channel : UInt8}
    (hchannel : channel.toNat < 16) (c : LightContext) :
    NotesOff c (c.releaseSustain channel) := by
  obtain ⟨-, -, -, -, hkind⟩ :=
    channel_bits channel.toNat hchannel channel UInt8.ofNat_toNat.symm
  rw [LightContext.releaseSustain]
  split
  next =>
    apply NotesOff.queue
    · exact fun _ _ h => h
    · intro ch n v hsome
      rw [toldVelocity, if_neg (by rw [hkind]; decide),
        if_neg (by rw [hkind]; decide)] at hsome
      cases hsome
  next => exact NotesOff.refl c

theorem notesOff_releaseMacroMidi (c : LightContext) :
    NotesOff c c.releaseMacroMidi := by
  apply NotesOff.foldl
  intro channel hmem c
  have hchannel : channel.toUInt8.toNat < 16 := by
    have hlt := List.mem_range.mp hmem
    have heq : channel.toUInt8.toNat = channel :=
      UInt8.toNat_ofNat_of_lt' (lt_trans hlt (by decide))
    omega
  refine (notesOff_releaseSustain hchannel c).trans ?_
  exact NotesOff.foldl (fun note _ c => notesOff_releaseNote hchannel c note) _

/-! ## What every step keeps -/

/-- What was told to the lights and what is believed about them are what the
last refresh wanted. -/
structure Inv (r : LightRun) : Prop where
  whole : r.context.queue.Whole
  heard : ∀ shown, r.shown = some shown → ∀ note < 128,
    lastVelocity r.context.queue.queued shown.1 note = some (shown.2 note)
  believed : ∀ shown, r.shown = some shown → ∀ note < 128,
    r.context.ledStateByNote note = shown.2 note
  unknown : r.shown = none → ∀ note < 128,
    r.context.ledStateByNote note = 255

theorem Inv.follow {r : LightRun} (h : Inv r) : LightsFollow r :=
  ⟨h.whole, fun _ => h.heard⟩

/-- A refresh that is sent establishes the invariant. -/
theorem inv_refresh {c : LightContext} (hwhole : c.queue.Whole)
    (hsend : c.Sendable)
    (hbelieved : ∀ note < 128, c.ledStateByNote note = c.state.target note →
      lastVelocity c.queue.queued c.state.channel note =
        some (c.state.target note)) :
    Inv ⟨c.refreshLightingFromState,
      some (c.state.channel, c.state.target)⟩ := by
  rw [refreshLightingFromState_eq]
  constructor
  · exact hwhole.queueAll _
  · rintro shown hshown note hnote
    obtain rfl := Option.some.inj hshown
    exact lastVelocity_refresh hsend hnote (hbelieved note hnote)
  · rintro shown hshown note hnote
    obtain rfl := Option.some.inj hshown
    exact if_pos hnote
  · intro hshown
    cases hshown

/-- A note that is believed to show more than 127 is not shown. -/
theorem ne_target_of_unknown {c : LightContext} (hsend : c.Sendable)
    {note : Nat} (hnote : note < 128) (hled : c.ledStateByNote note = 255) :
    c.ledStateByNote note ≠ c.state.target note := by
  intro heq
  have hle := hsend.1 note hnote
  rw [← heq, hled] at hle
  exact absurd hle (by decide)

/-- Messages after which the lights still show the same. -/
theorem Inv.queued {r : LightRun} (h : Inv r) {c : LightContext}
    (hwhole : c.queue.Whole)
    (hled : c.ledStateByNote = r.context.ledStateByNote)
    {messages : List Bytes}
    (hqueued : c.queue.queued = r.context.queue.queued ++ messages)
    (hmessages : ∀ m ∈ messages, ∀ shown, r.shown = some shown →
      Repeats shown m) : Inv ⟨c, r.shown⟩ where
  whole := hwhole
  heard shown hshown note hnote := by
    dsimp only at hshown ⊢
    rw [hqueued, lastVelocity_append, h.heard shown hshown note hnote]
    apply foldl_hear_of_repeats
    rintro m hm n v hsome rfl
    exact hmessages m hm shown hshown n v hsome
  believed shown hshown note hnote := by
    dsimp only at hshown ⊢
    rw [hled]
    exact h.believed shown hshown note hnote
  unknown hshown note hnote := by
    dsimp only at hshown ⊢
    rw [hled]
    exact h.unknown hshown note hnote

theorem noteMacroMidi_frame (c : LightContext) (midiBytes : Bytes) :
    (c.noteMacroMidi midiBytes).queue = c.queue ∧
      (c.noteMacroMidi midiBytes).ledStateByNote = c.ledStateByNote ∧
      (c.noteMacroMidi midiBytes).state = c.state := by
  unfold LightContext.noteMacroMidi
  split
  · split
    · exact ⟨rfl, rfl, rfl⟩
    · split <;> exact ⟨rfl, rfl, rfl⟩
  · exact ⟨rfl, rfl, rfl⟩

theorem midiAction_frame (c : LightContext) (midiBytes : Bytes) :
    (c.midiAction midiBytes).queue =
        (c.queue.queueControllerMidi midiBytes).1 ∧
      (c.midiAction midiBytes).ledStateByNote = c.ledStateByNote ∧
      (c.midiAction midiBytes).state = c.state := by
  unfold LightContext.midiAction
  split
  next queue hqueue =>
    obtain ⟨hframe, hled, hstate⟩ :=
      noteMacroMidi_frame { c with queue } midiBytes
    exact ⟨by rw [hframe, hqueue], hled, hstate⟩
  next queue hqueue => exact ⟨by rw [hqueue], rfl, rfl⟩

theorem Inv.step {r : LightRun} {e : LightEvent} (h : Inv r)
    (hadmitted : r.Admitted e) : Inv (r.step e) := by
  cases e with
  | changed state => exact ⟨h.whole, h.heard, h.believed, h.unknown⟩
  | refreshed =>
      obtain ⟨hchannel, hsend⟩ := hadmitted
      refine inv_refresh h.whole hsend ?_
      intro note hnote hled
      cases hshown : r.shown with
      | none =>
          exact absurd hled
            (ne_target_of_unknown hsend hnote (h.unknown hshown note hnote))
      | some shown =>
          have hheard := h.heard shown hshown note hnote
          rw [hchannel shown hshown, ← h.believed shown hshown note hnote,
            hled] at hheard
          exact hheard
  | refreshedAll =>
      have hinv := inv_refresh (c := { r.context with
        ledStateByNote := fun _ => 255 }) h.whole hadmitted
          fun note hnote hled =>
            absurd hled (ne_target_of_unknown hadmitted hnote rfl)
      rw [LightRun.step, LightContext.step, LightContext.refreshAllLighting,
        LightRun.shownBy]
      exact hinv
  | midi midiBytes =>
      obtain ⟨hqueue, hled, -⟩ := midiAction_frame r.context midiBytes
      have hqueued := queued_queueControllerMidi (q := r.context.queue)
        midiBytes
      rw [← hqueue] at hqueued
      have hwhole := h.whole.queue midiBytes
      rw [← hqueue] at hwhole
      by_cases hfits : r.context.queue.Fits midiBytes
      · rw [if_pos hfits] at hqueued
        refine h.queued hwhole hled hqueued ?_
        intro m hm shown hshown
        rw [List.mem_singleton.mp hm]
        exact hadmitted hfits shown hshown
      · rw [if_neg hfits, ← List.append_nil r.context.queue.queued] at hqueued
        exact h.queued hwhole hled hqueued (by simp)
  | released =>
      have hoff := notesOff_releaseMacroMidi r.context
      obtain ⟨messages, hqueued, hmessages⟩ := hoff.queued
      have hrepeats : ∀ m ∈ messages, ∀ shown, r.shown = some shown →
          Repeats shown m := by
        intro m hm shown hshown note velocity hsome
        obtain ⟨rfl, hon⟩ := hmessages m hm _ _ _ hsome
        exact (hadmitted shown hshown note hon).symm
      have hinv := h.queued (hoff.whole h.whole) hoff.led hqueued hrepeats
      rw [LightRun.step, LightContext.step, LightRun.shownBy]
      exact hinv
  | polled =>
      have hqueued : r.context.queue.flushControllerMidi.queued =
          r.context.queue.queued ++ [] := by
        rw [queued_flush, List.append_nil]
      exact h.queued (c := { r.context with
        queue := r.context.queue.flushControllerMidi }) h.whole.flush rfl
        hqueued (by simp)

/-- A context before the first refresh: nothing is queued, and nothing is known
about the lights. -/
def LightContext.Fresh (c : LightContext) : Prop :=
  c.queue.received = [] ∧ c.queue.controllerPending = [] ∧
    c.queue.queued = [] ∧ ∀ note < 128, c.ledStateByNote note = 255

/-- In a run of admitted steps the lights follow the state, in every state
reached. -/
theorem lights_follow {c : LightContext} (hfresh : c.Fresh)
    (events : List LightEvent)
    (hadmitted : LightRun.AllAdmitted ⟨c, none⟩ events) :
    LightsFollow (LightRun.run ⟨c, none⟩ events) := by
  obtain ⟨hreceived, hpending, hqueued, hled⟩ := hfresh
  have hstart : Inv ⟨c, none⟩ := by
    refine ⟨?_, ?_, ?_, fun _ => hled⟩
    · rw [Whole, hreceived, hpending, hqueued]
      rfl
    · intro shown hshown
      cases hshown
    · intro shown hshown
      cases hshown
  have hrun : ∀ (events : List LightEvent) (r : LightRun), Inv r →
      r.AllAdmitted events → Inv (r.run events) := by
    intro events
    induction events with
    | nil => exact fun r h _ => h
    | cons e events ih =>
        intro r h hall
        exact ih _ (h.step hall.1) hall.2
  exact (hrun events _ hstart hadmitted).follow

/-! ## A macro on a light -/

/-- If every light is believed to show what is wanted, a refresh says
nothing. -/
theorem lightMessages_of_believed {c : LightContext}
    (h : ∀ note < 128, c.ledStateByNote note = c.state.target note) :
    c.lightMessages = [] := by
  have hchanged : c.changedNotes = [] := by
    apply List.filter_eq_nil_iff.mpr
    intro note hnote
    simpa using h note (List.mem_range.mp hnote)
  rw [LightContext.lightMessages, hchanged, List.map_nil]

theorem length_lightMessage_le {note : Nat} {channel velocity : UInt8} :
    lightMessage note channel velocity ≠ [] ∧
      (lightMessage note channel velocity).length ≤ 3 :=
  ⟨List.cons_ne_nil _ _, le_rfl⟩

theorem length_lightMessages_le (c : LightContext) :
    c.lightMessages.length ≤ 128 := by
  rw [LightContext.lightMessages, List.length_map]
  exact (List.length_filter_le _ _).trans_eq List.length_range

/-- A controller that takes whole messages has room for a refresh. -/
theorem prompt_refresh {c : LightContext} {k : Nat}
    (h : c.queue.Prompt (128 + k)) :
    (c.queue.queueAll c.lightMessages).Prompt k ∧
      c.queue.AllFit c.lightMessages := by
  have hlength := length_lightMessages_le c
  refine Prompt.queueAll (h.mono (by omega)) ?_
  intro m hm
  obtain ⟨note, -, rfl⟩ := List.mem_map.mp hm
  exact length_lightMessage_le

/-- A map in which note 5 stops all sounds, with a light of its own. -/
def stopAllMap : LightMap where
  actionMappings := [⟨5, .stopAll⟩]
  globalLight := ⟨0, 1, 2, 64⟩
  soundLights := []
  effectLightMappings := []

def stopAllContext : LightContext where
  state :=
    { cachedMidiMap := stopAllMap
      cachedPlayingSfx := []
      samplerModeActive := false
      lightsDimmed := false
      holdActive := false
      heldNote := 255
      effectEnabled := fun _ => none
      macros := [] }
  ledStateByNote := fun _ => 255
  queue := ⟨[], List.replicate 129 3, [], []⟩
  macroMidiNotes := fun _ _ => false
  macroMidiSustain := fun _ => false

theorem stopAllContext_fresh : stopAllContext.Fresh :=
  ⟨rfl, rfl, rfl, fun _ _ => rfl⟩

theorem stopAllContext_prompt : stopAllContext.queue.Prompt (128 + 1) where
  pending := rfl
  whole _ hn := (List.eq_of_mem_replicate hn).ge
  enough := (List.length_replicate ..).ge

/-- The lights are refreshed, a macro plays note 5, and the lights are
refreshed again. -/
def macroBetween (status : UInt8) : List LightEvent :=
  [.refreshed, .midi [status, 5, 100], .refreshed]

/-- After a refresh and a message of a macro, a second refresh says
nothing. -/
theorem lightMessages_afterMacro (c : LightContext) (midiBytes : Bytes) :
    (c.refreshLightingFromState.midiAction midiBytes).lightMessages = [] := by
  apply lightMessages_of_believed
  intro note hnote
  obtain ⟨-, hled, hstate⟩ :=
    midiAction_frame c.refreshLightingFromState midiBytes
  rw [hled, hstate, refreshLightingFromState_eq]
  exact if_pos hnote

theorem run_macroBetween (status : UInt8) :
    (LightRun.run ⟨stopAllContext, none⟩ (macroBetween status)).context.queue =
        ((stopAllContext.queue.queueAll
          stopAllContext.lightMessages).queueControllerMidi
            [status, 5, 100]).1 ∧
      (LightRun.run ⟨stopAllContext, none⟩ (macroBetween status)).shown =
        some (stopAllContext.state.channel, stopAllContext.state.target) := by
  obtain ⟨hqueue, -, hstate⟩ := midiAction_frame
    stopAllContext.refreshLightingFromState [status, 5, 100]
  have hsilent := lightMessages_afterMacro stopAllContext [status, 5, 100]
  simp only [macroBetween, LightRun.run, List.foldl_cons, List.foldl_nil,
    LightRun.step, LightContext.step, LightRun.shownBy]
  rw [hstate, refreshLightingFromState_eq (LightContext.midiAction _ _),
    hsilent, hqueue, refreshLightingFromState_eq]
  refine ⟨?_, ?_⟩
  · dsimp only
    rw [queueAll_nil]
  · dsimp only

theorem stopAllContext_target :
    ∀ note < 128, stopAllContext.state.target note ≤ 127 := by
  decide

/-- A macro that plays the note of a light changes it until the state
changes. -/
theorem lights_not_following :
    ¬∀ c : LightContext, c.Fresh → ∀ events : List LightEvent,
      LightsFollow (LightRun.run ⟨c, none⟩ events) := by
  intro h
  have hfollow := h stopAllContext stopAllContext_fresh (macroBetween 0x90)
  obtain ⟨hprompt, hfit⟩ := prompt_refresh stopAllContext_prompt
  obtain ⟨hdrained, hfits⟩ := hprompt.queue
    (List.cons_ne_nil 0x90 [5, 100]) (by decide)
  obtain ⟨hqueue, hshown⟩ := run_macroBetween 0x90
  have hlights := hfollow.lights
  rw [hqueue] at hlights
  have hlight := hlights hdrained.pending _ hshown 5 (by decide)
  rw [queued_queueControllerMidi, if_pos hfits, lastVelocity_append] at hlight
  have hmacro : some (100 : UInt8) = some (stopAllContext.state.target 5) :=
    hlight
  revert hmacro
  decide

theorem lights_follow_stopAll :
    LightsFollow (LightRun.run ⟨stopAllContext, none⟩ (macroBetween 0x91)) := by
  apply lights_follow stopAllContext_fresh
  obtain ⟨-, hfit⟩ := prompt_refresh stopAllContext_prompt
  have hmacro : LightRun.AllAdmitted
      ⟨stopAllContext.refreshLightingFromState,
        some (stopAllContext.state.channel, stopAllContext.state.target)⟩
      [.midi [0x91, 5, 100], .refreshed] := by
    obtain ⟨-, -, hstate⟩ := midiAction_frame
      stopAllContext.refreshLightingFromState [0x91, 5, 100]
    rw [refreshLightingFromState_eq] at hstate
    have hsilent := lightMessages_afterMacro stopAllContext [0x91, 5, 100]
    rw [refreshLightingFromState_eq] at hsilent ⊢
    refine ⟨?_, ⟨?_, ?_, ?_⟩, trivial⟩
    · rintro - shown hshown note velocity hsome
      obtain rfl := Option.some.inj hshown
      have hchannel : some (1 : UInt8) = some 0 :=
        congrArg (Option.map Prod.fst) hsome
      exact absurd hchannel (by decide)
    · rintro shown hshown
      obtain rfl := Option.some.inj hshown
      rw [LightRun.step, LightContext.step, hstate]
    · rw [LightRun.step, LightContext.step, hstate]
      exact stopAllContext_target
    · rw [LightRun.step, LightContext.step, hsilent]
      trivial
  refine ⟨⟨?_, stopAllContext_target, hfit⟩, ?_⟩
  · intro shown hshown
    cases hshown
  · rw [LightRun.step, LightContext.step, LightRun.shownBy]
    exact hmacro

end Audiox.Midi
