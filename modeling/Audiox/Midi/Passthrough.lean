import Audiox.Midi.UsbOutput
import Audiox.Support.Runs
import Mathlib

/-!
# Notes that are passed through

A note that has been started at the host is to be ended there as well, whatever
happens to its mapping in between.
-/

namespace Audiox.Midi

open ByteCodec Runs

/-! ## Following a note -/

/-- What has become of a note.  `unmapped` and `passed` are about the presses
since it was last ended. -/
structure NoteTrack where
  /-- The last message of the note that was queued has started it. -/
  sounding : Bool := false
  pressed : Bool := false
  lastMapped : Bool := false
  unmapped : Bool := false
  passed : Bool := false

def NoteTrack.message (track : NoteTrack) (on mapped queued : Bool) :
    NoteTrack where
  sounding := if queued then on else track.sounding
  pressed := on
  lastMapped := on && mapped
  unmapped := on && (track.unmapped || !mapped)
  passed := on && (track.passed || queued)

def NoteTrack.step (note : UInt8 × UInt8) (track : NoteTrack) :
    UsbEvent → NoteTrack
  | .handled message mapped queued =>
      if noteOf message.bytes = some note then
        track.message (startsNote message.bytes) mapped queued
      else track
  | _ => track

def track (note : UInt8 × UInt8) (events : List UsbEvent) : NoteTrack :=
  events.foldl (NoteTrack.step note) {}

/-- The message ends the note. -/
def Ends (note : UInt8 × UInt8) (message : Message) : Prop :=
  noteOf message.bytes = some note ∧ startsNote message.bytes = false

/-- A note is not left sounding when its end has been handled, and an end is
queued for a pressed note only if a start has been since the last end. -/
structure NotesReleased (events : List UsbEvent) : Prop where
  ended : ∀ es message mapped queued rest note,
    events = es ++ .handled message mapped queued :: rest →
    Ends note message →
    (track note (es ++ [.handled message mapped queued])).sounding = false
  matched : ∀ es message mapped rest note,
    events = es ++ .handled message mapped true :: rest →
    Ends note message → (track note es).pressed = true →
    (track note es).passed = true

/-- A note is ended whose last press was mapped, while an earlier one was
not. -/
def Crossed (events : List UsbEvent) : Prop :=
  ∃ es message mapped queued rest note,
    events = es ++ .handled message mapped queued :: rest ∧
    Ends note message ∧ (track note es).lastMapped = true ∧
    (track note es).unmapped = true

theorem track_concat (note : UInt8 × UInt8) (es : List UsbEvent)
    (e : UsbEvent) : track note (es ++ [e]) = (track note es).step note e := by
  rw [track, List.foldl_append]
  rfl

/-! ## What is queued -/

/-- Whether a message is queued depends on the presses before it.  `all` says
that mapped messages are passed as well. -/
def queuedFor (all : Bool) (track : NoteTrack) (on mapped : Bool) : Bool :=
  if !on && track.pressed then all || !track.lastMapped else all || !mapped

/-- Every message of a note has been queued, or not, as it is due. -/
def Decided (all : Bool) (events : List UsbEvent) : Prop :=
  ∀ es message mapped queued rest note,
    events = es ++ .handled message mapped queued :: rest →
    noteOf message.bytes = some note →
    queued = queuedFor all (track note es) (startsNote message.bytes) mapped

section Log

variable {all : Bool} {es : List UsbEvent} {e : UsbEvent}
  {note : UInt8 × UInt8}

theorem Decided.front (h : Decided all (es ++ [e])) : Decided all es := by
  intro es' message mapped queued rest note heq hnote
  refine h es' message mapped queued (rest ++ [e]) note ?_ hnote
  rw [heq, List.append_assoc, List.cons_append]

theorem Decided.last {message : Message} {mapped queued : Bool}
    (h : Decided all (es ++ [.handled message mapped queued]))
    (hnote : noteOf message.bytes = some note) :
    queued = queuedFor all (track note es) (startsNote message.bytes) mapped :=
  h es message mapped queued [] note rfl hnote

theorem Decided.concat (h : Decided all es)
    (hlast : ∀ message mapped queued note, e = .handled message mapped queued →
      noteOf message.bytes = some note →
      queued = queuedFor all (track note es) (startsNote message.bytes)
        mapped) : Decided all (es ++ [e]) := by
  intro es' message mapped queued rest note heq hnote
  rcases eq_concat_cases heq with ⟨rest', -, heq⟩ | ⟨-, rfl, rfl⟩
  · exact h es' message mapped queued rest' note heq hnote
  · exact hlast message mapped queued note rfl hnote

/-- How the parts of a track belong together. -/
structure NoteTrack.Coherent (all : Bool) (track : NoteTrack) : Prop where
  mapped : track.lastMapped = true → track.pressed = true
  unmapped : track.pressed = true → track.lastMapped = false →
    track.unmapped = true
  unpressed : track.pressed = false → track.unmapped = false
  passed : track.passed = if all then track.pressed else track.unmapped
  sounding : track.passed = true → track.sounding = true

theorem NoteTrack.Coherent.message {track : NoteTrack}
    (h : track.Coherent all) (on mapped : Bool) :
    (track.message on mapped (queuedFor all track on mapped)).Coherent all := by
  obtain ⟨hmapped, hunmapped, hunpressed, hpassed, hsounding⟩ := h
  cases on with
  | false => constructor <;> simp [NoteTrack.message]
  | true =>
      constructor
      · simp [NoteTrack.message]
      · cases mapped <;> simp [NoteTrack.message]
      · simp [NoteTrack.message]
      · cases all <;> simp_all [NoteTrack.message, queuedFor]
      · cases all <;> cases mapped <;>
          simp_all [NoteTrack.message, queuedFor]

theorem coherent_track (h : Decided all es) (note : UInt8 × UInt8) :
    (track note es).Coherent all := by
  induction es using List.reverseRecOn with
  | nil => constructor <;> simp [track]
  | append_singleton es e ih =>
      have hes := ih h.front
      rw [track_concat]
      cases e with
      | handled message mapped queued =>
          rw [NoteTrack.step]
          split_ifs with hnote
          · rw [h.last hnote]
            exact hes.message _ _
          · exact hes
      | _ => exact hes

theorem decided_ends {message : Message} {mapped queued : Bool}
    (h : Decided all (es ++ [.handled message mapped queued]))
    (hends : Ends note message) (hpressed : (track note es).pressed = true) :
    queued = (all || !(track note es).lastMapped) := by
  rw [h.last hends.1, queuedFor, hends.2, hpressed]
  rfl

theorem Crossed.concat (h : Crossed es) : Crossed (es ++ [e]) := by
  obtain ⟨es', message, mapped, queued, rest, note, heq, hmore⟩ := h
  refine ⟨es', message, mapped, queued, rest ++ [e], note, ?_, hmore⟩
  rw [heq, List.append_assoc, List.cons_append]

/-- An end that is not queued crosses the note if a press has been passed. -/
theorem crossed_of_withheld {message : Message} {mapped : Bool}
    (h : Decided all (es ++ [.handled message mapped false]))
    (hends : Ends note message) (hpassed : (track note es).passed = true) :
    all = false ∧ Crossed (es ++ [.handled message mapped false]) := by
  have hcoherent := coherent_track h.front note
  have hpressed : (track note es).pressed = true := by
    rw [hcoherent.passed] at hpassed
    cases all with
    | true => simpa using hpassed
    | false =>
        by_contra hno
        have hnone := hcoherent.unpressed (by simpa using hno)
        rw [if_neg Bool.false_ne_true, hnone] at hpassed
        cases hpassed
  have hqueued := decided_ends h hends hpressed
  have hall : all = false := by
    cases all with
    | true => simp at hqueued
    | false => rfl
  have hmapped : (track note es).lastMapped = true := by
    rw [hall] at hqueued
    simpa using hqueued
  have hunmapped : (track note es).unmapped = true := by
    rw [hcoherent.passed, hall] at hpassed
    simpa using hpassed
  exact ⟨hall, es, message, mapped, false, [], note, rfl, hends, hmapped,
    hunmapped⟩

/-- If no note is crossed, a note sounds only if it has been pressed since it
was last ended. -/
theorem passed_of_sounding (h : Decided all es)
    (hcrossed : all = true ∨ ¬Crossed es) (note : UInt8 × UInt8)
    (hsounding : (track note es).sounding = true) :
    (track note es).passed = true := by
  induction es using List.reverseRecOn with
  | nil => simp [track] at hsounding
  | append_singleton es e ih =>
      have hes := ih h.front (hcrossed.imp_right fun hno => mt Crossed.concat hno)
      rw [track_concat] at hsounding ⊢
      cases e with
      | handled message mapped queued =>
          rw [NoteTrack.step] at hsounding ⊢
          split_ifs at hsounding ⊢ with hnote
          · cases queued with
            | true =>
                have hon : startsNote message.bytes = true := by
                  simpa [NoteTrack.message] using hsounding
                simp [NoteTrack.message, hon]
            | false =>
                have hpassed := hes (by simpa [NoteTrack.message] using hsounding)
                cases hon : startsNote message.bytes with
                | true => simp [NoteTrack.message, hpassed]
                | false =>
                    obtain ⟨hall, hcross⟩ :=
                      crossed_of_withheld h ⟨hnote, hon⟩ hpassed
                    rcases hcrossed with htrue | hno
                    · rw [hall] at htrue
                      cases htrue
                    · exact absurd hcross hno
          · exact hes hsounding
      | _ => exact hes hsounding

theorem Decided.upTo {es es' rest : List UsbEvent} {e : UsbEvent}
    (h : Decided all es) (heq : es = es' ++ e :: rest) :
    Decided all (es' ++ [e]) := by
  intro es'' message mapped queued rest' note heq' hnote
  refine h es'' message mapped queued (rest' ++ rest) note ?_ hnote
  rw [heq, ← List.singleton_append, ← List.append_assoc, heq',
    List.append_assoc, List.cons_append]

theorem not_crossed_upTo {es es' rest : List UsbEvent} {e : UsbEvent}
    (h : ¬Crossed es) (heq : es = es' ++ e :: rest) :
    ¬Crossed (es' ++ [e]) := by
  rintro ⟨es'', message, mapped, queued, rest', note, heq', hmore⟩
  refine h ⟨es'', message, mapped, queued, rest' ++ rest, note, ?_, hmore⟩
  rw [heq, ← List.singleton_append, ← List.append_assoc, heq',
    List.append_assoc, List.cons_append]

theorem notesReleased_of_decided (h : Decided all es) :
    NotesReleased es ↔ all = true ∨ ¬Crossed es := by
  constructor
  · intro hreleased
    cases hall : all with
    | true => exact .inl rfl
    | false =>
        right
        rintro ⟨es', message, mapped, queued, rest, note, heq, hends, hlast,
          hunmapped⟩
        have hupTo := h.upTo heq
        have hcoherent := coherent_track hupTo.front note
        rw [hall] at hcoherent hupTo
        have hqueued := decided_ends hupTo hends (hcoherent.mapped hlast)
        rw [hlast] at hqueued
        have hsounding := hcoherent.sounding (by rw [hcoherent.passed]; exact hunmapped)
        have hsilent := hreleased.ended es' message mapped queued rest note heq
          hends
        rw [track_concat, NoteTrack.step, if_pos hends.1, hqueued] at hsilent
        simp [NoteTrack.message, hsounding] at hsilent
  · intro hcrossed
    constructor
    · intro es' message mapped queued rest note heq hends
      have hupTo := h.upTo heq
      have hno := hcrossed.imp_right fun hno => not_crossed_upTo hno heq
      by_contra hsounding
      have hpassed := passed_of_sounding hupTo hno note (by simpa using hsounding)
      rw [track_concat, NoteTrack.step, if_pos hends.1, hends.2] at hpassed
      simp [NoteTrack.message] at hpassed
    · intro es' message mapped rest note heq hends hpressed
      have hupTo := h.upTo heq
      have hcoherent := coherent_track hupTo.front note
      have hqueued := decided_ends hupTo hends hpressed
      rw [hcoherent.passed]
      cases hall : all with
      | true => simpa using hpressed
      | false =>
          rw [hall] at hqueued
          have hlast : (track note es').lastMapped = false := by
            simpa using hqueued
          simpa using hcoherent.unmapped hpressed hlast

end Log

/-! ## The output follows every note -/

/-- The policy of a note, by what has become of it. -/
def policyFor (all : Bool) (track : NoteTrack) : NotePolicy :=
  if !track.pressed then .unseen
  else if all || !track.lastMapped then .passed else .withheld

structure Following (all : Bool) (usb : MidiUsbOutput)
    (events : List UsbEvent) : Prop where
  mode : all = decide (usb.mode = 2)
  policy : ∀ note, usb.notePolicy note = policyFor all (track note events)
  decided : Decided all events

section Following

variable {all : Bool} {usb usb' : MidiUsbOutput}

def UsbEvent.isHandled : UsbEvent → Bool
  | .handled _ _ _ => true
  | _ => false

theorem Following.quiet {es events : List UsbEvent}
    (h : Following all usb es) (hmode : usb'.mode = usb.mode)
    (hpolicy : usb'.notePolicy = usb.notePolicy)
    (hquiet : ∀ e ∈ events, e.isHandled = false) :
    Following all usb' (es ++ events) := by
  induction events using List.reverseRecOn with
  | nil =>
      rw [List.append_nil]
      exact ⟨by rw [hmode, h.mode], by rw [hpolicy]; exact h.policy, h.decided⟩
  | append_singleton events e ih =>
      have hes := ih fun e he => hquiet e (List.mem_append_left _ he)
      have hlast := hquiet e (by simp)
      rw [← List.append_assoc]
      refine ⟨hes.mode, ?_, hes.decided.concat ?_⟩
      · intro note
        rw [hes.policy, track_concat]
        cases e with
        | handled message mapped queued => cases hlast
        | _ => rfl
      · rintro message mapped queued note rfl
        cases hlast

theorem keeps_quiet {events : List UsbEvent}
    (h : .closed ∉ events → usb'.mode = usb.mode ∧
      usb'.notePolicy = usb.notePolicy ∧ ∀ e ∈ events, e.isHandled = false) :
    Keeps (Following all) usb (usb', events) := by
  intro es hes hopen
  obtain ⟨hmode, hpolicy, hquiet⟩ := h hopen
  exact hes.quiet hmode hpolicy hquiet

theorem keeps_closing (usb' : MidiUsbOutput) :
    Keeps (Following all) usb (Stage.close usb').effect :=
  keeps_closed (by simp)

theorem openDevices_quiet (host : UsbHost) (usb : MidiUsbOutput) :
    (usb.openDevices host).mode = usb.mode ∧
      (usb.openDevices host).notePolicy = usb.notePolicy := by
  unfold MidiUsbOutput.openDevices
  obtain ⟨isOpen, hmidi⟩ := usb.openMidi_eq host
  rw [hmidi]
  rcases MidiUsbOutput.openMedia_cases _ host with hmedia | ⟨-, hmedia⟩ <;>
    rw [hmedia] <;>
    rcases MidiUsbOutput.openKeyboard_cases _ host with hkeyboard | ⟨-, hkeyboard⟩ <;>
    rw [hkeyboard] <;> exact ⟨rfl, rfl⟩

theorem keeps_probe (host : UsbHost) (now : Nat) :
    Keeps (Following all) usb (usb.probe host now).effect := by
  obtain ⟨hmode, hpolicy⟩ := openDevices_quiet host (usb.scheduleProbe now)
  unfold MidiUsbOutput.probe
  split_ifs
  · exact keeps_quiet (by simp)
  · exact keeps_quiet fun _ => ⟨hmode, hpolicy, by simp⟩
  · exact keeps_closing _
  · exact keeps_quiet fun _ => ⟨rfl, rfl, by simp⟩

theorem keeps_writeDue (host : UsbHost) (now : Nat)
    (due : MidiUsbOutput.Due) :
    Keeps (Following all) usb (usb.writeDue host now due).effect := by
  unfold MidiUsbOutput.writeDue
  split_ifs
  · split
    · exact keeps_quiet (by simp)
    · split_ifs
      · refine keeps_quiet fun _ => ?_
        cases due <;>
          exact ⟨rfl, rfl, by simp [MidiUsbOutput.Due.event, UsbEvent.isHandled]⟩
      · exact keeps_closing _
    · exact keeps_closing _
  · exact keeps_closing _

theorem keeps_writeReport (host : UsbHost) (now : Nat) :
    Keeps (Following all) usb (usb.writeReport host now).effect := by
  unfold MidiUsbOutput.writeReport
  split
  · exact keeps_quiet (by simp)
  · exact keeps_writeDue host now _

theorem keeps_poll (host : UsbHost) (now : Nat) (passthrough : UInt8)
    (keyboard : Bool) :
    Keeps (Following all) usb (usb.poll host now passthrough keyboard) := by
  unfold MidiUsbOutput.poll
  refine keeps_bind (keeps_bind (keeps_bind (keeps_bind (keeps_bind ?_ ?_) ?_)
    ?_) ?_) ?_
  · unfold MidiUsbOutput.configure
    split_ifs <;> apply keeps_quiet <;> simp
  · exact fun usb => keeps_probe host now
  · intro usb
    unfold MidiUsbOutput.releaseKeyboard
    split_ifs
    · split
      · exact keeps_quiet (by simp)
      · exact keeps_quiet (by simp [UsbEvent.isHandled])
      · exact keeps_closing _
    · exact keeps_quiet (by simp)
  · intro usb
    unfold MidiUsbOutput.releaseMedia
    split_ifs
    · split
      · exact keeps_quiet (by simp)
      · exact keeps_quiet (by simp [UsbEvent.isHandled])
      · exact keeps_closing _
    · exact keeps_quiet (by simp)
  · intro usb
    unfold MidiUsbOutput.writePending
    split_ifs
    · split
      · exact keeps_quiet (by simp)
      · exact keeps_quiet (by simp [UsbEvent.isHandled])
      · exact keeps_closed (by simp)
    · exact keeps_quiet (by simp)
  · exact fun usb => keeps_writeReport host now

theorem keeps_queueReport (report : Report) :
    Keeps (Following all) usb (usb.queueReport report) := by
  unfold MidiUsbOutput.queueReport
  split_ifs
  · exact keeps_quiet (by simp)
  · exact keeps_quiet (by simp)
  · exact keeps_quiet (by simp [UsbEvent.isHandled])

theorem keeps_press (keys : Bytes) :
    Keeps (Following all) usb (usb.trigger keys) ∧
      Keeps (Following all) usb (usb.press keys) := by
  unfold MidiUsbOutput.trigger MidiUsbOutput.press
  constructor
  · split_ifs
    · exact keeps_queueReport _
    · split
      · exact keeps_quiet (by simp)
      · exact keeps_queueReport _
  · split_ifs
    · exact keeps_queueReport _
    · split
      · exact keeps_quiet (by simp)
      · exact keeps_queueReport _

/-- What is decided about a message is what is due to its note. -/
theorem passes_eq {es : List UsbEvent} (h : Following all usb es)
    {message : Message} {note : UInt8 × UInt8}
    (hnote : noteOf message.bytes = some note) (mapped : Bool) :
    usb.passes message mapped =
      queuedFor all (track note es) (startsNote message.bytes) mapped := by
  have hpolicy := h.policy note
  rw [MidiUsbOutput.passes, hnote, queuedFor, ← h.mode]
  simp only [hpolicy, policyFor]
  cases (track note es).pressed <;> cases (track note es).lastMapped <;>
    cases all <;> cases startsNote message.bytes <;> simp

theorem recordNote_policy (usb : MidiUsbOutput) (message : Message)
    (pass : Bool) (note : UInt8 × UInt8) :
    (usb.recordNote message pass).notePolicy note =
      if noteOf message.bytes = some note then
        if startsNote message.bytes then
          if pass then .passed else .withheld
        else .unseen
      else usb.notePolicy note := by
  unfold MidiUsbOutput.recordNote
  split
  next hnone => simp [hnone]
  next other hother =>
    rw [hother]
    by_cases hsame : note = other
    · simp [hsame]
    · have hne : some other ≠ some note := by simpa using Ne.symm hsame
      rw [if_neg hne]
      exact Function.update_of_ne hsame _ _

theorem following_handled {es : List UsbEvent} (h : Following all usb es)
    (message : Message) (mapped : Bool) (hmode : usb'.mode = usb.mode)
    (hpolicy : usb'.notePolicy =
      (usb.recordNote message (usb.passes message mapped)).notePolicy) :
    Following all usb'
      (es ++ [.handled message mapped (usb.passes message mapped)]) := by
  refine ⟨by rw [hmode, h.mode], ?_, ?_⟩
  · intro note
    rw [hpolicy, recordNote_policy, track_concat, NoteTrack.step]
    by_cases hnote : noteOf message.bytes = some note
    · rw [if_pos hnote, if_pos hnote, passes_eq h hnote]
      cases startsNote message.bytes <;> cases mapped <;> cases all <;>
        simp [NoteTrack.message, policyFor, queuedFor]
    · rw [if_neg hnote, if_neg hnote]
      exact h.policy note
  · refine h.decided.concat ?_
    intro message' mapped' queued note heq hnote
    injection heq with hmessage hmapped hqueued
    subst hmessage hmapped hqueued
    exact passes_eq h hnote mapped

theorem keeps_forward (message : Message) (mapped : Bool) :
    Keeps (Following all) usb (usb.forward message mapped) := by
  have hmode : ∀ pass, (usb.recordNote message pass).mode = usb.mode := by
    intro pass
    unfold MidiUsbOutput.recordNote
    split <;> rfl
  unfold MidiUsbOutput.forward
  split_ifs with hoff hpass
  · exact keeps_nil fun _ h => h
  · unfold MidiUsbOutput.queueMessage
    split_ifs
    · exact keeps_closed (by simp)
    · intro es hes _
      rw [← hpass]
      exact following_handled hes message mapped (hmode _) rfl
  · intro es hes _
    have hpass' : usb.passes message mapped = false := by simpa using hpass
    have hnext := following_handled hes message mapped (hmode false)
      (by rw [hpass'])
    rwa [hpass'] at hnext

theorem keeps_call (usb : MidiUsbOutput) (call : UsbCall) :
    Keeps (Following all) usb (call.apply usb) := by
  cases call with
  | forward message mapped => exact keeps_forward message mapped
  | trigger keys => exact (keeps_press keys).1
  | press keys => exact (keeps_press keys).2
  | release =>
      rw [UsbCall.apply, MidiUsbOutput.release]
      split_ifs <;> exact keeps_queueReport _
  | cancelChords => exact keeps_quiet (by simp [UsbEvent.isHandled])
  | poll host now passthrough keyboard =>
      exact keeps_poll host now passthrough keyboard

end Following

def noteMessage (status note velocity : UInt8) (h : note < 128) : Message where
  bytes := [status, note, velocity]
  nonempty := by simp
  note_lt := by
    intro found hfound
    rw [noteOf] at hfound
    split_ifs at hfound
    · obtain rfl : (status &&& 15, note) = found := by simpa using hfound
      exact h
    · simp at hfound

def firstPress : Message := noteMessage 0x90 60 100 (by decide)
def secondPress : Message := noteMessage 0x90 60 90 (by decide)
def noteEnd : Message := noteMessage 0x80 60 0 (by decide)

/-- A note is pressed twice and released; it is mapped from the second press
on. -/
def crossedCalls : List UsbCall :=
  [.forward firstPress false, .forward secondPress true, .forward noteEnd true]

def openOutput : MidiUsbOutput where
  midiOpen := true
  mode := 1

theorem run_crossedCalls : (openOutput.run crossedCalls).2 =
    [.handled firstPress false true, .handled secondPress true false,
      .handled noteEnd true false] :=
  rfl

end Audiox.Midi
