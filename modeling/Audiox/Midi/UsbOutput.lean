import Audiox.Midi.Stream
import Audiox.Scripting.Keyboard
import Mathlib

/-!
# The output to a USB host

MIDI messages are passed through to the host, and scripts press keys on it.
Keyboard and media keys are reported under two ids on one endpoint.  Everything
is queued, and written when the output is polled.
-/

namespace Audiox.Midi

open ByteCodec Scripting

/-! ## The state -/

/-- A report in the queue; one that is held is not released by itself. -/
structure Report where
  media : Bool
  payload : Bytes
  hold : Bool
deriving DecidableEq

/-- Some key is down in the report.  The second byte of a keyboard report is
reserved. -/
def Report.down (report : Report) : Bool :=
  if report.media then report.payload.any (· ≠ 0)
  else (report.payload.eraseIdx 1).any (· ≠ 0)

/-- What has been decided about a note that was started. -/
inductive NotePolicy
  | unseen | withheld | passed
deriving DecidableEq

structure MidiUsbOutput where
  midiOpen : Bool := false
  keyboardOpen : Bool := false
  mediaOpen : Bool := false
  nextProbeMs : Nat := 0
  releaseMs : Nat := 0
  pending : Bytes := []
  chords : List Report := []
  keyDown : Bool := false
  keyHeld : Bool := false
  currentMedia : Bool := false
  mediaNeedsRelease : Bool := false
  keyboardNeedsRelease : Bool := false
  keyboardPressMs : Nat := 0
  mode : UInt8 := 0
  keyboardEnabled : Bool := false
  notePolicy : UInt8 × UInt8 → NotePolicy := fun _ => .unseen

def scriptsMax : Nat := 16
def pendingMax : Nat := 4096
def devicePollIntervalMs : Nat := 500
def releaseDelayMs : Nat := 30

/-- A time in 64 bits. -/
@[irreducible] def clock (time : Nat) : Nat :=
  time % 2 ^ 64

/-- What happens at the output. -/
inductive UsbEvent
  | requested (report : Report)
  | cancelled
  | reported (report : Report)
  /-- An all-zero report that no one has asked for. -/
  | released (media : Bool)
  | handled (message : Message) (mapped : Bool) (queued : Bool)
  | sent (bytes : Bytes)
  | closed

/-- The new state, and what has happened. -/
abbrev Effect : Type :=
  MidiUsbOutput × List UsbEvent

namespace MidiUsbOutput

/-- All devices are released, silenced and closed. -/
def closeDevices (usb : MidiUsbOutput) : MidiUsbOutput :=
  { nextProbeMs := usb.nextProbeMs
    releaseMs := usb.releaseMs
    keyboardPressMs := usb.keyboardPressMs
    mode := usb.mode
    keyboardEnabled := usb.keyboardEnabled }

/-- Whether a message is passed on.  The end of a note follows what has been
decided at its start. -/
def passes (usb : MidiUsbOutput) (message : Message) (mapped : Bool) : Bool :=
  match noteOf message.bytes with
  | none => usb.mode = 2 || !mapped
  | some note =>
      if !startsNote message.bytes && usb.notePolicy note ≠ .unseen then
        usb.notePolicy note = .passed
      else usb.mode = 2 || !mapped

def recordNote (usb : MidiUsbOutput) (message : Message) (pass : Bool) :
    MidiUsbOutput :=
  match noteOf message.bytes with
  | none => usb
  | some note =>
      { usb with
        notePolicy := Function.update usb.notePolicy note
          (if startsNote message.bytes then
            if pass then .passed else .withheld
          else .unseen) }

/-- Messages that do not fit reset the output. -/
def queueMessage (usb : MidiUsbOutput) (message : Message) (mapped : Bool) :
    Effect :=
  if message.bytes.length > pendingMax - usb.pending.length then
    (usb.closeDevices, [.closed])
  else
    ({ usb with pending := usb.pending ++ message.bytes },
      [.handled message mapped true])

def forward (usb : MidiUsbOutput) (message : Message) (mapped : Bool) :
    Effect :=
  if usb.mode = 0 ∨ ¬usb.midiOpen then (usb, [])
  else if usb.passes message mapped then
    (usb.recordNote message true).queueMessage message mapped
  else (usb.recordNote message false, [.handled message mapped false])

/-! ## Requests -/

/-- The device of a report id is open. -/
def reportOpen (usb : MidiUsbOutput) (media : Bool) : Bool :=
  if media then usb.mediaOpen else usb.keyboardOpen

def queueReport (usb : MidiUsbOutput) (report : Report) : Effect :=
  if ¬usb.keyboardEnabled ∨ ¬usb.reportOpen report.media then (usb, [])
  else if usb.chords.length = scriptsMax then (usb, [])
  else ({ usb with chords := usb.chords ++ [report] }, [.requested report])

def queueKeyboardReport (usb : MidiUsbOutput) (report : Bytes) (hold : Bool) :
    Effect :=
  usb.queueReport { media := false, payload := report, hold }

def queueMediaReport (usb : MidiUsbOutput) (usage : UInt16) (hold : Bool) :
    Effect :=
  usb.queueReport
    { media := true, payload := [usage.toUInt8, (usage >>> 8).toUInt8], hold }

def trigger (usb : MidiUsbOutput) (keys : Bytes) : Effect :=
  if scriptMediaUsage keys ≠ 0 then
    usb.queueMediaReport (scriptMediaUsage keys) false
  else
    match scriptChordReport keys false with
    | none => (usb, [])
    | some report => usb.queueKeyboardReport report false

def press (usb : MidiUsbOutput) (keys : Bytes) : Effect :=
  if scriptMediaUsage keys ≠ 0 then
    usb.queueMediaReport (scriptMediaUsage keys) true
  else
    match scriptChordReport keys true with
    | none => (usb, [])
    | some report => usb.queueKeyboardReport report true

def release (usb : MidiUsbOutput) : Effect :=
  if usb.currentMedia then usb.queueMediaReport 0 false
  else usb.queueKeyboardReport (List.replicate 8 0) false

def cancelChords (usb : MidiUsbOutput) : Effect :=
  ({ usb with chords := [], keyHeld := false, releaseMs := 0 }, [.cancelled])

end MidiUsbOutput

/-! ## Polling -/

/-- The answer to a write: bytes are taken, it is to be tried again, or it
fails.  A report that is taken in part fails as well. -/
inductive WriteResult
  | written (bytes : Nat)
  | again
  | failed

/-- What a poll finds outside. -/
structure UsbHost where
  configured : Bool
  opensMidi : Bool
  opensKeyboard : Bool
  opensMedia : Bool
  writeMidi : WriteResult
  writeKeyboardRelease : WriteResult
  writeMediaRelease : WriteResult
  writeReport : WriteResult

/-- A part of a poll, which may end it. -/
inductive Stage
  | next (usb : MidiUsbOutput) (events : List UsbEvent)
  | stop (usb : MidiUsbOutput) (events : List UsbEvent)

def Stage.bind (stage : Stage) (f : MidiUsbOutput → Stage) : Stage :=
  match stage with
  | .stop usb events => .stop usb events
  | .next usb events =>
      match f usb with
      | .next usb' events' => .next usb' (events ++ events')
      | .stop usb' events' => .stop usb' (events ++ events')

def Stage.effect : Stage → Effect
  | .next usb events => (usb, events)
  | .stop usb events => (usb, events)

def Stage.close (usb : MidiUsbOutput) : Stage :=
  .stop usb.closeDevices [.closed]

namespace MidiUsbOutput

def configure (passthrough : UInt8) (keyboard : Bool) (usb : MidiUsbOutput) :
    Stage :=
  if usb.mode ≠ passthrough ∨ usb.keyboardEnabled ≠ keyboard then
    let usb := { usb.closeDevices with
      mode := passthrough, keyboardEnabled := keyboard, nextProbeMs := 0 }
    if passthrough = 0 ∧ ¬keyboard then .stop usb [.closed]
    else .next usb [.closed]
  else if usb.mode = 0 ∧ ¬usb.keyboardEnabled then .stop usb []
  else .next usb []

def openMidi (host : UsbHost) (usb : MidiUsbOutput) : MidiUsbOutput :=
  if usb.mode ≠ 0 ∧ ¬usb.midiOpen then { usb with midiOpen := host.opensMidi }
  else usb

def openKeyboard (host : UsbHost) (usb : MidiUsbOutput) : MidiUsbOutput :=
  if usb.keyboardEnabled ∧ ¬usb.keyboardOpen ∧ host.opensKeyboard then
    { usb with keyboardOpen := true, keyboardNeedsRelease := true }
  else usb

/-- Media keys are reported through a duplicate of the keyboard device. -/
def openMedia (host : UsbHost) (usb : MidiUsbOutput) : MidiUsbOutput :=
  if usb.keyboardEnabled ∧ usb.keyboardOpen ∧ ¬usb.mediaOpen ∧
      host.opensMedia then
    { usb with mediaOpen := true, mediaNeedsRelease := true }
  else usb

/-- Opens the devices that are not open yet. -/
def openDevices (host : UsbHost) (usb : MidiUsbOutput) : MidiUsbOutput :=
  ((usb.openMidi host).openKeyboard host).openMedia host

def scheduleProbe (now : Nat) (usb : MidiUsbOutput) : MidiUsbOutput :=
  { usb with nextProbeMs := clock (now + devicePollIntervalMs) }

def probe (host : UsbHost) (now : Nat) (usb : MidiUsbOutput) : Stage :=
  if now < usb.nextProbeMs then .next usb []
  else if host.configured then
    .next ((usb.scheduleProbe now).openDevices host) []
  else if usb.midiOpen ∨ usb.keyboardOpen ∨ usb.mediaOpen then
    .close (usb.scheduleProbe now)
  else .stop (usb.scheduleProbe now) []

/-- Releases the keys of a keyboard that has been opened. -/
def releaseKeyboard (host : UsbHost) (usb : MidiUsbOutput) : Stage :=
  if usb.keyboardOpen ∧ usb.keyboardNeedsRelease then
    match host.writeKeyboardRelease with
    | .again => .stop usb []
    | .written 9 => .next { usb with keyboardNeedsRelease := false }
        [.released false]
    | _ => .close usb
  else .next usb []

def releaseMedia (host : UsbHost) (usb : MidiUsbOutput) : Stage :=
  if usb.mediaOpen ∧ usb.mediaNeedsRelease then
    match host.writeMediaRelease with
    | .again => .stop usb []
    | .written 3 => .next { usb with mediaNeedsRelease := false }
        [.released true]
    | _ => .close usb
  else .next usb []

/-- Writes MIDI bytes; the poll goes on behind a failure. -/
def writePending (host : UsbHost) (usb : MidiUsbOutput) : Stage :=
  if usb.midiOpen ∧ usb.pending ≠ [] then
    match host.writeMidi with
    | .again => .next usb []
    | .written (n + 1) =>
        .next { usb with pending := usb.pending.drop (n + 1) }
          [.sent (usb.pending.take (n + 1))]
    | _ => .next usb.closeDevices [.closed]
  else .next usb []

/-- The key that is down has to be released in front of a report of the other
id. -/
def switching (usb : MidiUsbOutput) : Bool :=
  usb.keyDown && usb.chords.head?.any fun next =>
    next.media ≠ usb.currentMedia

/-- A report that is due: one of the queue, or the release of what is down. -/
inductive Due
  | queued (report : Report)
  | release (media : Bool)

def Due.media : Due → Bool
  | .queued report => report.media
  | .release media => media

def Due.event : Due → UsbEvent
  | .queued report => .reported report
  | .release media => .released media

def dueReport (usb : MidiUsbOutput) (now : Nat) : Option Due :=
  if usb.keyDown ∧ ¬usb.keyHeld ∧ now < usb.releaseMs then none
  else if usb.keyDown ∧ (¬usb.keyHeld ∨ usb.switching) then
    some (.release usb.currentMedia)
  else usb.chords.head?.map .queued

/-- The state behind a report that has been written. -/
def reportWritten (usb : MidiUsbOutput) (now : Nat) : Due → MidiUsbOutput
  | .release _ => { usb with keyDown := false, keyHeld := false }
  | .queued report =>
      { usb with
        currentMedia := report.media
        keyDown := report.down
        keyHeld := report.down && report.hold
        keyboardPressMs := if report.down then now else usb.keyboardPressMs
        releaseMs := clock (now + releaseDelayMs)
        chords := usb.chords.tail }

def reportLength (media : Bool) : Nat :=
  if media then 3 else 9

def writeDue (host : UsbHost) (now : Nat) (usb : MidiUsbOutput) (due : Due) :
    Stage :=
  if ¬usb.reportOpen due.media then .close usb
  else
    match host.writeReport with
    | .again => .stop usb []
    | .written n =>
        if n = reportLength due.media then
          .stop (usb.reportWritten now due) [due.event]
        else .close usb
    | .failed => .close usb

def writeReport (host : UsbHost) (now : Nat) (usb : MidiUsbOutput) : Stage :=
  match usb.dueReport now with
  | none => .stop usb []
  | some due => usb.writeDue host now due

def poll (usb : MidiUsbOutput) (host : UsbHost) (now : Nat)
    (passthrough : UInt8) (keyboard : Bool) : Effect :=
  ((((((usb.configure passthrough keyboard).bind
    (probe host now)).bind
    (releaseKeyboard host)).bind
    (releaseMedia host)).bind
    (writePending host)).bind
    (writeReport host now)).effect

end MidiUsbOutput

/-! ## What the parts of a poll change -/

namespace MidiUsbOutput

theorem openMidi_eq (usb : MidiUsbOutput) (host : UsbHost) : ∃ isOpen, usb.openMidi host =
    { usb with midiOpen := isOpen } := by
  unfold openMidi
  split
  · exact ⟨host.opensMidi, rfl⟩
  · exact ⟨usb.midiOpen, rfl⟩

theorem openKeyboard_cases (usb : MidiUsbOutput) (host : UsbHost) :
    usb.openKeyboard host = usb ∨
    usb.keyboardOpen = false ∧ usb.openKeyboard host =
      { usb with keyboardOpen := true, keyboardNeedsRelease := true } := by
  unfold openKeyboard
  split
  next h => exact .inr ⟨by simpa using h.2.1, rfl⟩
  · exact .inl rfl

theorem openMedia_cases (usb : MidiUsbOutput) (host : UsbHost) :
    usb.openMedia host = usb ∨
    usb.mediaOpen = false ∧ usb.openMedia host =
      { usb with mediaOpen := true, mediaNeedsRelease := true } := by
  unfold openMedia
  split
  next h => exact .inr ⟨by simpa using h.2.2.1, rfl⟩
  · exact .inl rfl

end MidiUsbOutput

/-! ## Runs -/

inductive UsbCall
  | forward (message : Message) (mapped : Bool)
  | trigger (keys : Bytes)
  | press (keys : Bytes)
  | release
  | cancelChords
  | poll (host : UsbHost) (now : Nat) (passthrough : UInt8) (keyboard : Bool)

def UsbCall.apply (usb : MidiUsbOutput) : UsbCall → Effect
  | .forward message mapped => usb.forward message mapped
  | .trigger keys => usb.trigger keys
  | .press keys => usb.press keys
  | .release => usb.release
  | .cancelChords => usb.cancelChords
  | .poll host now passthrough keyboard =>
      usb.poll host now passthrough keyboard

/-- The state after a list of calls, and everything that has happened. -/
def MidiUsbOutput.run (usb : MidiUsbOutput) : List UsbCall → Effect
  | [] => (usb, [])
  | call :: calls =>
      let (usb, events) := call.apply usb
      let (usb, rest) := usb.run calls
      (usb, events ++ rest)

/-- What holds behind a part of a poll, unless the devices have been closed:
`N` where the poll goes on, and `S` where it ends. -/
def Stage.Sat (stage : Stage) (es : List UsbEvent)
    (N S : MidiUsbOutput → List UsbEvent → Prop) : Prop :=
  match stage with
  | .next usb events => .closed ∈ events ∨ N usb (es ++ events)
  | .stop usb events => .closed ∈ events ∨ S usb (es ++ events)

theorem Stage.Sat.bind {stage : Stage} {f : MidiUsbOutput → Stage}
    {es : List UsbEvent} {N N' S : MidiUsbOutput → List UsbEvent → Prop}
    (h : stage.Sat es N' S)
    (hf : ∀ usb es, N' usb es → (f usb).Sat es N S) :
    (stage.bind f).Sat es N S := by
  cases stage with
  | stop usb events => exact h
  | next usb events =>
      rw [Stage.bind]
      rcases h with hclosed | hnext
      · cases f usb with
        | next usb' events' => exact .inl (List.mem_append_left _ hclosed)
        | stop usb' events' => exact .inl (List.mem_append_left _ hclosed)
      · have hrest := hf usb _ hnext
        cases hstage : f usb with
        | next usb' events' =>
            rw [hstage, Stage.Sat, List.append_assoc] at hrest
            exact hrest.imp_left (List.mem_append_right _)
        | stop usb' events' =>
            rw [hstage, Stage.Sat, List.append_assoc] at hrest
            exact hrest.imp_left (List.mem_append_right _)

theorem Stage.Sat.effect {stage : Stage} {es : List UsbEvent}
    {P : MidiUsbOutput → List UsbEvent → Prop} (h : stage.Sat es P P)
    (hopen : .closed ∉ stage.effect.2) :
    P stage.effect.1 (es ++ stage.effect.2) := by
  cases stage with
  | next usb events => exact h.resolve_left hopen
  | stop usb events => exact h.resolve_left hopen

/-- The effect keeps a relation between the state and what has happened, as
long as the devices are not closed. -/
def Keeps (I : MidiUsbOutput → List UsbEvent → Prop) (usb : MidiUsbOutput)
    (effect : Effect) : Prop :=
  ∀ es, I usb es → UsbEvent.closed ∉ effect.2 → I effect.1 (es ++ effect.2)

section Keeps

variable {I : MidiUsbOutput → List UsbEvent → Prop} {usb : MidiUsbOutput}

theorem keeps_closed {usb' : MidiUsbOutput} {events : List UsbEvent}
    (h : UsbEvent.closed ∈ events) : Keeps I usb (usb', events) :=
  fun _ _ hopen => absurd h hopen

theorem keeps_nil {usb' : MidiUsbOutput} (h : ∀ es, I usb es → I usb' es) :
    Keeps I usb (usb', []) := by
  intro es hes _
  rw [List.append_nil]
  exact h es hes

theorem keeps_iff_sat {stage : Stage} :
    Keeps I usb stage.effect ↔ ∀ es, I usb es → stage.Sat es I I := by
  cases stage with
  | next usb' events =>
      exact forall_congr' fun es => imp_congr_right fun _ =>
        Iff.symm or_iff_not_imp_left
  | stop usb' events =>
      exact forall_congr' fun es => imp_congr_right fun _ =>
        Iff.symm or_iff_not_imp_left

theorem keeps_bind {stage : Stage} {f : MidiUsbOutput → Stage}
    (hstage : Keeps I usb stage.effect)
    (hf : ∀ usb, Keeps I usb (f usb).effect) :
    Keeps I usb (stage.bind f).effect := by
  rw [keeps_iff_sat] at hstage ⊢
  intro es hes
  exact (hstage es hes).bind fun usb' => keeps_iff_sat.mp (hf usb')

theorem keeps_run {calls : List UsbCall}
    (hcalls : ∀ call ∈ calls, ∀ usb, Keeps I usb (call.apply usb)) :
    Keeps I usb (usb.run calls) := by
  induction calls generalizing usb with
  | nil => exact keeps_nil fun _ h => h
  | cons call calls ih =>
      have hcall := hcalls call (by simp) usb
      have hrest := fun c hc => hcalls c (List.mem_cons_of_mem call hc)
      intro es hes hopen
      simp only [MidiUsbOutput.run, List.mem_append, not_or] at hopen ⊢
      rw [← List.append_assoc]
      exact ih hrest _ (hcall es hes hopen.1) hopen.2

end Keeps

end Audiox.Midi
