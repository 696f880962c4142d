import Audiox.Midi.UsbOutput
import Audiox.Support.Runs
import Mathlib

/-!
# The protocol of the reports

Reports are written in the order in which they are requested, and every key
that goes down is released: by itself, or at the latest in front of a key of
the other report id.
-/

namespace Audiox.Midi

open ByteCodec Runs Scripting

/-! ## What is seen at the host -/

/-- No key is down in the report. -/
def Report.zero (report : Report) : Bool :=
  report.payload.all (· = 0)

namespace UsbEvent

/-- A report of the id is written. -/
def writes (media : Bool) : UsbEvent → Bool
  | .reported report => report.media = media
  | .released media' => media' = media
  | _ => false

/-- A report is written in which a key is down. -/
def presses : UsbEvent → Bool
  | .reported report => !report.zero
  | _ => false

/-- A report of the id is written, or one of the other id with a key down. -/
def touches (media : Bool) (e : UsbEvent) : Bool :=
  e.writes media || e.presses

end UsbEvent

/-- The requests that are waiting. -/
def waiting (events : List UsbEvent) : List Report :=
  events.foldl
    (fun queue e =>
      match e with
      | .requested report => queue ++ [report]
      | .cancelled => []
      | .reported _ => queue.tail
      | _ => queue) []

/-- What is required of the reports that are written. -/
structure ReportsInOrder (events : List UsbEvent) : Prop where
  /-- A request is written when it is the oldest one that is waiting. -/
  order : ∀ es report rest, events = es ++ .reported report :: rest →
    (waiting es).head? = some report
  /-- A report that is not held is released by the next one of its id, and
  before a key of the other id goes down. -/
  released : ∀ es report mid e rest,
    events = es ++ .reported report :: (mid ++ e :: rest) →
    report.zero = false → report.hold = false →
    (∀ m ∈ mid, m.touches report.media = false) →
    e.touches report.media = true → e = .released report.media
  /-- A held report is replaced by one of the same id, or it is released after
  a cancel or in front of a report of the other id. -/
  held : ∀ es report mid e rest,
    events = es ++ .reported report :: (mid ++ e :: rest) →
    report.zero = false → report.hold = true →
    (∀ m ∈ mid, m.touches report.media = false) →
    e.touches report.media = true →
    (∃ next, e = .reported next ∧ next.media = report.media) ∨
      e = .released report.media ∧ (.cancelled ∈ mid ∨
        ∃ next, (waiting (es ++ .reported report :: mid)).head? = some next ∧
          next.media ≠ report.media)

/-- The last report of each id has no key down, unless the last one that has
is held. -/
def Settled (events : List UsbEvent) : Prop :=
  (∀ media, ∀ e ∈ events.reverse.find? (UsbEvent.writes media),
    e.presses = false) ∨
  ∃ report, events.reverse.find? UsbEvent.presses = some (.reported report) ∧
    report.hold = true

/-! ## The report that is down -/

/-- The report that is down, and whether there has been a cancel since. -/
structure Down where
  report : Report
  cancelled : Bool

def Down.step (down : Option Down) : UsbEvent → Option Down
  | .reported report =>
      if report.zero then down.filter fun d => d.report.media ≠ report.media
      else some ⟨report, false⟩
  | .released media => down.filter fun d => d.report.media ≠ media
  | .cancelled => down.map fun d => { d with cancelled := true }
  | _ => down

def down (events : List UsbEvent) : Option Down :=
  events.foldl Down.step none

/-- The report that is written is allowed by what is down and what is
waiting. -/
def Allowed (down : Option Down) (queue : List Report) : UsbEvent → Prop
  | .reported report => queue.head? = some report ∧
      ∀ d ∈ down, d.report.hold = true ∧ d.report.media = report.media
  | .released media => ∀ d ∈ down, d.report.media = media →
      d.report.hold = false ∨ d.cancelled = true ∨
        ∃ next, queue.head? = some next ∧ next.media ≠ media
  | _ => True

/-- Every report has been allowed. -/
def Lawful (events : List UsbEvent) : Prop :=
  ∀ es e rest, events = es ++ e :: rest → Allowed (down es) (waiting es) e

section Log

variable {es rest mid : List UsbEvent} {e : UsbEvent} {report : Report}

theorem down_concat (es : List UsbEvent) (e : UsbEvent) :
    down (es ++ [e]) = Down.step (down es) e := by
  rw [down, List.foldl_append]
  rfl

theorem Lawful.front (h : Lawful (es ++ rest)) : Lawful es := by
  intro es' e rest' heq
  refine h es' e (rest' ++ rest) ?_
  rw [heq, List.append_assoc, List.cons_append]

theorem Lawful.concat (h : Lawful es)
    (he : Allowed (down es) (waiting es) e) : Lawful (es ++ [e]) := by
  intro es' e' rest' heq
  rcases eq_concat_cases heq with ⟨rest'', -, heq⟩ | ⟨-, rfl, rfl⟩
  · exact h es' e' rest'' heq
  · exact he

/-- A report stays down until its id is written, or a key of the other id goes
down. -/
theorem down_of_untouched (es : List UsbEvent) (hreport : report.zero = false)
    (hmid : ∀ m ∈ mid, m.touches report.media = false) :
    ∃ cancelled, down (es ++ .reported report :: mid) =
        some ⟨report, cancelled⟩ ∧
      (cancelled = true ↔ .cancelled ∈ mid) := by
  induction mid using List.reverseRecOn with
  | nil =>
      refine ⟨false, ?_, by simp⟩
      rw [down_concat, Down.step, hreport]
      rfl
  | append_singleton mid e ih =>
      obtain ⟨cancelled, hdown, hcancelled⟩ :=
        ih fun m hm => hmid m (List.mem_append_left _ hm)
      have huntouched := hmid e (by simp)
      rw [← List.cons_append, ← List.append_assoc, down_concat, hdown]
      simp only [UsbEvent.touches, Bool.or_eq_false_iff] at huntouched
      obtain ⟨hwrites, hpresses⟩ := huntouched
      cases e with
      | reported next =>
          have hzero : next.zero = true := by
            simpa [UsbEvent.presses] using hpresses
          have hmedia : next.media ≠ report.media := by
            simpa [UsbEvent.writes] using hwrites
          refine ⟨cancelled, ?_, by simpa using hcancelled⟩
          simp [Down.step, hzero, Ne.symm hmedia]
      | released media =>
          have hmedia : media ≠ report.media := by
            simpa [UsbEvent.writes] using hwrites
          refine ⟨cancelled, ?_, by simpa using hcancelled⟩
          simp [Down.step, Ne.symm hmedia]
      | cancelled => exact ⟨true, by simp [Down.step], by simp⟩
      | requested next => exact ⟨cancelled, rfl, by simpa using hcancelled⟩
      | handled message mapped queued =>
          exact ⟨cancelled, rfl, by simpa using hcancelled⟩
      | sent bytes => exact ⟨cancelled, rfl, by simpa using hcancelled⟩
      | closed => exact ⟨cancelled, rfl, by simpa using hcancelled⟩

theorem touches_cases {media : Bool} (h : e.touches media = true) :
    (∃ next, e = .reported next) ∨ e = .released media := by
  cases e with
  | reported next => exact .inl ⟨next, rfl⟩
  | released media' =>
      have hmedia : media' = media := by
        simpa [UsbEvent.touches, UsbEvent.writes, UsbEvent.presses] using h
      exact .inr (by rw [hmedia])
  | _ => simp [UsbEvent.touches, UsbEvent.writes, UsbEvent.presses] at h

theorem Lawful.inOrder (h : Lawful es) : ReportsInOrder es := by
  constructor
  · intro es' report rest heq
    exact (h es' _ rest heq).1
  · intro es' report mid e rest heq hreport hhold hmid he
    obtain ⟨cancelled, hdown, -⟩ := down_of_untouched es' hreport hmid
    have hallowed := h (es' ++ .reported report :: mid) e rest (by simpa using heq)
    rw [hdown] at hallowed
    rcases touches_cases he with ⟨next, rfl⟩ | rfl
    · have hheld := (hallowed.2 _ rfl).1
      rw [hhold] at hheld
      cases hheld
    · rfl
  · intro es' report mid e rest heq hreport hhold hmid he
    obtain ⟨cancelled, hdown, hcancelled⟩ :=
      down_of_untouched es' hreport hmid
    have hallowed := h (es' ++ .reported report :: mid) e rest (by simpa using heq)
    rw [hdown] at hallowed
    rcases touches_cases he with ⟨next, rfl⟩ | rfl
    · exact .inl ⟨next, rfl, ((hallowed.2 _ rfl).2).symm⟩
    · right
      refine ⟨rfl, ?_⟩
      rcases hallowed _ rfl rfl with hno | hyes | hswitch
      · rw [hhold] at hno
        cases hno
      · exact .inl (hcancelled.mp hyes)
      · exact .inr hswitch

/-- The last report of an id that is not down has no key down. -/
theorem last_not_presses (h : Lawful es) {media : Bool}
    (hup : ∀ d ∈ down es, d.report.media ≠ media) :
    ∀ e ∈ es.reverse.find? (UsbEvent.writes media), e.presses = false := by
  induction es using List.reverseRecOn with
  | nil => simp
  | append_singleton es last ih =>
      rw [List.reverse_concat, List.find?_cons]
      rw [down_concat] at hup
      cases hwrites : last.writes media with
      | true =>
          rintro _ ⟨⟩
          cases last with
          | reported report =>
              have hmedia : report.media = media := by
                simpa [UsbEvent.writes] using hwrites
              by_contra hpresses
              have hzero : report.zero = false := by
                simpa [UsbEvent.presses] using hpresses
              exact hup ⟨report, false⟩ (by simp [Down.step, hzero]) hmedia
          | _ => rfl
      | false =>
          refine ih h.front ?_
          intro d hd hmedia
          have hallowed := h es last [] rfl
          cases last with
          | reported report =>
              have hother : d.report.media ≠ report.media := by
                rw [hmedia]
                simpa [UsbEvent.writes, eq_comm] using hwrites
              exact hother (hallowed.2 d hd).2
          | released media' =>
              have hother : d.report.media ≠ media' := by
                rw [hmedia]
                simpa [UsbEvent.writes, eq_comm] using hwrites
              refine hup d ?_ hmedia
              rw [Down.step, Option.mem_def, Option.filter_eq_some_iff]
              exact ⟨hd, by simpa using hother⟩
          | cancelled =>
              refine hup { d with cancelled := true } ?_ hmedia
              rw [Down.step, Option.mem_def.mp hd]
              rfl
          | _ => exact hup d hd hmedia

theorem last_presses {d : Down} (h : down es = some d) :
    es.reverse.find? UsbEvent.presses = some (.reported d.report) := by
  induction es using List.reverseRecOn generalizing d with
  | nil => cases h
  | append_singleton es last ih =>
      rw [List.reverse_concat, List.find?_cons]
      rw [down_concat] at h
      cases last with
      | reported report =>
          cases hzero : report.zero with
          | true =>
              rw [Down.step, if_pos hzero, Option.filter_eq_some_iff] at h
              simpa [UsbEvent.presses, hzero] using ih h.1
          | false =>
              rw [Down.step, hzero] at h
              obtain rfl := Option.some.inj h
              simp [UsbEvent.presses, hzero]
      | released media =>
          rw [Down.step, Option.filter_eq_some_iff] at h
          exact ih h.1
      | cancelled =>
          rw [Down.step, Option.map_eq_some_iff] at h
          obtain ⟨d', hd', rfl⟩ := h
          have hbefore := ih hd'
          exact hbefore
      | _ => exact ih h

theorem Lawful.settled (h : Lawful es)
    (hheld : ∀ d ∈ down es, d.report.hold = true) : Settled es := by
  cases hdown : down es with
  | none =>
      left
      intro media
      exact last_not_presses h (by simp [hdown])
  | some d =>
      right
      exact ⟨d.report, last_presses hdown, hheld d hdown⟩

end Log

/-! ## The output and what it has written -/

/-- The second byte of a keyboard report is zero. -/
def Report.Proper (report : Report) : Prop :=
  report.media = false → report.payload[1]? = some 0

theorem Report.Proper.down_eq {report : Report} (h : report.Proper) :
    report.down = !report.zero := by
  have hnot : ∀ l : Bytes, (l.any fun c => decide (c ≠ 0)) =
      !l.all fun c => decide (c = 0) := by
    intro l
    induction l with
    | nil => rfl
    | cons c l ih =>
        rw [List.any_cons, List.all_cons, ih, Bool.not_and, decide_not]
  rw [Report.down, Report.zero]
  cases hmedia : report.media with
  | true => exact hnot _
  | false =>
      have hsecond := h hmedia
      match hpayload : report.payload with
      | [] => simp [hpayload] at hsecond
      | [c] => simp [hpayload] at hsecond
      | c :: d :: rest =>
          obtain rfl : d = 0 := by simpa [hpayload] using hsecond
          rw [if_neg Bool.false_ne_true, hnot]
          simp

/-- The device of an id is still to be released. -/
def MidiUsbOutput.needsRelease (usb : MidiUsbOutput) (media : Bool) : Bool :=
  if media then usb.mediaNeedsRelease else usb.keyboardNeedsRelease

/-- The state of the output agrees with what it has written; no poll has been
later than `time`. -/
structure Driving (time : Nat) (usb : MidiUsbOutput)
    (events : List UsbEvent) : Prop where
  lawful : Lawful events
  queue : usb.chords = waiting events
  length : usb.chords.length ≤ scriptsMax
  proper : ∀ report ∈ usb.chords, report.Proper
  enabled : usb.chords ≠ [] → usb.keyboardEnabled = true
  up : usb.keyDown = (down events).isSome
  current : ∀ d ∈ down events, usb.currentMedia = d.report.media ∧
    usb.keyHeld = (d.report.hold && !d.cancelled)
  device : ∀ d ∈ down events, usb.keyboardEnabled = true ∧
    usb.reportOpen d.report.media = true ∧
    usb.needsRelease d.report.media = false
  timer : usb.keyDown = true → usb.releaseMs ≤ time + releaseDelayMs

/-- An output whose devices have been closed, and perhaps opened again. -/
structure Fresh (usb : MidiUsbOutput) : Prop where
  queue : usb.chords = []
  up : usb.keyDown = false

theorem Fresh.driving {usb : MidiUsbOutput} (h : Fresh usb) (time : Nat) :
    Driving time usb [] := by
  constructor
  · intro es e rest heq
    simp at heq
  · rw [h.queue]
    rfl
  · simp [h.queue]
  · simp [h.queue]
  · simp [h.queue]
  · rw [h.up]
    rfl
  · simp [down]
  · simp [down]
  · simp [h.up]

/-- The outputs differ in nothing that has to do with reports. -/
structure SameReports (usb usb' : MidiUsbOutput) : Prop where
  chords : usb'.chords = usb.chords
  keyDown : usb'.keyDown = usb.keyDown
  keyHeld : usb'.keyHeld = usb.keyHeld
  currentMedia : usb'.currentMedia = usb.currentMedia
  releaseMs : usb'.releaseMs = usb.releaseMs
  keyboardEnabled : usb'.keyboardEnabled = usb.keyboardEnabled
  /-- What is open and has been released stays so. -/
  device : ∀ media, usb.reportOpen media = true →
    usb.needsRelease media = false →
    usb'.reportOpen media = true ∧ usb'.needsRelease media = false

section Driving

variable {time : Nat} {usb usb' : MidiUsbOutput} {es : List UsbEvent}

theorem Driving.same (h : Driving time usb es) (hsame : SameReports usb usb') :
    Driving time usb' es := by
  constructor
  · exact h.lawful
  · rw [hsame.chords, h.queue]
  · rw [hsame.chords]
    exact h.length
  · rw [hsame.chords]
    exact h.proper
  · rw [hsame.chords, hsame.keyboardEnabled]
    exact h.enabled
  · rw [hsame.keyDown, h.up]
  · intro d hd
    rw [hsame.currentMedia, hsame.keyHeld]
    exact h.current d hd
  · intro d hd
    obtain ⟨henabled, hopen, hreleased⟩ := h.device d hd
    exact ⟨hsame.keyboardEnabled.trans henabled,
      hsame.device _ hopen hreleased⟩
  · rw [hsame.keyDown, hsame.releaseMs]
    exact h.timer

/-- An event that has nothing to do with reports. -/
def UsbEvent.beside : UsbEvent → Bool
  | .handled _ _ _ => true
  | .sent _ => true
  | _ => false

theorem waiting_concat (es : List UsbEvent) (e : UsbEvent) :
    waiting (es ++ [e]) = match e with
      | .requested report => waiting es ++ [report]
      | .cancelled => []
      | .reported _ => (waiting es).tail
      | _ => waiting es := by
  rw [waiting, List.foldl_append]
  cases e <;> rfl

theorem Driving.beside (h : Driving time usb es) {e : UsbEvent}
    (he : e.beside = true) : Driving time usb (es ++ [e]) := by
  have hqueue : waiting (es ++ [e]) = waiting es := by
    rw [waiting_concat]
    cases e <;> first | rfl | cases he
  have hdown : down (es ++ [e]) = down es := by
    rw [down_concat]
    cases e <;> first | rfl | cases he
  have hallowed : Allowed (down es) (waiting es) e := by
    cases e <;> trivial
  constructor
  · exact h.lawful.concat hallowed
  · rw [hqueue, h.queue]
  · exact h.length
  · exact h.proper
  · exact h.enabled
  · rw [hdown, h.up]
  · rw [hdown]
    exact h.current
  · rw [hdown]
    exact h.device
  · exact h.timer

theorem drives_same (hsame : SameReports usb usb') :
    Keeps (Driving time) usb (usb', []) :=
  keeps_nil fun _ h => h.same hsame

theorem drives_beside {e : UsbEvent} (hsame : SameReports usb usb')
    (he : e.beside = true) : Keeps (Driving time) usb (usb', [e]) :=
  fun _ h _ => (h.same hsame).beside he

theorem SameReports.refl (usb : MidiUsbOutput) : SameReports usb usb :=
  ⟨rfl, rfl, rfl, rfl, rfl, rfl, fun _ hopen hreleased => ⟨hopen, hreleased⟩⟩

/-! ### Requests -/

theorem Driving.requested (h : Driving time usb es) {report : Report}
    (hproper : report.Proper) (henabled : usb.keyboardEnabled = true)
    (hroom : usb.chords.length ≠ scriptsMax) :
    Driving time { usb with chords := usb.chords ++ [report] }
      (es ++ [.requested report]) := by
  have hdown : down (es ++ [.requested report]) = down es :=
    down_concat es _
  constructor
  · exact h.lawful.concat trivial
  · rw [waiting_concat, ← h.queue]
  · have hlength := h.length
    rw [List.length_append, List.length_singleton]
    omega
  · intro report' hmem
    rcases List.mem_append.mp hmem with hmem | hmem
    · exact h.proper report' hmem
    · rw [List.mem_singleton.mp hmem]
      exact hproper
  · exact fun _ => henabled
  · rw [hdown]
    exact h.up
  · rw [hdown]
    exact h.current
  · rw [hdown]
    exact h.device
  · exact h.timer

theorem drives_queueReport {report : Report} (hproper : report.Proper) :
    Keeps (Driving time) usb (usb.queueReport report) := by
  unfold MidiUsbOutput.queueReport
  split_ifs with hopen hroom
  · exact drives_same (.refl usb)
  · exact drives_same (.refl usb)
  · have henabled : usb.keyboardEnabled = true := by
      rw [not_or, not_not] at hopen
      exact hopen.1
    exact fun _ h _ => h.requested hproper henabled hroom

theorem proper_chordReport {keys report : Bytes} {allow hold : Bool}
    (h : scriptChordReport keys allow = some report) :
    (Report.mk false report hold).Proper := by
  intro _
  rw [scriptChordReport] at h
  split_ifs at h
  simp only [Option.bind_eq_bind, Option.bind_eq_some_iff] at h
  obtain ⟨chord, -, h⟩ := h
  split_ifs at h
  obtain rfl := Option.some.inj h
  simp [Chord.report]

theorem drives_press (keys : Bytes) :
    Keeps (Driving time) usb (usb.trigger keys) ∧
      Keeps (Driving time) usb (usb.press keys) := by
  have hmedia : ∀ payload hold, (Report.mk true payload hold).Proper := by
    rintro _ _ ⟨⟩
  unfold MidiUsbOutput.trigger MidiUsbOutput.press
  constructor
  · split_ifs
    · exact drives_queueReport (hmedia _ _)
    · split
      next => exact drives_same (.refl usb)
      next report hreport =>
        exact drives_queueReport (proper_chordReport hreport)
  · split_ifs
    · exact drives_queueReport (hmedia _ _)
    · split
      next => exact drives_same (.refl usb)
      next report hreport =>
        exact drives_queueReport (proper_chordReport hreport)

theorem drives_release : Keeps (Driving time) usb usb.release := by
  unfold MidiUsbOutput.release
  split_ifs
  · exact drives_queueReport (by rintro ⟨⟩)
  · exact drives_queueReport (by intro _; rfl)

theorem Driving.cancelled (h : Driving time usb es) :
    Driving time { usb with chords := [], keyHeld := false, releaseMs := 0 }
      (es ++ [.cancelled]) := by
  have hdown : down (es ++ [.cancelled]) =
      (down es).map fun d => { d with cancelled := true } :=
    down_concat es _
  constructor
  · exact h.lawful.concat trivial
  · rw [waiting_concat]
  · exact Nat.zero_le _
  · simp
  · simp
  · rw [hdown, Option.isSome_map]
    exact h.up
  · rw [hdown]
    intro d hd
    obtain ⟨d', hd', rfl⟩ := Option.map_eq_some_iff.mp hd
    exact ⟨(h.current d' hd').1, by simp⟩
  · rw [hdown]
    intro d hd
    obtain ⟨d', hd', rfl⟩ := Option.map_eq_some_iff.mp hd
    exact h.device d' hd'
  · exact fun _ => Nat.zero_le _

theorem drives_cancel : Keeps (Driving time) usb usb.cancelChords :=
  fun _ h _ => h.cancelled

/-! ### Messages -/

theorem sameReports_recordNote (usb : MidiUsbOutput) (message : Message)
    (pass : Bool) (pending : Bytes) :
    SameReports usb { usb.recordNote message pass with pending } := by
  unfold MidiUsbOutput.recordNote
  split <;>
    exact ⟨rfl, rfl, rfl, rfl, rfl, rfl,
      fun _ hopen hreleased => ⟨hopen, hreleased⟩⟩

theorem drives_forward (message : Message) (mapped : Bool) :
    Keeps (Driving time) usb (usb.forward message mapped) := by
  unfold MidiUsbOutput.forward
  split_ifs
  · exact drives_same (.refl usb)
  · unfold MidiUsbOutput.queueMessage
    split_ifs
    · exact keeps_closed (by simp)
    · exact drives_beside (sameReports_recordNote usb message true _) rfl
  · exact drives_beside (sameReports_recordNote usb message false _) rfl

/-! ### Polls -/

theorem SameReports.trans {usb'' : MidiUsbOutput} (h : SameReports usb usb')
    (h' : SameReports usb' usb'') : SameReports usb usb'' := by
  constructor
  · rw [h'.chords, h.chords]
  · rw [h'.keyDown, h.keyDown]
  · rw [h'.keyHeld, h.keyHeld]
  · rw [h'.currentMedia, h.currentMedia]
  · rw [h'.releaseMs, h.releaseMs]
  · rw [h'.keyboardEnabled, h.keyboardEnabled]
  · intro media hopen hreleased
    obtain ⟨hopen', hreleased'⟩ := h.device media hopen hreleased
    exact h'.device media hopen' hreleased'

/-- Only a device that was closed is to be released after it is opened. -/
theorem sameReports_openDevices (host : UsbHost) (usb : MidiUsbOutput) :
    SameReports usb (usb.openDevices host) := by
  have hmidi : SameReports usb (usb.openMidi host) := by
    obtain ⟨isOpen, heq⟩ := usb.openMidi_eq host
    rw [heq]
    exact ⟨rfl, rfl, rfl, rfl, rfl, rfl,
      fun _ hopen hreleased => ⟨hopen, hreleased⟩⟩
  have hkeyboard : ∀ usb : MidiUsbOutput,
      SameReports usb (usb.openKeyboard host) := by
    intro usb
    rcases usb.openKeyboard_cases host with heq | ⟨hclosed, heq⟩
    · rw [heq]
      exact .refl usb
    · rw [heq]
      refine ⟨rfl, rfl, rfl, rfl, rfl, rfl, ?_⟩
      intro media hopen hreleased
      cases media with
      | true => exact ⟨hopen, hreleased⟩
      | false =>
          rw [MidiUsbOutput.reportOpen, if_neg Bool.false_ne_true, hclosed] at hopen
          cases hopen
  have hmedia : ∀ usb : MidiUsbOutput,
      SameReports usb (usb.openMedia host) := by
    intro usb
    rcases usb.openMedia_cases host with heq | ⟨hclosed, heq⟩
    · rw [heq]
      exact .refl usb
    · rw [heq]
      refine ⟨rfl, rfl, rfl, rfl, rfl, rfl, ?_⟩
      intro media hopen hreleased
      cases media with
      | true =>
          rw [MidiUsbOutput.reportOpen, if_pos rfl, hclosed] at hopen
          cases hopen
      | false => exact ⟨hopen, hreleased⟩
  exact (hmidi.trans (hkeyboard _)).trans (hmedia _)

theorem sameReports_scheduleProbe (now : Nat) (usb : MidiUsbOutput) :
    SameReports usb (usb.scheduleProbe now) :=
  ⟨rfl, rfl, rfl, rfl, rfl, rfl,
    fun _ hopen hreleased => ⟨hopen, hreleased⟩⟩

/-- A device that has just been opened has no key down. -/
theorem Driving.opened (h : Driving time usb es) {media : Bool}
    (hneeds : usb.needsRelease media = true) (hsame : SameReports usb usb') :
    Driving time usb' (es ++ [.released media]) := by
  have hother : ∀ d ∈ down es, d.report.media ≠ media := by
    rintro d hd rfl
    rw [(h.device d hd).2.2] at hneeds
    cases hneeds
  have hdown : down (es ++ [.released media]) = down es := by
    rw [down_concat, Down.step]
    cases hdown : down es with
    | none => rfl
    | some d => simp [hother d hdown]
  have hnext := h.same hsame
  constructor
  · refine h.lawful.concat ?_
    intro d hd hmedia
    exact absurd hmedia (hother d hd)
  · rw [waiting_concat]
    exact hnext.queue
  · exact hnext.length
  · exact hnext.proper
  · exact hnext.enabled
  · rw [hdown]
    exact hnext.up
  · rw [hdown]
    exact hnext.current
  · rw [hdown]
    exact hnext.device
  · exact hnext.timer

/-- Every open device has been released. -/
def Ready (usb : MidiUsbOutput) : Prop :=
  ∀ media, usb.reportOpen media = true → usb.needsRelease media = false

theorem Driving.released (h : Driving time usb es)
    (hdown : usb.keyDown = true)
    (hdue : usb.keyHeld = false ∨ usb.switching = true) :
    Driving time { usb with keyDown := false, keyHeld := false }
      (es ++ [.released usb.currentMedia]) := by
  have hcurrent : ∀ d ∈ down es, d.report.media = usb.currentMedia :=
    fun d hd => ((h.current d hd).1).symm
  have hnone : down (es ++ [.released usb.currentMedia]) = none := by
    rw [down_concat, Down.step, Option.filter_eq_none_iff]
    intro d hd
    simpa using hcurrent d hd
  constructor
  · refine h.lawful.concat ?_
    intro d hd _
    rcases hdue with hheld | hswitch
    · rw [(h.current d hd).2, Bool.and_eq_false_iff] at hheld
      rcases hheld with hhold | hcancelled
      · exact .inl hhold
      · exact .inr (.inl (by simpa using hcancelled))
    · right
      right
      rw [MidiUsbOutput.switching, hdown, Bool.true_and, h.queue] at hswitch
      rw [Option.any_eq_true] at hswitch
      obtain ⟨next, hnext, hother⟩ := hswitch
      exact ⟨next, hnext, by simpa using hother⟩
  · rw [waiting_concat]
    exact h.queue
  · exact h.length
  · exact h.proper
  · exact h.enabled
  · rw [hnone]
    rfl
  · rw [hnone]
    simp
  · rw [hnone]
    simp
  · rintro ⟨⟩

theorem clock_le (t : Nat) : clock t ≤ t := by
  unfold clock
  exact Nat.mod_le _ _

theorem Driving.reported (h : Driving time usb es) {report : Report}
    {now : Nat} (hnow : now ≤ time)
    (hhead : usb.chords.head? = some report)
    (hfree : usb.keyDown = true →
      usb.keyHeld = true ∧ report.media = usb.currentMedia)
    (hready : usb.needsRelease report.media = false)
    (hopen : usb.reportOpen report.media = true) :
    Driving time (usb.reportWritten now (.queued report))
      (es ++ [.reported report]) := by
  have hmem : report ∈ usb.chords := List.mem_of_head? hhead
  have hkeys := (h.proper report hmem).down_eq
  have hfree' : ∀ d ∈ down es,
      d.report.hold = true ∧ d.report.media = report.media := by
    intro d hd
    obtain ⟨hcurrent, hheld⟩ := h.current d hd
    have hup : usb.keyDown = true := by
      rw [h.up, Option.mem_def.mp hd]
      rfl
    obtain ⟨hyes, hmedia⟩ := hfree hup
    rw [hyes] at hheld
    have hboth := hheld.symm
    rw [Bool.and_eq_true] at hboth
    exact ⟨hboth.1, by rw [hmedia, hcurrent]⟩
  have hdown : down (es ++ [.reported report]) =
      if report.zero then none else some ⟨report, false⟩ := by
    rw [down_concat, Down.step]
    split_ifs
    · rw [Option.filter_eq_none_iff]
      intro d hd
      simpa using (hfree' d hd).2
    · rfl
  constructor
  · refine h.lawful.concat ⟨?_, hfree'⟩
    rw [← h.queue]
    exact hhead
  · rw [waiting_concat, ← h.queue]
    rfl
  · have hlength := h.length
    have htail : usb.chords.tail.length ≤ usb.chords.length := by
      rw [List.length_tail]
      omega
    exact htail.trans hlength
  · exact fun r hr => h.proper r (List.mem_of_mem_tail hr)
  · intro _
    exact h.enabled (List.ne_nil_of_mem hmem)
  · rw [hdown, MidiUsbOutput.reportWritten]
    simp only [hkeys]
    cases report.zero <;> rfl
  · rw [hdown]
    intro d hd
    split_ifs at hd with hzero
    · cases hd
    · obtain rfl := Option.some.inj hd
      rw [Bool.not_eq_true] at hzero
      exact ⟨rfl, by simp [MidiUsbOutput.reportWritten, hkeys, hzero]⟩
  · rw [hdown]
    intro d hd
    split_ifs at hd
    · cases hd
    · obtain rfl := Option.some.inj hd
      exact ⟨h.enabled (List.ne_nil_of_mem hmem), hopen, hready⟩
  · intro _
    have hclock := clock_le (now + releaseDelayMs)
    exact hclock.trans (Nat.add_le_add_right hnow _)

/-- What is due, and why. -/
theorem dueReport_cases {now : Nat} {due : MidiUsbOutput.Due}
    (h : usb.dueReport now = some due) :
    (due = .release usb.currentMedia ∧ usb.keyDown = true ∧
      (usb.keyHeld = false ∨ usb.switching = true)) ∨
    ∃ report, due = .queued report ∧ usb.chords.head? = some report ∧
      (usb.keyDown = true →
        usb.keyHeld = true ∧ report.media = usb.currentMedia) := by
  rw [MidiUsbOutput.dueReport] at h
  split_ifs at h with hwait hrelease
  · left
    obtain rfl := Option.some.inj h
    exact ⟨rfl, hrelease.1, by simpa using hrelease.2⟩
  · right
    obtain ⟨report, hhead, rfl⟩ := Option.map_eq_some_iff.mp h
    refine ⟨report, rfl, hhead, ?_⟩
    intro hdown
    have hkept : ¬(¬usb.keyHeld = true ∨ usb.switching = true) :=
      fun hno => hrelease ⟨hdown, hno⟩
    rw [not_or, not_not] at hkept
    refine ⟨hkept.1, ?_⟩
    have hswitch := hkept.2
    rw [MidiUsbOutput.switching, hdown, hhead] at hswitch
    simpa using hswitch

/-! ### A whole poll -/

/-- No write is to be tried again. -/
structure UsbHost.Works (host : UsbHost) : Prop where
  keyboard : host.writeKeyboardRelease ≠ .again
  media : host.writeMediaRelease ≠ .again
  report : host.writeReport ≠ .again

/-- In the course of a poll.  If it is `quiet`, nothing is waiting, and if it
is `late`, the report that is down is due to be released. -/
structure Polling (quiet late : Prop) (time now : Nat) (usb : MidiUsbOutput)
    (events : List UsbEvent) : Prop where
  driving : Driving time usb events
  inTime : quiet ∨ now ≤ time
  queue : quiet → usb.chords = []
  due : late → usb.keyDown = true → usb.releaseMs ≤ now

/-- Behind a poll.  If it was `late`, only a held report stays down. -/
structure Polled (quiet late : Prop) (time : Nat) (usb : MidiUsbOutput)
    (events : List UsbEvent) : Prop where
  driving : Driving time usb events
  queue : quiet → usb.chords = []
  settled : quiet → late → usb.keyDown = true → usb.keyHeld = true

variable {quiet late : Prop} {now : Nat} {host : UsbHost}

theorem Polling.next (h : Polling quiet late time now usb es) {es' : List UsbEvent}
    (hsame : SameReports usb usb') (hdriving : Driving time usb' es') :
    Polling quiet late time now usb' es' := by
  refine ⟨hdriving, h.inTime, ?_, ?_⟩
  · rw [hsame.chords]
    exact h.queue
  · rw [hsame.keyDown, hsame.releaseMs]
    exact h.due

theorem Polling.same (h : Polling quiet late time now usb es)
    (hsame : SameReports usb usb') : Polling quiet late time now usb' es :=
  h.next hsame (h.driving.same hsame)

theorem sat_next {N S : MidiUsbOutput → List UsbEvent → Prop}
    (h : N usb es) : (Stage.next usb []).Sat es N S := by
  right
  rwa [List.append_nil]

theorem sat_stop {N S : MidiUsbOutput → List UsbEvent → Prop}
    (h : S usb es) : (Stage.stop usb []).Sat es N S := by
  right
  rwa [List.append_nil]

theorem sat_close {N S : MidiUsbOutput → List UsbEvent → Prop} :
    (Stage.close usb).Sat es N S :=
  .inl (by simp)

theorem Polling.configure (h : Polling quiet late time now usb es)
    (passthrough : UInt8) (keyboard : Bool) :
    (usb.configure passthrough keyboard).Sat es (Polling quiet late time now)
      (Polled quiet late time) := by
  unfold MidiUsbOutput.configure
  split_ifs with hchanged hoff hoff
  · exact .inl (by simp)
  · exact .inl (by simp)
  · refine sat_stop ⟨h.driving, h.queue, ?_⟩
    intro _ _ hdown
    rw [h.driving.up, Option.isSome_iff_exists] at hdown
    obtain ⟨d, hd⟩ := hdown
    exact absurd (h.driving.device d hd).1 hoff.2
  · exact sat_next h

theorem Polling.probe (h : Polling quiet late time now usb es) (host : UsbHost) :
    (usb.probe host now).Sat es (Polling quiet late time now)
      (Polled quiet late time) := by
  have hschedule := sameReports_scheduleProbe now usb
  unfold MidiUsbOutput.probe
  split_ifs with hwait hconfigured hopen
  · exact sat_next h
  · exact sat_next
      (h.same (hschedule.trans (sameReports_openDevices host _)))
  · exact sat_close
  · refine sat_stop ⟨h.driving.same hschedule, h.queue, ?_⟩
    intro _ _ hdown
    rw [hschedule.keyDown, h.driving.up, Option.isSome_iff_exists] at hdown
    obtain ⟨d, hd⟩ := hdown
    have hdevice := (h.driving.device d hd).2.1
    rw [not_or, not_or] at hopen
    rw [MidiUsbOutput.reportOpen] at hdevice
    split_ifs at hdevice
    · exact absurd hdevice hopen.2.2
    · exact absurd hdevice hopen.2.1

theorem Polling.releaseKeyboard (h : Polling quiet late time now usb es)
    (hworks : late → host.Works) :
    (usb.releaseKeyboard host).Sat es
      (fun usb es => Polling quiet late time now usb es ∧
        (usb.keyboardOpen = true → usb.keyboardNeedsRelease = false))
      (Polled quiet late time) := by
  unfold MidiUsbOutput.releaseKeyboard
  split_ifs with hneeds
  · split
    next hagain =>
      refine sat_stop ⟨h.driving, h.queue, ?_⟩
      exact fun _ hlate => absurd hagain (hworks hlate).keyboard
    next =>
      have hsame : SameReports usb
          { usb with keyboardNeedsRelease := false } := by
        refine ⟨rfl, rfl, rfl, rfl, rfl, rfl, ?_⟩
        intro media hopen hreleased
        cases media with
        | true => exact ⟨hopen, hreleased⟩
        | false => exact ⟨hopen, rfl⟩
      exact .inr ⟨h.next hsame (h.driving.opened hneeds.2 hsame), fun _ => rfl⟩
    next => exact sat_close
  · refine sat_next ⟨h, ?_⟩
    intro hopen
    rw [not_and, Bool.not_eq_true] at hneeds
    exact hneeds hopen

theorem Polling.releaseMedia (h : Polling quiet late time now usb es)
    (hkeyboard : usb.keyboardOpen = true → usb.keyboardNeedsRelease = false)
    (hworks : late → host.Works) :
    (usb.releaseMedia host).Sat es
      (fun usb es => Polling quiet late time now usb es ∧ Ready usb)
      (Polled quiet late time) := by
  unfold MidiUsbOutput.releaseMedia
  split_ifs with hneeds
  · split
    next hagain =>
      refine sat_stop ⟨h.driving, h.queue, ?_⟩
      exact fun _ hlate => absurd hagain (hworks hlate).media
    next =>
      have hsame : SameReports usb { usb with mediaNeedsRelease := false } := by
        refine ⟨rfl, rfl, rfl, rfl, rfl, rfl, ?_⟩
        intro media hopen hreleased
        cases media with
        | true => exact ⟨hopen, rfl⟩
        | false => exact ⟨hopen, hreleased⟩
      refine .inr ⟨h.next hsame (h.driving.opened hneeds.2 hsame), ?_⟩
      intro media hopen
      cases media with
      | true => rfl
      | false => exact hkeyboard hopen
    next => exact sat_close
  · refine sat_next ⟨h, ?_⟩
    intro media hopen
    rw [not_and, Bool.not_eq_true] at hneeds
    cases media with
    | true => exact hneeds hopen
    | false => exact hkeyboard hopen

theorem Polling.writePending (h : Polling quiet late time now usb es)
    (host : UsbHost) (hready : Ready usb) :
    (usb.writePending host).Sat es
      (fun usb es => Polling quiet late time now usb es ∧ Ready usb)
      (Polled quiet late time) := by
  unfold MidiUsbOutput.writePending
  split_ifs
  · split
    next => exact sat_next ⟨h, hready⟩
    next n _ =>
      have hsame : SameReports usb
          { usb with pending := usb.pending.drop (n + 1) } :=
        ⟨rfl, rfl, rfl, rfl, rfl, rfl,
          fun _ hopen hreleased => ⟨hopen, hreleased⟩⟩
      have hdriving := h.driving.same hsame
      exact .inr ⟨h.next hsame (hdriving.beside rfl), hready⟩
    next => exact .inl (by simp)
  · exact sat_next ⟨h, hready⟩

theorem Polling.writeReport (h : Polling quiet late time now usb es)
    (hready : Ready usb) (hworks : late → host.Works) :
    (usb.writeReport host now).Sat es (Polled quiet late time)
      (Polled quiet late time) := by
  unfold MidiUsbOutput.writeReport
  split
  next hdue =>
    refine sat_stop ⟨h.driving, h.queue, ?_⟩
    intro _ hlate hdown
    by_contra hheld
    have hover : ¬now < usb.releaseMs := not_lt.mpr (h.due hlate hdown)
    rw [MidiUsbOutput.dueReport, if_neg (fun hwait => hover hwait.2.2),
      if_pos ⟨hdown, .inl hheld⟩] at hdue
    cases hdue
  next due hdue =>
    unfold MidiUsbOutput.writeDue
    split_ifs with hopen
    · split
      next hagain =>
        refine sat_stop ⟨h.driving, h.queue, ?_⟩
        exact fun _ hlate => absurd hagain (hworks hlate).report
      next n _ =>
        split_ifs
        · right
          rcases dueReport_cases hdue with ⟨rfl, hdown, hwhy⟩ |
            ⟨report, rfl, hhead, hfree⟩
          · refine ⟨h.driving.released hdown hwhy, h.queue, ?_⟩
            rintro _ _ ⟨⟩
          · have hbusy : ¬quiet := by
              intro hquiet
              rw [h.queue hquiet] at hhead
              cases hhead
            have hnow := h.inTime.resolve_left hbusy
            have hdriving :=
              h.driving.reported hnow hhead hfree (hready _ hopen) hopen
            exact ⟨hdriving, fun hquiet => absurd hquiet hbusy,
              fun hquiet => absurd hquiet hbusy⟩
        · exact sat_close
      next => exact sat_close
    · exact sat_close

/-- A poll keeps the state and what is written in agreement. -/
theorem Polling.poll (h : Polling quiet late time now usb es)
    (hworks : late → host.Works) {passthrough : UInt8} {keyboard : Bool}
    (hopen : .closed ∉ (usb.poll host now passthrough keyboard).2) :
    Polled quiet late time (usb.poll host now passthrough keyboard).1
      (es ++ (usb.poll host now passthrough keyboard).2) := by
  have hconfigure := h.configure passthrough keyboard
  have hprobe := hconfigure.bind fun _ _ h =>
    h.probe host
  have hkeyboard := hprobe.bind fun _ _ h => h.releaseKeyboard hworks
  have hmedia := hkeyboard.bind fun _ _ h => h.1.releaseMedia h.2 hworks
  have hpending := hmedia.bind fun _ _ h => h.1.writePending host h.2
  have hreport := hpending.bind fun _ _ h =>
    h.1.writeReport h.2 hworks
  exact hreport.effect hopen

/-! ### Runs -/

/-- The call does not poll later than `time`. -/
def UsbCall.By (time : Nat) : UsbCall → Prop
  | .poll _ now _ _ => now ≤ time
  | _ => True

def UsbCall.isPoll : UsbCall → Bool
  | .poll _ _ _ _ => true
  | _ => false

theorem exists_by (calls : List UsbCall) :
    ∃ time, ∀ call ∈ calls, call.By time := by
  induction calls with
  | nil => exact ⟨0, by simp⟩
  | cons call calls ih =>
      obtain ⟨time, htime⟩ := ih
      have hlater : ∀ c ∈ calls, ∀ now, c.By (max now time) := by
        intro c hc now
        have hby := htime c hc
        cases c with
        | poll host now' passthrough keyboard => exact le_max_of_le_right hby
        | _ => trivial
      cases call with
      | poll host now passthrough keyboard =>
          refine ⟨max now time, ?_⟩
          intro c hc
          rcases List.mem_cons.mp hc with rfl | hc
          · exact le_max_left now time
          · exact hlater c hc now
      | _ =>
          refine ⟨max 0 time, ?_⟩
          intro c hc
          rcases List.mem_cons.mp hc with rfl | hc
          · trivial
          · exact hlater c hc 0

theorem drives_apply {call : UsbCall} (hby : call.By time) :
    Keeps (Driving time) usb (call.apply usb) := by
  cases call with
  | forward message mapped => exact drives_forward message mapped
  | trigger keys => exact (drives_press keys).1
  | press keys => exact (drives_press keys).2
  | release => exact drives_release
  | cancelChords => exact drives_cancel
  | poll host now passthrough keyboard =>
      intro es h hopen
      have hpolling : Polling False False time now usb es :=
        ⟨h, .inr hby, False.elim, False.elim⟩
      exact (hpolling.poll False.elim hopen).driving

theorem drives_run {calls : List UsbCall}
    (hby : ∀ call ∈ calls, call.By time) :
    Keeps (Driving time) usb (usb.run calls) :=
  keeps_run fun call hcall _ => drives_apply (hby call hcall)

/-- Polls write nothing new when nothing is waiting, at whatever time. -/
theorem quiet_run {polls : List UsbCall} (hpolls : ∀ c ∈ polls, c.isPoll) :
    Keeps (fun usb es => Driving time usb es ∧ usb.chords = []) usb
      (usb.run polls) := by
  refine keeps_run ?_
  intro call hcall usb es h hopen
  cases call with
  | poll host now passthrough keyboard =>
      have hpolling : Polling True False time now usb es :=
        ⟨h.1, .inl trivial, fun _ => h.2, False.elim⟩
      have hpolled := hpolling.poll False.elim hopen
      exact ⟨hpolled.driving, hpolled.queue trivial⟩
  | _ => cases hpolls _ hcall

theorem Polled.end_settled (h : Polled quiet late time usb es) (hquiet : quiet)
    (hlate : late) : Settled es := by
  refine h.driving.lawful.settled ?_
  intro d hd
  have hdown : usb.keyDown = true := by
    rw [h.driving.up, Option.mem_def.mp hd]
    rfl
  have hheld := h.settled hquiet hlate hdown
  rw [(h.driving.current d hd).2, Bool.and_eq_true] at hheld
  exact hheld.1

end Driving

/-! ## Closing -/

/-- The output is fresh behind a part of a poll that closes the devices, and
stays so. -/
def Stage.Tidy (usb : MidiUsbOutput) (stage : Stage) : Prop :=
  Fresh usb ∨ .closed ∈ stage.effect.2 → Fresh stage.effect.1

section Closing

variable {usb usb' : MidiUsbOutput}

theorem Stage.Tidy.bind {stage : Stage} {f : MidiUsbOutput → Stage}
    (h : stage.Tidy usb) (hf : ∀ usb, (f usb).Tidy usb) :
    (stage.bind f).Tidy usb := by
  cases stage with
  | stop usb' events => exact h
  | next usb' events =>
      have hnext := hf usb'
      rw [Stage.bind]
      cases hstage : f usb' with
      | next usb'' events' =>
          rw [hstage] at hnext
          rintro (hfresh | hclosed)
          · exact hnext (.inl (h (.inl hfresh)))
          · rcases List.mem_append.mp hclosed with hclosed | hclosed
            · exact hnext (.inl (h (.inr hclosed)))
            · exact hnext (.inr hclosed)
      | stop usb'' events' =>
          rw [hstage] at hnext
          rintro (hfresh | hclosed)
          · exact hnext (.inl (h (.inl hfresh)))
          · rcases List.mem_append.mp hclosed with hclosed | hclosed
            · exact hnext (.inl (h (.inr hclosed)))
            · exact hnext (.inr hclosed)

theorem tidy_of_kept {stage : Stage} (hopen : .closed ∉ stage.effect.2)
    (hchords : stage.effect.1.chords = usb.chords)
    (hdown : stage.effect.1.keyDown = usb.keyDown) : stage.Tidy usb := by
  rintro (hfresh | hclosed)
  · exact ⟨hchords.trans hfresh.queue, hdown.trans hfresh.up⟩
  · exact absurd hclosed hopen

theorem tidy_of_fresh {stage : Stage} (h : Fresh stage.effect.1) :
    stage.Tidy usb :=
  fun _ => h

theorem tidy_close : (Stage.close usb').Tidy usb :=
  tidy_of_fresh ⟨rfl, rfl⟩

theorem tidy_configure (usb : MidiUsbOutput) (passthrough : UInt8)
    (keyboard : Bool) :
    (usb.configure passthrough keyboard).Tidy usb := by
  unfold MidiUsbOutput.configure
  split_ifs
  · exact tidy_of_fresh ⟨rfl, rfl⟩
  · exact tidy_of_fresh ⟨rfl, rfl⟩
  · exact tidy_of_kept (by simp [Stage.effect]) rfl rfl
  · exact tidy_of_kept (by simp [Stage.effect]) rfl rfl

theorem tidy_probe (host : UsbHost) (now : Nat) :
    (usb.probe host now).Tidy usb := by
  unfold MidiUsbOutput.probe
  have hsame := (sameReports_scheduleProbe now usb).trans
    (sameReports_openDevices host _)
  split_ifs
  · exact tidy_of_kept (by simp [Stage.effect]) rfl rfl
  · exact tidy_of_kept (by simp [Stage.effect]) hsame.chords hsame.keyDown
  · exact tidy_close
  · exact tidy_of_kept (by simp [Stage.effect]) rfl rfl

theorem tidy_releaseKeyboard (host : UsbHost) :
    (usb.releaseKeyboard host).Tidy usb := by
  unfold MidiUsbOutput.releaseKeyboard
  split_ifs
  · split
    · exact tidy_of_kept (by simp [Stage.effect]) rfl rfl
    · exact tidy_of_kept (by simp [Stage.effect]) rfl rfl
    · exact tidy_close
  · exact tidy_of_kept (by simp [Stage.effect]) rfl rfl

theorem tidy_releaseMedia (host : UsbHost) :
    (usb.releaseMedia host).Tidy usb := by
  unfold MidiUsbOutput.releaseMedia
  split_ifs
  · split
    · exact tidy_of_kept (by simp [Stage.effect]) rfl rfl
    · exact tidy_of_kept (by simp [Stage.effect]) rfl rfl
    · exact tidy_close
  · exact tidy_of_kept (by simp [Stage.effect]) rfl rfl

theorem tidy_writePending (host : UsbHost) :
    (usb.writePending host).Tidy usb := by
  unfold MidiUsbOutput.writePending
  split_ifs
  · split
    · exact tidy_of_kept (by simp [Stage.effect]) rfl rfl
    · exact tidy_of_kept (by simp [Stage.effect]) rfl rfl
    · exact tidy_of_fresh ⟨rfl, rfl⟩
  · exact tidy_of_kept (by simp [Stage.effect]) rfl rfl

/-- Nothing is due when the output is fresh. -/
theorem Fresh.dueReport (h : Fresh usb) (now : Nat) :
    usb.dueReport now = none := by
  simp [MidiUsbOutput.dueReport, h.queue, h.up]

theorem tidy_writeReport (host : UsbHost) (now : Nat) :
    (usb.writeReport host now).Tidy usb := by
  unfold MidiUsbOutput.writeReport
  split
  · exact tidy_of_kept (by simp [Stage.effect]) rfl rfl
  next due hdue =>
    unfold MidiUsbOutput.writeDue
    split_ifs
    · split
      · exact tidy_of_kept (by simp [Stage.effect]) rfl rfl
      · split_ifs
        · rintro (hfresh | hclosed)
          · rw [hfresh.dueReport] at hdue
            cases hdue
          · cases due <;> simp [Stage.effect, MidiUsbOutput.Due.event] at hclosed
        · exact tidy_close
      · exact tidy_close
    · exact tidy_close

/-- Whatever closes the devices leaves the output as `reports_protocol` needs
it. -/
theorem fresh_of_closed {call : UsbCall}
    (h : .closed ∈ (call.apply usb).2) : Fresh (call.apply usb).1 := by
  have hreport : ∀ report, .closed ∉ (usb.queueReport report).2 := by
    intro report
    unfold MidiUsbOutput.queueReport
    split_ifs <;> simp
  cases call with
  | forward message mapped =>
      rw [UsbCall.apply, MidiUsbOutput.forward] at h ⊢
      split_ifs at h ⊢
      · simp at h
      · rw [MidiUsbOutput.queueMessage] at h ⊢
        split_ifs at h ⊢
        · exact ⟨rfl, rfl⟩
        · simp at h
      · simp at h
  | trigger keys =>
      rw [UsbCall.apply, MidiUsbOutput.trigger] at h
      split_ifs at h
      · exact absurd h (hreport _)
      · split at h
        · simp at h
        · exact absurd h (hreport _)
  | press keys =>
      rw [UsbCall.apply, MidiUsbOutput.press] at h
      split_ifs at h
      · exact absurd h (hreport _)
      · split at h
        · simp at h
        · exact absurd h (hreport _)
  | release =>
      rw [UsbCall.apply, MidiUsbOutput.release] at h
      split_ifs at h
      · exact absurd h (hreport _)
      · exact absurd h (hreport _)
  | cancelChords => simp [UsbCall.apply, MidiUsbOutput.cancelChords] at h
  | poll host now passthrough keyboard =>
      have hprobe := (tidy_configure usb passthrough keyboard).bind
        fun _ => tidy_probe host now
      have hkeyboard := hprobe.bind fun _ => tidy_releaseKeyboard host
      have hmedia := hkeyboard.bind fun _ => tidy_releaseMedia host
      have hpending := hmedia.bind fun _ => tidy_writePending host
      have hpoll := hpending.bind fun _ => tidy_writeReport host now
      exact hpoll (.inr h)

end Closing

/-! ## The protocol -/

theorem run_append (usb : MidiUsbOutput) (calls calls' : List UsbCall) :
    usb.run (calls ++ calls') = (((usb.run calls).1.run calls').1,
      (usb.run calls).2 ++ ((usb.run calls).1.run calls').2) := by
  induction calls generalizing usb with
  | nil => rfl
  | cons call calls ih =>
      simp only [List.cons_append, MidiUsbOutput.run]
      rw [ih]
      simp

theorem run_singleton (usb : MidiUsbOutput) (call : UsbCall) :
    usb.run [call] = call.apply usb := by
  simp [MidiUsbOutput.run]

theorem reports_protocol {usb : MidiUsbOutput} {calls : List UsbCall}
    (hfresh : Fresh usb) (hopen : .closed ∉ (usb.run calls).2) :
    ReportsInOrder (usb.run calls).2 ∧
    (usb.run calls).1.chords = waiting (usb.run calls).2 ∧
    (waiting (usb.run calls).2).length ≤ scriptsMax ∧
    ∀ before polls host now passthrough keyboard time,
      calls = before ++ (polls ++ [.poll host now passthrough keyboard]) →
      (∀ call ∈ before, call.By time) → waiting (usb.run before).2 = [] →
      (∀ call ∈ polls, call.isPoll) → host.Works →
      time + releaseDelayMs ≤ now → Settled (usb.run calls).2 := by
  obtain ⟨time, htime⟩ := exists_by calls
  have hdriving := drives_run htime [] (hfresh.driving time) hopen
  refine ⟨hdriving.lawful.inOrder, hdriving.queue, ?_, ?_⟩
  · rw [List.nil_append] at hdriving
    rw [← hdriving.queue]
    exact hdriving.length
  · clear hdriving htime time
    rintro before polls host now passthrough keyboard time rfl htime hempty
      hpolls hworks hlate
    rw [run_append, run_append, run_singleton] at hopen ⊢
    simp only [List.mem_append, not_or] at hopen
    have hbefore := drives_run htime [] (hfresh.driving time) hopen.1
    have hquiet : (usb.run before).1.chords = [] :=
      hbefore.queue.trans hempty
    have hpolled := quiet_run hpolls _ ⟨hbefore, hquiet⟩ hopen.2.1
    have hpolling : Polling True True time now _ _ :=
      ⟨hpolled.1, .inl trivial, fun _ => hpolled.2,
        fun _ hdown => (hpolled.1.timer hdown).trans hlate⟩
    have hlast := hpolling.poll (fun _ => hworks) hopen.2.2
    simpa [UsbCall.apply] using hlast.end_settled trivial trivial

/-! ### A key that is tapped -/

def workingHost : UsbHost where
  configured := true
  opensMidi := true
  opensKeyboard := true
  opensMedia := true
  writeMidi := .written 1
  writeKeyboardRelease := .written 9
  writeMediaRelease := .written 3
  writeReport := .written 9

def openKeyboard : MidiUsbOutput where
  keyboardOpen := true
  keyboardEnabled := true
  nextProbeMs := 500

def tapCalls : List UsbCall :=
  [.trigger (ascii "A"), .poll workingHost 10 0 true]

def tapReport : Report :=
  ⟨false, [0, 0, 4, 0, 0, 0, 0, 0], false⟩

unseal clock in
theorem run_tapCalls : (openKeyboard.run tapCalls).2 =
    [.requested tapReport, .reported tapReport] :=
  rfl

unseal clock in
theorem run_tapCalls_later :
    (openKeyboard.run (tapCalls ++ [.poll workingHost 40 0 true])).2 =
      [.requested tapReport, .reported tapReport, .released false] :=
  rfl

theorem reports_protocol_tapCalls :
    Settled (openKeyboard.run
      (tapCalls ++ [.poll workingHost 40 0 true])).2 := by
  have hopen : UsbEvent.closed ∉ (openKeyboard.run
      (tapCalls ++ [.poll workingHost 40 0 true])).2 := by
    simp [run_tapCalls_later]
  have hprotocol := reports_protocol ⟨rfl, rfl⟩ hopen
  refine hprotocol.2.2.2 tapCalls [] workingHost 40 0 true 10 rfl ?_ ?_ ?_ ?_ ?_
  · simp [tapCalls, UsbCall.By]
  · rw [run_tapCalls]
    rfl
  · simp
  · exact ⟨by simp [workingHost], by simp [workingHost], by simp [workingHost]⟩
  · decide

end Audiox.Midi
