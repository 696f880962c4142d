import Audiox.Support.Runs
import Audiox.Support.Transducer
import Mathlib

/-!
# The adaptive buffer

`AdaptiveAudioBuffer` raises a level, and with it the period of the audio
devices, when xruns come close together, and lowers it again after a quiet
time.  Times are milliseconds of the monotonic clock; adding a constant to one
does not wrap around.
-/

namespace Audiox

structure AdaptiveAudioBuffer where
  graceUntil : Nat
  level : Nat
  changeId : Nat
  increaseId : Nat
  xrunTimes : List Nat
  xrunIndex : Nat
  pendingDownshiftFromLevel : Nat
  recentBurstCount : Nat
  downshiftFailures : Nat
  lastXrunAt : Nat
  lastDownshiftAt : Nat
  hasXrun : Bool
deriving DecidableEq, Repr

namespace AdaptiveAudioBuffer

def kMaxPeriodFrames : Nat := 1024
def kXrunWindowMs : Nat := 30000
def kStartupGraceMs : Nat := 60000
def kShiftGraceMs : Nat := 10000
def kQuietPeriodMs : Nat := 30000
def kBusyQuietPeriodMs : Nat := 60000
def kDownshiftRetryWindowMs : Nat := 600000
def kDownshiftBackoffMs : List Nat := [0, 300000, 600000, 900000]
def kXrunsToIncrease : Nat := 5

def started (now : Nat) : AdaptiveAudioBuffer where
  graceUntil := now + kStartupGraceMs
  level := 0
  changeId := 0
  increaseId := 0
  xrunTimes := List.replicate kXrunsToIncrease 0
  xrunIndex := 0
  pendingDownshiftFromLevel := 0
  recentBurstCount := 0
  downshiftFailures := 0
  lastXrunAt := 0
  lastDownshiftAt := 0
  hasXrun := false

def clearXrunWindow (b : AdaptiveAudioBuffer) : AdaptiveAudioBuffer :=
  { b with xrunIndex := 0, xrunTimes := List.replicate kXrunsToIncrease 0 }

def bufferChanged (b : AdaptiveAudioBuffer) (now : Nat) :
    AdaptiveAudioBuffer :=
  clearXrunWindow
    { b with
      graceUntil := max b.graceUntil (now + kShiftGraceMs)
      lastXrunAt := now }

/-! ## Periods -/

def doubled (frames : Nat) : Nat :=
  if kMaxPeriodFrames / 2 < frames then kMaxPeriodFrames else frames * 2

/-- The frames after so many passes of a loop that stops at the maximum. -/
def raised : Nat → Nat → Nat
  | 0, frames => frames
  | passes + 1, frames =>
      if frames < kMaxPeriodFrames then raised passes (doubled frames)
      else frames

def targetPeriodFrames (level baseFrames : Nat) : Nat :=
  if kMaxPeriodFrames < raised level baseFrames then kMaxPeriodFrames
  else raised level baseFrames

/-- The passes of the loop of `maxLevel`, which are no more than `fuel`. -/
def countPasses : Nat → Nat → Nat
  | 0, _ => 0
  | fuel + 1, frames =>
      if frames < kMaxPeriodFrames then countPasses fuel (doubled frames) + 1
      else 0

def maxLevel (baseFrames : Nat) : Nat :=
  if baseFrames = 0 ∨ kMaxPeriodFrames ≤ baseFrames then 0
  else countPasses kMaxPeriodFrames baseFrames

/-! ## Xruns and quiet times -/

def recentXruns (times : List Nat) (now : Nat) : Nat :=
  times.countP fun time =>
    time ≠ 0 ∧ time ≤ now ∧ now - time ≤ kXrunWindowMs

/-- An xrun takes the next slot of the window. -/
def noteXrun (b : AdaptiveAudioBuffer) (now : Nat) : AdaptiveAudioBuffer :=
  { b with
    lastXrunAt := now
    hasXrun := true
    xrunTimes := b.xrunTimes.set (b.xrunIndex % kXrunsToIncrease) now
    xrunIndex := (b.xrunIndex + 1) % 2 ^ 32
    recentBurstCount := recentXruns
      (b.xrunTimes.set (b.xrunIndex % kXrunsToIncrease) now) now }

/-- An increase soon after a decrease from the same level. -/
def DownshiftFailed (b : AdaptiveAudioBuffer) (now : Nat) : Prop :=
  b.pendingDownshiftFromLevel = b.level + 1 ∧ b.lastDownshiftAt ≤ now ∧
    now - b.lastDownshiftAt ≤ kDownshiftRetryWindowMs

instance (b : AdaptiveAudioBuffer) (now : Nat) :
    Decidable (b.DownshiftFailed now) := by
  unfold DownshiftFailed
  infer_instance

def failuresAfter (b : AdaptiveAudioBuffer) (now : Nat) : Nat :=
  if b.DownshiftFailed now ∧ b.downshiftFailures < 3 then
    b.downshiftFailures + 1
  else b.downshiftFailures

def increase (b : AdaptiveAudioBuffer) (now : Nat) : AdaptiveAudioBuffer :=
  bufferChanged
    { b with
      level := b.level + 1
      changeId := (b.changeId + 1) % 2 ^ 64
      increaseId := (b.increaseId + 1) % 2 ^ 64
      downshiftFailures := b.failuresAfter now
      pendingDownshiftFromLevel := 0 }
    now

def recordXrun (b : AdaptiveAudioBuffer) (now baseFrames : Nat) :
    AdaptiveAudioBuffer × Bool :=
  if now < b.graceUntil then (b, false)
  else if (b.noteXrun now).recentBurstCount < kXrunsToIncrease then
    (b.noteXrun now, false)
  else if maxLevel baseFrames ≤ b.level then (b.noteXrun now, false)
  else ((b.noteXrun now).increase now, true)

/-- The table of backoffs; an index past its end reads nothing. -/
def downshiftBackoff (failures : Nat) : Nat :=
  kDownshiftBackoffMs.getD failures 0

def quietPeriod (b : AdaptiveAudioBuffer) : Nat :=
  if kXrunsToIncrease ≤ b.recentBurstCount then kBusyQuietPeriodMs
  else kQuietPeriodMs

def requiredQuietMs (b : AdaptiveAudioBuffer) : Nat :=
  max b.quietPeriod (downshiftBackoff b.downshiftFailures)

def decrease (b : AdaptiveAudioBuffer) (now : Nat) : AdaptiveAudioBuffer :=
  bufferChanged
    { b with
      level := b.level - 1
      changeId := (b.changeId + 1) % 2 ^ 64
      pendingDownshiftFromLevel := b.level
      lastDownshiftAt := now
      lastXrunAt := now
      recentBurstCount := 0 }
    now

def tick (b : AdaptiveAudioBuffer) (now : Nat) : AdaptiveAudioBuffer × Bool :=
  if b.level = 0 ∨ b.hasXrun = false ∨ now < b.graceUntil ∨
      now < b.lastXrunAt then (b, false)
  else if now - b.lastXrunAt < b.requiredQuietMs then (b, false)
  else (b.decrease now, true)

def downshiftDelayMs (b : AdaptiveAudioBuffer) : Nat :=
  if b.level = 0 then 0 else b.requiredQuietMs

end AdaptiveAudioBuffer

/-! ## Histories of calls -/

inductive AdaptiveCall where
  | recordXrun (now : Nat)
  | tick (now : Nat)
  | bufferChanged (now : Nat)
deriving DecidableEq, Repr

def AdaptiveCall.time : AdaptiveCall → Nat
  | recordXrun now => now
  | tick now => now
  | bufferChanged now => now

/-- What the calls bring about: an xrun outside the grace period is recorded,
the level goes up, it goes down with some count of failures, or the buffer is
reopened. -/
inductive AdaptiveEvent where
  | recorded (now : Nat)
  | increased (now : Nat)
  | decreased (now failures : Nat)
  | reopened (now : Nat)
deriving DecidableEq, Repr

namespace AdaptiveEvent

def time : AdaptiveEvent → Nat
  | recorded now => now
  | increased now => now
  | decreased now _ => now
  | reopened now => now

/-- The level changes. -/
def IsChange : AdaptiveEvent → Prop
  | recorded _ => False
  | increased _ => True
  | decreased _ _ => True
  | reopened _ => False

end AdaptiveEvent

namespace AdaptiveAudioBuffer

def step (baseFrames : Nat) (b : AdaptiveAudioBuffer) :
    AdaptiveCall → AdaptiveAudioBuffer × List AdaptiveEvent
  | .recordXrun now =>
      ((b.recordXrun now baseFrames).1,
        if now < b.graceUntil then []
        else if (b.recordXrun now baseFrames).2 then
          [.recorded now, .increased now]
        else [.recorded now])
  | .tick now =>
      ((b.tick now).1,
        if (b.tick now).2 then [.decreased now b.downshiftFailures] else [])
  | .bufferChanged now => (b.bufferChanged now, [.reopened now])

def after (start baseFrames : Nat) (calls : List AdaptiveCall) :
    AdaptiveAudioBuffer :=
  Transducer.state (step baseFrames) (started start) calls

def events (start baseFrames : Nat) (calls : List AdaptiveCall) :
    List AdaptiveEvent :=
  Transducer.outputs (step baseFrames) (started start) calls

def InOrder (calls : List AdaptiveCall) : Prop :=
  (calls.map AdaptiveCall.time).Pairwise (· ≤ ·)

/-! ## What the events allow -/

/-- The time is outside the grace period of every level change so far. -/
def ApartFrom (before : List AdaptiveEvent) (now : Nat) : Prop :=
  ∀ e ∈ before, e.IsChange → e.time + kShiftGraceMs ≤ now

/-- Enough xruns within the window, all of them after the grace period of
every level change so far. -/
def EnoughXruns (before : List AdaptiveEvent) (now : Nat) : Prop :=
  ∃ xs : List AdaptiveEvent, xs.Sublist before ∧
    kXrunsToIncrease ≤ xs.length ∧
    ∀ x ∈ xs, ∃ t : Nat, x = .recorded t ∧ ApartFrom before t ∧
      now ≤ t + kXrunWindowMs

/-- No recorded xrun, level change or reopening for long enough. -/
def QuietBefore (before : List AdaptiveEvent) (now failures : Nat) : Prop :=
  ∀ e ∈ before, e.time +
    max kQuietPeriodMs (downshiftBackoff failures) ≤ now

/-- What holds when an event comes after some others. -/
def Allowed (before : List AdaptiveEvent) : AdaptiveEvent → Prop
  | .recorded _ => True
  | .increased now => ApartFrom before now ∧ EnoughXruns before now
  | .decreased now failures =>
      ApartFrom before now ∧ QuietBefore before now failures
  | .reopened _ => True

/-! ## Target periods -/

theorem doubled_of_lt {frames : Nat} (h : frames < kMaxPeriodFrames) :
    frames ≤ doubled frames ∧ (0 < frames → frames < doubled frames) := by
  rw [doubled]
  by_cases hhalf : kMaxPeriodFrames / 2 < frames
  · rw [if_pos hhalf]
    exact ⟨h.le, fun _ => h⟩
  · rw [if_neg hhalf]
    omega

theorem raised_of_le {frames : Nat} (h : kMaxPeriodFrames ≤ frames)
    (passes : Nat) : raised passes frames = frames := by
  cases passes with
  | zero => rfl
  | succ passes => rw [raised, if_neg (Nat.not_lt.mpr h)]

theorem raised_le_succ (passes frames : Nat) :
    raised passes frames ≤ raised (passes + 1) frames := by
  induction passes generalizing frames with
  | zero =>
      by_cases h : frames < kMaxPeriodFrames
      · rw [raised, raised, if_pos h]
        exact (doubled_of_lt h).1
      · rw [raised, raised, if_neg h]
  | succ passes ih =>
      by_cases h : frames < kMaxPeriodFrames
      · rw [raised, if_pos h, raised, if_pos h]
        exact ih (doubled frames)
      · have hle := Nat.le_of_not_lt h
        rw [raised_of_le hle, raised_of_le hle]

theorem raised_mono {passes passes' : Nat} (h : passes ≤ passes')
    (frames : Nat) : raised passes frames ≤ raised passes' frames :=
  monotone_nat_of_le_succ (fun n => raised_le_succ n frames) h

theorem targetPeriodFrames_eq_min (level baseFrames : Nat) :
    targetPeriodFrames level baseFrames =
      min (raised level baseFrames) kMaxPeriodFrames := by
  rw [targetPeriodFrames]
  split_ifs <;> omega

theorem targetPeriodFrames_bounds (level baseFrames : Nat) :
    min baseFrames kMaxPeriodFrames ≤ targetPeriodFrames level baseFrames ∧
      targetPeriodFrames level baseFrames ≤ kMaxPeriodFrames := by
  have hle : baseFrames ≤ raised level baseFrames :=
    raised_mono (Nat.zero_le level) baseFrames
  rw [targetPeriodFrames_eq_min]
  exact ⟨min_le_min_right _ hle, min_le_right _ _⟩

theorem targetPeriodFrames_mono {level level' : Nat} (h : level ≤ level')
    (baseFrames : Nat) : targetPeriodFrames level baseFrames ≤
      targetPeriodFrames level' baseFrames := by
  rw [targetPeriodFrames_eq_min, targetPeriodFrames_eq_min]
  exact min_le_min_right _ (raised_mono h baseFrames)

/-- The loop of `maxLevel` ends because the maximum is reached. -/
theorem raised_countPasses {fuel frames : Nat} (hpos : 0 < frames)
    (hfuel : kMaxPeriodFrames ≤ frames + fuel) :
    kMaxPeriodFrames ≤ raised (countPasses fuel frames) frames := by
  induction fuel generalizing frames with
  | zero => exact hfuel
  | succ fuel ih =>
      by_cases h : frames < kMaxPeriodFrames
      · have hmore := (doubled_of_lt h).2 hpos
        rw [countPasses, if_pos h, raised, if_pos h]
        apply ih <;> omega
      · rw [raised_of_le (Nat.le_of_not_lt h)]
        exact Nat.le_of_not_lt h

theorem targetPeriodFrames_maxLevel {baseFrames : Nat} (h : baseFrames ≠ 0) :
    targetPeriodFrames (maxLevel baseFrames) baseFrames =
      kMaxPeriodFrames := by
  rw [targetPeriodFrames_eq_min, min_eq_right]
  by_cases hle : kMaxPeriodFrames ≤ baseFrames
  · rw [raised_of_le hle]
    exact hle
  · rw [maxLevel, if_neg (not_or.mpr ⟨h, hle⟩)]
    exact raised_countPasses (Nat.pos_of_ne_zero h) (by omega)

/-! ## Histories -/

section

variable {start baseFrames : Nat} {calls : List AdaptiveCall}
  {call : AdaptiveCall}

theorem after_concat : after start baseFrames (calls ++ [call]) =
    (step baseFrames (after start baseFrames calls) call).1 :=
  Transducer.state_append calls [call]

theorem events_concat : events start baseFrames (calls ++ [call]) =
    events start baseFrames calls ++
      (step baseFrames (after start baseFrames calls) call).2 := by
  rw [events, Transducer.outputs_append, Transducer.outputs,
    Transducer.outputs, List.append_nil]
  rfl

theorem InOrder.of_concat (h : InOrder (calls ++ [call])) :
    InOrder calls := by
  rw [InOrder, List.map_append, List.pairwise_append] at h
  exact h.1

theorem InOrder.le (h : InOrder (calls ++ [call])) :
    ∀ c ∈ calls, c.time ≤ call.time := by
  intro c hc
  rw [InOrder, List.map_append, List.pairwise_append] at h
  exact h.2.2 _ (List.mem_map_of_mem hc) _ (by simp)

/-- The events of a call have its time. -/
theorem time_of_mem_step {b : AdaptiveAudioBuffer} :
    ∀ e ∈ (step baseFrames b call).2, e.time = call.time := by
  intro e he
  cases call with
  | recordXrun now =>
      simp only [step] at he
      split_ifs at he with hgrace hup
      · simp at he
      · simp only [List.mem_cons, List.not_mem_nil, or_false] at he
        rcases he with rfl | rfl <;> rfl
      · rw [List.mem_singleton.mp he]
        rfl
  | tick now =>
      simp only [step] at he
      split_ifs at he with hdown
      · rw [List.mem_singleton.mp he]
        rfl
      · simp at he
  | bufferChanged now =>
      rw [List.mem_singleton.mp he]
      rfl

theorem event_time : ∀ e ∈ events start baseFrames calls,
    ∃ c ∈ calls, c.time = e.time := by
  induction calls using List.reverseRecOn with
  | nil => simp [events, Transducer.outputs]
  | append_singleton calls call ih =>
      intro e he
      rw [events_concat, List.mem_append] at he
      rcases he with he | he
      · obtain ⟨c, hc, heq⟩ := ih e he
        exact ⟨c, by simp [hc], heq⟩
      · exact ⟨call, by simp, (time_of_mem_step e he).symm⟩

theorem event_time_le (h : InOrder (calls ++ [call])) :
    ∀ e ∈ events start baseFrames calls, e.time ≤ call.time := by
  intro e he
  obtain ⟨c, hc, heq⟩ := event_time e he
  rw [← heq]
  exact h.le c hc

end

/-! ## One step -/

variable {b : AdaptiveAudioBuffer} {es : List AdaptiveEvent}
  {baseFrames now : Nat}

/-- The xruns of the window are among some recorded ones that came after the
grace period of every level change. -/
def WindowOf (b : AdaptiveAudioBuffer) (es : List AdaptiveEvent) : Prop :=
  ∃ xs : List AdaptiveEvent, xs.Sublist es ∧
    (∀ x ∈ xs, ∃ t : Nat, x = .recorded t ∧ ApartFrom es t) ∧
    ∀ P : Nat → Bool, P 0 = false →
      b.xrunTimes.countP P ≤ xs.countP fun x => P x.time

structure Inv (baseFrames : Nat) (b : AdaptiveAudioBuffer)
    (es : List AdaptiveEvent) : Prop where
  level : b.level ≤ maxLevel baseFrames
  failures : b.downshiftFailures ≤ 3
  quiet : ∀ e ∈ es, e.time ≤ b.lastXrunAt
  grace : ApartFrom es b.graceUntil
  window : b.WindowOf es

theorem ApartFrom.mono {now' : Nat} (h : ApartFrom es now)
    (hle : now ≤ now') : ApartFrom es now' :=
  fun e he hchange => (h e he hchange).trans hle

theorem ApartFrom.concat (h : ApartFrom es now) {e : AdaptiveEvent}
    (hquiet : ¬ e.IsChange) : ApartFrom (es ++ [e]) now := by
  intro e' he' hchange
  rcases List.mem_append.mp he' with he' | he'
  · exact h e' he' hchange
  · rw [List.mem_singleton.mp he'] at hchange
    exact absurd hchange hquiet

theorem countP_set_le {times : List Nat} (i now : Nat) (P : Nat → Bool) :
    (times.set i now).countP P ≤
      times.countP P + (if P now then 1 else 0) := by
  induction times generalizing i with
  | nil => simp
  | cons time times ih =>
      cases i with
      | zero =>
          rw [List.set_cons_zero, List.countP_cons, List.countP_cons]
          omega
      | succ i =>
          have hrest := ih i
          rw [List.set_cons_succ, List.countP_cons, List.countP_cons]
          omega

theorem WindowOf.noteXrun (h : b.WindowOf es)
    (hgrace : ApartFrom es b.graceUntil) (hnow : b.graceUntil ≤ now) :
    (b.noteXrun now).WindowOf (es ++ [.recorded now]) := by
  obtain ⟨xs, hsub, hxs, hcount⟩ := h
  refine ⟨xs ++ [.recorded now], hsub.append (List.Sublist.refl _), ?_, ?_⟩
  · intro x hx
    rcases List.mem_append.mp hx with hx | hx
    · obtain ⟨t, rfl, ht⟩ := hxs x hx
      exact ⟨t, rfl, ht.concat id⟩
    · exact ⟨now, List.mem_singleton.mp hx, (hgrace.mono hnow).concat id⟩
  · intro P hP
    have hset := @countP_set_le b.xrunTimes
      (b.xrunIndex % kXrunsToIncrease) now P
    have hold := hcount P hP
    rw [List.countP_append, List.countP_singleton]
    exact hset.trans (Nat.add_le_add_right hold _)

theorem windowOf_of_clear
    (hclear : b.xrunTimes = List.replicate kXrunsToIncrease 0)
    (es : List AdaptiveEvent) : b.WindowOf es := by
  refine ⟨[], List.nil_sublist es, by simp, ?_⟩
  intro P hP
  rw [hclear]
  have hnone : (List.replicate kXrunsToIncrease 0).countP P = 0 := by
    rw [List.countP_replicate, if_neg (by rw [hP]; exact Bool.false_ne_true)]
  exact hnone.le

/-- A reopened buffer is in the grace period of whatever happened at that
time. -/
theorem inv_bufferChanged (hlevel : b.level ≤ maxLevel baseFrames)
    (hfailures : b.downshiftFailures ≤ 3)
    (hgrace : ApartFrom es b.graceUntil) (hle : ∀ e ∈ es, e.time ≤ now)
    (e : AdaptiveEvent) (he : e.time = now) :
    Inv baseFrames (b.bufferChanged now) (es ++ [e]) where
  level := hlevel
  failures := hfailures
  quiet := by
    intro e' he'
    rcases List.mem_append.mp he' with he' | he'
    · exact hle e' he'
    · rw [List.mem_singleton.mp he', he]
      exact le_rfl
  grace := by
    intro e' he' hchange
    rcases List.mem_append.mp he' with he' | he'
    · exact (hgrace e' he' hchange).trans (le_max_left _ _)
    · rw [List.mem_singleton.mp he', he]
      exact le_max_right _ _
  window := windowOf_of_clear rfl _

theorem inv_noteXrun (h : Inv baseFrames b es) (hnow : b.graceUntil ≤ now)
    (hle : ∀ e ∈ es, e.time ≤ now) :
    Inv baseFrames (b.noteXrun now) (es ++ [.recorded now]) where
  level := h.level
  failures := h.failures
  quiet := by
    intro e he
    rcases List.mem_append.mp he with he | he
    · exact hle e he
    · rw [List.mem_singleton.mp he]
      exact le_rfl
  grace := h.grace.concat id
  window := h.window.noteXrun h.grace hnow

theorem failuresAfter_le (h : b.downshiftFailures ≤ 3) (now : Nat) :
    b.failuresAfter now ≤ 3 := by
  rw [failuresAfter]
  split_ifs with hfailed
  · exact hfailed.2
  · exact h

theorem inv_increase (h : Inv baseFrames b es)
    (hlevel : b.level < maxLevel baseFrames)
    (hle : ∀ e ∈ es, e.time ≤ now) :
    Inv baseFrames (b.increase now) (es ++ [.increased now]) := by
  rw [increase]
  apply inv_bufferChanged
  · exact hlevel
  · exact failuresAfter_le h.failures now
  · exact h.grace
  · exact hle
  · rfl

theorem inv_decrease (h : Inv baseFrames b es)
    (hle : ∀ e ∈ es, e.time ≤ now) :
    Inv baseFrames (b.decrease now)
      (es ++ [.decreased now b.downshiftFailures]) := by
  rw [decrease]
  apply inv_bufferChanged
  · exact (Nat.sub_le _ _).trans h.level
  · exact h.failures
  · exact h.grace
  · exact hle
  · rfl

/-- A full window shows enough xruns. -/
theorem WindowOf.enoughXruns (h : b.WindowOf es)
    (hfull : kXrunsToIncrease ≤ recentXruns b.xrunTimes now) :
    EnoughXruns es now := by
  obtain ⟨xs, hsub, hxs, hcount⟩ := h
  have hmany := hfull.trans (hcount (fun time => decide
    (time ≠ 0 ∧ time ≤ now ∧ now - time ≤ kXrunWindowMs)) (by simp))
  rw [List.countP_eq_length_filter] at hmany
  refine ⟨_, List.filter_sublist.trans hsub, hmany, ?_⟩
  intro x hx
  obtain ⟨hx, hwindow⟩ := List.mem_filter.mp hx
  obtain ⟨t, rfl, ht⟩ := hxs x hx
  have hrecent := (of_decide_eq_true hwindow).2.2
  simp only [AdaptiveEvent.time] at hrecent
  exact ⟨t, rfl, ht, by omega⟩

/-- Each event is allowed after the ones before it. -/
def AllAllowed (es : List AdaptiveEvent) : Prop :=
  ∀ (before : List AdaptiveEvent) (e : AdaptiveEvent)
    (later : List AdaptiveEvent),
    es = before ++ e :: later → Allowed before e

theorem AllAllowed.concat (h : AllAllowed es) {e : AdaptiveEvent}
    (he : Allowed es e) : AllAllowed (es ++ [e]) := by
  intro before e' later heq
  rcases Runs.eq_concat_cases heq with ⟨later', -, hes⟩ | ⟨-, rfl, rfl⟩
  · exact h before e' later' hes
  · exact he

/-- What a call of `recordXrun` does: nothing within the grace period, else the
xrun is recorded, and the level goes up if there were enough of them. -/
theorem recordXrun_cases (b : AdaptiveAudioBuffer) (now baseFrames : Nat) :
    (now < b.graceUntil ∧
      step baseFrames b (.recordXrun now) = (b, [])) ∨
    (b.graceUntil ≤ now ∧
      step baseFrames b (.recordXrun now) =
        (b.noteXrun now, [.recorded now])) ∨
    (b.graceUntil ≤ now ∧ b.level < maxLevel baseFrames ∧
      kXrunsToIncrease ≤ recentXruns (b.noteXrun now).xrunTimes now ∧
      step baseFrames b (.recordXrun now) =
        ((b.noteXrun now).increase now,
          [.recorded now, .increased now])) := by
  by_cases hgrace : now < b.graceUntil
  · left
    simp [step, recordXrun, hgrace]
  · right
    have hnow := Nat.le_of_not_lt hgrace
    by_cases hfew : (b.noteXrun now).recentBurstCount < kXrunsToIncrease
    · left
      simp [step, recordXrun, hgrace, hfew, hnow]
    · by_cases hmax : maxLevel baseFrames ≤ b.level
      · left
        simp [step, recordXrun, hgrace, hfew, hmax, hnow]
      · right
        refine ⟨hnow, Nat.lt_of_not_le hmax, Nat.le_of_not_lt hfew, ?_⟩
        simp [step, recordXrun, hgrace, hfew, hmax]

/-- What a call of `tick` does. -/
theorem tick_cases (b : AdaptiveAudioBuffer) (now baseFrames : Nat) :
    step baseFrames b (.tick now) = (b, []) ∨
    (b.level ≠ 0 ∧ b.graceUntil ≤ now ∧
      b.lastXrunAt + b.requiredQuietMs ≤ now ∧
      step baseFrames b (.tick now) =
        (b.decrease now, [.decreased now b.downshiftFailures])) := by
  by_cases hidle : b.level = 0 ∨ b.hasXrun = false ∨ now < b.graceUntil ∨
      now < b.lastXrunAt
  · left
    simp only [step, tick, if_pos hidle]
    rfl
  · by_cases hbusy : now - b.lastXrunAt < b.requiredQuietMs
    · left
      simp only [step, tick, if_neg hidle, if_pos hbusy]
      rfl
    · right
      obtain ⟨hlevel, -, hgrace, hlast⟩ := by
        simpa only [not_or] using hidle
      refine ⟨hlevel, Nat.le_of_not_lt hgrace, by omega, ?_⟩
      simp only [step, tick, if_neg hidle, if_neg hbusy, if_true]

theorem kQuietPeriodMs_le (b : AdaptiveAudioBuffer) :
    kQuietPeriodMs ≤ b.quietPeriod := by
  rw [quietPeriod]
  split_ifs
  · decide
  · exact le_rfl

theorem step_spec (h : Inv baseFrames b es) (hall : AllAllowed es)
    {call : AdaptiveCall} (hle : ∀ e ∈ es, e.time ≤ call.time) :
    Inv baseFrames (step baseFrames b call).1
        (es ++ (step baseFrames b call).2) ∧
      AllAllowed (es ++ (step baseFrames b call).2) := by
  cases call with
  | recordXrun now =>
      rcases recordXrun_cases b now baseFrames with
        ⟨-, heq⟩ | ⟨hnow, heq⟩ | ⟨hnow, hlevel, hfull, heq⟩
      · rw [heq, List.append_nil]
        exact ⟨h, hall⟩
      · rw [heq]
        exact ⟨inv_noteXrun h hnow hle, hall.concat trivial⟩
      · rw [heq]
        have hnoted := inv_noteXrun h hnow hle
        have hsplit : es ++ [.recorded now, .increased now] =
            (es ++ [.recorded now]) ++ [.increased now] := by
          rw [List.append_assoc]
          rfl
        have hrecorded : AllAllowed (es ++ [.recorded now]) :=
          hall.concat trivial
        rw [hsplit]
        constructor
        · exact inv_increase hnoted hlevel hnoted.quiet
        · apply hrecorded.concat
          exact ⟨hnoted.grace.mono hnow, hnoted.window.enoughXruns hfull⟩
  | tick now =>
      rcases tick_cases b now baseFrames with
        heq | ⟨hlevel, hgrace, hquiet, heq⟩
      · rw [heq, List.append_nil]
        exact ⟨h, hall⟩
      · rw [heq]
        constructor
        · exact inv_decrease h hle
        · apply hall.concat
          refine ⟨h.grace.mono hgrace, ?_⟩
          intro e he
          have hlast := h.quiet e he
          have hleast : max kQuietPeriodMs
              (downshiftBackoff b.downshiftFailures) ≤ b.requiredQuietMs :=
            max_le_max_right _ b.kQuietPeriodMs_le
          omega
  | bufferChanged now =>
      have htimes : ∀ e ∈ es, e.time ≤ now := hle
      exact ⟨inv_bufferChanged h.level h.failures h.grace htimes
        (.reopened now) rfl, hall.concat trivial⟩

theorem after_spec (start baseFrames : Nat) {calls : List AdaptiveCall}
    (h : InOrder calls) :
    Inv baseFrames (after start baseFrames calls)
        (events start baseFrames calls) ∧
      AllAllowed (events start baseFrames calls) := by
  induction calls using List.reverseRecOn with
  | nil =>
      constructor
      · refine ⟨Nat.zero_le _, Nat.zero_le _, ?_, ?_, ?_⟩
        · simp [events, Transducer.outputs]
        · simp [events, Transducer.outputs, ApartFrom]
        · exact windowOf_of_clear rfl _
      · intro before e later heq
        simp [events, Transducer.outputs] at heq
  | append_singleton calls call ih =>
      obtain ⟨hinv, hall⟩ := ih h.of_concat
      rw [after_concat, events_concat]
      exact step_spec hinv hall (event_time_le h)

end AdaptiveAudioBuffer

end Audiox
