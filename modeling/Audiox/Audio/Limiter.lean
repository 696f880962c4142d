import Audiox.Support.MonotoneQueue
import Audiox.Support.SlidingWindow
import Audiox.Support.Transducer
import Mathlib

/-!
# The limiter

`processLimiter` delays a signal by the lookahead and lowers its gain in time
for the samples that come.  The peaks of the lookahead are a queue in one ring,
the delayed samples are in another one.  Samples and controls are numbers of an
ordered field; `none` is a value that is not finite.
-/

namespace Audiox.Limiter

/-- The rates that a build can have. -/
abbrev SampleRate : Type :=
  {rate : Nat // rate ∈ [8000, 16000, 22050, 32000, 44100, 48000, 96000]}

/-- The rate of a build, and the two functions of the library that the limiter
computes with: decibels to a factor, milliseconds to a coefficient. -/
structure Build (K : Type) [Field K] [LinearOrder K] where
  rate : SampleRate
  linear : K → K
  coefficient : K → K
  linear_pos : ∀ db, 0 < linear db
  coefficient_nonneg : ∀ ms, 0 ≤ coefficient ms
  coefficient_le_one : ∀ ms, 0 < ms → coefficient ms ≤ 1

variable {K : Type} [Field K] [LinearOrder K]

/-! ## State and parameters -/

structure LimiterState (K : Type) where
  delay : Nat → K
  writeIndex : Nat
  gain : K
  lookaheadFrames : Nat
  initialized : Bool
  peaks : Nat → K
  peakTimes : Nat → UInt64
  peakHead : Nat
  peakTail : Nat
  sampleIndex : UInt64

def LimiterState.zero : LimiterState K where
  delay := fun _ => 0
  writeIndex := 0
  gain := 1
  lookaheadFrames := 0
  initialized := false
  peaks := fun _ => 0
  peakTimes := fun _ => 0
  peakHead := 0
  peakTail := 0
  sampleIndex := 0

/-- The parameters of one call. -/
structure Controls (K : Type) where
  ceilingDb : Option K
  releaseMs : Option K
  lookaheadMs : Option K
  inputGain : Option K

def kMaxLookaheadFrames (b : Build K) : Nat := (b.rate.val + 99) / 100

/-- The sizes of the two rings. -/
def delaySize (b : Build K) : Nat := kMaxLookaheadFrames b + 1

def queueSize (b : Build K) : Nat := kMaxLookaheadFrames b + 2

def clamp (value lo hi : K) : K :=
  if value < lo then lo else if hi < value then hi else value

def control (value : Option K) (lo hi fallback : K) : K :=
  match value with
  | some v => clamp v lo hi
  | none => fallback

def sample (value : Option K) : K := value.getD 0

/-- The largest `float`. -/
def floatMax : K := ((2 ^ 24 - 1) * 2 ^ 104 : Nat)

def output (value : K) : K := clamp value (-floatMax) floatMax

/-- To the nearest integer, away from zero between two. -/
def lround [FloorRing K] (x : K) : Int :=
  if 0 ≤ x then ⌊x + 1 / (1 + 1)⌋ else ⌈x - 1 / (1 + 1)⌉

def ceiling (b : Build K) (c : Controls K) : K :=
  b.linear (control c.ceilingDb (-24) 0 (-1))

def release (b : Build K) (c : Controls K) : K :=
  b.coefficient (control c.releaseMs 5 1000 80)

def inputLevel (c : Controls K) : K := control c.inputGain 0 4 1

def lookahead [FloorRing K] (b : Build K) (c : Controls K) : Nat :=
  min (kMaxLookaheadFrames b)
    (lround (control c.lookaheadMs 0 10 3 * b.rate.val / 1000)).toNat

/-- A sample times the input gain. -/
def scaled (c : Controls K) (x : Option K) : K := sample x * inputLevel c

/-! ## The loops over the peaks -/

/-- The head behind the peaks that are too old. -/
def dropOld (size delay : Nat) (times : Nat → UInt64) (now : UInt64)
    (tail : Nat) : Nat → Nat → Nat
  | 0, head => head
  | fuel + 1, head =>
      if head ≠ tail ∧ UInt64.ofNat delay < now - times head then
        dropOld size delay times now tail fuel ((head + 1) % size)
      else head

/-- The tail in front of the peaks that are not above the current one. -/
def dropLower (size : Nat) (peaks : Nat → K) (current : K) (head : Nat) :
    Nat → Nat → Nat
  | 0, tail => tail
  | fuel + 1, tail =>
      if head ≠ tail then
        if current < peaks ((tail + size - 1) % size) then tail
        else dropLower size peaks current head fuel ((tail + size - 1) % size)
      else tail

/-! ## One sample -/

section

variable [FloorRing K] (b : Build K) (c : Controls K) (s : LimiterState K)
  (x : Option K)

def headAfter : Nat :=
  dropOld (queueSize b) (lookahead b c) s.peakTimes s.sampleIndex s.peakTail
    (queueSize b) s.peakHead

def tailAfter : Nat :=
  dropLower (queueSize b) s.peaks |scaled c x| (headAfter b c s) (queueSize b)
    s.peakTail

/-- The peak of the sample joins the queue. -/
def queued : LimiterState K :=
  { s with
    peakHead := headAfter b c s
    peaks := Function.update s.peaks (tailAfter b c s x) |scaled c x|
    peakTimes :=
      Function.update s.peakTimes (tailAfter b c s x) s.sampleIndex
    peakTail := (tailAfter b c s x + 1) % queueSize b
    sampleIndex := s.sampleIndex + 1 }

def level : K := (queued b c s x).peaks (queued b c s x).peakHead

def target : K :=
  if ceiling b c < level b c s x then ceiling b c / level b c s x else 1

def nextGain : K :=
  if target b c s x < s.gain then target b c s x
  else target b c s x + release b c * (s.gain - target b c s x)

def stored : Nat → K :=
  Function.update s.delay s.writeIndex (output (scaled c x))

def delayed : K :=
  stored c s x ((s.writeIndex + delaySize b - lookahead b c) % delaySize b)

/-- What the safety clamp gets. -/
def product : K := output (delayed b c s x * nextGain b c s x)

def limitSample : LimiterState K × List K :=
  ({ queued b c s x with
      gain := nextGain b c s x
      delay := stored c s x
      writeIndex := (s.writeIndex + 1) % delaySize b },
    [clamp (product b c s x) (-ceiling b c) (ceiling b c)])

/-! ## Calls -/

/-- A change of the lookahead clears the state. -/
def cleared : LimiterState K :=
  if s.initialized = false ∨ s.lookaheadFrames ≠ lookahead b c then
    { LimiterState.zero with
      initialized := true
      lookaheadFrames := lookahead b c }
  else s

def prepared : LimiterState K :=
  { cleared b c s with
    writeIndex := (cleared b c s).writeIndex % delaySize b
    gain := clamp (cleared b c s).gain 0 1 }

def processLimiter (input : List (Option K)) : LimiterState K × List K :=
  if input = [] then (s, [])
  else
    (Transducer.state (limitSample b c) (prepared b c s) input,
      Transducer.outputs (limitSample b c) (prepared b c s) input)

end

structure Call (K : Type) where
  controls : Controls K
  input : List (Option K)

def processCall [FloorRing K] (b : Build K) (s : LimiterState K) (call : Call K) :
    LimiterState K × List K :=
  processLimiter b call.controls s call.input

/-- The state after some calls. -/
def after [FloorRing K] (b : Build K) (calls : List (Call K)) : LimiterState K :=
  Transducer.state (processCall b) LimiterState.zero calls

/-! ## The ring of the peaks -/

/-- The ring has the peaks of the queue from its head on, with the times in 64
bits. -/
structure Ring (size : Nat) (peaks : Nat → K) (times : Nat → UInt64)
    (head tail : Nat) (queue : List (Nat × K)) : Prop where
  head_lt : head < size
  tail_eq : tail = (head + queue.length) % size
  room : queue.length < size
  peaks : CircularBuffer.Holds size peaks head (queue.map Prod.snd)
  times : CircularBuffer.Holds size times head
    (queue.map fun e => UInt64.ofNat e.1)

section

variable {size head tail : Nat} {peaks : Nat → K} {times : Nat → UInt64}
  {queue : List (Nat × K)}

namespace Ring

omit [Field K] [LinearOrder K]

theorem tail_lt (h : Ring size peaks times head tail queue) : tail < size := by
  rw [h.tail_eq]
  exact Nat.mod_lt _ (Nat.zero_lt_of_lt h.head_lt)

theorem head_ne_tail {e : Nat × K}
    (h : Ring size peaks times head tail (e :: queue)) : head ≠ tail := by
  have hne := @CircularBuffer.slot_ne size head 0 (e :: queue).length
    (Nat.succ_pos _) (by have := h.room; omega)
  rwa [Nat.add_zero, Nat.mod_eq_of_lt h.head_lt, ← h.tail_eq] at hne

theorem peaks_head {e : Nat × K}
    (h : Ring size peaks times head tail (e :: queue)) :
    peaks head = e.2 := by
  have hslot := h.peaks 0 (by simp)
  rwa [Nat.add_zero, Nat.mod_eq_of_lt h.head_lt] at hslot

theorem times_head {e : Nat × K}
    (h : Ring size peaks times head tail (e :: queue)) :
    times head = UInt64.ofNat e.1 := by
  have hslot := h.times 0 (by simp)
  rwa [Nat.add_zero, Nat.mod_eq_of_lt h.head_lt] at hslot

theorem rest {e : Nat × K}
    (h : Ring size peaks times head tail (e :: queue)) :
    Ring size peaks times ((head + 1) % size) tail queue where
  head_lt := Nat.mod_lt _ (Nat.zero_lt_of_lt h.head_lt)
  tail_eq := by
    rw [Nat.mod_add_mod, h.tail_eq, List.length_cons]
    congr 1
    omega
  room := (Nat.lt_succ_self _).trans h.room
  peaks := h.peaks.drop 1
  times := h.times.drop 1

/-- The ring without its last entry. -/
theorem front {e : Nat × K}
    (h : Ring size peaks times head tail (queue ++ [e])) :
    Ring size peaks times head ((tail + size - 1) % size) queue where
  head_lt := h.head_lt
  tail_eq := by
    have hpos := Nat.zero_lt_of_lt h.head_lt
    rw [h.tail_eq, Nat.add_sub_assoc hpos, Nat.mod_add_mod,
      List.length_append, List.length_singleton]
    rw [show head + (queue.length + 1) + (size - 1) =
      head + queue.length + size by omega, Nat.add_mod_right]
  room := by
    have := h.room
    rw [List.length_append] at this
    omega
  peaks := by
    have hall := h.peaks
    rw [List.map_append] at hall
    exact hall.of_append
  times := by
    have hall := h.times
    rw [List.map_append] at hall
    exact hall.of_append

theorem peaks_last {e : Nat × K}
    (h : Ring size peaks times head tail (queue ++ [e])) :
    peaks ((tail + size - 1) % size) = e.2 := by
  have hslot := h.peaks queue.length (by simp)
  rw [← h.front.tail_eq] at hslot
  rw [hslot]
  simp

theorem concat (h : Ring size peaks times head tail queue)
    (hroom : queue.length + 1 < size) (now : Nat) (a : K) :
    Ring size (Function.update peaks tail a)
      (Function.update times tail (UInt64.ofNat now)) head ((tail + 1) % size)
      (queue ++ [(now, a)]) where
  head_lt := h.head_lt
  tail_eq := by
    rw [h.tail_eq, Nat.mod_add_mod, List.length_append,
      List.length_singleton, Nat.add_assoc]
  room := by rwa [List.length_append, List.length_singleton]
  peaks := by
    have hnext := h.peaks.concat (by rw [List.length_map]; exact h.room) a
    rw [List.length_map, ← h.tail_eq] at hnext
    rwa [List.map_append]
  times := by
    have hnext := h.times.concat (by rw [List.length_map]; exact h.room)
      (UInt64.ofNat now)
    rw [List.length_map, ← h.tail_eq] at hnext
    rwa [List.map_append]

end Ring

/-- The difference of two times is exact while it fits 64 bits. -/
theorem lt_sub_iff {width now t : Nat} (hwidth : width < 2 ^ 64) (ht : t ≤ now)
    (hnear : now - t < 2 ^ 64) :
    UInt64.ofNat width < UInt64.ofNat now - UInt64.ofNat t ↔
      width < now - t := by
  rw [← UInt64.ofNat_sub ht, UInt64.lt_iff_toNat_lt, UInt64.toNat_ofNat',
    UInt64.toNat_ofNat', Nat.mod_eq_of_lt hwidth, Nat.mod_eq_of_lt hnear]

omit [Field K] [LinearOrder K] in
/-- The first loop drops the peaks that have expired. -/
theorem ring_dropOld {width now fuel : Nat} (hwidth : width < 2 ^ 64)
    (h : Ring size peaks times head tail queue) (hfuel : queue.length ≤ fuel)
    (hnear : ∀ e ∈ queue, e.1 ≤ now ∧ now - e.1 < 2 ^ 64) :
    Ring size peaks times
      (dropOld size width times (UInt64.ofNat now) tail fuel head) tail
      (MonotoneQueue.expire width now queue) := by
  induction queue generalizing head fuel with
  | nil =>
      have hempty : head = tail := by
        rw [h.tail_eq, List.length_nil, Nat.add_zero,
          Nat.mod_eq_of_lt h.head_lt]
      cases fuel with
      | zero => exact h
      | succ fuel =>
          rw [dropOld, if_neg (fun hcond => hcond.1 hempty)]
          exact h
  | cons e queue ih =>
      obtain ⟨fuel, rfl⟩ : ∃ n, fuel = n + 1 :=
        ⟨fuel - 1, by rw [List.length_cons] at hfuel; omega⟩
      obtain ⟨hle, hlt⟩ := hnear e List.mem_cons_self
      rw [dropOld, h.times_head]
      by_cases hold : width < now - e.1
      · rw [if_pos ⟨h.head_ne_tail, (lt_sub_iff hwidth hle hlt).mpr hold⟩,
          MonotoneQueue.expire,
          List.dropWhile_cons_of_pos (by simpa using hold)]
        exact ih h.rest (Nat.le_of_succ_le_succ hfuel)
          (fun f hf => hnear f (List.mem_cons_of_mem _ hf))
      · rw [if_neg (fun hcond => hold ((lt_sub_iff hwidth hle hlt).mp hcond.2)),
          MonotoneQueue.expire,
          List.dropWhile_cons_of_neg (by simpa using hold)]
        exact h

omit [Field K] in
/-- The second loop drops the peaks that are not above the current one. -/
theorem ring_dropLower {current : K} {fuel : Nat}
    (h : Ring size peaks times head tail queue)
    (hfuel : queue.length ≤ fuel) :
    Ring size peaks times head
      (dropLower size peaks current head fuel tail)
      (MonotoneQueue.prune current queue) := by
  induction queue using List.reverseRecOn generalizing tail fuel with
  | nil =>
      have hempty : head = tail := by
        rw [h.tail_eq, List.length_nil, Nat.add_zero,
          Nat.mod_eq_of_lt h.head_lt]
      cases fuel with
      | zero => exact h
      | succ fuel =>
          rw [dropLower, if_neg (fun hne => hne hempty)]
          exact h
  | append_singleton queue e ih =>
      rw [List.length_append, List.length_singleton] at hfuel
      obtain ⟨fuel, rfl⟩ : ∃ n, fuel = n + 1 := ⟨fuel - 1, by omega⟩
      have hne : head ≠ tail := by
        cases queue with
        | nil => exact h.head_ne_tail
        | cons f queue => exact h.head_ne_tail
      rw [dropLower, if_pos hne, h.peaks_last, MonotoneQueue.prune]
      by_cases hlow : current < e.2
      · rw [if_pos hlow, List.rdropWhile_concat_neg _ _ _ (by simpa using hlow)]
        exact h
      · rw [if_neg hlow,
          List.rdropWhile_concat_pos _ _ _ (by simpa using not_lt.mp hlow)]
        exact ih h.front (Nat.le_of_succ_le_succ hfuel)

end

/-! ## The parameters -/

section

variable {b : Build K} {c : Controls K}

theorem lookahead_le [FloorRing K] : lookahead b c ≤ kMaxLookaheadFrames b :=
  min_le_left _ _

theorem kMaxLookaheadFrames_le (b : Build K) : kMaxLookaheadFrames b ≤ 960 := by
  have hrates : ∀ rate ∈ [8000, 16000, 22050, 32000, 44100, 48000, 96000],
      (rate + 99) / 100 ≤ 960 := by decide
  exact hrates b.rate.val b.rate.property

theorem ceiling_pos : 0 < ceiling b c := b.linear_pos _

omit [Field K] in
theorem clamp_mem {value lo hi : K} (h : lo ≤ hi) :
    lo ≤ clamp value lo hi ∧ clamp value lo hi ≤ hi := by
  unfold clamp
  split
  · exact ⟨le_rfl, h⟩
  · split
    · exact ⟨h, le_rfl⟩
    · exact ⟨not_lt.mp ‹_›, not_lt.mp ‹_›⟩

omit [Field K] in
theorem clamp_of_mem {value lo hi : K} (hlo : lo ≤ value) (hhi : value ≤ hi) :
    clamp value lo hi = value := by
  rw [clamp, if_neg (not_lt.mpr hlo), if_neg (not_lt.mpr hhi)]

theorem release_nonneg : 0 ≤ release b c := b.coefficient_nonneg _

variable [IsStrictOrderedRing K]

theorem clamp_of_abs_le {value bound : K} (h : |value| ≤ bound) :
    clamp value (-bound) bound = value :=
  clamp_of_mem (abs_le.mp h).1 (abs_le.mp h).2

theorem floatMax_pos : (0 : K) < floatMax := by
  unfold floatMax
  norm_num

theorem output_of_abs_le {value : K} (h : |value| ≤ floatMax) :
    output value = value :=
  clamp_of_abs_le h

theorem abs_output_le (value : K) : |output value| ≤ floatMax :=
  abs_le.mpr (clamp_mem (neg_le_self floatMax_pos.le))

/-- The clamp to the floats is a factor. -/
theorem output_eq_mul (value : K) :
    ∃ factor, 0 < factor ∧ factor ≤ 1 ∧ output value = value * factor := by
  by_cases hle : |value| ≤ floatMax
  · exact ⟨1, one_pos, le_rfl, by rw [output_of_abs_le hle, mul_one]⟩
  · have hlt := not_le.mp hle
    have hpos : 0 < |value| := floatMax_pos.trans hlt
    refine ⟨floatMax / |value|, div_pos floatMax_pos hpos,
      (div_le_one hpos).mpr hlt.le, ?_⟩
    rcases lt_or_ge value 0 with hneg | hnonneg
    · rw [abs_of_neg hneg] at hlt ⊢
      rw [output, clamp, if_pos (lt_neg_of_lt_neg hlt), div_neg, mul_neg,
        mul_div_cancel₀ _ hneg.ne]
    · rw [abs_of_nonneg hnonneg] at hlt hpos ⊢
      have hlo : -floatMax ≤ value :=
        (neg_nonpos.mpr floatMax_pos.le).trans hnonneg
      rw [output, clamp, if_neg (not_lt.mpr hlo), if_pos hlt,
        mul_div_cancel₀ _ hpos.ne']

theorem abs_output_le_abs (value : K) : |output value| ≤ |value| := by
  obtain ⟨factor, hpos, hle, heq⟩ := output_eq_mul value
  rw [heq, abs_mul, abs_of_pos hpos]
  exact mul_le_of_le_one_right (abs_nonneg _) hle

theorem release_le_one : release b c ≤ 1 := by
  have hrange : (5 : K) ≤ control c.releaseMs 5 1000 80 := by
    unfold control
    split
    · exact (clamp_mem (by norm_num)).1
    · norm_num
  exact b.coefficient_le_one _ (by linarith)

end

/-! ## One epoch -/

/-- The state after the scaled samples since the lookahead was changed to
`width`. -/
structure Follows (b : Build K) (width : Nat) (samples : List K)
    (s : LimiterState K) (queue : List (Nat × K)) : Prop where
  tracks : MonotoneQueue.Tracks width (samples.map (|·|)) queue
  ring : Ring (queueSize b) s.peaks s.peakTimes s.peakHead s.peakTail queue
  index : s.sampleIndex = UInt64.ofNat samples.length
  delay : SlidingWindow.Keeps (delaySize b) s.delay
    (List.replicate (delaySize b) 0 ++ samples.map output)
  write : s.writeIndex = samples.length % delaySize b
  gain_pos : 0 < s.gain
  gain_le : s.gain ≤ 1
  initialized : s.initialized = true
  frames : s.lookaheadFrames = width

/-- The sample so many places back, zero when there is none. -/
def back (samples : List K) (width : Nat) : K :=
  samples.reverse.getD width 0

omit [LinearOrder K] in
theorem back_of_lt {samples : List K} {width : Nat}
    (h : width < samples.length) :
    samples[samples.length - 1 - width]? = some (back samples width) := by
  rw [back, List.getD_eq_getElem?_getD, List.getElem?_reverse h,
    List.getElem?_eq_getElem (by omega)]
  rfl

omit [LinearOrder K] in
theorem back_of_le {samples : List K} {width : Nat}
    (h : samples.length ≤ width) : back samples width = 0 := by
  rw [back, List.getD_eq_getElem?_getD,
    List.getElem?_eq_none (by rwa [List.length_reverse])]
  rfl

section

variable [FloorRing K] {b : Build K} {c : Controls K}
  {s : LimiterState K} {samples : List K} {queue : List (Nat × K)}

namespace Follows

theorem length_push_le
    (h : Follows b (lookahead b c) samples s queue) (x : Option K) :
    (MonotoneQueue.push (lookahead b c) samples.length |scaled c x|
      queue).length ≤ lookahead b c + 1 := by
  have hnext := (h.tracks.push |scaled c x|).length_queue_le
  rwa [List.length_map] at hnext

theorem tracks_push
    (h : Follows b (lookahead b c) samples s queue) (x : Option K) :
    MonotoneQueue.Tracks (lookahead b c) ((samples ++ [scaled c x]).map (|·|))
      (MonotoneQueue.push (lookahead b c) samples.length |scaled c x|
        queue) := by
  have hnext := h.tracks.push |scaled c x|
  rw [List.length_map] at hnext
  rwa [List.map_append]

/-- The ring follows the queue. -/
theorem ring_queued
    (h : Follows b (lookahead b c) samples s queue) (x : Option K) :
    Ring (queueSize b) (queued b c s x).peaks (queued b c s x).peakTimes
      (queued b c s x).peakHead (queued b c s x).peakTail
      (MonotoneQueue.push (lookahead b c) samples.length |scaled c x|
        queue) := by
  have hwidth := @lookahead_le K _ _ b c _
  have hmax := kMaxLookaheadFrames_le b
  have hnear : ∀ e ∈ queue, e.1 ≤ samples.length ∧
      samples.length - e.1 < 2 ^ 64 := by
    intro e he
    have hlt := h.tracks.lt_length he
    have hlate := (h.tracks.recent e he).1
    rw [List.length_map] at hlt hlate
    omega
  have hbits : lookahead b c < 2 ^ 64 := by omega
  have hold := ring_dropOld hbits h.ring h.ring.room.le hnear
  rw [← h.index] at hold
  have hlower := @ring_dropLower K _ _ _ _ _ _ _ |scaled c x| _ hold
    hold.room.le
  have hlength := h.length_push_le x
  rw [MonotoneQueue.push, List.length_append, List.length_singleton]
    at hlength
  have hnext := hlower.concat (by unfold queueSize; omega) samples.length
    |scaled c x|
  rw [← h.index] at hnext
  exact hnext

/-- The level is the maximum of the sample and those of the lookahead. -/
theorem level_isGreatest
    (h : Follows b (lookahead b c) samples s queue) (x : Option K) :
    IsGreatest {v | v ∈ CircularBuffer.recent (lookahead b c + 1)
      ((samples ++ [scaled c x]).map (|·|))} (level b c s x) := by
  have hring := h.ring_queued x
  have htracks := h.tracks_push x
  cases hqueue : MonotoneQueue.push (lookahead b c) samples.length
      |scaled c x| queue with
  | nil =>
      rw [MonotoneQueue.push] at hqueue
      exact absurd hqueue (List.concat_ne_nil _ _)
  | cons e rest =>
      rw [hqueue] at hring
      rw [level, hring.peaks_head]
      exact htracks.isGreatest hqueue

theorem keeps_stored
    (h : Follows b (lookahead b c) samples s queue) (x : Option K) :
    SlidingWindow.Keeps (delaySize b) (stored c s x)
      (List.replicate (delaySize b) 0 ++
        (samples ++ [scaled c x]).map output) := by
  have hnext := h.delay.concat (output (scaled c x))
  rw [List.length_append, List.length_replicate, List.length_map,
    Nat.add_mod_left, ← h.write] at hnext
  rwa [List.map_append, List.map_singleton, ← List.append_assoc]

variable [IsStrictOrderedRing K]

theorem abs_back_le_level
    (h : Follows b (lookahead b c) samples s queue) (x : Option K) :
    |back (samples ++ [scaled c x]) (lookahead b c)| ≤ level b c s x := by
  have hupper := (h.level_isGreatest x).2
  rw [List.map_append, List.map_singleton] at hupper
  have hlast : |scaled c x| ≤ level b c s x := by
    apply hupper
    refine List.mem_iff_getElem?.mpr
      ⟨samples.length - (samples.length + 1 - (lookahead b c + 1)), ?_⟩
    rw [CircularBuffer.recent, List.getElem?_drop, List.length_append,
      List.length_map, List.length_singleton]
    rw [show samples.length + 1 - (lookahead b c + 1) +
      (samples.length - (samples.length + 1 - (lookahead b c + 1))) =
      samples.length by omega]
    rw [List.getElem?_append_right (by rw [List.length_map])]
    simp
  by_cases hfar : (samples ++ [scaled c x]).length ≤ lookahead b c
  · rw [back_of_le hfar, abs_zero]
    exact (abs_nonneg _).trans hlast
  · have hback := back_of_lt (not_le.mp hfar)
    apply (h.level_isGreatest x).2
    refine List.mem_iff_getElem?.mpr ⟨0, ?_⟩
    rw [CircularBuffer.recent, List.getElem?_drop, List.length_map,
      Nat.add_zero, List.getElem?_map]
    rw [show (samples ++ [scaled c x]).length - (lookahead b c + 1) =
      (samples ++ [scaled c x]).length - 1 - lookahead b c by omega, hback]
    rfl

theorem delayed_eq
    (h : Follows b (lookahead b c) samples s queue) (x : Option K) :
    delayed b c s x =
      output (back (samples ++ [scaled c x]) (lookahead b c)) := by
  have hwidth := @lookahead_le K _ _ b c _
  have hkeeps := h.keeps_stored x
  have hlt : delaySize b + samples.length - lookahead b c <
      (List.replicate (delaySize b) (0 : K) ++
        (samples ++ [scaled c x]).map output).length := by
    simp only [List.length_append, List.length_replicate, List.length_map,
      List.length_singleton]
    omega
  have hslot := hkeeps _ hlt (by
    simp only [List.length_append, List.length_replicate, List.length_map,
      List.length_singleton]
    unfold delaySize
    omega)
  have hread : (s.writeIndex + delaySize b - lookahead b c) % delaySize b =
      (delaySize b + samples.length - lookahead b c) % delaySize b := by
    rw [h.write, Nat.add_sub_assoc (by unfold delaySize; omega),
      Nat.mod_add_mod, Nat.add_comm (delaySize b) samples.length,
      Nat.add_sub_assoc (by unfold delaySize; omega)]
  rw [delayed, hread, hslot, ← Option.some.injEq,
    ← List.getElem?_eq_getElem hlt]
  by_cases hfar : (samples ++ [scaled c x]).length ≤ lookahead b c
  · rw [back_of_le hfar, output_of_abs_le (by simp [floatMax_pos.le])]
    rw [List.length_append, List.length_singleton] at hfar
    rw [List.getElem?_append_left (by
      rw [List.length_replicate]; unfold delaySize at *; omega)]
    rw [List.getElem?_replicate, if_pos (by unfold delaySize at *; omega)]
  · have hback := back_of_lt (not_le.mp hfar)
    rw [List.length_append, List.length_singleton] at hfar hback
    rw [List.getElem?_append_right (by rw [List.length_replicate]; omega),
      List.length_replicate, List.getElem?_map]
    rw [show delaySize b + samples.length - lookahead b c - delaySize b =
      samples.length + 1 - 1 - lookahead b c by omega, hback]
    rfl

theorem level_nonneg
    (h : Follows b (lookahead b c) samples s queue) (x : Option K) :
    0 ≤ level b c s x :=
  (abs_nonneg _).trans (h.abs_back_le_level x)

end Follows

/-! ## The gain -/

theorem level_mul_target_le (x : Option K) :
    level b c s x * target b c s x ≤ ceiling b c := by
  unfold target
  split
  · rw [mul_div_cancel₀ _ (ceiling_pos.trans ‹_›).ne']
  · rw [mul_one]
    exact not_lt.mp ‹_›

variable [IsStrictOrderedRing K]

theorem target_pos (x : Option K) : 0 < target b c s x := by
  unfold target
  split
  · exact div_pos ceiling_pos (ceiling_pos.trans ‹_›)
  · exact one_pos

theorem target_le_one (x : Option K) : target b c s x ≤ 1 := by
  unfold target
  split
  · exact (div_le_one (ceiling_pos.trans ‹_›)).mpr (le_of_lt ‹_›)
  · exact le_rfl

/-- The gain is never above the target: it falls to it at once. -/
theorem nextGain_le_target (x : Option K) :
    nextGain b c s x ≤ target b c s x := by
  unfold nextGain
  split
  · exact le_rfl
  · have hle : s.gain - target b c s x ≤ 0 := sub_nonpos.mpr (not_lt.mp ‹_›)
    have hstep := mul_nonpos_of_nonneg_of_nonpos
      (@release_nonneg K _ _ b c) hle
    linarith

theorem nextGain_pos (hgain : 0 < s.gain) (x : Option K) :
    0 < nextGain b c s x := by
  unfold nextGain
  split
  · exact target_pos x
  · have hle : s.gain - target b c s x ≤ 0 := sub_nonpos.mpr (not_lt.mp ‹_›)
    have hstep := mul_le_mul_of_nonpos_right
      (@release_le_one K _ _ b c _) hle
    linarith

theorem nextGain_le_one (x : Option K) : nextGain b c s x ≤ 1 :=
  (nextGain_le_target x).trans (target_le_one x)

namespace Follows

theorem abs_delayed_mul_le
    (h : Follows b (lookahead b c) samples s queue) (x : Option K) :
    |delayed b c s x * nextGain b c s x| ≤ ceiling b c := by
  have hgain := nextGain_pos (b := b) (c := c) h.gain_pos x
  calc |delayed b c s x * nextGain b c s x|
      = |delayed b c s x| * nextGain b c s x := by
        rw [abs_mul, abs_of_pos hgain]
    _ ≤ level b c s x * target b c s x := by
        rw [h.delayed_eq x]
        exact mul_le_mul
          ((abs_output_le_abs _).trans (h.abs_back_le_level x))
          (nextGain_le_target x) hgain.le (h.level_nonneg x)
    _ ≤ ceiling b c := level_mul_target_le x

theorem product_eq
    (h : Follows b (lookahead b c) samples s queue) (x : Option K) :
    product b c s x = delayed b c s x * nextGain b c s x := by
  have hgain := nextGain_pos (b := b) (c := c) h.gain_pos x
  apply output_of_abs_le
  rw [abs_mul, abs_of_pos hgain]
  refine (mul_le_of_le_one_right (abs_nonneg _) (nextGain_le_one x)).trans ?_
  rw [h.delayed_eq x]
  exact abs_output_le _

/-- The safety clamp changes nothing. -/
theorem clamp_product
    (h : Follows b (lookahead b c) samples s queue) (x : Option K) :
    clamp (product b c s x) (-ceiling b c) (ceiling b c) =
      product b c s x := by
  apply clamp_of_abs_le
  rw [h.product_eq x]
  exact h.abs_delayed_mul_le x

/-- One sample. -/
theorem step
    (h : Follows b (lookahead b c) samples s queue) (x : Option K) :
    Follows b (lookahead b c) (samples ++ [scaled c x])
      (limitSample b c s x).1
      (MonotoneQueue.push (lookahead b c) samples.length |scaled c x|
        queue) where
  tracks := h.tracks_push x
  ring := h.ring_queued x
  index := by
    rw [List.length_append, List.length_singleton, UInt64.ofNat_add, ← h.index]
    rfl
  delay := h.keeps_stored x
  write := by
    rw [limitSample, h.write, Nat.mod_add_mod, List.length_append,
      List.length_singleton]
  gain_pos := nextGain_pos h.gain_pos x
  gain_le := nextGain_le_one x
  initialized := h.initialized
  frames := h.frames

/-- The samples of one call. -/
theorem steps (h : Follows b (lookahead b c) samples s queue)
    (input : List (Option K)) :
    ∃ queue', Follows b (lookahead b c) (samples ++ input.map (scaled c))
      (Transducer.state (limitSample b c) s input) queue' := by
  induction input generalizing samples s queue with
  | nil => exact ⟨queue, by rwa [List.map_nil, List.append_nil]⟩
  | cons x input ih =>
      obtain ⟨queue', hnext⟩ := ih (h.step x)
      rw [List.append_assoc] at hnext
      exact ⟨queue', hnext⟩

end Follows

/-! ## All calls -/

/-- What the calls since the last change of the lookahead have put in. -/
structure History (K : Type) where
  lookahead : Option Nat
  samples : List K

def History.kept (h : History K) (width : Nat) : List K :=
  if h.lookahead = some width then h.samples else []

def History.call (b : Build K) (h : History K) (call : Call K) : History K :=
  if call.input = [] then h
  else
    ⟨some (Limiter.lookahead b call.controls),
      h.kept (Limiter.lookahead b call.controls) ++
        call.input.map (scaled call.controls)⟩

def history (b : Build K) (calls : List (Call K)) : History K :=
  calls.foldl (History.call b) ⟨none, []⟩

/-- The state belongs to the history. -/
def Recalls (b : Build K) (h : History K) (s : LimiterState K) : Prop :=
  (h.lookahead = none ∧ s = LimiterState.zero) ∨
    ∃ width queue, h.lookahead = some width ∧
      Follows b width h.samples s queue

omit [IsStrictOrderedRing K] in
theorem follows_zero (b : Build K) (c : Controls K) :
    Follows b (lookahead b c) []
      { LimiterState.zero with
        initialized := true
        lookaheadFrames := lookahead b c } [] where
  tracks := .nil
  ring :=
    { head_lt := Nat.succ_pos _
      tail_eq := by simp [LimiterState.zero]
      room := Nat.succ_pos _
      peaks := .nil
      times := .nil }
  index := rfl
  delay := by
    intro i hi _
    simp only [LimiterState.zero, List.map_nil, List.append_nil,
      List.getElem_replicate]
  write := by simp [LimiterState.zero]
  gain_pos := one_pos
  gain_le := le_rfl
  initialized := rfl
  frames := rfl

omit [IsStrictOrderedRing K] in
theorem Follows.prepared_eq {s' : LimiterState K}
    (h : Follows b (lookahead b c) samples s queue)
    (hcleared : cleared b c s' = s) : prepared b c s' = s := by
  have hwrite : s.writeIndex % delaySize b = s.writeIndex := by
    rw [h.write, Nat.mod_mod]
  rw [prepared, hcleared, hwrite, clamp_of_mem h.gain_pos.le h.gain_le]

omit [IsStrictOrderedRing K] in
theorem Follows.cleared_eq
    (h : Follows b (lookahead b c) samples s queue) : cleared b c s = s := by
  rw [cleared, if_neg]
  rintro (hfalse | hne)
  · rw [h.initialized] at hfalse
    cases hfalse
  · exact hne h.frames

namespace Recalls

omit [IsStrictOrderedRing K] in
/-- A call starts from the history that its lookahead leaves. -/
theorem prepared {h : History K} (hs : Recalls b h s) (c : Controls K) :
    ∃ queue, Follows b (lookahead b c) (h.kept (lookahead b c))
      (prepared b c s) queue := by
  have hzero := follows_zero b c
  rcases hs with ⟨hnone, rfl⟩ | ⟨width, queue, hsome, hfollows⟩
  · rw [hzero.prepared_eq (if_pos (.inl rfl)), History.kept, hnone,
      if_neg (Option.some_ne_none _).symm]
    exact ⟨[], hzero⟩
  · by_cases hsame : width = lookahead b c
    · subst hsame
      rw [hfollows.prepared_eq hfollows.cleared_eq, History.kept, if_pos hsome]
      exact ⟨queue, hfollows⟩
    · have hchanged : s.initialized = false ∨
          s.lookaheadFrames ≠ lookahead b c := by
        rw [hfollows.frames]
        exact .inr hsame
      rw [hzero.prepared_eq (if_pos hchanged), History.kept, hsome,
        if_neg (fun heq => hsame (Option.some.inj heq))]
      exact ⟨[], hzero⟩

theorem call {h : History K} (hs : Recalls b h s) (call : Call K) :
    Recalls b (h.call b call) (processCall b s call).1 := by
  rw [processCall, processLimiter, History.call]
  by_cases hempty : call.input = []
  · rwa [if_pos hempty, if_pos hempty]
  · rw [if_neg hempty, if_neg hempty]
    obtain ⟨queue, hfollows⟩ := hs.prepared call.controls
    obtain ⟨queue', hnext⟩ := hfollows.steps call.input
    exact .inr ⟨_, queue', rfl, hnext⟩

theorem calls {h : History K} (hs : Recalls b h s) (calls : List (Call K)) :
    Recalls b (calls.foldl (History.call b) h)
      (Transducer.state (processCall b) s calls) := by
  induction calls generalizing h s with
  | nil => exact hs
  | cons call calls ih => exact ih (hs.call call)

end Recalls

theorem recalls_after (b : Build K) (calls : List (Call K)) :
    Recalls b (history b calls) (after b calls) :=
  Recalls.calls (.inl ⟨rfl, rfl⟩) calls

/-! ## Blocks -/

omit [IsStrictOrderedRing K] in
@[simp] theorem processLimiter_nil : processLimiter b c s [] = (s, []) :=
  if_pos rfl

theorem processLimiter_append {h : History K} (hs : Recalls b h s)
    (c : Controls K) (xs ys : List (Option K)) :
    processLimiter b c s (xs ++ ys) =
      ((processLimiter b c (processLimiter b c s xs).1 ys).1,
        (processLimiter b c s xs).2 ++
          (processLimiter b c (processLimiter b c s xs).1 ys).2) := by
  by_cases hxs : xs = []
  · rw [hxs, List.nil_append, processLimiter_nil, List.nil_append]
  by_cases hys : ys = []
  · rw [hys, List.append_nil, processLimiter_nil, List.append_nil]
  have hboth : xs ++ ys ≠ [] := fun h => hxs (List.append_eq_nil_iff.mp h).1
  obtain ⟨queue, hfollows⟩ := hs.prepared c
  obtain ⟨queue', hnext⟩ := hfollows.steps xs
  have hfirst : processLimiter b c s xs =
      (Transducer.state (limitSample b c) (prepared b c s) xs,
        Transducer.outputs (limitSample b c) (prepared b c s) xs) := if_neg hxs
  rw [hfirst, processLimiter, if_neg hboth, processLimiter, if_neg hys,
    hnext.prepared_eq hnext.cleared_eq, Transducer.state_append,
    Transducer.outputs_append]

/-- An input may be cut into blocks. -/
theorem blocks_eq {h : History K} (hs : Recalls b h s) (c : Controls K)
    (blocks : List (List (Option K))) :
    Transducer.state (processCall b) s (blocks.map (Call.mk c)) =
        (processLimiter b c s blocks.flatten).1 ∧
      Transducer.outputs (processCall b) s (blocks.map (Call.mk c)) =
        (processLimiter b c s blocks.flatten).2 := by
  induction blocks generalizing h s with
  | nil => exact ⟨rfl, rfl⟩
  | cons block blocks ih =>
      obtain ⟨hstate, houtputs⟩ := ih (hs.call ⟨c, block⟩)
      rw [List.map_cons, Transducer.state, Transducer.outputs, hstate,
        houtputs, List.flatten_cons, processLimiter_append hs c]
      exact ⟨rfl, rfl⟩

/-! ## The window -/

/-- What holds of a sample: `samples` are those since the lookahead was
changed, times their input gains, this one included. -/
structure WindowExact (b : Build K) (c : Controls K) (samples : List K)
    (s : LimiterState K) (x : Option K) : Prop where
  /-- The ring has the peaks of a queue. -/
  peaks : ∃ queue : List (Nat × K),
    Ring (queueSize b) (limitSample b c s x).1.peaks
      (limitSample b c s x).1.peakTimes (limitSample b c s x).1.peakHead
      (limitSample b c s x).1.peakTail queue ∧
    1 ≤ queue.length ∧ queue.length ≤ lookahead b c + 1 ∧
    lookahead b c + 1 < queueSize b ∧
    queue.Pairwise (fun e f => e.1 < f.1) ∧
    queue.Pairwise (fun e f => f.2 < e.2) ∧
    (samples.length ≤ 2 ^ 64 →
      queue.Pairwise (fun e f => UInt64.ofNat e.1 < UInt64.ofNat f.1))
  level : IsGreatest {v | v ∈ CircularBuffer.recent (lookahead b c + 1)
    (samples.map (|·|))} (level b c s x)
  /-- The delay ring has the delayed sample, within the range of `float`. -/
  delayed_eq : delayed b c s x = output (back samples (lookahead b c))
  gain_pos : 0 < (limitSample b c s x).1.gain
  gain_le : (limitSample b c s x).1.gain ≤ 1
  product_eq : product b c s x =
    output (back samples (lookahead b c)) * (limitSample b c s x).1.gain
  product_le : |product b c s x| ≤ ceiling b c
  output_eq : (limitSample b c s x).2 = [product b c s x]
  exists_gain : ∃ gain, 0 < gain ∧ gain ≤ 1 ∧
    (limitSample b c s x).2 = [back samples (lookahead b c) * gain]

theorem Follows.windowExact
    (h : Follows b (lookahead b c) samples s queue) (x : Option K) :
    WindowExact b c (samples ++ [scaled c x]) s x where
  peaks := by
    have htracks := h.tracks_push x
    refine ⟨_, h.ring_queued x, ?_, h.length_push_le x, ?_, htracks.times,
      htracks.peaks, ?_⟩
    · rw [MonotoneQueue.push, List.length_append, List.length_singleton]
      omega
    · have hwidth := @lookahead_le K _ _ b c _
      unfold queueSize
      omega
    · intro hlength
      refine htracks.times.imp_of_mem ?_
      intro e f he hf hlt
      have hfits := htracks.lt_length hf
      rw [List.length_map] at hfits
      rw [UInt64.lt_iff_toNat_lt, UInt64.toNat_ofNat', UInt64.toNat_ofNat',
        Nat.mod_eq_of_lt (by omega), Nat.mod_eq_of_lt (by omega)]
      exact hlt
  level := h.level_isGreatest x
  delayed_eq := h.delayed_eq x
  gain_pos := nextGain_pos h.gain_pos x
  gain_le := nextGain_le_one x
  product_eq := by
    rw [h.product_eq x, h.delayed_eq x]
    rfl
  product_le := by
    rw [h.product_eq x]
    exact h.abs_delayed_mul_le x
  output_eq := by rw [limitSample, h.clamp_product x]
  exists_gain := by
    obtain ⟨factor, hpos, hle, hfactor⟩ :=
      output_eq_mul (back (samples ++ [scaled c x]) (lookahead b c))
    have hgain : 0 < nextGain b c s x := nextGain_pos h.gain_pos x
    refine ⟨factor * nextGain b c s x, mul_pos hpos hgain,
      mul_le_one₀ hle hgain.le (nextGain_le_one x), ?_⟩
    rw [limitSample, h.clamp_product x, h.product_eq x, h.delayed_eq x,
      hfactor, mul_assoc]

end

/-- The state in which a sample of a call is processed. -/
def before [FloorRing K] (b : Build K) (calls : List (Call K))
    (c : Controls K) (input : List (Option K)) : LimiterState K :=
  Transducer.state (limitSample b c) (prepared b c (after b calls)) input

/-- The samples times their input gains since the last change of the lookahead
until a sample of a call. -/
def samplesUntil [FloorRing K] (b : Build K) (calls : List (Call K))
    (c : Controls K) (input : List (Option K)) (x : Option K) : List K :=
  (history b calls).kept (lookahead b c) ++ input.map (scaled c) ++
    [scaled c x]

/-- The functions of the library in exact arithmetic. -/
noncomputable def exactBuild (rate : SampleRate) : Build ℝ where
  rate := rate
  linear := fun db => 10 ^ (db / 20)
  coefficient := fun ms => Real.exp (-1000 / (ms * rate.val))
  linear_pos := fun _ => Real.rpow_pos_of_pos (by norm_num) _
  coefficient_nonneg := fun _ => (Real.exp_pos _).le
  coefficient_le_one := by
    intro ms hms
    rw [Real.exp_le_one_iff]
    exact div_nonpos_of_nonpos_of_nonneg (by norm_num) (by positivity)

end Audiox.Limiter
