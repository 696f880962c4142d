import Audiox.Support.SlidingWindow
import Audiox.Support.Transducer
import Mathlib

/-!
# The overload warning

`AudioHealth` counts the xruns of the audio thread and raises a warning when
too many of them come close together.  It remembers four of them only.  Times
are milliseconds of the monotonic clock; adding a constant to one does not wrap
around.
-/

namespace Audiox

structure AudioHealth where
  graceUntil : Nat
  total : Nat
  warningAt : Nat
  lastXrunAt : Nat
  next : Nat
  recent : Nat → Nat

namespace AudioHealth

def kGraceMs : Nat := 60000
def kDeviceGraceMs : Nat := 30000
def kBufferGraceMs : Nat := 10000
def kWindowMs : Nat := 30000
def kCooldownMs : Nat := 120000
def kThreshold : Nat := 5

def started (now : Nat) : AudioHealth where
  graceUntil := now + kGraceMs
  total := 0
  warningAt := 0
  lastXrunAt := 0
  next := 0
  recent := fun _ => 0

def extendGrace (h : AudioHealth) (limit : Nat) : AudioHealth :=
  { h with graceUntil := if h.graceUntil < limit then limit else h.graceUntil }

def devicesChanged (h : AudioHealth) (now : Nat) : AudioHealth :=
  h.extendGrace (now + kDeviceGraceMs)

def bufferChanged (h : AudioHealth) (now : Nat) : AudioHealth :=
  h.extendGrace (now + kBufferGraceMs)

/-- A difference of unsigned 64-bit numbers. -/
def minus (a b : Nat) : Nat :=
  if b ≤ a then a - b else 2 ^ 64 - (b - a)

def slot (h : AudioHealth) : Nat :=
  h.next % (kThreshold - 1)

/-- Every xrun is counted. -/
def counted (h : AudioHealth) (now : Nat) : AudioHealth :=
  { h with total := (h.total + 1) % 2 ^ 64, lastXrunAt := now }

/-- An xrun outside the grace period takes the next slot. -/
def remembered (h : AudioHealth) (now : Nat) : AudioHealth :=
  { h.counted now with
    next := (h.next + 1) % 2 ^ 64
    recent := Function.update h.recent h.slot now }

/-- The xrun that is overwritten is too old, or there was none. -/
def Few (h : AudioHealth) (now : Nat) : Prop :=
  h.recent h.slot = 0 ∨ h.recent h.slot < h.graceUntil ∨
    now < h.recent h.slot ∨ kWindowMs < minus now (h.recent h.slot)

instance (h : AudioHealth) (now : Nat) : Decidable (h.Few now) := by
  unfold Few
  infer_instance

/-- The last warning is recent. -/
def CoolingDown (h : AudioHealth) (now : Nat) : Prop :=
  h.warningAt ≠ 0 ∧ minus now h.warningAt < kCooldownMs

instance (h : AudioHealth) (now : Nat) : Decidable (h.CoolingDown now) := by
  unfold CoolingDown
  infer_instance

def recordXrun (h : AudioHealth) (now : Nat) : AudioHealth × Bool :=
  if now < h.graceUntil then (h.counted now, false)
  else if h.Few now then (h.remembered now, false)
  else if h.CoolingDown now then (h.remembered now, false)
  else ({ h.remembered now with warningAt := now }, true)

def warningActive (h : AudioHealth) (now : Nat) : Bool :=
  h.warningAt ≠ 0 ∧ h.graceUntil ≤ h.warningAt ∧ h.lastXrunAt ≤ now ∧
    minus now h.lastXrunAt ≤ kWindowMs

end AudioHealth

/-! ## Histories of calls -/

inductive HealthCall where
  | recordXrun (now : Nat)
  | devicesChanged (now : Nat)
  | bufferChanged (now : Nat)
deriving DecidableEq, Repr

def HealthCall.time : HealthCall → Nat
  | recordXrun now => now
  | devicesChanged now => now
  | bufferChanged now => now

/-- What is remarked about a call of `recordXrun`: its time, the end of the
grace period at that time, and its result. -/
structure XrunRemark where
  time : Nat
  graceUntil : Nat
  warned : Bool
deriving DecidableEq, Repr

namespace AudioHealth

def step (h : AudioHealth) : HealthCall → AudioHealth × List XrunRemark
  | .recordXrun now =>
      ((h.recordXrun now).1, [⟨now, h.graceUntil, (h.recordXrun now).2⟩])
  | .devicesChanged now => (h.devicesChanged now, [])
  | .bufferChanged now => (h.bufferChanged now, [])

/-- The state after the calls. -/
def after (start : Nat) (calls : List HealthCall) : AudioHealth :=
  Transducer.state step (started start) calls

def remarks (start : Nat) (calls : List HealthCall) : List XrunRemark :=
  Transducer.outputs step (started start) calls

/-- The times of the xruns that were outside the grace period. -/
def outsideGrace (remarks : List XrunRemark) : List Nat :=
  (remarks.filter fun x => x.graceUntil ≤ x.time).map XrunRemark.time

/-- The calls come in order, at times that are not zero. -/
def InOrder (calls : List HealthCall) : Prop :=
  (calls.map HealthCall.time).Pairwise (· ≤ ·) ∧ ∀ c ∈ calls, c.time ≠ 0

section

variable {start : Nat} {calls : List HealthCall} {call : HealthCall}

theorem after_concat : after start (calls ++ [call]) =
    ((after start calls).step call).1 :=
  Transducer.state_append calls [call]

theorem remarks_concat : remarks start (calls ++ [call]) =
    remarks start calls ++ ((after start calls).step call).2 := by
  rw [remarks, Transducer.outputs_append, Transducer.outputs,
    Transducer.outputs, List.append_nil]
  rfl

theorem outsideGrace_append (xs ys : List XrunRemark) :
    outsideGrace (xs ++ ys) = outsideGrace xs ++ outsideGrace ys := by
  rw [outsideGrace, List.filter_append, List.map_append]
  rfl

theorem InOrder.of_concat (h : InOrder (calls ++ [call])) : InOrder calls := by
  obtain ⟨hsorted, hpos⟩ := h
  rw [List.map_append, List.pairwise_append] at hsorted
  exact ⟨hsorted.1, fun c hc => hpos c (by simp [hc])⟩

theorem InOrder.le (h : InOrder (calls ++ [call])) :
    ∀ c ∈ calls, c.time ≤ call.time := by
  intro c hc
  have hsorted := h.1
  rw [List.map_append, List.pairwise_append] at hsorted
  exact hsorted.2.2 _ (List.mem_map_of_mem hc) _ (by simp)

/-- The remarks are in the order of the calls. -/
theorem remarks_sublist :
    ((remarks start calls).map XrunRemark.time).Sublist
      (calls.map HealthCall.time) := by
  induction calls using List.reverseRecOn with
  | nil => exact List.Sublist.refl _
  | append_singleton calls call ih =>
      rw [remarks_concat, List.map_append, List.map_append]
      apply ih.append
      cases call with
      | recordXrun now => exact List.Sublist.refl _
      | devicesChanged now => exact List.nil_sublist _
      | bufferChanged now => exact List.nil_sublist _

theorem outsideGrace_sublist :
    (outsideGrace (remarks start calls)).Sublist
      (calls.map HealthCall.time) :=
  (List.filter_sublist.map _).trans remarks_sublist

theorem remark_time_le (h : InOrder (calls ++ [call])) :
    ∀ x ∈ remarks start calls, x.time ≤ call.time := by
  intro x hx
  obtain ⟨c, hc, heq⟩ := List.mem_map.mp
    (remarks_sublist.subset (List.mem_map_of_mem hx))
  rw [← heq]
  exact h.le c hc

theorem outsideGrace_ne_zero (h : InOrder calls) :
    ∀ t ∈ outsideGrace (remarks start calls), t ≠ 0 := by
  intro t ht
  obtain ⟨c, hc, heq⟩ := List.mem_map.mp (outsideGrace_sublist.subset ht)
  rw [← heq]
  exact h.2 c hc

end

/-! ## What one call does -/

variable {h : AudioHealth} {xs : List XrunRemark} {now : Nat}

theorem recordXrun_of_lt (hgrace : now < h.graceUntil) :
    h.recordXrun now = (h.counted now, false) := by
  rw [recordXrun, if_pos hgrace]

theorem recordXrun_warned : (h.recordXrun now).2 = true ↔
    h.graceUntil ≤ now ∧ ¬ h.Few now ∧ ¬ h.CoolingDown now := by
  rw [recordXrun]
  split_ifs with hgrace hfew hcool
  · simp [Nat.not_le.mpr hgrace]
  · simp [hfew]
  · simp [hcool]
  · simp [Nat.le_of_not_lt hgrace, hfew, hcool]

theorem recordXrun_state (hgrace : h.graceUntil ≤ now) :
    (h.recordXrun now).1 =
      { h.remembered now with
        warningAt := if (h.recordXrun now).2 then now else h.warningAt } := by
  rw [recordXrun, if_neg (Nat.not_lt.mpr hgrace)]
  split_ifs <;> simp_all [remembered, counted]

/-! ## What the slots remember -/

/-- The slots have the latest xruns outside the grace period. -/
structure Remembers (h : AudioHealth) (xs : List XrunRemark) : Prop where
  keeps : SlidingWindow.Keeps (kThreshold - 1) h.recent (outsideGrace xs)
  unused : ∀ i, (outsideGrace xs).length ≤ i → h.recent i = 0
  slot : h.slot = (outsideGrace xs).length % (kThreshold - 1)

/-- The time of the latest warning is remembered. -/
structure Warned (h : AudioHealth) (xs : List XrunRemark) : Prop where
  le : ∀ x ∈ xs, x.warned = true → x.time ≤ h.warningAt
  raised : h.warningAt ≠ 0 →
    ∃ x ∈ xs, x.warned = true ∧ x.time = h.warningAt

theorem outsideGrace_concat_of_lt (hgrace : now < h.graceUntil)
    (warned : Bool) :
    outsideGrace (xs ++ [⟨now, h.graceUntil, warned⟩]) = outsideGrace xs := by
  rw [outsideGrace_append]
  simp [outsideGrace, hgrace]

theorem outsideGrace_concat_of_le (hgrace : h.graceUntil ≤ now)
    (warned : Bool) :
    outsideGrace (xs ++ [⟨now, h.graceUntil, warned⟩]) =
      outsideGrace xs ++ [now] := by
  rw [outsideGrace_append]
  simp [outsideGrace, hgrace]

theorem Remembers.remembered (hrem : h.Remembers xs)
    (hgrace : h.graceUntil ≤ now) (warned : Bool) :
    (h.remembered now).Remembers
      (xs ++ [⟨now, h.graceUntil, warned⟩]) := by
  constructor
  · rw [outsideGrace_concat_of_le hgrace, AudioHealth.remembered, hrem.slot]
    exact hrem.keeps.concat now
  · intro i hi
    rw [outsideGrace_concat_of_le hgrace, List.length_append,
      List.length_singleton] at hi
    have hne : i ≠ h.slot := by
      have hle := Nat.mod_le (outsideGrace xs).length (kThreshold - 1)
      rw [hrem.slot]
      omega
    have hupdate : (h.remembered now).recent =
        Function.update h.recent h.slot now := rfl
    rw [hupdate, Function.update_of_ne hne]
    exact hrem.unused i (by omega)
  · have hslot := hrem.slot
    rw [outsideGrace_concat_of_le hgrace, List.length_append,
      List.length_singleton]
    simp only [AudioHealth.slot, AudioHealth.remembered, kThreshold]
      at hslot ⊢
    omega

theorem remembers_step (hrem : h.Remembers xs) (call : HealthCall) :
    (h.step call).1.Remembers (xs ++ (h.step call).2) := by
  cases call with
  | recordXrun now =>
      by_cases hgrace : now < h.graceUntil
      · simp only [step, recordXrun_of_lt hgrace]
        constructor
        · rw [outsideGrace_concat_of_lt hgrace]
          exact hrem.keeps
        · rw [outsideGrace_concat_of_lt hgrace]
          exact hrem.unused
        · rw [outsideGrace_concat_of_lt hgrace]
          exact hrem.slot
      · have hle := Nat.le_of_not_lt hgrace
        have hnext := hrem.remembered hle (h.recordXrun now).2
        simp only [step, recordXrun_state hle]
        exact ⟨hnext.keeps, hnext.unused, hnext.slot⟩
  | devicesChanged now =>
      rw [step, List.append_nil]
      exact ⟨hrem.keeps, hrem.unused, hrem.slot⟩
  | bufferChanged now =>
      rw [step, List.append_nil]
      exact ⟨hrem.keeps, hrem.unused, hrem.slot⟩

theorem warned_step (hwarned : h.Warned xs) {call : HealthCall}
    (hle : ∀ x ∈ xs, x.time ≤ call.time) :
    (h.step call).1.Warned (xs ++ (h.step call).2) := by
  cases call with
  | recordXrun now =>
      by_cases hresult : (h.recordXrun now).2 = true
      · have hgrace := (recordXrun_warned.mp hresult).1
        simp only [step, recordXrun_state hgrace, hresult, if_true]
        constructor
        · intro x hx _
          rcases List.mem_append.mp hx with hx | hx
          · exact hle x hx
          · rw [List.mem_singleton.mp hx]
        · intro _
          exact ⟨⟨now, h.graceUntil, true⟩, by simp, rfl, rfl⟩
      · have hsame : (h.recordXrun now).1.warningAt = h.warningAt := by
          by_cases hgrace : now < h.graceUntil
          · rw [recordXrun_of_lt hgrace]
            rfl
          · rw [recordXrun_state (Nat.le_of_not_lt hgrace)]
            simp [hresult]
        simp only [step]
        constructor
        · intro x hx hxwarned
          rw [hsame]
          rcases List.mem_append.mp hx with hx | hx
          · exact hwarned.le x hx hxwarned
          · rw [List.mem_singleton.mp hx] at hxwarned
            exact absurd hxwarned hresult
        · rw [hsame]
          intro hne
          obtain ⟨x, hx, hfound⟩ := hwarned.raised hne
          exact ⟨x, List.mem_append_left _ hx, hfound⟩
  | devicesChanged now =>
      rw [step, List.append_nil]
      exact ⟨hwarned.le, hwarned.raised⟩
  | bufferChanged now =>
      rw [step, List.append_nil]
      exact ⟨hwarned.le, hwarned.raised⟩

theorem remembers_after (start : Nat) (calls : List HealthCall) :
    (after start calls).Remembers (remarks start calls) := by
  induction calls using List.reverseRecOn with
  | nil => exact ⟨SlidingWindow.Keeps.nil, fun _ _ => rfl, rfl⟩
  | append_singleton calls call ih =>
      rw [after_concat, remarks_concat]
      exact remembers_step ih call

theorem warned_after (start : Nat) {calls : List HealthCall}
    (h : InOrder calls) :
    (after start calls).Warned (remarks start calls) := by
  induction calls using List.reverseRecOn with
  | nil => exact ⟨by simp [remarks, Transducer.outputs], fun hne => absurd rfl hne⟩
  | append_singleton calls call ih =>
      rw [after_concat, remarks_concat]
      exact warned_step (ih h.of_concat) (remark_time_le h)

/-! ## When the warning is raised -/

theorem minus_of_le {a b : Nat} (hle : b ≤ a) : minus a b = a - b := by
  rw [minus, if_pos hle]

/-- The xrun that is overwritten is recent enough if a whole threshold of them
lies in the window. -/
theorem not_few_iff (hrem : h.Remembers xs)
    (hpos : ∀ t ∈ outsideGrace xs, t ≠ 0)
    (hsorted : (outsideGrace xs ++ [now]).Pairwise (· ≤ ·)) :
    ¬ h.Few now ↔ kThreshold ≤ (outsideGrace xs ++ [now]).countP
      (max h.graceUntil (now - kWindowMs) ≤ ·) := by
  have hiff : kThreshold - 1 < (outsideGrace xs ++ [now]).countP
        (max h.graceUntil (now - kWindowMs) ≤ ·) ↔
      kThreshold - 1 ≤ (outsideGrace xs).length ∧
        max h.graceUntil (now - kWindowMs) ≤
          h.recent ((outsideGrace xs).length % (kThreshold - 1)) :=
    hrem.keeps.lt_countP_iff (by decide) hsorted
  rw [← hrem.slot] at hiff
  refine Iff.trans ?_ hiff.symm
  by_cases hfull : kThreshold - 1 ≤ (outsideGrace xs).length
  · obtain ⟨older, newer, -, heq⟩ := hrem.keeps.eq_append hfull (by decide)
    rw [← hrem.slot] at heq
    have hmem : h.recent h.slot ∈ outsideGrace xs := by
      rw [heq]
      simp
    have hne := hpos _ hmem
    have hle : h.recent h.slot ≤ now :=
      (List.pairwise_append.mp hsorted).2.2 _ hmem now (by simp)
    simp only [Few, minus_of_le hle, hfull, true_and, max_le_iff]
    omega
  · have hzero : h.recent h.slot = 0 := by
      rw [hrem.slot, Nat.mod_eq_of_lt (Nat.lt_of_not_le hfull)]
      exact hrem.unused _ le_rfl
    simp only [Few, hzero, true_or, not_true, hfull, false_and]

theorem not_coolingDown_iff (hwarned : h.Warned xs)
    (hpos : ∀ x ∈ xs, x.time ≠ 0) (hle : ∀ x ∈ xs, x.time ≤ now) :
    ¬ h.CoolingDown now ↔
      ∀ x ∈ xs, x.warned = true → x.time + kCooldownMs ≤ now := by
  rw [CoolingDown]
  constructor
  · intro hcool x hx hxwarned
    have hlast := hwarned.le x hx hxwarned
    have hne : h.warningAt ≠ 0 := by
      have hxpos := hpos x hx
      omega
    obtain ⟨y, hy, -, hyt⟩ := hwarned.raised hne
    have hynow := hle y hy
    rw [hyt] at hynow
    rw [minus_of_le hynow] at hcool
    omega
  · rintro hall ⟨hne, hrecent⟩
    obtain ⟨y, hy, hywarned, hyt⟩ := hwarned.raised hne
    have hynow := hle y hy
    have hfar := hall y hy hywarned
    rw [hyt] at hynow hfar
    rw [minus_of_le hynow] at hrecent
    omega

theorem graceUntil_le_step (h : AudioHealth) (call : HealthCall) :
    h.graceUntil ≤ (h.step call).1.graceUntil := by
  cases call with
  | recordXrun now =>
      by_cases hgrace : now < h.graceUntil
      · rw [step, recordXrun_of_lt hgrace]
        exact le_rfl
      · rw [step, recordXrun_state (Nat.le_of_not_lt hgrace)]
        exact le_rfl
  | devicesChanged now =>
      simp only [step, devicesChanged, extendGrace]
      split_ifs <;> omega
  | bufferChanged now =>
      simp only [step, bufferChanged, extendGrace]
      split_ifs <;> omega

theorem graceUntil_le_after (start : Nat) (calls more : List HealthCall) :
    (after start calls).graceUntil ≤
      (after start (calls ++ more)).graceUntil := by
  have hmore : after start (calls ++ more) =
      Transducer.state step (after start calls) more :=
    Transducer.state_append calls more
  rw [hmore]
  refine Transducer.state_invariant
    (fun h : AudioHealth => (after start calls).graceUntil ≤ h.graceUntil)
    ?_ le_rfl more
  intro h call hle
  exact hle.trans (graceUntil_le_step h call)

/-- An xrun raises the warning exactly if it is outside the grace period, a
threshold of xruns outside it lies in the window, and no warning is recent; the
end of the grace period only moves forward. -/
theorem recordXrun_warns_iff (start : Nat) (calls : List HealthCall)
    (now : Nat) (h : InOrder (calls ++ [.recordXrun now])) :
    (((after start calls).recordXrun now).2 = true ↔
      (after start calls).graceUntil ≤ now ∧
      kThreshold ≤
        (outsideGrace (remarks start (calls ++ [.recordXrun now]))).countP
          (fun t => max (after start calls).graceUntil (now - kWindowMs) ≤ t ∧
            t ≤ now) ∧
      ∀ x ∈ remarks start calls, x.warned = true →
        x.time + kCooldownMs ≤ now) ∧
    ∀ more : List HealthCall, (after start calls).graceUntil ≤
      (after start (calls ++ more)).graceUntil := by
  refine ⟨?_, graceUntil_le_after start calls⟩
  have hbefore := h.of_concat
  have hle : ∀ x ∈ remarks start calls, x.time ≤ now := remark_time_le h
  have hpos : ∀ x ∈ remarks start calls, x.time ≠ 0 := by
    intro x hx
    obtain ⟨c, hc, heq⟩ := List.mem_map.mp
      (remarks_sublist.subset (List.mem_map_of_mem hx))
    rw [← heq]
    exact hbefore.2 c hc
  rw [recordXrun_warned]
  apply and_congr_right
  intro hgrace
  have hconcat : outsideGrace (remarks start (calls ++ [.recordXrun now])) =
      outsideGrace (remarks start calls) ++ [now] := by
    rw [remarks_concat]
    exact outsideGrace_concat_of_le hgrace _
  have hsorted : (outsideGrace (remarks start calls) ++ [now]).Pairwise
      (· ≤ ·) := by
    rw [← hconcat]
    exact h.1.sublist outsideGrace_sublist
  have hupper : ∀ t ∈ outsideGrace (remarks start calls) ++ [now],
      t ≤ now := by
    intro t ht
    rcases List.mem_append.mp ht with ht | ht
    · exact (List.pairwise_append.mp hsorted).2.2 t ht now (by simp)
    · exact (List.mem_singleton.mp ht).le
  have hcount : (outsideGrace (remarks start calls) ++ [now]).countP
        (fun t => max (after start calls).graceUntil (now - kWindowMs) ≤ t ∧
          t ≤ now) =
      (outsideGrace (remarks start calls) ++ [now]).countP
        (max (after start calls).graceUntil (now - kWindowMs) ≤ ·) := by
    apply List.countP_congr
    intro t ht
    simp [hupper t ht]
  rw [hconcat, hcount, not_few_iff (remembers_after start calls)
      (outsideGrace_ne_zero hbefore) hsorted,
    not_coolingDown_iff (warned_after start hbefore) hpos hle]

/-- The fifth xrun of a series right after the first grace period. -/
theorem recordXrun_warns_fifth :
    ((after 0 [.recordXrun 60000, .recordXrun 60100, .devicesChanged 60100,
      .recordXrun 90100, .recordXrun 90200, .recordXrun 90300,
      .recordXrun 90400]).recordXrun 90500).2 = true :=
  (recordXrun_warns_iff 0 [.recordXrun 60000, .recordXrun 60100,
      .devicesChanged 60100, .recordXrun 90100, .recordXrun 90200,
      .recordXrun 90300, .recordXrun 90400] 90500
    ⟨by decide, by decide⟩).1.mpr ⟨by decide, by decide, by decide⟩

end AudioHealth

end Audiox
