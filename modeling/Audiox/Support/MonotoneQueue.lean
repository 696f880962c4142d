import Audiox.Support.CircularBuffer
import Mathlib

/-!
# Monotone queues

The maximum of the latest values of a list that grows, from a queue of values
with their positions.  A value that joins the queue removes those at its end
that are not above it, and the front is removed when it is too old.
-/

namespace MonotoneQueue

variable {α : Type} {width : Nat} {values : List α}
  {queue : List (Nat × α)} {a : α}

/-! ## The two ends -/

/-- Without the entries at the front that lie more than `width` back. -/
def expire (width now : Nat) (queue : List (Nat × α)) : List (Nat × α) :=
  queue.dropWhile (fun e => decide (width < now - e.1))

theorem expire_sublist (now : Nat) : (expire width now queue).Sublist queue :=
  List.dropWhile_sublist _

theorem mem_expire {now : Nat}
    (htimes : queue.Pairwise (fun e f => e.1 < f.1)) {e : Nat × α} :
    e ∈ expire width now queue ↔ e ∈ queue ∧ now ≤ e.1 + width := by
  induction queue with
  | nil => simp [expire]
  | cons f queue ih =>
      obtain ⟨hf, hrest⟩ := List.pairwise_cons.mp htimes
      by_cases hold : width < now - f.1
      · rw [expire, List.dropWhile_cons_of_pos (by simpa using hold), ← expire,
          ih hrest, List.mem_cons]
        constructor
        · exact fun h => ⟨.inr h.1, h.2⟩
        · rintro ⟨rfl | he, hnow⟩
          · omega
          · exact ⟨he, hnow⟩
      · rw [expire, List.dropWhile_cons_of_neg (by simpa using hold)]
        constructor
        · intro he
          refine ⟨he, ?_⟩
          rcases List.mem_cons.mp he with rfl | he
          · omega
          · have hlater := hf e he
            omega
        · exact And.left

variable [LinearOrder α]

/-- Without the entries at the end that are not above the value. -/
def prune (a : α) (queue : List (Nat × α)) : List (Nat × α) :=
  queue.rdropWhile (fun e => decide (e.2 ≤ a))

theorem prune_isPrefixOf : prune a queue <+: queue :=
  List.rdropWhile_prefix _ _

/-- What is left is above the value. -/
theorem lt_of_mem_prune (hpeaks : queue.Pairwise (fun e f => f.2 < e.2))
    {e : Nat × α} (he : e ∈ prune a queue) : a < e.2 := by
  have hne : prune a queue ≠ [] := List.ne_nil_of_mem he
  have hlast : a < ((prune a queue).getLast hne).2 := by
    have h := List.rdropWhile_last_not
      (fun e : Nat × α => decide (e.2 ≤ a)) queue hne
    simpa [prune] using h
  have hkept : (prune a queue).Pairwise (fun e f => f.2 ≤ e.2) :=
    (hpeaks.sublist prune_isPrefixOf.sublist).imp (fun h => h.le)
  exact hlast.trans_le (hkept.rel_getLast he)

/-- What is removed is not above the value. -/
theorem mem_prune_or_le {e : Nat × α} (he : e ∈ queue) :
    e ∈ prune a queue ∨ e.2 ≤ a := by
  rw [← @List.rdropWhile_append_rtakeWhile _
    (fun e : Nat × α => decide (e.2 ≤ a)) queue, List.mem_append] at he
  rcases he with he | he
  · exact .inl he
  · exact .inr (by simpa using List.mem_rtakeWhile_imp he)

/-! ## The queue -/

def push (width now : Nat) (a : α) (queue : List (Nat × α)) :
    List (Nat × α) :=
  prune a (expire width now queue) ++ [(now, a)]

/-- The queue has the values of the last `width + 1` positions, less those
that a later one is not below. -/
structure Tracks (width : Nat) (values : List α) (queue : List (Nat × α)) :
    Prop where
  times : queue.Pairwise (fun e f => e.1 < f.1)
  peaks : queue.Pairwise (fun e f => f.2 < e.2)
  recent : ∀ e ∈ queue,
    values.length ≤ e.1 + width + 1 ∧ values[e.1]? = some e.2
  covers : ∀ t v, values.length ≤ t + width + 1 → values[t]? = some v →
    ∃ e ∈ queue, t ≤ e.1 ∧ v ≤ e.2

namespace Tracks

theorem nil : Tracks width ([] : List α) [] where
  times := .nil
  peaks := .nil
  recent := by simp
  covers := by simp

theorem lt_length (h : Tracks width values queue) {e : Nat × α}
    (he : e ∈ queue) : e.1 < values.length :=
  (List.getElem?_eq_some_iff.mp (h.recent e he).2).1

/-- A value joins the queue. -/
theorem push (h : Tracks width values queue) (a : α) :
    Tracks width (values ++ [a]) (push width values.length a queue) := by
  have hexpired : (expire width values.length queue).Sublist queue :=
    expire_sublist values.length
  have hsub := (prune_isPrefixOf (a := a)).sublist.trans hexpired
  have hpeaks := h.peaks.sublist hexpired
  constructor
  · refine List.pairwise_append.mpr
      ⟨h.times.sublist hsub, List.pairwise_singleton _ _, ?_⟩
    intro e he f hf
    rw [List.mem_singleton.mp hf]
    exact h.lt_length (hsub.subset he)
  · refine List.pairwise_append.mpr
      ⟨h.peaks.sublist hsub, List.pairwise_singleton _ _, ?_⟩
    intro e he f hf
    rw [List.mem_singleton.mp hf]
    exact lt_of_mem_prune hpeaks he
  · intro e he
    rw [List.length_append, List.length_singleton]
    rcases List.mem_append.mp he with he | he
    · have hlate := ((mem_expire h.times).mp (prune_isPrefixOf.subset he)).2
      have hlt := h.lt_length (hsub.subset he)
      rw [List.getElem?_append_left hlt]
      exact ⟨by omega, (h.recent e (hsub.subset he)).2⟩
    · rw [List.mem_singleton.mp he]
      exact ⟨by simp, by simp⟩
  · intro t v hlate hv
    rw [List.length_append, List.length_singleton] at hlate
    have hjoined : (values.length, a) ∈
        MonotoneQueue.push width values.length a queue :=
      List.mem_append_right _ (List.mem_singleton_self _)
    by_cases hlast : t = values.length
    · subst hlast
      rw [List.getElem?_concat_length, Option.some.injEq] at hv
      exact ⟨_, hjoined, le_rfl, hv.ge⟩
    · have hlt : t < values.length := by
        have := (List.getElem?_eq_some_iff.mp hv).1
        rw [List.length_append, List.length_singleton] at this
        omega
      rw [List.getElem?_append_left hlt] at hv
      obtain ⟨e, he, hte, hve⟩ := h.covers t v (by omega) hv
      have hkept : e ∈ expire width values.length queue :=
        (mem_expire h.times).mpr ⟨he, by omega⟩
      rcases mem_prune_or_le (a := a) hkept with he | hle
      · exact ⟨e, List.mem_append_left _ he, hte, hve⟩
      · exact ⟨_, hjoined, hlt.le, hve.trans hle⟩

/-! ## What the queue says -/

/-- One entry for each position at most. -/
theorem length_queue_le (h : Tracks width values queue) :
    queue.length ≤ width + 1 := by
  have hnodup : (queue.map Prod.fst).Nodup := by
    rw [List.Nodup, List.pairwise_map]
    exact h.times.imp (fun hlt => hlt.ne)
  have hsubset : queue.map Prod.fst ⊆
      List.range' (values.length - (width + 1)) (width + 1) := by
    intro t ht
    obtain ⟨e, he, rfl⟩ := List.mem_map.mp ht
    have hlate := (h.recent e he).1
    have hlt := h.lt_length he
    rw [List.mem_range'_1]
    omega
  have hle := (hnodup.subperm hsubset).length_le
  rwa [List.length_map, List.length_range'] at hle

/-- The front has the maximum of the latest values. -/
theorem isGreatest (h : Tracks width values queue) {e : Nat × α}
    {rest : List (Nat × α)} (hqueue : queue = e :: rest) :
    IsGreatest {v | v ∈ CircularBuffer.recent (width + 1) values} e.2 := by
  subst hqueue
  have hfront := h.recent e List.mem_cons_self
  constructor
  · have hlt := h.lt_length List.mem_cons_self
    refine List.mem_iff_getElem?.mpr
      ⟨e.1 - (values.length - (width + 1)), ?_⟩
    rw [CircularBuffer.recent, List.getElem?_drop, ← hfront.2]
    congr 1
    omega
  · intro v hv
    obtain ⟨i, hi⟩ := List.mem_iff_getElem?.mp hv
    rw [CircularBuffer.recent, List.getElem?_drop] at hi
    obtain ⟨f, hf, -, hle⟩ := h.covers _ v (by omega) hi
    rcases List.mem_cons.mp hf with rfl | hf
    · exact hle
    · exact hle.trans ((List.pairwise_cons.mp h.peaks).1 f hf).le

end Tracks

end MonotoneQueue
