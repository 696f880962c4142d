import Audiox.Support.CircularBuffer
import Mathlib

/-!
# Sliding windows

A ring of slots keeps the latest items of a list that grows.  When the items
are in order, whether many of them are at or above a bound is seen from the
oldest one that the ring still has.
-/

namespace SlidingWindow

variable {α : Type} {capacity : Nat} {slots : Nat → α} {items : List α}

/-! ## Rings of slots -/

/-- Each of the latest items is in the slot of its index. -/
def Keeps (capacity : Nat) (slots : Nat → α) (items : List α) : Prop :=
  ∀ (i : Nat) (h : i < items.length), items.length ≤ i + capacity →
    slots (i % capacity) = items[i]

namespace Keeps

theorem nil : Keeps capacity slots [] := by
  intro i h
  exact absurd h (Nat.not_lt_zero i)

/-- An item that follows overwrites the oldest one. -/
theorem concat (h : Keeps capacity slots items) (a : α) :
    Keeps capacity
      (Function.update slots (items.length % capacity) a) (items ++ [a]) := by
  intro i hi hlate
  rw [List.length_append, List.length_singleton] at hi hlate
  by_cases hlast : i = items.length
  · subst hlast
    rw [Function.update_self, List.getElem_concat_length rfl]
  · have hlt : i < items.length := by omega
    have hne := @CircularBuffer.slot_ne capacity 0 i items.length hlt
      (by omega)
    rw [Nat.zero_add, Nat.zero_add] at hne
    rw [Function.update_of_ne hne, h i hlt (by omega),
      List.getElem_append_left hlt]

/-- The slot that is written next has the oldest item of a full ring. -/
theorem eq_append (h : Keeps capacity slots items)
    (hfull : capacity ≤ items.length) (hpos : 0 < capacity) :
    ∃ older newer : List α, newer.length + 1 = capacity ∧
      items = older ++ slots (items.length % capacity) :: newer := by
  have hi : items.length - capacity < items.length := by omega
  refine ⟨items.take (items.length - capacity),
    items.drop (items.length - capacity + 1), ?_, ?_⟩
  · rw [List.length_drop]
    omega
  · rw [Nat.mod_eq_sub_mod hfull, h _ hi (by omega),
      ← List.drop_eq_getElem_cons hi, List.take_append_drop]

end Keeps

/-! ## Counting in order -/

section

variable [LinearOrder α]

/-- With the items in order, one of them decides how many reach a bound. -/
theorem length_lt_countP_iff {older newer : List α} {x lo : α}
    (hsorted : (older ++ x :: newer).Pairwise (· ≤ ·)) :
    newer.length < (older ++ x :: newer).countP (lo ≤ ·) ↔ lo ≤ x := by
  obtain ⟨-, hnewer, holder⟩ := List.pairwise_append.mp hsorted
  have hafter := (List.pairwise_cons.mp hnewer).1
  rw [List.countP_append, List.countP_cons]
  constructor
  · intro hcount
    by_contra hlo
    have hnone : older.countP (lo ≤ ·) = 0 := by
      rw [List.countP_eq_zero]
      intro y hy hle
      exact hlo ((of_decide_eq_true hle).trans (holder y hy x (by simp)))
    have hmost : newer.countP (lo ≤ ·) ≤ newer.length :=
      List.countP_le_length
    simp only [hnone, hlo, decide_false, Bool.false_eq_true, if_false]
      at hcount
    omega
  · intro hlo
    have hall : newer.countP (lo ≤ ·) = newer.length := by
      rw [List.countP_eq_length]
      intro y hy
      exact decide_eq_true (hlo.trans (hafter y hy))
    simp only [hall, hlo, decide_true, if_true]
    omega

/-- More items than the ring has slots reach a bound, the last one included,
if the ring is full and the item that the last one overwrites does. -/
theorem Keeps.lt_countP_iff (h : Keeps capacity slots items)
    (hpos : 0 < capacity) {last lo : α}
    (hsorted : (items ++ [last]).Pairwise (· ≤ ·)) :
    capacity < (items ++ [last]).countP (lo ≤ ·) ↔
      capacity ≤ items.length ∧ lo ≤ slots (items.length % capacity) := by
  by_cases hfull : capacity ≤ items.length
  · obtain ⟨older, newer, hlen, heq⟩ := h.eq_append hfull hpos
    have hsplit : items ++ [last] =
        older ++ slots (items.length % capacity) :: (newer ++ [last]) := by
      conv_lhs => rw [heq]
      simp
    rw [hsplit] at hsorted ⊢
    have hiff := @length_lt_countP_iff α _ _ _ _ lo hsorted
    rw [List.length_append, List.length_singleton, hlen] at hiff
    rw [hiff]
    exact ⟨fun hlo => ⟨hfull, hlo⟩, fun hlo => hlo.2⟩
  · constructor
    · intro hcount
      have hmost : (items ++ [last]).countP (lo ≤ ·) ≤
          (items ++ [last]).length := List.countP_le_length
      rw [List.length_append, List.length_singleton] at hmost
      omega
    · exact fun hlo => absurd hlo.1 hfull

end

end SlidingWindow
