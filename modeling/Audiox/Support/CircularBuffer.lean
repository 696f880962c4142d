import Mathlib

/-!
# Circular buffers

The slots of a circular buffer hold a list of items: item `i` is in the slot
`(tail + i) % capacity`.  The rules append an item, drop the first one, and
append one when the buffer is full, which drops the oldest.
-/

namespace CircularBuffer

variable {α : Type} {capacity tail : Nat} {slots : Nat → α} {items : List α}

/-- The slots hold the items, in order from the tail. -/
def Holds (capacity : Nat) (slots : Nat → α) (tail : Nat) (items : List α) :
    Prop :=
  ∀ (i : Nat) (h : i < items.length),
    slots ((tail + i) % capacity) = items[i]

/-- Slots less than a full turn apart are different. -/
theorem slot_ne {i j : Nat} (hij : i < j) (hj : j < i + capacity) :
    (tail + i) % capacity ≠ (tail + j) % capacity := by
  intro heq
  have hdvd : capacity ∣ tail + j - (tail + i) :=
    (Nat.modEq_iff_dvd' (by omega)).mp heq
  have hle := Nat.le_of_dvd (by omega) hdvd
  omega

namespace Holds

theorem nil : Holds capacity slots tail [] := by
  intro i h
  exact absurd h (Nat.not_lt_zero i)

theorem getElem? (h : Holds capacity slots tail items) {i : Nat}
    (hi : i < items.length) :
    items[i]? = some (slots ((tail + i) % capacity)) := by
  rw [List.getElem?_eq_getElem hi, h i hi]

/-- The slot after the last item may be written. -/
theorem update_next (h : Holds capacity slots tail items)
    (hroom : items.length < capacity) (a : α) :
    Holds capacity
      (Function.update slots ((tail + items.length) % capacity) a) tail
      items := by
  intro i hi
  rw [Function.update_of_ne (slot_ne hi (by omega)), h i hi]

/-- The slot after the last item holds an item that is appended. -/
theorem concat_of_eq (h : Holds capacity slots tail items) {a : α}
    (ha : slots ((tail + items.length) % capacity) = a) :
    Holds capacity slots tail (items ++ [a]) := by
  intro i hi
  rw [List.length_append, List.length_singleton] at hi
  by_cases hlast : i = items.length
  · subst hlast
    rw [ha, List.getElem_concat_length rfl]
  · have hlt : i < items.length := by omega
    rw [h i hlt, List.getElem_append_left hlt]

/-- The item that follows is written to the slot after the last one. -/
theorem concat (h : Holds capacity slots tail items)
    (hroom : items.length < capacity) (a : α) :
    Holds capacity
      (Function.update slots ((tail + items.length) % capacity) a) tail
      (items ++ [a]) :=
  (h.update_next hroom a).concat_of_eq (Function.update_self _ _ _)

theorem of_append {more : List α}
    (h : Holds capacity slots tail (items ++ more)) :
    Holds capacity slots tail items := by
  intro i hi
  rw [h i (by rw [List.length_append]; omega), List.getElem_append_left hi]

/-- The tail may also be a number that is not reduced. -/
theorem drop_add (h : Holds capacity slots tail items) (n : Nat) :
    Holds capacity slots (tail + n) (items.drop n) := by
  intro i hi
  rw [List.length_drop] at hi
  rw [add_assoc, h (n + i) (by omega), List.getElem_drop]

theorem drop (h : Holds capacity slots tail items) (n : Nat) :
    Holds capacity slots ((tail + n) % capacity) (items.drop n) := by
  intro i hi
  rw [Nat.mod_add_mod]
  exact h.drop_add n i hi

end Holds

/-! ## The most recent items -/

/-- The items that are left when no more than `capacity` are kept. -/
def recent (capacity : Nat) (items : List α) : List α :=
  items.drop (items.length - capacity)

theorem length_recent : (recent capacity items).length =
    min items.length capacity := by
  rw [recent, List.length_drop]
  omega

theorem recent_of_le (h : items.length ≤ capacity) :
    recent capacity items = items := by
  rw [recent, Nat.sub_eq_zero_of_le h, List.drop_zero]

/-- Items can be forgotten one after the other. -/
theorem recent_recent_append (more : List α) :
    recent capacity (recent capacity items ++ more) =
      recent capacity (items ++ more) := by
  have hskip : recent capacity items ++ more =
      (items ++ more).drop (items.length - capacity) :=
    (List.drop_append_of_le_length (Nat.sub_le _ _)).symm
  rw [hskip, recent, recent, List.drop_drop, List.length_drop,
    List.length_append]
  congr 1
  omega

end CircularBuffer
