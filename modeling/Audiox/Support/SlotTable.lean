import Mathlib

/-!
# Tables of slots

A table is a function of the number of the slot.  It is searched from its first
slot on, and `count` is the number of the slots with a property.
-/

namespace SlotTable

variable {n : Nat} {σ : Type} {p : σ → Bool} {t : Fin n → σ} {i : Fin n}

/-- The first slot with a property. -/
def first (p : σ → Bool) (t : Fin n → σ) : Option (Fin n) :=
  (List.finRange n).find? fun i => p (t i)

theorem first_some (h : first p t = some i) : p (t i) = true :=
  @List.find?_some _ (fun i => p (t i)) _ _ h

theorem first_eq_none_iff : first p t = none ↔ ∀ i, p (t i) = false := by
  rw [first, List.find?_eq_none]
  constructor
  · intro h i
    simpa using h i (List.mem_finRange i)
  · intro h i _
    simp [h i]

/-- The number of the slots with a property. -/
def count (p : σ → Bool) (t : Fin n → σ) : Nat :=
  (Finset.univ.filter fun i => p (t i) = true).card

theorem count_le : count p t ≤ n := by
  have hle := Finset.card_filter_le Finset.univ fun i => p (t i) = true
  rwa [Finset.card_univ, Fintype.card_fin] at hle

theorem count_lt_iff : count p t < n ↔ ∃ i, p (t i) = false := by
  have hall : count p t = n ↔ ∀ i, p (t i) = true := by
    have hcard := @Finset.card_filter_eq_iff _ (Finset.univ : Finset (Fin n))
      (fun i => p (t i) = true) _
    rw [Finset.card_univ, Fintype.card_fin] at hcard
    simpa [count] using hcard
  have hle : count p t ≤ n := count_le
  constructor
  · intro h
    by_contra hnone
    have hfull := hall.mpr fun i => by simpa using not_exists.mp hnone i
    omega
  · rintro ⟨i, hi⟩
    refine lt_of_le_of_ne hle fun hfull => ?_
    rw [hall.mp hfull i] at hi
    cases hi

theorem filter_update_of_ne {v : σ} :
    (Finset.univ.filter fun j => p (Function.update t i v j) = true).erase i =
      (Finset.univ.filter fun j => p (t j) = true).erase i := by
  ext j
  simp only [Finset.mem_erase, Finset.mem_filter, Finset.mem_univ, true_and]
  constructor
  · rintro ⟨hne, hj⟩
    rw [Function.update_of_ne hne] at hj
    exact ⟨hne, hj⟩
  · rintro ⟨hne, hj⟩
    rw [Function.update_of_ne hne]
    exact ⟨hne, hj⟩

/-- The number as that of the other slots, and this one. -/
theorem count_eq (t : Fin n → σ) (i : Fin n) :
    count p t =
      ((Finset.univ.filter fun j => p (t j) = true).erase i).card +
        if p (t i) then 1 else 0 := by
  split
  case isTrue h =>
    exact (Finset.card_erase_add_one (by simpa using h)).symm
  case isFalse h =>
    rw [Finset.erase_eq_of_notMem (by simpa using h), Nat.add_zero]
    rfl

/-- A slot that is written changes the number by itself. -/
theorem count_update (t : Fin n → σ) (i : Fin n) (v : σ) :
    (count p (Function.update t i v) + if p (t i) then 1 else 0) =
      count p t + if p v then 1 else 0 := by
  rw [count_eq (Function.update t i v) i, count_eq t i, filter_update_of_ne,
    Function.update_self]
  omega

end SlotTable
