import Mathlib

/-!
# Free-running counters

A counter of 32 bits that is only ever incremented stands for a number modulo
`2 ^ 32`.  Differences of counters are exact while they are small, and slots
are found by a remainder when the number of slots divides `2 ^ 32`; a
comparison of two counters is right only if neither has wrapped around
between them.
-/

namespace FreeRunning

/-- The counter that stands for a number. -/
def counter (n : Nat) : UInt32 :=
  UInt32.ofNat n

variable {m n : Nat}

theorem toNat_counter (n : Nat) : (counter n).toNat = n % 2 ^ 32 :=
  UInt32.toNat_ofNat'

theorem counter_succ (n : Nat) : counter (n + 1) = counter n + 1 := by
  rw [counter, UInt32.ofNat_add]
  rfl

theorem counter_add (m n : Nat) :
    counter (m + n) = counter m + counter n :=
  UInt32.ofNat_add m n

/-- The difference of two counters that are not a turn apart. -/
theorem toNat_counter_sub (hle : m ≤ n) (hlt : n - m < 2 ^ 32) :
    (counter n - counter m).toNat = n - m := by
  rw [UInt32.toNat_sub, toNat_counter, toNat_counter]
  omega

/-- The slot of a counter. -/
theorem toNat_counter_mod {size : Nat} (hsize : size ∣ 2 ^ 32) :
    (counter n).toNat % size = n % size := by
  rw [toNat_counter, Nat.mod_mod_of_dvd _ hsize]

/-- Counters that compare as their numbers do are as far apart. -/
theorem toNat_counter_of_le (hle : m ≤ n) (hlt : n - m < 2 ^ 32)
    (hcompare : counter m ≤ counter n) :
    (counter n).toNat = (counter m).toNat + (n - m) := by
  rw [UInt32.le_iff_toNat_le, toNat_counter, toNat_counter] at hcompare
  rw [toNat_counter, toNat_counter]
  omega

/-- A counter that is no further behind than another stands for a number
that is not behind. -/
theorem exists_counter_eq {x : UInt32} (hle : m ≤ n)
    (hbehind : (counter n - x).toNat ≤ n - m) :
    ∃ p, x = counter p ∧ m ≤ p ∧ p ≤ n := by
  refine ⟨n - (counter n - x).toNat, ?_, by omega, by omega⟩
  apply UInt32.toNat.inj
  rw [toNat_counter]
  rw [UInt32.toNat_sub, toNat_counter] at hbehind ⊢
  have hx := x.toNat_lt
  omega

theorem counter_lt_succ (h : n + 1 < 2 ^ 32) :
    counter n < counter (n + 1) := by
  rw [UInt32.lt_iff_toNat_lt, toNat_counter, toNat_counter]
  omega

end FreeRunning
