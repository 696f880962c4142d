import Mathlib

/-!
# Bit fields of a byte

A byte holds sets of flags.  A flag is a byte with one bit, a set of flags is
their union, and a field is cut out with a mask.
-/

namespace BitFields

/-- Exactly one bit is set. -/
def OneBit (x : UInt8) : Prop :=
  ∃ i < 8, x = UInt8.ofNat (2 ^ i)

instance (x : UInt8) : Decidable (OneBit x) :=
  inferInstanceAs (Decidable (∃ i < 8, x = UInt8.ofNat (2 ^ i)))

/-- The union of some flags. -/
def union (flags : List UInt8) : UInt8 :=
  flags.foldr (· ||| ·) 0

section

variable {a x y : UInt8} {flags : List UInt8}

theorem byte_and_or : a &&& (x ||| y) = (a &&& x) ||| (a &&& y) := by
  apply UInt8.toBitVec_inj.mp
  rw [UInt8.toBitVec_and, UInt8.toBitVec_or, UInt8.toBitVec_or,
    UInt8.toBitVec_and, UInt8.toBitVec_and]
  exact BitVec.and_or_distrib_left

theorem OneBit.ne_zero (h : OneBit x) : x ≠ 0 := by
  have hall : ∀ i < 8, UInt8.ofNat (2 ^ i) ≠ 0 := by decide
  obtain ⟨i, hi, rfl⟩ := h
  exact hall i hi

/-- A flag is in a byte, or nothing of it is. -/
theorem OneBit.and_eq (h : OneBit x) (a : UInt8) :
    a &&& x = x ∨ a &&& x = 0 := by
  have hall : ∀ n < 256, ∀ i < 8,
      UInt8.ofNat n &&& UInt8.ofNat (2 ^ i) = UInt8.ofNat (2 ^ i) ∨
        UInt8.ofNat n &&& UInt8.ofNat (2 ^ i) = 0 := by
    decide +kernel
  obtain ⟨i, hi, rfl⟩ := h
  have hbyte := hall a.toNat a.toNat_lt i hi
  rwa [UInt8.ofNat_toNat] at hbyte

/-- A byte that meets the union of some flags has one of them. -/
theorem exists_of_and_union (h : a &&& union flags ≠ 0) :
    ∃ x ∈ flags, a &&& x ≠ 0 := by
  induction flags with
  | nil => exact absurd (by simp [union]) h
  | cons x flags ih =>
      by_cases hx : a &&& x = 0
      · have hrest : a &&& union flags ≠ 0 := by
          intro hzero
          apply h
          have hsplit : union (x :: flags) = x ||| union flags := rfl
          rw [hsplit, byte_and_or, hx, hzero]
          rfl
        obtain ⟨y, hy, hay⟩ := ih hrest
        exact ⟨y, List.mem_cons_of_mem _ hy, hay⟩
      · exact ⟨x, by simp, hx⟩

end

/-! ## The first flag -/

/-- The first of the flags that the byte has, or zero. -/
def first (a : UInt8) : List UInt8 → UInt8
  | [] => 0
  | x :: flags => if a &&& x ≠ 0 then x else first a flags

section

variable {a : UInt8} {flags : List UInt8}

theorem first_mem (h : first a flags ≠ 0) : first a flags ∈ flags := by
  induction flags with
  | nil => exact absurd rfl h
  | cons x flags ih =>
      rw [first] at h ⊢
      split_ifs at h ⊢ with hx
      · exact List.mem_cons_self
      · exact List.mem_cons_of_mem _ (ih h)

/-- What is picked is in the byte. -/
theorem and_first (hflags : ∀ x ∈ flags, OneBit x) (a : UInt8) :
    a &&& first a flags = first a flags := by
  induction flags with
  | nil => exact UInt8.and_zero
  | cons x flags ih =>
      rw [first]
      split_ifs with hx
      · rcases (hflags x (by simp)).and_eq a with heq | hzero
        · exact heq
        · exact absurd hzero hx
      · exact ih fun y hy => hflags y (List.mem_cons_of_mem _ hy)

/-- A flag is picked if the byte meets their union. -/
theorem first_ne_zero (hflags : ∀ x ∈ flags, OneBit x)
    (h : a &&& union flags ≠ 0) : first a flags ≠ 0 := by
  obtain ⟨x, hx, hax⟩ := exists_of_and_union h
  clear h
  induction flags with
  | nil => simp at hx
  | cons y flags ih =>
      rw [first]
      split_ifs with hy
      · exact (hflags y (by simp)).ne_zero
      · have hne : x ≠ y := by
          rintro rfl
          exact hy hax
        exact ih (fun z hz => hflags z (List.mem_cons_of_mem _ hz))
          ((List.mem_cons.mp hx).resolve_left hne)

end

end BitFields
