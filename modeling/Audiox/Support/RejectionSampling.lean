import Mathlib

/-!
# Rejection sampling

A generator is asked a bounded number of times until an output is accepted.
When the outputs are the numbers below `total` and those below
`total % width` are rejected, every residue of `width` has the same number of
accepted outputs.
-/

namespace RejectionSampling

variable {σ α : Type}

/-- The outputs of a generator, one after the other. -/
def output (next : σ → α × σ) : Nat → σ → α
  | 0, s => (next s).1
  | k + 1, s => output next k (next s).2

/-- Asks a generator until an output is accepted. -/
def draw (next : σ → α × σ) (accept : α → Bool) : Nat → σ → Option α × σ
  | 0, s => (none, s)
  | attempts + 1, s =>
      if accept (next s).1 then (some (next s).1, (next s).2)
      else draw next accept attempts (next s).2

/-! ## The drawn output -/

section Draw

variable {next : σ → α × σ} {accept : α → Bool}

/-- An output is drawn when it is the first that is accepted. -/
theorem draw_eq_some_iff {attempts : Nat} {s : σ} {a : α} :
    (draw next accept attempts s).1 = some a ↔
      ∃ k < attempts, (∀ j < k, accept (output next j s) = false) ∧
        accept (output next k s) = true ∧ output next k s = a := by
  induction attempts generalizing s with
  | zero => simp [draw]
  | succ attempts ih =>
      by_cases h : accept (next s).1 = true
      · rw [draw, if_pos h]
        constructor
        · intro heq
          exact ⟨0, Nat.succ_pos _, by simp, h, Option.some.inj heq⟩
        · rintro ⟨k, _, hearlier, _, rfl⟩
          cases k with
          | zero => rfl
          | succ k =>
              exact absurd (hearlier 0 (Nat.succ_pos k)) (by simp [output, h])
      · rw [draw, if_neg h, ih]
        constructor
        · rintro ⟨k, hk, hearlier, haccept, hout⟩
          refine ⟨k + 1, Nat.succ_lt_succ hk, ?_, haccept, hout⟩
          intro j hj
          cases j with
          | zero => exact Bool.eq_false_iff.mpr h
          | succ j => exact hearlier j (Nat.lt_of_succ_lt_succ hj)
        · rintro ⟨k, hk, hearlier, haccept, hout⟩
          cases k with
          | zero => exact absurd haccept h
          | succ k =>
              refine ⟨k, Nat.lt_of_succ_lt_succ hk, ?_, haccept, hout⟩
              intro j hj
              exact hearlier (j + 1) (Nat.succ_lt_succ hj)

theorem draw_eq_none_iff {attempts : Nat} {s : σ} :
    (draw next accept attempts s).1 = none ↔
      ∀ k < attempts, accept (output next k s) = false := by
  induction attempts generalizing s with
  | zero => simp [draw]
  | succ attempts ih =>
      by_cases h : accept (next s).1 = true
      · rw [draw, if_pos h]
        refine iff_of_false (by simp) fun hall => ?_
        exact absurd (hall 0 (Nat.succ_pos _)) (by simp [output, h])
      · rw [draw, if_neg h, ih]
        constructor
        · intro hall k hk
          cases k with
          | zero => exact Bool.eq_false_iff.mpr h
          | succ k => exact hall k (Nat.lt_of_succ_lt_succ hk)
        · intro hall k hk
          exact hall (k + 1) (Nat.succ_lt_succ hk)

end Draw

/-! ## Counting the accepted outputs -/

section Count

variable {total width : Nat}

/-- Every residue has the same number of accepted outputs. -/
theorem card_accepted_residue (hwidth : 0 < width) {r : Nat}
    (hr : r < width) :
    ((Finset.Ico (total % width) total).filter
      fun bits => bits % width = r).card = total / width := by
  have hcongr : ((Finset.Ico (total % width) total).filter
      fun bits => bits % width = r) =
      (Finset.Ico (total % width) total).filter
        fun bits => bits ≡ r [MOD width] := by
    refine Finset.filter_congr fun bits _ => ?_
    rw [Nat.ModEq, Nat.mod_eq_of_lt hr]
  have hcount :=
    Nat.Ico_filter_modEq_card (total % width) total hwidth r
  have hwidth' : (width : ℚ) ≠ 0 := by exact_mod_cast hwidth.ne'
  have hshift : ((total : ℚ) - r) / width =
      ((total % width : Nat) - r) / width + (total / width : Nat) := by
    have hsplit : (width : ℚ) * (total / width : Nat) +
        (total % width : Nat) = total := by
      exact_mod_cast Nat.div_add_mod total width
    rw [← hsplit]
    field_simp
    ring
  rw [hshift, Int.ceil_add_natCast, add_sub_cancel_left,
    max_eq_left (Int.natCast_nonneg _)] at hcount
  rw [hcongr]
  exact_mod_cast hcount

/-- Fewer than half of the outputs are rejected. -/
theorem two_mul_mod_lt (hwidth : 0 < width) (hle : width ≤ total) :
    2 * (total % width) < total := by
  have hmod : total % width < width := Nat.mod_lt _ hwidth
  have hquot : 1 ≤ total / width := (Nat.one_le_div_iff hwidth).mpr hle
  have hsplit : width * (total / width) + total % width = total :=
    Nat.div_add_mod _ _
  have hone : width ≤ width * (total / width) :=
    Nat.le_mul_of_pos_right _ hquot
  omega

end Count

end RejectionSampling
