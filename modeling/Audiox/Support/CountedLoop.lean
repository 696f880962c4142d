import Mathlib

/-!
# Counted loops

A loop with a counter that a test, a step and a body are given for.  The body
may fail, and the loop needs not end: it gets a number of rounds that it must
not reach.
-/

namespace CountedLoop

variable {σ : Type}

/-- `for (i = start; test i; i = next i)`, in fewer rounds than `fuel`. -/
def forLoop (fuel : Nat) (test : Nat → Bool) (next : Nat → Nat)
    (body : Nat → σ → Option σ) (i : Nat) (s : σ) : Option σ :=
  match fuel with
  | 0 => none
  | fuel + 1 =>
      if test i then (body i s).bind (forLoop fuel test next body (next i))
      else some s

variable {test : Nat → Bool} {next : Nat → Nat} {body : Nat → σ → Option σ}

/-- A loop whose counters are known, as a loop over their numbers. -/
theorem forLoop_eq_foldlM {i : Nat → Nat} {m fuel : Nat}
    (htest : ∀ k < m, test (i k) = true) (hstop : test (i m) = false)
    (hnext : ∀ k < m, next (i k) = i (k + 1)) (hfuel : m < fuel) (s : σ) :
    forLoop fuel test next body (i 0) s =
      (List.range m).foldlM (fun s k => body (i k) s) s := by
  induction m generalizing i fuel s with
  | zero =>
      obtain ⟨fuel, rfl⟩ := Nat.exists_eq_add_of_lt hfuel
      rw [Nat.zero_add, forLoop, if_neg (by simp [hstop])]
      rfl
  | succ m ih =>
      obtain ⟨fuel, rfl⟩ : ∃ f, fuel = f + 1 := ⟨fuel - 1, by omega⟩
      rw [forLoop, if_pos (htest 0 (by omega)), List.range_succ_eq_map,
        List.foldlM_cons, hnext 0 (by omega)]
      congr 1
      funext s
      rw [ih (fun k hk => htest (k + 1) (by omega)) hstop
        (fun k hk => hnext (k + 1) (by omega)) (by omega), List.foldlM_map]

/-- A loop whose test never fails does not end. -/
theorem forLoop_eq_none (I : Nat → Prop)
    (hI : ∀ i, I i → test i = true ∧ I (next i)) (fuel : Nat) {i : Nat}
    (hi : I i) (s : σ) : forLoop fuel test next body i s = none := by
  induction fuel generalizing i s with
  | zero => rfl
  | succ fuel ih =>
      rw [forLoop, if_pos (hI i hi).1, Option.bind_eq_none_iff]
      exact fun s _ => ih (hI i hi).2 s

/-- The states that a loop goes through. -/
theorem foldlM_range_eq_some {step : σ → Nat → Option σ} (h : Nat → σ) {m : Nat}
    (hstep : ∀ k < m, step (h k) k = some (h (k + 1))) :
    (List.range m).foldlM step (h 0) = some (h m) := by
  induction m with
  | zero => rfl
  | succ m ih =>
      rw [List.range_succ, List.foldlM_append,
        ih fun k hk => hstep k (by omega)]
      simp [hstep m (by omega)]

end CountedLoop
