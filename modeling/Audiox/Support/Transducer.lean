import Mathlib

/-!
# Transducers

A transducer reads letters one after the other, and each step puts out a list.
Two transducers that stay related put out lists with the same observations.
-/

namespace Transducer

variable {σ τ α β β' γ : Type}

def state (step : σ → α → σ × List β) : σ → List α → σ
  | s, [] => s
  | s, a :: input => state step (step s a).1 input

def outputs (step : σ → α → σ × List β) : σ → List α → List β
  | _, [] => []
  | s, a :: input => (step s a).2 ++ outputs step (step s a).1 input

/-- The outputs when the input arrives in several calls. -/
def callOutputs (step : σ → α → σ × List β) : σ → List (List α) → List β
  | _, [] => []
  | s, call :: calls =>
      outputs step s call ++ callOutputs step (state step s call) calls

section

variable {step : σ → α → σ × List β} {step' : τ → α → τ × List β'}
  {s : σ} {t : τ}

theorem state_append (input more : List α) :
    state step s (input ++ more) = state step (state step s input) more := by
  induction input generalizing s with
  | nil => rfl
  | cons a input ih => exact ih

/-- The states do not depend on what is put out. -/
theorem state_congr {step'' : σ → α → σ × List β'}
    (h : ∀ s a, (step s a).1 = (step'' s a).1) (input : List α) :
    state step s input = state step'' s input := by
  induction input generalizing s with
  | nil => rfl
  | cons a input ih => rw [state, state, h, ih]

theorem outputs_append (input more : List α) :
    outputs step s (input ++ more) =
      outputs step s input ++ outputs step (state step s input) more := by
  induction input generalizing s with
  | nil => rfl
  | cons a input ih =>
      rw [List.cons_append, outputs, ih, outputs, state, List.append_assoc]

/-- It does not matter how the input is split into calls. -/
theorem callOutputs_eq (calls : List (List α)) :
    callOutputs step s calls = outputs step s calls.flatten := by
  induction calls generalizing s with
  | nil => rfl
  | cons call calls ih =>
      rw [callOutputs, ih, List.flatten_cons, outputs_append]

theorem state_invariant (I : σ → Prop)
    (hstep : ∀ s a, I s → I (step s a).1) (hs : I s) (input : List α) :
    I (state step s input) := by
  induction input generalizing s with
  | nil => exact hs
  | cons a input ih => exact ih (hstep s a hs)

/-- Related transducers are observed to put out the same. -/
theorem observed_eq (R : σ → τ → Prop) {observe : List β → List γ}
    {observe' : List β' → List γ}
    (happend : ∀ xs ys, observe (xs ++ ys) = observe xs ++ observe ys)
    (happend' : ∀ xs ys, observe' (xs ++ ys) = observe' xs ++ observe' ys)
    (hnil : observe [] = observe' [])
    (hstep : ∀ s t a, R s t → R (step s a).1 (step' t a).1 ∧
      observe (step s a).2 = observe' (step' t a).2)
    (h : R s t) (input : List α) :
    observe (outputs step s input) = observe' (outputs step' t input) := by
  induction input generalizing s t with
  | nil => exact hnil
  | cons a input ih =>
      obtain ⟨hnext, hsame⟩ := hstep s t a h
      rw [outputs, outputs, happend, happend', hsame, ih hnext]

/-- What every output of a step satisfies. -/
theorem outputs_forall (I : σ → Prop) (P : β → Prop)
    (hstep : ∀ s a, I s → I (step s a).1 ∧ ∀ b ∈ (step s a).2, P b)
    (hs : I s) (input : List α) : ∀ b ∈ outputs step s input, P b := by
  induction input generalizing s with
  | nil => simp [outputs]
  | cons a input ih =>
      intro b hb
      rw [outputs, List.mem_append] at hb
      rcases hb with hb | hb
      · exact (hstep s a hs).2 b hb
      · exact ih (hstep s a hs).1 b hb

end

end Transducer
