import Mathlib

/-!
# Runs of a labelled transition relation

A run is a list of events, each one a step of the relation.  The rules lift a
property of one step to whole runs: an invariant, and a potential that every
step pays for.
-/

namespace Runs

variable {σ ε : Type}

inductive Run (step : σ → ε → σ → Prop) : σ → List ε → σ → Prop where
  | nil (s : σ) : Run step s [] s
  | cons {s s' s'' : σ} {e : ε} {es : List ε} :
      step s e s' → Run step s' es s'' → Run step s (e :: es) s''

namespace Run

variable {step : σ → ε → σ → Prop} {s s' s'' : σ} {es es' : List ε}

theorem cons_iff {e : ε} :
    Run step s (e :: es) s'' ↔
      ∃ s', step s e s' ∧ Run step s' es s'' := by
  constructor
  · intro h
    cases h with
    | cons hstep hrun => exact ⟨_, hstep, hrun⟩
  · rintro ⟨s', hstep, hrun⟩
    exact .cons hstep hrun

theorem append_iff :
    Run step s (es ++ es') s'' ↔
      ∃ s', Run step s es s' ∧ Run step s' es' s'' := by
  induction es generalizing s with
  | nil =>
      constructor
      · exact fun h => ⟨s, .nil s, h⟩
      · rintro ⟨s', h, h'⟩
        cases h
        exact h'
  | cons e es ih =>
      simp only [List.cons_append, cons_iff, ih]
      constructor
      · rintro ⟨t, hstep, s', hrun, hrun'⟩
        exact ⟨s', ⟨t, hstep, hrun⟩, hrun'⟩
      · rintro ⟨s', ⟨t, hstep, hrun⟩, hrun'⟩
        exact ⟨t, hstep, s', hrun, hrun'⟩

/-- What every admitted step preserves holds at the end of a run. -/
theorem invariant (I : σ → Prop) {P : ε → Prop}
    (hstep : ∀ s e s', P e → I s → step s e s' → I s')
    (h : Run step s es s') (hP : ∀ e ∈ es, P e) (hI : I s) : I s' := by
  induction h with
  | nil s => exact hI
  | cons hs _ ih =>
      exact ih (fun e he => hP e (List.mem_cons_of_mem _ he))
        (hstep _ _ _ (hP _ (by simp)) hI hs)

/-- The steps of a run together cost no more than the potential they use. -/
theorem cost_le (μ : σ → Nat) (cost : ε → Nat) {P : ε → Prop}
    (hstep : ∀ s e s', P e → step s e s' → cost e + μ s' ≤ μ s)
    (h : Run step s es s') (hP : ∀ e ∈ es, P e) :
    (es.map cost).sum + μ s' ≤ μ s := by
  induction h with
  | nil s => simp
  | cons hs _ ih =>
      have hhead := hstep _ _ _ (hP _ (by simp)) hs
      have htail := ih fun e he => hP e (List.mem_cons_of_mem _ he)
      rw [List.map_cons, List.sum_cons]
      omega

/-- A run of a step function that is total on the run's events. -/
theorem of_foldlM {f : σ → ε → Option σ}
    (h : es.foldlM f s = some s') :
    Run (fun s e s' => f s e = some s') s es s' := by
  induction es generalizing s with
  | nil =>
      obtain rfl := Option.some.inj h
      exact .nil s
  | cons e es ih =>
      rw [List.foldlM_cons] at h
      obtain ⟨t, hstep, hrest⟩ := Option.bind_eq_some_iff.mp h
      exact .cons hstep (ih hrest)

/-- A run of the larger relation, for every run of the smaller one. -/
theorem mono {step' : σ → ε → σ → Prop}
    (hle : ∀ s e s', step s e s' → step' s e s')
    (h : Run step s es s') : Run step' s es s' := by
  induction h with
  | nil s => exact .nil s
  | cons hs _ ih => exact .cons (hle _ _ _ hs) ih

end Run

/-- The steps of a function that are taken where `ok` holds. -/
def Guarded (ok : σ → ε → Prop) (f : σ → ε → Option σ)
    (s : σ) (e : ε) (s' : σ) : Prop :=
  ok s e ∧ f s e = some s'

/-- The function that refuses what `ok` rules out. -/
def guarded (ok : σ → ε → Prop) [∀ s e, Decidable (ok s e)]
    (f : σ → ε → Option σ) (s : σ) (e : ε) : Option σ :=
  if ok s e then f s e else none

theorem guarded_iff {ok : σ → ε → Prop} [∀ s e, Decidable (ok s e)]
    {f : σ → ε → Option σ} {s s' : σ} {e : ε} :
    guarded ok f s e = some s' ↔ Guarded ok f s e s' := by
  rw [guarded, Guarded]
  by_cases h : ok s e
  · simp [h]
  · simp [h]

theorem Run.of_guarded {ok : σ → ε → Prop} [∀ s e, Decidable (ok s e)]
    {f : σ → ε → Option σ} {s s' : σ} {es : List ε}
    (h : es.foldlM (guarded ok f) s = some s') :
    Run (Guarded ok f) s es s' :=
  (Run.of_foldlM h).mono fun _ _ _ => guarded_iff.mp

/-- An element of a list with one more element is the last one, or one of the
list. -/
theorem eq_concat_cases {α : Type} {es es' rest : List α} {e e' : α}
    (h : es ++ [e] = es' ++ e' :: rest) :
    (∃ rest', rest = rest' ++ [e] ∧ es = es' ++ e' :: rest') ∨
      (rest = [] ∧ e = e' ∧ es = es') := by
  induction rest using List.reverseRecOn with
  | nil =>
      obtain ⟨rfl, heq⟩ := List.append_inj' h rfl
      exact .inr ⟨rfl, List.head_eq_of_cons_eq heq, rfl⟩
  | append_singleton rest last _ =>
      rw [← List.cons_append, ← List.append_assoc] at h
      obtain ⟨rfl, heq⟩ := List.append_inj' h rfl
      obtain rfl := List.head_eq_of_cons_eq heq
      exact .inl ⟨rest, rfl, rfl⟩

end Runs
