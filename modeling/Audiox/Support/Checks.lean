import Mathlib

/-!
# Checks that report the first error

A check returns nothing or an error.  The rules take sequences of checks apart
and follow a loop that stops at the first error.
-/

namespace Checks

variable {ε α β σ : Type}

def failIf (c : Prop) [Decidable c] (error : ε) : Except ε Unit :=
  if c then .error error else .ok ()

/-- The value, or an error if there is none. -/
def orFail (value : Option α) (error : ε) : Except ε α :=
  match value with
  | some a => .ok a
  | none => .error error

/-- Checks every element of a list against those in front of it. -/
def eachAfter (check : List α → α → Except ε Unit) :
    List α → List α → Except ε Unit
  | _, [] => .ok ()
  | before, a :: rest => do
      check before a
      eachAfter check (before ++ [a]) rest

/-! ## What succeeds -/

theorem bind_eq_ok {r : Except ε α} {f : α → Except ε β} {b : β} :
    r >>= f = .ok b ↔ ∃ a, r = .ok a ∧ f a = .ok b := by
  cases r with
  | error e => simp [Bind.bind, Except.bind]
  | ok a => simp [Bind.bind, Except.bind]

theorem ok_bind (a : α) (f : α → Except ε β) : (.ok a >>= f) = f a := rfl

theorem failIf_eq_ok {c : Prop} [Decidable c] {error : ε} {u : Unit} :
    failIf c error = .ok u ↔ ¬c := by
  unfold failIf
  split
  next h => simp [h]
  next h => simp [h]

theorem failIf_neg {c : Prop} [Decidable c] (h : ¬c) (error : ε) :
    failIf c error = .ok () :=
  if_neg h

theorem orFail_eq_ok {value : Option α} {error : ε} {a : α} :
    orFail value error = .ok a ↔ value = some a := by
  cases value with
  | none => simp [orFail]
  | some b => simp [orFail]

theorem eachAfter_ok {check : List α → α → Except ε Unit} {before l : List α}
    (h : eachAfter check before l = .ok ()) :
    ∀ pre a post, l = pre ++ a :: post → check (before ++ pre) a = .ok () := by
  induction l generalizing before with
  | nil =>
      intro pre a post hl
      simp at hl
  | cons b l ih =>
      rw [eachAfter, bind_eq_ok] at h
      obtain ⟨⟨⟩, hb, hrest⟩ := h
      intro pre a post hl
      rcases pre with _ | ⟨c, pre⟩
      · obtain ⟨rfl, -⟩ := List.cons_eq_cons.mp hl
        rw [List.append_nil]
        exact hb
      · obtain ⟨rfl, hpost⟩ := List.cons_eq_cons.mp hl
        have hcheck := ih hrest pre a post hpost
        rwa [List.append_assoc, List.singleton_append] at hcheck

/-- Every element has been checked against something. -/
theorem eachAfter_mem {check : List α → α → Except ε Unit} {l : List α}
    (h : eachAfter check [] l = .ok ()) {a : α} (ha : a ∈ l) :
    ∃ before, check before a = .ok () := by
  obtain ⟨pre, post, hl⟩ := List.append_of_mem ha
  exact ⟨_, eachAfter_ok h pre a post hl⟩

/-! ## Loops -/

/-- What every step of a loop preserves holds at its end. -/
theorem foldlM_invariant {f : σ → α → Except ε σ} (I : σ → Prop) {l : List α}
    (hstep : ∀ s, ∀ a ∈ l, ∀ s', I s → f s a = .ok s' → I s') {s s' : σ}
    (hs : I s) (h : l.foldlM f s = .ok s') : I s' := by
  induction l generalizing s with
  | nil =>
      have heq : s = s' := by simpa [pure, Except.pure] using h
      rwa [← heq]
  | cons a l ih =>
      rw [List.foldlM_cons, bind_eq_ok] at h
      obtain ⟨t, hfirst, hrest⟩ := h
      exact ih (fun s b hb => hstep s b (List.mem_cons_of_mem _ hb))
        (hstep s a (by simp) t hs hfirst) hrest

/-- A loop over what a list was mapped to, where every round adds one element
to what `put` makes of the elements so far. -/
theorem foldlM_map_append {f : σ → β → Except ε σ} {g : α → β}
    (put : List α → σ) {l : List α}
    (h : ∀ before, ∀ a ∈ l, f (put before) (g a) = .ok (put (before ++ [a])))
    (before : List α) :
    (l.map g).foldlM f (put before) = .ok (put (before ++ l)) := by
  induction l generalizing before with
  | nil => simp [pure, Except.pure]
  | cons a l ih =>
      rw [List.map_cons, List.foldlM_cons, h before a (by simp), ok_bind,
        ih fun before b hb => h before b (List.mem_cons_of_mem _ hb)]
      simp

end Checks
