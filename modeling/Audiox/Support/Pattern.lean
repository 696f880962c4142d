import Mathlib

/-!
# The first place of a pattern

A pattern is at a position of a text if the text goes on with it from there.
The first place is looked for from the start, and a longer text has it where a
shorter one has it.
-/

namespace Pattern

variable {α : Type} {pat s t : List α} {i j : Nat}

def At (pat s : List α) (i : Nat) : Prop :=
  pat <+: s.drop i

instance [DecidableEq α] (pat s : List α) (i : Nat) :
    Decidable (At pat s i) :=
  inferInstanceAs (Decidable (pat <+: s.drop i))

theorem At.end_le (h : At pat s i) (hne : pat ≠ []) :
    i + pat.length ≤ s.length := by
  have hle := List.IsPrefix.length_le h
  have hpos := List.length_pos_of_ne_nil hne
  rw [List.length_drop] at hle
  omega

/-- A pattern that ends inside the front of a text is in the front. -/
theorem at_append_iff (hle : i + pat.length ≤ s.length) :
    At pat (s ++ t) i ↔ At pat s i := by
  rw [At, At, List.drop_append_of_le_length (by omega)]
  constructor
  · intro h
    refine List.prefix_of_prefix_length_le h (List.prefix_append _ _) ?_
    rw [List.length_drop]
    omega
  · exact fun h => h.trans (List.prefix_append _ _)

theorem At.append (h : At pat s i) (hne : pat ≠ []) (t : List α) :
    At pat (s ++ t) i :=
  (at_append_iff (h.end_le hne)).mpr h

/-- Two characters of a pattern and what the text has there. -/
theorem At.getElem? (h : At pat s i) {k : Nat} (hk : k < pat.length) :
    s[i + k]? = pat[k]? := by
  obtain ⟨rest, hrest⟩ := h
  rw [← List.getElem?_drop, ← hrest, List.getElem?_append_left hk]

/-- A pattern does not reach over a character that it does not have. -/
theorem At.cases_of_notMem {c : α} (hc : c ∉ pat)
    (h : At pat (s ++ c :: t) i) : At pat s i ∨ s.length < i := by
  by_cases hlt : s.length < i
  · exact .inr hlt
  · left
    by_cases hle : i + pat.length ≤ s.length
    · exact (at_append_iff hle).mp h
    · have hchar := h.getElem? (by omega : s.length - i < pat.length)
      rw [Nat.add_sub_cancel' (Nat.not_lt.mp hlt),
        List.getElem?_append_right le_rfl, Nat.sub_self,
        List.getElem?_cons_zero] at hchar
      exact absurd (List.mem_of_getElem? hchar.symm) hc

variable [DecidableEq α]

/-- The first place of a pattern. -/
def firstAt (pat s : List α) : Option Nat :=
  (List.range (s.length + 1 - pat.length)).find? fun i => At pat s i

theorem firstAt_none_iff (hne : pat ≠ []) :
    firstAt pat s = none ↔ ∀ i, ¬At pat s i := by
  rw [firstAt, List.find?_eq_none]
  constructor
  · intro h i hi
    have hle := hi.end_le hne
    have hpos := List.length_pos_of_ne_nil hne
    exact h i (List.mem_range.mpr (by omega)) (by simpa using hi)
  · intro h i _ hi
    exact h i (by simpa using hi)

theorem firstAt_some_iff (hne : pat ≠ []) :
    firstAt pat s = some i ↔ At pat s i ∧ ∀ j < i, ¬At pat s j := by
  have hpos := List.length_pos_of_ne_nil hne
  rw [firstAt, List.find?_range_eq_some]
  simp only [decide_eq_true_eq, List.mem_range]
  constructor
  · rintro ⟨hi, _, hbefore⟩
    exact ⟨hi, fun j hj hat => by simpa [hat] using hbefore j hj⟩
  · rintro ⟨hi, hbefore⟩
    have hle := hi.end_le hne
    exact ⟨hi, by omega, fun j hj => by simpa using hbefore j hj⟩

/-- A shorter text has the first place if it is long enough, and none
otherwise. -/
theorem firstAt_prefix (hne : pat ≠ []) (h : firstAt pat (s ++ t) = some i) :
    firstAt pat s = if i + pat.length ≤ s.length then some i else none := by
  obtain ⟨hi, hbefore⟩ := (firstAt_some_iff hne).mp h
  split
  case isTrue hle =>
    rw [firstAt_some_iff hne]
    exact ⟨(at_append_iff hle).mp hi,
      fun j hj hat => hbefore j hj (hat.append hne t)⟩
  case isFalse hlong =>
    rw [firstAt_none_iff hne]
    intro j hat
    have hle := hat.end_le hne
    exact hbefore j (by omega) (hat.append hne t)

theorem firstAt_prefix_none (hne : pat ≠ [])
    (h : firstAt pat (s ++ t) = none) : firstAt pat s = none := by
  rw [firstAt_none_iff hne] at h ⊢
  exact fun j hat => h j (hat.append hne t)

end Pattern
