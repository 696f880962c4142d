import Mathlib

/-!
# Lists that follow a flow

A list follows a relation if every predecessor of an element stands in front
of it.  Such lists are built by appending elements whose predecessors are all
there; the construction covers a finite set exactly if the relation has no
cycle on it.
-/

namespace FlowOrder

open Relation

variable {α : Type} {E : α → α → Prop}

/-- Every predecessor of an element of the list stands in front of it. -/
def Follows (E : α → α → Prop) (l : List α) : Prop :=
  ∀ a x b, l = a ++ x :: b → ∀ y, E y x → y ∈ a

/-- No element reaches itself. -/
def Acyclic (E : α → α → Prop) : Prop :=
  ∀ x, ¬TransGen E x x

theorem follows_nil : Follows E [] := by
  intro a x b h
  simp at h

/-- Only an element whose predecessors are all there may be appended. -/
theorem Follows.concat {l : List α} (h : Follows E l) {x : α}
    (hx : ∀ y, E y x → y ∈ l) : Follows E (l ++ [x]) := by
  intro a z b heq y hy
  rcases List.eq_nil_or_concat b with rfl | ⟨b, w, rfl⟩
  · obtain ⟨rfl, hz⟩ := List.append_inj' heq rfl
    cases hz
    exact hx y hy
  · have hsplit : l ++ [x] = (a ++ z :: b) ++ [w] := by
      rw [heq, List.concat_eq_append, List.append_assoc, List.cons_append]
    obtain ⟨hl, -⟩ := List.append_inj' hsplit rfl
    exact h a z b hl y hy

/-- A predecessor stands in front. -/
theorem Follows.sublist {l : List α} (h : Follows E l) {x y : α}
    (hx : x ∈ l) (hy : E y x) : [y, x].Sublist l := by
  obtain ⟨a, b, rfl⟩ := List.append_of_mem hx
  have hmem := h a x b rfl y hy
  have hfirst : [y].Sublist a := List.singleton_sublist.mpr hmem
  have hsecond : [x].Sublist (x :: b) := by simp
  exact hfirst.append hsecond

/-- An element has no predecessor behind it. -/
theorem Follows.not_back {done rest : List α} {x : α}
    (h : Follows E (done ++ x :: rest)) (hnodup : (done ++ x :: rest).Nodup)
    {y : α} (hy : y ∈ done ++ [x]) : ¬E x y := by
  intro hxy
  have hx : x ∉ done := by
    intro hmem
    have hdisjoint := (List.nodup_append.mp hnodup).2.2
    exact hdisjoint x hmem x (by simp) rfl
  rcases List.mem_append.mp hy with hmem | hmem
  · obtain ⟨a, b, rfl⟩ := List.append_of_mem hmem
    have hback := h a y (b ++ x :: rest) (by simp) x hxy
    exact hx (List.mem_append_left _ hback)
  · rw [List.mem_singleton] at hmem
    subst y
    exact hx (h done x rest rfl x hxy)

/-- Rule for a loop over a list that follows a relation: `I` holds of the
elements visited so far, and an element has no edge back to them. -/
theorem Follows.foldl {σ : Type} {l : List α} (h : Follows E l)
    (hnodup : l.Nodup) (f : σ → α → σ) (I : List α → σ → Prop) {s : σ}
    (hstart : I [] s)
    (hstep : ∀ done x s, x ∈ l → x ∉ done → done ⊆ l →
      (∀ y ∈ done ++ [x], ¬E x y) → I done s → I (done ++ [x]) (f s x)) :
    I l (l.foldl f s) := by
  have hsuffix : ∀ rest done s, l = done ++ rest → I done s →
      I l (rest.foldl f s) := by
    intro rest
    induction rest with
    | nil =>
        intro done s hsplit hI
        rw [List.append_nil] at hsplit
        rw [hsplit]
        exact hI
    | cons x rest ih =>
        intro done s hsplit hI
        refine ih (done ++ [x]) _ (by simp [hsplit]) ?_
        apply hstep done x s _ _ _ _ hI
        · rw [hsplit]
          simp
        · rw [hsplit] at hnodup
          intro hmem
          exact (List.nodup_append.mp hnodup).2.2 x hmem x (by simp) rfl
        · rw [hsplit]
          exact List.subset_append_left _ _
        · rw [hsplit] at h hnodup
          exact fun y hy => h.not_back hnodup hy
  exact hsuffix l [] s rfl hstart

variable [DecidableEq α]

theorem Follows.idxOf_lt {l : List α} (h : Follows E l) {x y : α}
    (hx : x ∈ l) (hy : E y x) : y ∈ l ∧ l.idxOf y < l.idxOf x := by
  obtain ⟨a, b, rfl, hnot⟩ := List.eq_append_cons_of_mem hx
  have hmem := h a x b rfl y hy
  refine ⟨List.mem_append_left _ hmem, ?_⟩
  rw [List.idxOf_append_of_mem hmem, List.idxOf_append_of_notMem hnot,
    List.idxOf_cons_self]
  have hlt := List.idxOf_lt_length_of_mem hmem
  omega

/-- A list that follows a relation contains no cycle. -/
theorem Follows.not_cycle {l : List α} (h : Follows E l) {x : α}
    (hx : x ∈ l) : ¬TransGen E x x := by
  have hless : ∀ y z, TransGen E y z → z ∈ l →
      y ∈ l ∧ l.idxOf y < l.idxOf z := by
    intro y z hyz
    induction hyz with
    | single hstep => exact fun hz => h.idxOf_lt hz hstep
    | tail _ hstep ih =>
        intro hz
        obtain ⟨hmem, hlt⟩ := h.idxOf_lt hz hstep
        obtain ⟨hy, hlt'⟩ := ih hmem
        exact ⟨hy, hlt'.trans hlt⟩
  intro hcycle
  exact absurd (hless x x hcycle hx).2 (Nat.lt_irrefl _)

/-- Without a cycle there is always an element that can be appended. -/
theorem exists_ready {nodes l : List α} (hacyclic : Acyclic E)
    (hedges : ∀ x y, E x y → x ∈ nodes) (hrest : ∃ x ∈ nodes, x ∉ l) :
    ∃ x ∈ nodes, x ∉ l ∧ ∀ y, E y x → y ∈ l := by
  let before : nodes.toFinset → nodes.toFinset → Prop :=
    fun x y => TransGen E x.1 y.1
  have htrans : IsTrans _ before := ⟨fun _ _ _ => TransGen.trans⟩
  have hirrefl : Std.Irrefl before := ⟨fun x => hacyclic x.1⟩
  have hwf : WellFounded before :=
    Finite.wellFounded_of_trans_of_irrefl before
  obtain ⟨x₀, hx₀, hnot₀⟩ := hrest
  obtain ⟨x, hx, hmin⟩ := hwf.has_min {x | x.1 ∉ l}
    ⟨⟨x₀, List.mem_toFinset.mpr hx₀⟩, hnot₀⟩
  refine ⟨x.1, List.mem_toFinset.mp x.2, hx, ?_⟩
  intro y hy
  by_contra hnot
  have hmem : y ∈ nodes.toFinset := List.mem_toFinset.mpr (hedges y x.1 hy)
  exact hmin ⟨y, hmem⟩ hnot (TransGen.single hy)

end FlowOrder
