import Mathlib

/-!
# Saturation

A sweep draws conclusions from the facts of a state and reports whether it
found something new.  Sweeps are repeated until one reports nothing; then the
facts are exactly those that follow from the first ones.
-/

namespace Saturation

variable {σ F ι : Type}

/-- The facts that follow from given ones by a rule. -/
def Follows (rule : F → F → Prop) (given : Set F) : Set F :=
  {b | ∃ a ∈ given, Relation.ReflTransGen rule a b}

/-- Repeats a sweep until it reports no change. -/
def saturate (sweep : σ × Bool → σ × Bool) : Nat → σ → Option σ
  | 0, _ => none
  | fuel + 1, s =>
      if (sweep (s, false)).2 then saturate sweep fuel (sweep (s, false)).1
      else some (sweep (s, false)).1

/-- A sweep only draws conclusions of a rule, it draws all of them when it
finds nothing new, and it adds to the report whether it found something. -/
structure Sweeps (facts : σ → Set F) (rule : F → F → Prop)
    (sweep : σ × Bool → σ × Bool) : Prop where
  grows : ∀ p, facts p.1 ⊆ facts (sweep p).1
  sound : ∀ p, facts (sweep p).1 ⊆ Follows rule (facts p.1)
  closed : ∀ p, facts (sweep p).1 = facts p.1 →
    ∀ a ∈ facts p.1, ∀ b, rule a b → b ∈ facts p.1
  reports : ∀ p, (sweep p).2 = true ↔
    p.2 = true ∨ facts (sweep p).1 ≠ facts p.1

/-! ## What follows from facts -/

section Follows

variable {rule rule' : F → F → Prop} {given given' : Set F}

theorem subset_follows : given ⊆ Follows rule given := by
  intro a ha
  exact ⟨a, ha, .refl⟩

theorem follows_mono (hrule : ∀ a b, rule a b → rule' a b)
    (hgiven : given ⊆ given') :
    Follows rule given ⊆ Follows rule' given' := by
  rintro b ⟨a, ha, hab⟩
  exact ⟨a, hgiven ha, Relation.ReflTransGen.mono hrule _ _ hab⟩

theorem follows_follows :
    Follows rule (Follows rule given) = Follows rule given := by
  apply Set.Subset.antisymm
  · rintro c ⟨b, ⟨a, ha, hab⟩, hbc⟩
    exact ⟨a, ha, hab.trans hbc⟩
  · exact subset_follows

theorem follows_subset_of_closed (h : given ⊆ given')
    (hclosed : ∀ a ∈ given', ∀ b, rule a b → b ∈ given') :
    Follows rule given ⊆ given' := by
  rintro b ⟨a, ha, hab⟩
  induction hab with
  | refl => exact h ha
  | tail _ hstep ih => exact hclosed _ ih _ hstep

end Follows

/-! ## Building sweeps -/

namespace Sweeps

variable {facts : σ → Set F} {rule rule' : F → F → Prop}
  {sweep sweep' : σ × Bool → σ × Bool}

/-- A sweep of all conclusions that are one step away. -/
theorem of_step
    (hfacts : ∀ p, facts (sweep p).1 =
      facts p.1 ∪ {b | ∃ a ∈ facts p.1, rule a b})
    (hreports : ∀ p, (sweep p).2 = true ↔
      p.2 = true ∨ facts (sweep p).1 ≠ facts p.1) :
    Sweeps facts rule sweep where
  grows p := by
    rw [hfacts]
    exact Set.subset_union_left
  sound p := by
    rw [hfacts]
    rintro b (hb | ⟨a, ha, hab⟩)
    · exact ⟨b, hb, .refl⟩
    · exact ⟨a, ha, .single hab⟩
  closed p hsame a ha b hab := by
    rw [← hsame, hfacts]
    exact .inr ⟨a, ha, hab⟩
  reports := hreports

theorem skip : Sweeps facts (fun _ _ => False) (fun p : σ × Bool => p) where
  grows p := subset_rfl
  sound p := subset_follows
  closed p _ a _ b hab := hab.elim
  reports p := by simp

theorem comp (h : Sweeps facts rule sweep) (h' : Sweeps facts rule' sweep') :
    Sweeps facts (fun a b => rule a b ∨ rule' a b)
      (fun p => sweep' (sweep p)) where
  grows p := (h.grows p).trans (h'.grows _)
  sound p := by
    have hmiddle : facts (sweep p).1 ⊆
        Follows (fun a b => rule a b ∨ rule' a b) (facts p.1) :=
      (h.sound p).trans (follows_mono (fun _ _ => .inl) subset_rfl)
    refine (h'.sound _).trans ?_
    exact (follows_mono (fun _ _ => .inr) hmiddle).trans follows_follows.le
  closed p hsame := by
    have hfirst : facts (sweep p).1 = facts p.1 :=
      ((h'.grows _).trans hsame.le).antisymm (h.grows p)
    have hsecond : facts (sweep' (sweep p)).1 = facts (sweep p).1 :=
      hsame.trans hfirst.symm
    rintro a ha b (hab | hab)
    · exact h.closed p hfirst a ha b hab
    · rw [← hfirst] at ha ⊢
      exact h'.closed _ hsecond a ha b hab
  reports p := by
    rw [h'.reports, h.reports, or_assoc]
    refine or_congr_right ?_
    constructor
    · rintro (hnew | hnew) hsame
      · exact hnew (((h'.grows _).trans hsame.le).antisymm (h.grows p))
      · have hle : facts (sweep' (sweep p)).1 ⊆ facts (sweep p).1 :=
          hsame.le.trans (h.grows p)
        exact hnew (hle.antisymm (h'.grows _))
    · intro hnew
      by_contra hsame
      rw [not_or, not_not, not_not] at hsame
      exact hnew (hsame.2.trans hsame.1)

theorem congr (h : Sweeps facts rule sweep)
    (hrule : ∀ a b, rule a b ↔ rule' a b) : Sweeps facts rule' sweep := by
  have heq : rule = rule' := funext₂ fun a b => propext (hrule a b)
  exact heq ▸ h

/-- A loop over items, each of which sweeps with a rule of its own. -/
theorem foldl {rules : ι → F → F → Prop} {step : σ × Bool → ι → σ × Bool}
    (items : List ι)
    (h : ∀ item ∈ items, Sweeps facts (rules item) (fun p => step p item)) :
    Sweeps facts (fun a b => ∃ item ∈ items, rules item a b)
      (fun p => items.foldl step p) := by
  induction items with
  | nil => exact skip.congr fun a b => by simp
  | cons item items ih =>
      have hhead := h item (by simp)
      have htail := ih fun other hother => h other (by simp [hother])
      exact (hhead.comp htail).congr fun a b => by simp

end Sweeps

/-! ## Repeating a sweep -/

section Saturate

variable {facts : σ → Set F} {rule : F → F → Prop}
  {sweep : σ × Bool → σ × Bool}

theorem Sweeps.follows_eq (h : Sweeps facts rule sweep) (p : σ × Bool) :
    Follows rule (facts (sweep p).1) = Follows rule (facts p.1) := by
  apply Set.Subset.antisymm
  · exact (follows_mono (fun _ _ hab => hab) (h.sound p)).trans
      follows_follows.le
  · exact follows_mono (fun _ _ hab => hab) (h.grows p)

/-- The facts when a sweep reports nothing. -/
theorem Sweeps.facts_of_quiet (h : Sweeps facts rule sweep) {s : σ}
    (hquiet : ¬(sweep (s, false)).2 = true) :
    facts (sweep (s, false)).1 = Follows rule (facts s) := by
  rw [h.reports, not_or, not_not] at hquiet
  have hsame : facts (sweep (s, false)).1 = facts s := hquiet.2
  rw [hsame]
  apply subset_follows.antisymm
  exact follows_subset_of_closed subset_rfl (h.closed (s, false) hsame)

/-- A sweep that reports something has found a new fact. -/
theorem Sweeps.ncard_lt (h : Sweeps facts rule sweep) {s : σ}
    (hchanged : (sweep (s, false)).2 = true)
    (hfinite : (facts (sweep (s, false)).1).Finite) :
    (facts s).ncard < (facts (sweep (s, false)).1).ncard := by
  have hnew := (h.reports (s, false)).mp hchanged
  refine Set.ncard_lt_ncard ?_ hfinite
  refine (h.grows (s, false)).ssubset_of_ne fun hsame => ?_
  exact hnew.elim Bool.false_ne_true fun hne => hne hsame.symm

/-- Over finitely many facts the repetition ends, with the facts that follow
from the first ones. -/
theorem saturate_eq_follows (h : Sweeps facts rule sweep) (all : Finset F)
    (hrule : ∀ a ∈ all, ∀ b, rule a b → b ∈ all) (s : σ)
    (hs : facts s ⊆ all) :
    ∃ t, (∀ fuel > all.card, saturate sweep fuel s = some t) ∧
      facts t = Follows rule (facts s) := by
  suffices hend : ∀ missing s, facts s ⊆ all →
      all.card ≤ missing + (facts s).ncard →
      ∃ t, (∀ fuel > missing, saturate sweep fuel s = some t) ∧
        facts t = Follows rule (facts s) from
    hend all.card s hs (Nat.le_add_right _ _)
  intro missing
  -- every sweep that reports a change finds one of the missing facts
  induction missing with
  | zero =>
      intro s hs hcard
      have hall : facts s = all :=
        Set.eq_of_subset_of_ncard_le hs (by simpa using hcard)
      have hsame : facts (sweep (s, false)).1 = facts s := by
        refine Set.Subset.antisymm ?_ (h.grows (s, false))
        refine (h.sound (s, false)).trans ?_
        refine follows_subset_of_closed subset_rfl ?_
        intro a ha b hab
        rw [hall] at ha ⊢
        exact hrule a ha b hab
      have hquiet : ¬(sweep (s, false)).2 = true := by
        rw [h.reports]
        simp [hsame]
      refine ⟨(sweep (s, false)).1, ?_, h.facts_of_quiet hquiet⟩
      intro fuel hfuel
      obtain ⟨fuel, rfl⟩ := Nat.exists_eq_add_of_lt hfuel
      rw [saturate, if_neg hquiet]
  | succ missing ih =>
      intro s hs hcard
      by_cases hchanged : (sweep (s, false)).2 = true
      · have hin : facts (sweep (s, false)).1 ⊆ all :=
          (h.sound (s, false)).trans (follows_subset_of_closed hs hrule)
        have hlt := h.ncard_lt hchanged (all.finite_toSet.subset hin)
        obtain ⟨t, hruns, ht⟩ := ih (sweep (s, false)).1 hin (by omega)
        refine ⟨t, ?_, ht.trans (h.follows_eq (s, false))⟩
        intro fuel hfuel
        obtain ⟨fuel, rfl⟩ := Nat.exists_eq_add_of_lt hfuel
        rw [saturate, if_pos hchanged]
        exact hruns _ (by omega)
      · refine ⟨(sweep (s, false)).1, ?_, h.facts_of_quiet hchanged⟩
        intro fuel hfuel
        obtain ⟨fuel, rfl⟩ := Nat.exists_eq_add_of_lt hfuel
        rw [saturate, if_neg hchanged]

end Saturate

end Saturation
