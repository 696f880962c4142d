import Mathlib

/-!
# Slots that are reused by age

Finitely many slots hold contents under keys.  Every use of a key is stamped
with its number, and a new key takes a slot with the lowest stamp.  Then the
keys that are held are those since whose last use fewer other keys than there
are slots have been used.
-/

namespace Recency

structure Slot (κ α : Type) where
  key : κ
  used : Nat
  content : α

/-- A use of a key: the slot, and the content that is left in it. -/
structure Use (ι κ α : Type) where
  key : κ
  slot : ι
  content : α

variable {ι κ α : Type} [DecidableEq κ]

/-- The last use of a key, where the newest use is the first one. -/
def lastUse (k : κ) (uses : List (Use ι κ α)) : Option (Use ι κ α) :=
  uses.find? fun u => u.key = k

def age (k : κ) (uses : List (Use ι κ α)) : Nat :=
  uses.findIdx fun u => u.key = k

/-- The keys that have been used since the last use of a key. -/
def since (k : κ) (uses : List (Use ι κ α)) : Finset κ :=
  ((uses.takeWhile fun u => u.key ≠ k).map Use.key).toFinset

def Held (slots : ι → Slot κ α) (k : κ) : Prop :=
  ∃ i, (slots i).used ≠ 0 ∧ (slots i).key = k

/-- A slot in use has the stamp and the content of the last use of its key, and
a key that has been dropped is older than all slots. -/
structure Inv (slots : ι → Slot κ α) (uses : List (Use ι κ α)) : Prop where
  last : ∀ i, (slots i).used ≠ 0 →
    lastUse (slots i).key uses = some ⟨(slots i).key, i, (slots i).content⟩ ∧
      (slots i).used + age (slots i).key uses = uses.length
  gone : ∀ k, lastUse k uses ≠ none → ¬Held slots k →
    ∀ i, uses.length < (slots i).used + age k uses

variable {slots : ι → Slot κ α} {uses : List (Use ι κ α)} {k : κ} {i j : ι}

/-! ## Uses -/

theorem lastUse_cons (u : Use ι κ α) :
    lastUse k (u :: uses) = if u.key = k then some u else lastUse k uses := by
  by_cases h : u.key = k
  · rw [if_pos h, lastUse, List.find?_cons_of_pos (by simpa using h)]
  · rw [if_neg h, lastUse, List.find?_cons_of_neg (by simpa using h), lastUse]

theorem age_cons (u : Use ι κ α) :
    age k (u :: uses) = if u.key = k then 0 else age k uses + 1 := by
  by_cases h : u.key = k
  · rw [if_pos h, age, List.findIdx_cons, decide_eq_true h, cond_true]
  · rw [if_neg h, age, List.findIdx_cons, decide_eq_false h, cond_false, age]

theorem age_lt (h : lastUse k uses ≠ none) : age k uses < uses.length := by
  rw [age, List.findIdx_lt_length]
  by_contra hnone
  apply h
  rw [lastUse, List.find?_eq_none]
  exact fun u hu hkey => hnone ⟨u, hu, hkey⟩

theorem key_getElem?_age (h : lastUse k uses ≠ none) :
    uses[age k uses]?.map Use.key = some k := by
  have hkey : (uses.get ⟨age k uses, age_lt h⟩).key = k :=
    of_decide_eq_true (List.findIdx_getElem (p := fun u : Use ι κ α => u.key = k)
      (w := age_lt h))
  rw [List.getElem?_eq_getElem (age_lt h), Option.map_some]
  exact congrArg some hkey

/-- Keys with the same age are the same. -/
theorem eq_of_age_eq {k' : κ} (h : lastUse k uses ≠ none)
    (h' : lastUse k' uses ≠ none) (heq : age k uses = age k' uses) : k = k' := by
  have hkey := key_getElem?_age h
  rw [heq, key_getElem?_age h'] at hkey
  exact (Option.some.inj hkey).symm

theorem mem_since_iff {k' : κ} (h : lastUse k uses ≠ none) :
    k' ∈ since k uses ↔ lastUse k' uses ≠ none ∧ age k' uses < age k uses := by
  induction uses with
  | nil => exact absurd rfl h
  | cons u uses ih =>
      rw [lastUse_cons] at h
      rw [lastUse_cons, age_cons, age_cons, since]
      by_cases hu : u.key = k
      · rw [if_pos hu, List.takeWhile_cons_of_neg (by simpa using hu)]
        simp
      · rw [if_neg hu] at h
        have hrest := ih h
        rw [since, List.mem_toFinset] at hrest
        rw [if_neg hu, List.takeWhile_cons_of_pos (by simpa using hu),
          List.mem_toFinset, List.map_cons, List.mem_cons, hrest]
        by_cases hk' : u.key = k'
        · simp [hk']
        · rw [if_neg hk', if_neg hk']
          constructor
          · rintro (heq | ⟨hused, hage⟩)
            · exact absurd heq.symm hk'
            · exact ⟨hused, Nat.succ_lt_succ hage⟩
          · exact fun hused => .inr ⟨hused.1, Nat.lt_of_succ_lt_succ hused.2⟩

/-! ## What the slots hold -/

namespace Inv

theorem used_ne_none (h : Inv slots uses) (hi : (slots i).used ≠ 0) :
    lastUse (slots i).key uses ≠ none := by
  rw [(h.last i hi).1]
  exact Option.some_ne_none _

/-- No key is in two slots. -/
theorem unique (h : Inv slots uses) (hi : (slots i).used ≠ 0)
    (hj : (slots j).used ≠ 0) (hkey : (slots i).key = (slots j).key) : i = j := by
  have hi' := (h.last i hi).1
  rw [hkey, (h.last j hj).1] at hi'
  exact (congrArg Use.slot (Option.some.inj hi')).symm

/-- No stamp is in two slots. -/
theorem used_injective (h : Inv slots uses) (hi : (slots i).used ≠ 0)
    (heq : (slots i).used = (slots j).used) : i = j := by
  have hj : (slots j).used ≠ 0 := heq ▸ hi
  have hage := (h.last i hi).2
  have hage' := (h.last j hj).2
  exact h.unique hi hj
    (eq_of_age_eq (h.used_ne_none hi) (h.used_ne_none hj) (by omega))

theorem initial (h : ∀ i, (slots i).used = 0) : Inv slots [] where
  last i hi := absurd (h i) hi
  gone _ hk := absurd rfl hk

/-- A key is used in its slot, or a key that is not held in a slot with the
lowest stamp. -/
theorem use [DecidableEq ι] (h : Inv slots uses) (content : α)
    (hslot : ((slots i).used ≠ 0 ∧ (slots i).key = k) ∨
      (¬Held slots k ∧ ∀ j, (slots i).used ≤ (slots j).used)) :
    Inv (Function.update slots i ⟨k, uses.length + 1, content⟩)
      (⟨k, i, content⟩ :: uses) := by
  have hother : ∀ j, j ≠ i → (slots j).used ≠ 0 → k ≠ (slots j).key := by
    intro j hj hused heq
    rcases hslot with ⟨hi, hkey⟩ | ⟨hfree, -⟩
    · exact hj (h.unique hused hi (heq.symm.trans hkey.symm))
    · exact hfree ⟨j, hused, heq.symm⟩
  constructor
  · intro j hused
    by_cases hj : j = i
    · subst hj
      rw [Function.update_self, lastUse_cons, age_cons, if_pos rfl, if_pos rfl]
      exact ⟨rfl, rfl⟩
    · rw [Function.update_of_ne hj] at hused ⊢
      obtain ⟨hlast, hage⟩ := h.last j hused
      rw [lastUse_cons, age_cons, if_neg (hother j hj hused),
        if_neg (hother j hj hused), List.length_cons]
      exact ⟨hlast, by omega⟩
  · intro k' hused hfree j
    have hne : k ≠ k' := by
      rintro rfl
      apply hfree
      refine ⟨i, ?_, ?_⟩
      · rw [Function.update_self]
        exact Nat.succ_ne_zero _
      · rw [Function.update_self]
    rw [lastUse_cons, if_neg hne] at hused
    rw [age_cons, if_neg hne, List.length_cons]
    have hlt := age_lt hused
    by_cases hj : j = i
    · subst hj
      rw [Function.update_self]
      dsimp only
      omega
    · rw [Function.update_of_ne hj]
      by_cases hheld : Held slots k'
      · -- The slot has been taken from this key, which was the oldest one.
        obtain ⟨l, hl, hkey⟩ := hheld
        have hli : l = i := by
          by_contra hli
          apply hfree
          refine ⟨l, ?_, ?_⟩
          · rwa [Function.update_of_ne hli]
          · rwa [Function.update_of_ne hli]
        subst hli
        have hage := (h.last l hl).2
        rw [hkey] at hage
        have holdest : (slots l).used ≤ (slots j).used := by
          rcases hslot with ⟨-, hkey'⟩ | ⟨-, hle⟩
          · exact absurd (hkey'.symm.trans hkey) hne
          · exact hle j
        have hdistinct : (slots l).used ≠ (slots j).used :=
          fun heq => hj (h.used_injective hl heq).symm
        omega
      · have hold := h.gone k' hused hheld j
        omega

/-- The keys that are held. -/
theorem held_iff [Fintype ι] [Nonempty ι] (h : Inv slots uses) (k : κ) :
    Held slots k ↔
      lastUse k uses ≠ none ∧ (since k uses).card < Fintype.card ι := by
  classical
  constructor
  · rintro ⟨i, hi, rfl⟩
    refine ⟨h.used_ne_none hi, ?_⟩
    have hsub : since (slots i).key uses ⊆
        (Finset.univ.erase i).image fun j => (slots j).key := by
      intro k' hk'
      obtain ⟨hused, hage⟩ := (mem_since_iff (h.used_ne_none hi)).mp hk'
      have hheld : Held slots k' := by
        by_contra hfree
        have hgone := h.gone k' hused hfree i
        have hown := (h.last i hi).2
        omega
      obtain ⟨j, hj, rfl⟩ := hheld
      rw [Finset.mem_image]
      refine ⟨j, Finset.mem_erase.mpr ⟨?_, Finset.mem_univ j⟩, rfl⟩
      rintro rfl
      exact lt_irrefl _ hage
    calc (since (slots i).key uses).card
        ≤ ((Finset.univ.erase i).image fun j => (slots j).key).card :=
          Finset.card_le_card hsub
      _ ≤ (Finset.univ.erase i).card := Finset.card_image_le
      _ < Finset.univ.card := Finset.card_erase_lt_of_mem (Finset.mem_univ i)
      _ = Fintype.card ι := Finset.card_univ
  · rintro ⟨hused, hcard⟩
    by_contra hfree
    have hgone := h.gone k hused hfree
    have hlt := age_lt hused
    have hall : ∀ i, (slots i).used ≠ 0 := by
      intro i
      have hi := hgone i
      omega
    have hsub : Finset.univ.image (fun j => (slots j).key) ⊆ since k uses := by
      intro k' hk'
      obtain ⟨j, -, rfl⟩ := Finset.mem_image.mp hk'
      rw [mem_since_iff hused]
      have hage := (h.last j (hall j)).2
      have hj := hgone j
      exact ⟨h.used_ne_none (hall j), by omega⟩
    have hinj : Function.Injective fun j => (slots j).key :=
      fun i j heq => h.unique (hall i) (hall j) heq
    have hle := Finset.card_le_card hsub
    rw [Finset.card_image_of_injective _ hinj, Finset.card_univ] at hle
    omega

end Inv

end Recency
