import Mathlib

/-!
# Texts of fields

A text of fields that a separator keeps apart, words that are read as far as
they go, and fields that are trimmed.  The rules take the first fields off, and
follow what a shorter copy does to the last one.
-/

namespace TextFields

variable {α : Type}

/-! ## Fields -/

/-- The position behind the third separator. -/
def thirdEnd (a b c : List α) : Nat :=
  a.length + b.length + c.length + 3

/-- A copy that reaches behind the third separator has the first three
fields. -/
theorem take_four {x : α} {a b c d : List α} {n : Nat} (h : thirdEnd a b c ≤ n) :
    (a ++ x :: (b ++ x :: (c ++ x :: d))).take n =
      a ++ x :: (b ++ x :: (c ++ x :: d.take (n - thirdEnd a b c))) := by
  have hsplit : ∀ d : List α, a ++ x :: (b ++ x :: (c ++ x :: d)) =
      (a ++ [x] ++ b ++ [x] ++ c ++ [x]) ++ d := by
    intro d
    simp
  have hlen : (a ++ [x] ++ b ++ [x] ++ c ++ [x]).length = thirdEnd a b c := by
    simp only [List.length_append, List.length_singleton, thirdEnd]
    omega
  rw [hsplit, hsplit, List.take_append, hlen, List.take_of_length_le]
  omega

section

variable [BEq α] [LawfulBEq α] {x : α} {xs a : List α}

/-- The first of several fields ends at the first separator. -/
theorem splitOn_eq_cons_iff {l : List (List α)} (hl : l ≠ []) :
    xs.splitOn x = a :: l ↔
      ∃ tail : List α, x ∉ a ∧ xs = a ++ x :: tail ∧ tail.splitOn x = l := by
  constructor
  · intro h
    by_cases hx : x ∈ xs
    · obtain ⟨front, tail, rfl, hfront⟩ := List.eq_append_cons_of_mem hx
      rw [List.splitOn_append_cons_self_of_not_mem hfront] at h
      obtain ⟨rfl, htail⟩ := List.cons.inj h
      exact ⟨tail, hfront, rfl, htail⟩
    · rw [List.splitOn_eq_singleton hx] at h
      exact absurd (List.cons.inj h).2.symm hl
  · rintro ⟨tail, ha, rfl, rfl⟩
    exact List.splitOn_append_cons_self_of_not_mem ha tail

theorem splitOn_eq_singleton_iff :
    xs.splitOn x = [a] ↔ x ∉ xs ∧ xs = a := by
  constructor
  · intro h
    by_cases hx : x ∈ xs
    · obtain ⟨front, tail, rfl, hfront⟩ := List.eq_append_cons_of_mem hx
      rw [List.splitOn_append_cons_self_of_not_mem hfront] at h
      exact absurd (List.cons.inj h).2 (List.splitOn_ne_nil x tail)
    · rw [List.splitOn_eq_singleton hx] at h
      exact ⟨hx, (List.cons.inj h).1⟩
  · rintro ⟨hx, rfl⟩
    exact List.splitOn_eq_singleton hx

/-- No field has a separator. -/
theorem notMem_of_mem_splitOn {l : List (List α)} (h : xs.splitOn x = l) :
    ∀ a ∈ l, x ∉ a := by
  induction l generalizing xs with
  | nil => exact absurd h (List.splitOn_ne_nil x xs)
  | cons b l ih =>
      intro a ha
      by_cases hl : l = []
      · subst hl
        obtain ⟨hx, rfl⟩ := splitOn_eq_singleton_iff.mp h
        rwa [List.mem_singleton.mp ha]
      · obtain ⟨tail, hb, -, htail⟩ := (splitOn_eq_cons_iff hl).mp h
        rcases List.mem_cons.mp ha with rfl | ha
        · exact hb
        · exact ih htail a ha

/-- Fields are the fields of a text if none has a separator and joining them
gives the text. -/
theorem splitOn_eq_iff {l : List (List α)} (hl : l ≠ []) :
    xs.splitOn x = l ↔ (∀ a ∈ l, x ∉ a) ∧ xs = [x].intercalate l := by
  constructor
  · intro h
    refine ⟨notMem_of_mem_splitOn h, ?_⟩
    rw [← h, List.intercalate_splitOn]
  · rintro ⟨hfields, rfl⟩
    exact List.splitOn_intercalate x hfields hl

omit [LawfulBEq α] in
theorem length_splitOn (x : α) (xs : List α) :
    (xs.splitOn x).length = 1 + xs.count x := by
  induction xs with
  | nil => rfl
  | cons c xs ih =>
      rw [List.splitOn_cons_eq_if_modifyHead, List.count_cons]
      split
      · rw [List.length_cons, ih]
        omega
      · rw [List.length_modifyHead, ih]
        rfl

/-- A text that starts with no separator starts with a field. -/
theorem exists_splitOn_cons {c : α} (hc : c ≠ x) (xs : List α) :
    ∃ first, (c :: xs).splitOn x = (c :: first) :: ((c :: xs).splitOn x).tail := by
  obtain ⟨first, rest, hsplit⟩ :=
    List.exists_cons_of_ne_nil (List.splitOn_ne_nil x xs)
  rw [List.splitOn_cons_eq_if_modifyHead, beq_false_of_ne hc,
    if_neg Bool.false_ne_true, hsplit]
  exact ⟨first, rfl⟩

/-- Behind the first one no field is empty, where no separator is at the end
or beside another one. -/
theorem tail_splitOn_ne_nil (hlast : xs.getLast? ≠ some x)
    (hpair : ¬[x, x] <:+: xs) : ∀ a ∈ (xs.splitOn x).tail, a ≠ [] := by
  induction xs with
  | nil => simp
  | cons c xs ih =>
      have hpair' : ¬[x, x] <:+: xs :=
        fun h => hpair (h.trans (List.suffix_cons c xs).isInfix)
      have hlast' : xs.getLast? ≠ some x := by
        intro h
        rw [List.getLast?_cons, h] at hlast
        exact hlast rfl
      have hrest := ih hlast' hpair'
      by_cases hc : c = x
      · subst hc
        rw [List.splitOn_cons_eq_if_modifyHead, beq_self_eq_true, if_pos rfl,
          List.tail_cons]
        cases xs with
        | nil => exact absurd rfl hlast
        | cons d xs =>
            have hd : d ≠ c := by
              rintro rfl
              exact hpair ⟨[], xs, rfl⟩
            obtain ⟨first, hfirst⟩ := exists_splitOn_cons hd xs
            rw [hfirst]
            intro a ha
            rcases List.mem_cons.mp ha with rfl | ha
            · exact List.cons_ne_nil _ _
            · exact hrest a ha
      · rw [List.splitOn_cons_eq_if_modifyHead, beq_false_of_ne hc,
          if_neg Bool.false_ne_true, List.tail_modifyHead]
        exact hrest

theorem splitOn_ne_nil_of_inner (hne : xs ≠ []) (hhead : xs.head? ≠ some x)
    (hlast : xs.getLast? ≠ some x) (hpair : ¬[x, x] <:+: xs) :
    ∀ a ∈ xs.splitOn x, a ≠ [] := by
  have hrest := tail_splitOn_ne_nil hlast hpair
  cases xs with
  | nil => exact absurd rfl hne
  | cons c xs =>
      have hc : c ≠ x := by
        rintro rfl
        exact hhead rfl
      obtain ⟨first, hfirst⟩ := exists_splitOn_cons hc xs
      rw [hfirst]
      intro a ha
      rcases List.mem_cons.mp ha with rfl | ha
      · exact List.cons_ne_nil _ _
      · exact hrest a ha

/-- Four fields or more. -/
theorem splitOn_eq_four_iff {b c : List α} {l : List (List α)}
    (hl : l ≠ []) :
    xs.splitOn x = a :: b :: c :: l ↔
      ∃ tail : List α, x ∉ a ∧ x ∉ b ∧ x ∉ c ∧
        xs = a ++ x :: (b ++ x :: (c ++ x :: tail)) ∧
        tail.splitOn x = l := by
  rw [splitOn_eq_cons_iff (List.cons_ne_nil _ _)]
  constructor
  · rintro ⟨afterA, ha, rfl, hrestA⟩
    obtain ⟨afterB, hb, rfl, hrestB⟩ :=
      (splitOn_eq_cons_iff (List.cons_ne_nil _ _)).mp hrestA
    obtain ⟨tail, hc, rfl, htail⟩ := (splitOn_eq_cons_iff hl).mp hrestB
    exact ⟨tail, ha, hb, hc, rfl, htail⟩
  · rintro ⟨tail, ha, hb, hc, rfl, htail⟩
    exact ⟨_, ha, rfl, (splitOn_eq_cons_iff (List.cons_ne_nil _ _)).mpr
      ⟨_, hb, rfl, (splitOn_eq_cons_iff hl).mpr ⟨_, hc, rfl, htail⟩⟩⟩

end

/-! ## Words -/

section

variable {p : α → Bool} {word rest : List α}

/-- The scan of a word takes all of it, and stops where it ends. -/
theorem takeWhile_word (hword : ∀ c ∈ word, p c = true)
    (hrest : ∀ c ∈ rest.head?, p c = false) :
    (word ++ rest).takeWhile p = word := by
  rw [List.takeWhile_append_of_pos hword]
  cases rest with
  | nil => simp
  | cons d rest => simp [hrest d rfl]

theorem dropWhile_word (hword : ∀ c ∈ word, p c = true)
    (hrest : ∀ c ∈ rest.head?, p c = false) :
    (word ++ rest).dropWhile p = rest := by
  rw [List.dropWhile_append_of_pos hword]
  cases rest with
  | nil => rfl
  | cons d rest => simp [hrest d rfl]

/-- The scan for a character stops at the first one. -/
theorem takeWhile_stop [DecidableEq α] {x : α} (h : x ∉ word) (rest : List α) :
    (word ++ x :: rest).takeWhile (· ≠ x) = word ∧
      (word ++ x :: rest).dropWhile (· ≠ x) = x :: rest := by
  have hword : ∀ c ∈ word, decide (c ≠ x) = true :=
    fun c hc => decide_eq_true fun heq => h (heq ▸ hc)
  have hstop : ∀ c ∈ (x :: rest).head?, decide (c ≠ x) = false := by
    rintro c ⟨⟩
    simp
  exact ⟨takeWhile_word hword hstop, dropWhile_word hword hstop⟩

end

/-! ## Trimming -/

/-- Both ends are trimmed. -/
def trimmed (p : α → Bool) (s : List α) : List α :=
  (s.dropWhile p).rdropWhile p

section

variable {p : α → Bool} {s : List α}

theorem trimmed_sublist : (trimmed p s).Sublist s :=
  (List.rdropWhile_prefix p _).sublist.trans
    (List.dropWhile_suffix p).sublist

theorem rdropWhile_append {mid tail : List α} (htail : ∀ c ∈ tail, p c = true) :
    (mid ++ tail).rdropWhile p = mid.rdropWhile p := by
  rw [List.rdropWhile, List.rdropWhile, List.reverse_append,
    List.dropWhile_append_of_pos]
  intro c hc
  exact htail c (List.mem_reverse.mp hc)

theorem rdropWhile_eq_self {mid : List α} (hmid : ∀ c ∈ mid, ¬ p c = true) :
    mid.rdropWhile p = mid := by
  rw [List.rdropWhile_eq_self_iff]
  intro hne
  exact hmid _ (List.getLast_mem hne)

/-- What lies between the two blank ends. -/
theorem trimmed_append {front mid tail : List α}
    (hfront : ∀ c ∈ front, p c = true) (hmid : ∀ c ∈ mid, ¬ p c = true)
    (htail : ∀ c ∈ tail, p c = true) :
    trimmed p (front ++ (mid ++ tail)) = mid := by
  rw [trimmed, List.dropWhile_append_of_pos hfront]
  cases mid with
  | nil =>
      have hnone : tail.dropWhile p = [] := List.dropWhile_eq_nil_iff.mpr htail
      rw [List.nil_append, hnone, List.rdropWhile_nil]
  | cons c mid =>
      rw [List.cons_append, List.dropWhile_cons_of_neg (hmid c (by simp)),
        ← List.cons_append, rdropWhile_append htail, rdropWhile_eq_self hmid]

theorem trimmed_of_forall (h : ∀ c ∈ s, ¬ p c = true) : trimmed p s = s := by
  have hall := @trimmed_append α p [] s [] (by simp) h (by simp)
  rwa [List.append_nil, List.nil_append] at hall

/-- A text is its trimmed part between blank ends. -/
theorem eq_append_trimmed (p : α → Bool) (s : List α) :
    ∃ front tail : List α, (∀ c ∈ front, p c = true) ∧
      (∀ c ∈ tail, p c = true) ∧ s = front ++ (trimmed p s ++ tail) := by
  refine ⟨s.takeWhile p, (s.dropWhile p).rtakeWhile p, ?_, ?_, ?_⟩
  · exact fun c hc => List.mem_takeWhile_imp hc
  · exact fun c hc => List.mem_rtakeWhile_imp hc
  · rw [trimmed, List.rdropWhile_append_rtakeWhile,
      List.takeWhile_append_dropWhile]

/-- A word that is cut short is a shorter word. -/
theorem trimmed_take (hword : ∀ c ∈ trimmed p s, ¬ p c = true) (n : Nat) :
    ∃ m : Nat, trimmed p (s.take n) = (trimmed p s).take m := by
  obtain ⟨front, tail, hfront, htail, heq⟩ := eq_append_trimmed p s
  refine ⟨n - front.length, ?_⟩
  conv_lhs => rw [heq, List.take_append, List.take_append]
  apply trimmed_append
  · exact fun c hc => hfront c (List.mem_of_mem_take hc)
  · exact fun c hc => hword c (List.mem_of_mem_take hc)
  · exact fun c hc => htail c (List.mem_of_mem_take hc)

theorem trimmed_trimmed : trimmed p (trimmed p s) = trimmed p s := by
  by_cases hnil : trimmed p s = []
  · rw [hnil]
    rfl
  · have hhead : ∀ h : s.dropWhile p ≠ [], ¬ p ((s.dropWhile p).head h) := by
      intro h
      rw [List.head_dropWhile_not p h]
      exact Bool.false_ne_true
    have hkeep : (trimmed p s).dropWhile p = trimmed p s := by
      obtain ⟨rest, hrest⟩ := List.rdropWhile_prefix p (s.dropWhile p)
      obtain ⟨c, mid, hmid⟩ := List.exists_cons_of_ne_nil hnil
      have hne : s.dropWhile p ≠ [] := by
        intro h
        rw [trimmed, h, List.rdropWhile_nil] at hnil
        exact hnil rfl
      have hc : (s.dropWhile p).head hne = c := by
        have hcons : s.dropWhile p = c :: (mid ++ rest) := by
          rw [← hrest, ← List.cons_append, ← hmid]
          rfl
        simp only [hcons, List.head_cons]
      rw [hmid, List.dropWhile_cons_of_neg]
      rw [← hc]
      exact hhead hne
    rw [trimmed, hkeep, trimmed, List.rdropWhile_idempotent]

end

end TextFields
