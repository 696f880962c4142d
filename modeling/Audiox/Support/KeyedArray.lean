import Audiox.Support.KeyedList
import Mathlib

/-!
# Arrays with keys

An array in which no key is repeated, as a finite map.  An element is put in
the place of the one with its key, or behind the last one.  Where an element
is taken out, the last one is moved in.
-/

namespace KeyedArray

open KeyedList

variable {α κ : Type} [DecidableEq κ] (key : α → κ)

/-- Where a key is, or the length of the array. -/
def position (k : κ) (l : List α) : Nat :=
  l.findIdx fun a => key a = k

def putAt (i : Nat) (a : α) (l : List α) : List α :=
  if i = l.length then l ++ [a] else l.set i a

def takeOut (i : Nat) (l : List α) : List α :=
  match l.getLast? with
  | some last => (l.set i last).dropLast
  | none => []

variable {key} {l : List α} {a b : α} {k : κ}

theorem position_le : position key k l ≤ l.length :=
  List.findIdx_le_length

theorem position_lt_iff :
    position key k l < l.length ↔ ∃ b ∈ l, key b = k := by
  simp [position, List.findIdx_lt_length]

theorem find_eq_some_iff (hkeys : (l.map key).Nodup) :
    find key k l = some a ↔ a ∈ l ∧ key a = k := by
  constructor
  · exact mem_of_find
  · rintro ⟨ha, rfl⟩
    exact find_of_mem hkeys ha

theorem isSome_find_iff :
    find key k l ≠ none ↔ position key k l < l.length := by
  rw [Ne, find_eq_none, position_lt_iff]
  push Not
  rfl

/-- The element with a key, and the elements around it. -/
theorem split_at (h : position key k l < l.length) :
    ∃ before x behind, l = before ++ x :: behind ∧
      before.length = position key k l ∧ key x = k := by
  refine ⟨l.take (position key k l), l[position key k l],
    l.drop (position key k l + 1), ?_, ?_, ?_⟩
  · rw [List.getElem_cons_drop, List.take_append_drop]
  · exact List.length_take_of_le h.le
  · have hfound := List.findIdx_getElem (p := fun a => decide (key a = k)) (w := h)
    exact of_decide_eq_true hfound

omit [DecidableEq κ] in
/-- No other element has the key of an element. -/
theorem key_ne_of_split {before behind : List α} {x c : α}
    (hkeys : ((before ++ x :: behind).map key).Nodup)
    (hc : c ∈ before ++ behind) : key c ≠ key x := by
  have hperm : (before ++ x :: behind).Perm (x :: (before ++ behind)) :=
    List.perm_middle
  have hnodup := (hperm.map key).nodup_iff.mp hkeys
  rw [List.map_cons, List.nodup_cons] at hnodup
  intro hkey
  exact hnodup.1 (List.mem_map.mpr ⟨c, hc, hkey⟩)

/-! ## Putting an element -/

theorem putAt_behind (h : position key k l = l.length) :
    putAt (position key k l) a l = l ++ [a] := by
  rw [putAt, if_pos h]

theorem putAt_split {before behind : List α} {x : α} :
    putAt before.length a (before ++ x :: behind) = before ++ a :: behind := by
  rw [putAt, if_neg (by simp), List.set_append_right _ _ le_rfl, Nat.sub_self,
    List.set_cons_zero]

theorem length_putAt :
    (putAt (position key k l) a l).length =
      if position key k l = l.length then l.length + 1 else l.length := by
  rw [putAt]
  split
  · exact List.length_append
  · exact List.length_set

theorem mem_putAt (hkeys : (l.map key).Nodup) :
    b ∈ putAt (position key (key a) l) a l ↔
      b = a ∨ (b ∈ l ∧ key b ≠ key a) := by
  have hle : position key (key a) l ≤ l.length := position_le
  rcases hle.lt_or_eq with hlt | heq
  · obtain ⟨before, x, behind, rfl, hlen, hx⟩ := split_at hlt
    rw [← hlen, putAt_split]
    have hother : ∀ c ∈ before ++ behind, key c ≠ key a := by
      intro c hc
      rw [← hx]
      exact key_ne_of_split hkeys hc
    simp only [List.mem_append, List.mem_cons] at hother ⊢
    constructor
    · rintro (hb | rfl | hb)
      · exact .inr ⟨.inl hb, hother b (.inl hb)⟩
      · exact .inl rfl
      · exact .inr ⟨.inr (.inr hb), hother b (.inr hb)⟩
    · rintro (rfl | ⟨hb | rfl | hb, hne⟩)
      · exact .inr (.inl rfl)
      · exact .inl hb
      · exact absurd hx hne
      · exact .inr (.inr hb)
  · have hnone : ∀ c ∈ l, key c ≠ key a := by
      intro c hc hkey
      exact absurd (position_lt_iff.mpr ⟨c, hc, hkey⟩) heq.not_lt
    rw [putAt_behind heq, List.mem_append, List.mem_singleton]
    constructor
    · rintro (hb | rfl)
      · exact .inr ⟨hb, hnone b hb⟩
      · exact .inl rfl
    · rintro (rfl | ⟨hb, -⟩)
      · exact .inr rfl
      · exact .inl hb

theorem nodup_putAt (hkeys : (l.map key).Nodup) :
    ((putAt (position key (key a) l) a l).map key).Nodup := by
  have hle : position key (key a) l ≤ l.length := position_le
  rcases hle.lt_or_eq with hlt | heq
  · obtain ⟨before, x, behind, rfl, hlen, hx⟩ := split_at hlt
    rw [← hlen, putAt_split]
    simpa [hx] using hkeys
  · rw [putAt_behind heq, List.map_append, List.map_singleton,
      List.nodup_append']
    refine ⟨hkeys, List.nodup_singleton _, ?_⟩
    rw [List.disjoint_singleton]
    intro hmem
    obtain ⟨b, hb, hkey⟩ := List.mem_map.mp hmem
    exact absurd (position_lt_iff.mpr ⟨b, hb, hkey⟩) heq.not_lt

theorem find_putAt (hkeys : (l.map key).Nodup) (k' : κ) :
    find key k' (putAt (position key (key a) l) a l) =
      if k' = key a then some a else find key k' l := by
  have hkeys' : ((putAt (position key (key a) l) a l).map key).Nodup :=
    nodup_putAt hkeys
  ext b
  rw [find_eq_some_iff hkeys', mem_putAt hkeys]
  split
  · next heq =>
      subst heq
      rw [Option.some_inj]
      constructor
      · rintro ⟨rfl | ⟨-, hne⟩, hkey⟩
        · rfl
        · exact absurd hkey hne
      · rintro rfl
        exact ⟨.inl rfl, rfl⟩
  · next hne =>
      rw [find_eq_some_iff hkeys]
      constructor
      · rintro ⟨rfl | ⟨hb, -⟩, hkey⟩
        · exact absurd hkey.symm hne
        · exact ⟨hb, hkey⟩
      · rintro ⟨hb, rfl⟩
        exact ⟨.inr ⟨hb, hne⟩, rfl⟩

/-- An element that is put into one of two arrays without common keys takes its
key from the other one. -/
theorem apart_putAt {β : Type} {key' : β → κ} {l' : List β}
    (hkeys : (l.map key).Nodup) (hapart : ∀ b ∈ l, ∀ c ∈ l', key b ≠ key' c) :
    ∀ b ∈ putAt (position key (key a) l) a l, ∀ c ∈ without key' (key a) l',
      key b ≠ key' c := by
  intro b hb c hc
  rw [mem_without] at hc
  rcases (mem_putAt hkeys).mp hb with rfl | ⟨hold, -⟩
  · exact hc.2.symm
  · exact hapart b hold c hc.1

/-! ## Taking an element out -/

/-- Where the elements behind it are moved up, the order is kept. -/
theorem eraseIdx_position (hkeys : (l.map key).Nodup) :
    l.eraseIdx (position key k l) = without key k l := by
  have hle : position key k l ≤ l.length := position_le
  rcases hle.lt_or_eq with hlt | heq
  · obtain ⟨before, x, behind, rfl, hlen, hx⟩ := split_at hlt
    have hother : ∀ c ∈ before ++ behind, decide (key c ≠ k) = true := by
      intro c hc
      rw [decide_eq_true_iff, ← hx]
      exact key_ne_of_split hkeys hc
    rw [← hlen, List.eraseIdx_append_of_length_le le_rfl, Nat.sub_self,
      List.eraseIdx_cons_zero, without, List.filter_append,
      List.filter_cons_of_neg (by simp [hx]), ← List.filter_append]
    exact (List.filter_eq_self.mpr hother).symm
  · rw [heq, List.eraseIdx_of_length_le le_rfl, without]
    symm
    rw [List.filter_eq_self]
    intro c hc
    rw [decide_eq_true_iff]
    intro hkey
    exact absurd (position_lt_iff.mpr ⟨c, hc, hkey⟩) heq.not_lt

/-- Up to the order, only the element is gone. -/
theorem takeOut_split {before behind : List α} {x : α} :
    (takeOut before.length (before ++ x :: behind)).Perm (before ++ behind) := by
  rcases List.eq_nil_or_concat' behind with rfl | ⟨rest, last, rfl⟩
  · rw [takeOut, List.getLast?_concat]
    dsimp only
    rw [List.set_append_right _ _ le_rfl, Nat.sub_self, List.set_cons_zero,
      List.dropLast_concat, List.append_nil]
  · have hlast : (before ++ x :: (rest ++ [last])).getLast? = some last := by
      rw [← List.cons_append, ← List.append_assoc, List.getLast?_concat]
    rw [takeOut, hlast]
    dsimp only
    rw [List.set_append_right _ _ le_rfl, Nat.sub_self, List.set_cons_zero,
      ← List.cons_append, ← List.append_assoc, List.dropLast_concat]
    exact (List.perm_append_left_iff before).mpr
      (List.perm_append_singleton last rest).symm

theorem takeOut_perm (h : position key k l < l.length)
    (hkeys : (l.map key).Nodup) :
    (takeOut (position key k l) l).Perm (without key k l) := by
  obtain ⟨before, x, behind, rfl, hlen, hx⟩ := split_at h
  have hother : ∀ c ∈ before ++ behind, decide (key c ≠ k) = true := by
    intro c hc
    rw [decide_eq_true_iff, ← hx]
    exact key_ne_of_split hkeys hc
  have hrest : without key k (before ++ x :: behind) = before ++ behind := by
    rw [without, List.filter_append, List.filter_cons_of_neg (by simp [hx]),
      ← List.filter_append]
    exact List.filter_eq_self.mpr hother
  rw [← hlen, hrest]
  exact takeOut_split

theorem nodup_takeOut (h : position key k l < l.length)
    (hkeys : (l.map key).Nodup) :
    ((takeOut (position key k l) l).map key).Nodup :=
  ((takeOut_perm h hkeys).map key).nodup_iff.mpr (nodup_map_without hkeys)

theorem find_takeOut (h : position key k l < l.length)
    (hkeys : (l.map key).Nodup) (k' : κ) :
    find key k' (takeOut (position key k l) l) =
      if k' = k then none else find key k' l := by
  rw [← find_without]
  ext b
  rw [find_eq_some_iff (nodup_takeOut h hkeys),
    find_eq_some_iff (nodup_map_without hkeys), (takeOut_perm h hkeys).mem_iff]

theorem length_takeOut_le (h : position key k l < l.length)
    (hkeys : (l.map key).Nodup) :
    (takeOut (position key k l) l).length ≤ l.length := by
  rw [(takeOut_perm h hkeys).length_eq]
  exact length_without_le

end KeyedArray
