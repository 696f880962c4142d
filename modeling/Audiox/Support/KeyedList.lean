import Mathlib

/-!
# Lists with keys

A list in which every element is found under its key.  Putting an element
replaces the one with the same key.
-/

namespace KeyedList

variable {α κ : Type} [DecidableEq κ] (key : α → κ)

def find (k : κ) (l : List α) : Option α :=
  l.find? fun a => key a = k

/-- Removes what is found under a key. -/
def without (k : κ) (l : List α) : List α :=
  l.filter fun a => key a ≠ k

def put (a : α) (l : List α) : List α :=
  a :: without key (key a) l

variable {key} {l : List α} {a b : α} {k : κ}

theorem mem_without : b ∈ without key k l ↔ b ∈ l ∧ key b ≠ k := by
  simp [without]

theorem mem_put : b ∈ put key a l ↔ b = a ∨ (b ∈ l ∧ key b ≠ key a) := by
  rw [put, List.mem_cons, mem_without]

theorem find_eq_none : find key k l = none ↔ ∀ b ∈ l, key b ≠ k := by
  simp [find]

theorem mem_of_find (h : find key k l = some a) : a ∈ l ∧ key a = k := by
  constructor
  · exact List.mem_of_find?_eq_some h
  · have hkey := List.find?_some h
    simpa using hkey

/-- An element of a list without repeated keys is found. -/
theorem find_of_mem (hkeys : (l.map key).Nodup) (ha : a ∈ l) :
    find key (key a) l = some a := by
  cases hfind : find key (key a) l with
  | none => exact absurd rfl (find_eq_none.mp hfind a ha)
  | some b =>
      obtain ⟨hb, hkey⟩ := mem_of_find hfind
      rw [List.inj_on_of_nodup_map hkeys hb ha hkey]

theorem find_without (k' : κ) :
    find key k' (without key k l) = if k' = k then none else find key k' l := by
  by_cases heq : k' = k
  · rw [if_pos heq, find_eq_none]
    intro b hb hkey
    exact (mem_without.mp hb).2 (hkey.trans heq)
  · rw [if_neg heq, find, find, without, List.find?_filter]
    congr 1
    funext b
    by_cases hkey : key b = k'
    · simp [hkey, heq]
    · simp [hkey]

theorem find_put (k' : κ) :
    find key k' (put key a l) =
      if k' = key a then some a else find key k' l := by
  by_cases heq : k' = key a
  · rw [if_pos heq, put, find, List.find?_cons_of_pos (by simp [heq])]
  · have hskip : find key k' (put key a l) =
        find key k' (without key (key a) l) :=
      List.find?_cons_of_neg (by simpa using Ne.symm heq)
    rw [hskip, find_without, if_neg heq, if_neg heq]

theorem nodup_map_without {β : Type} {f : α → β} (h : (l.map f).Nodup) :
    ((without key k l).map f).Nodup :=
  h.sublist (List.filter_sublist.map f)

theorem nodup_map_put {β : Type} {f : α → β} (h : (l.map f).Nodup)
    (hnew : ∀ b ∈ l, key b ≠ key a → f b ≠ f a) :
    ((put key a l).map f).Nodup := by
  rw [put, List.map_cons, List.nodup_cons]
  constructor
  · intro hmem
    obtain ⟨b, hb, heq⟩ := List.mem_map.mp hmem
    obtain ⟨hb, hkey⟩ := mem_without.mp hb
    exact hnew b hb hkey heq
  · exact nodup_map_without h

theorem pairwise_without {R : α → α → Prop} (h : l.Pairwise R) :
    (without key k l).Pairwise R :=
  h.sublist List.filter_sublist

theorem pairwise_put {R : α → α → Prop} (h : l.Pairwise R)
    (hnew : ∀ b ∈ l, key b ≠ key a → R a b) : (put key a l).Pairwise R := by
  rw [put, List.pairwise_cons]
  constructor
  · intro b hb
    obtain ⟨hb, hkey⟩ := mem_without.mp hb
    exact hnew b hb hkey
  · exact pairwise_without h

theorem length_without_le : (without key k l).length ≤ l.length :=
  List.length_filter_le _ _

/-- Putting an element makes a list longer only under a new key. -/
theorem length_put_le {n : Nat}
    (h : (key a ∈ l.map key ∧ l.length ≤ n) ∨ l.length < n) :
    (put key a l).length ≤ n := by
  have hle : (without key (key a) l).length ≤ l.length := length_without_le
  rw [put, List.length_cons]
  rcases h with ⟨hmem, hlen⟩ | hlen
  · have hlt : (without key (key a) l).length < l.length := by
      obtain ⟨b, hb, hkey⟩ := List.mem_map.mp hmem
      apply List.length_filter_lt_length_iff_exists.mpr
      exact ⟨b, hb, by simp [hkey]⟩
    omega
  · omega

end KeyedList
