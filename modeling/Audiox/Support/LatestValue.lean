import Mathlib

/-!
# A register for the latest value

The purpose of a mailbox between one publisher and one consumer: the consumer
takes the last published value, once.  Values that are overtaken by a later
one are skipped.  The history of such a register carries its invariant, so
every history that can be built is one in which nothing was taken twice, out
of order, or without having been published.
-/

namespace LatestValue

/-- What was published and what was taken so far; `fresh` tells whether the
last published value is still to be taken. -/
structure History (α : Type) where
  published : List α
  taken : List α
  fresh : Bool
  unseen : fresh → ∃ l g, published = l ++ [g] ∧ taken.Sublist l
  seen : ¬fresh →
    taken.Sublist published ∧ taken.getLast? = published.getLast?

namespace History

variable {α : Type}

def empty (α : Type) : History α where
  published := []
  taken := []
  fresh := false
  unseen h := by simp at h
  seen _ := ⟨List.Sublist.refl _, rfl⟩

/-- Everything that was taken had been published, in the same order. -/
theorem sublist (a : History α) : a.taken.Sublist a.published := by
  by_cases h : a.fresh
  · obtain ⟨l, g, hpub, hsub⟩ := a.unseen h
    rw [hpub]
    exact hsub.trans (List.sublist_append_left l [g])
  · exact (a.seen h).1

def publish (a : History α) (g : α) : History α where
  published := a.published ++ [g]
  taken := a.taken
  fresh := true
  unseen _ := ⟨a.published, g, rfl, a.sublist⟩
  seen h := absurd rfl h

/-- Takes a value that is fresh. -/
def take (a : History α) (g : α) (hfresh : a.fresh)
    (hlast : a.published.getLast? = some g) : History α where
  published := a.published
  taken := a.taken ++ [g]
  fresh := false
  unseen h := by simp at h
  seen _ := by
    obtain ⟨l, g', hpub, hsub⟩ := a.unseen hfresh
    rw [hpub, List.getLast?_concat, Option.some.injEq] at hlast
    subst g'
    rw [hpub]
    constructor
    · exact hsub.append (List.Sublist.refl [g])
    · rw [List.getLast?_concat, List.getLast?_concat]

end History
end LatestValue
