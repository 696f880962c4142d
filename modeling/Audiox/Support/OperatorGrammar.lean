import Mathlib

/-!
# Recursive descent over two levels of operators

An evaluator reads a disjunction of conjunctions of factors from a list of
tokens and computes its value on the way.  It ends on every list, and it reads
the value of a formula from the tokens of the formula, with parentheses only
where they are needed.
-/

namespace OperatorGrammar

/-- The signs of the operators, and what reads a leaf. -/
structure Grammar (τ : Type) where
  bang : τ
  opening : τ
  closing : τ
  conj : τ
  disj : τ
  leaf : List τ → Bool × List τ
  nodup : [bang, opening, closing, conj, disj].Nodup
  leaf_le : ∀ ts, (leaf ts).2.length ≤ ts.length

variable {τ α : Type}

/-- With enough fuel for the tokens, this is the result, and no tokens are
added. -/
def Reads (k : Nat) (f : Nat → List τ → Option (Bool × List τ))
    (ts : List τ) (out : Bool × List τ) : Prop :=
  out.2.length ≤ ts.length ∧ ∀ n, 3 * ts.length + k ≤ n → f n ts = some out

theorem Reads.exists_fuel {k : Nat} {ts : List τ} {out : Bool × List τ}
    {f : Nat → List τ → Option (Bool × List τ)} (h : Reads k f ts out)
    {n : Nat} (hn : 3 * ts.length + k < n) :
    ∃ m, n = m + 1 ∧ f m ts = some out :=
  ⟨n - 1, by omega, h.2 _ (by omega)⟩

variable [DecidableEq τ]

def accept (t : τ) : List τ → Option (List τ)
  | [] => none
  | head :: rest => if head = t then some rest else none

/-! ## The evaluator -/

mutual

/-- The number bounds the depth of the calls. -/
def parseOr (G : Grammar τ) : Nat → List τ → Option (Bool × List τ)
  | 0, _ => none
  | n + 1, ts =>
      match parseAnd G n ts with
      | none => none
      | some (result, ts') => moreOr G n result ts'

def moreOr (G : Grammar τ) : Nat → Bool → List τ → Option (Bool × List τ)
  | 0, _, _ => none
  | n + 1, result, ts =>
      match accept G.disj ts with
      | none => some (result, ts)
      | some ts' =>
          match parseAnd G n ts' with
          | none => none
          | some (next, ts'') => moreOr G n (next || result) ts''

def parseAnd (G : Grammar τ) : Nat → List τ → Option (Bool × List τ)
  | 0, _ => none
  | n + 1, ts =>
      match parseUnary G n ts with
      | none => none
      | some (result, ts') => moreAnd G n result ts'

def moreAnd (G : Grammar τ) : Nat → Bool → List τ → Option (Bool × List τ)
  | 0, _, _ => none
  | n + 1, result, ts =>
      match accept G.conj ts with
      | none => some (result, ts)
      | some ts' =>
          match parseUnary G n ts' with
          | none => none
          | some (next, ts'') => moreAnd G n (next && result) ts''

def parseUnary (G : Grammar τ) : Nat → List τ → Option (Bool × List τ)
  | 0, _ => none
  | n + 1, ts =>
      match accept G.bang ts with
      | some ts' =>
          match parseUnary G n ts' with
          | none => none
          | some (result, ts'') => some (!result, ts'')
      | none =>
          match accept G.opening ts with
          | none => some (G.leaf ts)
          | some ts' =>
              match parseOr G n ts' with
              | none => none
              | some (result, ts'') =>
                  some (result, (accept G.closing ts'').getD ts'')

end

/-! ## Rules -/

variable {G : Grammar τ} {ts ts' : List τ} {r u : Bool}
  {out : Bool × List τ}

@[simp]
theorem accept_self (t : τ) (ts : List τ) : accept t (t :: ts) = some ts :=
  if_pos rfl

theorem accept_of_ne {t t' : τ} (h : t' ≠ t) (ts : List τ) :
    accept t (t' :: ts) = none :=
  if_neg h

theorem accept_some {t : τ} (h : accept t ts = some ts') : ts = t :: ts' := by
  cases ts with
  | nil => cases h
  | cons head rest =>
      rw [accept] at h
      split at h
      · next heq =>
        obtain rfl := Option.some.inj h
        rw [heq]
      · cases h

theorem closed_le (t : τ) (ts : List τ) :
    ((accept t ts).getD ts).length ≤ ts.length := by
  cases hts : accept t ts with
  | none => exact le_refl _
  | some ts' =>
      rw [accept_some hts]
      exact Nat.le_succ _

theorem reads_leaf (hbang : accept G.bang ts = none)
    (hopening : accept G.opening ts = none) :
    Reads 1 (parseUnary G) ts (G.leaf ts) := by
  refine ⟨G.leaf_le ts, ?_⟩
  intro n hn
  obtain ⟨m, rfl⟩ : ∃ m, n = m + 1 := ⟨n - 1, by omega⟩
  rw [parseUnary, hbang, hopening]

theorem Reads.bang (h : Reads 1 (parseUnary G) ts (r, ts')) :
    Reads 1 (parseUnary G) (G.bang :: ts) (!r, ts') := by
  refine ⟨h.1.trans (Nat.le_succ _), ?_⟩
  intro n hn
  rw [List.length_cons] at hn
  obtain ⟨m, rfl, hm⟩ := h.exists_fuel (n := n) (by omega)
  rw [parseUnary, accept_self]
  dsimp only
  rw [hm]

theorem Reads.parentheses (h : Reads 3 (parseOr G) ts (r, ts')) :
    Reads 1 (parseUnary G) (G.opening :: ts)
      (r, (accept G.closing ts').getD ts') := by
  refine ⟨((closed_le _ _).trans h.1).trans (Nat.le_succ _), ?_⟩
  intro n hn
  rw [List.length_cons] at hn
  obtain ⟨m, rfl, hm⟩ := h.exists_fuel (n := n) (by omega)
  have hne : G.opening ≠ G.bang := by
    have hnodup := G.nodup
    simp only [List.nodup_cons, List.mem_cons] at hnodup
    exact fun heq => hnodup.1 (.inl heq.symm)
  rw [parseUnary, accept_of_ne hne, accept_self]
  dsimp only
  rw [hm]

theorem reads_moreAnd_nil (h : accept G.conj ts = none) :
    Reads 1 (fun n => moreAnd G n r) ts (r, ts) := by
  refine ⟨le_refl _, ?_⟩
  intro n hn
  obtain ⟨m, rfl⟩ : ∃ m, n = m + 1 := ⟨n - 1, by omega⟩
  dsimp only
  rw [moreAnd, h]

theorem Reads.moreAnd (h : Reads 1 (parseUnary G) ts (u, ts'))
    (hmore : Reads 1 (fun n => moreAnd G n (u && r)) ts' out) :
    Reads 1 (fun n => moreAnd G n r) (G.conj :: ts) out := by
  refine ⟨(hmore.1.trans h.1).trans (Nat.le_succ _), ?_⟩
  intro n hn
  rw [List.length_cons] at hn
  obtain ⟨m, rfl, hm⟩ := h.exists_fuel (n := n) (by omega)
  have hle := h.1
  dsimp only at hle ⊢
  rw [OperatorGrammar.moreAnd, accept_self]
  dsimp only
  rw [hm]
  exact hmore.2 m (by omega)

theorem Reads.parseAnd (h : Reads 1 (parseUnary G) ts (r, ts'))
    (hmore : Reads 1 (fun n => OperatorGrammar.moreAnd G n r) ts' out) :
    Reads 2 (parseAnd G) ts out := by
  refine ⟨hmore.1.trans h.1, ?_⟩
  intro n hn
  obtain ⟨m, rfl, hm⟩ := h.exists_fuel (n := n) (by omega)
  have hle := h.1
  dsimp only at hle
  rw [OperatorGrammar.parseAnd, hm]
  exact hmore.2 m (by omega)

theorem reads_moreOr_nil (h : accept G.disj ts = none) :
    Reads 1 (fun n => moreOr G n r) ts (r, ts) := by
  refine ⟨le_refl _, ?_⟩
  intro n hn
  obtain ⟨m, rfl⟩ : ∃ m, n = m + 1 := ⟨n - 1, by omega⟩
  dsimp only
  rw [moreOr, h]

theorem Reads.moreOr (h : Reads 2 (OperatorGrammar.parseAnd G) ts (u, ts'))
    (hmore : Reads 1 (fun n => moreOr G n (u || r)) ts' out) :
    Reads 1 (fun n => moreOr G n r) (G.disj :: ts) out := by
  refine ⟨(hmore.1.trans h.1).trans (Nat.le_succ _), ?_⟩
  intro n hn
  rw [List.length_cons] at hn
  obtain ⟨m, rfl, hm⟩ := h.exists_fuel (n := n) (by omega)
  have hle := h.1
  dsimp only at hle ⊢
  rw [OperatorGrammar.moreOr, accept_self]
  dsimp only
  rw [hm]
  exact hmore.2 m (by omega)

theorem Reads.parseOr (h : Reads 2 (OperatorGrammar.parseAnd G) ts (r, ts'))
    (hmore : Reads 1 (fun n => OperatorGrammar.moreOr G n r) ts' out) :
    Reads 3 (parseOr G) ts out := by
  refine ⟨hmore.1.trans h.1, ?_⟩
  intro n hn
  obtain ⟨m, rfl, hm⟩ := h.exists_fuel (n := n) (by omega)
  have hle := h.1
  dsimp only at hle
  rw [OperatorGrammar.parseOr, hm]
  exact hmore.2 m (by omega)

/-! ## The evaluator ends -/

theorem moreAnd_ends (n : Nat)
    (h : ∀ ts : List τ, ts.length < n → ∃ out, Reads 1 (parseUnary G) ts out)
    (r : Bool) (ts : List τ) (hts : ts.length ≤ n) :
    ∃ out, Reads 1 (fun n => moreAnd G n r) ts out := by
  induction n generalizing r ts with
  | zero =>
      obtain rfl := List.length_eq_zero_iff.mp (Nat.le_zero.mp hts)
      exact ⟨_, reads_moreAnd_nil rfl⟩
  | succ n ih =>
      cases hconj : accept G.conj ts with
      | none => exact ⟨_, reads_moreAnd_nil hconj⟩
      | some rest =>
          obtain rfl := accept_some hconj
          rw [List.length_cons] at hts
          obtain ⟨⟨u, ts'⟩, hu⟩ := h rest (by omega)
          have hle := hu.1
          obtain ⟨out, hout⟩ := ih (fun ts hlt => h ts (by omega)) (u && r) ts'
            (by dsimp only at hle; omega)
          exact ⟨out, hu.moreAnd hout⟩

theorem moreOr_ends (n : Nat)
    (h : ∀ ts : List τ, ts.length < n → ∃ out, Reads 2 (parseAnd G) ts out)
    (r : Bool) (ts : List τ) (hts : ts.length ≤ n) :
    ∃ out, Reads 1 (fun n => moreOr G n r) ts out := by
  induction n generalizing r ts with
  | zero =>
      obtain rfl := List.length_eq_zero_iff.mp (Nat.le_zero.mp hts)
      exact ⟨_, reads_moreOr_nil rfl⟩
  | succ n ih =>
      cases hdisj : accept G.disj ts with
      | none => exact ⟨_, reads_moreOr_nil hdisj⟩
      | some rest =>
          obtain rfl := accept_some hdisj
          rw [List.length_cons] at hts
          obtain ⟨⟨u, ts'⟩, hu⟩ := h rest (by omega)
          have hle := hu.1
          obtain ⟨out, hout⟩ := ih (fun ts hlt => h ts (by omega)) (u || r) ts'
            (by dsimp only at hle; omega)
          exact ⟨out, hu.moreOr hout⟩

theorem parse_ends (n : Nat) (ts : List τ) (hts : ts.length ≤ n) :
    (∃ out, Reads 1 (parseUnary G) ts out) ∧
      (∃ out, Reads 2 (parseAnd G) ts out) ∧
        ∃ out, Reads 3 (parseOr G) ts out := by
  induction n using Nat.strong_induction_on generalizing ts with
  | _ n ih =>
      have hunary : ∀ ts : List τ, ts.length ≤ n →
          ∃ out, Reads 1 (parseUnary G) ts out := by
        intro ts hts
        cases hbang : accept G.bang ts with
        | some rest =>
            obtain rfl := accept_some hbang
            rw [List.length_cons] at hts
            obtain ⟨⟨out, h⟩, -⟩ := ih (n - 1) (by omega) rest (by omega)
            exact ⟨_, h.bang⟩
        | none =>
            cases hopening : accept G.opening ts with
            | some rest =>
                obtain rfl := accept_some hopening
                rw [List.length_cons] at hts
                obtain ⟨-, -, out, h⟩ := ih (n - 1) (by omega) rest (by omega)
                exact ⟨_, h.parentheses⟩
            | none => exact ⟨_, reads_leaf hbang hopening⟩
      have hand : ∀ ts : List τ, ts.length ≤ n →
          ∃ out, Reads 2 (parseAnd G) ts out := by
        intro ts hts
        obtain ⟨⟨r, ts'⟩, h⟩ := hunary ts hts
        obtain ⟨out, hout⟩ := moreAnd_ends n (fun ts hlt => hunary ts hlt.le) r
          ts' (h.1.trans hts)
        exact ⟨out, h.parseAnd hout⟩
      refine ⟨hunary ts hts, hand ts hts, ?_⟩
      obtain ⟨⟨r, ts'⟩, h⟩ := hand ts hts
      obtain ⟨out, hout⟩ := moreOr_ends n (fun ts hlt => hand ts hlt.le) r ts'
        (h.1.trans hts)
      exact ⟨out, h.parseOr hout⟩

theorem parseOr_ends (ts : List τ) :
    ∃ out, parseOr G (3 * ts.length + 3) ts = some out := by
  obtain ⟨-, -, out, h⟩ := parse_ends (G := G) ts.length ts (le_refl _)
  exact ⟨out, h.2 _ (le_refl _)⟩

/-! ## Formulas -/

inductive Formula (α : Type) where
  | leaf (a : α)
  | neg (f : Formula α)
  | both (f g : Formula α)
  | either (f g : Formula α)

def Formula.value (v : α → Bool) : Formula α → Bool
  | .leaf a => v a
  | .neg f => !f.value v
  | .both f g => f.value v && g.value v
  | .either f g => f.value v || g.value v

inductive Level where
  | disjunction
  | conjunction
  | factor
deriving DecidableEq

/-- The tokens of a formula, in parentheses where the level does not admit
it. -/
def Formula.tokens (G : Grammar τ) (spell : α → List τ) :
    Level → Formula α → List τ
  | _, .leaf a => spell a
  | _, .neg f => G.bang :: f.tokens G spell .factor
  | .factor, .both f g =>
      G.opening :: (f.tokens G spell .conjunction ++
        G.conj :: g.tokens G spell .conjunction) ++ [G.closing]
  | _, .both f g =>
      f.tokens G spell .conjunction ++ G.conj :: g.tokens G spell .conjunction
  | .disjunction, .either f g =>
      f.tokens G spell .disjunction ++ G.disj :: g.tokens G spell .disjunction
  | _, .either f g =>
      G.opening :: (f.tokens G spell .disjunction ++
        G.disj :: g.tokens G spell .disjunction) ++ [G.closing]

/-- What may follow a factor in a formula. -/
def Ends (G : Grammar τ) (ts : List τ) : Prop :=
  ts = [] ∨ ∃ t rest, ts = t :: rest ∧ t ∈ [G.closing, G.conj, G.disj]

/-- The leaf reader reads the tokens of a leaf, and no operator does so. -/
structure Spells (G : Grammar τ) (spell : α → List τ) (v : α → Bool) : Prop where
  bang : ∀ a ts, accept G.bang (spell a ++ ts) = none
  opening : ∀ a ts, accept G.opening (spell a ++ ts) = none
  leaf : ∀ a ts, Ends G ts → G.leaf (spell a ++ ts) = (v a, ts)

/-! ## What the evaluator reads -/

variable {spell : α → List τ} {v : α → Bool}

theorem conj_of_closing (G : Grammar τ) (ts : List τ) :
    accept G.conj (G.closing :: ts) = none := by
  have hnodup := G.nodup
  simp only [List.nodup_cons, List.mem_cons] at hnodup
  exact accept_of_ne (fun heq => hnodup.2.2.1 (.inl heq)) ts

theorem disj_of_closing (G : Grammar τ) (ts : List τ) :
    accept G.disj (G.closing :: ts) = none := by
  have hnodup := G.nodup
  simp only [List.nodup_cons, List.mem_cons] at hnodup
  exact accept_of_ne (fun heq => hnodup.2.2.1 (.inr (.inl heq))) ts

theorem conj_of_disj (G : Grammar τ) (ts : List τ) :
    accept G.conj (G.disj :: ts) = none := by
  have hnodup := G.nodup
  simp only [List.nodup_cons, List.mem_cons] at hnodup
  exact accept_of_ne (fun heq => hnodup.2.2.2.1 (.inl heq.symm)) ts

theorem ends_closing {τ : Type} (G : Grammar τ) (ts : List τ) :
    Ends G (G.closing :: ts) :=
  .inr ⟨_, _, rfl, by simp⟩

theorem ends_conj {τ : Type} (G : Grammar τ) (ts : List τ) : Ends G (G.conj :: ts) :=
  .inr ⟨_, _, rfl, by simp⟩

theorem ends_disj {τ : Type} (G : Grammar τ) (ts : List τ) : Ends G (G.disj :: ts) :=
  .inr ⟨_, _, rfl, by simp⟩

/-- The tokens of the formula are read at every level, and behind an operator
of the level. -/
structure Readable (G : Grammar τ) (spell : α → List τ) (v : α → Bool)
    (f : Formula α) : Prop where
  unary : ∀ ts, Ends G ts →
    Reads 1 (parseUnary G) (f.tokens G spell .factor ++ ts) (f.value v, ts)
  conj : ∀ ts out, Ends G ts →
    Reads 1 (fun n => moreAnd G n (f.value v)) ts out →
      Reads 2 (parseAnd G) (f.tokens G spell .conjunction ++ ts) out
  moreConj : ∀ r ts out, Ends G ts →
    Reads 1 (fun n => moreAnd G n (f.value v && r)) ts out →
      Reads 1 (fun n => moreAnd G n r)
        (G.conj :: f.tokens G spell .conjunction ++ ts) out
  disj : ∀ ts out, Ends G ts → accept G.conj ts = none →
    Reads 1 (fun n => moreOr G n (f.value v)) ts out →
      Reads 3 (parseOr G) (f.tokens G spell .disjunction ++ ts) out
  moreDisj : ∀ r ts out, Ends G ts → accept G.conj ts = none →
    Reads 1 (fun n => moreOr G n (f.value v || r)) ts out →
      Reads 1 (fun n => moreOr G n r)
        (G.disj :: f.tokens G spell .disjunction ++ ts) out

/-- What is read in parentheses is read as a factor. -/
theorem unary_of_disj {f : Formula α}
    (hdisj : ∀ ts out, Ends G ts → accept G.conj ts = none →
      Reads 1 (fun n => moreOr G n (f.value v)) ts out →
        Reads 3 (parseOr G) (f.tokens G spell .disjunction ++ ts) out)
    (htokens : f.tokens G spell .factor =
      G.opening :: f.tokens G spell .disjunction ++ [G.closing])
    (ts : List τ) :
    Reads 1 (parseUnary G) (f.tokens G spell .factor ++ ts)
      (f.value v, ts) := by
  have hinner := hdisj (G.closing :: ts) (f.value v, G.closing :: ts)
    (ends_closing G ts) (conj_of_closing G ts)
    (reads_moreOr_nil (disj_of_closing G ts))
  have hread := hinner.parentheses
  rw [accept_self, Option.getD_some] at hread
  rw [htokens, List.cons_append, List.cons_append, List.append_assoc]
  exact hread

theorem Readable.of_unary {f : Formula α}
    (h : ∀ ts, Ends G ts →
      Reads 1 (parseUnary G) (f.tokens G spell .factor ++ ts) (f.value v, ts))
    (hconj : f.tokens G spell .conjunction = f.tokens G spell .factor)
    (hdisj : f.tokens G spell .disjunction = f.tokens G spell .factor) :
    Readable G spell v f where
  unary := h
  conj ts out hends hmore := by
    rw [hconj]
    exact (h ts hends).parseAnd hmore
  moreConj r ts out hends hmore := by
    rw [hconj]
    exact (h ts hends).moreAnd hmore
  disj ts out hends hnone hmore := by
    rw [hdisj]
    exact ((h ts hends).parseAnd (reads_moreAnd_nil hnone)).parseOr hmore
  moreDisj r ts out hends hnone hmore := by
    rw [hdisj]
    exact ((h ts hends).parseAnd (reads_moreAnd_nil hnone)).moreOr hmore

theorem Readable.both {f g : Formula α} (hf : Readable G spell v f)
    (hg : Readable G spell v g) : Readable G spell v (.both f g) := by
  have hconj : ∀ ts out, Ends G ts →
      Reads 1 (fun n => OperatorGrammar.moreAnd G n (f.value v && g.value v)) ts
        out →
      Reads 2 (OperatorGrammar.parseAnd G)
        ((Formula.both f g).tokens G spell .conjunction ++ ts) out := by
    intro ts out hends hmore
    rw [Bool.and_comm] at hmore
    have hsecond := hg.moreConj (f.value v) ts out hends hmore
    have hfirst := hf.conj _ out (ends_conj G _) hsecond
    simpa [Formula.tokens] using hfirst
  have hdisj : ∀ ts out, Ends G ts → accept G.conj ts = none →
      Reads 1 (fun n => OperatorGrammar.moreOr G n (f.value v && g.value v)) ts
        out →
      Reads 3 (OperatorGrammar.parseOr G)
        ((Formula.both f g).tokens G spell .disjunction ++ ts) out :=
    fun ts out hends hnone hmore =>
      (hconj ts _ hends (reads_moreAnd_nil hnone)).parseOr hmore
  constructor
  · exact fun ts _ => unary_of_disj hdisj rfl ts
  · exact hconj
  · intro r ts out hends hmore
    have hvalue : (Formula.both f g).value v = (g.value v && f.value v) :=
      Bool.and_comm _ _
    rw [hvalue, Bool.and_assoc] at hmore
    have hsecond := hg.moreConj (f.value v && r) ts out hends hmore
    have hfirst := hf.moreConj r _ out (ends_conj G _) hsecond
    simpa [Formula.tokens] using hfirst
  · exact hdisj
  · intro r ts out hends hnone hmore
    exact (hconj ts _ hends (reads_moreAnd_nil hnone)).moreOr hmore

theorem Readable.either {f g : Formula α} (hf : Readable G spell v f)
    (hg : Readable G spell v g) : Readable G spell v (.either f g) := by
  have hdisj : ∀ ts out, Ends G ts → accept G.conj ts = none →
      Reads 1 (fun n => OperatorGrammar.moreOr G n (f.value v || g.value v)) ts
        out →
      Reads 3 (OperatorGrammar.parseOr G)
        ((Formula.either f g).tokens G spell .disjunction ++ ts) out := by
    intro ts out hends hnone hmore
    rw [Bool.or_comm] at hmore
    have hsecond := hg.moreDisj (f.value v) ts out hends hnone hmore
    have hfirst := hf.disj _ out (ends_disj G _) (conj_of_disj G _) hsecond
    simpa [Formula.tokens] using hfirst
  have hunary := fun ts (_ : Ends G ts) =>
    unary_of_disj (f := .either f g) hdisj rfl ts
  constructor
  · exact hunary
  · exact fun ts out hends hmore => (hunary ts hends).parseAnd hmore
  · exact fun r ts out hends hmore => (hunary ts hends).moreAnd hmore
  · exact hdisj
  · intro r ts out hends hnone hmore
    have hvalue : (Formula.either f g).value v = (g.value v || f.value v) :=
      Bool.or_comm _ _
    rw [hvalue, Bool.or_assoc] at hmore
    have hsecond := hg.moreDisj (f.value v || r) ts out hends hnone hmore
    have hfirst := hf.moreDisj r _ out (ends_disj G _) (conj_of_disj G _)
      hsecond
    simpa [Formula.tokens] using hfirst

theorem readable (h : Spells G spell v) (f : Formula α) :
    Readable G spell v f := by
  induction f with
  | leaf a =>
      apply Readable.of_unary
      · intro ts hends
        have hread := reads_leaf (h.bang a ts) (h.opening a ts)
        rwa [h.leaf a ts hends] at hread
      · rfl
      · rfl
  | neg f ih =>
      apply Readable.of_unary
      · exact fun ts hends => (ih.unary ts hends).bang
      · rfl
      · rfl
  | both f g ihf ihg => exact ihf.both ihg
  | either f g ihf ihg => exact ihf.either ihg

/-- The evaluator computes the value of a formula from its tokens. -/
theorem parseOr_tokens (h : Spells G spell v) (f : Formula α) :
    parseOr G (3 * (f.tokens G spell .disjunction).length + 3)
      (f.tokens G spell .disjunction) = some (f.value v, []) := by
  have hread := (readable h f).disj [] (f.value v, []) (.inl rfl) rfl
    (reads_moreOr_nil rfl)
  rw [List.append_nil] at hread
  exact hread.2 _ (le_refl _)

end OperatorGrammar
