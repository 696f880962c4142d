import Mathlib

/-!
# Interruptible programs

A program is a tree of calls to a machine.  An execution answers the calls one
after the other, and the machine may be switched off in front of any call: the
outcome is then the state that the calls made so far have left behind.  What an
environment may answer, and where it may take the power away, is a parameter,
so that one program is verified under several failure models.

The module is independent of any particular machine.  It gives the execution
relation, a specification judgement with a condition for the states in which
power is lost, its compositional rules, and an interpreter for concrete runs.
-/

namespace Interruptible

/-- The calls a program can make, and what the machine does when it answers
one of them. -/
structure Machine where
  Call : Type
  Reply : Call → Type
  Answer : Type
  State : Type
  step : (c : Call) → Answer → State → Reply c × State

/-- A program: a result, or a call together with what follows each reply. -/
inductive Prog (M : Machine) (α : Type) : Type where
  | ret (a : α) : Prog M α
  | call (c : M.Call) (next : M.Reply c → Prog M α) : Prog M α

namespace Prog

variable {M : Machine} {α β γ : Type}

protected def bind : Prog M α → (α → Prog M β) → Prog M β
  | .ret a, f => f a
  | .call c next, f => .call c fun r => (next r).bind f

instance : Monad (Prog M) where
  pure := .ret
  bind := .bind

/-- The program that makes one call and returns its reply. -/
def op (c : M.Call) : Prog M (M.Reply c) :=
  .call c .ret

@[simp] theorem ret_bind (a : α) (f : α → Prog M β) :
    (Prog.ret a >>= f) = f a := rfl

@[simp] theorem call_bind (c : M.Call) (next : M.Reply c → Prog M α)
    (f : α → Prog M β) :
    (Prog.call c next >>= f) = .call c fun r => next r >>= f := rfl

theorem bind_ret (p : Prog M α) : (p >>= Prog.ret) = p := by
  induction p with
  | ret a => rfl
  | call c next ih =>
      rw [call_bind]
      exact congrArg _ (funext ih)

theorem bind_assoc (p : Prog M α) (f : α → Prog M β) (g : β → Prog M γ) :
    (p >>= f >>= g) = (p >>= fun a => f a >>= g) := by
  induction p with
  | ret a => rfl
  | call c next ih =>
      simp only [call_bind]
      exact congrArg _ (funext ih)

instance : LawfulMonad (Prog M) :=
  LawfulMonad.mk' _ (fun p => bind_ret p) (fun a f => ret_bind a f)
    bind_assoc

/-- Runs the body on each element of a list, in order. -/
def forEach : List β → (β → Prog M Unit) → Prog M Unit
  | [], _ => pure ()
  | b :: bs, body => do
      body b
      forEach bs body

/-- Runs the body on the elements of a list until one of them fails. -/
def untilFailure : List β → (β → Prog M Bool) → Prog M Bool
  | [], _ => pure true
  | b :: bs, body => do
      if ← body b then untilFailure bs body else pure false

/-- Runs the body on every element of a list, and tells whether it succeeded
on each. -/
def every : List β → (β → Prog M Bool) → Prog M Bool
  | [], _ => pure true
  | b :: bs, body => do
      let ok ← body b
      let rest ← every bs body
      pure (ok && rest)

/-- Every call the program can make satisfies `P`, whatever it is answered. -/
def Only (P : M.Call → Prop) : Prog M α → Prop
  | .ret _ => True
  | .call c next => P c ∧ ∀ r, (next r).Only P

theorem Only.mono {P P' : M.Call → Prop} (h : ∀ c, P c → P' c)
    {p : Prog M α} (hp : p.Only P) : p.Only P' := by
  induction p with
  | ret a => trivial
  | call c next ih => exact ⟨h c hp.1, fun r => ih r (hp.2 r)⟩

@[simp] theorem only_pure {P : M.Call → Prop} (a : α) :
    (pure a : Prog M α).Only P := trivial

@[simp] theorem only_ret {P : M.Call → Prop} (a : α) :
    (Prog.ret a).Only P := trivial

@[simp] theorem only_call {P : M.Call → Prop} (c : M.Call)
    (next : M.Reply c → Prog M α) :
    (Prog.call c next).Only P ↔ P c ∧ ∀ r, (next r).Only P := Iff.rfl

@[simp] theorem only_op {P : M.Call → Prop} (c : M.Call) :
    (op c).Only P ↔ P c :=
  ⟨fun h => h.1, fun h => ⟨h, fun _ => trivial⟩⟩

theorem Only.bind {P : M.Call → Prop} {p : Prog M α} {f : α → Prog M β}
    (hp : p.Only P) (hf : ∀ a, (f a).Only P) : (p >>= f).Only P := by
  induction p with
  | ret a => exact hf a
  | call c next ih => exact ⟨hp.1, fun r => ih r (hp.2 r)⟩

@[simp] theorem only_map {P : M.Call → Prop} (f : α → β) {p : Prog M α} :
    (f <$> p).Only P ↔ p.Only P := by
  rw [map_eq_pure_bind]
  constructor
  · intro h
    induction p with
    | ret a => trivial
    | call c next ih => exact ⟨h.1, fun r => ih r (h.2 r)⟩
  · exact fun h => h.bind fun _ => trivial

@[simp] theorem only_ite {P : M.Call → Prop} {c : Prop} [Decidable c]
    {p q : Prog M α} :
    (if c then p else q).Only P ↔ (c → p.Only P) ∧ (¬c → q.Only P) := by
  split <;> simp [*]

theorem Only.forEach {P : M.Call → Prop} {body : β → Prog M Unit}
    {bs : List β} (h : ∀ b ∈ bs, (body b).Only P) :
    (forEach bs body).Only P := by
  induction bs with
  | nil => trivial
  | cons b bs ih =>
      exact (h b (by simp)).bind fun _ =>
        ih fun b' hb' => h b' (List.mem_cons_of_mem _ hb')

theorem Only.every {P : M.Call → Prop} {body : β → Prog M Bool}
    {bs : List β} (h : ∀ b ∈ bs, (body b).Only P) :
    (every bs body).Only P := by
  induction bs with
  | nil => trivial
  | cons b bs ih =>
      exact (h b (by simp)).bind fun ok =>
        (ih fun b' hb' => h b' (List.mem_cons_of_mem _ hb')).bind
          fun rest => trivial

theorem Only.untilFailure {P : M.Call → Prop} {body : β → Prog M Bool}
    {bs : List β} (h : ∀ b ∈ bs, (body b).Only P) :
    (untilFailure bs body).Only P := by
  induction bs with
  | nil => trivial
  | cons b bs ih =>
      refine (h b (by simp)).bind fun ok => ?_
      cases ok with
      | false => trivial
      | true => exact ih fun b' hb' => h b' (List.mem_cons_of_mem _ hb')

end Prog

/-- A program either finishes with a result or loses power. -/
inductive Outcome (α σ : Type) where
  | done (a : α) (s : σ)
  | lost (s : σ)

namespace Outcome

variable {α σ : Type}

/-- The state in which the program has finished or lost power. -/
def state : Outcome α σ → σ
  | .done _ s => s
  | .lost s => s

/-- The result, if there is one. -/
def result? : Outcome α σ → Option α
  | .done a _ => some a
  | .lost _ => none

theorem eq_done {o : Outcome α σ} {a : α} (h : o.result? = some a) :
    o = .done a o.state := by
  cases o with
  | done b s => simpa [result?, state] using h
  | lost s => simp [result?] at h

theorem eq_lost {o : Outcome α σ} (h : o.result? = none) :
    o = .lost o.state := by
  cases o with
  | done b s => simp [result?] at h
  | lost s => rfl

/-- `Q` holds of a result, `L` of a state in which power was lost. -/
def Sat (Q : α → σ → Prop) (L : σ → Prop) : Outcome α σ → Prop
  | .done a s => Q a s
  | .lost s => L s

theorem Sat.state {L : σ → Prop} {o : Outcome α σ}
    (h : o.Sat (fun _ => L) L) : L o.state := by
  cases o with
  | done a s => exact h
  | lost s => exact h

end Outcome

/-- What an environment may answer to a call, and where it may take the power
away. -/
structure Env (M : Machine) where
  allows : M.Call → M.Answer → M.State → Prop
  loses : M.Call → M.State → Prop

variable {M : Machine} {α β : Type}

/-- The outcomes a program can have from a state under an environment. -/
inductive Exec (E : Env M) : Prog M α → M.State → Outcome α M.State → Prop where
  | ret (a : α) (s : M.State) : Exec E (.ret a) s (.done a s)
  | lost {c : M.Call} {next : M.Reply c → Prog M α} {s : M.State} :
      E.loses c s → Exec E (.call c next) s (.lost s)
  | call {c : M.Call} {next : M.Reply c → Prog M α} {s : M.State}
      (ans : M.Answer) {o : Outcome α M.State} :
      E.allows c ans s →
      Exec E (next (M.step c ans s).1) (M.step c ans s).2 o →
      Exec E (.call c next) s o

theorem Exec.env_mono {E E' : Env M} {p : Prog M α} {s : M.State}
    {o : Outcome α M.State} (h : Exec E p s o)
    (hallows : ∀ c ans t, E.allows c ans t → E'.allows c ans t)
    (hloses : ∀ c t, E.loses c t → E'.loses c t) : Exec E' p s o := by
  induction h with
  | ret a s => exact .ret a s
  | lost hl => exact .lost (hloses _ _ hl)
  | call ans ha _ ih => exact .call ans (hallows _ _ _ ha) ih

/-- Every outcome of the program satisfies `Q`, or `L` if power is lost. -/
def Spec (E : Env M) (p : Prog M α) (s : M.State)
    (Q : α → M.State → Prop) (L : M.State → Prop) : Prop :=
  ∀ o, Exec E p s o → o.Sat Q L

section Rules

variable {E : Env M} {s : M.State} {Q : α → M.State → Prop}
  {L : M.State → Prop}

@[simp] theorem spec_ret (a : α) :
    Spec E (.ret a) s Q L ↔ Q a s := by
  constructor
  · intro h
    exact h _ (.ret a s)
  · intro h o ho
    cases ho
    exact h

@[simp] theorem spec_pure (a : α) :
    Spec E (pure a) s Q L ↔ Q a s :=
  spec_ret a

theorem spec_call {c : M.Call} {next : M.Reply c → Prog M α} :
    Spec E (.call c next) s Q L ↔
      (E.loses c s → L s) ∧
        ∀ ans, E.allows c ans s →
          Spec E (next (M.step c ans s).1) (M.step c ans s).2 Q L := by
  constructor
  · intro h
    exact ⟨fun hl => h _ (.lost hl), fun ans ha o ho => h o (.call ans ha ho)⟩
  · rintro ⟨hlost, hcall⟩ o ho
    cases ho with
    | lost hl => exact hlost hl
    | call ans ha ho => exact hcall ans ha o ho

theorem spec_op {c : M.Call} {Q : M.Reply c → M.State → Prop} :
    Spec E (Prog.op c) s Q L ↔
      (E.loses c s → L s) ∧
        ∀ ans, E.allows c ans s →
          Q (M.step c ans s).1 (M.step c ans s).2 := by
  simp only [Prog.op, spec_call, spec_ret]

@[simp] theorem spec_bind {p : Prog M α} {f : α → Prog M β}
    {Q : β → M.State → Prop} :
    Spec E (p >>= f) s Q L ↔
      Spec E p s (fun a s' => Spec E (f a) s' Q L) L := by
  induction p generalizing s with
  | ret a => simp
  | call c next ih => simp only [Prog.call_bind, spec_call, ih]

@[simp] theorem spec_ite {c : Prop} [Decidable c] {p q : Prog M α} :
    Spec E (if c then p else q) s Q L ↔
      (c → Spec E p s Q L) ∧ (¬c → Spec E q s Q L) := by
  split <;> simp [*]

@[simp] theorem spec_map {f : β → α} {p : Prog M β} :
    Spec E (f <$> p) s Q L ↔ Spec E p s (fun b => Q (f b)) L := by
  rw [map_eq_pure_bind, spec_bind]
  simp only [spec_pure]

theorem Spec.mono {p : Prog M α} {Q' : α → M.State → Prop}
    {L' : M.State → Prop} (h : Spec E p s Q L)
    (hQ : ∀ a s', Q a s' → Q' a s') (hL : ∀ s', L s' → L' s') :
    Spec E p s Q' L' := by
  intro o ho
  have hsat := h o ho
  cases o with
  | done a s' => exact hQ a s' hsat
  | lost s' => exact hL s' hsat

theorem Spec.and {p : Prog M α} {Q' : α → M.State → Prop}
    {L' : M.State → Prop} (h : Spec E p s Q L) (h' : Spec E p s Q' L') :
    Spec E p s (fun a s' => Q a s' ∧ Q' a s') (fun s' => L s' ∧ L' s') := by
  intro o ho
  have hsat := h o ho
  have hsat' := h' o ho
  cases o with
  | done a s' => exact ⟨hsat, hsat'⟩
  | lost s' => exact ⟨hsat, hsat'⟩

theorem spec_trivial (p : Prog M α) :
    Spec E p s (fun _ _ => True) (fun _ => True) := by
  intro o _
  cases o <;> trivial

/-- Power is lost only where the environment may lose it. -/
theorem spec_loses (p : Prog M α) :
    Spec E p s (fun _ _ => True) (fun s' => ∃ c, E.loses c s') := by
  intro o h
  induction h with
  | ret a s => trivial
  | lost hl => exact ⟨_, hl⟩
  | call ans _ _ ih => exact ih

theorem Spec.env_mono {E' : Env M} {p : Prog M α} (h : Spec E' p s Q L)
    (hallows : ∀ c ans t, E.allows c ans t → E'.allows c ans t)
    (hloses : ∀ c t, E.loses c t → E'.loses c t) :
    Spec E p s Q L :=
  fun o ho => h o (ho.env_mono hallows hloses)

/-- A state predicate that every call of the program preserves holds in every
outcome. -/
theorem Spec.invariant {P : M.Call → Prop} {I : M.State → Prop}
    (hstep : ∀ c ans t, P c → E.allows c ans t → I t → I (M.step c ans t).2)
    {p : Prog M α} (hp : p.Only P) (hI : I s) :
    Spec E p s (fun _ => I) I := by
  induction p generalizing s with
  | ret a => simpa using hI
  | call c next ih =>
      rw [spec_call]
      exact ⟨fun _ => hI,
        fun ans ha => ih _ (hp.2 _) (hstep c ans s hp.1 ha hI)⟩

/-- Rule for a loop over a list: `I` holds of the elements still to be
visited. -/
theorem spec_forEach {body : β → Prog M Unit} {L : M.State → Prop}
    (I : List β → M.State → Prop) {bs : List β} (hI : I bs s)
    (hbody : ∀ b bs t, I (b :: bs) t → Spec E (body b) t (fun _ => I bs) L) :
    Spec E (Prog.forEach bs body) s (fun _ => I []) L := by
  induction bs generalizing s with
  | nil => simpa [Prog.forEach] using hI
  | cons b bs ih =>
      simp only [Prog.forEach, spec_bind]
      exact (hbody b bs s hI).mono (fun _ t ht => ih ht) (fun _ => id)

/-- Rule for a loop that goes on after a failure: `I` holds as long as no
element has failed, `F` from the first failure on. -/
theorem spec_every {body : β → Prog M Bool} {L F : M.State → Prop}
    (I : List β → M.State → Prop) {bs : List β}
    (hbody : ∀ b bs t, I (b :: bs) t →
      Spec E (body b) t (fun ok t' => if ok then I bs t' else F t') L)
    (hfailed : ∀ b t, F t → Spec E (body b) t (fun _ => F) L)
    (hI : I bs s) :
    Spec E (Prog.every bs body) s
      (fun ok t => if ok then I [] t else F t) L := by
  have hF : ∀ bs t, F t →
      Spec E (Prog.every bs body) t (fun _ => F) L := by
    intro bs
    induction bs with
    | nil => exact fun t ht => by simpa [Prog.every] using ht
    | cons b bs ih =>
        intro t ht
        simp only [Prog.every, spec_bind, spec_pure]
        exact (hfailed b t ht).mono (fun _ t' ht' => ih t' ht') fun _ => id
  induction bs generalizing s with
  | nil => simpa [Prog.every] using hI
  | cons b bs ih =>
      simp only [Prog.every, spec_bind, spec_pure]
      refine (hbody b bs s hI).mono (fun ok t ht => ?_) fun _ => id
      cases ok with
      | true => simpa using ih (by simpa using ht)
      | false =>
          exact (hF bs t (by simpa using ht)).mono
            (fun _ t' ht' => by simpa using ht') fun _ => id

/-- Rule for a loop that stops at the first failure. -/
theorem spec_untilFailure {body : β → Prog M Bool} {L F : M.State → Prop}
    (I : List β → M.State → Prop) {bs : List β} (hI : I bs s)
    (hbody : ∀ b bs t, I (b :: bs) t →
      Spec E (body b) t (fun ok t' => if ok then I bs t' else F t') L) :
    Spec E (Prog.untilFailure bs body) s
      (fun ok t => if ok then I [] t else F t) L := by
  induction bs generalizing s with
  | nil => simpa [Prog.untilFailure] using hI
  | cons b bs ih =>
      simp only [Prog.untilFailure, spec_bind]
      refine (hbody b bs s hI).mono (fun ok t ht => ?_) (fun _ => id)
      cases ok with
      | false => simpa using ht
      | true => exact ih (by simpa using ht)

end Rules

/-- If every call can be answered in every state, the program can finish. -/
theorem exec_total {E : Env M} (htotal : ∀ c t, ∃ ans, E.allows c ans t)
    (p : Prog M α) (s : M.State) : ∃ a s', Exec E p s (.done a s') := by
  induction p generalizing s with
  | ret a => exact ⟨a, s, .ret a s⟩
  | call c next ih =>
      obtain ⟨ans, ha⟩ := htotal c s
      obtain ⟨a, s', h⟩ := ih (M.step c ans s).1 (M.step c ans s).2
      exact ⟨a, s', .call ans ha h⟩

/-! ## Concrete runs -/

/-- The `k`-th call of a run gets the answer that `answer k` gives, unless
power is lost in front of it. -/
def drive (answer : Nat → M.Call → M.State → M.Answer)
    (cut : Nat → M.Call → M.State → Bool) :
    Prog M α → Nat → M.State → Outcome α M.State
  | .ret a, _, s => .done a s
  | .call c next, k, s =>
      if cut k c s then .lost s
      else
        drive answer cut (next (M.step c (answer k c s) s).1) (k + 1)
          (M.step c (answer k c s) s).2

theorem exec_drive {E : Env M} {answer : Nat → M.Call → M.State → M.Answer}
    {cut : Nat → M.Call → M.State → Bool}
    (hanswer : ∀ k c s, E.allows c (answer k c s) s)
    (hcut : ∀ k c s, cut k c s → E.loses c s)
    (p : Prog M α) (k : Nat) (s : M.State) :
    Exec E p s (drive answer cut p k s) := by
  induction p generalizing k s with
  | ret a => exact .ret a s
  | call c next ih =>
      rw [drive]
      split
      next h => exact .lost (hcut k c s h)
      · exact .call _ (hanswer k c s) (ih _ _ _)

end Interruptible
