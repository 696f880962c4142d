import Audiox.Boot.Counter
import Audiox.Support.Runs

/-!
# Counting the boots of an unconfirmed update

Runs of the recovery operations on one file tree.  Every operation may fail
in any call that writes, power may go in front of any call, and others may
change the tree as long as they leave `boot-trial.tmp` alone and touch
`boot-trial` only by corrupting it.
-/

namespace Audiox

open ByteCodec FileTree Interruptible Runs

variable {m : Mounts} {F : Faults} {t t' : Node}

/-! ## Runs -/

/-- A call of one of the operations, with its arguments. -/
inductive BootOperation where
  | prepare (versionText : Bytes)
  | beginBoot (versionText : Bytes)
  | confirm
  | revert (failedVersion : Bytes) (attempts : Nat)
deriving DecidableEq

/-- What can be observed of a step: the result of an operation, an operation
that was cut short by power loss (with `boot-trial` present afterwards or
not), or a change made by others. -/
inductive BootEvent where
  | prepared (ok : Bool)
  | began (action : BootTrialAction)
  | confirmed
  | reverted (result : Int)
  | cut (op : BootOperation) (trialKept : Bool)
  | outside
deriving DecidableEq

def BootOperation.run (m : Mounts) : BootOperation → Prog files BootEvent
  | .prepare v => .prepared <$> bootRecoveryPrepareUpdate m v
  | .beginBoot v => (fun r => .began r.1) <$> bootRecoveryBeginBoot m v
  | .confirm => (fun _ => .confirmed) <$> bootRecoveryConfirm m
  | .revert v n => .reverted <$> bootRecoveryRevert m v n

/-- Others change anything but the counter, which they may corrupt. -/
def Outside (m : Mounts) (t t' : Node) : Prop :=
  t'.look m.trialTmp = t.look m.trialTmp ∧
    (t'.look m.trialPath = t.look m.trialPath ∨
      ∃ text text', t.look m.trialPath = some (.file text) ∧
        t'.look m.trialPath = some (.file text') ∧
        ¬StartsWithAttempts text')

inductive BootStep (m : Mounts) (F : Faults) :
    Node → BootEvent → Node → Prop where
  | done (op : BootOperation) {t t' : Node} {e : BootEvent} :
      Exec F.env (op.run m) t (.done e t') → BootStep m F t e t'
  | lost (op : BootOperation) {t t' : Node} :
      Exec F.env (op.run m) t (.lost t') →
      BootStep m F t (.cut op (t'.look m.trialPath).isSome) t'
  | outside {t t' : Node} : Outside m t t' → BootStep m F t .outside t'

namespace BootEvent

def isPrepare : BootEvent → Bool
  | .prepared _ => true
  | .cut (.prepare _) _ => true
  | _ => false

def isConfirm : BootEvent → Bool
  | .confirmed => true
  | .cut .confirm _ => true
  | _ => false

/-- A revert that did not fail, or was cut when `boot-trial` was gone. -/
def endsRevert : BootEvent → Bool
  | .reverted r => r ≠ -1
  | .cut (.revert _ _) kept => !kept
  | _ => false

def cost : BootEvent → Nat
  | .began .attempt => 1
  | _ => 0

end BootEvent

/-- The attempts that are left before the counter is exhausted. -/
def attemptsLeft (m : Mounts) (t : Node) : Nat :=
  bootRecoveryMaxAttempts - (storedAttempts m t).getD bootRecoveryMaxAttempts

theorem attemptsLeft_of_same (h : t'.look m.trialPath = t.look m.trialPath) :
    attemptsLeft m t' = attemptsLeft m t := by
  rw [attemptsLeft, storedAttempts_congr h, attemptsLeft]

theorem attemptsLeft_of_none (h : t.look m.trialPath = none) :
    attemptsLeft m t = 0 := by
  simp [attemptsLeft, storedAttempts_eq_none_iff.mpr h]

theorem attemptsLeft_of_kept (h : CounterKept m t t') :
    attemptsLeft m t' ≤ attemptsLeft m t := by
  rcases h.1 with hsame | hnone
  · exact (attemptsLeft_of_same hsame).le
  · simp [attemptsLeft_of_none hnone]

theorem attemptsLeft_of_counted (h : Counted m t t') :
    attemptsLeft m t' + 1 = attemptsLeft m t := by
  obtain ⟨n, hn, hlt, hfile⟩ := h
  have hn' := storedAttempts_file hfile
  rw [trialAttempts_attemptsText (by omega)] at hn'
  simp only [attemptsLeft, hn, hn', Option.getD_some]
  omega

theorem attemptsLeft_of_outside (h : Outside m t t') :
    attemptsLeft m t' ≤ attemptsLeft m t := by
  rcases h.2 with hsame | ⟨text, text', -, hfile, hcorrupt⟩
  · exact (attemptsLeft_of_same hsame).le
  · simp [attemptsLeft, storedAttempts_file hfile,
      trialAttempts_of_corrupt hcorrupt]

/-- What a step of a run, other than preparing an update, does to the
counter and its temporary file. -/
inductive CounterStep (m : Mounts) (t : Node) : BootEvent → Node → Prop where
  | began {a : BootTrialAction} {t' : Node} :
      BeginBootPost m t a t' → TmpStays m t t' →
      CounterStep m t (.began a) t'
  | cutBegin {v : Bytes} {kept : Bool} {t' : Node} :
      t'.look m.trialPath = t.look m.trialPath ∨ Counted m t t' →
      TmpStays m t t' → CounterStep m t (.cut (.beginBoot v) kept) t'
  | outside {t' : Node} : Outside m t t' → CounterStep m t .outside t'
  | cleared {e : BootEvent} {t' : Node} :
      (∀ a, e ≠ .began a) → CounterKept m t t' →
      e.endsRevert ∨ e.isConfirm ∨
        t'.look m.trialPath = t.look m.trialPath →
      CounterStep m t e t'

theorem bootStep_counter (hF : OnlyWritesFail F) {e : BootEvent}
    (h : BootStep m F t e t') (hprep : ¬e.isPrepare) :
    CounterStep m t e t' := by
  cases h with
  | outside h => exact .outside h
  | done op h =>
      cases op with
      | prepare v =>
          have := (spec_map (Q := fun e _ => BootEvent.isPrepare e)).mpr
            ((spec_trivial _).mono (fun _ _ _ => rfl) fun _ => id) _ h
          exact absurd this hprep
      | beginBoot v =>
          exact (spec_map (Q := CounterStep m t)).mpr
            ((spec_beginBoot hF v).mono (fun _ _ hb => .began hb.1 hb.2)
              fun _ => id) _ h
      | confirm =>
          exact (spec_map (Q := CounterStep m t)).mpr
            (spec_clearTrial_counter.mono
              (fun _ _ hk => .cleared (by rintro _ ⟨⟩) hk (.inr (.inl rfl)))
              fun _ => id) _ h
      | revert v n =>
          refine (spec_map (Q := CounterStep m t)).mpr
            ((spec_revert_counter v n).mono (fun r t'' hr => ?_)
              fun _ => id) _ h
          refine .cleared (by rintro _ ⟨⟩) hr.2 ?_
          by_cases hres : r = -1
          · exact .inr (.inr (hr.1 hres).1)
          · exact .inl (by simpa [BootEvent.endsRevert] using hres)
  | lost op h =>
      cases op with
      | prepare v => exact absurd rfl hprep
      | beginBoot v =>
          have hb : (t'.look m.trialPath = t.look m.trialPath ∨
              Counted m t t') ∧ TmpStays m t t' :=
            (spec_map (Q := fun _ _ => True)).mpr
              ((spec_beginBoot hF v).mono (fun _ _ _ => trivial)
                fun _ => id) _ h
          exact .cutBegin hb.1 hb.2
      | confirm =>
          have hk : CounterKept m t t' :=
            (spec_map (Q := fun _ _ => True)).mpr
              (spec_clearTrial_counter.mono (fun _ _ _ => trivial)
                fun _ => id) _ h
          exact .cleared (by rintro _ ⟨⟩) hk (.inr (.inl rfl))
      | revert v n =>
          have hk : CounterKept m t t' :=
            (spec_map (Q := fun _ _ => True)).mpr
              ((spec_revert_counter v n).mono (fun _ _ _ => trivial)
                fun _ => id) _ h
          refine .cleared (by rintro _ ⟨⟩) hk ?_
          rcases hk.1 with hsame | hnone
          · exact .inr (.inr hsame)
          · exact .inl (by simp [BootEvent.endsRevert, hnone])

/-- A counted attempt is paid for with an attempt that was left. -/
theorem counterStep_cost {e : BootEvent} (h : CounterStep m t e t') :
    e.cost + attemptsLeft m t' ≤ attemptsLeft m t := by
  cases h with
  | @began a _ h _ =>
      cases a with
      | none => simp [BootEvent.cost, attemptsLeft_of_same h.2]
      | revert => simp [BootEvent.cost, attemptsLeft_of_same h.2]
      | attempt =>
          rw [BootEvent.cost, Nat.add_comm, attemptsLeft_of_counted h]
  | cutBegin h _ =>
      rcases h with hsame | hcounted
      · simp [BootEvent.cost, attemptsLeft_of_same hsame]
      · simp [BootEvent.cost, ← attemptsLeft_of_counted hcounted]
  | outside h => simpa [BootEvent.cost] using attemptsLeft_of_outside h
  | @cleared e _ hne hkept _ =>
      have hcost : e.cost = 0 := by
        unfold BootEvent.cost
        split
        · exact absurd rfl (hne _)
        · rfl
      simpa [hcost] using attemptsLeft_of_kept hkept

/-- The counter is gone for good once it is gone. -/
theorem counterStep_none {e : BootEvent} (h : CounterStep m t e t')
    (hnone : t.look m.trialPath = none) :
    t'.look m.trialPath = none ∧ ∀ a, e = .began a → a = .none := by
  have hstored := storedAttempts_eq_none_iff.mpr hnone
  cases h with
  | @began a _ h _ =>
      cases a with
      | none => exact ⟨h.2.trans hnone, fun a ha => by cases ha; rfl⟩
      | revert => exact absurd hstored h.1
      | attempt =>
          obtain ⟨n, hn, -⟩ := h
          simp [hstored] at hn
  | cutBegin h _ =>
      refine ⟨?_, (by rintro _ ⟨⟩)⟩
      rcases h with hsame | ⟨n, hn, -⟩
      · exact hsame.trans hnone
      · simp [hstored] at hn
  | outside h =>
      refine ⟨?_, (by rintro _ ⟨⟩)⟩
      rcases h.2 with hsame | ⟨text, -, htext, -⟩
      · exact hsame.trans hnone
      · simp [hnone] at htext
  | cleared hne hkept _ =>
      refine ⟨?_, fun a ha => absurd ha (hne a)⟩
      rcases hkept.1 with hsame | hgone
      · exact hsame.trans hnone
      · exact hgone

/-! ## An exhausted counter -/

/-- The counter is stored and exhausted. -/
def Exhausted (m : Mounts) (t : Node) : Prop :=
  ∃ n, storedAttempts m t = some n ∧ bootRecoveryMaxAttempts ≤ n

theorem exhausted_of_same (h : t'.look m.trialPath = t.look m.trialPath)
    (hex : Exhausted m t) : Exhausted m t' := by
  rw [Exhausted, storedAttempts_congr h]
  exact hex

theorem not_counted_of_exhausted (hex : Exhausted m t) :
    ¬Counted m t t' := by
  obtain ⟨n, hn, hmax⟩ := hex
  rintro ⟨k, hk, hlt, -⟩
  rw [hn] at hk
  cases hk
  omega

/-- An exhausted counter stays exhausted, and every boot reverts, until the
trial ends. -/
theorem counterStep_exhausted {e : BootEvent} (h : CounterStep m t e t')
    (hex : Exhausted m t) (hends : ¬e.endsRevert) (hconf : ¬e.isConfirm) :
    Exhausted m t' ∧ ∀ a, e = .began a → a = .revert := by
  cases h with
  | @began a _ h _ =>
      cases a with
      | none =>
          obtain ⟨n, hn, -⟩ := hex
          exact absurd h.1 (by simp [hn])
      | revert => exact ⟨exhausted_of_same h.2 hex, fun a ha => by cases ha; rfl⟩
      | attempt => exact absurd h (not_counted_of_exhausted hex)
  | cutBegin h _ =>
      refine ⟨?_, (by rintro _ ⟨⟩)⟩
      rcases h with hsame | hcounted
      · exact exhausted_of_same hsame hex
      · exact absurd hcounted (not_counted_of_exhausted hex)
  | outside h =>
      refine ⟨?_, (by rintro _ ⟨⟩)⟩
      rcases h.2 with hsame | ⟨text, text', -, hfile, hcorrupt⟩
      · exact exhausted_of_same hsame hex
      · exact ⟨_, storedAttempts_file hfile,
          (trialAttempts_of_corrupt hcorrupt).ge⟩
  | cleared hne hkept hwhy =>
      refine ⟨?_, fun a ha => absurd ha (hne a)⟩
      rcases hwhy with h | h | hsame
      · exact absurd h hends
      · exact absurd h hconf
      · exact exhausted_of_same hsame hex

/-- The temporary file stays writable in every step. -/
theorem counterStep_tmp {e : BootEvent} (h : CounterStep m t e t') :
    TmpStays m t t' := by
  have hsame : t'.look m.trialTmp = t.look m.trialTmp → TmpStays m t t' := by
    intro hlook hw
    rwa [Writable, hlook]
  cases h with
  | began _ h => exact h
  | cutBegin _ h => exact h
  | outside h => exact hsame h.1
  | cleared _ h _ => exact hsame h.2

/-- A boot that reverts has found an exhausted counter, where counters can be
stored. -/
theorem bootStep_revert (hF : OnlyWritesFail F)
    (hok : WritesWork F m.trialTmp) (htmp : Writable t m.trialTmp)
    (h : BootStep m F t (.began .revert) t') : Exhausted m t := by
  generalize he : BootEvent.began .revert = e at h
  cases h with
  | outside h => cases he
  | lost op h => cases he
  | done op h =>
      have hspec : Spec F.env (op.run m) t
          (fun e _ => e = .began .revert → Exhausted m t) fun _ => True := by
        cases op with
        | prepare v =>
            exact spec_map.mpr ((spec_trivial _).mono (fun _ _ _ => by rintro ⟨⟩)
              fun _ => id)
        | confirm =>
            exact spec_map.mpr ((spec_trivial _).mono (fun _ _ _ => by rintro ⟨⟩)
              fun _ => id)
        | revert v n =>
            exact spec_map.mpr ((spec_trivial _).mono (fun _ _ _ => by rintro ⟨⟩)
              fun _ => id)
        | beginBoot v =>
            refine spec_map.mpr ((beginBoot_works hF hok htmp v).mono
              (fun r _ hr he => hr ?_) fun _ => id)
            simpa using he
      exact hspec _ h he.symm

/-- A successful preparation leaves a fresh counter. -/
theorem spec_prepare_counter (versionText : Bytes) :
    Spec F.env (bootRecoveryPrepareUpdate m versionText) t
      (fun ok t' => ok → t'.look m.trialPath = some (.file (attemptsText 0)) ∧
        Writable t' m.trialTmp)
      (fun _ => True) := by
  rw [bootRecoveryPrepareUpdate, spec_bind]
  refine (spec_trivial _).mono (fun ok t₁ _ => ?_) fun _ => id
  cases ok with
  | false => simp
  | true =>
      simp only [Bool.not_true, Bool.false_eq_true, if_false]
      rw [spec_bind]
      refine (spec_trivial _).mono (fun ok t₂ _ => ?_) fun _ => id
      cases ok with
      | false => simp
      | true =>
          simp only [Bool.not_true, Bool.false_eq_true, if_false]
          rw [spec_bind]
          refine (spec_trivial _).mono (fun _ t₃ _ => ?_) fun _ => id
          refine (spec_brWriteFileAtomic _ _ _ t₃).mono
            (fun ok t₄ h hok => ?_) fun _ _ => trivial
          rw [if_pos hok] at h
          replace h : Replaced t₃ m.trialTmp m.trialPath (attemptsText 0) t₄ :=
            h
          refine ⟨by rw [h, if_pos rfl], .inl ?_⟩
          rw [h, if_neg (trialTmp_ne_trialPath m), if_pos rfl]

theorem bootStep_prepared (h : BootStep m F t (.prepared true) t') :
    t'.look m.trialPath = some (.file (attemptsText 0)) ∧
      Writable t' m.trialTmp := by
  generalize he : BootEvent.prepared true = e at h
  cases h with
  | outside h => cases he
  | lost op h => cases he
  | done op h =>
      have hspec : Spec F.env (op.run m) t
          (fun e t' => e = .prepared true →
            t'.look m.trialPath = some (.file (attemptsText 0)) ∧
              Writable t' m.trialTmp) fun _ => True := by
        cases op with
        | beginBoot v =>
            exact spec_map.mpr ((spec_trivial _).mono (fun _ _ _ => by rintro ⟨⟩)
              fun _ => id)
        | confirm =>
            exact spec_map.mpr ((spec_trivial _).mono (fun _ _ _ => by rintro ⟨⟩)
              fun _ => id)
        | revert v n =>
            exact spec_map.mpr ((spec_trivial _).mono (fun _ _ _ => by rintro ⟨⟩)
              fun _ => id)
        | prepare v =>
            refine spec_map.mpr ((spec_prepare_counter v).mono
              (fun ok _ hok he => hok ?_) fun _ => id)
            simpa using he
      exact hspec _ h he.symm

/-! ## The contract of a boot trial -/

/-- After a successful preparation, at most three boots are attempts, until
the next preparation or confirmation. -/
def AttemptsBounded (S : Node → BootEvent → Node → Prop) : Prop :=
  ∀ t₀ t₁ t₂ es, S t₀ (.prepared true) t₁ → Run S t₁ es t₂ →
    (∀ e ∈ es, ¬e.isPrepare ∧ ¬e.isConfirm) →
    es.count (.began .attempt) ≤ bootRecoveryMaxAttempts

/-- Once a boot of the trial reverts, every later boot does, until a revert
completes. -/
def RevertStays (S : Node → BootEvent → Node → Prop) : Prop :=
  ∀ t₀ t₁ t₂ es es' a, S t₀ (.prepared true) t₁ →
    Run S t₁ (es ++ .began .revert :: (es' ++ [.began a])) t₂ →
    (∀ e ∈ es ++ es', ¬e.isPrepare ∧ ¬e.isConfirm) →
    (∀ e ∈ es', ¬e.endsRevert) → a = .revert

/-- A counter that does not start with `attempts=<number>` reverts, and no
fresh trial is written. -/
def CorruptReverts (m : Mounts) (S : Node → BootEvent → Node → Prop) : Prop :=
  ∀ t t' text a, t.look m.trialPath = some (.file text) →
    ¬StartsWithAttempts text → S t (.began a) t' →
    a = .revert ∧ t'.look m.trialPath = t.look m.trialPath

/-- After a confirmation or a completed revert that has removed the counter,
boots find no trial until the next preparation. -/
def QuietAfterEnd (m : Mounts) (S : Node → BootEvent → Node → Prop) : Prop :=
  ∀ t t' t'' e es a, S t e t' →
    (e = .confirmed ∨ ∃ r, r ≠ -1 ∧ e = .reverted r) →
    t'.look m.trialPath = none → Run S t' es t'' →
    (∀ e ∈ es, ¬e.isPrepare) → .began a ∈ es → a = .none

/-- What the counter, the backup and the markers promise of every run. -/
def BootTrialContract (m : Mounts) (S : Node → BootEvent → Node → Prop) :
    Prop :=
  AttemptsBounded S ∧ RevertStays S ∧ CorruptReverts m S ∧ QuietAfterEnd m S

theorem attemptsBounded (hF : OnlyWritesFail F) :
    AttemptsBounded (BootStep m F) := by
  intro t₀ t₁ t₂ es hprep hrun hes
  have hcost := hrun.cost_le (attemptsLeft m) BootEvent.cost
    (P := fun e => ¬e.isPrepare)
    (fun s e s' he hs => counterStep_cost (bootStep_counter hF hs he))
    fun e he => (hes e he).1
  have hcount : ∀ es : List BootEvent,
      (es.map BootEvent.cost).sum = es.count (.began .attempt) := by
    intro es
    induction es with
    | nil => rfl
    | cons e es ih =>
        rw [List.map_cons, List.sum_cons, List.count_cons, ih, Nat.add_comm]
        congr 1
        unfold BootEvent.cost
        split <;> simp_all
  have hleft : attemptsLeft m t₁ ≤ bootRecoveryMaxAttempts :=
    Nat.sub_le _ _
  rw [hcount] at hcost
  omega

/-- From an exhausted counter every boot reverts. -/
theorem run_exhausted (hF : OnlyWritesFail F) {es : List BootEvent}
    (h : Run (BootStep m F) t es t') (hex : Exhausted m t)
    (hes : ∀ e ∈ es, ¬e.isPrepare ∧ ¬e.isConfirm ∧ ¬e.endsRevert) :
    Exhausted m t' :=
  h.invariant (Exhausted m)
    (P := fun e => ¬e.isPrepare ∧ ¬e.isConfirm ∧ ¬e.endsRevert)
    (fun _ _ _ he hI hs => (counterStep_exhausted
      (bootStep_counter hF hs he.1) hI he.2.2 he.2.1).1) hes hex

/-- Where counters can be stored, the decision to revert is kept. -/
theorem revertStays (hF : OnlyWritesFail F) (hok : WritesWork F m.trialTmp) :
    RevertStays (BootStep m F) := by
  intro t₀ t₁ t₂ es es' a hprep hrun hes hends
  obtain ⟨s, hes₁, hrest⟩ := Run.append_iff.mp hrun
  obtain ⟨s', hrevert, hrest⟩ := Run.cons_iff.mp hrest
  obtain ⟨s'', hes₂, hlast⟩ := Run.append_iff.mp hrest
  obtain ⟨s₃, hbegin, -⟩ := Run.cons_iff.mp hlast
  have htmp : Writable s m.trialTmp :=
    hes₁.invariant (Writable · m.trialTmp) (P := fun e => ¬e.isPrepare)
      (fun _ _ _ he hI hs => counterStep_tmp (bootStep_counter hF hs he) hI)
      (fun e he => (hes e (by simp [he])).1) (bootStep_prepared hprep).2
  have hex : Exhausted m s := bootStep_revert hF hok htmp hrevert
  have hex' : Exhausted m s' :=
    (counterStep_exhausted (bootStep_counter hF hrevert (by decide)) hex
      (by decide) (by decide)).1
  have hex'' : Exhausted m s'' := run_exhausted hF hes₂ hex' fun e he =>
    ⟨(hes e (by simp [he])).1, (hes e (by simp [he])).2, hends e he⟩
  exact (counterStep_exhausted (bootStep_counter hF hbegin (by simp
    [BootEvent.isPrepare])) hex'' (by simp [BootEvent.endsRevert])
    (by simp [BootEvent.isConfirm])).2 a rfl

theorem corruptReverts (hF : OnlyWritesFail F) :
    CorruptReverts m (BootStep m F) := by
  intro t t' text a htext hcorrupt hbegin
  have hex : Exhausted m t :=
    ⟨_, storedAttempts_file htext, (trialAttempts_of_corrupt hcorrupt).ge⟩
  have hstep := bootStep_counter hF hbegin (by simp [BootEvent.isPrepare])
  obtain rfl := (counterStep_exhausted hstep hex
    (by simp [BootEvent.endsRevert]) (by simp [BootEvent.isConfirm])).2 a rfl
  refine ⟨rfl, ?_⟩
  cases hstep with
  | began h _ => exact h.2
  | cleared hne _ _ => exact absurd rfl (hne _)

theorem quietAfterEnd (hF : OnlyWritesFail F) :
    QuietAfterEnd m (BootStep m F) := by
  intro t t' t'' e es a _ _ hnone hrun hes ha
  obtain ⟨es₁, es₂, rfl⟩ := List.append_of_mem ha
  obtain ⟨s, hes₁, hrest⟩ := Run.append_iff.mp hrun
  obtain ⟨s', hbegin, -⟩ := Run.cons_iff.mp hrest
  have hgone : s.look m.trialPath = none :=
    hes₁.invariant (fun t => t.look m.trialPath = none)
      (P := fun e => ¬e.isPrepare)
      (fun _ _ _ he hI hs => (counterStep_none
        (bootStep_counter hF hs he) hI).1)
      (fun e he => hes e (by simp [he])) hnone
  exact (counterStep_none (bootStep_counter hF hbegin
    (by simp [BootEvent.isPrepare])) hgone).2 a rfl

/-- One operation of the running system, on which the calls at the given
positions fail. -/
def operate (fails : List Nat) (op : BootOperation) (t : Node) :
    Outcome BootEvent Node :=
  drive (failingAt fails) (fun _ _ _ => false) (op.run systemMounts) 0 t

theorem bootStep_operate {fails : List Nat} {op : BootOperation} {t : Node}
    {e : BootEvent} (h : (operate fails op t).result? = some e) :
    BootStep systemMounts (Faults.writes fun _ => False) t e
      (operate fails op t).state := by
  have hexec : Exec (Faults.writes fun _ => False).env (op.run systemMounts) t
      (operate fails op t) :=
    exec_drive (M := files) (failingAt_writes fails)
      (fun _ _ _ _ => trivial) _ 0 t
  rw [Outcome.eq_done h] at hexec
  exact .done op hexec

def updatedSystem : Node :=
  (operate [] (.prepare (ascii "1.0\n")) freshSystem).state

/-- The counter could not be stored, so the boot reverts. -/
def revertingSystem : Node :=
  (operate [2] (.beginBoot (ascii "1.1")) updatedSystem).state

/-- The restore could not be written either. -/
def unrestoredSystem : Node :=
  (operate [17] (.revert (ascii "1.1") 0) revertingSystem).state

end Audiox
