import Audiox.Boot.FileOps
import Mathlib

/-!
# The counter of boot attempts

The text of `boot-trial`, and what each recovery operation does to the file
and to `boot-trial.tmp`, whatever fails.
-/

namespace Audiox

open ByteCodec FileTree Interruptible

variable {m : Mounts} {F : Faults} {t t' : Node}

/-! ## The text of the counter -/

/-- The text starts with `attempts=` and a number as `%u` reads it. -/
def StartsWithAttempts (text : Bytes) : Prop :=
  ∃ (blanks sign : Bytes) (digit : UInt8) (rest : Bytes),
    (∀ c ∈ blanks, isSpace c) ∧
    sign ∈ [[], [chr '+'], [chr '-']] ∧ isDigit digit ∧
    text = attemptsKey ++ (blanks ++ (sign ++ digit :: rest))

theorem StartsWithAttempts.of_prefix {text text' : Bytes}
    (h : StartsWithAttempts text) (hpre : text <+: text') :
    StartsWithAttempts text' := by
  obtain ⟨blanks, sign, digit, rest, hblanks, hsign, hdigit, rfl⟩ := h
  obtain ⟨more, rfl⟩ := hpre
  exact ⟨blanks, sign, digit, rest ++ more, hblanks, hsign, hdigit, by simp⟩

theorem exists_digit_of_takeWhile {text : Bytes}
    (h : text.takeWhile isDigit ≠ []) :
    ∃ digit rest, isDigit digit ∧ text = digit :: rest := by
  cases text with
  | nil => simp at h
  | cons c text =>
      refine ⟨c, text, ?_, rfl⟩
      by_contra hc
      simp [hc] at h

theorem scanUnsigned_isSome {text : Bytes} (h : scanUnsigned text ≠ none) :
    ∃ (blanks sign : Bytes) (digit : UInt8) (rest : Bytes),
      (∀ c ∈ blanks, isSpace c) ∧
      sign ∈ [[], [chr '+'], [chr '-']] ∧ isDigit digit ∧
      text = blanks ++ (sign ++ digit :: rest) := by
  have hsplit : text.takeWhile isSpace ++ text.dropWhile isSpace = text :=
    List.takeWhile_append_dropWhile
  have hblanks : ∀ c ∈ text.takeWhile isSpace, isSpace c :=
    fun c hc => List.mem_takeWhile_imp hc
  generalize hrest : text.dropWhile isSpace = rest at *
  simp only [scanUnsigned, hrest] at h
  by_cases hsigned : rest.head? = some (chr '-') ∨ rest.head? = some (chr '+')
  · rw [if_pos hsigned] at h
    obtain ⟨digit, tail, hdigit, htail⟩ :=
      exists_digit_of_takeWhile (fun hnil : rest.tail.takeWhile _ = [] => by
        simp [hnil] at h)
    rcases hsigned with hminus | hplus
    · refine ⟨_, [chr '-'], digit, tail, hblanks, by simp, hdigit, ?_⟩
      rw [← htail, List.singleton_append, List.cons_head?_tail hminus, hsplit]
    · refine ⟨_, [chr '+'], digit, tail, hblanks, by simp, hdigit, ?_⟩
      rw [← htail, List.singleton_append, List.cons_head?_tail hplus, hsplit]
  · rw [if_neg hsigned] at h
    obtain ⟨digit, tail, hdigit, htail⟩ :=
      exists_digit_of_takeWhile (fun hnil : rest.takeWhile _ = [] => by
        simp [hnil] at h)
    refine ⟨_, [], digit, tail, hblanks, by simp, hdigit, ?_⟩
    rw [List.nil_append, ← htail, hsplit]

/-- A counter that does not start with `attempts=<number>` is exhausted. -/
theorem trialAttempts_of_corrupt {text : Bytes}
    (h : ¬StartsWithAttempts text) :
    trialAttempts text = bootRecoveryMaxAttempts := by
  have hbuffer : ¬StartsWithAttempts
      (cstr (text.take (trialTextSize - 1))) := fun hb =>
    h (hb.of_prefix ((List.takeWhile_prefix _).trans (List.take_prefix _ _)))
  rw [trialAttempts, scanAttempts]
  split
  next hkey =>
    obtain ⟨rest, hrest⟩ := hkey
    rw [← hrest, List.drop_left]
    cases hscan : scanUnsigned rest with
    | none => rfl
    | some n =>
        obtain ⟨blanks, sign, digit, tail, hblanks, hsign, hdigit, rfl⟩ :=
          scanUnsigned_isSome (by simp [hscan] : scanUnsigned rest ≠ none)
        exact absurd ⟨blanks, sign, digit, tail, hblanks, hsign, hdigit,
          hrest.symm⟩ hbuffer
  · rfl

/-- What `BeginBoot` writes is read back as the number it has written. -/
theorem trialAttempts_attemptsText {n : Nat}
    (h : n ≤ bootRecoveryMaxAttempts) : trialAttempts (attemptsText n) = n := by
  simp only [bootRecoveryMaxAttempts] at h
  interval_cases n <;> decide

/-! ## What the operations do to the counter -/

/-- The number of attempts that the stored counter stands for. -/
def storedAttempts (m : Mounts) (t : Node) : Option Nat :=
  (smallFile t m.trialPath trialTextSize).map trialAttempts

theorem storedAttempts_congr (h : t'.look m.trialPath = t.look m.trialPath) :
    storedAttempts m t' = storedAttempts m t := by
  rw [storedAttempts, smallFile, h]
  rfl

theorem storedAttempts_file {text : Bytes}
    (h : t.look m.trialPath = some (.file text)) :
    storedAttempts m t = some (trialAttempts text) := by
  simp [storedAttempts, smallFile, h, trialAttempts, List.take_take]

theorem storedAttempts_eq_none_iff :
    storedAttempts m t = none ↔ t.look m.trialPath = none := by
  rw [storedAttempts, smallFile, Option.map_eq_none_iff]
  split <;> simp [*]

/-- One more attempt is counted. -/
def Counted (m : Mounts) (t t' : Node) : Prop :=
  ∃ n, storedAttempts m t = some n ∧ n < bootRecoveryMaxAttempts ∧
    t'.look m.trialPath = some (.file (attemptsText (n + 1)))

theorem Counted.congr {t'' : Node} (h : Counted m t t')
    (hlook : t''.look m.trialPath = t'.look m.trialPath) :
    Counted m t t'' := by
  rw [Counted, hlook]
  exact h

/-- What `BeginBoot` does to the counter. -/
def BeginBootPost (m : Mounts) (t : Node) (a : BootTrialAction)
    (t' : Node) : Prop :=
  match a with
  | .none => storedAttempts m t = none ∧
      t'.look m.trialPath = t.look m.trialPath
  | .revert => storedAttempts m t ≠ none ∧
      t'.look m.trialPath = t.look m.trialPath
  | .attempt => Counted m t t'

theorem trialTmp_ne_trialPath (m : Mounts) : m.trialTmp ≠ m.trialPath := by
  simp [Mounts.trialTmp, Mounts.trialPath, tmpSuffix, ascii]

theorem eventsPath_ne (m : Mounts) :
    m.eventsPath ≠ m.trialPath ∧ m.eventsPath ≠ m.trialTmp := by
  simp only [Mounts.eventsPath, Mounts.trialPath, Mounts.trialTmp, ne_eq,
    List.append_cancel_left_eq]
  decide

/-- The temporary file of the counter stays writable. -/
def TmpStays (m : Mounts) (t t' : Node) : Prop :=
  Writable t m.trialTmp → Writable t' m.trialTmp

theorem spec_beginBoot (hF : OnlyWritesFail F) (versionText : Bytes) :
    Spec F.env (bootRecoveryBeginBoot m versionText) t
      (fun r t' => BeginBootPost m t r.1 t' ∧ TmpStays m t t')
      (fun t' => (t'.look m.trialPath = t.look m.trialPath ∨
        Counted m t t') ∧ TmpStays m t t') := by
  obtain ⟨hopen, hread⟩ := hF.reads m.trialPath
  have htmp := (trialTmp_ne_trialPath m).symm
  rw [bootRecoveryBeginBoot, spec_bind]
  refine spec_brReadSmallFile hopen hread ⟨.inl rfl, id⟩ ?_
  cases htext : smallFile t m.trialPath trialTextSize with
  | none => simp [BeginBootPost, storedAttempts, htext, TmpStays]
  | some text =>
      have hstored : storedAttempts m t = some (trialAttempts text) := by
        simp [storedAttempts, htext]
      by_cases hmax : bootRecoveryMaxAttempts ≤ trialAttempts text
      · simp [hmax, BeginBootPost, hstored, TmpStays]
      · simp only [if_neg hmax, spec_bind]
        have hcounted : ∀ t', Replaced t m.trialTmp m.trialPath
            (attemptsText (trialAttempts text + 1)) t' →
            Counted m t t' ∧ TmpStays m t t' := fun t' h =>
          ⟨⟨_, hstored, by omega, by simp [h m.trialPath]⟩,
            fun _ => .inl (by simp [h m.trialTmp, htmp.symm])⟩
        have hscratched : ∀ t', Scratched t m.trialTmp t' →
            t'.look m.trialPath = t.look m.trialPath ∧ TmpStays m t t' :=
          fun t' h => ⟨h.1 _ htmp, h.writable⟩
        refine (spec_brWriteFileAtomic _ _ _ t).mono (fun ok t' h => ?_)
          fun t' h => ?_
        · cases ok with
          | false =>
              have hs := hscratched t' h
              simpa [BeginBootPost, hstored] using hs
          | true =>
              rw [if_pos rfl] at h
              obtain ⟨hc, hstays⟩ := hcounted t' h
              obtain ⟨hev, hev'⟩ := eventsPath_ne m
              simp only [Bool.not_true, Bool.false_eq_true, if_false,
                spec_bind, spec_pure]
              have happ := spec_within (within_brAppendText
                (R := (m.eventsPath = ·)) rfl
                (trialEvent (trialAttempts text + 1) versionText)) F.env t'
              refine happ.mono (fun _ t'' h'' => ?_) fun t'' h'' => ?_
              · exact ⟨hc.congr (h'' _ hev), fun hw => by
                  rw [Writable, h'' _ hev']
                  exact hstays hw⟩
              · exact ⟨.inr (hc.congr (h'' _ hev)), fun hw => by
                  rw [Writable, h'' _ hev']
                  exact hstays hw⟩
        · rcases h with h | h
          · exact ⟨.inl (hscratched t' h).1, (hscratched t' h).2⟩
          · exact ⟨.inr (hcounted t' h).1, (hcounted t' h).2⟩

/-- Where the counter can be stored, only an exhausted one reverts. -/
theorem beginBoot_works (hF : OnlyWritesFail F)
    (hok : WritesWork F m.trialTmp) (htmp : Writable t m.trialTmp)
    (versionText : Bytes) :
    Spec F.env (bootRecoveryBeginBoot m versionText) t
      (fun r _ => r.1 = .revert → ∃ n, storedAttempts m t = some n ∧
        bootRecoveryMaxAttempts ≤ n)
      (fun _ => True) := by
  obtain ⟨hopen, hread⟩ := hF.reads m.trialPath
  rw [bootRecoveryBeginBoot, spec_bind]
  refine spec_brReadSmallFile hopen hread trivial ?_
  cases htext : smallFile t m.trialPath trialTextSize with
  | none => simp
  | some text =>
      have hstored : storedAttempts m t = some (trialAttempts text) := by
        simp [storedAttempts, htext]
      by_cases hmax : bootRecoveryMaxAttempts ≤ trialAttempts text
      · simp [hmax, hstored]
      · simp only [if_neg hmax, spec_bind]
        -- Only a file can hold a counter that is not exhausted.
        obtain ⟨data, hdata⟩ : ∃ data,
            t.look m.trialPath = some (.file data) := by
          unfold smallFile at htext
          split at htext
          · cases htext
          next data h => exact ⟨data, h⟩
          · cases htext
            exact absurd (by decide) hmax
        have hdir : t.look m.stateDir = some .dir := by
          have := Node.look_dropLast (t := t) (p := m.trialPath)
            (concat_ne_nil _ _) (by simp [hdata])
          rwa [Mounts.trialPath, List.dropLast_concat] at this
        refine (brWriteFileAtomic_works hok hdir htmp
          (by rw [← Mounts.trialPath, hdata]; simp)).mono
          (fun ok t' hok => ?_) fun _ => id
        subst hok
        simp only [Bool.not_true, Bool.false_eq_true, if_false, spec_bind,
          spec_pure]
        exact (spec_trivial _).mono (fun _ _ _ => by rintro ⟨⟩) fun _ => id

/-- The counter and its temporary file are as they were. -/
def CounterSame (m : Mounts) (t t' : Node) : Prop :=
  t'.look m.trialPath = t.look m.trialPath ∧
    t'.look m.trialTmp = t.look m.trialTmp

theorem CounterSame.trans {t'' : Node} (h : CounterSame m t t')
    (h' : CounterSame m t' t'') : CounterSame m t t'' :=
  ⟨h'.1.trans h.1, h'.2.trans h.2⟩

/-- As `CounterSame`, but the counter may have been removed. -/
def CounterKept (m : Mounts) (t t' : Node) : Prop :=
  (t'.look m.trialPath = t.look m.trialPath ∨ t'.look m.trialPath = none) ∧
    t'.look m.trialTmp = t.look m.trialTmp

theorem CounterSame.kept (h : CounterSame m t t') : CounterKept m t t' :=
  ⟨.inl h.1, h.2⟩

theorem CounterKept.trans_same {t'' : Node} (h : CounterKept m t t')
    (h' : CounterSame m t' t'') : CounterKept m t t'' := by
  refine ⟨?_, h'.2.trans h.2⟩
  rw [h'.1]
  exact h.1

theorem CounterSame.trans_kept {t'' : Node} (h : CounterSame m t t')
    (h' : CounterKept m t' t'') : CounterKept m t t'' := by
  refine ⟨?_, h'.2.trans h.2⟩
  rw [← h.1]
  exact h'.1

def BesideCounter (m : Mounts) (q : Path) : Prop :=
  q ≠ m.trialPath ∧ q ≠ m.trialTmp

theorem beside_of_sibling {n : Name} (h : n ≠ bootTrialName)
    (h' : n ≠ bootTrialName ++ tmpSuffix) {q : Path}
    (hq : m.stateDir ++ [n] <+: q) : BesideCounter m q :=
  ⟨sibling_ne h hq, sibling_ne h' hq⟩

theorem beside_of_boot {q : Path} (hq : m.boot <+: q) : BesideCounter m q :=
  ⟨m.boot_ne_state hq, m.boot_ne_state hq⟩

theorem beside_backupDir {q : Path} (hq : m.backupDir <+: q) :
    BesideCounter m q :=
  beside_of_sibling (by decide) (by decide) hq

theorem beside_stateDir : BesideCounter m m.stateDir := by
  simp [BesideCounter, Mounts.trialPath, Mounts.trialTmp]

theorem spec_beside {α : Type} {p : Prog files α}
    (hp : Within (BesideCounter m) p) :
    Spec F.env p t (fun _ => CounterSame m t) (CounterSame m t) := by
  have hkeep : ∀ t', (∀ q, ¬BesideCounter m q → Node.look t' q = t.look q) →
      CounterSame m t t' := fun t' h =>
    ⟨h _ fun hb => hb.1 rfl, h _ fun hb => hb.2 rfl⟩
  exact (spec_within hp F.env t).mono (fun _ => hkeep) hkeep

theorem spec_clearTrial_counter :
    Spec F.env (clearTrial m) t (fun _ => CounterKept m t)
      (CounterKept m t) := by
  have hsame : CounterSame m t t := ⟨rfl, rfl⟩
  have hevents : BesideCounter m m.eventsPath :=
    beside_of_sibling (by decide) (by decide) (List.prefix_refl _)
  have hrest : Within (BesideCounter m) (do
      let _ ← unlink m.eventsPath
      brRemoveFlatDir m.backupDir
      brFsyncDir m.stateDir) :=
    .bind (by simpa [unlink, Prog.op, Call.changes] using hevents) fun _ =>
      .bind (within_brRemoveFlatDir fun _ => beside_backupDir) fun _ =>
        within_brFsyncDir _
  rw [clearTrial, spec_bind]
  refine unlink_spec (concat_ne_nil _ _) (fun _ => hsame.kept)
    (fun e _ => ?_) fun t₁ _ _ h₁ => ?_
  · exact (spec_beside hrest).mono (fun _ t' => CounterSame.kept)
      fun t' => CounterSame.kept
  · have hkept : CounterKept m t t₁ := by
      refine ⟨.inr (by simp [h₁]), ?_⟩
      rw [h₁, if_neg]
      simp [Mounts.trialTmp, Mounts.trialPath, tmpSuffix, ascii]
    exact (spec_beside hrest).mono (fun _ t' => hkept.trans_same)
      fun t' => hkept.trans_same

theorem within_revert_restore (names : List Name) :
    Within (BesideCounter m) (Prog.every names (restoreFile m)) :=
  .every fun n _ => within_restoreFile (fun _ => beside_of_boot) n

theorem within_listBackup (dir : Path) {R : Path → Prop} :
    Within R (bootRecoveryListBackup dir) := by
  simp only [Within, bootRecoveryListBackup, readdir, Prog.op, Prog.call_bind,
    Prog.ret_bind, Prog.only_call, Call.changes]
  refine ⟨fun _ hq => hq.elim, fun r => ?_⟩
  cases r <;> trivial

theorem within_restoreNames (hasBackup : Bool) {R : Path → Prop} :
    Within R (restoreNames m hasBackup) :=
  Prog.only_ite.mpr ⟨fun _ => within_listBackup _, fun _ => trivial⟩

theorem within_restoredVersion (hasBackup : Bool) {R : Path → Prop} :
    Within R (restoredVersion m hasBackup) := by
  rw [restoredVersion]
  split
  · exact .bind (within_brReadSmallFile _ _) fun _ => trivial
  · trivial

/-- A revert that fails leaves the counter alone. -/
theorem spec_revert_counter (failedVersion : Bytes) (attempts : Nat) :
    Spec F.env (bootRecoveryRevert m failedVersion attempts) t
      (fun r t' => (r = -1 → CounterSame m t t') ∧ CounterKept m t t')
      (CounterKept m t) := by
  rw [bootRecoveryRevert, spec_bind]
  refine (spec_beside (within_ensureStateDir beside_stateDir)).mono
    (fun ok t₁ h₁ => ?_) fun _ => CounterSame.kept
  cases ok with
  | false => simpa using ⟨h₁, h₁.kept⟩
  | true =>
      simp only [Bool.not_true, Bool.false_eq_true, if_false, spec_bind]
      refine (spec_beside within_hasBackup).mono (fun b t₂ h₂ => ?_)
        fun _ h => (h₁.trans h).kept
      replace h₂ := h₁.trans h₂
      refine (spec_beside (within_restoreNames b)).mono
        (fun names t₃ h₃ => ?_) fun _ h => (h₂.trans h).kept
      replace h₃ := h₂.trans h₃
      refine (spec_beside (within_restoredVersion b)).mono
        (fun restored t₄ h₄ => ?_) fun _ h => (h₃.trans h).kept
      replace h₄ := h₃.trans h₄
      refine (spec_beside (within_writeReport
        (fun _ => beside_of_sibling (by decide) (by decide))
        (fun _ => beside_of_sibling (by decide) (by decide)) _)).mono
        (fun _ t₅ h₅ => ?_) fun _ h => (h₄.trans h).kept
      replace h₅ := h₄.trans h₅
      refine (spec_beside (within_revert_restore names)).mono
        (fun ok t₆ h₆ => ?_) fun _ h => (h₅.trans h).kept
      replace h₆ := h₅.trans h₆
      cases ok with
      | false => simpa using ⟨h₆, h₆.kept⟩
      | true =>
          simp only [Bool.not_true, Bool.false_eq_true, if_false, spec_bind,
            spec_pure]
          refine spec_clearTrial_counter.mono (fun _ t₇ h₇ => ?_)
            fun _ h => h₆.trans_kept h
          refine ⟨fun hr => ?_, h₆.trans_kept h₇⟩
          cases b <;> simp at hr

end Audiox
