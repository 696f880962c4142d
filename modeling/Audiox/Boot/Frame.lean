import Audiox.Boot.Recovery

/-!
# What the recovery operations change

For each operation, the paths at which it can change the file tree.  The
statements take a set of paths that contains them, so that they compose
without weakening steps.
-/

namespace Audiox

open ByteCodec FileTree Interruptible

variable {R : Path → Prop} {m : Mounts}

/-! ## Paths -/

theorem sibling_ne {dir q : Path} {a b : Name} (hab : a ≠ b)
    (h : dir ++ [a] <+: q) : q ≠ dir ++ [b] := by
  rintro rfl
  exact hab (by simpa [List.prefix_append_right_inj] using h)

theorem Mounts.boot_ne (m : Mounts) {q r : Path} (h : m.boot <+: q) :
    q ≠ m.root ++ r := by
  rintro rfl
  rcases List.prefix_or_prefix_of_prefix h (List.prefix_append m.root r) with
    hpre | hpre
  · exact m.boot_not_prefix hpre
  · exact m.root_not_prefix hpre

theorem Mounts.boot_ne_state (m : Mounts) {q : Path} {n : Name}
    (h : m.boot <+: q) : q ≠ m.stateDir ++ [n] := by
  rw [Mounts.stateDir, List.append_assoc]
  exact m.boot_ne h

/-! ## File operations -/

theorem within_brFsyncDir (dir : Path) : Within R (brFsyncDir dir) := by
  simp [Within, brFsyncDir, fsync, Prog.op, Call.changes]

theorem within_brCopyData (src : Path) {dst : Path} (hdst : R dst) :
    Within R (brCopyData src dst) := by
  simp only [Within, brCopyData, readFile, Prog.op, Prog.call_bind, Prog.ret_bind, Prog.only_call]
  refine ⟨by simp [Call.changes], fun r => ?_⟩
  cases r with
  | error e => trivial
  | ok data =>
      refine .bind (.untilFailure fun chunk _ => ?_) fun ok => ?_
      · simpa [append, Prog.op, Call.changes] using hdst
      · cases ok with
        | false => trivial
        | true => simp [fsync, Prog.op, Call.changes]

theorem within_brCopyFile (src : Path) {dst : Path} (hdst : R dst) :
    Within R (brCopyFile src dst) := by
  simp only [Within, brCopyFile, openRead, create, unlink, Prog.op, Prog.call_bind, Prog.ret_bind, Prog.only_call,
    Prog.only_ite, Call.changes, Prog.only_pure]
  refine ⟨fun q hq => hq.elim, fun r => ⟨fun _ => trivial, fun _ => ?_⟩⟩
  refine ⟨fun q hq => hq ▸ hdst, fun r => ⟨fun _ => trivial, fun _ => ?_⟩⟩
  refine .bind (within_brCopyData src hdst) fun ok => ?_
  cases ok with
  | true => trivial
  | false => simpa [Call.changes] using hdst

theorem within_brWriteFileAtomic {dir : Path} {name text : Bytes}
    (htmp : ∀ q, dir ++ [name ++ tmpSuffix] <+: q → R q)
    (hfile : ∀ q, dir ++ [name] <+: q → R q) :
    Within R (brWriteFileAtomic dir name text) := by
  have h := htmp _ (List.prefix_refl _)
  have hrename : ∀ q, dir ++ [name ++ tmpSuffix] <+: q ∨
      dir ++ [name] <+: q → R q := fun q hq => hq.elim (htmp q) (hfile q)
  simp only [Within, brWriteFileAtomic, create, append, fsync, rename, unlink,
    brFsyncDir, Prog.op, Prog.call_bind, Prog.ret_bind, Prog.only_call, Prog.only_ite, Call.changes, forall_eq]
  refine ⟨h, fun _ => ⟨fun _ => trivial, fun _ => ?_⟩⟩
  refine ⟨h, fun _ => ⟨fun _ => ⟨h, fun _ => trivial⟩, fun _ => ?_⟩⟩
  refine ⟨fun _ hq => hq.elim, fun _ =>
    ⟨fun _ => ⟨h, fun _ => trivial⟩, fun _ => ?_⟩⟩
  refine ⟨hrename, fun _ => ⟨fun _ => ⟨h, fun _ => trivial⟩, fun _ => ?_⟩⟩
  exact ⟨fun _ hq => hq.elim, fun _ => trivial⟩

theorem within_brReadSmallFile (path : Path) (size : Nat) :
    Within R (brReadSmallFile path size) := by
  simp only [Within, brReadSmallFile, openRead, readFile, Prog.op, Prog.call_bind, Prog.ret_bind, Prog.only_call,
    Prog.only_ite, Call.changes]
  refine ⟨fun _ hq => hq.elim, fun _ => ⟨fun _ => trivial, fun _ =>
    ⟨fun _ hq => hq.elim, fun r => ?_⟩⟩⟩
  cases r <;> trivial

theorem within_brAppendText {path : Path} (hpath : R path) (text : Bytes) :
    Within R (brAppendText path text) := by
  simp only [Within, brAppendText, create, append, fsync, Prog.op, Prog.call_bind, Prog.ret_bind, Prog.only_call,
    Prog.only_ite, Call.changes, forall_eq]
  exact ⟨hpath, fun _ => ⟨fun _ => ⟨hpath, fun _ =>
    ⟨fun _ hq => hq.elim, fun _ => trivial⟩⟩, fun _ => trivial⟩⟩

theorem within_brRemoveFlatDir {dir : Path} (hdir : ∀ q, dir <+: q → R q) :
    Within R (brRemoveFlatDir dir) := by
  simp only [Within, brRemoveFlatDir, readdir, Prog.op, Prog.call_bind, Prog.ret_bind, Prog.only_call,
    Call.changes]
  have hrmdir : Within R (rmdir dir) := by
    simpa [Within, rmdir, Prog.op, Call.changes] using hdir _ (List.prefix_refl dir)
  refine ⟨fun _ hq => hq.elim, fun r => ?_⟩
  cases r with
  | error e => exact .bind hrmdir fun _ => trivial
  | ok names =>
      refine .bind (.forEach fun n _ => ?_) fun _ =>
        .bind hrmdir fun _ => trivial
      simpa [unlink, Prog.op, Call.changes] using hdir _ (List.prefix_append dir [n])

/-! ## Operations -/

theorem within_ensureStateDir (h : R m.stateDir) :
    Within R (bootRecoveryEnsureStateDir m) := by
  simp only [Within, bootRecoveryEnsureStateDir, mkdir, Prog.op, Prog.call_bind, Prog.ret_bind, Prog.only_call,
    Call.changes, forall_eq]
  refine ⟨h, fun r => ?_⟩
  cases r <;> trivial

theorem within_hasBackup : Within R (bootRecoveryHasBackup m) := by
  simp [Within, bootRecoveryHasBackup, access, Prog.op, Call.changes]

theorem within_backupFile (h : ∀ q, m.backupTmpDir <+: q → R q)
    (name : Name) : Within R (backupFile m name) := by
  simp only [Within, backupFile, access, Prog.op, Prog.call_bind, Prog.ret_bind, Prog.only_call, Prog.only_ite,
    Call.changes]
  exact ⟨fun _ hq => hq.elim, fun _ =>
    ⟨fun _ => within_brCopyFile _ (h _ (List.prefix_append _ _)),
      fun _ => trivial⟩⟩

theorem within_createBackup (htmp : ∀ q, m.backupTmpDir <+: q → R q)
    (hdir : ∀ q, m.backupDir <+: q → R q)
    (versionText : Bytes) : Within R (createBackup m versionText) := by
  have hbelow : ∀ n q, m.backupTmpDir ++ [n] <+: q → R q :=
    fun n q hq => htmp q ((List.prefix_append _ _).trans hq)
  have hremove := within_brRemoveFlatDir htmp
  refine .bind hremove fun _ => .bind (within_brRemoveFlatDir hdir)
    fun _ => ?_
  simp only [mkdir, Prog.op, Prog.call_bind, Prog.ret_bind, Prog.only_call, Prog.only_ite, Call.changes, forall_eq]
  refine ⟨htmp _ (List.prefix_refl _), fun _ => ⟨fun _ => trivial, fun _ =>
    .bind (within_brReadSmallFile _ _) fun config => ?_⟩⟩
  refine .bind (.untilFailure fun n _ => within_backupFile htmp n) fun ok => ?_
  rw [Prog.only_ite]
  refine ⟨fun _ => .bind hremove fun _ => trivial, fun _ =>
    .bind (within_brWriteFileAtomic (hbelow _) (hbelow _)) fun ok => ?_⟩
  rw [Prog.only_ite]
  refine ⟨fun _ => .bind hremove fun _ => trivial, fun _ => ?_⟩
  simp only [rename, Prog.op, Prog.call_bind, Prog.ret_bind, Prog.only_call,
    Prog.only_ite]
  exact ⟨fun q hq => hq.elim (htmp q) (hdir q), fun _ =>
    ⟨fun _ => .bind hremove fun _ => trivial,
      fun _ => .bind (within_brFsyncDir _) fun _ => trivial⟩⟩

theorem within_beginBoot (htmp : ∀ q, m.trialTmp <+: q → R q)
    (htrial : ∀ q, m.trialPath <+: q → R q) (hevents : R m.eventsPath)
    (versionText : Bytes) : Within R (bootRecoveryBeginBoot m versionText) := by
  refine .bind (within_brReadSmallFile _ _) fun text => ?_
  cases text with
  | none => trivial
  | some text =>
      simp only [Prog.only_ite, Prog.only_pure, implies_true, true_and]
      refine fun _ => .bind (within_brWriteFileAtomic htmp htrial)
        fun ok => ?_
      rw [Prog.only_ite]
      exact ⟨fun _ => trivial, fun _ =>
        .bind (within_brAppendText hevents _) fun _ => trivial⟩

theorem within_clearTrial (htrial : R m.trialPath) (hevents : R m.eventsPath)
    (hdir : ∀ q, m.backupDir <+: q → R q) : Within R (clearTrial m) := by
  simp only [Within, clearTrial, unlink, Prog.op, Prog.call_bind, Prog.ret_bind, Prog.only_call, Call.changes,
    forall_eq]
  exact ⟨htrial, fun _ => ⟨hevents, fun _ =>
    .bind (within_brRemoveFlatDir hdir) fun _ => within_brFsyncDir _⟩⟩

theorem within_brReportAppendFile (title : Bytes) (path : Path) :
    Within R (brReportAppendFile title path) := by
  simp only [Within, brReportAppendFile, openRead, readFile,
    Prog.op, Prog.call_bind, Prog.ret_bind, Prog.only_call, Call.changes]
  refine ⟨fun _ hq => hq.elim, fun r => ?_⟩
  cases r with
  | error e => trivial
  | ok _ =>
      refine ⟨fun _ hq => hq.elim, fun r => ?_⟩
      cases r with
      | error e => trivial
      | ok data => rw [Prog.only_ite]; exact ⟨fun _ => trivial, fun _ => trivial⟩

theorem within_writeReport (htmp : ∀ q, m.reportTmp <+: q → R q)
    (hreport : ∀ q, m.reportPath <+: q → R q) (head : Bytes) :
    Within R (writeReport m head) := by
  have h := htmp _ (List.prefix_refl _)
  simp only [Within, writeReport, create, Prog.op, Prog.call_bind, Prog.ret_bind, Prog.only_call, Prog.only_ite,
    Call.changes, forall_eq]
  refine ⟨h, fun _ => ⟨fun _ => ?_, fun _ => trivial⟩⟩
  refine .bind (within_brReportAppendFile _ _) fun events =>
    .bind (within_brReportAppendFile _ _) fun out =>
      .bind (within_brReportAppendFile _ _) fun err => ?_
  simp only [append, fsync, rename, unlink, brFsyncDir, Prog.op, Prog.call_bind, Prog.ret_bind, Prog.only_call,
    Prog.only_ite, forall_eq]
  refine ⟨h, fun _ => ⟨fun _ hq => hq.elim, fun _ =>
    ⟨fun q hq => hq.elim (htmp q) (hreport q), fun _ => ⟨fun _ => ⟨h, fun _ => ?_⟩,
      fun _ => ?_⟩⟩⟩⟩
  · exact ⟨fun _ hq => hq.elim, fun _ => trivial⟩
  · exact ⟨fun _ hq => hq.elim, fun _ => trivial⟩

theorem within_restoreFile (hboot : ∀ q, m.boot <+: q → R q) (name : Name) :
    Within R (restoreFile m name) := by
  have hbelow : ∀ n, R (m.boot ++ [n]) :=
    fun n => hboot _ (List.prefix_append _ _)
  simp only [Within, restoreFile, access, Prog.op, Prog.call_bind, Prog.ret_bind, Prog.only_call, Prog.only_ite,
    Call.changes]
  refine ⟨fun _ hq => hq.elim, fun _ => ⟨fun _ => ?_, fun _ => trivial⟩⟩
  refine .bind (within_brCopyFile _ (hbelow _)) fun ok => ?_
  simp only [unlink, rename, Prog.op, Prog.call_bind, Prog.ret_bind,
    Prog.only_call, Prog.only_ite, forall_eq]
  exact ⟨fun _ => ⟨hbelow _, fun _ => trivial⟩, fun _ =>
    ⟨fun q hq => hboot q (hq.elim (List.prefix_append _ _).trans
      (List.prefix_append _ _).trans), fun _ =>
      ⟨fun _ => ⟨hbelow _, fun _ => trivial⟩, fun _ => trivial⟩⟩⟩

end Audiox
