import Audiox.Boot.Restore
import Audiox.Support.Runs

/-!
# Completeness of the backup

Runs of the recovery operations in which power may be lost in front of any
file-system call.  While a backup is there it holds every file of a boot set
that was confirmed, provided that the removal of a backup is not cut short in
front of its version file, and that a new backup takes in the kernel of the
confirmed set.
-/

namespace Audiox

open ByteCodec FileTree Interruptible Runs

variable {m : Mounts} {t t' : Node}

/-! ## Runs -/

/-- The device: its files, whether an update was prepared since the last
`BeginBoot`, and the boot sets confirmed so far. -/
structure Device where
  tree : Node
  armed : Bool
  good : List FileSet

/-- A device without a backup, whose boot set counts as confirmed. -/
def Device.start (m : Mounts) (t : Node) : Device where
  tree := t
  armed := false
  good := [bootSet m t]

/-- What a run is restricted to: where a removal of the backup that began at
the first tree may lose power, and when a backup may be made. -/
structure Limits where
  cut : Node → Node → Prop
  backup : Device → Prop

def Limits.removal (L : Limits) (t : Node) : Faults where
  mayFail c := c.makesTemp
  mayLose _ s := L.cut t s

inductive BackupEvent where
  | prepare (versionText : Bytes)
  | replace
  | elsewhere
  | beginBoot (versionText : Bytes)
  | confirm
  | revert (failedVersion : Bytes) (attempts : Nat)
deriving DecidableEq

/-- The steps of a device.  Boot files are replaced by the updater behind a
successful `PrepareUpdate`, at the latest by the boot loader in front of
`BeginBoot`; the runtime leaves the trial to the next boot if an update was
prepared since. -/
inductive BackupStep (m : Mounts) (L : Limits) :
    Device → BackupEvent → Device → Prop where
  | prepare {d : Device} {versionText : Bytes} {o : Outcome Bool Node} :
      (¬HasBackup m d.tree → L.backup d) →
      Exec Faults.powerLoss.env (bootRecoveryPrepareUpdate m versionText)
        d.tree o →
      BackupStep m L d (.prepare versionText)
        { d with
          tree := o.state
          armed := d.armed || o.result? == some true }
  | replace {d : Device} {t' : Node} :
      d.armed → BackupSame m d.tree t' →
      BackupStep m L d .replace { d with tree := t' }
  | elsewhere {d : Device} {t' : Node} :
      SetsSame m d.tree t' →
      BackupStep m L d .elsewhere { d with tree := t' }
  | beginBoot {d : Device} {versionText : Bytes}
      {o : Outcome (BootTrialAction × Option Nat) Node} :
      Exec Faults.powerLoss.env (bootRecoveryBeginBoot m versionText)
        d.tree o →
      BackupStep m L d (.beginBoot versionText)
        { d with tree := o.state, armed := false }
  | confirm {d : Device} {o : Outcome Unit Node} :
      d.armed = false →
      Exec (L.removal d.tree).env (bootRecoveryConfirm m) d.tree o →
      BackupStep m L d .confirm
        { d with tree := o.state, good := bootSet m d.tree :: d.good }
  | revert {d : Device} {failedVersion : Bytes} {attempts : Nat}
      {o : Outcome Int Node} :
      d.armed = false →
      Exec (L.removal d.tree).env
        (bootRecoveryRevert m failedVersion attempts) d.tree o →
      BackupStep m L d (.revert failedVersion attempts)
        { d with tree := o.state }

/-! ## What is promised -/

/-- A backup holds every file of a confirmed boot set. -/
def BackupWhole (m : Mounts) (d : Device) : Prop :=
  HasBackup m d.tree → ∃ G ∈ d.good, Covers (backupSet m d.tree) G

/-- A revert to a backup brings every file of a confirmed boot set back. -/
def RevertWhole (m : Mounts) (d : Device) : Prop :=
  HasBackup m d.tree → ∀ failedVersion attempts r t',
    Exec Faults.powerLoss.env (bootRecoveryRevert m failedVersion attempts)
      d.tree (.done r t') →
    r ≠ -1 → ∃ G ∈ d.good, Covers (bootSet m t') G

def BackupContract (m : Mounts) (L : Limits) : Prop :=
  ∀ t es d, ¬HasBackup m t →
    Run (BackupStep m L) (Device.start m t) es d →
    BackupWhole m d ∧ RevertWhole m d

/-- Power may be lost anywhere, and a backup made at any time. -/
def anyLoss : Limits where
  cut _ _ := True
  backup _ := True

/-- An entry of the backup has been removed, but the version file has not. -/
def RemovalBegun (m : Mounts) (t t' : Node) : Prop :=
  HasBackup m t' ∧ ∃ n, backupSet m t n ≠ none ∧ backupSet m t' n = none

/-- Every file of the second set is among those that a backup of the first
one takes in. -/
def TakesIn (s G : FileSet) : Prop :=
  ∀ n ∈ bootNames G, ∀ data, G n = some (.file data) → n ∈ prepareNames s

def careful (m : Mounts) : Limits where
  cut t t' := ¬RemovalBegun m t t'
  backup d := ∀ G ∈ d.good, Covers (bootSet m d.tree) G →
    TakesIn (bootSet m d.tree) G

/-! ## The invariant -/

/-- While there is no backup, the boot set holds a confirmed one. -/
structure Safe (m : Mounts) (d : Device) : Prop where
  backup : HasBackup m d.tree → ProperBackup (backupSet m d.tree) ∧
    ∃ G ∈ d.good, Covers (backupSet m d.tree) G
  boot : ¬HasBackup m d.tree →
    d.armed = false ∧ ∃ G ∈ d.good, Covers (bootSet m d.tree) G

theorem Covers.refl (s : FileSet) : Covers s s :=
  fun _ _ _ => id

theorem safe_start (hno : ¬HasBackup m t) : Safe m (Device.start m t) :=
  ⟨fun h => absurd h hno,
    fun _ => ⟨rfl, _, List.mem_singleton_self _, .refl _⟩⟩

theorem hasBackup_iff_of_same (h : BackupSame m t t') :
    HasBackup m t' ↔ HasBackup m t := by
  rw [HasBackup, h.backupSet_eq, HasBackup]

/-- A step that keeps both sets keeps the device safe. -/
theorem Safe.of_sets {d : Device} (h : Safe m d) (hsets : SetsSame m d.tree t')
    {armed : Bool} (harmed : armed → d.armed) :
    Safe m { d with tree := t', armed := armed } := by
  have hiff := hasBackup_iff_of_same hsets.2
  constructor
  · intro hyes
    have hkeep := h.backup (hiff.mp hyes)
    rwa [← hsets.2.backupSet_eq] at hkeep
  · intro hno
    obtain ⟨hidle, hcovers⟩ := h.boot fun hyes => hno (hiff.mpr hyes)
    rw [← hsets.1.bootSet_eq] at hcovers
    refine ⟨?_, hcovers⟩
    rw [hidle] at harmed
    simpa using harmed

/-- With a backup, only the backup matters. -/
theorem Safe.of_backup {d : Device} (h : Safe m d)
    (hyes : HasBackup m d.tree)
    (hset : backupSet m t' = backupSet m d.tree) {armed : Bool}
    {good : List FileSet} (hgood : ∀ G ∈ d.good, G ∈ good) :
    Safe m { tree := t', armed := armed, good := good } := by
  have hyes' : HasBackup m t' := by
    rw [HasBackup, hset]
    exact hyes
  obtain ⟨hproper, G, hG, hcovers⟩ := h.backup hyes
  refine ⟨fun _ => ?_, fun hno => absurd hyes' hno⟩
  rw [hset]
  exact ⟨hproper, G, hgood G hG, hcovers⟩

theorem Covers.of_restored {b G : FileSet} (h : Covers b G)
    (hb : backupSet m t = b) (hrest : Restored m t t') :
    Covers (bootSet m t') G := by
  intro n hn data hdata
  have hboot : bootRecoveryIsBootFile n := by
    rw [bootNames, List.mem_append, List.mem_singleton] at hn
    rcases hn with hfixed | rfl
    · simp [bootRecoveryIsBootFile, hfixed]
    · simp [bootRecoveryIsBootFile, validKernelName_config]
  rw [hrest n hboot, hb, h n hn data hdata]
  rfl

/-! ## The steps -/

theorem safe_prepare {d : Device} (h : Safe m d) {versionText : Bytes}
    {o : Outcome Bool Node}
    (hbackup : ¬HasBackup m d.tree → (careful m).backup d)
    (hexec : Exec Faults.powerLoss.env
      (bootRecoveryPrepareUpdate m versionText) d.tree o) :
    Safe m { d with
      tree := o.state
      armed := d.armed || o.result? == some true } := by
  have hF : OnlyWritesFail Faults.powerLoss :=
    calm_powerLoss.onlyWritesFail
  by_cases hyes : HasBackup m d.tree
  · have hspec := (spec_prepare_keep hF versionText hyes).mono
      (fun _ _ h' => h'.1) fun _ => id
    have hsets : SetsSame m d.tree o.state := (hspec o hexec).state
    exact h.of_backup hyes hsets.2.backupSet_eq fun _ => id
  · obtain ⟨hidle, G, hG, hcovers⟩ := h.boot hyes
    have htakes := hbackup hyes G hG hcovers
    have hcreated : BootSame m d.tree o.state →
        BackupCreated m versionText d.tree o.state → ∀ armed,
        Safe m { d with tree := o.state, armed := armed } := by
      intro _ hnew armed
      refine ⟨fun _ => ⟨hnew.proper, G, hG, fun n hn data hdata => ?_⟩,
        fun hno => absurd (by rw [HasBackup, hnew.version]; rintro ⟨⟩) hno⟩
      rw [(hnew.files n (htakes n hn data hdata)).1]
      exact hcovers n hn data hdata
    have hnone : NoBackupYet m d.tree o.state →
        Safe m { d with tree := o.state, armed := false } := by
      intro hnot
      refine ⟨fun hyes' => absurd hyes' hnot.2, fun _ => ⟨rfl, G, hG, ?_⟩⟩
      rw [hnot.1.bootSet_eq]
      exact hcovers
    have hspec := spec_prepare_new hF versionText hyes o hexec
    cases o with
    | done ok t' =>
        cases ok with
        | true =>
            obtain ⟨hboot, hnew, -⟩ := hspec.2 rfl
            exact hcreated hboot hnew _
        | false =>
            rcases hspec.1 with hnot | ⟨hboot, hnew⟩
            · simpa [hidle, Outcome.result?] using hnone hnot
            · exact hcreated hboot hnew _
    | lost t' =>
        rcases hspec with hnot | ⟨hboot, hnew⟩
        · simpa [hidle, Outcome.result?] using hnone hnot
        · exact hcreated hboot hnew _

theorem spec_beginBoot_sets {F : Faults} (versionText : Bytes) :
    Spec F.env (bootRecoveryBeginBoot m versionText) t
      (fun _ => SetsSame m t) (SetsSame m t) :=
  spec_besideSets (within_beginBoot
    (fun _ => besideSets_of_sibling (by decide))
    (fun _ => besideSets_of_sibling (by decide))
    (besideSets_of_sibling (by decide) (List.prefix_refl _)) versionText)

/-- Where a removal has kept the version file it has kept the backup. -/
theorem backupSet_of_uncut (hdrop : ∀ n, backupSet m t' n = backupSet m t n ∨
    backupSet m t' n = none) (hyes : HasBackup m t')
    (hcut : (careful m).cut t t') : backupSet m t' = backupSet m t := by
  funext n
  rcases hdrop n with hsame | hnone
  · exact hsame
  · by_cases hthere : backupSet m t n = none
    · rw [hnone, hthere]
    · exact absurd ⟨hyes, n, hthere, hnone⟩ hcut

theorem hasBackup_of_drop (hdrop : ∀ n, backupSet m t' n = backupSet m t n ∨
    backupSet m t' n = none) (hyes : HasBackup m t') : HasBackup m t := by
  rcases hdrop versionName with hsame | hnone
  · rw [HasBackup, ← hsame]
    exact hyes
  · exact absurd hnone hyes

theorem calm_removal (t : Node) : Calm ((careful m).removal t) :=
  fun _ => id

theorem safe_confirm {d : Device} (h : Safe m d) (hidle : d.armed = false)
    {o : Outcome Unit Node}
    (hexec : Exec ((careful m).removal d.tree).env (bootRecoveryConfirm m)
      d.tree o) :
    Safe m { d with
      tree := o.state, good := bootSet m d.tree :: d.good } := by
  have hdropping : Dropping m d.tree o.state :=
    (spec_clearTrial m d.tree o hexec).state
  by_cases hyes : HasBackup m o.state
  · have hyes₀ := hasBackup_of_drop hdropping.2 hyes
    refine h.of_backup hyes₀ ?_ fun _ => List.mem_cons_of_mem _
    cases o with
    | lost t' =>
        obtain ⟨_, hcut⟩ := spec_loses _ _ hexec
        exact backupSet_of_uncut hdropping.2 hyes hcut
    | done a t' =>
        have hfiles : ∀ n, backupSet m d.tree n ≠ some .dir := by
          intro n
          rcases (h.backup hyes₀).1.2 n with hnone | ⟨data, hdata⟩
          · rw [hnone]
            rintro ⟨⟩
          · rw [hdata]
            rintro ⟨⟩
        have hgone := clearTrial_works (calm_removal _) hfiles _ hexec
        exact absurd (hgone versionName) hyes
  · refine ⟨fun hyes' => absurd hyes' hyes, fun _ =>
      ⟨hidle, _, List.mem_cons_self, ?_⟩⟩
    rw [hdropping.1.bootSet_eq]
    exact .refl _

theorem safe_revert {d : Device} (h : Safe m d) (hidle : d.armed = false)
    {failedVersion : Bytes} {attempts : Nat} {o : Outcome Int Node}
    (hexec : Exec ((careful m).removal d.tree).env
      (bootRecoveryRevert m failedVersion attempts) d.tree o) :
    Safe m { d with tree := o.state } := by
  have hF : OnlyWritesFail ((careful m).removal d.tree) :=
    (calm_removal _).onlyWritesFail
  by_cases hyes : HasBackup m d.tree
  · obtain ⟨hproper, G, hG, hcovers⟩ := h.backup hyes
    have hspec := spec_revert hF hproper hyes failedVersion attempts o hexec
    have hpost : RevertPost m d.tree o.state := by
      cases o with
      | done r t' => exact hspec.1
      | lost t' => exact hspec
    by_cases hyes' : HasBackup m o.state
    · refine h.of_backup hyes ?_ fun _ => id
      cases o with
      | lost t' =>
          obtain ⟨_, hcut⟩ := spec_loses _ _ hexec
          exact backupSet_of_uncut hpost.backup hyes' hcut
      | done r t' =>
          by_cases hr : r = -1
          · exact (hspec.2.1 hr).backupSet_eq
          · have hgone := (hspec.2.2 hr).2.2 (calm_removal _) versionName
            exact absurd hgone hyes'
    · refine ⟨fun h' => absurd h' hyes', fun _ => ⟨hidle, G, hG, ?_⟩⟩
      rcases hpost.whole with hsame | hrest
      · exact absurd ((hasBackup_iff_of_same hsame).mpr hyes) hyes'
      · exact hcovers.of_restored rfl hrest
  · have hdropping : Dropping m d.tree o.state :=
      (spec_revert_none hF hyes failedVersion attempts o hexec).state
    have hyes' : ¬HasBackup m o.state :=
      fun h' => hyes (hasBackup_of_drop hdropping.2 h')
    refine ⟨fun h' => absurd h' hyes', fun _ => ?_⟩
    rw [hdropping.1.bootSet_eq]
    exact h.boot hyes

theorem safe_step {d d' : Device} {e : BackupEvent} (h : Safe m d)
    (hstep : BackupStep m (careful m) d e d') : Safe m d' := by
  cases hstep with
  | prepare hbackup hexec => exact safe_prepare h hbackup hexec
  | replace harmed hsame =>
      have hyes : HasBackup m d.tree := by
        by_contra hno
        rw [(h.boot hno).1] at harmed
        cases harmed
      exact h.of_backup hyes hsame.backupSet_eq fun _ => id
  | elsewhere hsets => exact h.of_sets hsets id
  | beginBoot hexec =>
      exact h.of_sets (spec_beginBoot_sets _ _ hexec).state (by rintro ⟨⟩)
  | confirm hidle hexec => exact safe_confirm h hidle hexec
  | revert hidle hexec => exact safe_revert h hidle hexec

theorem revertWhole_of_safe {d : Device} (h : Safe m d) : RevertWhole m d := by
  intro hyes failedVersion attempts r t' hexec hr
  obtain ⟨hproper, G, hG, hcovers⟩ := h.backup hyes
  have hspec := spec_revert calm_powerLoss.onlyWritesFail hproper hyes
    failedVersion attempts _ hexec
  exact ⟨G, hG, hcovers.of_restored rfl (hspec.2.2 hr).2.1⟩

/-- In a careful run every backup is a complete copy of a confirmed boot set,
and every revert that succeeds brings one back. -/
theorem backup_complete (m : Mounts) : BackupContract m (careful m) := by
  intro t es d hno hrun
  have hsafe : Safe m d :=
    hrun.invariant (Safe m) (P := fun _ => True)
      (fun _ _ _ _ hI hstep => safe_step hI hstep) (fun _ _ => trivial)
      (safe_start hno)
  exact ⟨fun hyes => (hsafe.backup hyes).2, revertWhole_of_safe hsafe⟩

/-! ## A removal that is cut short -/

/-- Every call works; the entries of a directory are read in the order in
which they were made. -/
def oldestFirst (k : Nat) (c : Call) (t : Node) : Answer :=
  match c with
  | .readdir p => .order (t.names p).reverse
  | c => failingAt [] k c t

theorem oldestFirst_powerLoss (k : Nat) (c : Call) (t : Node) :
    Faults.powerLoss.env.allows c (oldestFirst k c t) t := by
  cases c with
  | readdir p => exact .inl ⟨_, rfl, List.reverse_perm _⟩
  | _ => exact failingAt_powerLoss k _ t

/-- An operation on which no call fails, cut in front of the given call. -/
def lossAt {α : Type} (call : Option Nat) (p : Prog files α) (t : Node) :
    Outcome α Node :=
  drive oldestFirst (fun k _ _ => call == some k) p 0 t

theorem exec_lossAt {α : Type} (call : Option Nat) (p : Prog files α)
    (t : Node) : Exec Faults.powerLoss.env p t (lossAt call p t) :=
  exec_drive (M := files) oldestFirst_powerLoss (fun _ _ _ _ => trivial) p 0 t

/-- A fresh system on which an update was prepared and booted. -/
def triedSystem : Node :=
  (lossAt none (bootRecoveryBeginBoot systemMounts (ascii "1.1"))
    (lossAt none (bootRecoveryPrepareUpdate systemMounts (ascii "1.0"))
      freshSystem).state).state

/-- The power goes once `config.txt` is removed from the backup. -/
def cutSystem : Node :=
  (lossAt (some 4) (bootRecoveryConfirm systemMounts) triedSystem).state

theorem cutSystem_backup :
    backupSet systemMounts cutSystem configName = none ∧
      HasBackup systemMounts cutSystem := by
  unfold HasBackup
  decide

/-- A confirmation cut short leaves part of a backup that counts as one. -/
theorem backup_incomplete : ¬BackupContract systemMounts anyLoss := by
  intro hclaim
  have hno : ¬HasBackup systemMounts freshSystem := not_not.mpr rfl
  have hrun : Run (BackupStep systemMounts anyLoss)
      (Device.start systemMounts freshSystem)
      [.prepare (ascii "1.0"), .beginBoot (ascii "1.1"), .confirm]
      ⟨cutSystem, false,
        [bootSet systemMounts triedSystem, bootSet systemMounts freshSystem]⟩ :=
    .cons (.prepare (fun _ => trivial) (exec_lossAt none _ _))
      (.cons (.beginBoot (exec_lossAt none _ _))
        (.cons (.confirm rfl (exec_lossAt (some 4) _ _)) (.nil _)))
  obtain ⟨hmissing, hyes⟩ := cutSystem_backup
  obtain ⟨G, hG, hcovers⟩ := (hclaim _ _ _ hno hrun).1 hyes
  have hconfig : G configName = some (.file (ascii "arm_64bit=1\n")) := by
    rw [List.mem_cons, List.mem_singleton] at hG
    rcases hG with rfl | rfl
    · decide
    · decide
  have hboot : configName ∈ bootNames G := by
    rw [bootNames, List.mem_append]
    exact .inl (by decide)
  have hkept := hcovers configName hboot _ hconfig
  rw [hmissing] at hkept
  cases hkept

end Audiox
