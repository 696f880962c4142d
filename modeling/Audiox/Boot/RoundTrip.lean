import Audiox.Boot.Restore

/-!
# From preparing an update to reverting it

A revert that succeeds brings back the boot set that the preparation has
found, whatever happened to the boot directory in between, if and only if the
start of `config.txt` already selects the kernel of the boot set.
-/

namespace Audiox

open ByteCodec FileTree Interruptible

variable {m : Mounts} {t t₀ t₁ : Node}

/-- Any write may fail, and power may be lost anywhere. -/
abbrev badWrites : Env files :=
  (Faults.writes fun _ => False).env

/-- After a revert that does not fail, the boot set of the preparation is
back, whatever was done to anything but the backup. -/
def RestoresBootSet (m : Mounts) (t₀ t₁ : Node) : Prop :=
  ∀ t₂ t₃ failedVersion attempts r, BackupSame m t₁ t₂ →
    Exec badWrites (bootRecoveryRevert m failedVersion attempts) t₂
      (.done r t₃) →
    r ≠ -1 → Covers (bootSet m t₃) (bootSet m t₀)

/-- Where nothing fails and the boot directory has room, a revert succeeds,
and power loss finds `config.txt` replaced only after every other file. -/
def ReplacesConfigLast (m : Mounts) (t₁ : Node) : Prop :=
  ∀ t₂ failedVersion attempts o, BackupSame m t₁ t₂ → Restorable m t₂ →
    Exec Faults.powerLoss.env
      (bootRecoveryRevert m failedVersion attempts) t₂ o →
    o.Sat (fun r _ => r = 0) (ConfigLast m t₂)

/-- A revert that does not put every file of the backup in place fails; a
revert that fails keeps the trial and the whole backup, and the next boot
reverts again if the counter was exhausted. -/
def FailureKeepsBackup (m : Mounts) (t₁ : Node) : Prop :=
  ∀ t₂ t₃ failedVersion attempts r, BackupSame m t₁ t₂ →
    Exec badWrites (bootRecoveryRevert m failedVersion attempts) t₂
      (.done r t₃) →
    (¬Restored m t₂ t₃ → r = -1) ∧
    (r = -1 → BackupSame m t₁ t₃ ∧
      t₃.look m.trialPath = t₂.look m.trialPath ∧
      (Exhausted m t₂ → ∀ versionText a n t₄,
        Exec badWrites (bootRecoveryBeginBoot m versionText) t₃
          (.done (a, n) t₄) → a = .revert))

/-- What a successful preparation without a backup has left. -/
theorem exec_prepare_new {versionText : Bytes} (hno : ¬HasBackup m t₀)
    (h : Exec badWrites (bootRecoveryPrepareUpdate m versionText) t₀
      (.done true t₁)) :
    BootSame m t₀ t₁ ∧ BackupCreated m versionText t₀ t₁ := by
  have hspec := spec_prepare_new (onlyWritesFail_writes _) versionText hno _ h
  exact ⟨(hspec.2 rfl).1, (hspec.2 rfl).2.1⟩

theorem hasBackup_of_created {versionText : Bytes}
    (h : BackupCreated m versionText t₀ t₁) : HasBackup m t₁ := by
  rw [HasBackup, h.version]
  rintro ⟨⟩

/-! ## The boot set comes back -/

theorem restoresBootSet_of_kernelSeen {versionText : Bytes}
    (h : BackupCreated m versionText t₀ t₁)
    (hseen : KernelSeen (bootSet m t₀)) : RestoresBootSet m t₀ t₁ := by
  intro t₂ t₃ failedVersion attempts r hsame hexec hr n hn data hdata
  have hset : backupSet m t₂ = backupSet m t₁ := hsame.backupSet_eq
  have hyes : HasBackup m t₂ := by
    rw [HasBackup, hset]
    exact hasBackup_of_created h
  have hproper : ProperBackup (backupSet m t₂) := hset ▸ h.proper
  have hpost := spec_revert (onlyWritesFail_writes _) hproper hyes
    failedVersion attempts _ hexec
  have hmem := mem_prepareNames_of_kernelSeen hseen hn hdata
  rw [(hpost.2.2 hr).2.1 n (isBootFile_of_prepareNames hmem), hset,
    (h.files n hmem).1, hdata]
  rfl

/-- The tree without any boot file. -/
def emptyBoot (m : Mounts) (t : Node) : Node :=
  t.put m.boot (.dir [])

theorem boot_ne_nil (m : Mounts) : m.boot ≠ [] := by
  intro hnil
  exact m.boot_not_prefix (hnil ▸ List.nil_prefix)

theorem look_emptyBoot (hdir : t.look m.boot = some .dir) (q : Path) :
    (emptyBoot m t).look q =
      if q = m.boot then some .dir
      else if m.boot <+: q then none else t.look q := by
  have hparent := Node.look_dropLast (boot_ne_nil m)
    (by rw [hdir]; rintro ⟨⟩)
  rw [emptyBoot, Node.look_put (boot_ne_nil m) hparent]
  by_cases hq : m.boot <+: q
  · obtain ⟨r, rfl⟩ := hq
    rw [if_pos (List.prefix_append _ _), if_pos (List.prefix_append _ _),
      List.drop_left]
    cases r with
    | nil => simp [Node.look, Node.kind]
    | cons n r => simp [Node.look]
  · rw [if_neg hq, if_neg hq, if_neg]
    rintro rfl
    exact hq (List.prefix_refl _)

/-- A kernel that the preparation has not seen does not come back. -/
theorem kernelSeen_of_restoresBootSet {versionText : Bytes}
    (hsame : BootSame m t₀ t₁) (h : BackupCreated m versionText t₀ t₁)
    (hrestores : RestoresBootSet m t₀ t₁) : KernelSeen (bootSet m t₀) := by
  by_contra hunseen
  rw [KernelSeen, not_or] at hunseen
  obtain ⟨hother, hfile⟩ := hunseen
  obtain ⟨data, hdata⟩ := not_forall_not.mp hfile
  generalize hk : audioxConfigKernelName (configText (bootSet m t₀)) = kernel
    at hother hdata
  -- The boot directory is there, because the kernel is in it.
  have hdir : t₁.look m.boot = some .dir := by
    have hsome : t₁.look (m.boot ++ [kernel]) ≠ none := by
      rw [hsame _ (List.prefix_append _ _)]
      rw [bootSet] at hdata
      simp [hdata]
    have := Node.look_dropLast (concat_ne_nil _ _) hsome
    rwa [List.dropLast_concat] at this
  have hlook := look_emptyBoot hdir
  have hempty : ∀ n, bootSet m (emptyBoot m t₁) n = none := by
    intro n
    rw [bootSet, hlook, if_neg (by simp), if_pos (List.prefix_append _ _)]
  have hbackup : BackupSame m t₁ (emptyBoot m t₁) := by
    intro q hq
    have hroot := root_of_backup hq
    rw [hlook, if_neg (root_ne_boot hroot (List.prefix_refl _)),
      if_neg fun hb => root_ne_boot hroot hb rfl]
  have hroom : Restorable m (emptyBoot m t₁) := by
    refine ⟨by rw [hlook, if_pos rfl], fun n => ?_, fun n => .inl ?_⟩
    · rw [hempty]
      rintro ⟨⟩
    · rw [hlook, if_neg (by simp), if_pos (List.prefix_append _ _)]
  have hset : backupSet m (emptyBoot m t₁) = backupSet m t₁ :=
    hbackup.backupSet_eq
  have hyes : HasBackup m (emptyBoot m t₁) := by
    rw [HasBackup, hset]
    exact hasBackup_of_created h
  have hproper : ProperBackup (backupSet m (emptyBoot m t₁)) :=
    hset ▸ h.proper
  obtain ⟨r, t₃, hexec⟩ := exec_calm (bootRecoveryRevert m [] 0)
    (emptyBoot m t₁)
  have hr : r = 0 := revert_works calm_calm.onlyWritesFail calm_calm hproper hyes hroom [] 0 _ hexec
  have hr' : r ≠ -1 := by
    rw [hr]
    decide
  have hrevert := spec_revert calm_calm.onlyWritesFail hproper hyes [] 0 _ hexec
  have hrestored := (hrevert.2.2 hr').2.1
  have hvalid : audioxUpdateValidKernelName kernel :=
    hk ▸ validKernelName_config _
  have hboot : bootRecoveryIsBootFile kernel := by
    simp [bootRecoveryIsBootFile, hvalid]
  -- The kernel is not in the backup.
  have hmissing : backupSet m t₁ kernel = none := by
    apply h.others
    · rintro rfl
      exact not_isBootFile_version hboot
    · rw [prepareNames, List.mem_append, List.mem_singleton, not_or]
      have hfixed : ∀ n ∈ bootRecoveryFileNames,
          ¬audioxUpdateValidKernelName n := by decide
      exact ⟨fun hmem => hfixed _ hmem hvalid, fun heq => hother heq.symm⟩
  have hcovers := hrestores _ _ _ _ _ hbackup (exec_writes_of_calm hexec) hr'
  have hback := hcovers kernel (by simp [bootNames, hk]) data hdata
  rw [hrestored kernel hboot, hset, hmissing, hempty] at hback
  cases hback

/-! ## Order and failure -/

theorem replacesConfigLast {versionText : Bytes}
    (h : BackupCreated m versionText t₀ t₁) : ReplacesConfigLast m t₁ := by
  intro t₂ failedVersion attempts o hsame hroom hexec
  have hset : backupSet m t₂ = backupSet m t₁ := hsame.backupSet_eq
  have hyes : HasBackup m t₂ := by
    rw [HasBackup, hset]
    exact hasBackup_of_created h
  exact revert_works calm_powerLoss.onlyWritesFail calm_powerLoss (hset ▸ h.proper)
    hyes hroom failedVersion attempts o hexec

theorem failureKeepsBackup {versionText : Bytes}
    (h : BackupCreated m versionText t₀ t₁) : FailureKeepsBackup m t₁ := by
  intro t₂ t₃ failedVersion attempts r hsame hexec
  have hF := onlyWritesFail_writes fun _ => False
  have hset : backupSet m t₂ = backupSet m t₁ := hsame.backupSet_eq
  have hyes : HasBackup m t₂ := by
    rw [HasBackup, hset]
    exact hasBackup_of_created h
  have hpost := spec_revert hF (hset ▸ h.proper) hyes failedVersion attempts _
    hexec
  have hcounter := spec_revert_counter failedVersion attempts _ hexec
  refine ⟨fun hnot => ?_, fun hr => ⟨hsame.trans (hpost.2.1 hr), ?_, ?_⟩⟩
  · by_contra hr
    exact hnot (hpost.2.2 hr).2.1
  · exact (hcounter.1 hr).1
  · intro hex versionText' a n t₄ hbegin
    have hex₃ : Exhausted m t₃ := exhausted_of_same (hcounter.1 hr).1 hex
    have hstep : CounterStep m t₃ (.began a) t₄ := by
      have hb := spec_beginBoot hF versionText' _ hbegin
      exact .began hb.1 hb.2
    exact (counterStep_exhausted hstep hex₃ (by simp [BootEvent.endsRevert])
      (by simp [BootEvent.isConfirm])).2 a rfl

/-- The preparation of a fresh system without any failure. -/
def preparedSystem : Outcome Bool Node :=
  drive (failingAt []) (fun _ _ _ => false)
    (bootRecoveryPrepareUpdate systemMounts (ascii "1.0\n")) 0 freshSystem

theorem exec_preparedSystem :
    Exec badWrites
      (bootRecoveryPrepareUpdate systemMounts (ascii "1.0\n")) freshSystem
      (.done true preparedSystem.state) := by
  have hexec : Exec badWrites
      (bootRecoveryPrepareUpdate systemMounts (ascii "1.0\n")) freshSystem
      preparedSystem :=
    exec_drive (M := files) (failingAt_writes [])
      (fun _ _ _ _ => trivial) _ 0 freshSystem
  have hdone : preparedSystem.result? = some true := by decide
  rwa [Outcome.eq_done hdone] at hexec

/-- A configuration that starts with a comment as long as the buffer. -/
def largeConfig : Bytes :=
  List.replicate prepareConfigSize (chr '#') ++
    chr '\n' :: ascii "kernel=kernel7.img\n"

def largeSystem : Node :=
  .dir [(ascii "audiox", .dir []),
    (ascii "mnt", .dir [(ascii "boot", .dir
      [(configName, .file largeConfig),
        (ascii "kernel7.img", .file [7])])])]

theorem kernel_of_comment (n : Nat) :
    audioxConfigKernelName (List.replicate (n + 1) (chr '#')) =
      audioxUpdateDefaultKernel := by
  have hline : chr '\n' ∉ List.replicate (n + 1) (chr '#') := by
    rw [List.mem_replicate]
    exact fun h => absurd h.2 (by decide)
  rw [audioxConfigKernelName, lines_last hline (by simp)]
  simp [List.replicate_succ, kernelLineValue_comment]

theorem kernel_of_largeConfig :
    audioxConfigKernelName largeConfig = ascii "kernel7.img" := by
  have hline : chr '\n' ∉ List.replicate prepareConfigSize (chr '#') := by
    rw [List.mem_replicate]
    exact fun h => absurd h.2 (by decide)
  have hcomment : kernelLineValue (List.replicate prepareConfigSize (chr '#'))
      = none := by
    rw [show prepareConfigSize = 16383 + 1 from rfl, List.replicate_succ,
      kernelLineValue_comment]
  rw [audioxConfigKernelName, largeConfig, lines_line_append hline,
    List.findSome?_cons, hcomment]
  decide

theorem largeConfig_take :
    largeConfig.take (prepareConfigSize - 1) =
      List.replicate (16382 + 1) (chr '#') := by
  have hlength : prepareConfigSize - 1 ≤
      (List.replicate prepareConfigSize (chr '#')).length := by
    rw [List.length_replicate]
    exact Nat.sub_le _ _
  rw [largeConfig, List.take_append_of_le_length hlength, List.take_replicate]
  rfl

end Audiox
