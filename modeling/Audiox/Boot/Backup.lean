import Audiox.Boot.FileOps

/-!
# The backup of a boot set

What `PrepareUpdate` copies: the four boot files with a fixed name and the
kernel that the start of `config.txt` selects.  The backup appears under its
name in one step, complete, and the boot files are not touched.
-/

namespace Audiox

open ByteCodec FileTree Interruptible

variable {m : Mounts} {F : Faults} {t t' : Node}

/-! ## Boot sets -/

/-- The entries of a directory, by name. -/
abbrev FileSet := Name → Option Entry

def bootSet (m : Mounts) (t : Node) : FileSet :=
  fun n => t.look (m.boot ++ [n])

def backupSet (m : Mounts) (t : Node) : FileSet :=
  fun n => t.look (m.backupDir ++ [n])

/-- The text of `config.txt`, empty if there is no such file. -/
def configText (s : FileSet) : Bytes :=
  match s configName with
  | some (.file text) => text
  | _ => []

/-- The files that a boot set consists of. -/
def bootNames (s : FileSet) : List Name :=
  bootRecoveryFileNames ++ [audioxConfigKernelName (configText s)]

/-- The files that are copied to the backup. -/
def prepareNames (s : FileSet) : List Name :=
  bootRecoveryFileNames ++
    [audioxConfigKernelName ((configText s).take (prepareConfigSize - 1))]

def HasBackup (m : Mounts) (t : Node) : Prop :=
  backupSet m t versionName ≠ none

/-- Every file of the second set is in the first one, byte for byte. -/
def Covers (a s : FileSet) : Prop :=
  ∀ n ∈ bootNames s, ∀ data, s n = some (.file data) →
    a n = some (.file data)

/-- Every file of the boot set is among those that are copied. -/
def KernelSeen (s : FileSet) : Prop :=
  audioxConfigKernelName ((configText s).take (prepareConfigSize - 1)) =
      audioxConfigKernelName (configText s) ∨
    ∀ data, s (audioxConfigKernelName (configText s)) ≠ some (.file data)

theorem isBootFile_of_prepareNames {s : FileSet} {n : Name}
    (h : n ∈ prepareNames s) : bootRecoveryIsBootFile n := by
  rw [prepareNames, List.mem_append, List.mem_singleton] at h
  rcases h with hfixed | rfl
  · simp [bootRecoveryIsBootFile, hfixed]
  · simp [bootRecoveryIsBootFile, validKernelName_config]

theorem not_isBootFile_version : ¬bootRecoveryIsBootFile versionName := by
  decide

theorem version_notMem_prepareNames (s : FileSet) :
    versionName ∉ prepareNames s := fun h =>
  not_isBootFile_version (isBootFile_of_prepareNames h)

theorem mem_prepareNames_of_kernelSeen {s : FileSet} (h : KernelSeen s)
    {n : Name} (hn : n ∈ bootNames s) {data : Bytes}
    (hdata : s n = some (.file data)) : n ∈ prepareNames s := by
  rw [bootNames, List.mem_append, List.mem_singleton] at hn
  rw [prepareNames, List.mem_append, List.mem_singleton]
  rcases hn with hfixed | rfl
  · exact .inl hfixed
  · rcases h with hsame | hnone
    · exact .inr hsame.symm
    · exact absurd hdata (hnone data)

/-! ## The two partitions -/

theorem root_ne_boot {q r : Path} (hq : m.root <+: q) (hr : m.boot <+: r) :
    q ≠ r := by
  rintro rfl
  obtain ⟨s, rfl⟩ := hq
  exact m.boot_ne hr rfl

theorem root_prefix_state (p : Path) : m.root <+: m.stateDir ++ p := by
  rw [Mounts.stateDir, List.append_assoc]
  exact List.prefix_append _ _

theorem root_prefix_backupTmp (p : Path) : m.root <+: m.backupTmpDir ++ p := by
  rw [Mounts.backupTmpDir, List.append_assoc]
  exact root_prefix_state _

theorem root_prefix_backup (p : Path) : m.root <+: m.backupDir ++ p := by
  rw [Mounts.backupDir, List.append_assoc]
  exact root_prefix_state _

theorem backupTmp_not_prefix : ¬m.backupTmpDir <+: m.backupDir := by
  rw [Mounts.backupTmpDir, Mounts.backupDir, List.prefix_append_right_inj]
  decide

theorem backupTmp_ne_backup {n k : Name} :
    m.backupTmpDir ++ [n] ≠ m.backupDir ++ [k] := by
  simp only [Mounts.backupTmpDir, Mounts.backupDir, List.append_assoc, ne_eq,
    List.append_cancel_left_eq, List.singleton_append, List.cons.injEq]
  exact fun h => absurd h.1 (by decide)

/-- The backup is untouched by what is in the temporary directory. -/
theorem not_backupTmp_prefix_backup (p : Path) :
    ¬m.backupTmpDir <+: m.backupDir ++ p := by
  rw [Mounts.backupTmpDir, Mounts.backupDir, List.append_assoc,
    List.prefix_append_right_inj, List.singleton_append,
    List.cons_prefix_cons]
  exact fun h => absurd h.1 (by decide)

/-- A change within the configuration partition keeps the boot set. -/
def BootSame (m : Mounts) (t t' : Node) : Prop :=
  ∀ q, m.boot <+: q → t'.look q = t.look q

theorem BootSame.trans {t'' : Node} (h : BootSame m t t')
    (h' : BootSame m t' t'') : BootSame m t t'' :=
  fun q hq => (h' q hq).trans (h q hq)

theorem BootSame.bootSet_eq (h : BootSame m t t') :
    bootSet m t' = bootSet m t :=
  funext fun _ => h _ (List.prefix_append _ _)

theorem bootSame_of_root {R : Path → Prop} (hR : ∀ q, R q → m.root <+: q)
    (h : ∀ q, ¬R q → t'.look q = t.look q) : BootSame m t t' :=
  fun q hq => h q fun hr => root_ne_boot (hR q hr) hq rfl

/-! ## Creating a backup -/

/-- The backup is a complete copy of the files to be copied. -/
structure BackupCreated (m : Mounts) (versionText : Bytes)
    (t t' : Node) : Prop where
  version : backupSet m t' versionName =
    some (.file (textOr versionText (ascii "unknown\n")))
  files : ∀ n ∈ prepareNames (bootSet m t),
    backupSet m t' n = bootSet m t n ∧
      (bootSet m t n = none ∨ ∃ data, bootSet m t n = some (.file data))
  others : ∀ n, n ≠ versionName → n ∉ prepareNames (bootSet m t) →
    backupSet m t' n = none

theorem BackupCreated.covers {versionText : Bytes}
    (h : BackupCreated m versionText t t')
    (hseen : KernelSeen (bootSet m t)) :
    Covers (backupSet m t') (bootSet m t) := by
  intro n hn data hdata
  rw [(h.files n (mem_prepareNames_of_kernelSeen hseen hn hdata)).1, hdata]

theorem BackupCreated.file {versionText : Bytes}
    (h : BackupCreated m versionText t t') (n : Name) :
    backupSet m t' n = none ∨ ∃ data, backupSet m t' n = some (.file data) := by
  by_cases hv : n = versionName
  · exact .inr ⟨_, hv ▸ h.version⟩
  · by_cases hn : n ∈ prepareNames (bootSet m t)
    · rw [(h.files n hn).1]
      exact (h.files n hn).2
    · exact .inl (h.others n hv hn)

/-- While the backup is being made: the named files are in the temporary
directory and nothing else is. -/
structure Copying (m : Mounts) (t₀ : Node) (done : List Name)
    (t : Node) : Prop where
  boot : BootSame m t₀ t
  nobackup : ¬HasBackup m t
  copied : ∀ n ∈ done,
    t.look (m.backupTmpDir ++ [n]) = bootSet m t₀ n ∧
      (bootSet m t₀ n = none ∨ ∃ data, bootSet m t₀ n = some (.file data))
  others : ∀ n, n ∉ done → t.look (m.backupTmpDir ++ [n]) = none

/-- Until the backup is there, there is none, and the boot set is as it was. -/
def NoBackupYet (m : Mounts) (t₀ t : Node) : Prop :=
  BootSame m t₀ t ∧ ¬HasBackup m t

theorem Copying.noBackupYet {done : List Name} {t₀ : Node}
    (h : Copying m t₀ done t) : NoBackupYet m t₀ t :=
  ⟨h.boot, h.nobackup⟩

/-- Changes in the temporary directory do not matter. -/
theorem NoBackupYet.tmp {t₀ : Node} (h : NoBackupYet m t₀ t)
    (h' : ∀ q, ¬m.backupTmpDir <+: q → t'.look q = t.look q) :
    NoBackupYet m t₀ t' := by
  constructor
  · have hroot : ∀ q, m.backupTmpDir <+: q → m.root <+: q := by
      intro q hq
      have := root_prefix_backupTmp (m := m) []
      rw [List.append_nil] at this
      exact this.trans hq
    exact h.1.trans (bootSame_of_root hroot h')
  · rw [HasBackup, backupSet, h' _ (not_backupTmp_prefix_backup _)]
    exact h.2

theorem noBackupYet_shrunk {t₀ : Node} (h : NoBackupYet m t₀ t)
    {dir : Path} (hdir : ∀ q, dir <+: q → m.root <+: q)
    (h' : Shrunk dir t t') : NoBackupYet m t₀ t' := by
  refine ⟨h.1.trans (bootSame_of_root hdir h'.1), ?_⟩
  intro hsome
  rcases h'.2 (m.backupDir ++ [versionName]) with hsame | hnone
  · exact h.2 (by rwa [HasBackup, backupSet, ← hsame])
  · exact hsome hnone

theorem backupTmpDir_ne_nil : m.backupTmpDir ≠ [] := concat_ne_nil _ _

theorem backupDir_ne_nil : m.backupDir ≠ [] := concat_ne_nil _ _

theorem root_of_backupTmp {q : Path} (h : m.backupTmpDir <+: q) :
    m.root <+: q := by
  obtain ⟨r, rfl⟩ := h
  exact root_prefix_backupTmp r

theorem root_of_backup {q : Path} (h : m.backupDir <+: q) : m.root <+: q := by
  obtain ⟨r, rfl⟩ := h
  exact root_prefix_backup r

/-- A failed attempt removes the temporary directory. -/
theorem spec_dropBackupTmp {t₀ : Node} (h : NoBackupYet m t₀ t) :
    Spec F.env (do brRemoveFlatDir m.backupTmpDir; pure false) t
      (fun ok t' => ok = false ∧ NoBackupYet m t₀ t') (NoBackupYet m t₀) := by
  rw [spec_bind]
  have hkeep : ∀ t', Shrunk m.backupTmpDir t t' → NoBackupYet m t₀ t' :=
    fun t' => noBackupYet_shrunk h fun q => root_of_backupTmp
  refine (spec_brRemoveFlatDir backupTmpDir_ne_nil t).mono
    (fun _ t' h' => ?_) hkeep
  simpa using hkeep t' h'

/-- One file is copied. -/
theorem spec_backupFile {t₀ : Node} {done : List Name} {name : Name}
    (hF : OnlyWritesFail F) (h : Copying m t₀ done t) (hname : name ∉ done) :
    Spec F.env (backupFile m name) t
      (fun ok t' => if ok then Copying m t₀ (name :: done) t'
        else NoBackupYet m t₀ t')
      (NoBackupYet m t₀) := by
  have hsame : bootSet m t name = bootSet m t₀ name :=
    h.boot _ (List.prefix_append _ _)
  have hno := h.noBackupYet
  rw [backupFile, spec_bind]
  refine access_spec (fun _ => hno) (fun hnone => ?_) fun _ => ?_
  · have hgone : bootSet m t₀ name = none := by
      rcases hnone with hfail | hnone
      · exact absurd rfl (hF _ hfail)
      · rw [← hsame]
        exact hnone
    simp only [Bool.false_eq_true, if_false, spec_pure, if_true]
    refine ⟨h.boot, h.nobackup, fun n hn => ?_, fun n hn => ?_⟩
    · by_cases hnn : n = name
      · subst n
        exact ⟨(h.others name hname).trans hgone.symm, .inl hgone⟩
      · exact h.copied n (by simpa [hnn] using hn)
    · exact h.others n fun hd => hn (List.mem_cons_of_mem _ hd)
  · have hne : m.boot ++ [name] ≠ m.backupTmpDir ++ [name] :=
      (root_ne_boot (root_prefix_backupTmp [name])
        (List.prefix_append _ _)).symm
    have hframe : ∀ t', SameBut t (m.backupTmpDir ++ [name]) t' →
        ∀ q, ¬m.backupTmpDir <+: q → Node.look t' q = t.look q := by
      intro t' h' q hq
      refine h' q ?_
      rintro rfl
      exact hq (List.prefix_append _ _)
    simp only [if_true]
    refine (spec_brCopyFile hne (concat_ne_nil _ _) t).mono
      (fun ok t' hok => ?_) fun t' h' => hno.tmp (hframe t' h'.1)
    cases ok with
    | false =>
        have hs : Scratched t (m.backupTmpDir ++ [name]) t' := by
          simpa using hok
        simpa using hno.tmp (hframe t' hs.1)
    | true =>
        obtain ⟨data, hdata, hcopied⟩ := hok
        have hno' := hno.tmp (hframe t' (sameBut_of_ite hcopied))
        have hdata₀ : bootSet m t₀ name = some (.file data) := by
          rw [← hsame]
          exact hdata
        simp only [if_true]
        refine ⟨hno'.1, hno'.2, fun n hn => ?_, fun n hn => ?_⟩
        · by_cases hnn : n = name
          · subst n
            rw [hcopied, if_pos rfl, hdata₀]
            exact ⟨rfl, .inr ⟨data, rfl⟩⟩
          · rw [hcopied, if_neg (by simpa using hnn)]
            exact h.copied n (by simpa [hnn] using hn)
        · rw [List.mem_cons, not_or] at hn
          rw [hcopied, if_neg (by simpa using hn.1)]
          exact h.others n hn.2

theorem nodup_prepareNames (s : FileSet) : (prepareNames s).Nodup := by
  have hkernel := validKernelName_config
    ((configText s).take (prepareConfigSize - 1))
  rw [prepareNames, List.nodup_append]
  refine ⟨by decide, List.nodup_singleton _, ?_⟩
  intro a ha b hb
  rw [List.mem_singleton] at hb
  rintro rfl
  subst hb
  have hfixed : ∀ n ∈ bootRecoveryFileNames,
      ¬audioxUpdateValidKernelName n := by decide
  exact hfixed _ ha hkernel

/-- All the files are copied, or none of it can be seen. -/
theorem spec_backupFiles {t₀ : Node} (hF : OnlyWritesFail F)
    (h : Copying m t₀ [] t) {names : List Name} (hnodup : names.Nodup) :
    Spec F.env (Prog.untilFailure names (backupFile m)) t
      (fun ok t' => if ok then Copying m t₀ names t'
        else NoBackupYet m t₀ t')
      (NoBackupYet m t₀) := by
  -- The loop has copied the names that are not to be visited any more.
  refine (spec_untilFailure (F := NoBackupYet m t₀) (fun rest t' => ∃ done,
    (done ++ rest).Nodup ∧ (∀ n, n ∈ done ++ rest ↔ n ∈ names) ∧
      Copying m t₀ done t')
    ⟨[], hnodup, fun _ => Iff.rfl, h⟩ ?_).mono (fun ok t' hok => ?_)
      fun _ => id
  · rintro name rest t' ⟨done, hnd, hmem, hcopying⟩
    have hperm : (done ++ name :: rest).Perm (name :: done ++ rest) :=
      List.perm_middle
    have hfresh : name ∉ done := by
      have := (hperm.nodup_iff).mp hnd
      rw [List.cons_append, List.nodup_cons, List.mem_append, not_or] at this
      exact this.1.1
    refine (spec_backupFile hF hcopying hfresh).mono (fun ok t'' hok => ?_)
      fun _ => id
    cases ok with
    | false => simpa using hok
    | true =>
        refine ⟨name :: done, hperm.nodup_iff.mp hnd, fun n => ?_,
          by simpa using hok⟩
        rw [← hperm.mem_iff]
        exact hmem n
  · cases ok with
    | false => simpa using hok
    | true =>
        obtain ⟨done, -, hmem, hcopying⟩ := hok
        simp only [List.append_nil] at hmem
        simp only [if_true]
        exact ⟨hcopying.boot, hcopying.nobackup,
          fun n hn => hcopying.copied n ((hmem n).mpr hn),
          fun n hn => hcopying.others n fun hd => hn ((hmem n).mp hd)⟩

/-- Either there is no backup yet, or it is complete. -/
def AllOrNothing (m : Mounts) (versionText : Bytes) (t₀ t : Node) : Prop :=
  NoBackupYet m t₀ t ∨
    (BootSame m t₀ t ∧ BackupCreated m versionText t₀ t)

/-- The version file is written into the temporary directory. -/
structure Written (m : Mounts) (versionText : Bytes) (t₀ t : Node) : Prop where
  boot : BootSame m t₀ t
  nobackup : ¬HasBackup m t
  version : t.look (m.backupTmpDir ++ [versionName]) =
    some (.file (textOr versionText (ascii "unknown\n")))
  files : ∀ n ∈ prepareNames (bootSet m t₀),
    t.look (m.backupTmpDir ++ [n]) = bootSet m t₀ n ∧
      (bootSet m t₀ n = none ∨ ∃ data, bootSet m t₀ n = some (.file data))
  others : ∀ n, n ≠ versionName → n ∉ prepareNames (bootSet m t₀) →
    t.look (m.backupTmpDir ++ [n]) = none

theorem isBootFile_ne_tmp {n : Name} (h : bootRecoveryIsBootFile n)
    (name : Name) : n ≠ name ++ tmpSuffix := by
  rintro rfl
  have hdrop : (name ++ tmpSuffix).drop ((name ++ tmpSuffix).length - 4) =
      tmpSuffix := by
    have hlen : (name ++ tmpSuffix).length - 4 = name.length := by
      rw [List.length_append]
      have : tmpSuffix.length = 4 := by decide
      omega
    rw [hlen, List.drop_left]
  rw [bootRecoveryIsBootFile, Bool.or_eq_true, List.contains_iff_mem] at h
  rcases h with hfixed | hkernel
  · have hfixed' : ∀ n ∈ bootRecoveryFileNames,
        n.drop (n.length - 4) ≠ tmpSuffix := by decide
    exact hfixed' _ hfixed hdrop
  · simp only [audioxUpdateValidKernelName, Bool.and_eq_true,
      beq_iff_eq] at hkernel
    rw [hkernel.2] at hdrop
    exact absurd hdrop (by decide)

theorem written_of_replaced {versionText : Bytes} {t₀ : Node}
    (h : Copying m t₀ (prepareNames (bootSet m t₀)) t)
    (h' : Replaced t (m.backupTmpDir ++ [versionName ++ tmpSuffix])
      (m.backupTmpDir ++ [versionName])
      (textOr versionText (ascii "unknown\n")) t') :
    Written m versionText t₀ t' := by
  have hno : NoBackupYet m t₀ t' := h.noBackupYet.tmp fun q hq => by
    rw [h' q, if_neg, if_neg]
    · rintro rfl
      exact hq (List.prefix_append _ _)
    · rintro rfl
      exact hq (List.prefix_append _ _)
  refine ⟨hno.1, hno.2, by rw [h' _, if_pos rfl], fun n hn => ?_,
    fun n hv hn => ?_⟩
  · have hv : n ≠ versionName := by
      rintro rfl
      exact version_notMem_prepareNames _ hn
    have htmp := isBootFile_ne_tmp (isBootFile_of_prepareNames hn) versionName
    rw [h' _, if_neg (by simpa using hv), if_neg (by simpa using htmp)]
    exact h.copied n hn
  · rw [h' _, if_neg (by simpa using hv)]
    split
    · rfl
    · exact h.others n hn

theorem created_of_renamed {versionText : Bytes} {t₀ : Node}
    (h : Written m versionText t₀ t)
    (h' : ∀ q, t'.look q =
      if m.backupDir <+: q then
        t.look (m.backupTmpDir ++ q.drop m.backupDir.length)
      else if m.backupTmpDir <+: q then none else t.look q) :
    BootSame m t₀ t' ∧ BackupCreated m versionText t₀ t' := by
  have hback : ∀ n, backupSet m t' n = t.look (m.backupTmpDir ++ [n]) := by
    intro n
    rw [backupSet, h', if_pos (List.prefix_append _ _), List.drop_left]
  constructor
  · intro q hq
    rw [h', if_neg fun hb => root_ne_boot (root_of_backup hb) hq rfl,
      if_neg fun hb => root_ne_boot (root_of_backupTmp hb) hq rfl]
    exact h.boot q hq
  · refine ⟨by rw [hback, h.version], fun n hn => ?_, fun n hv hn => ?_⟩
    · rw [hback]
      exact h.files n hn
    · rw [hback]
      exact h.others n hv hn

/-- The kernel is the one that the start of `config.txt` selects. -/
theorem prepareNames_of_read {t₀ : Node} (h : BootSame m t₀ t) :
    bootRecoveryFileNames ++ [audioxConfigKernelName
      ((smallFile t (m.boot ++ [configName]) prepareConfigSize).getD [])] =
      prepareNames (bootSet m t₀) := by
  have hconfig : t.look (m.boot ++ [configName]) = bootSet m t₀ configName :=
    h _ (List.prefix_append _ _)
  rw [prepareNames, configText, smallFile, hconfig]
  rcases bootSet m t₀ configName with _ | (_ | _ | _) <;> rfl

theorem spec_createBackup (hF : OnlyWritesFail F) (versionText : Bytes)
    (hno : ¬HasBackup m t) :
    Spec F.env (createBackup m versionText) t
      (fun ok t' =>
        if ok then BootSame m t t' ∧ BackupCreated m versionText t t'
        else AllOrNothing m versionText t t')
      (AllOrNothing m versionText t) := by
  have hstart : NoBackupYet m t t := ⟨fun _ _ => rfl, hno⟩
  rw [createBackup, spec_bind]
  have hkeep : ∀ t', Shrunk m.backupTmpDir t t' → NoBackupYet m t t' :=
    fun t' => noBackupYet_shrunk hstart fun q => root_of_backupTmp
  refine (spec_brRemoveFlatDir backupTmpDir_ne_nil t).mono (fun _ t₁ h₁ => ?_)
    fun t' h => .inl (hkeep t' h)
  replace h₁ := hkeep t₁ h₁
  rw [spec_bind]
  have hkeep : ∀ t', Shrunk m.backupDir t₁ t' → NoBackupYet m t t' :=
    fun t' => noBackupYet_shrunk h₁ fun q => root_of_backup
  refine (spec_brRemoveFlatDir backupDir_ne_nil t₁).mono (fun _ t₂ h₂ => ?_)
    fun t' h => .inl (hkeep t' h)
  replace h₂ := hkeep t₂ h₂
  rw [spec_bind]
  refine mkdir_spec (fun _ => .inl h₂)
    (fun e _ => by simpa [Except.isOk, Except.toBool] using .inl h₂)
    fun t₃ hfree h₃ => ?_
  -- The temporary directory is new, so nothing is below it.
  have hempty : Copying m t [] t₃ := by
    have hno₃ : NoBackupYet m t t₃ := h₂.tmp fun q hq => by
      rw [h₃, if_neg]
      rintro rfl
      exact hq (List.prefix_refl _)
    refine ⟨hno₃.1, hno₃.2, by simp, fun n _ => ?_⟩
    rw [h₃, if_neg (by simp)]
    exact Node.look_append_eq_none hfree [n]
  simp only [Except.isOk, Except.toBool, Bool.not_true, Bool.false_eq_true,
    if_false]
  rw [spec_bind]
  obtain ⟨hopen, hread⟩ := hF.reads (m.boot ++ [configName])
  refine spec_brReadSmallFile hopen hread (.inl hempty.noBackupYet) ?_
  rw [prepareNames_of_read hempty.boot, spec_bind]
  refine (spec_backupFiles hF hempty (nodup_prepareNames _)).mono
    (fun ok t₄ h₄ => ?_) fun _ => .inl
  have hdrop : ∀ {s : Node}, NoBackupYet m t s →
      Spec F.env (do brRemoveFlatDir m.backupTmpDir; pure false) s
        (fun ok t' =>
          if ok then BootSame m t t' ∧ BackupCreated m versionText t t'
          else AllOrNothing m versionText t t')
        (AllOrNothing m versionText t) := by
    intro s hs
    refine (spec_dropBackupTmp hs).mono ?_ fun _ => .inl
    rintro ok t' ⟨rfl, h⟩
    simpa using .inl h
  cases ok with
  | false => simpa using hdrop (by simpa using h₄)
  | true =>
      simp only [if_true] at h₄
      simp only [Bool.not_true, Bool.false_eq_true, if_false]
      rw [spec_bind]
      have hscratch : ∀ t', Scratched t₄
          (m.backupTmpDir ++ [versionName ++ tmpSuffix]) t' →
          NoBackupYet m t t' := fun t' h =>
        h₄.noBackupYet.tmp fun q hq => h.1 q (by
          rintro rfl
          exact hq (List.prefix_append _ _))
      refine (spec_brWriteFileAtomic _ _ _ t₄).mono (fun ok t₅ h₅ => ?_)
        fun t' h => .inl ?_
      · cases ok with
        | false => simpa using hdrop (hscratch t₅ (by simpa using h₅))
        | true =>
            have hw := written_of_replaced h₄ (by simpa using h₅)
            have hno₅ : NoBackupYet m t t₅ := ⟨hw.boot, hw.nobackup⟩
            simp only [Bool.not_true, Bool.false_eq_true, if_false]
            rw [spec_bind]
            refine rename_spec backupTmpDir_ne_nil (fun _ => .inl hno₅)
              (fun e => by simpa using hdrop hno₅) fun t₆ _ h₆ => ?_
            have hdone := created_of_renamed hw h₆
            simp only [Bool.not_true, Bool.false_eq_true, if_false]
            rw [spec_bind]
            exact spec_brFsyncDir (.inr hdone) (by simpa using hdone)
      · rcases h with h | h
        · exact hscratch t' h
        · have hw := written_of_replaced h₄ h
          exact ⟨hw.boot, hw.nobackup⟩

/-! ## Changes beside the boot set and the backup -/

def BackupSame (m : Mounts) (t t' : Node) : Prop :=
  ∀ q, m.backupDir <+: q → t'.look q = t.look q

/-- The boot set and the backup are as they were. -/
def SetsSame (m : Mounts) (t t' : Node) : Prop :=
  BootSame m t t' ∧ BackupSame m t t'

theorem SetsSame.refl (m : Mounts) (t : Node) : SetsSame m t t :=
  ⟨fun _ _ => rfl, fun _ _ => rfl⟩

theorem SetsSame.trans {t'' : Node} (h : SetsSame m t t')
    (h' : SetsSame m t' t'') : SetsSame m t t'' :=
  ⟨h.1.trans h'.1, fun q hq => (h'.2 q hq).trans (h.2 q hq)⟩

theorem BackupSame.backupSet_eq (h : BackupSame m t t') :
    backupSet m t' = backupSet m t :=
  funext fun _ => h _ (List.prefix_append _ _)

def BesideSets (m : Mounts) (q : Path) : Prop :=
  ¬m.boot <+: q ∧ ¬m.backupDir <+: q

theorem spec_besideSets {α : Type} {p : Prog files α}
    (hp : Within (BesideSets m) p) :
    Spec F.env p t (fun _ => SetsSame m t) (SetsSame m t) := by
  have hkeep : ∀ t', (∀ q, ¬BesideSets m q → Node.look t' q = t.look q) →
      SetsSame m t t' := fun t' h =>
    ⟨fun q hq => h q fun hb => hb.1 hq, fun q hq => h q fun hb => hb.2 hq⟩
  exact (spec_within hp F.env t).mono (fun _ => hkeep) hkeep

theorem besideSets_of_sibling {n : Name} (h : n ≠ ascii "boot-backup")
    {q : Path} (hq : m.stateDir ++ [n] <+: q) : BesideSets m q := by
  have hroot : m.root <+: q := (root_prefix_state [n]).trans hq
  refine ⟨fun hb => root_ne_boot hroot hb rfl, fun hb => ?_⟩
  have hpre := List.prefix_or_prefix_of_prefix hb hq
  simp only [Mounts.backupDir, List.prefix_append_right_inj,
    List.cons_prefix_cons, List.nil_prefix, and_true] at hpre
  rcases hpre with heq | heq
  · exact h heq.symm
  · exact h heq

theorem besideSets_stateDir : BesideSets m m.stateDir := by
  have hroot := root_prefix_state (m := m) []
  rw [List.append_nil] at hroot
  refine ⟨fun hb => root_ne_boot hroot hb rfl, fun hb => ?_⟩
  have hlen := hb.length_le
  simp [Mounts.backupDir] at hlen

theorem within_finishPrepare :
    Within (BesideSets m) (do
      let _ ← unlink m.eventsPath
      brWriteFileAtomic m.stateDir bootTrialName (ascii "attempts=0\n")) := by
  have hevents : BesideSets m m.eventsPath :=
    besideSets_of_sibling (by decide) (List.prefix_refl _)
  refine .bind (by simpa [unlink, Prog.op, Call.changes] using hevents)
    fun _ => within_brWriteFileAtomic ?_ ?_
  · exact fun q => besideSets_of_sibling (by decide)
  · exact fun q => besideSets_of_sibling (by decide)

/-! ## Preparing an update -/

theorem AllOrNothing.of_sets {versionText : Bytes} {t₀ : Node}
    (h : SetsSame m t₀ t) (h' : AllOrNothing m versionText t t') :
    AllOrNothing m versionText t₀ t' := by
  have hset : bootSet m t = bootSet m t₀ := h.1.bootSet_eq
  rcases h' with hno | ⟨hboot, hcreated⟩
  · exact .inl ⟨h.1.trans hno.1, hno.2⟩
  · refine .inr ⟨h.1.trans hboot, hcreated.version, ?_, ?_⟩
    · rw [← hset]
      exact hcreated.files
    · rw [← hset]
      exact hcreated.others

/-- What stays true when the boot set and the backup stay the same. -/
theorem AllOrNothing.sets {versionText : Bytes} {t₀ : Node}
    (h : AllOrNothing m versionText t₀ t) (h' : SetsSame m t t') :
    AllOrNothing m versionText t₀ t' := by
  have hset : backupSet m t' = backupSet m t := h'.2.backupSet_eq
  rcases h with hno | ⟨hboot, hcreated⟩
  · refine .inl ⟨hno.1.trans h'.1, ?_⟩
    rw [HasBackup, hset]
    exact hno.2
  · refine .inr ⟨hboot.trans h'.1, ?_, ?_, ?_⟩
    · rw [hset]
      exact hcreated.version
    · rw [hset]
      exact hcreated.files
    · rw [hset]
      exact hcreated.others

theorem spec_hasBackup (hF : OnlyWritesFail F) {Q : Bool → Node → Prop}
    {L : Node → Prop} (hlost : L t) (hyes : HasBackup m t → Q true t)
    (hno : ¬HasBackup m t → Q false t) :
    Spec F.env (bootRecoveryHasBackup m) t Q L := by
  refine access_spec (fun _ => hlost) (fun hnone => hno fun hsome => ?_) hyes
  rcases hnone with hfail | hnone
  · exact hF _ hfail rfl
  · exact hsome hnone

/-- The last steps write a fresh counter. -/
theorem spec_finishPrepare (m : Mounts) (t : Node) :
    Spec F.env (do
        let _ ← unlink m.eventsPath
        brWriteFileAtomic m.stateDir bootTrialName (ascii "attempts=0\n")) t
      (fun ok t' => SetsSame m t t' ∧
        (ok → t'.look m.trialPath = some (.file (attemptsText 0))))
      (SetsSame m t) := by
  have hcounter : Spec F.env (do
      let _ ← unlink m.eventsPath
      brWriteFileAtomic m.stateDir bootTrialName (ascii "attempts=0\n")) t
      (fun ok t' => ok → t'.look m.trialPath = some (.file (attemptsText 0)))
      (fun _ => True) := by
    rw [spec_bind]
    refine (spec_trivial _).mono (fun _ t₁ _ => ?_) fun _ => id
    refine (spec_brWriteFileAtomic _ _ _ t₁).mono (fun ok t₂ h hok => ?_)
      fun _ _ => trivial
    rw [if_pos hok] at h
    replace h : Replaced t₁ m.trialTmp m.trialPath (attemptsText 0) t₂ := h
    rw [h, if_pos rfl]
  exact ((spec_besideSets within_finishPrepare).and hcounter).mono
    (fun _ _ => id) fun _ => And.left

/-- Preparing an update without a backup leaves a complete one, or none when
it fails or power is lost. -/
theorem spec_prepare_new (hF : OnlyWritesFail F) (versionText : Bytes)
    (hno : ¬HasBackup m t) :
    Spec F.env (bootRecoveryPrepareUpdate m versionText) t
      (fun ok t' => AllOrNothing m versionText t t' ∧
        (ok → BootSame m t t' ∧ BackupCreated m versionText t t' ∧
          t'.look m.trialPath = some (.file (attemptsText 0))))
      (AllOrNothing m versionText t) := by
  have hstart : ∀ t', SetsSame m t t' → NoBackupYet m t t' := by
    intro t' h
    refine ⟨h.1, ?_⟩
    rw [HasBackup, h.2.backupSet_eq]
    exact hno
  rw [bootRecoveryPrepareUpdate, spec_bind]
  refine (spec_besideSets (within_ensureStateDir besideSets_stateDir)).mono
    (fun ok t₁ h₁ => ?_) fun t' h => .inl (hstart t' h)
  have hno₁ := hstart t₁ h₁
  cases ok with
  | false => simpa using .inl hno₁
  | true =>
      simp only [Bool.not_true, Bool.false_eq_true, if_false]
      rw [spec_bind, spec_bind]
      refine spec_hasBackup hF (.inl hno₁) (fun h => absurd h hno₁.2)
        fun _ => ?_
      simp only [Bool.false_eq_true, if_false]
      refine (spec_createBackup hF versionText hno₁.2).mono
        (fun ok t₂ h₂ => ?_) fun t' h => h.of_sets h₁
      cases ok with
      | false => simpa using AllOrNothing.of_sets h₁ (by simpa using h₂)
      | true =>
          simp only [if_true] at h₂
          have h₂' := AllOrNothing.of_sets h₁ (.inr h₂)
          have hcreated : BootSame m t t₂ ∧ BackupCreated m versionText t t₂ :=
            h₂'.resolve_left fun hno' => by
              have hversion := h₂.2.version
              have := hno'.2
              simp [HasBackup, hversion] at this
          simp only [Bool.not_true, Bool.false_eq_true, if_false]
          refine (spec_finishPrepare m t₂).mono (fun ok t₃ h₃ => ?_)
            fun t' h => h₂'.sets h
          refine ⟨h₂'.sets h₃.1, fun hok => ?_⟩
          have h₃' := (AllOrNothing.sets (.inr hcreated) h₃.1).resolve_left
            fun hno' => hno'.2 (by
              rw [HasBackup, h₃.1.2.backupSet_eq, hcreated.2.version]
              rintro ⟨⟩)
          exact ⟨h₃'.1, h₃'.2, h₃.2 hok⟩

/-- Preparing an update keeps a backup that exists. -/
theorem spec_prepare_keep (hF : OnlyWritesFail F) (versionText : Bytes)
    (hyes : HasBackup m t) :
    Spec F.env (bootRecoveryPrepareUpdate m versionText) t
      (fun ok t' => SetsSame m t t' ∧
        (ok → t'.look m.trialPath = some (.file (attemptsText 0))))
      (SetsSame m t) := by
  rw [bootRecoveryPrepareUpdate, spec_bind]
  refine (spec_besideSets (within_ensureStateDir besideSets_stateDir)).mono
    (fun ok t₁ h₁ => ?_) fun _ => id
  cases ok with
  | false => simpa using h₁
  | true =>
      have hyes₁ : HasBackup m t₁ := by
        rw [HasBackup, h₁.2.backupSet_eq]
        exact hyes
      simp only [Bool.not_true, Bool.false_eq_true, if_false]
      rw [spec_bind, spec_bind]
      refine spec_hasBackup hF h₁ (fun _ => ?_) fun h => absurd hyes₁ h
      simp only [if_true, spec_pure, Bool.not_true, Bool.false_eq_true,
        if_false]
      exact (spec_finishPrepare m t₁).mono
        (fun ok t₂ h₂ => ⟨h₁.trans h₂.1, h₂.2⟩) fun _ h => h₁.trans h

/-! ## A preparation on which nothing fails -/

/-- A system that has never prepared an update, with nothing but files in the
way of the copies. -/
structure Preparable (m : Mounts) (t : Node) : Prop where
  root : t.look m.root = some .dir
  fresh : t.look m.stateDir = none
  files : ∀ n ∈ prepareNames (bootSet m t),
    bootSet m t n = none ∨ ∃ data, bootSet m t n = some (.file data)

/-- While the backup is being made in an empty state directory. -/
structure Preparing (m : Mounts) (t₀ t : Node) : Prop where
  boot : BootSame m t₀ t
  state : t.look m.stateDir = some .dir
  fresh : ∀ n q, n ≠ ascii "boot-backup" ++ tmpSuffix →
    m.stateDir ++ [n] <+: q → t.look q = none

theorem Preparing.nobackup {t₀ : Node} (h : Preparing m t₀ t) :
    ¬HasBackup m t := by
  intro hsome
  exact hsome (h.fresh (ascii "boot-backup") _ (by decide)
    (List.prefix_append _ _))

/-- Changes in the temporary directory do not matter. -/
theorem Preparing.tmp {t₀ : Node} (h : Preparing m t₀ t)
    (h' : ∀ q, ¬m.backupTmpDir <+: q → t'.look q = t.look q) :
    Preparing m t₀ t' := by
  refine ⟨h.boot.trans (bootSame_of_root (fun _ => root_of_backupTmp) h'), ?_,
    fun n q hn hq => ?_⟩
  · rw [h', h.state]
    intro hpre
    have hlen := hpre.length_le
    simp [Mounts.backupTmpDir] at hlen
  · rw [h', h.fresh n q hn hq]
    intro hpre
    have hpre' := List.prefix_or_prefix_of_prefix hpre hq
    simp only [Mounts.backupTmpDir, List.prefix_append_right_inj,
      List.cons_prefix_cons, List.nil_prefix, and_true] at hpre'
    rcases hpre' with heq | heq
    · exact hn heq.symm
    · exact hn heq

theorem preparing_shrunk {t₀ : Node} {n : Name} (h : Preparing m t₀ t)
    (h' : Shrunk (m.stateDir ++ [n]) t t') : Preparing m t₀ t' := by
  refine ⟨h.boot.trans (bootSame_of_root ?_ h'.1), ?_, fun k q hk hq => ?_⟩
  · intro q hq
    exact (root_prefix_state [n]).trans hq
  · rw [h'.1, h.state]
    intro hpre
    have hlen := hpre.length_le
    simp at hlen
  · rcases h'.2 q with hsame | hnone
    · rw [hsame, h.fresh k q hk hq]
    · exact hnone

theorem backupFile_works (hok : Calm F) {t₀ : Node} {done : List Name}
    {name : Name} (h : Copying m t₀ done t)
    (hdir : t.look m.backupTmpDir = some .dir) (hfresh : name ∉ done)
    (hfile : bootSet m t₀ name = none ∨
      ∃ data, bootSet m t₀ name = some (.file data)) :
    Spec F.env (backupFile m name) t (fun ok _ => ok = true)
      (fun _ => True) := by
  have hsame : t.look (m.boot ++ [name]) = bootSet m t₀ name :=
    h.boot _ (List.prefix_append _ _)
  have hne : m.boot ++ [name] ≠ m.backupTmpDir ++ [name] :=
    (root_ne_boot (root_prefix_backupTmp [name]) (List.prefix_append _ _)).symm
  rw [backupFile, spec_bind]
  refine access_spec (fun _ => trivial) (fun _ => by simp) fun hsome => ?_
  obtain ⟨data, hdata⟩ := hfile.resolve_left (by rwa [← hsame])
  simp only [if_true]
  exact brCopyFile_works hne (concat_ne_nil _ _) hok (hsame.trans hdata)
    (by simpa using hdir) (.inl (h.others name hfresh))

theorem backupFiles_works (hF : OnlyWritesFail F) (hok : Calm F) {t₀ : Node}
    (h : Copying m t₀ [] t) (hdir : t.look m.backupTmpDir = some .dir)
    {names : List Name} (hnodup : names.Nodup)
    (hfiles : ∀ n ∈ names, bootSet m t₀ n = none ∨
      ∃ data, bootSet m t₀ n = some (.file data)) :
    Spec F.env (Prog.untilFailure names (backupFile m)) t
      (fun ok t' => ok = true ∧ t'.look m.backupTmpDir = some .dir)
      (fun _ => True) := by
  have hbody : ∀ (name : Name) (rest : List Name) (t' : Node),
      (∃ done, (done ++ name :: rest).Nodup ∧
        (∀ n ∈ name :: rest, n ∈ names) ∧ Copying m t₀ done t' ∧
        t'.look m.backupTmpDir = some .dir) →
      Spec F.env (backupFile m name) t'
        (fun ok t'' =>
          if ok then ∃ done, (done ++ rest).Nodup ∧
            (∀ n ∈ rest, n ∈ names) ∧ Copying m t₀ done t'' ∧
            t''.look m.backupTmpDir = some .dir
          else False)
        (fun _ => True) := by
    rintro name rest t' ⟨done, hnd, hmem, hcopying, hdir'⟩
    have hperm : (done ++ name :: rest).Perm (name :: done ++ rest) :=
      List.perm_middle
    have hfresh : name ∉ done := by
      have := hperm.nodup_iff.mp hnd
      rw [List.cons_append, List.nodup_cons, List.mem_append, not_or] at this
      exact this.1.1
    have hframe := spec_within (R := fun q => q = m.backupTmpDir ++ [name])
      (p := backupFile m name) (by
        simp only [Within, backupFile, access, Prog.op, Prog.call_bind,
          Prog.ret_bind, Prog.only_call, Prog.only_ite, Call.changes]
        exact ⟨fun _ hq => hq.elim, fun _ =>
          ⟨fun _ => within_brCopyFile _ rfl, fun _ => trivial⟩⟩) F.env t'
    refine (((backupFile_works hok hcopying hdir' hfresh
      (hfiles name (hmem name (by simp)))).and
        (spec_backupFile hF hcopying hfresh)).and hframe).mono ?_
          fun _ _ => trivial
    rintro ok t'' ⟨⟨rfl, hcopied⟩, hkeep⟩
    refine ⟨name :: done, hperm.nodup_iff.mp hnd,
      fun n hn => hmem n (List.mem_cons_of_mem _ hn), by simpa using hcopied,
      ?_⟩
    rw [hkeep _ (by simp), hdir']
  refine (spec_untilFailure (F := fun _ => False) (fun rest (t' : Node) =>
    ∃ done, (done ++ rest).Nodup ∧ (∀ n ∈ rest, n ∈ names) ∧
      Copying m t₀ done t' ∧ t'.look m.backupTmpDir = some .dir)
    ⟨[], hnodup, fun _ => id, h, hdir⟩ hbody).mono (fun ok t' hok' => ?_)
      fun _ => id
  cases ok with
  | false => exact absurd hok' (by simp)
  | true =>
      obtain ⟨done, -, -, -, hdir'⟩ := hok'
      exact ⟨rfl, hdir'⟩

theorem createBackup_works (hF : OnlyWritesFail F) (hok : Calm F) {t₀ : Node}
    (h : Preparing m t₀ t)
    (htmp : ∀ q, m.backupTmpDir <+: q → t.look q = none)
    (hfiles : ∀ n ∈ prepareNames (bootSet m t₀), bootSet m t₀ n = none ∨
      ∃ data, bootSet m t₀ n = some (.file data)) (versionText : Bytes) :
    Spec F.env (createBackup m versionText) t
      (fun ok t' => ok = true ∧ t'.look m.stateDir = some .dir ∧
        ∀ n, n = bootTrialName ∨ n = bootTrialName ++ tmpSuffix →
          t'.look (m.stateDir ++ [n]) = none)
      (fun _ => True) := by
  rw [createBackup, spec_bind]
  refine (spec_brRemoveFlatDir backupTmpDir_ne_nil t).mono (fun _ t₁ h₁ => ?_)
    fun _ _ => trivial
  have hp₁ := preparing_shrunk h h₁
  rw [spec_bind]
  refine (spec_brRemoveFlatDir backupDir_ne_nil t₁).mono (fun _ t₂ h₂ => ?_)
    fun _ _ => trivial
  have hp₂ := preparing_shrunk hp₁ h₂
  have hfree : ∀ q, m.backupTmpDir <+: q → t₂.look q = none := by
    intro q hq
    rcases h₂.2 q with hsame | hnone
    · rw [hsame]
      rcases h₁.2 q with hsame' | hnone'
      · rw [hsame', htmp q hq]
      · exact hnone'
    · exact hnone
  rw [spec_bind]
  refine mkdir_works backupTmpDir_ne_nil (hok.not_fail rfl) ?_
    (hfree _ (List.prefix_refl _)) (fun _ => trivial) fun t₃ h₃ => ?_
  · rw [Mounts.backupTmpDir, List.dropLast_concat]
    exact hp₂.state
  have hframe₃ : ∀ q, ¬m.backupTmpDir <+: q → t₃.look q = t₂.look q := by
    intro q hq
    rw [h₃, if_neg]
    rintro rfl
    exact hq (List.prefix_refl _)
  have hp₃ := hp₂.tmp hframe₃
  have hempty : Copying m t₀ [] t₃ := by
    refine ⟨hp₃.boot, hp₃.nobackup, by simp, fun n _ => ?_⟩
    rw [h₃, if_neg (by simp), hfree _ (List.prefix_append _ _)]
  simp only [Except.isOk, Except.toBool, Bool.not_true, Bool.false_eq_true,
    if_false]
  rw [spec_bind]
  obtain ⟨hopen, hread⟩ := hF.reads (m.boot ++ [configName])
  refine spec_brReadSmallFile hopen hread trivial ?_
  rw [prepareNames_of_read hempty.boot, spec_bind]
  have hloop := spec_within (R := fun q => m.backupTmpDir <+: q)
    (p := Prog.untilFailure (prepareNames (bootSet m t₀)) (backupFile m))
    (.untilFailure fun n _ => within_backupFile (fun _ hq => hq) n) F.env t₃
  refine ((backupFiles_works hF hok hempty (by rw [h₃, if_pos rfl])
    (nodup_prepareNames _) hfiles).and ((spec_backupFiles hF hempty
      (nodup_prepareNames _)).and hloop)).mono ?_ fun _ _ => trivial
  rintro ok t₄ ⟨⟨rfl, hdir₄⟩, h₄, hframe₄⟩
  have hp₄ := hp₃.tmp hframe₄
  replace h₄ : Copying m t₀ (prepareNames (bootSet m t₀)) t₄ := by
    simpa using h₄
  simp only [Bool.not_true, Bool.false_eq_true, if_false]
  rw [spec_bind]
  have hversion : t₄.look (m.backupTmpDir ++ [versionName]) = none :=
    h₄.others _ (version_notMem_prepareNames _)
  have hversionTmp : t₄.look (m.backupTmpDir ++ [versionName ++ tmpSuffix]) =
      none :=
    h₄.others _ fun hmem =>
      isBootFile_ne_tmp (isBootFile_of_prepareNames hmem) versionName rfl
  refine ((brWriteFileAtomic_works (calm_writesWork hok _) hdir₄ (.inl hversionTmp)
    (by rw [hversion]; rintro ⟨⟩)).and (spec_brWriteFileAtomic _ _ _ t₄)).mono
    ?_ fun _ _ => trivial
  rintro ok t₅ ⟨rfl, h₅⟩
  rw [if_pos rfl] at h₅
  have hp₅ := hp₄.tmp fun q hq => by
    rw [h₅ q, if_neg, if_neg]
    · rintro rfl
      exact hq (List.prefix_append _ _)
    · rintro rfl
      exact hq (List.prefix_append _ _)
  simp only [Bool.not_true, Bool.false_eq_true, if_false]
  rw [spec_bind]
  refine rename_dir_works backupTmpDir_ne_nil backupDir_ne_nil
    (hok.not_fail rfl) backupTmp_not_prefix ?_ ?_ ?_ ?_ (fun _ => trivial)
    fun t₆ h₆ => ?_
  · rw [Mounts.backupTmpDir, Mounts.backupDir, List.prefix_append_right_inj]
    decide
  · rw [h₅, if_neg (by simp), if_neg (by simp), hdir₄]
  · rw [Mounts.backupDir, List.dropLast_concat]
    exact hp₅.state
  · exact hp₅.fresh (ascii "boot-backup") _ (by decide) (List.prefix_refl _)
  have hkeep : ∀ q, ¬m.backupDir <+: q → ¬m.backupTmpDir <+: q →
      t₆.look q = t₅.look q := by
    intro q hb ht
    rw [h₆, if_neg hb, if_neg ht]
  simp only [Bool.not_true, Bool.false_eq_true, if_false]
  rw [spec_bind]
  refine spec_brFsyncDir trivial ?_
  rw [spec_pure]
  refine ⟨rfl, ?_, fun n hn => ?_⟩
  · rw [hkeep, hp₅.state]
    · intro hpre
      have hlen := hpre.length_le
      simp [Mounts.backupDir] at hlen
    · intro hpre
      have hlen := hpre.length_le
      simp [Mounts.backupTmpDir] at hlen
  · have hne : n ≠ ascii "boot-backup" ++ tmpSuffix ∧
        n ≠ ascii "boot-backup" := by
      rcases hn with rfl | rfl <;> decide
    rw [hkeep, hp₅.fresh n _ hne.1 (List.prefix_refl _)]
    · rw [Mounts.backupDir, List.prefix_append_right_inj]
      simpa using hne.2.symm
    · rw [Mounts.backupTmpDir, List.prefix_append_right_inj]
      simpa using hne.1.symm

/-- On a fresh system a preparation succeeds when nothing fails. -/
theorem prepare_works (hF : OnlyWritesFail F) (hok : Calm F)
    (h : Preparable m t) (versionText : Bytes) :
    Spec F.env (bootRecoveryPrepareUpdate m versionText) t
      (fun ok _ => ok = true) (fun _ => True) := by
  have hroot : m.root ≠ [] := fun hnil =>
    m.root_not_prefix (hnil ▸ List.nil_prefix)
  rw [bootRecoveryPrepareUpdate, spec_bind, bootRecoveryEnsureStateDir,
    spec_bind]
  refine mkdir_works (concat_ne_nil _ _) (hok.not_fail rfl) ?_ h.fresh
    (fun _ => trivial) fun t₁ h₁ => ?_
  · rw [Mounts.stateDir, List.dropLast_concat]
    exact h.root
  have hp₁ : Preparing m t t₁ := by
    refine ⟨fun q hq => ?_, by rw [h₁, if_pos rfl], fun n q _ hq => ?_⟩
    · rw [h₁, if_neg]
      rintro rfl
      have := root_prefix_state (m := m) []
      rw [List.append_nil] at this
      exact root_ne_boot this hq rfl
    · obtain ⟨r, rfl⟩ := hq
      rw [h₁, if_neg (by simp), List.append_assoc]
      exact Node.look_append_eq_none h.fresh _
  have htmp₁ : ∀ q, m.backupTmpDir <+: q → t₁.look q = none := by
    rintro q ⟨r, rfl⟩
    rw [h₁, if_neg (by simp [Mounts.backupTmpDir]), Mounts.backupTmpDir,
      List.append_assoc]
    exact Node.look_append_eq_none h.fresh _
  simp only [spec_pure, Bool.not_true, Bool.false_eq_true, if_false]
  rw [spec_bind, spec_bind]
  refine spec_hasBackup hF trivial (fun hsome => absurd hsome hp₁.nobackup)
    fun _ => ?_
  simp only [Bool.false_eq_true, if_false]
  refine (createBackup_works hF hok hp₁ htmp₁ h.files versionText).mono ?_
    fun _ => id
  rintro ok t₂ ⟨rfl, hstate, hfree⟩
  simp only [Bool.not_true, Bool.false_eq_true, if_false]
  rw [spec_bind]
  have hevents := spec_within (R := (· = m.eventsPath))
    (p := unlink m.eventsPath) (by simp [Within, unlink, Prog.op, Call.changes])
    F.env t₂
  refine hevents.mono (fun _ t₃ h₃ => ?_) fun _ _ => trivial
  have hkeep : ∀ n, n ≠ ascii "boot-trial.log" →
      t₃.look (m.stateDir ++ [n]) = t₂.look (m.stateDir ++ [n]) := by
    intro n hn
    refine h₃ _ ?_
    simpa [Mounts.eventsPath] using hn
  refine brWriteFileAtomic_works (calm_writesWork hok _) ?_ (.inl ?_) ?_
  · rw [h₃ _ (by simp [Mounts.eventsPath]), hstate]
  · rw [hkeep _ (by decide), hfree _ (.inr rfl)]
  · rw [hkeep _ (by decide), hfree _ (.inl rfl)]
    rintro ⟨⟩

end Audiox
