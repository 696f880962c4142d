import Audiox.Boot.Attempts
import Audiox.Boot.Backup

/-!
# Restoring the backup

What `Revert` puts back.  The files of the backup are restored one after the
other, `config.txt` last; the backup and the trial are dropped only when every
file has been restored.
-/

namespace Audiox

open ByteCodec FileTree Interruptible

variable {m : Mounts} {F : Faults} {t t' : Node}

/-! ## The files of a backup -/

/-- Only the files that were to be copied, and the version, are in the
backup. -/
def ProperBackup (b : FileSet) : Prop :=
  (∃ s, ∀ n, b n ≠ none → n = versionName ∨ n ∈ prepareNames s) ∧
    ∀ n, b n = none ∨ ∃ data, b n = some (.file data)

theorem BackupCreated.proper {versionText : Bytes} {t₀ : Node}
    (h : BackupCreated m versionText t₀ t) : ProperBackup (backupSet m t) := by
  refine ⟨⟨bootSet m t₀, fun n hn => ?_⟩, h.file⟩
  by_contra hother
  rw [not_or] at hother
  exact hn (h.others n hother.1 hother.2)

theorem isBootFile_length {n : Name} (h : bootRecoveryIsBootFile n) :
    n.length < audioxUpdateValueMax := by
  rw [bootRecoveryIsBootFile, Bool.or_eq_true, List.contains_iff_mem] at h
  rcases h with hfixed | hkernel
  · have hshort : ∀ n ∈ bootRecoveryFileNames,
        n.length < audioxUpdateValueMax := by decide
    exact hshort n hfixed
  · exact audioxUpdateValidValue_length (validValue_of_validKernelName hkernel)

/-- Every boot file of a proper backup is listed. -/
theorem mem_backupNames {b : FileSet} (hb : ProperBackup b) {l : List Name}
    (hnodup : l.Nodup) (hl : ∀ n, n ∈ l ↔ b n ≠ none) {n : Name}
    (hn : b n ≠ none) (hboot : bootRecoveryIsBootFile n) :
    n ∈ backupNames l := by
  obtain ⟨⟨s, hs⟩, -⟩ := hb
  by_cases hc : n = configName
  · subst n
    rw [backupNames, List.mem_append, if_pos ((hl _).mpr hn)]
    exact .inr (List.mem_singleton_self _)
  · rw [backupNames, List.mem_append]
    left
    rw [List.take_of_length_le]
    · rw [List.mem_filter]
      refine ⟨(hl n).mpr hn, ?_⟩
      simp [hboot, isBootFile_length hboot, hc]
    -- At most four names are left: three fixed ones and a kernel.
    · have hsub : l.filter (fun n => bootRecoveryIsBootFile n &&
          n.length < audioxUpdateValueMax && n != configName) ⊆
          (prepareNames s).erase configName := by
        intro k hk
        rw [List.mem_filter] at hk
        obtain ⟨hkl, hcond⟩ := hk
        simp only [Bool.and_eq_true, bne_iff_ne, ne_eq] at hcond
        rw [List.mem_erase_of_ne hcond.2]
        rcases hs k ((hl k).mp hkl) with rfl | hmem
        · exact absurd hcond.1.1 not_isBootFile_version
        · exact hmem
      have hlen := (hnodup.filter _).length_le_of_subset hsub
      refine hlen.trans ((List.erase_sublist ..).length_le.trans ?_)
      simp [prepareNames, bootRecoveryFileNames, bootRecoveryMaxFiles]

theorem isBootFile_of_mem_backupNames {l : List Name} {n : Name}
    (h : n ∈ backupNames l) : bootRecoveryIsBootFile n ∧ n ∈ l := by
  rw [backupNames, List.mem_append] at h
  rcases h with h | h
  · have hmem := List.mem_filter.mp (List.mem_of_mem_take h)
    simp only [Bool.and_eq_true] at hmem
    exact ⟨hmem.2.1.1, hmem.1⟩
  · split at h
    next hc =>
      rw [List.mem_singleton] at h
      subst h
      exact ⟨by decide, hc⟩
    · cases h

/-- `config.txt` is the last of the files. -/
theorem backupNames_config_last (l : List Name) :
    ∃ others, backupNames l =
        others ++ (if configName ∈ l then [configName] else []) ∧
      configName ∉ others := by
  refine ⟨_, rfl, fun h => ?_⟩
  have hmem := (List.mem_filter.mp (List.mem_of_mem_take h)).2
  simp at hmem

theorem nodup_backupNames {l : List Name} (h : l.Nodup) :
    (backupNames l).Nodup := by
  rw [backupNames, List.nodup_append]
  refine ⟨((h.filter _).sublist (List.take_sublist _ _)), ?_, ?_⟩
  · split
    · exact List.nodup_singleton _
    · exact List.nodup_nil
  · intro a ha b hb
    have hne := (List.mem_filter.mp (List.mem_of_mem_take ha)).2
    simp only [Bool.and_eq_true, bne_iff_ne, ne_eq] at hne
    split at hb
    · rw [List.mem_singleton] at hb
      subst hb
      exact hne.2
    · cases hb

/-- The names in the backup directory. -/
theorem mem_names_backup {n : Name} :
    n ∈ t.names m.backupDir ↔ backupSet m t n ≠ none := by
  rw [Node.mem_names, Option.isSome_iff_ne_none]
  rfl

/-! ## Restoring the files -/

theorem isBootFile_ne_restore {n : Name} (h : bootRecoveryIsBootFile n)
    (name : Name) : n ≠ name ++ restoreSuffix := by
  rintro rfl
  have hdrop : (name ++ restoreSuffix).drop
      ((name ++ restoreSuffix).length - 8) = restoreSuffix := by
    have hlen : (name ++ restoreSuffix).length - 8 = name.length := by
      rw [List.length_append]
      have : restoreSuffix.length = 8 := by decide
      omega
    rw [hlen, List.drop_left]
  rw [bootRecoveryIsBootFile, Bool.or_eq_true, List.contains_iff_mem] at h
  rcases h with hfixed | hkernel
  · have hfixed' : ∀ n ∈ bootRecoveryFileNames,
        n.drop (n.length - 8) ≠ restoreSuffix := by decide
    exact hfixed' _ hfixed hdrop
  · simp only [audioxUpdateValidKernelName, Bool.and_eq_true,
      beq_iff_eq] at hkernel
    have hend := congrArg (List.drop 4) hdrop
    rw [List.drop_drop] at hend
    have hlen : 8 ≤ (name ++ restoreSuffix).length := by
      rw [List.length_append]
      have : restoreSuffix.length = 8 := by decide
      omega
    rw [show (name ++ restoreSuffix).length - 8 + 4 =
      (name ++ restoreSuffix).length - 4 by omega, hkernel.2] at hend
    exact absurd hend (by decide)

/-- While the files are put back. -/
structure Restoring (m : Mounts) (t₀ : Node) (done : List Name)
    (t : Node) : Prop where
  backup : BackupSame m t₀ t
  restored : ∀ n ∈ done,
    backupSet m t₀ n = none ∨ bootSet m t n = backupSet m t₀ n
  untouched : ∀ n, n ∉ done → bootRecoveryIsBootFile n →
    bootSet m t n = bootSet m t₀ n
  dir : t.look m.boot = t₀.look m.boot
  tmp : ∀ n, Writable t₀ (m.boot ++ [n ++ restoreSuffix]) →
    Writable t (m.boot ++ [n ++ restoreSuffix])

theorem Restoring.refl (m : Mounts) (t : Node) : Restoring m t [] t :=
  ⟨fun _ _ => rfl, by simp, fun _ _ _ => rfl, rfl, fun _ => id⟩

theorem backupSame_of_boot {p : Path} (hp : m.boot <+: p)
    (h : SameBut t p t') : BackupSame m t t' := by
  intro q hq
  refine h q ?_
  rintro rfl
  exact root_ne_boot (root_of_backup hq) hp rfl

/-- The temporary file of a restore does not matter. -/
theorem Restoring.scratched {t₀ : Node} {done : List Name} {name : Name}
    (h : Restoring m t₀ done t) (hdone : ∀ n ∈ done, bootRecoveryIsBootFile n)
    (h' : Scratched t (m.boot ++ [name ++ restoreSuffix]) t') :
    Restoring m t₀ done t' := by
  have hboot : ∀ n, bootRecoveryIsBootFile n →
      bootSet m t' n = bootSet m t n := by
    intro n hn
    refine h'.1 _ ?_
    simpa using isBootFile_ne_restore hn name
  refine ⟨fun q hq => ?_, fun n hn => ?_, fun n hn hb => ?_, ?_,
    fun n hw => ?_⟩
  · rw [backupSame_of_boot (List.prefix_append _ _) h'.1 q hq]
    exact h.backup q hq
  · rw [hboot n (hdone n hn)]
    exact h.restored n hn
  · rw [hboot n hb]
    exact h.untouched n hn hb
  · rw [h'.1 _ (by simp), h.dir]
  · by_cases hn : m.boot ++ [n ++ restoreSuffix] =
        m.boot ++ [name ++ restoreSuffix]
    · rw [hn] at hw ⊢
      exact h'.writable (by
        have := h.tmp name (by rwa [← hn] at hw ⊢)
        exact this)
    · rw [Writable, h'.1 _ hn]
      exact h.tmp n hw

/-- One file is back in place. -/
theorem Restoring.replaced {t₀ : Node} {done : List Name} {name : Name}
    {data : Bytes} (h : Restoring m t₀ done t)
    (hdone : ∀ n ∈ done, bootRecoveryIsBootFile n)
    (hname : bootRecoveryIsBootFile name)
    (hdata : backupSet m t₀ name = some (.file data))
    (h' : Replaced t (m.boot ++ [name ++ restoreSuffix]) (m.boot ++ [name])
      data t') :
    Restoring m t₀ (name :: done) t' := by
  have hboot : ∀ n, bootRecoveryIsBootFile n → n ≠ name →
      bootSet m t' n = bootSet m t n := by
    intro n hn hne
    have hres := isBootFile_ne_restore hn name
    rw [bootSet, h', if_neg (by simpa using hne), if_neg (by simpa using hres)]
    rfl
  have hself : bootSet m t' name = backupSet m t₀ name := by
    rw [bootSet, h', if_pos rfl, hdata]
  refine ⟨fun q hq => ?_, fun n hn => ?_, fun n hn hb => ?_, ?_,
    fun n hw => ?_⟩
  · have hroot := root_of_backup hq
    rw [h', if_neg, if_neg]
    · exact h.backup q hq
    · exact root_ne_boot hroot (List.prefix_append _ _)
    · exact root_ne_boot hroot (List.prefix_append _ _)
  · by_cases hne : n = name
    · subst n
      exact .inr hself
    · have hmem : n ∈ done := by simpa [hne] using hn
      rw [hboot n (hdone n hmem) hne]
      exact h.restored n hmem
  · rw [List.mem_cons, not_or] at hn
    rw [hboot n hb hn.1]
    exact h.untouched n hn.2 hb
  · rw [h', if_neg (by simp), if_neg (by simp), h.dir]
  · have hne : n ++ restoreSuffix ≠ name :=
      (isBootFile_ne_restore hname n).symm
    by_cases hn : n ++ restoreSuffix = name ++ restoreSuffix
    · rw [hn]
      refine .inl ?_
      rw [h', if_neg (by simpa [hn] using hne), if_pos rfl]
    · rw [Writable, h', if_neg (by simpa using hne), if_neg (by simpa using hn)]
      exact h.tmp n hw

theorem Restoring.skip {t₀ : Node} {done : List Name} {name : Name}
    (h : Restoring m t₀ done t) (hnone : backupSet m t₀ name = none) :
    Restoring m t₀ (name :: done) t := by
  refine ⟨h.backup, fun n hn => ?_, fun n hn hb => ?_, h.dir, h.tmp⟩
  · by_cases hne : n = name
    · exact .inl (hne ▸ hnone)
    · exact h.restored n (by simpa [hne] using hn)
  · exact h.untouched n (fun hd => hn (List.mem_cons_of_mem _ hd)) hb

theorem spec_restoreFile {t₀ : Node} {done : List Name} {name : Name}
    (hF : OnlyWritesFail F) (h : Restoring m t₀ done t)
    (hdone : ∀ n ∈ done, bootRecoveryIsBootFile n)
    (hname : bootRecoveryIsBootFile name) :
    Spec F.env (restoreFile m name) t
      (fun ok t' => if ok then Restoring m t₀ (name :: done) t'
        else BackupSame m t₀ t')
      (fun t' => Restoring m t₀ done t' ∨ Restoring m t₀ (name :: done) t') := by
  have hsrc : t.look (m.backupDir ++ [name]) = backupSet m t₀ name :=
    h.backup _ (List.prefix_append _ _)
  have htmp := concat_ne_nil m.boot (name ++ restoreSuffix)
  have hcleanup : ∀ t', Scratched t (m.boot ++ [name ++ restoreSuffix]) t' →
      Spec F.env (do
          let _ ← unlink (m.boot ++ [name ++ restoreSuffix])
          pure false) t'
        (fun ok t' => if ok then Restoring m t₀ (name :: done) t'
          else BackupSame m t₀ t')
        (fun t' => Restoring m t₀ done t' ∨
          Restoring m t₀ (name :: done) t') := by
    intro t' h'
    refine (spec_unlink_tmp htmp h').mono ?_
      fun t'' h'' => .inl (h.scratched hdone h'')
    rintro ok t'' ⟨rfl, h''⟩
    simpa using (h.scratched hdone h'').backup
  rw [restoreFile, spec_bind]
  refine access_spec (fun _ => .inl h) (fun hnone => ?_) fun _ => ?_
  · have hgone : backupSet m t₀ name = none := by
      rcases hnone with hfail | hnone
      · exact absurd rfl (hF _ hfail)
      · rwa [← hsrc]
    simpa using h.skip hgone
  · have hne : m.backupDir ++ [name] ≠ m.boot ++ [name ++ restoreSuffix] :=
      root_ne_boot (root_prefix_backup [name]) (List.prefix_append _ _)
    simp only [if_true]
    rw [spec_bind]
    refine (spec_brCopyFile hne htmp t).mono (fun ok t₁ h₁ => ?_)
      fun t' h' => .inl (h.scratched hdone h')
    cases ok with
    | false =>
        have hs : Scratched t (m.boot ++ [name ++ restoreSuffix]) t₁ := by
          simpa using h₁
        simpa using hcleanup t₁ hs
    | true =>
        obtain ⟨data, hdata, hcopied⟩ := h₁
        have hs : Scratched t (m.boot ++ [name ++ restoreSuffix]) t₁ :=
          scratched_of_file hcopied
        simp only [Bool.not_true, Bool.false_eq_true, if_false]
        rw [spec_bind]
        have hfile : t₁.look (m.boot ++ [name ++ restoreSuffix]) =
            some (.file data) := by
          rw [hcopied, if_pos rfl]
        refine rename_file_spec htmp hfile
          (fun _ => .inl (h.scratched hdone hs))
          (fun e => by simpa [Except.isOk, Except.toBool] using hcleanup t₁ hs)
          fun t₂ h₂ => ?_
        have hreplaced : Replaced t (m.boot ++ [name ++ restoreSuffix])
            (m.boot ++ [name]) data t₂ := by
          intro q
          rw [h₂ q]
          by_cases hq : q = m.boot ++ [name ++ restoreSuffix]
          · simp [hq]
          · rw [if_neg hq, if_neg hq, hs.1 q hq]
        have hdone' := h.replaced hdone hname (by rw [← hsrc, hdata]) hreplaced
        simpa [Except.isOk, Except.toBool] using hdone'

/-- Every file is restored, or the backup is as it was. -/
theorem spec_restoreFiles (hF : OnlyWritesFail F) {names : List Name}
    (hnames : ∀ n ∈ names, bootRecoveryIsBootFile n) (t : Node) :
    Spec F.env (Prog.every names (restoreFile m)) t
      (fun ok t' => BackupSame m t t' ∧ (ok → Restoring m t names t'))
      (BackupSame m t) := by
  -- The loop has restored the names that are not to be visited any more.
  have hbody : ∀ (name : Name) (rest : List Name) (t' : Node),
      (∃ done, done ++ name :: rest = names ∧ Restoring m t done t') →
      Spec F.env (restoreFile m name) t'
        (fun ok t'' =>
          if ok then ∃ done, done ++ rest = names ∧ Restoring m t done t''
          else BackupSame m t t'')
        (BackupSame m t) := by
    rintro name rest t' ⟨done, rfl, h⟩
    refine (spec_restoreFile hF h (fun n hn => hnames n (by simp [hn]))
      (hnames name (by simp))).mono (fun ok t'' hok => ?_) fun t'' hl =>
        hl.elim Restoring.backup Restoring.backup
    cases ok with
    | false => simpa using hok
    | true =>
        simp only [if_true] at hok ⊢
        refine ⟨done ++ [name], by simp, hok.backup, fun n hn => ?_,
          fun n hn hb => ?_, hok.dir, hok.tmp⟩
        · exact hok.restored n (by simpa [or_comm] using hn)
        · exact hok.untouched n (by simpa [or_comm] using hn) hb
  have hfailed : ∀ (name : Name) (t' : Node), BackupSame m t t' →
      Spec F.env (restoreFile m name) t' (fun _ => BackupSame m t)
        (BackupSame m t) := by
    intro name t' h
    have hframe := spec_within (within_restoreFile (m := m)
      (R := fun q => m.boot <+: q) (fun _ hq => hq) name) F.env t'
    have hkeep : ∀ t'', (∀ q, ¬m.boot <+: q →
        Node.look t'' q = Node.look t' q) → BackupSame m t t'' := by
      intro t'' h' q hq
      rw [h' q fun hb => root_ne_boot (root_of_backup hq) hb rfl]
      exact h q hq
    exact hframe.mono (fun _ => hkeep) hkeep
  refine (spec_every (fun rest t' => ∃ done, done ++ rest = names ∧
    Restoring m t done t') hbody hfailed
    ⟨[], rfl, .refl m t⟩).mono (fun ok t' hok => ?_) fun _ => id
  cases ok with
  | false => exact ⟨by simpa using hok, (by rintro ⟨⟩)⟩
  | true =>
      obtain ⟨done, hdone, h⟩ := hok
      rw [List.append_nil] at hdone
      subst hdone
      exact ⟨h.backup, fun _ => h⟩

/-! ## Dropping the trial -/

/-- The boot set is as it was; entries of the backup may be gone. -/
def Dropping (m : Mounts) (t t' : Node) : Prop :=
  BootSame m t t' ∧
    ∀ n, backupSet m t' n = backupSet m t n ∨ backupSet m t' n = none

theorem SetsSame.dropping (h : SetsSame m t t') : Dropping m t t' :=
  ⟨h.1, fun _ => .inl (h.2 _ (List.prefix_append _ _))⟩

theorem Dropping.trans {t'' : Node} (h : Dropping m t t')
    (h' : Dropping m t' t'') : Dropping m t t'' := by
  refine ⟨h.1.trans h'.1, fun n => ?_⟩
  rcases h'.2 n with hsame | hnone
  · rw [hsame]
    exact h.2 n
  · exact .inr hnone

theorem Shrunk.dropping (h : Shrunk m.backupDir t t') : Dropping m t t' :=
  ⟨bootSame_of_root (fun _ => root_of_backup) h.1, fun _ => h.2 _⟩

theorem within_dropMarkers :
    Within (BesideSets m) (do
      let _ ← unlink m.trialPath
      unlink m.eventsPath) := by
  have htrial : BesideSets m m.trialPath :=
    besideSets_of_sibling (by decide) (List.prefix_refl _)
  have hevents : BesideSets m m.eventsPath :=
    besideSets_of_sibling (by decide) (List.prefix_refl _)
  refine .bind ?_ fun _ => ?_
  · simpa [unlink, Prog.op, Call.changes] using htrial
  · simpa [unlink, Prog.op, Call.changes] using hevents

theorem clearTrial_eq (m : Mounts) :
    clearTrial m = (do
      let _ ← (do
        let _ ← unlink m.trialPath
        unlink m.eventsPath)
      brRemoveFlatDir m.backupDir
      brFsyncDir m.stateDir) := by
  simp only [clearTrial, bind_assoc]

theorem spec_clearTrial (m : Mounts) (t : Node) :
    Spec F.env (clearTrial m) t (fun _ => Dropping m t) (Dropping m t) := by
  rw [clearTrial_eq, spec_bind]
  refine (spec_besideSets within_dropMarkers).mono (fun _ t₁ h₁ => ?_)
    fun _ => SetsSame.dropping
  rw [spec_bind]
  refine (spec_brRemoveFlatDir backupDir_ne_nil t₁).mono (fun _ t₂ h₂ => ?_)
    fun t' h => h₁.dropping.trans h.dropping
  have hdone := h₁.dropping.trans h₂.dropping
  exact spec_brFsyncDir hdone hdone

/-- The whole backup is dropped when nothing fails. -/
theorem clearTrial_works (hok : Calm F)
    (hfiles : ∀ n, backupSet m t n ≠ some .dir) :
    Spec F.env (clearTrial m) t
      (fun _ t' => ∀ n, backupSet m t' n = none) (fun _ => True) := by
  rw [clearTrial_eq, spec_bind]
  refine (spec_besideSets within_dropMarkers).mono (fun _ t₁ h₁ => ?_)
    fun _ _ => trivial
  have hset : backupSet m t₁ = backupSet m t := h₁.2.backupSet_eq
  rw [spec_bind]
  by_cases hdir : t₁.look m.backupDir = some .dir
  · refine (brRemoveFlatDir_works backupDir_ne_nil hok hdir fun n => ?_).mono
      (fun _ t₂ h₂ => ?_) fun _ => id
    · have := hfiles n
      rwa [← hset] at this
    · exact spec_brFsyncDir trivial h₂
  · have hgone : ∀ n, backupSet m t₁ n = none := fun n =>
      Node.look_below_of_not_dir hdir (List.prefix_append _ _) (by simp)
    refine (spec_brRemoveFlatDir backupDir_ne_nil t₁).mono (fun _ t₂ h₂ => ?_)
      fun _ _ => trivial
    refine spec_brFsyncDir trivial fun n => ?_
    rcases h₂.2 (m.backupDir ++ [n]) with hsame | hnone
    · exact hsame.trans (hgone n)
    · exact hnone

/-! ## Reverting -/

/-- Every boot file of the backup is in place, and every other boot file is
as it was. -/
def Restored (m : Mounts) (t t' : Node) : Prop :=
  ∀ n, bootRecoveryIsBootFile n →
    bootSet m t' n = (backupSet m t n).or (bootSet m t n)

theorem Restored.of_sets {t'' : Node} (h : Restored m t' t'')
    (hboot : bootSet m t' = bootSet m t)
    (hbackup : backupSet m t' = backupSet m t) : Restored m t t'' := by
  intro n hn
  rw [h n hn, hboot, hbackup]

theorem Restored.of_bootSame {t'' : Node} (h : Restored m t t')
    (hboot : BootSame m t' t'') : Restored m t t'' := by
  intro n hn
  rw [hboot.bootSet_eq]
  exact h n hn

/-- What a revert has done to the boot set and the backup when it ends or
loses power: unless every file is restored, the backup is whole. -/
structure RevertPost (m : Mounts) (t t' : Node) : Prop where
  backup : ∀ n, backupSet m t' n = backupSet m t n ∨ backupSet m t' n = none
  whole : BackupSame m t t' ∨ Restored m t t'

theorem RevertPost.of_same (h : BackupSame m t t') : RevertPost m t t' :=
  ⟨fun _ => .inl (h _ (List.prefix_append _ _)), .inl h⟩

theorem BackupSame.trans {t'' : Node} (h : BackupSame m t t')
    (h' : BackupSame m t' t'') : BackupSame m t t'' :=
  fun q hq => (h' q hq).trans (h q hq)

theorem restored_of_restoring {l : List Name} {t₀ : Node}
    (hproper : ProperBackup (backupSet m t₀)) (hnodup : l.Nodup)
    (hl : ∀ n, n ∈ l ↔ backupSet m t₀ n ≠ none)
    (h : Restoring m t₀ (backupNames l) t) : Restored m t₀ t := by
  intro n hn
  cases hb : backupSet m t₀ n with
  | none =>
      have hnot : n ∉ backupNames l := fun hmem =>
        (hl n).mp (isBootFile_of_mem_backupNames hmem).2 hb
      exact h.untouched n hnot hn
  | some e =>
      have hsome : backupSet m t₀ n ≠ none := by simp [hb]
      have hmem := mem_backupNames hproper hnodup hl hsome hn
      exact ((h.restored n hmem).resolve_left hsome).trans hb

theorem within_writeReport_sets (head : Bytes) :
    Within (BesideSets m) (writeReport m head) :=
  within_writeReport (fun _ => besideSets_of_sibling (by decide))
    (fun _ => besideSets_of_sibling (by decide)) head

theorem spec_listBackup (hF : OnlyWritesFail F) {Q : List Name → Node → Prop}
    {L : Node → Prop} (hlost : L t) (hdir : t.look m.backupDir = some .dir)
    (h : ∀ l : List Name, l.Nodup → (∀ n, n ∈ l ↔ backupSet m t n ≠ none) →
      Q (backupNames l) t) :
    Spec F.env (bootRecoveryListBackup m.backupDir) t Q L := by
  rw [bootRecoveryListBackup, spec_bind]
  refine readdir_spec (fun _ => hlost) (fun e he => ?_) fun l _ hl => ?_
  · rcases he with hfail | hno
    · exact absurd rfl (hF _ hfail)
    · exact absurd hdir hno
  · rw [spec_pure]
    exact h l (hl.nodup_iff.mpr (Node.nodup_names t _))
      fun n => hl.mem_iff.trans mem_names_backup

theorem look_backupDir (h : HasBackup m t) : t.look m.backupDir = some .dir := by
  have := Node.look_dropLast (concat_ne_nil m.backupDir versionName) h
  rwa [List.dropLast_concat] at this

/-- A revert restores every file of the backup, or fails and keeps it. -/
theorem spec_revert (hF : OnlyWritesFail F)
    (hproper : ProperBackup (backupSet m t)) (hyes : HasBackup m t)
    (failedVersion : Bytes) (attempts : Nat) :
    Spec F.env (bootRecoveryRevert m failedVersion attempts) t
      (fun r t' => RevertPost m t t' ∧ (r = -1 → BackupSame m t t') ∧
        (r ≠ -1 → r = 0 ∧ Restored m t t' ∧
          (Calm F → ∀ n, backupSet m t' n = none)))
      (RevertPost m t) := by
  have hpost : ∀ {t'}, SetsSame m t t' → RevertPost m t t' :=
    fun h => .of_same h.2
  rw [bootRecoveryRevert, spec_bind]
  refine (spec_besideSets (within_ensureStateDir besideSets_stateDir)).mono
    (fun ok t₁ h₁ => ?_) fun _ => hpost
  cases ok with
  | false => simpa using ⟨hpost h₁, h₁.2⟩
  | true =>
      have hset₁ : backupSet m t₁ = backupSet m t := h₁.2.backupSet_eq
      have hyes₁ : HasBackup m t₁ := by
        rw [HasBackup, hset₁]
        exact hyes
      simp only [Bool.not_true, Bool.false_eq_true, if_false]
      rw [spec_bind]
      refine spec_hasBackup hF (hpost h₁) (fun _ => ?_)
        fun h => absurd hyes₁ h
      rw [spec_bind]
      simp only [restoreNames, if_true]
      refine spec_listBackup hF (hpost h₁) (look_backupDir hyes₁)
        fun l hnodup hl => ?_
      rw [hset₁] at hl
      rw [spec_bind]
      refine (spec_besideSets (within_restoredVersion true)).mono
        (fun restored t₂ h₂ => ?_) fun _ h => hpost (h₁.trans h)
      replace h₂ := h₁.trans h₂
      rw [spec_bind]
      refine (spec_besideSets (within_writeReport_sets _)).mono
        (fun _ t₃ h₃ => ?_) fun _ h => hpost (h₂.trans h)
      replace h₃ := h₂.trans h₃
      have hset₃ : backupSet m t₃ = backupSet m t := h₃.2.backupSet_eq
      rw [spec_bind]
      refine (spec_restoreFiles hF
        (fun n hn => (isBootFile_of_mem_backupNames hn).1) t₃).mono
        (fun ok t₄ h₄ => ?_) fun _ h => .of_same (h₃.2.trans h)
      have hsame₄ : BackupSame m t t₄ := h₃.2.trans h₄.1
      cases ok with
      | false => simpa using ⟨RevertPost.of_same hsame₄, hsame₄⟩
      | true =>
          have hrest : Restored m t t₄ := by
            rw [← hset₃] at hproper hl
            exact (restored_of_restoring hproper hnodup hl (h₄.2 rfl)).of_sets
              h₃.1.bootSet_eq hset₃
          simp only [Bool.not_true, Bool.false_eq_true, if_false]
          rw [spec_bind]
          have hdrop : ∀ t', Dropping m t₄ t' →
              RevertPost m t t' ∧ Restored m t t' := by
            intro t' h
            have hrest' := hrest.of_bootSame h.1
            refine ⟨⟨fun n => ?_, .inr hrest'⟩, hrest'⟩
            rcases h.2 n with hsame | hnone
            · exact .inl (hsame.trans (hsame₄ _ (List.prefix_append _ _)))
            · exact .inr hnone
          have hclear : Spec F.env (clearTrial m) t₄
              (fun _ t' => Calm F → ∀ n, backupSet m t' n = none)
              (fun _ => True) := by
            by_cases hok : Calm F
            · have hfiles : ∀ n, backupSet m t₄ n ≠ some .dir := by
                intro n
                rw [hsame₄.backupSet_eq]
                rcases hproper.2 n with hnone | ⟨data, hdata⟩
                · rw [hnone]
                  rintro ⟨⟩
                · rw [hdata]
                  rintro ⟨⟩
              exact (clearTrial_works hok hfiles).mono (fun _ _ h _ => h)
                fun _ => id
            · exact (spec_trivial _).mono (fun _ _ _ h => absurd h hok)
                fun _ _ => trivial
          refine ((spec_clearTrial m t₄).and hclear).mono (fun _ t₅ h₅ => ?_)
            fun t' h => (hdrop t' h.1).1
          have hdrop₅ := hdrop t₅ h₅.1
          simpa using ⟨hdrop₅.1, hdrop₅.2, h₅.2⟩

/-- Without a backup nothing is restored. -/
theorem spec_revert_none (hF : OnlyWritesFail F) (hno : ¬HasBackup m t)
    (failedVersion : Bytes) (attempts : Nat) :
    Spec F.env (bootRecoveryRevert m failedVersion attempts) t
      (fun _ => Dropping m t) (Dropping m t) := by
  rw [bootRecoveryRevert, spec_bind]
  refine (spec_besideSets (within_ensureStateDir besideSets_stateDir)).mono
    (fun ok t₁ h₁ => ?_) fun _ => SetsSame.dropping
  cases ok with
  | false => simpa using h₁.dropping
  | true =>
      have hno₁ : ¬HasBackup m t₁ := by
        rw [HasBackup, h₁.2.backupSet_eq]
        exact hno
      simp only [Bool.not_true, Bool.false_eq_true, if_false]
      rw [spec_bind]
      refine spec_hasBackup hF h₁.dropping (fun h => absurd h hno₁)
        fun _ => ?_
      simp only [restoreNames, restoredVersion, Bool.false_eq_true, if_false,
        pure_bind]
      rw [spec_bind]
      refine (spec_besideSets (within_writeReport_sets _)).mono
        (fun _ t₂ h₂ => ?_) fun _ h => (h₁.trans h).dropping
      replace h₂ := (h₁.trans h₂).dropping
      simp only [Prog.every, pure_bind, Bool.not_true, Bool.false_eq_true,
        if_false]
      rw [spec_bind]
      refine (spec_clearTrial m t₂).mono (fun _ t₃ h₃ => ?_)
        fun t' h => h₂.trans h
      simpa using h₂.trans h₃

/-! ## A revert on which nothing fails -/

/-- The boot directory has room for every file and its temporary file. -/
structure Restorable (m : Mounts) (t : Node) : Prop where
  dir : t.look m.boot = some .dir
  leaf : ∀ n, bootSet m t n ≠ some .dir
  tmp : ∀ n, Writable t (m.boot ++ [n ++ restoreSuffix])

theorem restoreFile_works {t₀ : Node} {done : List Name} {name : Name}
    (hok : Calm F) (h : Restoring m t₀ done t) (hroom : Restorable m t₀)
    (hfiles : ∀ n, backupSet m t₀ n = none ∨
      ∃ data, backupSet m t₀ n = some (.file data))
    (hname : bootRecoveryIsBootFile name) (hfresh : name ∉ done) :
    Spec F.env (restoreFile m name) t (fun ok _ => ok = true)
      (fun _ => True) := by
  have hsrc : t.look (m.backupDir ++ [name]) = backupSet m t₀ name :=
    h.backup _ (List.prefix_append _ _)
  have htmp := concat_ne_nil m.boot (name ++ restoreSuffix)
  have hne : m.backupDir ++ [name] ≠ m.boot ++ [name ++ restoreSuffix] :=
    root_ne_boot (root_prefix_backup [name]) (List.prefix_append _ _)
  have hdir : t.look m.boot = some .dir := h.dir.trans hroom.dir
  have hsuffix : name ≠ name ++ restoreSuffix :=
    isBootFile_ne_restore hname name
  have hapart : ∀ a b : Name, a ≠ b → ¬m.boot ++ [a] <+: m.boot ++ [b] := by
    intro a b hab hpre
    exact hab (by simpa [List.prefix_append_right_inj] using hpre)
  rw [restoreFile, spec_bind]
  refine access_spec (fun _ => trivial) (fun _ => by simp) fun hsome => ?_
  obtain ⟨data, hdata⟩ : ∃ data, t.look (m.backupDir ++ [name]) =
      some (.file data) := by
    rw [hsrc]
    exact (hfiles name).resolve_left (by rwa [← hsrc])
  simp only [if_true]
  rw [spec_bind]
  have hcopy := (brCopyFile_works hne htmp hok hdata (by simpa using hdir)
    (h.tmp name (hroom.tmp name))).and (spec_brCopyFile (F := F) hne htmp t)
  refine hcopy.mono (fun ok t₁ h₁ => ?_) fun _ _ => trivial
  obtain ⟨rfl, h₁⟩ := h₁
  obtain ⟨data', hdata', hcopied⟩ := by simpa using h₁
  simp only [Bool.not_true, Bool.false_eq_true, if_false]
  rw [spec_bind]
  refine rename_file_works htmp (concat_ne_nil m.boot name)
    (hok.not_fail rfl) (hapart _ _ hsuffix.symm) (hapart _ _ hsuffix)
    (by rw [hcopied, if_pos rfl]) ?_ ?_ (fun _ => trivial) fun t₂ _ => ?_
  · rw [List.dropLast_concat, hcopied, if_neg (by simp), hdir]
  · rw [hcopied, if_neg (by simpa using hsuffix)]
    have hsame := h.untouched name hfresh hname
    rw [bootSet, bootSet] at hsame
    rw [hsame]
    exact hroom.leaf name
  · simp [Except.isOk, Except.toBool]

/-- All files are restored, in order. -/
theorem restoreFiles_works (hF : OnlyWritesFail F) (hok : Calm F)
    (hroom : Restorable m t)
    (hfiles : ∀ n, backupSet m t n = none ∨
      ∃ data, backupSet m t n = some (.file data))
    {names : List Name} (hnodup : names.Nodup)
    (hnames : ∀ n ∈ names, bootRecoveryIsBootFile n) :
    Spec F.env (Prog.every names (restoreFile m)) t
      (fun ok t' => ok = true ∧ Restoring m t names t')
      (fun t' => ∃ done rest, done ++ rest = names ∧
        Restoring m t done t') := by
  have hbody : ∀ (name : Name) (rest : List Name) (t' : Node),
      (∃ done, done ++ name :: rest = names ∧ Restoring m t done t') →
      Spec F.env (restoreFile m name) t'
        (fun ok t'' =>
          if ok then ∃ done, done ++ rest = names ∧ Restoring m t done t''
          else False)
        (fun t' => ∃ done rest, done ++ rest = names ∧
          Restoring m t done t') := by
    rintro name rest t' ⟨done, hsplit, h⟩
    have hname : bootRecoveryIsBootFile name :=
      hnames name (by simp [← hsplit])
    have hfresh : name ∉ done := by
      rw [← hsplit, List.nodup_append] at hnodup
      exact fun hmem => hnodup.2.2 name hmem name (by simp) rfl
    have hmove : ∀ t'', Restoring m t (name :: done) t'' →
        Restoring m t (done ++ [name]) t'' := by
      intro t'' h'
      refine ⟨h'.backup, fun n hn => ?_, fun n hn hb => ?_, h'.dir, h'.tmp⟩
      · exact h'.restored n (by simpa [or_comm] using hn)
      · exact h'.untouched n (by simpa [or_comm] using hn) hb
    refine ((restoreFile_works hok h hroom hfiles hname hfresh).and
      (spec_restoreFile hF h (fun n hn => hnames n (by simp [← hsplit, hn]))
        hname)).mono ?_ ?_
    · rintro ok t'' ⟨rfl, h'⟩
      exact ⟨done ++ [name], by simp [← hsplit], hmove t'' (by simpa using h')⟩
    · rintro t'' ⟨-, h' | h'⟩
      · exact ⟨done, name :: rest, hsplit, h'⟩
      · exact ⟨done ++ [name], rest, by simp [← hsplit], hmove t'' h'⟩
  refine (spec_every (F := fun _ => False) (fun rest t' => ∃ done,
    done ++ rest = names ∧ Restoring m t done t') hbody (by rintro _ _ ⟨⟩)
    ⟨[], rfl, .refl m t⟩).mono (fun ok t' h => ?_) fun _ => id
  cases ok with
  | false => exact absurd h (by simp)
  | true =>
      obtain ⟨done, hdone, h⟩ := h
      rw [List.append_nil] at hdone
      exact ⟨rfl, hdone ▸ h⟩

theorem eq_nil_of_append_last {a b r : List Name} {c : Name}
    (h : a ++ c :: r = b ++ [c]) (hb : c ∉ b) : r = [] := by
  rcases r.eq_nil_or_concat with hnil | ⟨r', x, rfl⟩
  · exact hnil
  · rw [List.concat_eq_append, ← List.cons_append, ← List.append_assoc] at h
    have hinit := (List.append_inj' h rfl).1
    exact absurd (by simp [← hinit]) hb

/-- `config.txt` is as it was, or every file of the backup is in place. -/
def ConfigLast (m : Mounts) (t t' : Node) : Prop :=
  bootSet m t' configName = bootSet m t configName ∨ Restored m t t'

theorem configLast_of_restoring {l : List Name} (hnodup : l.Nodup)
    (hl : ∀ n, n ∈ l ↔ backupSet m t n ≠ none)
    (hproper : ProperBackup (backupSet m t)) {done rest : List Name}
    (hsplit : done ++ rest = backupNames l) (h : Restoring m t done t') :
    ConfigLast m t t' := by
  by_cases hc : configName ∈ done
  · right
    obtain ⟨others, hnames, hlast⟩ := backupNames_config_last l
    -- `config.txt` is the last name, so nothing is left.
    have hrest : rest = [] := by
      obtain ⟨d₁, d₂, rfl⟩ := List.append_of_mem hc
      have hcl : configName ∈ l := by
        have hmem : configName ∈ backupNames l := by simp [← hsplit]
        exact (isBootFile_of_mem_backupNames hmem).2
      rw [if_pos hcl] at hnames
      have heq : d₁ ++ configName :: (d₂ ++ rest) = others ++ [configName] := by
        rw [← hnames, ← hsplit]
        simp
      exact (List.append_eq_nil_iff.mp (eq_nil_of_append_last heq hlast)).2
    subst hrest
    rw [List.append_nil] at hsplit
    exact restored_of_restoring hproper hnodup hl (hsplit ▸ h)
  · exact .inl (h.untouched configName hc (by decide))

/-- The state directory exists, as the backup is in it. -/
theorem ensureStateDir_works (hok : Calm F) (hyes : HasBackup m t) :
    Spec F.env (bootRecoveryEnsureStateDir m) t (fun ok _ => ok = true)
      (fun _ => True) := by
  have hstate : t.look m.stateDir ≠ none := by
    intro hnone
    have hbelow := Node.look_append_eq_none hnone
      [ascii "boot-backup", versionName]
    apply hyes
    rw [backupSet, Mounts.backupDir, List.append_assoc]
    exact hbelow
  rw [bootRecoveryEnsureStateDir, spec_bind, spec_mkdir]
  refine ⟨fun _ => trivial, ?_, fun hfail => absurd hfail (hok.not_fail rfl)⟩
  cases hlook : t.look m.stateDir with
  | none => exact absurd hlook hstate
  | some e => simp [Node.mkdirAt, hlook, applied]

/-- Where nothing fails and there is room, a revert succeeds, and power loss
finds `config.txt` replaced only after all other files. -/
theorem revert_works (hF : OnlyWritesFail F) (hok : Calm F)
    (hproper : ProperBackup (backupSet m t)) (hyes : HasBackup m t)
    (hroom : Restorable m t) (failedVersion : Bytes) (attempts : Nat) :
    Spec F.env (bootRecoveryRevert m failedVersion attempts) t
      (fun r _ => r = 0) (ConfigLast m t) := by
  have hlast : ∀ {t'}, SetsSame m t t' → ConfigLast m t t' :=
    fun h => .inl (congrFun h.1.bootSet_eq _)
  rw [bootRecoveryRevert, spec_bind]
  refine ((ensureStateDir_works hok hyes).and (spec_besideSets
    (within_ensureStateDir besideSets_stateDir))).mono
    (fun ok t₁ h₁ => ?_) fun _ h => hlast h.2
  obtain ⟨rfl, h₁⟩ := h₁
  have hset₁ : backupSet m t₁ = backupSet m t := h₁.2.backupSet_eq
  have hyes₁ : HasBackup m t₁ := by
    rw [HasBackup, hset₁]
    exact hyes
  simp only [Bool.not_true, Bool.false_eq_true, if_false]
  rw [spec_bind]
  refine spec_hasBackup hF (hlast h₁) (fun _ => ?_) fun h => absurd hyes₁ h
  rw [spec_bind]
  simp only [restoreNames, if_true]
  refine spec_listBackup hF (hlast h₁) (look_backupDir hyes₁)
    fun l hnodup hl => ?_
  rw [hset₁] at hl
  rw [spec_bind]
  refine (spec_besideSets (within_restoredVersion true)).mono
    (fun restored t₂ h₂ => ?_) fun _ h => hlast (h₁.trans h)
  replace h₂ := h₁.trans h₂
  rw [spec_bind]
  refine (spec_besideSets (within_writeReport_sets _)).mono
    (fun _ t₃ h₃ => ?_) fun _ h => hlast (h₂.trans h)
  replace h₃ := h₂.trans h₃
  have hset₃ : backupSet m t₃ = backupSet m t := h₃.2.backupSet_eq
  have hboot₃ : bootSet m t₃ = bootSet m t := h₃.1.bootSet_eq
  have hroom₃ : Restorable m t₃ := by
    refine ⟨(h₃.1 _ (List.prefix_refl _)).trans hroom.dir, ?_, fun n => ?_⟩
    · rw [hboot₃]
      exact hroom.leaf
    · rw [Writable, h₃.1 _ (List.prefix_append _ _)]
      exact hroom.tmp n
  -- From here on the backup and the boot set are those at the start.
  have hmove : ∀ {t'}, ConfigLast m t₃ t' → ConfigLast m t t' := by
    rintro t' (hconfig | hrest)
    · exact .inl (hconfig.trans (congrFun hboot₃ _))
    · exact .inr (hrest.of_sets hboot₃ hset₃)
  rw [← hset₃] at hl hproper
  rw [spec_bind]
  refine (restoreFiles_works hF hok hroom₃ hproper.2 (nodup_backupNames hnodup)
    (fun n hn => (isBootFile_of_mem_backupNames hn).1)).mono
    (fun ok t₄ h₄ => ?_) ?_
  · obtain ⟨rfl, h₄⟩ := h₄
    have hrest : Restored m t₃ t₄ :=
      restored_of_restoring hproper hnodup hl h₄
    simp only [Bool.not_true, Bool.false_eq_true, if_false]
    rw [spec_bind]
    refine (spec_clearTrial m t₄).mono (fun _ t₅ _ => by simp) fun t' h => ?_
    exact hmove (.inr (hrest.of_bootSame h.1))
  · rintro t' ⟨done, rest, hsplit, h⟩
    exact hmove (configLast_of_restoring hnodup hl hproper hsplit h)

end Audiox
