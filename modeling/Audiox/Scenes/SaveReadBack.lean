import Audiox.Scenes.StoreInvariant
import Mathlib

/-!
# Reading a saved scene back

A scene is saved whatever the size of its file, but a file above the limit is
not read.  Such a scene also keeps every other one from being listed or saved.
-/

namespace Audiox.Scenes

open ByteCodec Config Checks FileTree Interruptible

variable {T α : Type}

/-- Where every call works, the program ends with a result that satisfies the
condition. -/
def Gives (p : Prog files α) (t : Node) (P : α → Prop) : Prop :=
  Spec Faults.calm.env p t (fun r _ => P r) fun _ => False

/-- A stored scene that can be read. -/
def Readable (host : Host T) (dir : Path) (t : Node) (id : Bytes) : Prop :=
  ∃ file other, t.look (scenePath dir id) = some (.file file) ∧
    readScene host file id = .ok other

/-- What the checks of a save ask for, apart from the stored scenes being
readable, and a pending path that is free. -/
structure Savable (host : Host T) (dir : Path) (scene : Scene T)
    (t : Node) : Prop where
  valid : validate host scene false = .ok ()
  free : ∀ id ∈ sceneIds dir t, id ≠ scene.id → ∀ file other,
    t.look (scenePath dir id) = some (.file file) →
    readScene host file id = .ok other → conflicts other scene = false
  room : scene.id ∈ sceneIds dir t ∨ (sceneIds dir t).length < maxScenes
  pending : Writable t (pendingPath dir scene.id)

/-! ## Operations that work -/

section Works

variable {host : Host T} {dir : Path} {scene : Scene T} {t : Node}

theorem readPath_works {path : Path} {id file : Bytes}
    {Q : Except String (Scene T) → Node → Prop}
    (hfile : t.look path = some (.file file))
    (hread : Q (readScene host file id) t) :
    Spec Faults.calm.env (readPath host path id) t Q fun _ => False := by
  simp only [readPath, spec_bind, spec_readFile, readFileAt, hfile, spec_pure]
  exact ⟨fun hlost => hlost, hread,
    fun hfail => absurd hfail (calm_calm.not_fail rfl)⟩

theorem store_read_gives {P : Except String (Scene T) → Prop}
    (hid : validId scene.id = true) {file : Bytes}
    (hfile : t.look (scenePath dir scene.id) = some (.file file)) :
    Gives (Store.read host dir scene.id) t P ↔
      P (readScene host file scene.id) := by
  rw [Gives, Store.read, if_neg (not_not.mpr hid)]
  constructor
  · intro h
    simp only [readPath, spec_bind, spec_readFile, readFileAt, hfile,
      spec_pure] at h
    exact h.2.1
  · intro h
    exact readPath_works (Q := fun r _ => P r) hfile h

theorem listScenes_works (names : List Name) (out : List (Scene T))
    (hread : ∀ id ∈ names.filterMap sceneFileId, Readable host dir t id)
    (hroom : out.length + (names.filterMap sceneFileId).length ≤ maxScenes) :
    Spec Faults.calm.env (listScenes host dir names out) t
      (fun r _ => ∃ scenes, r = .ok scenes ∧ (∀ other ∈ out, other ∈ scenes) ∧
        ∀ id ∈ names.filterMap sceneFileId, ∀ file other,
          t.look (scenePath dir id) = some (.file file) →
          readScene host file id = .ok other → other ∈ scenes)
      fun _ => False := by
  induction names generalizing out with
  | nil =>
      simp only [listScenes, spec_pure]
      exact ⟨out, rfl, fun _ h => h, by simp⟩
  | cons name names ih =>
      rw [listScenes]
      cases hname : sceneFileId name with
      | none =>
          rw [List.filterMap_cons_none hname] at hread hroom ⊢
          exact ih out hread hroom
      | some id =>
          rw [List.filterMap_cons_some hname] at hread hroom ⊢
          obtain ⟨rfl, -⟩ := sceneFileId_eq_some hname
          obtain ⟨file, other, hfile, hother⟩ := hread id (List.mem_cons_self ..)
          have hstored := sceneRead hother
          have hid : validId id = true := by
            rw [← hstored.id]
            exact (accepted_of_validate hstored.valid).id
          simp only [if_neg (not_not.mpr hid), spec_bind]
          apply readPath_works hfile
          rw [List.length_cons] at hroom
          have hnext : (out ++ [other]).length +
              (names.filterMap sceneFileId).length ≤ maxScenes := by
            rw [List.length_append, List.length_singleton]
            omega
          have hfits : ¬out.length + 1 > maxScenes := by omega
          simp only [hother, if_neg hfits]
          have hrest := ih (out ++ [other])
            (fun id' hid' => hread id' (List.mem_cons_of_mem _ hid')) hnext
          refine hrest.mono ?_ fun _ h => h
          rintro r _ ⟨scenes, rfl, hout, hall⟩
          refine ⟨scenes, rfl, ?_, ?_⟩
          · intro s hs
            exact hout s (List.mem_append_left _ hs)
          · intro id' hid' file' other' hfile' hother'
            rcases List.mem_cons.mp hid' with rfl | hid'
            · have hsame : file' = file := by
                have heq := hfile'.symm.trans hfile
                simpa using heq
              rw [hsame, hother] at hother'
              obtain rfl := Except.ok.inj hother'
              exact hout _ (by simp)
            · exact hall id' hid' file' other' hfile' hother'

theorem readdir_works {Q : Except Errno (List Name) → Node → Prop}
    (hdir : t.look dir = some .dir)
    (h : ∀ names : List Name, names.Perm (t.names dir) → Q (.ok names) t) :
    Spec Faults.calm.env (readdir dir) t Q fun _ => False := by
  apply readdir_spec
  · exact fun hlost => hlost
  · intro e hno
    rcases hno with hfail | hother
    · exact absurd hfail (calm_calm.not_fail rfl)
    · exact absurd hdir hother
  · intro names _ hnames
    exact h names hnames

/-- The list has every stored scene. -/
theorem store_list_gives (hdir : t.look dir = some .dir)
    (hread : ∀ id ∈ sceneIds dir t, Readable host dir t id)
    (hroom : (sceneIds dir t).length ≤ maxScenes) :
    Gives (Store.list host dir) t fun r =>
      ∃ scenes, r = .ok scenes ∧ ∀ id ∈ sceneIds dir t, ∀ file other,
        t.look (scenePath dir id) = some (.file file) →
        readScene host file id = .ok other → other ∈ scenes := by
  rw [Gives, Store.list]
  simp only [spec_bind]
  apply readdir_works hdir
  intro names hnames
  have hids : (names.filterMap sceneFileId).Perm (sceneIds dir t) :=
    hnames.filterMap sceneFileId
  simp only [spec_bind]
  have hlist := listScenes_works names []
    (fun id hid => hread id (hids.mem_iff.mp hid))
    (by rwa [List.length_nil, Nat.zero_add, hids.length_eq])
  refine hlist.mono ?_ fun _ h => h
  rintro r _ ⟨scenes, rfl, -, hall⟩
  refine (spec_pure _).mpr ⟨_, rfl, ?_⟩
  intro id hid file other hfile hother
  rw [List.mem_mergeSort]
  exact hall id (hids.mem_iff.mpr hid) file other hfile hother

theorem scanScenes_works (names : List Name)
    (hpassed : ∀ id ∈ names.filterMap sceneFileId, Passed host dir scene t id)
    (count : Nat) (found : Bool) :
    Spec Faults.calm.env (scanScenes host dir scene names count found) t
      (fun r t' => t' = t ∧ ∃ f,
        r = .ok (count + (names.filterMap sceneFileId).length, f) ∧
        (found = true ∨ scene.id ∈ names.filterMap sceneFileId → f = true))
      fun _ => False := by
  induction names generalizing count found with
  | nil =>
      simp only [scanScenes, spec_pure]
      exact ⟨trivial, found, rfl, by simp⟩
  | cons name names ih =>
      rw [scanScenes]
      cases hname : sceneFileId name with
      | none =>
          rw [List.filterMap_cons_none hname] at hpassed ⊢
          exact ih hpassed count found
      | some id =>
          rw [List.filterMap_cons_some hname] at hpassed ⊢
          obtain ⟨rfl, -⟩ := sceneFileId_eq_some hname
          obtain ⟨file, other, hfile, hread, hfree⟩ :=
            hpassed id (List.mem_cons_self ..)
          have hid := (sceneRead hread).id
          have hrest : ∀ found', (found = true ∨ scene.id = id →
              found' = true) →
              Spec Faults.calm.env
                (scanScenes host dir scene names (count + 1) found') t
                (fun r t' => t' = t ∧ ∃ f,
                  r = .ok (count +
                    (id :: names.filterMap sceneFileId).length, f) ∧
                  (found = true ∨
                    scene.id ∈ id :: names.filterMap sceneFileId →
                    f = true)) fun _ => False := by
            intro found' hfound'
            refine (ih (fun id' hid' => hpassed id'
              (List.mem_cons_of_mem _ hid')) (count + 1) found').mono ?_
              fun _ h => h
            rintro r t' ⟨ht, f, rfl, hf⟩
            refine ⟨ht, f, ?_, ?_⟩
            · rw [List.length_cons, Nat.add_assoc count 1,
                Nat.add_comm 1]
            · rintro (hfound | hmem)
              · exact hf (.inl (hfound' (.inl hfound)))
              · rcases List.mem_cons.mp hmem with hsame | hmem
                · exact hf (.inl (hfound' (.inr hsame)))
                · exact hf (.inr hmem)
          simp only [spec_bind]
          apply readPath_works hfile
          simp only [hread]
          by_cases hsame : other.id = scene.id
          · rw [if_pos hsame]
            exact hrest true fun _ => rfl
          · rw [if_neg hsame]
            rw [hid] at hsame
            have hno := hfree.resolve_left hsame
            simp only [hno, Bool.false_eq_true, if_false]
            apply hrest
            rintro (hfound | heq)
            · exact hfound
            · exact absurd heq.symm hsame

theorem syncDirectory_works {Q : Bool → Node → Prop}
    (hdir : t.look dir = some .dir) (h : Q true t) :
    Spec Faults.calm.env (syncDirectory dir) t Q fun _ => False := by
  apply syncDirectory_spec
  · exact fun _ hlost => hlost
  · simp [hdir]
  · exact h
  · rintro (hfail | hfail)
    · exact absurd hfail (calm_calm.not_fail rfl)
    · exact absurd hfail (calm_calm.not_fail rfl)

theorem writeScene_works {floats : Floats T} (hid : scene.id ≠ [])
    (hdir : t.look dir = some .dir)
    (hpending : Writable t (pendingPath dir scene.id))
    (hplace : t.look (scenePath dir scene.id) ≠ some .dir) :
    Spec Faults.calm.env (writeScene floats dir scene) t
      (fun r _ => r = .ok ()) fun _ => False := by
  have hpath := pendingPath_ne_nil dir scene.id
  have hne := scenePath_ne_pending dir hid scene.id
  have hparent : (pendingPath dir scene.id).dropLast = dir :=
    List.dropLast_concat
  have hdisj : ∀ a b : Name, dir ++ [a] ≠ dir ++ [b] →
      ¬dir ++ [a] <+: dir ++ [b] := by
    intro a b hab hpre
    rw [List.prefix_append_right_inj] at hpre
    apply hab
    rw [List.cons_prefix_cons] at hpre
    rw [hpre.1]
  have hworks : ∀ {c : Call}, c.makesTemp = false → ¬Faults.calm.mayFail c :=
    fun hc => calm_calm.not_fail hc
  simp only [writeScene, spec_bind]
  apply create_works hpath (hworks rfl)
  · rw [hparent, hdir]
  · exact hpending
  · exact fun hlost => hlost
  intro t₁ h₁
  simp only [Except.isOk, Except.toBool, Bool.not_true, Bool.false_eq_true,
    if_false, spec_bind, commitScene]
  have hempty : t₁.look (pendingPath dir scene.id) = some (.file []) := by
    rw [h₁, if_pos rfl]
  apply append_works hpath (hworks rfl) hempty
  · exact fun hlost => hlost
  intro t₂ h₂
  have hfile : t₂.look (pendingPath dir scene.id) =
      some (.file ([] ++ sceneText floats scene)) := by
    rw [h₂, if_pos rfl]
  have hother : ∀ q, q ≠ pendingPath dir scene.id → t₂.look q = t.look q := by
    intro q hq
    rw [h₂, if_neg hq, h₁, if_neg hq]
  simp only [Bool.not_true, Bool.false_eq_true, if_false, spec_bind]
  apply fsync_works (hworks rfl)
  · exact fun hlost => hlost
  simp only [Bool.not_true, Bool.false_eq_true, if_false, spec_bind]
  apply rename_file_works hpath (scenePath_ne_nil dir scene.id) (hworks rfl)
    (hdisj _ _ hne.symm) (hdisj _ _ hne) hfile
  · have hscene : (scenePath dir scene.id).dropLast = dir :=
      List.dropLast_concat
    rw [hscene, hother dir (pendingPath_ne_dir dir scene.id).symm, hdir]
  · rw [hother _ hne]
    exact hplace
  · exact fun hlost => hlost
  intro t₃ h₃
  simp only [Bool.not_true, Bool.false_eq_true, if_false]
  apply syncDirectory_works
  · rw [h₃, if_neg (scenePath_ne_dir dir scene.id).symm,
      if_neg (pendingPath_ne_dir dir scene.id).symm,
      hother dir (pendingPath_ne_dir dir scene.id).symm, hdir]
  · exact (spec_pure _).mpr rfl

/-- A save succeeds whose checks pass, if every stored scene can be read. -/
theorem store_save_gives (hdir : t.look dir = some .dir)
    (hread : ∀ id ∈ sceneIds dir t, Readable host dir t id)
    (hsavable : Savable host dir scene t) :
    Gives (Store.save host dir scene) t fun r => r = .ok () := by
  have hid := ne_nil_of_validId (accepted_of_validate hsavable.valid).id
  have hpassed : ∀ id ∈ sceneIds dir t, Passed host dir scene t id := by
    intro id hmem
    obtain ⟨file, other, hfile, hother⟩ := hread id hmem
    refine ⟨file, other, hfile, hother, ?_⟩
    by_cases hsame : id = scene.id
    · exact .inl hsame
    · exact .inr (hsavable.free id hmem hsame file other hfile hother)
  have hplace : t.look (scenePath dir scene.id) ≠ some .dir := by
    intro hlook
    have hmem : scene.id ∈ sceneIds dir t := by
      rw [mem_sceneIds, hlook]
      exact ⟨hid, by simp⟩
    obtain ⟨file, -, hfile, -⟩ := hread scene.id hmem
    rw [hlook] at hfile
    cases hfile
  have hexists : t.mkdirAt dir = .error .eexist := by
    rw [Node.mkdirAt, hdir]
  rw [Gives, Store.save, hsavable.valid]
  simp only [ensureDirectory, spec_bind, spec_mkdir, hexists, applied,
    spec_pure]
  refine ⟨fun hlost => hlost, ?_,
    fun hfail => absurd hfail (calm_calm.not_fail rfl)⟩
  simp only [BEq.rfl, Bool.not_true, Bool.false_eq_true, if_false,
    checkAndWrite, spec_bind]
  apply readdir_works hdir
  intro names hnames
  have hids : (names.filterMap sceneFileId).Perm (sceneIds dir t) :=
    hnames.filterMap sceneFileId
  simp only [spec_bind]
  have hscan := scanScenes_works names
    (fun id hmem => hpassed id (hids.mem_iff.mp hmem)) 0 false
  refine hscan.mono ?_ fun _ h => h
  rintro r t' ⟨rfl, f, rfl, hfound⟩
  have hroom : (!f && decide (0 + (names.filterMap sceneFileId).length ≥
      maxScenes)) = false := by
    rcases hsavable.room with hmem | hlt
    · rw [hfound (.inr (hids.mem_iff.mpr hmem))]
      rfl
    · rw [← hids.length_eq] at hlt
      have hless : ¬0 + (names.filterMap sceneFileId).length ≥ maxScenes := by
        omega
      rw [decide_eq_false hless, Bool.and_false]
  simp only [hroom, Bool.false_eq_true, if_false]
  exact writeScene_works hid hdir hsavable.pending hplace

end Works

/-! ## After a save -/

section Kept

variable {F : Faults} {host : Host T} {dir : Path} {scene : Scene T}
  {t t' : Node}

/-- The save is kept: the scene is read back as it is, and the directory can
still be listed, if it was within the capacity, and saved to. -/
structure SaveKept (host : Host T) (dir : Path) (scene : Scene T)
    (t t' : Node) : Prop where
  read : Gives (Store.read host dir scene.id) t' fun r => r = .ok scene
  list : (sceneIds dir t).length ≤ maxScenes →
    Gives (Store.list host dir) t' fun r => ∃ scenes, r = .ok scenes ∧
      scene ∈ scenes
  save : ∀ other, Savable host dir other t' →
    Gives (Store.save host dir other) t' fun r => r = .ok ()

theorem Written.file (hid : scene.id ≠ [])
    (h : Written host.floats dir scene t t') :
    t'.look (scenePath dir scene.id) =
      some (.file (sceneText host.floats scene)) := by
  rw [h scene.id hid, if_pos rfl]

theorem Written.mem_sceneIds {id : Bytes}
    (h : Written host.floats dir scene t t') (hmem : id ∈ sceneIds dir t') :
    id = scene.id ∨ id ∈ sceneIds dir t := by
  rw [Scenes.mem_sceneIds] at hmem ⊢
  by_cases hsame : id = scene.id
  · exact .inl hsame
  · rw [h id hmem.1, if_neg hsame] at hmem
    exact .inr hmem

theorem Written.capacity (h : Written host.floats dir scene t t')
    (hadmitted : Admitted host dir scene t)
    (hcap : (sceneIds dir t).length ≤ maxScenes) :
    (sceneIds dir t').length ≤ maxScenes := by
  have hnodup := nodup_sceneIds dir t'
  rcases hadmitted.room with hmem | hlt
  · have hsub : sceneIds dir t' ⊆ sceneIds dir t := by
      intro id hid
      rcases h.mem_sceneIds hid with rfl | hid
      · exact hmem
      · exact hid
    exact (hnodup.subperm hsub).length_le.trans hcap
  · have hsub : sceneIds dir t' ⊆ scene.id :: sceneIds dir t := by
      intro id hid
      rw [List.mem_cons]
      exact h.mem_sceneIds hid
    have hle := (hnodup.subperm hsub).length_le
    rw [List.length_cons] at hle
    omega

/-- The other scenes can be read after the save, as they could before. -/
theorem Written.readable (h : Written host.floats dir scene t t')
    (hadmitted : Admitted host dir scene t)
    (hread : readScene host (sceneText host.floats scene) scene.id = .ok scene)
    {id : Bytes} (hmem : id ∈ sceneIds dir t') : Readable host dir t' id := by
  have hid := (Scenes.mem_sceneIds.mp hmem).1
  by_cases hsame : id = scene.id
  · rw [hsame] at hid ⊢
    exact ⟨_, scene, h.file hid, hread⟩
  · have hbefore := (h.mem_sceneIds hmem).resolve_left hsame
    obtain ⟨file, other, hfile, hother, -⟩ := hadmitted.passed id hbefore
    refine ⟨file, other, ?_, hother⟩
    rw [h id hid, if_neg hsame, hfile]

/-- A successful save is kept exactly if the file is not too large, no
parameter name has a blank, and the levels that are not in the file are one. -/
theorem save_reads_back_iff (hfloats : host.floats.RoundTrips)
    (hsave : Exec F.env (Store.save host dir scene) t (.done (.ok ()) t')) :
    SaveKept host dir scene t t' ↔
      sceneSize host.floats scene ≤ maxFileSize ∧ Plain host.floats scene := by
  have hdone : Admitted host dir scene t ∧
      Written host.floats dir scene t t' :=
    save_spec (L := fun _ => True) (fun _ _ _ _ => trivial) _ hsave
  obtain ⟨hadmitted, hwritten⟩ := hdone
  have haccepted := accepted_of_validate hadmitted.valid
  have hid := ne_nil_of_validId haccepted.id
  have hfile := hwritten.file hid
  rw [← length_sceneText haccepted,
    ← readScene_sceneText_iff hfloats hadmitted.valid]
  constructor
  · intro h
    exact (store_read_gives haccepted.id hfile).mp h.read
  · intro hread
    have hreadable : ∀ id ∈ sceneIds dir t', Readable host dir t' id :=
      fun _ hmem => hwritten.readable hadmitted hread hmem
    have hsome : t'.look (scenePath dir scene.id) ≠ none := by
      rw [hfile]
      simp
    have hdir := look_dir_of_scene hsome
    constructor
    · exact (store_read_gives haccepted.id hfile).mpr hread
    · intro hcap
      refine Spec.mono (store_list_gives hdir hreadable
        (hwritten.capacity hadmitted hcap)) ?_ fun _ h => h
      rintro r _ ⟨scenes, rfl, hall⟩
      refine ⟨scenes, rfl, ?_⟩
      have hmem : scene.id ∈ sceneIds dir t' := by
        rw [Scenes.mem_sceneIds, hfile]
        exact ⟨hid, by simp⟩
      exact hall scene.id hmem _ scene hfile hread
    · intro other hsavable
      exact store_save_gives hdir hreadable hsavable

end Kept

/-! ## Samples -/

/-- The outcome of a save into an empty directory where nothing fails. -/
def savedSample (scene : Scene Int) : Outcome (Except String Unit) Node :=
  drive (failingAt []) (fun _ _ _ => false)
    (Store.save ⟨wholeFloats, []⟩ [] scene) 0 (.dir [])

theorem exec_savedSample {scene : Scene Int}
    (h : (savedSample scene).result? = some (.ok ())) :
    Exec Faults.any.env (Store.save ⟨wholeFloats, []⟩ [] scene) (.dir [])
      (.done (.ok ()) (savedSample scene).state) := by
  have hallowed : ∀ k c t, Faults.any.env.allows c (failingAt [] k c t) t :=
    failingAt_allowed fun _ _ => trivial
  rw [← Outcome.eq_done h]
  exact exec_drive hallowed (by rintro _ _ _ ⟨⟩) _ 0 _

theorem save_reads_back_iff_sample :
    SaveKept ⟨wholeFloats, []⟩ [] sampleScene (.dir [])
        (savedSample sampleScene).state ↔
      sceneSize wholeFloats sampleScene ≤ maxFileSize ∧
        Plain wholeFloats sampleScene := by
  have hdone : (savedSample sampleScene).result? = some (.ok ()) := by
    decide
  exact save_reads_back_iff wholeFloats_roundTrips (exec_savedSample hdone)

/-- An effect of a plugin that is not known, with a blank in the name of its
parameter. -/
def spacedScene : Scene Int where
  id := ascii "echo"
  name := ascii "Echo"
  effects := [⟨ascii "fx_1", ascii "plugin_echo", 1, 1, 1, 1, 1, []⟩]
  params := [⟨ascii "fx_1", ascii "wet mix", 1⟩]

/-- The scene is saved, but it is not read back. -/
theorem spaced_scene_lost :
    Exec Faults.any.env (Store.save ⟨wholeFloats, []⟩ [] spacedScene) (.dir [])
        (.done (.ok ()) (savedSample spacedScene).state) ∧
      ¬Gives (Store.read ⟨wholeFloats, []⟩ [] spacedScene.id)
        (savedSample spacedScene).state fun r => r = .ok spacedScene := by
  constructor
  · exact exec_savedSample (by decide)
  · have hfile : (savedSample spacedScene).state.look
        (scenePath [] spacedScene.id) =
        some (.file (sceneText wholeFloats spacedScene)) := by
      decide
    intro h
    have hread := (store_read_gives (by decide) hfile).mp h
    have hplain := (sceneRead hread).plain
    exact hplain.params ⟨ascii "fx_1", ascii "wet mix", 1⟩ (by decide)
      (by decide)

end Audiox.Scenes
