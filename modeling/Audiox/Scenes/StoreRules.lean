import Audiox.Scenes.Store
import Mathlib

/-!
# What the operations of the scene store do

Specifications under any failure model: a scene that is saved has been checked
against every stored one, and the files of the other scenes are left alone.
-/

namespace Audiox.Scenes

open ByteCodec Config Checks FileTree Interruptible

variable {T : Type}

/-! ## File names -/

theorem sceneFileId_scene {id : Bytes} (hid : id ≠ []) :
    sceneFileId (id ++ sceneSuffix) = some id := by
  have hlen : (id ++ sceneSuffix).length = id.length + 6 := by
    rw [List.length_append]
    rfl
  have hpos := List.length_pos_of_ne_nil hid
  have hdrop : (id ++ sceneSuffix).drop id.length = sceneSuffix :=
    List.drop_left
  have htake : (id ++ sceneSuffix).take id.length = id := List.take_left
  rw [sceneFileId, hlen, Nat.add_sub_cancel, hdrop, htake, if_neg]
  rw [not_or, not_not]
  exact ⟨by omega, rfl⟩

theorem sceneFileId_eq_some {name : Name} {id : Bytes}
    (h : sceneFileId name = some id) : name = id ++ sceneSuffix ∧ id ≠ [] := by
  rw [sceneFileId] at h
  split_ifs at h with hname
  rw [not_or, not_not] at hname
  obtain ⟨hlen, hsuffix⟩ := hname
  obtain rfl := Option.some.inj h
  constructor
  · conv_lhs => rw [← List.take_append_drop (name.length - 6) name, hsuffix]
  · rw [← List.length_pos_iff, List.length_take]
    omega

theorem sceneFileId_iff {name : Name} {id : Bytes} :
    sceneFileId name = some id ↔ name = id ++ sceneSuffix ∧ id ≠ [] := by
  constructor
  · exact sceneFileId_eq_some
  · rintro ⟨rfl, hid⟩
    exact sceneFileId_scene hid

/-- The pending file is no scene file. -/
theorem sceneFileId_pending (id : Bytes) :
    sceneFileId (id ++ sceneSuffix ++ ascii ".pending") = none := by
  have hlen : (id ++ sceneSuffix ++ ascii ".pending").length - 6 =
      (id ++ sceneSuffix ++ ascii ".p").length := by
    simp only [List.length_append]
    rw [show (ascii ".pending").length = 8 by rfl,
      show (ascii ".p").length = 2 by rfl]
    omega
  have hsplit : id ++ sceneSuffix ++ ascii ".pending" =
      (id ++ sceneSuffix ++ ascii ".p") ++ ascii "ending" := by
    rw [List.append_assoc (id ++ sceneSuffix)]
    rfl
  rw [sceneFileId, hlen, if_pos]
  right
  rw [hsplit, List.drop_left]
  decide

theorem ne_nil_of_validId {id : Bytes} (h : validId id = true) : id ≠ [] := by
  simp only [validId, Bool.and_eq_true, decide_eq_true_eq] at h
  exact h.1.1

/-! ## What is stored -/

/-- The scene files are the same in both trees. -/
def FilesSame (dir : Path) (t t' : Node) : Prop :=
  ∀ id, id ≠ [] → t'.look (scenePath dir id) = t.look (scenePath dir id)

/-- The second tree has the file of one scene more, or another content of it. -/
def SavedAs (dir : Path) (id : Bytes) (entry : Option Entry)
    (t t' : Node) : Prop :=
  ∀ other, other ≠ [] → t'.look (scenePath dir other) =
    if other = id then entry else t.look (scenePath dir other)

theorem FilesSame.refl (dir : Path) (t : Node) : FilesSame dir t t :=
  fun _ _ => rfl

theorem FilesSame.trans {dir : Path} {t t' t'' : Node}
    (h : FilesSame dir t t') (h' : FilesSame dir t' t'') :
    FilesSame dir t t'' :=
  fun id hid => (h' id hid).trans (h id hid)

theorem scenePath_inj {dir : Path} {id other : Bytes}
    (h : scenePath dir id = scenePath dir other) : id = other := by
  simpa [scenePath] using h

theorem scenePath_ne_pending (dir : Path) {id : Bytes} (hid : id ≠ [])
    (other : Bytes) : scenePath dir id ≠ pendingPath dir other := by
  intro h
  have hname : id ++ sceneSuffix = other ++ sceneSuffix ++ ascii ".pending" := by
    simpa [scenePath, pendingPath] using h
  have hsome := sceneFileId_scene hid
  rw [hname, sceneFileId_pending] at hsome
  cases hsome

theorem scenePath_ne_dir (dir : Path) (id : Bytes) : scenePath dir id ≠ dir := by
  intro h
  have hlen := congrArg List.length h
  rw [scenePath, List.length_append, List.length_singleton] at hlen
  omega

theorem pendingPath_ne_dir (dir : Path) (id : Bytes) :
    pendingPath dir id ≠ dir := by
  intro h
  have hlen := congrArg List.length h
  rw [pendingPath, List.length_append, List.length_singleton] at hlen
  omega

theorem scenePath_ne_nil (dir : Path) (id : Bytes) : scenePath dir id ≠ [] :=
  concat_ne_nil dir _

theorem pendingPath_ne_nil (dir : Path) (id : Bytes) :
    pendingPath dir id ≠ [] :=
  concat_ne_nil dir _

/-- Work at the pending file leaves the scene files alone. -/
theorem filesSame_of_pending {dir : Path} {id : Bytes} {t t' : Node}
    (h : ∀ q, q ≠ pendingPath dir id → t'.look q = t.look q) :
    FilesSame dir t t' :=
  fun _ hother => h _ (scenePath_ne_pending dir hother id)

/-- The ids of the scene files. -/
def sceneIds (dir : Path) (t : Node) : List Bytes :=
  (t.names dir).filterMap sceneFileId

theorem mem_sceneIds {dir : Path} {t : Node} {id : Bytes} :
    id ∈ sceneIds dir t ↔ id ≠ [] ∧ t.look (scenePath dir id) ≠ none := by
  rw [sceneIds, List.mem_filterMap]
  constructor
  · rintro ⟨name, hmem, hname⟩
    obtain ⟨rfl, hid⟩ := sceneFileId_eq_some hname
    exact ⟨hid, Option.isSome_iff_ne_none.mp (Node.mem_names.mp hmem)⟩
  · rintro ⟨hid, hlook⟩
    exact ⟨id ++ sceneSuffix,
      Node.mem_names.mpr (Option.isSome_iff_ne_none.mpr hlook),
      sceneFileId_scene hid⟩

theorem nodup_sceneIds (dir : Path) (t : Node) : (sceneIds dir t).Nodup := by
  apply (Node.nodup_names t dir).filterMap
  intro a b id ha hb
  rw [Option.mem_def] at ha hb
  rw [(sceneFileId_eq_some ha).1, (sceneFileId_eq_some hb).1]

theorem FilesSame.sceneIds {dir : Path} {t t' : Node}
    (h : FilesSame dir t t') : (sceneIds dir t').Perm (sceneIds dir t) := by
  apply (List.perm_ext_iff_of_nodup (nodup_sceneIds dir t')
    (nodup_sceneIds dir t)).mpr
  intro id
  rw [mem_sceneIds, mem_sceneIds]
  constructor
  · rintro ⟨hid, hlook⟩
    exact ⟨hid, by rwa [← h id hid]⟩
  · rintro ⟨hid, hlook⟩
    exact ⟨hid, by rwa [h id hid]⟩

section Rules

variable {F : Faults} {t : Node} {L : Node → Prop} {host : Host T}
  {dir : Path} {scene : Scene T}

/-! ## Looking at the stored scenes -/

/-- A stored scene that can be read and does not conflict with the saved
one. -/
def Passed (host : Host T) (dir : Path) (scene : Scene T) (t : Node)
    (id : Bytes) : Prop :=
  ∃ file other, t.look (scenePath dir id) = some (.file file) ∧
    readScene host file id = .ok other ∧
    (id = scene.id ∨ conflicts other scene = false)

theorem readPath_spec {path : Path} {id : Bytes}
    {Q : Except String (Scene T) → Node → Prop}
    (hlost : ∀ c, F.mayLose c t → L t)
    (hno : ∀ e, Q (.error e) t)
    (hyes : ∀ file other, t.look path = some (.file file) →
      readScene host file id = .ok other → Q (.ok other) t) :
    Spec F.env (readPath host path id) t Q L := by
  simp only [readPath, spec_bind]
  apply readFile_spec (hlost _)
  · intro e _
    simpa using hno _
  · intro file hfile
    simp only [spec_pure]
    cases hread : readScene host file id with
    | error e => exact hno e
    | ok other => exact hyes file other hfile hread

theorem scanScenes_spec (hlost : ∀ c, F.mayLose c t → L t)
    (names : List Name) (count : Nat) (found : Bool) :
    Spec F.env (scanScenes host dir scene names count found) t
      (fun r t' => t' = t ∧ ∀ c f, r = .ok (c, f) →
        c = count + (names.filterMap sceneFileId).length ∧
        (f = true → found = true ∨ scene.id ∈ names.filterMap sceneFileId) ∧
        ∀ id ∈ names.filterMap sceneFileId, Passed host dir scene t id) L := by
  induction names generalizing count found with
  | nil =>
      simp only [scanScenes, spec_pure]
      refine ⟨trivial, ?_⟩
      rintro c f heq
      obtain ⟨rfl, rfl⟩ := Prod.mk.inj (Except.ok.inj heq)
      simp
  | cons name names ih =>
      rw [scanScenes]
      cases hname : sceneFileId name with
      | none =>
          rw [List.filterMap_cons_none hname]
          exact ih count found
      | some id =>
          obtain ⟨hpath, -⟩ := sceneFileId_eq_some hname
          rw [List.filterMap_cons_some hname]
          simp only [spec_bind]
          apply readPath_spec hlost
          · intro e
            simp
          · intro file other hfile hread
            have hid := (sceneRead hread).id
            rw [hpath] at hfile
            have hgo : ∀ found', (found' = true →
                found = true ∨ scene.id ∈ id :: names.filterMap sceneFileId) →
                Passed host dir scene t id →
                Spec F.env (scanScenes host dir scene names (count + 1) found') t
                  (fun r t' => t' = t ∧ ∀ c f, r = .ok (c, f) →
                    c = count + (id :: names.filterMap sceneFileId).length ∧
                    (f = true → found = true ∨
                      scene.id ∈ id :: names.filterMap sceneFileId) ∧
                    ∀ id' ∈ id :: names.filterMap sceneFileId,
                      Passed host dir scene t id') L := by
              intro found' hfound hpassed
              refine (ih (count + 1) found').mono ?_ fun _ h => h
              rintro r t' ⟨ht, hok⟩
              refine ⟨ht, ?_⟩
              intro c f heq
              obtain ⟨hcount, hf, hall⟩ := hok c f heq
              refine ⟨?_, ?_, ?_⟩
              · rw [hcount, List.length_cons]
                omega
              · intro hf'
                rcases hf hf' with hfound' | hmem
                · exact hfound hfound'
                · exact .inr (List.mem_cons_of_mem _ hmem)
              · intro id' hid'
                rcases List.mem_cons.mp hid' with rfl | hid'
                · exact hpassed
                · exact hall id' hid'
            by_cases hsame : other.id = scene.id
            · have heq : id = scene.id := hid.symm.trans hsame
              simp only [if_pos hsame]
              apply hgo
              · intro _
                rw [heq]
                exact .inr (List.mem_cons_self ..)
              · exact ⟨file, other, hfile, hread, .inl heq⟩
            · simp only [if_neg hsame]
              by_cases hconflict : conflicts other scene = true
              · simp [hconflict]
              · simp only [hconflict, Bool.false_eq_true, if_false]
                apply hgo
                · exact fun hf => .inl hf
                · exact ⟨file, other, hfile, hread,
                    .inr (by simpa using hconflict)⟩

/-! ## Writing a scene -/

/-- The final flush of the directory may fail. -/
def SyncMayFail (F : Faults) (dir : Path) : Prop :=
  F.mayFail (.openRead dir) ∨ F.mayFail (.fsync dir)

theorem syncDirectory_spec {Q : Bool → Node → Prop}
    (hlost : ∀ c, F.mayLose c t → L t) (hdir : t.look dir ≠ none)
    (hyes : Q true t) (hno : SyncMayFail F dir → Q false t) :
    Spec F.env (syncDirectory dir) t Q L := by
  simp only [syncDirectory, spec_bind]
  apply openRead_spec (hlost _)
  · intro e hfail
    have hsync := hno (.inl (hfail.resolve_right hdir))
    simpa [Except.isOk, Except.toBool] using hsync
  · intro _
    simp only [Except.isOk, Except.toBool, Bool.not_true, Bool.false_eq_true,
      if_false, spec_bind, spec_fsync, spec_pure]
    exact ⟨hlost _, hyes, fun hfail => hno (.inr hfail)⟩

/-- The scene has been written in the place of its file. -/
def Written (floats : Floats T) (dir : Path) (scene : Scene T)
    (t t' : Node) : Prop :=
  SavedAs dir scene.id (some (.file (sceneText floats scene))) t t'

theorem look_dir_of_scene {t : Node} {id : Bytes}
    (h : t.look (scenePath dir id) ≠ none) : t.look dir = some .dir := by
  have hlast := Node.look_dropLast (concat_ne_nil dir _) h
  rwa [List.dropLast_concat] at hlast

theorem commitScene_spec {floats : Floats T} (hid : scene.id ≠ [])
    {t₀ : Node} (hlost : ∀ c t, F.mayLose c t → FilesSame dir t₀ t ∨
      Written floats dir scene t₀ t → L t)
    (hempty : t.look (pendingPath dir scene.id) = some (.file []))
    (hsame : FilesSame dir t₀ t) :
    Spec F.env (commitScene floats dir scene) t
      (fun ok t' => if ok then Written floats dir scene t₀ t'
        else FilesSame dir t₀ t' ∨
          (Written floats dir scene t₀ t' ∧ SyncMayFail F dir)) L := by
  have hpending := pendingPath_ne_nil dir scene.id
  simp only [commitScene, spec_bind]
  apply append_spec hpending
  · exact fun hl => hlost _ _ hl (.inl hsame)
  · intro e t₁ h₁ _
    have hkept := hsame.trans (filesSame_of_pending h₁)
    simpa [Except.isOk, Except.toBool] using Or.inl hkept
  · intro t₁ old hold h₁
    obtain rfl : old = [] := by
      have heq := hold.symm.trans hempty
      simpa using heq
    have hfile : t₁.look (pendingPath dir scene.id) =
        some (.file (sceneText floats scene)) := by
      rw [h₁, if_pos rfl, List.nil_append]
    have hsame₁ : FilesSame dir t₀ t₁ :=
      hsame.trans (filesSame_of_pending fun q hq => by rw [h₁, if_neg hq])
    simp only [Except.isOk, Except.toBool, Bool.not_true, Bool.false_eq_true,
      if_false, spec_bind]
    apply fsync_spec
    · exact fun hl => hlost _ _ hl (.inl hsame₁)
    · intro r
      cases r with
      | error e => simpa using Or.inl hsame₁
      | ok u =>
          simp only [Bool.not_true, Bool.false_eq_true, if_false, spec_bind]
          apply rename_file_spec hpending hfile
          · exact fun hl => hlost _ _ hl (.inl hsame₁)
          · intro e
            simpa using Or.inl hsame₁
          · intro t₂ h₂
            have hwritten : Written floats dir scene t₀ t₂ := by
              intro other hother
              rw [h₂]
              by_cases heq : other = scene.id
              · rw [if_pos (by rw [heq]), if_pos heq]
              · rw [if_neg (mt scenePath_inj heq),
                  if_neg (scenePath_ne_pending dir hother scene.id),
                  if_neg heq, hsame₁ other hother]
            have hdir : t₂.look dir ≠ none := by
              have hscene := hwritten scene.id hid
              rw [if_pos rfl] at hscene
              rw [look_dir_of_scene (by rw [hscene]; simp)]
              simp
            simp only [Bool.not_true, Bool.false_eq_true, if_false]
            apply syncDirectory_spec
            · exact fun c hl => hlost _ _ hl (.inr hwritten)
            · exact hdir
            · exact hwritten
            · exact fun hsync => .inr ⟨hwritten, hsync⟩

/-- What an operation has done that changes the scene files only as `Done`
says: all of it if it succeeds; nothing if it fails, unless the final flush has
failed. -/
def DoneOrNothing (F : Faults) (dir : Path) (t : Node) (Done : Node → Prop) :
    Except String Unit → Node → Prop
  | .ok _, t' => Done t'
  | .error _, t' => FilesSame dir t t' ∨ (Done t' ∧ SyncMayFail F dir)

theorem DoneOrNothing.mono {Done Done' : Node → Prop} {t₀ : Node}
    {r : Except String Unit} {t' : Node}
    (h : DoneOrNothing F dir t₀ Done r t') (hdone : Done t' → Done' t') :
    DoneOrNothing F dir t₀ Done' r t' := by
  cases r with
  | ok u => exact hdone h
  | error e => exact h.imp (fun h => h) fun h => ⟨hdone h.1, h.2⟩

theorem writeScene_spec {floats : Floats T} (hid : scene.id ≠ []) {t₀ : Node}
    (hlost : ∀ c t, F.mayLose c t → FilesSame dir t₀ t ∨
      Written floats dir scene t₀ t → L t)
    (hsame : FilesSame dir t₀ t) :
    Spec F.env (writeScene floats dir scene) t
      (DoneOrNothing F dir t₀ (Written floats dir scene t₀)) L := by
  have hpending := pendingPath_ne_nil dir scene.id
  simp only [writeScene, spec_bind]
  apply create_spec hpending
  · exact fun hl => hlost _ _ hl (.inl hsame)
  · intro e
    exact (spec_pure _).mpr (.inl hsame)
  · intro t₁ data hdata _ h₁
    obtain rfl := hdata (by decide)
    have hempty : t₁.look (pendingPath dir scene.id) = some (.file []) := by
      rw [h₁, if_pos rfl]
    have hsame₁ : FilesSame dir t₀ t₁ :=
      hsame.trans (filesSame_of_pending fun q hq => by rw [h₁, if_neg hq])
    simp only [Except.isOk, Except.toBool, Bool.not_true, Bool.false_eq_true,
      if_false, spec_bind]
    refine (commitScene_spec hid hlost hempty hsame₁).mono ?_ fun _ h => h
    intro ok t₂ h₂
    cases ok with
    | true => exact (spec_pure _).mpr h₂
    | false =>
        simp only [Bool.false_eq_true, if_false] at h₂ ⊢
        have hweak : FilesSame dir t₀ t₂ ∨ Written floats dir scene t₀ t₂ :=
          h₂.imp (fun h => h) fun h => h.1
        simp only [spec_bind, spec_pure]
        apply unlink_spec hpending
        · exact fun hl => hlost _ _ hl hweak
        · intro e _
          exact h₂
        · intro t₃ _ _ h₃
          have hkept : FilesSame dir t₂ t₃ :=
            filesSame_of_pending fun q hq => by rw [h₃, if_neg hq]
          rcases h₂ with hfiles | ⟨hwritten, hsync⟩
          · exact .inl (hfiles.trans hkept)
          · refine .inr ⟨?_, hsync⟩
            intro other hother
            rw [hkept other hother, hwritten other hother]

/-! ## Saving and removing -/

/-- What has been checked when a scene is written. -/
structure Admitted (host : Host T) (dir : Path) (scene : Scene T)
    (t : Node) : Prop where
  valid : validate host scene false = .ok ()
  passed : ∀ id ∈ sceneIds dir t, Passed host dir scene t id
  room : scene.id ∈ sceneIds dir t ∨ (sceneIds dir t).length < maxScenes

theorem checkAndWrite_spec (hvalid : validate host scene false = .ok ())
    {t₀ : Node} (hlost : ∀ c t', F.mayLose c t' → FilesSame dir t₀ t' ∨
      (Admitted host dir scene t₀ ∧ Written host.floats dir scene t₀ t') →
      L t')
    (hsame : FilesSame dir t₀ t) :
    Spec F.env (checkAndWrite host dir scene) t
      (DoneOrNothing F dir t₀ fun t' =>
        Admitted host dir scene t₀ ∧ Written host.floats dir scene t₀ t') L := by
  have hid := ne_nil_of_validId (accepted_of_validate hvalid).id
  have hpassed : ∀ id, id ≠ [] → Passed host dir scene t id →
      Passed host dir scene t₀ id := by
    rintro id hne ⟨file, other, hfile, hread⟩
    rw [hsame id hne] at hfile
    exact ⟨file, other, hfile, hread⟩
  simp only [checkAndWrite, spec_bind]
  apply readdir_spec
  · exact fun hl => hlost _ _ hl (.inl hsame)
  · intro e _
    exact (spec_pure _).mpr (.inl hsame)
  · intro names _ hnames
    have hids : (names.filterMap sceneFileId).Perm (sceneIds dir t₀) :=
      (hnames.filterMap sceneFileId).trans hsame.sceneIds
    simp only [spec_bind]
    refine (scanScenes_spec (fun c hl => hlost _ _ hl (.inl hsame))
      names 0 false).mono ?_ fun _ h => h
    rintro r t' ⟨rfl, hok⟩
    cases r with
    | error e => exact (spec_pure _).mpr (.inl hsame)
    | ok result =>
        obtain ⟨count, found⟩ := result
        obtain ⟨hcount, hfound, hall⟩ := hok count found rfl
        by_cases hfull : (!found && decide (count ≥ maxScenes)) = true
        · simp only [hfull, if_true]
          exact (spec_pure _).mpr (.inl hsame)
        · simp only [hfull, Bool.false_eq_true, if_false]
          have hadmitted : Admitted host dir scene t₀ := by
            refine ⟨hvalid, ?_, ?_⟩
            · intro id hmem
              exact hpassed id (mem_sceneIds.mp hmem).1
                (hall id (hids.mem_iff.mpr hmem))
            · cases found with
              | true =>
                  left
                  exact hids.mem_iff.mp
                    ((hfound rfl).resolve_left Bool.false_ne_true)
              | false =>
                  right
                  have hlt : count < maxScenes := by simpa using hfull
                  rw [← hids.length_eq]
                  omega
          have hwrite := writeScene_spec hid
            (fun c t' hl h => hlost c t' hl
              (h.imp (fun h => h) fun h => ⟨hadmitted, h⟩)) hsame
          exact hwrite.mono
            (fun r t' h => h.mono fun hdone => ⟨hadmitted, hdone⟩) fun _ h => h

theorem save_spec (hlost : ∀ c t', F.mayLose c t' → FilesSame dir t t' ∨
      (Admitted host dir scene t ∧ Written host.floats dir scene t t') →
      L t') :
    Spec F.env (Store.save host dir scene) t
      (DoneOrNothing F dir t fun t' =>
        Admitted host dir scene t ∧ Written host.floats dir scene t t') L := by
  have hrefl := FilesSame.refl dir t
  rw [Store.save]
  cases hvalid : validate host scene false with
  | error e => exact (spec_pure _).mpr (.inl hrefl)
  | ok u =>
      simp only [ensureDirectory, spec_bind]
      apply mkdir_spec
      · exact fun hl => hlost _ _ hl (.inl hrefl)
      · intro e _
        simp only [spec_pure]
        cases e == Errno.eexist
        · exact (spec_pure _).mpr (.inl hrefl)
        · exact checkAndWrite_spec hvalid hlost hrefl
      · intro t₁ _ h₁
        have hsame : FilesSame dir t t₁ := by
          intro id _
          rw [h₁, if_neg (scenePath_ne_dir dir id)]
        simp only [spec_pure]
        exact checkAndWrite_spec hvalid hlost hsame

/-- The file of a scene has been removed. -/
def Removed (dir : Path) (id : Bytes) (t t' : Node) : Prop :=
  validId id = true ∧ SavedAs dir id none t t'

theorem remove_spec {id : Bytes} (hlost : ∀ c t', F.mayLose c t' →
      FilesSame dir t t' ∨ Removed dir id t t' → L t') :
    Spec F.env (Store.remove dir id) t
      (DoneOrNothing F dir t (Removed dir id t)) L := by
  have hrefl := FilesSame.refl dir t
  rw [Store.remove]
  by_cases hid : validId id = true
  · rw [if_neg (not_not.mpr hid)]
    simp only [spec_bind]
    apply unlink_spec (scenePath_ne_nil dir id)
    · exact fun hl => hlost _ _ hl (.inl hrefl)
    · intro e _
      exact (spec_pure _).mpr (.inl hrefl)
    · intro t₁ hsome _ h₁
      have hremoved : Removed dir id t t₁ := by
        refine ⟨hid, ?_⟩
        intro other _
        rw [h₁]
        by_cases heq : other = id
        · rw [if_pos (by rw [heq]), if_pos heq]
        · rw [if_neg (fun h => heq (scenePath_inj h)), if_neg heq]
      have hdir : t₁.look dir ≠ none := by
        have hbefore : t.look dir = some .dir := look_dir_of_scene hsome
        rw [h₁, if_neg (scenePath_ne_dir dir id).symm, hbefore]
        simp
      simp only [Except.isOk, Except.toBool, Bool.not_true,
        Bool.false_eq_true, if_false, spec_bind]
      apply syncDirectory_spec
      · exact fun c hl => hlost _ _ hl (.inr hremoved)
      · exact hdir
      · exact (spec_pure _).mpr hremoved
      · exact fun hsync => (spec_pure _).mpr (.inr ⟨hremoved, hsync⟩)
  · rw [if_pos hid]
    exact (spec_pure _).mpr (.inl hrefl)

end Rules

end Audiox.Scenes
