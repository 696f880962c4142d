import Audiox.Scenes.StoreRules
import Audiox.Support.KeyedList
import Audiox.Support.Runs
import Mathlib

/-!
# The invariant of the scene store

In every run of the store, whatever calls fail and wherever power is lost, the
scene files are those of a set of scenes that is not too large and in which no
two scenes share a name or a binding.
-/

namespace Audiox.Scenes

open ByteCodec Config FileTree Interruptible KeyedList Runs

variable {T : Type}

/-! ## Sets of scenes -/

/-- Both scenes are recalled by the same note. -/
def SameBinding (a b : Scene T) : Prop :=
  0 ≤ a.note ∧ a.note = b.note ∧ a.channel = b.channel

/-- The scenes that a store may hold together. -/
structure SceneSet (T : Type) where
  scenes : List (Scene T)
  ids : (scenes.map Scene.id).Nodup
  names : (scenes.map Scene.name).Nodup
  bindings : scenes.Pairwise fun a b => ¬SameBinding a b
  capacity : scenes.length ≤ maxScenes

namespace SceneSet

def empty (T : Type) : SceneSet T where
  scenes := []
  ids := by simp
  names := by simp
  bindings := by simp
  capacity := by simp

/-- What a scene needs in order to be put into a set. -/
structure Admits (set : SceneSet T) (scene : Scene T) : Prop where
  names : ∀ other ∈ set.scenes, other.id ≠ scene.id → other.name ≠ scene.name
  bindings : ∀ other ∈ set.scenes, other.id ≠ scene.id →
    ¬SameBinding scene other
  room : scene.id ∈ set.scenes.map Scene.id ∨ set.scenes.length < maxScenes

def insert (set : SceneSet T) (scene : Scene T) (h : set.Admits scene) :
    SceneSet T where
  scenes := put Scene.id scene set.scenes
  ids := nodup_map_put set.ids fun _ _ hne => hne
  names := nodup_map_put set.names h.names
  bindings := pairwise_put set.bindings h.bindings
  capacity := length_put_le (h.room.imp (fun hmem => ⟨hmem, set.capacity⟩) id)

def erase (set : SceneSet T) (id : Bytes) : SceneSet T where
  scenes := without Scene.id id set.scenes
  ids := nodup_map_without set.ids
  names := nodup_map_without set.names
  bindings := pairwise_without set.bindings
  capacity := length_without_le.trans set.capacity

end SceneSet

/-! ## What a tree stores -/

/-- The scene files of the tree are those of the set. -/
structure Holds (floats : Floats T) (dir : Path) (set : SceneSet T)
    (t : Node) : Prop where
  accepted : ∀ scene ∈ set.scenes, Accepted floats scene
  files : ∀ id, id ≠ [] → t.look (scenePath dir id) =
    (find Scene.id id set.scenes).map fun scene =>
      .file (sceneText floats scene)

section Steps

variable {floats : Floats T} {dir : Path} {set : SceneSet T} {t t' : Node}

theorem holds_empty (h : t.names dir = []) :
    Holds floats dir (SceneSet.empty T) t := by
  constructor
  · intro scene hscene
    exact absurd hscene List.not_mem_nil
  · intro id _
    have hmem : id ++ sceneSuffix ∉ t.names dir := by
      rw [h]
      exact List.not_mem_nil
    rw [Node.mem_names, Option.not_isSome_iff_eq_none] at hmem
    exact hmem

theorem Holds.mem_sceneIds (h : Holds floats dir set t) {id : Bytes} :
    id ∈ sceneIds dir t ↔ id ∈ set.scenes.map Scene.id := by
  rw [Scenes.mem_sceneIds]
  constructor
  · rintro ⟨hid, hlook⟩
    rw [h.files id hid] at hlook
    cases hfind : find Scene.id id set.scenes with
    | none => simp [hfind] at hlook
    | some scene =>
        obtain ⟨hmem, hkey⟩ := mem_of_find hfind
        exact List.mem_map.mpr ⟨scene, hmem, hkey⟩
  · intro hmem
    obtain ⟨scene, hscene, rfl⟩ := List.mem_map.mp hmem
    have hid := ne_nil_of_validId (h.accepted scene hscene).id
    refine ⟨hid, ?_⟩
    rw [h.files _ hid, find_of_mem set.ids hscene]
    simp

theorem Holds.length_sceneIds (h : Holds floats dir set t) :
    (sceneIds dir t).length = set.scenes.length := by
  have hperm : (sceneIds dir t).Perm (set.scenes.map Scene.id) :=
    (List.perm_ext_iff_of_nodup (nodup_sceneIds dir t) set.ids).mpr
      fun _ => h.mem_sceneIds
  rw [hperm.length_eq, List.length_map]

theorem Holds.same (h : Holds floats dir set t) (hsame : FilesSame dir t t') :
    Holds floats dir set t' :=
  ⟨h.accepted, fun id hid => (hsame id hid).trans (h.files id hid)⟩

/-- The checks against the files are checks against the set. -/
theorem Holds.admits (hfloats : floats.RoundTrips)
    (h : Holds floats dir set t) {plugins : List (PluginType T)}
    {scene : Scene T} (hadmitted : Admitted ⟨floats, plugins⟩ dir scene t) :
    set.Admits scene := by
  have hfree : ∀ other ∈ set.scenes, other.id ≠ scene.id →
      conflicts other scene = false := by
    intro other hother hne
    have haccepted := h.accepted other hother
    have hid := ne_nil_of_validId haccepted.id
    have hmem : other.id ∈ sceneIds dir t :=
      h.mem_sceneIds.mpr (List.mem_map_of_mem hother)
    obtain ⟨file, read, hfile, hread, hcompatible⟩ :=
      hadmitted.passed other.id hmem
    rw [h.files _ hid, find_of_mem set.ids hother] at hfile
    obtain rfl : sceneText floats other = file := by simpa using hfile
    obtain ⟨hname, hchannel, hnote⟩ :=
      head_of_readScene hfloats haccepted hread
    have hconflict := hcompatible.resolve_left hne
    rw [conflicts, hname, hchannel, hnote] at hconflict
    exact hconflict
  refine ⟨?_, ?_, ?_⟩
  · intro other hother hne heq
    have hconflict := hfree other hother hne
    simp [conflicts, heq] at hconflict
  · rintro other hother hne ⟨hpos, hnote, hchannel⟩
    have hconflict := hfree other hother hne
    rw [hnote] at hpos
    simp [conflicts, hpos, hnote, hchannel] at hconflict
  · rcases hadmitted.room with hmem | hlt
    · exact .inl (h.mem_sceneIds.mp hmem)
    · rw [h.length_sceneIds] at hlt
      exact .inr hlt

theorem Holds.written (h : Holds floats dir set t) {scene : Scene T}
    (haccepted : Accepted floats scene) (hadmits : set.Admits scene)
    (hwritten : Written floats dir scene t t') :
    Holds floats dir (set.insert scene hadmits) t' := by
  constructor
  · intro other hother
    rcases mem_put.mp hother with rfl | ⟨hother, -⟩
    · exact haccepted
    · exact h.accepted other hother
  · intro id hid
    rw [hwritten id hid, h.files id hid, SceneSet.insert, find_put]
    split
    · rfl
    · rfl

theorem Holds.removed (h : Holds floats dir set t) {id : Bytes}
    (hremoved : Removed dir id t t') : Holds floats dir (set.erase id) t' := by
  constructor
  · intro other hother
    exact h.accepted other (mem_without.mp hother).1
  · intro other hother
    rw [hremoved.2 other hother, h.files other hother, SceneSet.erase,
      find_without]
    split
    · rfl
    · rfl

end Steps

/-! ## Runs -/

/-- A call of the store that changes it, for a save with the plugin types that
are registered then. -/
inductive StoreCall (T : Type)
  | save (plugins : List (PluginType T)) (scene : Scene T)
  | remove (id : Bytes)

def StoreCall.program (floats : Floats T) (dir : Path) :
    StoreCall T → Prog files (Except String Unit)
  | .save plugins scene => Store.save ⟨floats, plugins⟩ dir scene
  | .remove id => Store.remove dir id

/-- A call in which anything may fail, and which power loss may cut short. -/
def storeStep (floats : Floats T) (dir : Path) (t : Node) (call : StoreCall T)
    (t' : Node) : Prop :=
  ∃ o, Exec Faults.any.env (call.program floats dir) t o ∧ o.state = t'

/-- What a call does to the scene files. -/
inductive Effect (floats : Floats T) (dir : Path) (t t' : Node) :
    StoreCall T → Prop
  | nothing (call : StoreCall T) (h : FilesSame dir t t') :
      Effect floats dir t t' call
  | saved (plugins : List (PluginType T)) (scene : Scene T)
      (h : Admitted ⟨floats, plugins⟩ dir scene t)
      (hwritten : Written floats dir scene t t') :
      Effect floats dir t t' (.save plugins scene)
  | removed (id : Bytes) (h : Removed dir id t t') :
      Effect floats dir t t' (.remove id)

/-- A call changes its scene only: it does its work completely, or nothing;
a failure is reported with the work done only if the final flush fails. -/
theorem call_spec (floats : Floats T) (dir : Path) (F : Faults) (t : Node)
    (call : StoreCall T) :
    Spec F.env (call.program floats dir) t
      (fun r t' => Effect floats dir t t' call ∧
        (¬SyncMayFail F dir → ∀ e, r = .error e → FilesSame dir t t'))
      (fun t' => Effect floats dir t t' call) := by
  cases call with
  | save plugins scene =>
      refine Spec.mono (save_spec ?_) ?_ fun _ h => h
      · intro c t' _ h
        rcases h with hsame | ⟨hadmitted, hwritten⟩
        · exact .nothing _ hsame
        · exact .saved plugins scene hadmitted hwritten
      · intro r t' h
        cases r with
        | ok u =>
            obtain ⟨hadmitted, hwritten⟩ := h
            exact ⟨.saved plugins scene hadmitted hwritten, by rintro _ _ ⟨⟩⟩
        | error e =>
            rcases h with hsame | ⟨⟨hadmitted, hwritten⟩, hsync⟩
            · exact ⟨.nothing _ hsame, fun _ _ _ => hsame⟩
            · exact ⟨.saved plugins scene hadmitted hwritten,
                fun hno => absurd hsync hno⟩
  | remove id =>
      refine Spec.mono (remove_spec ?_) ?_ fun _ h => h
      · intro c t' _ h
        rcases h with hsame | hremoved
        · exact .nothing _ hsame
        · exact .removed id hremoved
      · intro r t' h
        cases r with
        | ok u => exact ⟨.removed id h, by rintro _ _ ⟨⟩⟩
        | error e =>
            rcases h with hsame | ⟨hremoved, hsync⟩
            · exact ⟨.nothing _ hsame, fun _ _ _ => hsame⟩
            · exact ⟨.removed id hremoved, fun hno => absurd hsync hno⟩

theorem holds_step {floats : Floats T} (hfloats : floats.RoundTrips)
    {dir : Path} {set : SceneSet T} {t t' : Node} {call : StoreCall T}
    (h : Holds floats dir set t) (hstep : storeStep floats dir t call t') :
    ∃ set' : SceneSet T, Holds floats dir set' t' := by
  obtain ⟨o, hexec, rfl⟩ := hstep
  have hsat := call_spec floats dir Faults.any t call o hexec
  have heffect : Effect floats dir t o.state call := by
    cases o with
    | done r t' => exact hsat.1
    | lost t' => exact hsat
  cases heffect with
  | nothing _ hsame => exact ⟨set, h.same hsame⟩
  | saved plugins scene hadmitted hwritten =>
      have haccepted := accepted_of_validate hadmitted.valid
      exact ⟨_, h.written haccepted (h.admits hfloats hadmitted) hwritten⟩
  | removed id hremoved => exact ⟨_, h.removed hremoved⟩

/-- From an empty directory the store holds a set of scenes after every run of
calls, and a call that reports a failure leaves the scene files as they were,
unless the final flush of the directory fails. -/
theorem store_invariant {floats : Floats T} (hfloats : floats.RoundTrips)
    {dir : Path} {t t' : Node} {calls : List (StoreCall T)}
    (hempty : t.names dir = [])
    (hrun : Run (storeStep floats dir) t calls t') :
    (∃ set : SceneSet T, Holds floats dir set t') ∧
      ∀ (call : StoreCall T) (F : Faults) (e : String) (t'' : Node),
        ¬SyncMayFail F dir →
        Exec F.env (call.program floats dir) t' (.done (.error e) t'') →
        FilesSame dir t' t'' := by
  constructor
  · have hstep : ∀ s call s', True →
        (∃ set : SceneSet T, Holds floats dir set s) →
        storeStep floats dir s call s' →
        ∃ set : SceneSet T, Holds floats dir set s' := by
      rintro s call s' - ⟨set, hset⟩ hstep
      exact holds_step hfloats hset hstep
    exact hrun.invariant (fun s => ∃ set : SceneSet T, Holds floats dir set s)
      hstep (fun _ _ => trivial) ⟨SceneSet.empty T, holds_empty hempty⟩
  · intro call F e t'' hsync hexec
    exact (call_spec floats dir F t' call _ hexec).2 hsync e rfl

/-! ## A sample run -/

/-- Whole numbers of up to nine digits as floating point numbers. -/
def wholeFloats : Floats Int where
  literal q := q.floor
  isFinite v := v.natAbs < 10 ^ 9
  lt a b := a < b
  print := showInt
  extract := nextInt

theorem wholeFloats_roundTrips : wholeFloats.RoundTrips := by
  constructor
  · intro v _ c hc
    exact (isWord_showInt v).2 c hc
  · intro v hv
    have hbound : v.natAbs < 10 ^ 9 := by simpa [wholeFloats] using hv
    have hnext := nextInt_behind (n := v) (by omega) (by omega) []
    rw [behind_cons, behind, List.append_nil] at hnext
    exact hnext

/-- A gain at level 2, behind a binding and one route. -/
def sampleScene : Scene Int where
  id := ascii "clean"
  name := ascii "Clean voice"
  channel := 2
  note := 60
  helper := true
  routes := [ascii "soundboard_out,fx_1,0,0"]
  volumes := [⟨ascii "soundboard_out", 1⟩]
  effects := [⟨ascii "fx_1", ascii "gain", 1, 1, 1, 1, 1, ascii "My gain"⟩]
  params := [⟨ascii "fx_1", ascii "level", 2⟩]

/-- The tree after a save into an empty directory. -/
def sampleTree : Node :=
  (drive (failingAt []) (fun _ _ _ => false)
    (StoreCall.program wholeFloats [] (.save [] sampleScene)) 0
    (.dir [])).state

theorem store_invariant_sample :
    (∃ set : SceneSet Int, Holds wholeFloats [] set sampleTree) ∧
      ∀ (call : StoreCall Int) (F : Faults) (e : String) (t'' : Node),
        ¬SyncMayFail F [] →
        Exec F.env (call.program wholeFloats []) sampleTree
          (.done (.error e) t'') →
        FilesSame [] sampleTree t'' := by
  have hallowed : ∀ k c t, Faults.any.env.allows c (failingAt [] k c t) t :=
    failingAt_allowed fun _ _ => trivial
  have hstep : storeStep wholeFloats [] (.dir []) (.save [] sampleScene)
      sampleTree :=
    ⟨_, exec_drive hallowed (by rintro _ _ _ ⟨⟩) _ 0 _, rfl⟩
  exact store_invariant wholeFloats_roundTrips rfl (.cons hstep (.nil _))

end Audiox.Scenes
