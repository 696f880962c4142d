import Audiox.Config.ConfigStore
import Audiox.Support.Runs
import Mathlib

/-!
# The configuration is kept

As long as the file can be opened and read, nothing is written over it but
what has been read from it and accepted, with the changes that were asked for.
-/

namespace Audiox.Config

open ByteCodec Runs

/-! ## Runs -/

inductive ConfigOp
  | construct (access : ReadAccess) (save : SaveAccess)
  | readConfigFile (access : ReadAccess)
  | update (change : Change) (access : ReadAccess) (save : SaveAccess)
  | writeScriptSetting (key : Bytes) (value : ScriptValue)
      (access : ReadAccess) (save : SaveAccess)
  | writeScriptConfig (name text : Bytes) (save : SaveAccess) (synced : Bool)
  | commitStaged (staged : Option Bytes) (stagedAccess access : ReadAccess)
      (reloaded : Bool) (save : SaveAccess)
  /-- The file is changed or removed by another program. -/
  | outside (file : Option ConfigFile)

/-- An operation and the time at which it is called. -/
structure ConfigEvent where
  now : Int
  op : ConfigOp

section Runs

variable (nightly : Bool)

def ConfigEvent.apply (store : ConfigStore) (e : ConfigEvent) : ConfigStore :=
  match e.op with
  | .construct access save => store.construct nightly access save e.now
  | .readConfigFile access => (store.readConfigFile nightly access e.now).2
  | .update change access save =>
      store.update nightly change access save e.now
  | .writeScriptSetting key value access save =>
      store.writeScriptSetting nightly key value access save
  | .writeScriptConfig name text save synced =>
      store.writeScriptConfig name text save synced
  | .commitStaged staged stagedAccess access reloaded save =>
      store.commitStaged nightly staged stagedAccess access reloaded save e.now
  | .outside file => { store with file }

def ConfigStore.run (store : ConfigStore) (events : List ConfigEvent) :
    ConfigStore :=
  events.foldl (ConfigEvent.apply nightly) store

/-- What an operation is to change in a configuration. -/
def ConfigOp.modify (cfg : ConfigData) : ConfigOp → ConfigData
  | .update change _ _ => change.apply cfg
  | .writeScriptSetting key value _ _ =>
      (applyScriptSetting cfg key value).getD cfg
  | .commitStaged staged _ _ _ _ =>
      stagedConfig (readConfigPath nightly staged {} {}).2 cfg
  | _ => cfg

/-- The file stays as it was, or what has been accepted of it is written back
with the changes. -/
def Kept (op : ConfigOp) (before after : ConfigStore) : Prop :=
  after.file = before.file ∨
    ∃ cfg ∈ accepted nightly before.content, ∃ stamp,
      after.file =
        some ⟨configText (savedConfig nightly (op.modify nightly cfg)), stamp⟩

/-- No read fails; the file is not replaced as a whole, and it has been accepted
when a staged one is committed.  What other programs write has a fresh stamp. -/
def ConfigEvent.Works (store : ConfigStore) (e : ConfigEvent) : Prop :=
  match e.op with
  | .construct access _ => access.Works
  | .readConfigFile access => access.Works
  | .update _ access _ => access.Works
  | .writeScriptSetting _ _ _ _ => True
  | .writeScriptConfig name _ _ _ => name ≠ ascii "config.txt"
  | .commitStaged _ _ access _ _ =>
      access.Works ∧ (accepted nightly store.content).isSome
  | .outside file =>
      ∀ f ∈ file, configFileStampSettled e.now (some f.stamp) = false

/-! ## The cache -/

/-- What a reader finds that does not fail. -/
def currentConfig (content : Option Bytes) : ConfigData :=
  (readConfigPath nightly content {} {}).2

/-- The cache is right for a file with its stamp, and such a file does not
change any more. -/
structure Cached (clock : Int) (store : ConfigStore) : Prop where
  settled : ∀ stamp cfg, store.cache = some (stamp, cfg) →
    configFileStampSettled clock stamp = true
  missing : ∀ cfg, store.cache = some (none, cfg) → cfg = {}
  current : ∀ stamp cfg, store.cache = some (stamp, cfg) →
    store.stamp = stamp → cfg = currentConfig nightly store.content

end Runs

variable {nightly : Bool} {store : ConfigStore} {clock now : Int}

theorem settled_mono {stamp : Option ConfigFileStamp} {t t' : Int}
    (h : configFileStampSettled t stamp = true) (hle : t ≤ t') :
    configFileStampSettled t' stamp = true := by
  cases stamp with
  | none => rfl
  | some stamp =>
      simp only [configFileStampSettled, Bool.and_eq_true,
        decide_eq_true_eq] at h ⊢
      omega

theorem readConfigPath_eq {content : Option Bytes} {access : ReadAccess}
    (haccess : access.Works) (out : ConfigData) :
    readConfigPath nightly content access out =
      readConfigPath nightly content {} out := by
  unfold readConfigPath
  rw [haccess.opened, haccess.readToEnd]

theorem cached_of_cache_none {store : ConfigStore} (h : store.cache = none)
    (clock : Int) : Cached nightly clock store := by
  constructor
  · intro stamp cfg hcache
    rw [h] at hcache
    cases hcache
  · intro cfg hcache
    rw [h] at hcache
    cases hcache
  · intro stamp cfg hcache
    rw [h] at hcache
    cases hcache

theorem Cached.later (h : Cached nightly clock store) (hle : clock ≤ now) :
    Cached nightly now store :=
  ⟨fun stamp cfg hcache => settled_mono (h.settled stamp cfg hcache) hle,
    h.missing, h.current⟩

/-- A read that does not fail returns what the file says. -/
theorem Cached.readConfigFile (h : Cached nightly now store)
    {access : ReadAccess} (haccess : access.Works) :
    (store.readConfigFile nightly access now).1 =
        currentConfig nightly store.content ∧
      (store.readConfigFile nightly access now).2.file = store.file ∧
      Cached nightly now (store.readConfigFile nightly access now).2 := by
  unfold ConfigStore.readConfigFile
  cases hcached : store.cached access with
  | some cfg =>
      refine ⟨?_, rfl, h⟩
      unfold ConfigStore.cached at hcached
      split_ifs at hcached
      rw [Option.bind_eq_some_iff] at hcached
      obtain ⟨⟨stamp, cfg'⟩, hcache, hentry⟩ := hcached
      split_ifs at hentry with hstamp
      obtain rfl := Option.some.inj hentry
      exact h.current stamp cfg' hcache hstamp.symm
  | none =>
      dsimp only
      rw [readConfigPath_eq haccess]
      split_ifs with hcache
      · refine ⟨rfl, rfl, ?_, ?_, ?_⟩
        · rintro stamp cfg ⟨⟩
          exact hcache.2.2
        · intro cfg hentry
          obtain ⟨hstamp, rfl⟩ := Prod.mk.inj (Option.some.inj hentry)
          have hmissing : store.content = none := by
            rw [ConfigStore.stamp, Option.map_eq_none_iff] at hstamp
            rw [ConfigStore.content, hstamp]
            rfl
          rw [hmissing]
          rfl
        · rintro stamp cfg ⟨⟩ _
          rfl
      · exact ⟨rfl, rfl, h⟩

theorem Cached.writeConfigFile (h : Cached nightly now store)
    (cfg : ConfigData) (save : SaveAccess) :
    Cached nightly now (store.writeConfigFile nightly cfg save).2 := by
  unfold ConfigStore.writeConfigFile
  split_ifs
  · exact h
  · exact cached_of_cache_none rfl now
  · exact cached_of_cache_none rfl now

/-- Another program leaves a file with a new stamp, or none. -/
theorem Cached.outside (h : Cached nightly now store)
    {file : Option ConfigFile}
    (hfresh : ∀ f ∈ file, configFileStampSettled now (some f.stamp) = false) :
    Cached nightly now { store with file } := by
  refine ⟨h.settled, h.missing, ?_⟩
  intro stamp cfg hcache hstamp
  cases file with
  | none =>
      obtain rfl : none = stamp := hstamp
      rw [h.missing cfg hcache]
      rfl
  | some f =>
      obtain rfl : some f.stamp = stamp := hstamp
      have hsettled := h.settled _ cfg hcache
      rw [hfresh f rfl] at hsettled
      cases hsettled

/-! ## What is written -/

theorem current_cases (nightly : Bool) (content : Option Bytes) :
    accepted nightly content = some (currentConfig nightly content) ∨
      configSchemaVersion < (currentConfig nightly content).schemaVersion := by
  cases content with
  | none => exact .inl rfl
  | some file =>
      have hcurrent : currentConfig nightly (some file) =
          (parseConfig nightly file).2 := rfl
      rw [hcurrent]
      rcases parseConfig_cases nightly file with ⟨hok, -⟩ | ⟨-, hhigh⟩
      · exact .inl (if_pos hok)
      · exact .inr hhigh

theorem eq_current_of_accepted {content : Option Bytes} {cfg : ConfigData}
    (h : accepted nightly content = some cfg) :
    cfg = currentConfig nightly content := by
  cases content with
  | none => exact (Option.some.inj h).symm
  | some file =>
      rw [accepted] at h
      split_ifs at h
      exact (Option.some.inj h).symm

/-- A reader that succeeds returns what is accepted. -/
theorem accepted_of_readConfigPath {content : Option Bytes}
    {access : ReadAccess} {out cfg : ConfigData}
    (h : readConfigPath nightly content access out = (.ok, cfg)) :
    accepted nightly content = some cfg := by
  cases content with
  | none =>
      unfold readConfigPath at h
      dsimp only at h
      split_ifs at h
      · cases h
      · cases h
  | some file =>
      unfold readConfigPath at h
      dsimp only at h
      split_ifs at h
      · rw [accepted, h]
        rfl
      · cases h
      · cases h

/-- What has not been accepted is not written over. -/
theorem writeConfigFile_kept (nightly : Bool) (store : ConfigStore) {f : ConfigData → ConfigData}
    (hf : ∀ cfg, (f cfg).schemaVersion = cfg.schemaVersion)
    (save : SaveAccess) :
    (store.writeConfigFile nightly (f (currentConfig nightly store.content))
        save).2.file = store.file ∨
      ∃ cfg ∈ accepted nightly store.content, ∃ stamp,
        (store.writeConfigFile nightly (f (currentConfig nightly store.content))
          save).2.file =
          some ⟨configText (savedConfig nightly (f cfg)), stamp⟩ := by
  rw [ConfigStore.writeConfigFile, hf]
  split_ifs with hhigh hsave
  · exact .inl rfl
  · right
    have haccepted := (current_cases nightly store.content).resolve_right hhigh
    exact ⟨_, haccepted, save.stamp, rfl⟩
  · exact .inl rfl

theorem schemaVersion_apply (change : Change) (cfg : ConfigData) :
    (change.apply cfg).schemaVersion = cfg.schemaVersion := by
  cases change <;> rfl

theorem content_of_file {store store' : ConfigStore}
    (h : store'.file = store.file) : store'.content = store.content := by
  rw [ConfigStore.content, h, ConfigStore.content]

/-- Reading, changing and writing. -/
theorem Cached.readModifyWrite (h : Cached nightly now store)
    {access : ReadAccess} (haccess : access.Works)
    {f : ConfigData → ConfigData}
    (hf : ∀ cfg, (f cfg).schemaVersion = cfg.schemaVersion)
    (save : SaveAccess) :
    let read := store.readConfigFile nightly access now
    let after := (read.2.writeConfigFile nightly (f read.1) save).2
    Cached nightly now after ∧ (after.file = store.file ∨
      ∃ cfg ∈ accepted nightly store.content, ∃ stamp,
        after.file =
          some ⟨configText (savedConfig nightly (f cfg)), stamp⟩) := by
  intro read after
  obtain ⟨hcfg, hfile, hcached⟩ := h.readConfigFile haccess
  have hcontent := content_of_file hfile
  refine ⟨hcached.writeConfigFile _ save, ?_⟩
  have hkept := writeConfigFile_kept nightly read.2 hf save
  rw [hcontent, ← hcfg, hfile] at hkept
  exact hkept

/-- The program itself, not another one. -/
def ConfigOp.own : ConfigOp → Bool
  | .outside _ => false
  | _ => true

theorem Cached.step (h : Cached nightly clock store) {e : ConfigEvent}
    (hle : clock ≤ e.now) (hworks : e.Works nightly store) :
    Cached nightly e.now (e.apply nightly store) ∧
      (e.op.own = true → Kept nightly e.op store (e.apply nightly store)) := by
  obtain ⟨now, op⟩ := e
  have hnow : Cached nightly now store := h.later hle
  cases op with
  | construct access save =>
      have hfresh : Cached nightly now { file := store.file } :=
        cached_of_cache_none rfl now
      obtain ⟨hcached, hkept⟩ := hfresh.readModifyWrite hworks
        (fun _ => rfl) save (f := id)
      exact ⟨hcached, fun _ => hkept⟩
  | readConfigFile access =>
      obtain ⟨-, hfile, hcached⟩ := hnow.readConfigFile hworks
      exact ⟨hcached, fun _ => .inl hfile⟩
  | update change access save =>
      obtain ⟨hcached, hkept⟩ := hnow.readModifyWrite hworks
        (schemaVersion_apply change) save
      exact ⟨hcached, fun _ => hkept⟩
  | writeScriptSetting key value access save =>
      rw [ConfigEvent.apply]
      dsimp only
      unfold ConfigStore.writeScriptSetting
      split
      next cfg hread =>
        have haccepted := accepted_of_readConfigPath hread
        split
        next => exact ⟨hnow, fun _ => .inl rfl⟩
        next cfg' hset =>
          refine ⟨hnow.writeConfigFile cfg' save, fun _ => ?_⟩
          rw [ConfigStore.writeConfigFile]
          split_ifs
          · exact .inl rfl
          · right
            refine ⟨cfg, haccepted, save.stamp, ?_⟩
            rw [ConfigOp.modify, hset]
            rfl
          · exact .inl rfl
      next => exact ⟨hnow, fun _ => .inl rfl⟩
  | writeScriptConfig name text save synced =>
      have hsame : store.writeScriptConfig name text save synced = store :=
        if_neg fun hname => hworks hname.1
      rw [ConfigEvent.apply]
      dsimp only
      rw [hsame]
      exact ⟨hnow, fun _ => .inl rfl⟩
  | commitStaged staged stagedAccess access reloaded save =>
      obtain ⟨hsaved, hfile, hcached⟩ := hnow.readConfigFile hworks.1
      obtain ⟨cfg, haccepted⟩ := Option.isSome_iff_exists.mp hworks.2
      rw [← eq_current_of_accepted haccepted] at hsaved
      rw [ConfigEvent.apply]
      dsimp only
      unfold ConfigStore.commitStaged
      split
      next next hread =>
        have hnext := eq_current_of_accepted (accepted_of_readConfigPath hread)
        dsimp only
        split_ifs
        · refine ⟨hcached.writeConfigFile _ save, fun _ => ?_⟩
          rw [hsaved, ConfigStore.writeConfigFile]
          split_ifs
          · exact .inl hfile
          · right
            refine ⟨cfg, haccepted, save.stamp, ?_⟩
            rw [ConfigOp.modify, hnext]
            rfl
          · exact .inl hfile
        · exact ⟨hcached, fun _ => .inl hfile⟩
      next => exact ⟨hnow, fun _ => .inl rfl⟩
  | outside file =>
      refine ⟨hnow.outside hworks, ?_⟩
      rintro ⟨⟩

/-! ## Whole runs -/

theorem run_concat (nightly : Bool) (store : ConfigStore)
    (events : List ConfigEvent) (e : ConfigEvent) :
    store.run nightly (events ++ [e]) =
      e.apply nightly (store.run nightly events) := by
  rw [ConfigStore.run, List.foldl_append]
  rfl

/-- The operations of a run before one that is called later. -/
theorem cached_run {events : List ConfigEvent} {file : Option ConfigFile}
    (htime : (events.map ConfigEvent.now).Pairwise (· ≤ ·))
    (hworks : ∀ before e after, events = before ++ e :: after →
      e.Works nightly (ConfigStore.run nightly { file } before))
    (hnow : ∀ e ∈ events, e.now ≤ now) :
    Cached nightly now (ConfigStore.run nightly { file } events) := by
  induction events using List.reverseRecOn generalizing now with
  | nil => exact cached_of_cache_none rfl now
  | append_singleton events last ih =>
      rw [List.map_append, List.pairwise_append] at htime
      have hbefore : ∀ e ∈ events, e.now ≤ last.now :=
        fun e he => htime.2.2 _ (List.mem_map_of_mem he) _ (by simp)
      have hcached := ih htime.1
        (fun before e after heq => hworks before e (after ++ [last])
          (by rw [heq, List.append_assoc, List.cons_append])) hbefore
      have hstep := hcached.step le_rfl (hworks events last [] rfl)
      rw [run_concat]
      exact hstep.1.later (hnow last (by simp))

/-- Nothing is lost as long as no read fails. -/
theorem config_kept {events : List ConfigEvent} {file : Option ConfigFile}
    (htime : (events.map ConfigEvent.now).Pairwise (· ≤ ·))
    (hworks : ∀ before e after, events = before ++ e :: after →
      e.Works nightly (ConfigStore.run nightly { file } before)) :
    ∀ before e after, events = before ++ e :: after → e.op.own = true →
      Kept nightly e.op (ConfigStore.run nightly { file } before)
        (ConfigStore.run nightly { file } (before ++ [e])) := by
  rintro before e after rfl hown
  rw [List.map_append, List.pairwise_append] at htime
  have hcached : Cached nightly e.now
      (ConfigStore.run nightly { file } before) := by
    refine cached_run htime.1 ?_ ?_
    · intro front e' rest heq
      refine hworks front e' (rest ++ e :: after) ?_
      rw [heq, List.append_assoc, List.cons_append]
    · intro e' he'
      exact htime.2.2 _ (List.mem_map_of_mem he') _ (by simp)
  rw [run_concat]
  exact (hcached.step le_rfl (hworks before e after rfl)).2 hown

/-! ### A file with another sample rate -/

def oldStamp : ConfigFileStamp where
  dev := 1
  ino := 7
  size := 39
  mtime := (10, 0)
  ctime := (10, 0)

def customFile : ConfigFile where
  content := ascii "config_version=1\nusb_sample_rate=44100\n"
  stamp := oldStamp

def newSave : SaveAccess where
  committed := true
  stamp := { oldStamp with ino := 8, mtime := (20, 0), ctime := (20, 0) }

def startEvent : ConfigEvent where
  now := 20
  op := .construct {} newSave

theorem config_kept_startEvent :
    Kept false startEvent.op { file := some customFile }
      (startEvent.apply false { file := some customFile }) := by
  have hworks : ∀ before e after, [startEvent] = before ++ e :: after →
      e.Works false (ConfigStore.run false { file := some customFile } before) := by
    intro before e after heq
    rw [← List.nil_append [startEvent]] at heq
    rcases eq_concat_cases heq with ⟨rest, -, hnil⟩ | ⟨-, rfl, rfl⟩
    · simp at hnil
    · exact ⟨rfl, rfl⟩
  exact config_kept (by simp) hworks [] startEvent [] rfl rfl

/-- The constructor writes the defaults over a file that it cannot open. -/
theorem config_lost :
    ¬Kept false (.construct { opened := false } newSave)
      { file := some customFile }
      (ConfigEvent.apply false { file := some customFile }
        ⟨20, .construct { opened := false } newSave⟩) := by
  have hafter : (ConfigEvent.apply false { file := some customFile }
      ⟨20, .construct { opened := false } newSave⟩).file =
      some ⟨configText (savedConfig false {}), newSave.stamp⟩ := rfl
  have haccepted : accepted false (some customFile.content) =
      some (parseConfig false customFile.content).2 := by
    decide
  rintro (hsame | ⟨cfg, hcfg, stamp, hwritten⟩)
  · rw [hafter] at hsame
    have hstamp := congrArg ConfigFile.stamp (Option.some.inj hsame)
    exact absurd hstamp (by decide)
  · rw [hafter] at hwritten
    have hcontent := congrArg ConfigFile.content (Option.some.inj hwritten)
    obtain rfl : (parseConfig false customFile.content).2 = cfg :=
      Option.some.inj (haccepted.symm.trans hcfg)
    have hother : configText (savedConfig false {}) ≠
        configText (savedConfig false
          (parseConfig false customFile.content).2) := by
      decide
    exact hother hcontent

end Audiox.Config
