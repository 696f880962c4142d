import Audiox.Config.CacheTransparent
import Audiox.Config.ConfigKept
import Mathlib

/-!
# Threads that read and write the configuration

Any number of calls and of writers take their steps in any order, next to
other programs.  A call returns what an uncached reader could have found from
its beginning on.
-/

namespace Audiox.Config

open ByteCodec ValidatedCache

section System

variable (nightly : Bool) (blockSize : Nat) {M : Type} (format : MidiFormat M)

abbrev ConfigPhase : Type :=
  Phase Inode (Option ConfigFileStamp) Int (configReader nightly blockSize)

abbrev MidiPhase : Type :=
  Phase Inode (Option ConfigFileStamp) Int (midiReader format)

/-- A call has the number of the state of the disk in which it began. -/
inductive Thread where
  | idle
  | readConfigFile (start : Nat) (phase : ConfigPhase nightly blockSize)
  | readMidiMapFile (start : Nat) (phase : MidiPhase format)
  | writer (acts : List WriteAct)

/-- The states of the disk up to now, the caches and the threads. -/
structure System where
  disks : List Disk
  configCache : Cache (Option ConfigFileStamp) ConfigData
  midiMapCache : Cache (Option ConfigFileStamp) M
  threads : Nat → Thread nightly blockSize format

variable {nightly blockSize format}

def System.setThread (sys : System nightly blockSize format) (i : Nat)
    (thread : Thread nightly blockSize format) :
    System nightly blockSize format :=
  { sys with threads := Function.update sys.threads i thread }

def System.change (sys : System nightly blockSize format) (disk : Disk) :
    System nightly blockSize format :=
  { sys with disks := sys.disks ++ [disk] }

/-- The number of the present state of the disk. -/
def System.now (sys : System nightly blockSize format) : Nat :=
  sys.disks.length - 1

/-- A step of one thread, or of another program. -/
inductive System.Step (faulty : Prop) : System nightly blockSize format →
    System nightly blockSize format → Prop where
  | outside {sys : System nightly blockSize format} {disk disk' : Disk}
      (hdisk : sys.disks[sys.now]? = some disk)
      (hstep : DiskStep disk disk') : Step faulty sys (sys.change disk')
  | beginConfig {sys : System nightly blockSize format} {i : Nat}
      (hidle : sys.threads i = .idle) :
      Step faulty sys
        (sys.setThread i (.readConfigFile sys.now (.statting [])))
  | beginMidi {sys : System nightly blockSize format} {i : Nat}
      (hidle : sys.threads i = .idle) :
      Step faulty sys
        (sys.setThread i (.readMidiMapFile sys.now (.statting [])))
  | beginWriter {sys : System nightly blockSize format} {i : Nat}
      {writer : Writer M} (hidle : sys.threads i = .idle) :
      Step faulty sys
        (sys.setThread i (.writer (writer.acts nightly format)))
  | config {sys : System nightly blockSize format} {i start : Nat}
      {disk : Disk} {phase phase' : ConfigPhase nightly blockSize}
      {cache' : Cache (Option ConfigFileStamp) ConfigData}
      (hthread : sys.threads i = .readConfigFile start phase)
      (hdisk : sys.disks[sys.now]? = some disk)
      (hstep : Phase.Step configSource faulty configWatched disk
        sys.configCache phase cache' phase') :
      Step faulty sys
        { sys.setThread i (.readConfigFile start phase') with
          configCache := cache' }
  | midi {sys : System nightly blockSize format} {i start : Nat}
      {disk : Disk} {phase phase' : MidiPhase format}
      {cache' : Cache (Option ConfigFileStamp) M}
      (hthread : sys.threads i = .readMidiMapFile start phase)
      (hdisk : sys.disks[sys.now]? = some disk)
      (hstep : Phase.Step configSource faulty midiWatched disk
        sys.midiMapCache phase cache' phase') :
      Step faulty sys
        { sys.setThread i (.readMidiMapFile start phase') with
          midiMapCache := cache' }
  | midiSave {sys : System nightly blockSize format} {i start : Nat}
      {disk disk' : Disk} {phase phase' : MidiPhase format}
      {path : ConfigPath} {content : Bytes}
      (hthread : sys.threads i = .readMidiMapFile start phase)
      (hdisk : sys.disks[sys.now]? = some disk)
      (hphase : phase.Saves path content phase')
      (hsave : Saves path content disk disk') :
      Step faulty sys
        ((sys.setThread i (.readMidiMapFile start phase')).change disk')
  | save {sys : System nightly blockSize format} {i : Nat}
      {disk disk' : Disk} {path : ConfigPath} {content : Bytes}
      {acts : List WriteAct}
      (hthread : sys.threads i = .writer (.save path content :: acts))
      (hdisk : sys.disks[sys.now]? = some disk)
      (hsave : Saves path content disk disk') :
      Step faulty sys ((sys.setThread i (.writer acts)).change disk')
  | invalidate {sys : System nightly blockSize format} {i : Nat}
      {acts : List WriteAct}
      (hthread : sys.threads i = .writer (.invalidateConfigCache :: acts)) :
      Step faulty sys
        { sys.setThread i (.writer acts) with
          configCache := none, midiMapCache := none }
  | abandon {sys : System nightly blockSize format} {i : Nat}
      {acts : List WriteAct} (hf : faulty)
      (hthread : sys.threads i = .writer acts) :
      Step faulty sys (sys.setThread i (.writer []))
  | leave {sys : System nightly blockSize format} {i : Nat}
      (hdone : (∃ start v, sys.threads i = .readConfigFile start (.returned v)) ∨
        (∃ start v, sys.threads i = .readMidiMapFile start (.returned v)) ∨
        sys.threads i = .writer []) :
      Step faulty sys (sys.setThread i .idle)

/-- The process has started: nothing is cached and nothing runs. -/
def System.initial (disk : Disk) : System nightly blockSize format :=
  { disks := [disk], configCache := none, midiMapCache := none
    threads := fun _ => .idle }

def System.Reachable (faulty : Prop)
    (sys : System nightly blockSize format) : Prop :=
  ∃ disk, Relation.ReflTransGen (System.Step faulty) (System.initial disk) sys

end System

/-! ## Every run -/

section Run

variable {nightly : Bool} {blockSize : Nat} {M : Type} {format : MidiFormat M}
  {faulty : Prop}

/-- What is known of a thread. -/
def Thread.Ok (faulty : Prop) (disks : List Disk) :
    Thread nightly blockSize format → Prop
  | .readConfigFile start phase =>
      start ≤ disks.length - 1 ∧
        phase.Ok configSource faulty configWatched disks start
  | .readMidiMapFile start phase =>
      start ≤ disks.length - 1 ∧
        phase.Ok configSource faulty midiWatched disks start
  | _ => True

theorem Thread.Ok.append {disks : List Disk}
    {thread : Thread nightly blockSize format} (h : thread.Ok faulty disks)
    (disk : Disk) : thread.Ok faulty (disks ++ [disk]) := by
  have hle := length_append_sub disks disk
  cases thread with
  | idle => trivial
  | writer acts => trivial
  | readConfigFile start phase => exact ⟨h.1.trans hle, h.2.append disk⟩
  | readMidiMapFile start phase => exact ⟨h.1.trans hle, h.2.append disk⟩

structure System.Ok (faulty : Prop)
    (sys : System nightly blockSize format) : Prop where
  nonempty : sys.disks ≠ []
  valid : configSource.Valid sys.disks
  config : CacheOk configSource faulty configWatched sys.disks
    (configReader nightly blockSize) sys.configCache
  midi : CacheOk configSource faulty midiWatched sys.disks
    (midiReader format) sys.midiMapCache
  threads : ∀ i, (sys.threads i).Ok faulty sys.disks

theorem System.Ok.setThread {sys : System nightly blockSize format}
    (h : sys.Ok faulty) (i : Nat) (thread : Thread nightly blockSize format)
    (hthread : thread.Ok faulty sys.disks) :
    (sys.setThread i thread).Ok faulty := by
  refine ⟨h.nonempty, h.valid, h.config, h.midi, ?_⟩
  intro j
  by_cases hj : j = i
  · subst hj
    simpa [System.setThread] using hthread
  · simpa [System.setThread, hj] using h.threads j

theorem System.Ok.change {sys : System nightly blockSize format}
    (h : sys.Ok faulty) {disk disk' : Disk}
    (hdisk : sys.disks[sys.now]? = some disk) (hstep : DiskStep disk disk') :
    (sys.change disk').Ok faulty := by
  refine ⟨by simp [System.change], h.valid.append hdisk hstep,
    h.config.append disk', h.midi.append disk', ?_⟩
  intro i
  exact (h.threads i).append disk'

theorem cacheOk_none {rd : Reader ConfigPath Bytes M}
    {watched : List ConfigPath} (disks : List Disk) :
    CacheOk configSource faulty watched disks rd none := by
  rintro stamps v ⟨⟩

theorem System.Step.ok {sys sys' : System nightly blockSize format}
    (hstep : System.Step faulty sys sys') (h : sys.Ok faulty) :
    sys'.Ok faulty := by
  have hpos := List.length_pos_iff.mpr h.nonempty
  cases hstep with
  | outside hdisk hstep => exact h.change hdisk hstep
  | beginConfig hidle =>
      apply h.setThread
      exact ⟨le_refl _, statted_nil (le_refl _)⟩
  | beginMidi hidle =>
      apply h.setThread
      exact ⟨le_refl _, statted_nil (le_refl _)⟩
  | @beginWriter i writer hidle =>
      exact h.setThread i (.writer (writer.acts nightly format)) trivial
  | @config i start disk phase phase' cache' hthread hdisk hstep =>
      have hcall := h.threads i
      rw [hthread] at hcall
      obtain ⟨hphase, hcache⟩ := hstep.ok h.valid configReader_keeps hdisk
        hcall.1 hcall.2 h.config
      have hnext := h.setThread i (.readConfigFile start phase')
        ⟨hcall.1, hphase⟩
      exact ⟨hnext.nonempty, hnext.valid, hcache, hnext.midi, hnext.threads⟩
  | @midi i start disk phase phase' cache' hthread hdisk hstep =>
      have hcall := h.threads i
      rw [hthread] at hcall
      obtain ⟨hphase, hcache⟩ := hstep.ok h.valid midiReader_keeps hdisk
        hcall.1 hcall.2 h.midi
      have hnext := h.setThread i (.readMidiMapFile start phase')
        ⟨hcall.1, hphase⟩
      exact ⟨hnext.nonempty, hnext.valid, hnext.config, hcache, hnext.threads⟩
  | @midiSave i start disk disk' phase phase' path content hthread hdisk hphase
      hsave =>
      have hcall := h.threads i
      rw [hthread] at hcall
      have hnext := h.setThread i (.readMidiMapFile start phase')
        ⟨hcall.1, hphase.ok hcall.2⟩
      exact hnext.change hdisk hsave.1
  | @save i disk disk' path content acts hthread hdisk hsave =>
      have hnext := h.setThread i (.writer acts) trivial
      exact hnext.change hdisk hsave.1
  | @invalidate i acts hthread =>
      have hnext := h.setThread i (.writer acts) trivial
      exact ⟨hnext.nonempty, hnext.valid, cacheOk_none _, cacheOk_none _,
        hnext.threads⟩
  | @abandon i acts hf hthread => exact h.setThread i (.writer []) trivial
  | @leave i hdone => exact h.setThread i .idle trivial

theorem System.initial_ok (disk : Disk) :
    (System.initial disk : System nightly blockSize format).Ok faulty := by
  refine ⟨by simp [System.initial], ?_, cacheOk_none _, cacheOk_none _, ?_⟩
  · intro i d d' hd hd'
    simp [System.initial] at hd'
  · intro i
    trivial

theorem System.Reachable.ok {sys : System nightly blockSize format}
    (h : sys.Reachable faulty) : sys.Ok faulty := by
  obtain ⟨disk, hrun⟩ := h
  induction hrun with
  | refl => exact System.initial_ok disk
  | tail _ hstep ih => exact hstep.ok ih

/-! ## A file that stays -/

/-- Where the reader can be on a file that stays. -/
def ConfigLoad.Of (nightly : Bool) (file : Option (Inode × Bytes)) :
    ConfigLoad → Prop
  | .opening => True
  | .reading taken => ∃ inode content, file = some (inode, content) ∧
      content.take taken.length = taken
  | .loaded cfg => cfg = currentConfig nightly (file.map (·.2))

theorem ConfigLoad.Of.got {inode : Inode} {content taken : Bytes}
    (hblock : 0 < blockSize)
    (h : ConfigLoad.Of nightly (some (inode, content)) (.reading taken)) :
    ConfigLoad.Of nightly (some (inode, content))
      (ConfigLoad.got nightly blockSize content (.reading taken)) := by
  obtain ⟨_, _, hfile, htaken⟩ := h
  obtain ⟨rfl, rfl⟩ := Prod.mk.inj (Option.some.inj hfile)
  simp only [ConfigLoad.got]
  split_ifs with hend
  · have hall : content.length ≤ taken.length := by
      rcases List.take_eq_nil_iff.mp hend with hzero | hdrop
      · omega
      · exact List.drop_eq_nil_iff.mp hdrop
    rw [List.take_of_length_le hall] at htaken
    rw [← htaken]
    rfl
  · refine ⟨inode, content, rfl, ?_⟩
    rw [List.length_append, List.take_add, htaken]
    congr 1
    rw [List.length_take]
    exact List.take_eq_take_min.symm

theorem configReader_of_follows (hblock : 0 < blockSize)
    (hcalm : ¬faulty) {files : ConfigPath → Option (Inode × Bytes)}
    {s : Scan Inode (configReader nightly blockSize)}
    (hs : Follows faulty files s) :
    ConfigLoad.Of nightly (files .config) s.state ∧
      ∀ path, some path ∈ s.visits → path = .config := by
  induction hs with
  | start => exact ⟨trivial, by simp [Scan.start]⟩
  | openFailed _ hf _ _ => exact absurd hf hcalm
  | readFailed _ hf _ _ => exact absurd hf hcalm
  | @«open» s p _ ha ih =>
      obtain ⟨handle, visits, _ | taken | cfg⟩ := s
      · cases ha
        refine ⟨?_, ?_⟩
        · simp only [Scan.open, configReader, ConfigLoad.opened]
          cases hfile : files .config with
          | none => rfl
          | some file => exact ⟨file.1, file.2, rfl, rfl⟩
        · intro path hpath
          rw [Scan.open, List.mem_append, List.mem_singleton] at hpath
          rcases hpath with hpath | hpath
          · exact ih.2 path hpath
          · exact Option.some.inj hpath
      · cases ha
      · cases ha
  | @read s p x c _ ha _ hlast hfile ih =>
      obtain ⟨handle, visits, _ | taken | cfg⟩ := s
      · cases ha
      · refine ⟨?_, ih.2⟩
        obtain rfl := ih.2 p (List.mem_of_getLast? hlast)
        have hof := ih.1
        rw [hfile] at hof ⊢
        exact hof.got hblock
      · cases ha

/-! ## Transparency -/

/-- A call that began at this state of the disk or later. -/
def Thread.StartsFrom (n : Nat) : Thread nightly blockSize format → Prop
  | .readConfigFile start _ => n ≤ start
  | .readMidiMapFile start _ => n ≤ start
  | _ => True

theorem startsFrom_update {threads : Nat → Thread nightly blockSize format}
    {n i j : Nat} {thread : Thread nightly blockSize format}
    (hthread : i = j → thread.StartsFrom n)
    (h : (threads i).StartsFrom n) :
    (Function.update threads j thread i).StartsFrom n := by
  by_cases hij : i = j
  · subst hij
    rw [Function.update_self]
    exact hthread rfl
  · rw [Function.update_of_ne hij]
    exact h

/-- The disk goes on from where it was, and a call begins with its present
state. -/
theorem System.Step.later {sys sys' : System nightly blockSize format}
    (hstep : System.Step faulty sys sys') :
    (∃ later, sys'.disks = sys.disks ++ later) ∧
      ∀ n i, n ≤ sys.now → (sys.threads i).StartsFrom n →
        (sys'.threads i).StartsFrom n := by
  have hsame : ∃ later, sys.disks = sys.disks ++ later :=
    ⟨[], (List.append_nil _).symm⟩
  cases hstep with
  | outside hdisk hstep => exact ⟨⟨[_], rfl⟩, fun _ _ _ h => h⟩
  | beginConfig hidle =>
      exact ⟨hsame, fun _ _ hn h => startsFrom_update (fun _ => hn) h⟩
  | beginMidi hidle =>
      exact ⟨hsame, fun _ _ hn h => startsFrom_update (fun _ => hn) h⟩
  | beginWriter hidle =>
      exact ⟨hsame, fun _ _ _ h => startsFrom_update (fun _ => trivial) h⟩
  | config hthread hdisk hstep =>
      refine ⟨hsame, fun n i _ h => startsFrom_update ?_ h⟩
      rintro rfl
      rwa [hthread] at h
  | midi hthread hdisk hstep =>
      refine ⟨hsame, fun n i _ h => startsFrom_update ?_ h⟩
      rintro rfl
      rwa [hthread] at h
  | midiSave hthread hdisk hphase hsave =>
      refine ⟨⟨[_], rfl⟩, fun n i _ h => startsFrom_update ?_ h⟩
      rintro rfl
      rwa [hthread] at h
  | save hthread hdisk hsave =>
      exact ⟨⟨[_], rfl⟩, fun _ _ _ h => startsFrom_update (fun _ => trivial) h⟩
  | invalidate hthread =>
      exact ⟨hsame, fun _ _ _ h => startsFrom_update (fun _ => trivial) h⟩
  | abandon hf hthread =>
      exact ⟨hsame, fun _ _ _ h => startsFrom_update (fun _ => trivial) h⟩
  | leave hdone =>
      exact ⟨hsame, fun _ _ _ h => startsFrom_update (fun _ => trivial) h⟩

theorem System.later_of_run {sys sys' : System nightly blockSize format}
    (hrun : Relation.ReflTransGen (System.Step faulty) sys sys') {i : Nat}
    (hidle : sys.threads i = .idle) :
    (∃ later, sys'.disks = sys.disks ++ later) ∧
      (sys'.threads i).StartsFrom sys.now := by
  induction hrun with
  | refl =>
      rw [hidle]
      exact ⟨⟨[], (List.append_nil _).symm⟩, trivial⟩
  | @tail mid last _ hstep ih =>
      obtain ⟨⟨later, hlater⟩, hstarts⟩ := ih
      obtain ⟨⟨more, hmore⟩, hkeep⟩ := hstep.later
      have hnow : sys.now ≤ mid.now := by
        rw [System.now, System.now, hlater, List.length_append]
        omega
      refine ⟨⟨later ++ more, ?_⟩, hkeep _ i hnow hstarts⟩
      rw [hmore, hlater, List.append_assoc]

end Run

/-! ## A call on an empty disk -/

def emptyDisk : Disk :=
  { clock := 0
    node := fun _ => none
    body := fun _ => { content := [], mtime := (0, 0), ctime := (0, 0) }
    past := fun _ => []
    known := by
      rintro path inode ⟨⟩ }

def emptyFormat : MidiFormat Unit :=
  { empty := (), mapMore := fun _ => false, mapData := fun _ => none
    oldMore := fun _ => false, oldData := fun _ => (), fxMore := fun _ => false
    withFx := fun _ _ => (), mapTexts := fun _ => [], fxTexts := fun _ => [] }

/-- One call of `readConfigFile` in a process that has just started. -/
def firstCall (cache : Cache (Option ConfigFileStamp) ConfigData)
    (phase : ConfigPhase false 4096) : System false 4096 emptyFormat :=
  { disks := [emptyDisk], configCache := cache, midiMapCache := none
    threads := Function.update (fun _ => .idle) 0 (.readConfigFile 0 phase) }

theorem firstCall_step {cache cache' : Cache (Option ConfigFileStamp) ConfigData}
    {phase phase' : ConfigPhase false 4096}
    (h : Phase.Step configSource False configWatched emptyDisk cache phase
      cache' phase') :
    System.Step False (firstCall cache phase) (firstCall cache' phase') := by
  have hthread : (firstCall cache phase).threads 0 =
      .readConfigFile 0 phase := by
    simp [firstCall]
  have hstep := System.Step.config hthread rfl h
  simpa [System.setThread, firstCall] using hstep

theorem firstCall_run :
    Relation.ReflTransGen (System.Step False)
      (System.initial emptyDisk : System false 4096 emptyFormat)
      (firstCall (some ([none], {})) (.returned {})) := by
  have hbegin : System.Step False
      (System.initial emptyDisk : System false 4096 emptyFormat)
      (firstCall none (.statting [])) := .beginConfig rfl
  refine Relation.ReflTransGen.head hbegin ?_
  refine .head (firstCall_step (.stat rfl)) ?_
  refine .head (firstCall_step (.statted rfl)) ?_
  refine .head (firstCall_step (.miss fun v => by simp)) ?_
  refine .head (firstCall_step .time) ?_
  refine .head (firstCall_step (.observe (.open rfl))) ?_
  refine .head (firstCall_step (.finish rfl)) ?_
  refine .head (firstCall_step (.restat rfl)) ?_
  refine .head (firstCall_step (.unchanged rfl ?_)) ?_
  · intro s hs
    obtain rfl := List.mem_singleton.mp hs
    rfl
  · exact .single (firstCall_step .fill)

end Audiox.Config
