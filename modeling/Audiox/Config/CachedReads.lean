import Audiox.Config.ConfigStore
import Audiox.Support.ValidatedCache
import Mathlib

/-!
# The cached configuration files

The readers of the main configuration and of the MIDI map, with the caches of
both, next to the writers of the process and to other programs that write the
same files.
-/

namespace Audiox.Config

open ByteCodec ValidatedCache

/-! ## The files -/

inductive ConfigPath where
  | config
  | midiMap
  | fxParams
deriving DecidableEq

/-- A device and an inode on it. -/
abbrev Inode : Type :=
  Nat × Nat

structure FileBody where
  content : Bytes
  mtime : Int × Nat
  ctime : Int × Nat

/-- The files behind the paths, and the clock in nanoseconds.  `past` has the
inodes that a path ever had. -/
structure Disk where
  clock : Int
  node : ConfigPath → Option Inode
  body : Inode → FileBody
  past : ConfigPath → List Inode
  known : ∀ path inode, node path = some inode → inode ∈ past path

def seconds (clock : Int) : Int :=
  clock / 1000000000

def nanoseconds (time : Int × Nat) : Int :=
  time.1 * 1000000000 + time.2

/-- A time that is the clock rounded down, to two seconds at most. -/
def Recent (clock : Int) (time : Int × Nat) : Prop :=
  time.2 < 1000000000 ∧ nanoseconds time ≤ clock ∧
    clock ≤ nanoseconds time + 2000000000

/-- A file that was changed now has one current time at least. -/
def FileBody.Current (clock : Int) (body : FileBody) : Prop :=
  Recent clock body.mtime ∨ Recent clock body.ctime

def Disk.stampOf (disk : Disk) (inode : Inode) : ConfigFileStamp :=
  { dev := inode.1
    ino := inode.2
    size := (disk.body inode).content.length
    mtime := (disk.body inode).mtime
    ctime := (disk.body inode).ctime }

def Disk.configFileStamp (disk : Disk) (path : ConfigPath) :
    Option ConfigFileStamp :=
  (disk.node path).map disk.stampOf

def Disk.content (disk : Disk) (path : ConfigPath) : Option Bytes :=
  (disk.node path).map fun inode => (disk.body inode).content

def Disk.tick (disk : Disk) (clock : Int) : Disk :=
  { disk with clock }

def Disk.write (disk : Disk) (inode : Inode) (body : FileBody) : Disk :=
  { disk with body := Function.update disk.body inode body }

/-- The path of a created or renamed file. -/
def Disk.place (disk : Disk) (path : ConfigPath) (inode : Inode) : Disk :=
  { disk with
    node := Function.update disk.node path (some inode)
    past := Function.update disk.past path (inode :: disk.past path)
    known := by
      intro path' inode' h
      by_cases hpath : path' = path
      · subst hpath
        rw [Function.update_self] at h
        rw [Function.update_self, Option.some.inj h]
        exact List.mem_cons_self
      · rw [Function.update_of_ne hpath] at h
        rw [Function.update_of_ne hpath]
        exact disk.known path' inode' h }

/-- A change gives a path a new inode or a current stamp; the clock does not
run backwards. -/
inductive DiskStep : Disk → Disk → Prop where
  | tick {disk : Disk} {clock : Int} (h : disk.clock ≤ clock) :
      DiskStep disk (disk.tick clock)
  | write {disk : Disk} {inode : Inode} {body : FileBody}
      (h : (∃ path, disk.node path = some inode) → body.Current disk.clock) :
      DiskStep disk (disk.write inode body)
  | place {disk : Disk} {path : ConfigPath} {inode : Inode}
      (h : inode ∉ disk.past path ∨ (disk.body inode).Current disk.clock) :
      DiskStep disk (disk.place path inode)

/-- A file is written in place, or a written one gets the path. -/
def Saves (path : ConfigPath) (content : Bytes) (disk disk' : Disk) : Prop :=
  DiskStep disk disk' ∧
    ((∃ inode body, disk.node path = some inode ∧ body.content = content ∧
        disk' = disk.write inode body) ∨
      ∃ inode, (disk.body inode).content = content ∧
        disk' = disk.place path inode)

/-! ## The readers -/

/-- Where `readConfigPath` is: the part of the file that it has read. -/
inductive ConfigLoad where
  | opening
  | reading (taken : Bytes)
  | loaded (cfg : ConfigData)

section ConfigReader

variable (nightly : Bool) (blockSize : Nat)

def ConfigLoad.act : ConfigLoad → Act ConfigPath Bytes ConfigData
  | .opening => .openFile .config
  | .reading _ => .read
  | .loaded cfg => .finish cfg true

def ConfigLoad.opened (present : Bool) : ConfigLoad → ConfigLoad
  | .opening => if present then .reading [] else .loaded {}
  | state => state

/-- The next block of the file; at its end the file is parsed. -/
def ConfigLoad.got (content : Bytes) : ConfigLoad → ConfigLoad
  | .reading taken =>
      if (content.drop taken.length).take blockSize = [] then
        .loaded (parseConfig nightly taken).2
      else .reading (taken ++ (content.drop taken.length).take blockSize)
  | state => state

/-- The status of the reader is dropped. -/
def ConfigLoad.failed : ConfigLoad → ConfigLoad
  | .opening => .loaded {}
  | .reading _ => .loaded {}
  | state => state

def configReader : Reader ConfigPath Bytes ConfigData :=
  { State := ConfigLoad
    start := .opening
    act := ConfigLoad.act
    opened := ConfigLoad.opened
    got := ConfigLoad.got nightly blockSize
    failed := ConfigLoad.failed
    saved := id }

end ConfigReader

/-- The parsers of the MIDI map, of the effect parameters and of the old
mappings in the main configuration, as functions of what their calls have
read: whether another call follows, and what is found in the end.  `texts` are
the contents that a file has while it is written. -/
structure MidiFormat (M : Type) where
  empty : M
  mapMore : List Bytes → Bool
  mapData : List Bytes → Option M
  oldMore : List Bytes → Bool
  oldData : List Bytes → M
  fxMore : List Bytes → Bool
  withFx : M → List Bytes → M
  mapTexts : M → List Bytes
  fxTexts : M → List Bytes

inductive MidiLoad (M : Type) where
  | openMap
  | readMap (looks : List Bytes)
  | openOld
  | readOld (looks : List Bytes)
  | writeMap (data : M) (text : Bytes) (texts : List Bytes)
  | openFx (data : M) (keep : Bool)
  | readFx (data : M) (keep : Bool) (looks : List Bytes)
  | loaded (data : M) (keep : Bool)

section MidiReader

variable {M : Type} (format : MidiFormat M)

def MidiLoad.act : MidiLoad M → Act ConfigPath Bytes M
  | .openMap => .openFile .midiMap
  | .readMap _ => .read
  | .openOld => .openFile .config
  | .readOld _ => .read
  | .writeMap _ text _ => .save .midiMap text
  | .openFx _ _ => .openFile .fxParams
  | .readFx _ _ _ => .read
  | .loaded data keep => .finish data keep

/-- A migrated map is saved, and not kept. -/
def MidiLoad.migrate (data : M) : List Bytes → MidiLoad M
  | [] => .openFx data false
  | text :: texts => .writeMap data text texts

def MidiLoad.opened (present : Bool) : MidiLoad M → MidiLoad M
  | .openMap => if present then .readMap [] else .openOld
  | .openOld =>
      if present then .readOld []
      else .migrate format.empty (format.mapTexts format.empty)
  | .openFx data keep =>
      if present then .readFx data keep [] else .loaded data keep
  | state => state

def MidiLoad.mapRead (looks : List Bytes) : MidiLoad M :=
  match format.mapData looks with
  | some data => .openFx data true
  | none => .loaded format.empty false

def MidiLoad.got (content : Bytes) : MidiLoad M → MidiLoad M
  | .readMap looks =>
      if format.mapMore (looks ++ [content]) then .readMap (looks ++ [content])
      else .mapRead format (looks ++ [content])
  | .readOld looks =>
      if format.oldMore (looks ++ [content]) then .readOld (looks ++ [content])
      else
        .migrate (format.oldData (looks ++ [content]))
          (format.mapTexts (format.oldData (looks ++ [content])))
  | .readFx data keep looks =>
      if format.fxMore (looks ++ [content]) then
        .readFx data keep (looks ++ [content])
      else .loaded (format.withFx data (looks ++ [content])) keep
  | state => state

def MidiLoad.failed : MidiLoad M → MidiLoad M
  | .openMap => .loaded format.empty false
  | .readMap _ => .loaded format.empty false
  | .openOld => .migrate format.empty (format.mapTexts format.empty)
  | .readOld looks =>
      .migrate (format.oldData looks) (format.mapTexts (format.oldData looks))
  | .openFx data keep => .loaded data keep
  | .readFx data keep _ => .loaded data keep
  | state => state

def MidiLoad.saved : MidiLoad M → MidiLoad M
  | .writeMap data _ texts => .migrate data texts
  | state => state

def midiReader : Reader ConfigPath Bytes M :=
  { State := MidiLoad M
    start := .openMap
    act := MidiLoad.act
    opened := MidiLoad.opened format
    got := MidiLoad.got format
    failed := MidiLoad.failed format
    saved := MidiLoad.saved }

end MidiReader

def configWatched : List ConfigPath :=
  [.config]

def midiWatched : List ConfigPath :=
  [.midiMap, .fxParams]

/-! ## The writers -/

inductive WriteAct where
  | invalidateConfigCache
  | save (path : ConfigPath) (content : Bytes)

/-- The writers of the process. -/
inductive Writer (M : Type) where
  | writeConfigFile (cfg : ConfigData)
  | writeMidiMapFile (data : M)
  | writeScriptConfig (path : ConfigPath) (text : Bytes)

def Writer.acts {M : Type} (nightly : Bool) (format : MidiFormat M) :
    Writer M → List WriteAct
  | .writeConfigFile cfg =>
      [.invalidateConfigCache,
        .save .config (configText (savedConfig nightly cfg)),
        .invalidateConfigCache]
  | .writeMidiMapFile data =>
      (format.mapTexts data).map (.save .midiMap) ++
        (format.fxTexts data).map (.save .fxParams) ++
        [.invalidateConfigCache]
  | .writeScriptConfig path text => [.save path text, .invalidateConfigCache]

end Audiox.Config
