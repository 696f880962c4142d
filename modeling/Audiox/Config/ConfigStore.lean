import Audiox.Config.Basic
import Mathlib

/-!
# The store of the main configuration

The parsed configuration is cached as long as the stamp of its file stays the
same.  Settings are changed by reading the configuration, changing it, and
writing the whole file.
-/

namespace Audiox.Config

open ByteCodec

/-! ## Stamps -/

/-- What `stat` tells about a file; times are seconds and nanoseconds. -/
structure ConfigFileStamp where
  dev : Nat
  ino : Nat
  size : Nat
  mtime : Int × Nat
  ctime : Int × Nat
deriving DecidableEq

def kGranularitySec : Int := 3

/-- The file is too old to change again without a new stamp. -/
def configFileStampSettled (cachedAt : Int) :
    Option ConfigFileStamp → Bool
  | none => true
  | some stamp =>
      cachedAt - stamp.mtime.1 ≥ kGranularitySec &&
        cachedAt - stamp.ctime.1 ≥ kGranularitySec

structure ConfigFile where
  content : Bytes
  stamp : ConfigFileStamp
deriving DecidableEq

/-- The file on the disk, and the cache. -/
structure ConfigStore where
  file : Option ConfigFile
  cache : Option (Option ConfigFileStamp × ConfigData) := none

def ConfigStore.content (store : ConfigStore) : Option Bytes :=
  store.file.map (·.content)

def ConfigStore.stamp (store : ConfigStore) : Option ConfigFileStamp :=
  store.file.map (·.stamp)

/-! ## Reading and writing -/

/-- What the calls of a reader find: whether `stat` works before and after, and
whether a file that exists can be opened and read to its end. -/
structure ReadAccess where
  statBefore : Bool := true
  opened : Bool := true
  readToEnd : Bool := true
  statAfter : Bool := true

structure ReadAccess.Works (access : ReadAccess) : Prop where
  opened : access.opened = true
  readToEnd : access.readToEnd = true

/-- Whether all calls of a writer work, up to the rename, and the stamp of the
new file. -/
structure SaveAccess where
  committed : Bool
  stamp : ConfigFileStamp

section Operations

variable (nightly : Bool)

/-- A reader that fails without a version leaves `out` as it is. -/
def readConfigPath (content : Option Bytes) (access : ReadAccess)
    (out : ConfigData) : ConfigStatus × ConfigData :=
  if ¬access.opened then (.err, out)
  else
    match content with
    | none => (.warn, out)
    | some file =>
        if ¬access.readToEnd then (.err, out) else parseConfig nightly file

/-- What the cache has for the file. -/
def ConfigStore.cached (store : ConfigStore) (access : ReadAccess) :
    Option ConfigData :=
  if access.statBefore then
    store.cache.bind fun entry =>
      if entry.1 = store.stamp then some entry.2 else none
  else none

/-- The status of the reader is dropped. -/
def ConfigStore.readConfigFile (store : ConfigStore) (access : ReadAccess)
    (now : Int) : ConfigData × ConfigStore :=
  match store.cached access with
  | some cfg => (cfg, store)
  | none =>
      let cfg := (readConfigPath nightly store.content access {}).2
      if access.statBefore ∧ access.statAfter ∧
          configFileStampSettled now store.stamp then
        (cfg, { store with cache := some (store.stamp, cfg) })
      else (cfg, store)

/-- What is saved of a configuration. -/
def savedConfig (cfg : ConfigData) : ConfigData :=
  { normalizeConfig nightly cfg with schemaVersion := configSchemaVersion }

def ConfigStore.writeConfigFile (store : ConfigStore) (cfg : ConfigData)
    (save : SaveAccess) : ConfigStatus × ConfigStore :=
  if cfg.schemaVersion > configSchemaVersion then (.err, store)
  else if save.committed then
    (.ok, { file := some ⟨configText (savedConfig nightly cfg), save.stamp⟩ })
  else (.err, { store with cache := none })

/-! ## Operations -/

/-- The settings that the web server changes. -/
inductive Change
  | soundboardMode (mode : UInt8)
  | framebufferView (soundboard : Bool)
  | updateChannel (nightly : Bool)
  | updateNotifications (enabled : Bool)

def Change.apply (cfg : ConfigData) : Change → ConfigData
  | .soundboardMode mode => { cfg with soundboardMode := mode }
  | .framebufferView soundboard =>
      { cfg with framebufferSoundboard := if soundboard then 1 else 0 }
  | .updateChannel nightly =>
      { cfg with
        updateChannel :=
          if nightly then updateChannelNightly else updateChannelStable }
  | .updateNotifications enabled =>
      { cfg with updateNotificationsOff := if enabled then 0 else 1 }

/-- A value of a script; a number is `none` where it is not finite. -/
inductive ScriptValue
  | boolean (value : Bool)
  | number (value : Option Rat)
  | string (value : Bytes)

def ScriptValue.numeric (low high : Nat) : ScriptValue → Option Nat
  | .number (some value) =>
      if low ≤ value ∧ value ≤ high ∧ (value.floor : Rat) = value then
        some value.floor.toNat
      else none
  | _ => none

def ScriptValue.flag : ScriptValue → Option UInt8
  | .boolean value => some (if value then 1 else 0)
  | _ => none

def ScriptValue.choice (names : List Bytes) : ScriptValue → Option UInt8
  | .string value =>
      if value ∈ names then some (names.idxOf value).toUInt8 else none
  | _ => none

def applyScriptSetting (cfg : ConfigData) (key : Bytes)
    (value : ScriptValue) : Option ConfigData :=
  if key = ascii "usb_sample_rate" then
    (value.numeric 8000 192000).map fun n => { cfg with sampleRate := n }
  else if key = ascii "usb_playback_channels" then
    (value.numeric 1 16).map fun n => { cfg with playbackChannels := n }
  else if key = ascii "usb_capture_channels" then
    (value.numeric 1 16).map fun n => { cfg with captureChannels := n }
  else if key = ascii "usb_sample_size" then
    (value.numeric 1 4).map fun n => { cfg with sampleSize := n }
  else if key = ascii "keyboard_macros" then
    value.flag.map fun b => { cfg with keyboardMacros := b }
  else if key = ascii "soundboard_mode" then
    (value.choice [ascii "play", ascii "hold"]).map fun n =>
      { cfg with soundboardMode := n }
  else if key = ascii "framebuffer_view" then
    (value.choice [ascii "meters", ascii "soundboard"]).map fun n =>
      { cfg with framebufferSoundboard := n }
  else if key = ascii "midi_passthrough" then
    (value.choice [ascii "off", ascii "unmapped", ascii "all"]).map fun n =>
      { cfg with midiPassthrough := n }
  else none

/-- The constructor writes what it has read. -/
def ConfigStore.construct (store : ConfigStore) (access : ReadAccess)
    (save : SaveAccess) (now : Int) : ConfigStore :=
  let (cfg, store) :=
    ConfigStore.readConfigFile nightly { file := store.file } access now
  (store.writeConfigFile nightly cfg save).2

def ConfigStore.update (store : ConfigStore) (change : Change)
    (access : ReadAccess) (save : SaveAccess) (now : Int) : ConfigStore :=
  let (cfg, store) := store.readConfigFile nightly access now
  (store.writeConfigFile nightly (change.apply cfg) save).2

/-- The directory is flushed in the end; that changes nothing here. -/
def ConfigStore.writeScriptSetting (store : ConfigStore) (key : Bytes)
    (value : ScriptValue) (access : ReadAccess) (save : SaveAccess) :
    ConfigStore :=
  match readConfigPath nightly store.content access {} with
  | (.ok, cfg) =>
      match applyScriptSetting cfg key value with
      | none => store
      | some cfg => (store.writeConfigFile nightly cfg save).2
  | (_, _) => store

def scriptConfigWriteMax : Nat := 4096

def scriptConfigTextValid (text : Bytes) : Bool :=
  text.length ≤ scriptConfigWriteMax && text.all fun c =>
    32 ≤ c || c == chr '\n' || c == chr '\r' || c == chr '\t'

/-- Replaces a file as a whole. -/
def ConfigStore.writeScriptConfig (store : ConfigStore) (name text : Bytes)
    (save : SaveAccess) (synced : Bool) : ConfigStore :=
  if name = ascii "config.txt" ∧ scriptConfigTextValid text ∧
      save.committed then
    { file := some ⟨text, save.stamp⟩
      cache := if synced then none else store.cache }
  else store

/-- What a staged file leaves of the configuration: the preferences of the web
server. -/
def stagedConfig (next saved : ConfigData) : ConfigData :=
  { next with
    updateNotificationsOff := saved.updateNotificationsOff
    updateChannel := saved.updateChannel }

/-- A staged file that can be read is committed after the gadget has been
reloaded with it. -/
def ConfigStore.commitStaged (store : ConfigStore) (staged : Option Bytes)
    (stagedAccess access : ReadAccess) (reloaded : Bool) (save : SaveAccess)
    (now : Int) : ConfigStore :=
  match readConfigPath nightly staged stagedAccess {} with
  | (.ok, next) =>
      let (saved, store) := store.readConfigFile nightly access now
      if reloaded then
        (store.writeConfigFile nightly (stagedConfig next saved) save).2
      else store
  | (_, _) => store

end Operations

end Audiox.Config
