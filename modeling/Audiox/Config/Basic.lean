import Audiox.Config.Schema
import Audiox.Config.SoundLight
import Mathlib

/-!
# The main configuration file

`config.txt` is a text of `key=value` lines with a version.  Keys that are not
known are skipped, and a version that is not known is refused.
-/

namespace Audiox.Config

open ByteCodec

def configSchemaVersion : Nat := 1
def sampleRateDefault : Nat := 48000
def uint32Max : Nat := 2 ^ 32 - 1

def soundboardModePlay : UInt8 := 0
def soundboardModeHold : UInt8 := 1
def updateChannelStable : UInt8 := 1
def updateChannelNightly : UInt8 := 2

structure ConfigData where
  sampleRate : Nat := 0
  playbackChannels : Nat := 0
  captureChannels : Nat := 0
  sampleSize : Nat := 0
  soundboardMode : UInt8 := 0
  framebufferSoundboard : UInt8 := 0
  midiPassthrough : UInt8 := 0
  keyboardMacros : UInt8 := 0
  updateNotificationsOff : UInt8 := 0
  updateChannel : UInt8 := 0
  schemaVersion : Nat := 0
deriving DecidableEq

/-- Fills in what is missing or out of range.  `nightly` tells whether the
program is a nightly build. -/
def normalizeConfig (nightly : Bool) (cfg : ConfigData) : ConfigData :=
  { cfg with
    sampleRate :=
      if cfg.sampleRate = 0 then sampleRateDefault else cfg.sampleRate
    playbackChannels :=
      if cfg.playbackChannels = 0 then 2 else cfg.playbackChannels
    captureChannels :=
      if cfg.captureChannels = 0 then 2 else cfg.captureChannels
    sampleSize := if cfg.sampleSize = 0 then 2 else cfg.sampleSize
    soundboardMode :=
      if cfg.soundboardMode ≠ soundboardModeHold then soundboardModePlay
      else cfg.soundboardMode
    midiPassthrough := if cfg.midiPassthrough > 2 then 0 else cfg.midiPassthrough
    keyboardMacros := if cfg.keyboardMacros ≠ 0 then 1 else 0
    updateNotificationsOff := if cfg.updateNotificationsOff ≠ 0 then 1 else 0
    updateChannel :=
      if cfg.updateChannel ≠ updateChannelStable ∧
          cfg.updateChannel ≠ updateChannelNightly then
        if nightly then updateChannelNightly else updateChannelStable
      else cfg.updateChannel }

/-! ## Reading -/

/-- The number at the start of a text, what follows it, and whether it is out
of the range of an `unsigned long`. -/
def strtoul (s : Bytes) : Nat × Bytes × Bool :=
  let (negative, digits) := takeSign (s.dropWhile isSpace)
  let magnitude := decimal (digits.takeWhile isDigit)
  let rest := digits.dropWhile isDigit
  if digits.takeWhile isDigit = [] then (0, s, false)
  else if magnitude ≥ 2 ^ 64 then (2 ^ 64 - 1, rest, true)
  else if negative then ((2 ^ 64 - magnitude) % 2 ^ 64, rest, false)
  else (magnitude, rest, false)

def toUint32 (value : Bytes) : Nat :=
  (strtoul value).1 % 2 ^ 32

def lowerCase (c : UInt8) : UInt8 :=
  if chr 'A' ≤ c ∧ c ≤ chr 'Z' then c - chr 'A' + chr 'a' else c

def streqIgnoreCase (a b : Bytes) : Bool :=
  a.map lowerCase = b.map lowerCase

def soundboardModeFromString (value : Bytes) : UInt8 :=
  if streqIgnoreCase value (ascii "hold") ∨ value = ascii "1" then
    soundboardModeHold
  else soundboardModePlay

/-- The configuration and the version as they have been read so far. -/
structure ConfigScan where
  cfg : ConfigData := {}
  sourceVersion : Nat := 0
  sawVersion : Bool := false
  invalidVersion : Bool := false

def ConfigScan.version (scan : ConfigScan) (value : Bytes) : ConfigScan :=
  if scan.sawVersion ∨ value = [] ∨ value.head? = some (chr '-') then
    { scan with invalidVersion := true }
  else
    match strtoul value with
    | (parsed, rest, range) =>
        if range ∨ rest ≠ [] ∨ parsed > uint32Max then
          { scan with sawVersion := true, invalidVersion := true }
        else { scan with sawVersion := true, sourceVersion := parsed }

def ConfigData.set (cfg : ConfigData) (key value : Bytes) : ConfigData :=
  if key = ascii "usb_sample_rate" then
    { cfg with sampleRate := toUint32 value }
  else if key = ascii "usb_playback_channels" then
    { cfg with playbackChannels := toUint32 value }
  else if key = ascii "usb_capture_channels" then
    { cfg with captureChannels := toUint32 value }
  else if key = ascii "usb_sample_size" then
    { cfg with sampleSize := toUint32 value }
  else if key = ascii "soundboard_mode" then
    { cfg with soundboardMode := soundboardModeFromString value }
  else if key = ascii "framebuffer_view" then
    { cfg with
      framebufferSoundboard := if value = ascii "soundboard" then 1 else 0 }
  else if key = ascii "midi_passthrough" then
    { cfg with
      midiPassthrough :=
        if value = ascii "unmapped" then 1
        else if value = ascii "all" then 2 else 0 }
  else if key = ascii "keyboard_macros" then
    { cfg with keyboardMacros := if value = ascii "1" then 1 else 0 }
  else if key = ascii "update_notifications" then
    { cfg with updateNotificationsOff := if value = ascii "0" then 1 else 0 }
  else if key = ascii "update_channel" then
    { cfg with
      updateChannel :=
        if value = ascii "stable" then updateChannelStable
        else if value = ascii "nightly" then updateChannelNightly
        else cfg.updateChannel }
  else cfg

def ConfigScan.line (scan : ConfigScan) (line : Bytes) : ConfigScan :=
  match splitKeyValue line with
  | none => scan
  | some (key, value) =>
      if key = ascii "config_version" then scan.version value
      else { scan with cfg := scan.cfg.set key value }

inductive ConfigStatus
  | ok | warn | err
deriving DecidableEq

/-- Unversioned settings use the initial schema. -/
def migrate (sourceVersion : Nat) : Option Nat :=
  if sourceVersion < configSchemaVersion then
    match sourceVersion with
    | 0 => some 1
    | _ => none
  else some sourceVersion

def scanConfig (file : Bytes) : ConfigScan :=
  (fgets 256 file).foldl ConfigScan.line {}

/-- The configuration in what has been read of a file. -/
def ConfigScan.result (nightly : Bool) (scan : ConfigScan) :
    ConfigStatus × ConfigData :=
  if scan.invalidVersion ∨ scan.sourceVersion > configSchemaVersion then
    (.err, { scan.cfg with
      schemaVersion :=
        if scan.invalidVersion then uint32Max else scan.sourceVersion })
  else
    match migrate scan.sourceVersion with
    | none => (.err, { scan.cfg with schemaVersion := uint32Max })
    | some version =>
        (.ok, normalizeConfig nightly
          { scan.cfg with schemaVersion := version })

/-- The configuration in a file that has been read to its end. -/
def parseConfig (nightly : Bool) (file : Bytes) : ConfigStatus × ConfigData :=
  (scanConfig file).result nightly

/-! ## Writing -/

def soundboardModeToString (mode : UInt8) : Bytes :=
  if mode = soundboardModeHold then ascii "hold" else ascii "play"

def configLine (key : String) (value : Bytes) : Bytes :=
  ascii key ++ chr '=' :: value ++ [chr '\n']

def configText (cfg : ConfigData) : Bytes :=
  configLine "config_version" (showDecimal cfg.schemaVersion) ++
    configLine "usb_sample_rate" (showDecimal cfg.sampleRate) ++
    configLine "usb_playback_channels" (showDecimal cfg.playbackChannels) ++
    configLine "usb_capture_channels" (showDecimal cfg.captureChannels) ++
    configLine "usb_sample_size" (showDecimal cfg.sampleSize) ++
    configLine "soundboard_mode" (soundboardModeToString cfg.soundboardMode) ++
    configLine "framebuffer_view"
      (if cfg.framebufferSoundboard ≠ 0 then ascii "soundboard"
      else ascii "meters") ++
    configLine "midi_passthrough"
      (if cfg.midiPassthrough = 1 then ascii "unmapped"
      else if cfg.midiPassthrough = 2 then ascii "all" else ascii "off") ++
    configLine "keyboard_macros" (showDecimal cfg.keyboardMacros.toNat) ++
    configLine "update_notifications"
      (if cfg.updateNotificationsOff ≠ 0 then ascii "0" else ascii "1") ++
    configLine "update_channel"
      (if cfg.updateChannel = updateChannelNightly then ascii "nightly"
      else ascii "stable")

/-! ## What is accepted -/

/-- The configuration behind a file that may be missing. -/
def accepted (nightly : Bool) : Option Bytes → Option ConfigData
  | none => some {}
  | some file =>
      if (parseConfig nightly file).1 = .ok then
        some (parseConfig nightly file).2
      else none

/-- What is not accepted is marked with a version that is too high. -/
theorem parseConfig_cases (nightly : Bool) (file : Bytes) :
    (parseConfig nightly file).1 = .ok ∧
      (parseConfig nightly file).2.schemaVersion = configSchemaVersion ∨
    (parseConfig nightly file).1 = .err ∧
      configSchemaVersion < (parseConfig nightly file).2.schemaVersion := by
  have hmax : configSchemaVersion < uint32Max := by decide
  unfold parseConfig ConfigScan.result
  split_ifs with hrefused hinvalid
  · exact .inr ⟨rfl, hmax⟩
  · exact .inr ⟨rfl, hrefused.resolve_left hinvalid⟩
  · cases hmigrate : migrate (scanConfig file).sourceVersion with
    | none => exact .inr ⟨rfl, hmax⟩
    | some version =>
        left
        refine ⟨rfl, ?_⟩
        rw [not_or, not_lt] at hrefused
        have hlow := hrefused.2
        change version = configSchemaVersion
        unfold migrate at hmigrate
        split_ifs at hmigrate with hold
        · have hzero : (scanConfig file).sourceVersion = 0 := by
            rw [configSchemaVersion] at hold
            omega
          rw [hzero] at hmigrate
          exact (Option.some.inj hmigrate).symm
        · have hversion := Option.some.inj hmigrate
          omega

end Audiox.Config
