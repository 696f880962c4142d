import Audiox.Support.FileCalls
import Audiox.Update.Text
import Mathlib

/-!
# Update rollback state

The state shared by the bootloader, the watchdog and the runtime lives in the
`system` directory of the configuration partition:

* `boot-backup/`, the last confirmed-good boot files and a `version` file;
* `boot-trial`, `attempts=N` while a newly installed boot set is unconfirmed;
* `boot-trial.log`, the events of the attempts;
* `last-boot-failure.txt`, the report written when the backup is restored.

Path strings are resolved here: the mount points are short constants, so no
path buffer overflows.
-/

namespace Audiox

open ByteCodec FileTree Interruptible

/-- Where the configuration partition and the boot partition are mounted. -/
structure Mounts where
  root : Path
  boot : Path
  root_not_prefix : ¬root <+: boot
  boot_not_prefix : ¬boot <+: root

/-! ## Names and paths -/

def configName : Name := ascii "config.txt"

def versionName : Name := ascii "version"

def bootTrialName : Name := ascii "boot-trial"

def tmpSuffix : Name := ascii ".tmp"

def restoreSuffix : Name := ascii ".restore"

/-- The boot files with a fixed name. -/
def bootRecoveryFileNames : List Name :=
  [ascii "initramfs.cpio.gz", ascii "program.cpio.gz", ascii "cmdline.txt",
    configName]

def bootRecoveryMaxAttempts : Nat := 3

def bootRecoveryMaxFiles : Nat := 8

namespace Mounts

variable (m : Mounts)

def stateDir : Path := m.root ++ [ascii "system"]

def trialPath : Path := m.stateDir ++ [bootTrialName]

def trialTmp : Path := m.stateDir ++ [bootTrialName ++ tmpSuffix]

def eventsPath : Path := m.stateDir ++ [ascii "boot-trial.log"]

def reportPath : Path := m.stateDir ++ [ascii "last-boot-failure.txt"]

def reportTmp : Path := m.stateDir ++ [ascii "last-boot-failure.txt" ++ tmpSuffix]

def backupDir : Path := m.stateDir ++ [ascii "boot-backup"]

def backupTmpDir : Path := m.stateDir ++ [ascii "boot-backup" ++ tmpSuffix]

end Mounts

def bootRecoveryIsBootFile (name : Name) : Bool :=
  bootRecoveryFileNames.contains name || audioxUpdateValidKernelName name

/-! ## File operations -/

/-- The size of the buffer files are copied through. -/
def brCopySize : Nat := 16384

def brChunks (data : Bytes) : List Bytes :=
  (List.range ((data.length + brCopySize - 1) / brCopySize)).map fun i =>
    (data.drop (i * brCopySize)).take brCopySize

/-- Writes that the caller does not check end with a flush of the
directory. -/
def brFsyncDir (dir : Path) : Prog files Unit := do
  let _ ← fsync dir

/-- Copies the content of an open file, one buffer at a time.  The reads are
one call: a later read that fails leaves what a write that fails leaves. -/
def brCopyData (src dst : Path) : Prog files Bool := do
  match ← readFile src with
  | .error _ => pure false
  | .ok data =>
      if ← Prog.untilFailure (brChunks data) fun chunk => do
          pure (← append dst chunk).isOk
      then pure (← fsync dst).isOk
      else pure false

/-- A copy that fails is removed again. -/
def brCopyFile (src dst : Path) : Prog files Bool := do
  if !(← openRead src).isOk then pure false
  else if !(← create dst .truncate).isOk then pure false
  else if ← brCopyData src dst then pure true
  else do
    let _ ← unlink dst
    pure false

/-- Replaces a file by way of a temporary file beside it. -/
def brWriteFileAtomic (dir : Path) (name : Name) (text : Bytes) :
    Prog files Bool := do
  let tmp := dir ++ [name ++ tmpSuffix]
  if !(← create tmp .truncate).isOk then pure false
  else if !(← append tmp text).isOk then do
    let _ ← unlink tmp
    pure false
  else if !(← fsync tmp).isOk then do
    let _ ← unlink tmp
    pure false
  else if !(← rename tmp (dir ++ [name])).isOk then do
    let _ ← unlink tmp
    pure false
  else do
    brFsyncDir dir
    pure true

/-- Reads at most `size - 1` bytes; `none` when the file cannot be opened. -/
def brReadSmallFile (path : Path) (size : Nat) : Prog files (Option Bytes) := do
  if !(← openRead path).isOk then pure none
  else
    match ← readFile path with
    | .error _ => pure (some [])
    | .ok data => pure (some (data.take (size - 1)))

def brAppendText (path : Path) (text : Bytes) : Prog files Unit := do
  if (← create path .keep).isOk then do
    let _ ← append path text
    let _ ← fsync path

/-- Removes a directory of files; what cannot be removed is left. -/
def brRemoveFlatDir (dir : Path) : Prog files Unit := do
  match ← readdir dir with
  | .error _ => pure ()
  | .ok names => Prog.forEach names fun n => do
      let _ ← unlink (dir ++ [n])
  let _ ← rmdir dir

/-! ## The state directory -/

def bootRecoveryEnsureStateDir (m : Mounts) : Prog files Bool := do
  match ← mkdir m.stateDir with
  | .ok _ => pure true
  | .error e => pure (e == .eexist)

def bootRecoveryHasBackup (m : Mounts) : Prog files Bool :=
  access (m.backupDir ++ [versionName])

def bootRecoveryTrialPending (m : Mounts) : Prog files Bool :=
  access m.trialPath

/-- The boot files among the names of a directory; `config.txt`, which selects
the kernel, comes last. -/
def backupNames (names : List Name) : List Name :=
  (names.filter fun n =>
      bootRecoveryIsBootFile n && n.length < audioxUpdateValueMax &&
        n != configName).take (bootRecoveryMaxFiles - 1) ++
    if configName ∈ names then [configName] else []

def bootRecoveryListBackup (dir : Path) : Prog files (List Name) := do
  match ← readdir dir with
  | .error _ => pure []
  | .ok names => pure (backupNames names)

/-! ## Preparing an update -/

/-- The size of the buffer that `config.txt` is read into to find the
kernel. -/
def prepareConfigSize : Nat := 16384

def textOr (text default : Bytes) : Bytes :=
  if text = [] then default else text

/-- Copies one boot file into the new backup, if there is such a file. -/
def backupFile (m : Mounts) (name : Name) : Prog files Bool := do
  if ← access (m.boot ++ [name]) then
    brCopyFile (m.boot ++ [name]) (m.backupTmpDir ++ [name])
  else pure true

/-- Copies the boot files to a new backup directory. -/
def createBackup (m : Mounts) (versionText : Bytes) : Prog files Bool := do
  brRemoveFlatDir m.backupTmpDir
  brRemoveFlatDir m.backupDir
  if !(← mkdir m.backupTmpDir).isOk then pure false
  else do
    let config ← brReadSmallFile (m.boot ++ [configName]) prepareConfigSize
    let kernelName := audioxConfigKernelName (config.getD [])
    if !(← Prog.untilFailure (bootRecoveryFileNames ++ [kernelName])
        (backupFile m)) then do
      brRemoveFlatDir m.backupTmpDir
      pure false
    else if !(← brWriteFileAtomic m.backupTmpDir versionName
        (textOr versionText (ascii "unknown\n"))) then do
      brRemoveFlatDir m.backupTmpDir
      pure false
    else if !(← rename m.backupTmpDir m.backupDir).isOk then do
      brRemoveFlatDir m.backupTmpDir
      pure false
    else do
      brFsyncDir m.stateDir
      pure true

/-- Called by a running image before it modifies any boot file.  A backup
that exists is kept, because it is the last confirmed-good boot set. -/
def bootRecoveryPrepareUpdate (m : Mounts) (versionText : Bytes) :
    Prog files Bool := do
  if !(← bootRecoveryEnsureStateDir m) then pure false
  else if !(← (do
      if ← bootRecoveryHasBackup m then pure true
      else createBackup m versionText)) then pure false
  else do
    let _ ← unlink m.eventsPath
    brWriteFileAtomic m.stateDir bootTrialName (ascii "attempts=0\n")

/-! ## Counting boots -/

inductive BootTrialAction where
  | none | attempt | revert
deriving DecidableEq, Repr

def isSpace (c : UInt8) : Bool :=
  c == chr ' ' || (9 ≤ c && c ≤ 13)

/-- A number as `strtoul` reads it: the sign that precedes the digits and the
digits.  What overflows 64 bits is the largest number. -/
def unsignedValue (negative : Bool) (digits : Bytes) : Nat :=
  let n := decimal digits
  if 2 ^ 64 ≤ n then 2 ^ 32 - 1
  else if negative then (2 ^ 64 - n) % 2 ^ 32
  else n % 2 ^ 32

/-- The conversion `%u` of `sscanf`. -/
def scanUnsigned (text : Bytes) : Option Nat :=
  let rest := text.dropWhile isSpace
  let signed := rest.head? = some (chr '-') ∨ rest.head? = some (chr '+')
  let digits := (if signed then rest.tail else rest).takeWhile isDigit
  if digits = [] then none
  else some (unsignedValue (rest.head? = some (chr '-')) digits)

def attemptsKey : Bytes := ascii "attempts="

/-- The number after `attempts=` at the start of the text. -/
def scanAttempts (text : Bytes) : Option Nat :=
  if attemptsKey <+: text then scanUnsigned (text.drop attemptsKey.length)
  else none

def attemptsText (n : Nat) : Bytes :=
  attemptsKey ++ showDecimal n ++ ascii "\n"

/-- The size of the buffer that `boot-trial` is read into. -/
def trialTextSize : Nat := 64

/-- The attempts that the text of `boot-trial` counts.  A counter that cannot
be read is exhausted, so that a corrupt file cannot loop forever. -/
def trialAttempts (text : Bytes) : Nat :=
  (scanAttempts (cstr (text.take (trialTextSize - 1)))).getD
    bootRecoveryMaxAttempts

def trialEvent (attempts : Nat) (versionText : Bytes) : Bytes :=
  let version := textOr versionText (ascii "unknown")
  (ascii "[BOOT] trial attempt " ++ showDecimal attempts ++ ascii "/" ++
    showDecimal bootRecoveryMaxAttempts ++ ascii ", runtime version " ++
    version ++
    (if versionText.getLast? = some (chr '\n') then [] else ascii "\n")).take
      255

/-- Called by the bootloader on every boot that is not installing a staged
runtime.  The number is the counter to report, if there is one. -/
def bootRecoveryBeginBoot (m : Mounts) (versionText : Bytes) :
    Prog files (BootTrialAction × Option Nat) := do
  match ← brReadSmallFile m.trialPath trialTextSize with
  | none => pure (.none, none)
  | some text => do
      let attempts := trialAttempts text
      if bootRecoveryMaxAttempts ≤ attempts then pure (.revert, some attempts)
      else if !(← brWriteFileAtomic m.stateDir bootTrialName
          (attemptsText (attempts + 1))) then pure (.revert, some attempts)
      else do
        brAppendText m.eventsPath (trialEvent (attempts + 1) versionText)
        pure (.attempt, some (attempts + 1))

/-! ## Reverting -/

def brTrimLine (text : Bytes) : Bytes :=
  text.rdropWhile fun c => c == chr '\n' || c == chr '\r'

def bootRecoveryLogTailBytes : Nat := 32 * 1024

def strerror : Errno → Bytes
  | .enoent => ascii "No such file or directory"
  | .eexist => ascii "File exists"
  | .enotdir => ascii "Not a directory"
  | .eisdir => ascii "Is a directory"
  | .enotempty => ascii "Directory not empty"
  | .einval => ascii "Invalid argument"
  | .ebadf => ascii "Bad file descriptor"
  | .eio => ascii "Input/output error"

/-- The end of a log, as a section of the report. -/
def brReportAppendFile (title : Bytes) (path : Path) : Prog files Bytes := do
  let head := ascii "\n--- " ++ title ++ ascii " ---\n"
  match ← openRead path with
  | .error e => pure (head ++ ascii "(unavailable: " ++ strerror e ++ ascii ")\n")
  | .ok _ =>
      match ← readFile path with
      | .error _ => pure head
      | .ok data =>
          if bootRecoveryLogTailBytes < data.length then
            pure (head ++ ascii "(last " ++
              showDecimal bootRecoveryLogTailBytes ++ ascii " of " ++
              showDecimal data.length ++ ascii " bytes)\n" ++
              data.drop (data.length - bootRecoveryLogTailBytes))
          else pure (head ++ data)

def reportHead (failed restored : Bytes) (attempts : Nat) (hasBackup : Bool)
    (names : List Name) : Bytes :=
  ascii "failed_version=" ++ failed ++
  ascii "\nrestored_version=" ++ (if hasBackup then restored else ascii "none") ++
  ascii "\nattempts=" ++ showDecimal attempts ++
  ascii "\nreverted=" ++ (if hasBackup then ascii "yes" else ascii "no") ++
  ascii "\nrestored_files=" ++ (names.intersperse (ascii ",")).flatten ++
  ascii "\n\nThe updated image failed to stay healthy for " ++
  showDecimal attempts ++ ascii " boot attempt(s).\n" ++
  if hasBackup then []
  else ascii
    "No backup boot set was available, so the failing image was left in place.\n"

/-- Writes the failure report; no failure is an error. -/
def writeReport (m : Mounts) (head : Bytes) : Prog files Unit := do
  if (← create m.reportTmp .truncate).isOk then do
    let events ← brReportAppendFile (ascii "boot trial events") m.eventsPath
    let out ← brReportAppendFile
      (ascii "stdout.log from the last failed attempt")
      (m.root ++ [ascii "stdout.log"])
    let err ← brReportAppendFile
      (ascii "stderr.log from the last failed attempt")
      (m.root ++ [ascii "stderr.log"])
    let _ ← append m.reportTmp (head ++ events ++ out ++ err)
    let _ ← fsync m.reportTmp
    if !(← rename m.reportTmp m.reportPath).isOk then do
      let _ ← unlink m.reportTmp
    brFsyncDir m.stateDir

/-- Puts one file of the backup back into place. -/
def restoreFile (m : Mounts) (name : Name) : Prog files Bool := do
  let tmp := m.boot ++ [name ++ restoreSuffix]
  if ← access (m.backupDir ++ [name]) then
    if !(← brCopyFile (m.backupDir ++ [name]) tmp) then do
      let _ ← unlink tmp
      pure false
    else if !(← rename tmp (m.boot ++ [name])).isOk then do
      let _ ← unlink tmp
      pure false
    else pure true
  else pure true

/-- Drops the trial, its events and the backup. -/
def clearTrial (m : Mounts) : Prog files Unit := do
  let _ ← unlink m.trialPath
  let _ ← unlink m.eventsPath
  brRemoveFlatDir m.backupDir
  brFsyncDir m.stateDir

/-- The files to put back, in this order. -/
def restoreNames (m : Mounts) (hasBackup : Bool) : Prog files (List Name) :=
  if hasBackup then bootRecoveryListBackup m.backupDir else pure []

/-- The version in the backup, cut to one line. -/
def restoredVersion (m : Mounts) (hasBackup : Bool) : Prog files Bytes := do
  if hasBackup then do
    let text ← brReadSmallFile (m.backupDir ++ [versionName]) 128
    pure (brTrimLine (cstr (text.getD [])))
  else pure (ascii "none")

/-- Writes the failure report, restores the backup boot set and clears the
trial state.  The report is written first, so that power loss during the
restore still leaves evidence.  The result is -1 when a file could not be
restored (the trial and the backup are then kept), 0 after a restore, and 1
when there was no backup. -/
def bootRecoveryRevert (m : Mounts) (failedVersion : Bytes)
    (attempts : Nat) : Prog files Int := do
  if !(← bootRecoveryEnsureStateDir m) then pure (-1)
  else do
    let hasBackup ← bootRecoveryHasBackup m
    let names ← restoreNames m hasBackup
    let restored ← restoredVersion m hasBackup
    let failed := brTrimLine
      ((textOr failedVersion (ascii "unknown")).take 127)
    writeReport m (reportHead failed restored attempts hasBackup names)
    if !(← Prog.every names (restoreFile m)) then pure (-1)
    else do
      clearTrial m
      pure (if hasBackup then 0 else 1)

/-- Called by the runtime once a trial boot has stayed healthy. -/
def bootRecoveryConfirm (m : Mounts) : Prog files Unit :=
  clearTrial m

/-! ## The running system -/

/-- The mount points of the running system. -/
def systemMounts : Mounts where
  root := [ascii "audiox"]
  boot := [ascii "mnt", ascii "boot"]
  root_not_prefix := by decide
  boot_not_prefix := by decide

/-- A system without recovery state. -/
def freshSystem : Node :=
  .dir [(ascii "audiox", .dir []),
    (ascii "mnt", .dir [(ascii "boot", .dir
      [(configName, .file (ascii "arm_64bit=1\n")),
        (audioxUpdateDefaultKernel, .file [1])])])]

end Audiox
