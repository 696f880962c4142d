import Audiox.Boot.FileOps
import Audiox.Scenes.RoundTrip
import Mathlib

/-!
# The scene store

Every scene is a file of one directory, named after the id of the scene.  A
scene is written to a pending file beside its own, which is then renamed.
-/

namespace Audiox.Scenes

open ByteCodec Config Checks FileTree Interruptible

variable {F : Type}

/-! ## Files -/

def sceneSuffix : Bytes := ascii ".scene"

def scenePath (dir : Path) (id : Bytes) : Path :=
  dir ++ [id ++ sceneSuffix]

def pendingPath (dir : Path) (id : Bytes) : Path :=
  dir ++ [id ++ sceneSuffix ++ ascii ".pending"]

/-- The id in front of the suffix of a scene file. -/
def sceneFileId (name : Name) : Option Bytes :=
  if name.length < 7 ∨ name.drop (name.length - 6) ≠ sceneSuffix then none
  else some (name.take (name.length - 6))

def readPath (host : Host F) (path : Path) (id : Bytes) :
    Prog files (Except String (Scene F)) := do
  match ← readFile path with
  | .error _ => pure (.error "scene not found or unreadable")
  | .ok file => pure (readScene host file id)

def syncDirectory (dir : Path) : Prog files Bool := do
  if !(← openRead dir).isOk then pure false
  else pure (← fsync dir).isOk

/-! ## Reading -/

def Store.read (host : Host F) (dir : Path) (id : Bytes) :
    Prog files (Except String (Scene F)) :=
  if ¬validId id then pure (.error "invalid scene id")
  else readPath host (scenePath dir id) id

/-- Reads the scenes among the names of the directory; a file that is not named
after a valid id has no error of its own. -/
def listScenes (host : Host F) (dir : Path) :
    List Name → List (Scene F) → Prog files (Except String (List (Scene F)))
  | [], out => pure (.ok out)
  | name :: names, out =>
      match sceneFileId name with
      | none => listScenes host dir names out
      | some id =>
          if ¬validId id then pure (.error "")
          else do
            match ← readPath host (dir ++ [name]) id with
            | .error e => pure (.error e)
            | .ok scene =>
                if out.length + 1 > maxScenes then
                  pure (.error "scene capacity exceeded")
                else listScenes host dir names (out ++ [scene])

def Store.list (host : Host F) (dir : Path) :
    Prog files (Except String (List (Scene F))) := do
  match ← readdir dir with
  | .error .enoent => pure (.ok [])
  | .error _ => pure (.error "cannot list scenes")
  | .ok names => do
      match ← listScenes host dir names [] with
      | .error e => pure (.error e)
      | .ok out => pure (.ok (out.mergeSort fun a b => a.name ≤ b.name))

/-! ## Saving and removing -/

/-- A stored scene that keeps another one from being saved. -/
def conflicts (other scene : Scene F) : Bool :=
  other.name = scene.name ||
    (0 ≤ scene.note && other.note = scene.note &&
      other.channel = scene.channel)

/-- Counts the stored scenes, and tells whether the saved one is among them;
every other scene must be readable and must not conflict. -/
def scanScenes (host : Host F) (dir : Path) (scene : Scene F) :
    List Name → Nat → Bool → Prog files (Except String (Nat × Bool))
  | [], count, found => pure (.ok (count, found))
  | name :: names, count, found =>
      match sceneFileId name with
      | none => scanScenes host dir scene names count found
      | some id => do
          match ← readPath host (dir ++ [name]) id with
          | .error e => pure (.error e)
          | .ok other =>
              if other.id = scene.id then
                scanScenes host dir scene names (count + 1) true
              else if conflicts other scene then
                pure (.error "scene name or MIDI binding already in use")
              else scanScenes host dir scene names (count + 1) found

/-- Writes the pending file, and puts it in the place of the old one. -/
def commitScene (floats : Floats F) (dir : Path) (scene : Scene F) :
    Prog files Bool := do
  let pending := pendingPath dir scene.id
  if !(← append pending (sceneText floats scene)).isOk then pure false
  else if !(← fsync pending).isOk then pure false
  else if !(← rename pending (scenePath dir scene.id)).isOk then pure false
  else syncDirectory dir

def writeScene (floats : Floats F) (dir : Path) (scene : Scene F) :
    Prog files (Except String Unit) := do
  let pending := pendingPath dir scene.id
  if !(← create pending .truncate).isOk then
    pure (.error "cannot write scene")
  else if ← commitScene floats dir scene then pure (.ok ())
  else do
    let _ ← unlink pending
    pure (.error "cannot durably save scene")

/-- Makes the directory unless it exists. -/
def ensureDirectory (dir : Path) : Prog files Bool := do
  match ← mkdir dir with
  | .ok _ => pure true
  | .error e => pure (e == .eexist)

/-- Checks the scene against the stored ones, and writes it. -/
def checkAndWrite (host : Host F) (dir : Path) (scene : Scene F) :
    Prog files (Except String Unit) := do
  match ← readdir dir with
  | .error _ => pure (.error "cannot list scenes")
  | .ok names => do
      match ← scanScenes host dir scene names 0 false with
      | .error e => pure (.error e)
      | .ok (count, found) =>
          if !found && count ≥ maxScenes then
            pure (.error "scene capacity exceeded")
          else writeScene host.floats dir scene

def Store.save (host : Host F) (dir : Path) (scene : Scene F) :
    Prog files (Except String Unit) :=
  match validate host scene false with
  | .error e => pure (.error e)
  | .ok _ => do
      if !(← ensureDirectory dir) then
        pure (.error "cannot create scene directory")
      else checkAndWrite host dir scene

def Store.remove (dir : Path) (id : Bytes) : Prog files (Except String Unit) :=
  if ¬validId id then pure (.error "invalid scene id")
  else do
    if !(← unlink (scenePath dir id)).isOk then
      pure (.error "scene not found or cannot delete")
    else if ← syncDirectory dir then pure (.ok ())
    else pure (.error "cannot durably delete scene")

end Audiox.Scenes
