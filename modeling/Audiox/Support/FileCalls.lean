import Audiox.Support.FileTree
import Audiox.Support.Interruptible

/-!
# A machine of file-system calls

The calls of this machine are the file-system calls of a program, each one
atomic and durable in order.  Paths are resolved: a program that builds path
strings resolves them before it makes a call.

An answer lets the call do what it is asked for, makes it fail with an I/O
error, or fixes what the call leaves open: the order in which a directory is
read and the name of a new temporary directory.  A failed write may have
written the first bytes of its data.
-/

namespace FileTree

open ByteCodec Interruptible

inductive Errno where
  | enoent | eexist | enotdir | eisdir | enotempty | einval | ebadf | eio
deriving DecidableEq, Repr

/-- How a file is opened for writing: cut to nothing, only if it is new, or
with its content kept for appending. -/
inductive Mode where
  | truncate | exclusive | keep
deriving DecidableEq, Repr

inductive Call where
  | access (p : Path)
  | lstat (p : Path)
  | openRead (p : Path)
  | readFile (p : Path)
  | pread (file : Bytes) (offset size : Nat)
  | readdir (p : Path)
  | mkdir (p : Path)
  | mkdtemp (parent : Path) (stem : Name)
  | create (p : Path) (mode : Mode)
  | append (p : Path) (data : Bytes)
  | fsync (p : Path)
  | sync
  | rename (source target : Path)
  | unlink (p : Path)
  | rmdir (p : Path)

abbrev Reply : Call → Type
  | .access _ => Bool
  | .lstat _ => Except Errno Entry
  | .readFile _ => Except Errno Bytes
  | .pread _ _ _ => Except Errno Bytes
  | .readdir _ => Except Errno (List Name)
  | .mkdtemp _ _ => Except Errno Name
  | .sync => Unit
  | _ => Except Errno Unit

inductive Answer where
  | ok
  | fail (written : Nat)
  | order (names : List Name)
  | pick (name : Name)

def Answer.failed : Answer → Bool
  | .fail _ => true
  | _ => false

namespace Node

/-! ## What a call does to the tree -/

/-- The directory that would hold the path exists. -/
def hasParent (t : Node) (p : Path) : Bool :=
  p ≠ [] && t.look p.dropLast = some .dir

def mkdirAt (t : Node) (p : Path) : Except Errno Node :=
  match t.look p with
  | some _ => .error .eexist
  | none => if t.hasParent p then .ok (t.put p (.dir [])) else .error .enoent

def createAt (t : Node) (p : Path) (mode : Mode) : Except Errno Node :=
  match t.look p with
  | some .dir => .error (if mode = .exclusive then .eexist else .eisdir)
  | some .other => .error .eexist
  | some (.file _) =>
      match mode with
      | .exclusive => .error .eexist
      | .truncate => .ok (t.put p (.file []))
      | .keep => .ok t
  | none => if t.hasParent p then .ok (t.put p (.file [])) else .error .enoent

def appendAt (t : Node) (p : Path) (data : Bytes) : Except Errno Node :=
  match t.look p with
  | some (.file old) => .ok (t.put p (.file (old ++ data)))
  | _ => .error .ebadf

def unlinkAt (t : Node) (p : Path) : Except Errno Node :=
  match t.look p with
  | none => .error .enoent
  | some .dir => .error .eisdir
  | some _ => .ok (t.erase p)

def rmdirAt (t : Node) (p : Path) : Except Errno Node :=
  match t.look p with
  | none => .error .enoent
  | some .dir =>
      if p = [] then .error .einval
      else if t.names p = [] then .ok (t.erase p) else .error .enotempty
  | some _ => .error .enotdir

/-- A target that exists is replaced if it is not a directory, or an empty
one. -/
def renameAt (t : Node) (a b : Path) : Except Errno Node :=
  match t.get a with
  | none => .error .enoent
  | some x =>
      if a <+: b ∨ b <+: a then .error .einval
      else if !t.hasParent b then .error .enoent
      else
        match x.kind, t.look b with
        | .dir, some .dir =>
            if t.names b = [] then .ok ((t.erase a).put b x)
            else .error .enotempty
        | .dir, some _ => .error .enotdir
        | _, some .dir => .error .eisdir
        | _, _ => .ok ((t.erase a).put b x)

end Node

/-- The reply to a call that only looks. -/
def inspect {α : Type} (a : Answer) (r : Except Errno α) :
    Except Errno α :=
  if a.failed then .error .eio else r

/-- The reply to a change of the tree, and the tree after it. -/
def applied (t : Node) : Except Errno Node → Except Errno Unit × Node
  | .ok t' => (.ok (), t')
  | .error e => (.error e, t)

/-- A change of the tree under an answer. -/
def mutate (a : Answer) (t : Node) (r : Except Errno Node) :
    Except Errno Unit × Node :=
  if a.failed then (.error .eio, t) else applied t r

def lstatAt (t : Node) (p : Path) : Except Errno Entry :=
  match t.look p with
  | some e => .ok e
  | none => .error .enoent

def openAt (t : Node) (p : Path) : Except Errno Unit :=
  match t.look p with
  | some _ => .ok ()
  | none => .error .enoent

def readFileAt (t : Node) (p : Path) : Except Errno Bytes :=
  match t.look p with
  | some (.file data) => .ok data
  | some .dir => .error .eisdir
  | some .other => .error .eio
  | none => .error .enoent

def preadAt (file : Bytes) (offset size : Nat) : Except Errno Bytes :=
  if offset + size ≤ file.length then .ok ((file.drop offset).take size)
  else .error .eio

def readdirAt (t : Node) (p : Path) (a : Answer) : Except Errno (List Name) :=
  match t.look p with
  | none => .error .enoent
  | some .dir =>
      match a with
      | .order l => if l.Perm (t.names p) then .ok l else .error .eio
      | _ => .ok (t.names p)
  | some _ => .error .enotdir

/-- Six letters or digits replace the trailing `X`s of a template. -/
def validSuffix (s : Bytes) : Bool :=
  s.length = 6 &&
    s.all fun c =>
      (48 ≤ c && c ≤ 57) || (65 ≤ c && c ≤ 90) || (97 ≤ c && c ≤ 122)

def mkdtempAt (t : Node) (parent : Path) (stem : Name) (a : Answer) :
    Except Errno Name × Node :=
  match a with
  | .pick suffix =>
      if !validSuffix suffix then (.error .eio, t)
      else
        match t.mkdirAt (parent ++ [stem ++ suffix]) with
        | .ok t' => (.ok (stem ++ suffix), t')
        | .error e => (.error e, t)
  | _ => (.error .eio, t)

def step : (c : Call) → Answer → Node → Reply c × Node
  | .access p, a, t => (!a.failed && (t.look p).isSome, t)
  | .lstat p, a, t => (inspect a (lstatAt t p), t)
  | .openRead p, a, t => (inspect a (openAt t p), t)
  | .readFile p, a, t => (inspect a (readFileAt t p), t)
  | .pread file offset size, a, t => (inspect a (preadAt file offset size), t)
  | .readdir p, a, t => (inspect a (readdirAt t p a), t)
  | .mkdir p, a, t => mutate a t (t.mkdirAt p)
  | .mkdtemp parent stem, a, t => mkdtempAt t parent stem a
  | .create p mode, a, t => mutate a t (t.createAt p mode)
  | .append p data, .fail n, t =>
      (.error .eio, (applied t (t.appendAt p (data.take n))).2)
  | .append p data, a, t => mutate a t (t.appendAt p data)
  | .fsync _, a, t => (inspect a (.ok ()), t)
  | .sync, _, t => ((), t)
  | .rename a b, ans, t => mutate ans t (t.renameAt a b)
  | .unlink p, a, t => mutate a t (t.unlinkAt p)
  | .rmdir p, a, t => mutate a t (t.rmdirAt p)

/-- The machine of file-system calls. -/
abbrev files : Machine where
  Call := Call
  Reply := Reply
  Answer := Answer
  State := Node
  step := step

/-- An answer with which a call does what it is asked for. -/
def Proper (t : Node) : Call → Answer → Prop
  | .readdir p, a => ∃ l, a = .order l ∧ l.Perm (t.names p)
  | .mkdtemp parent stem, a =>
      ∃ suffix, a = .pick suffix ∧ validSuffix suffix ∧
        t.look (parent ++ [stem ++ suffix]) = none
  | _, a => a = .ok

/-- The path that a call is asked to write at, the source for a rename. -/
def Call.writesAt : Call → Option Path
  | .mkdir p => some p
  | .mkdtemp parent _ => some parent
  | .create p _ => some p
  | .append p _ => some p
  | .fsync p => some p
  | .rename a _ => some a
  | .unlink p => some p
  | .rmdir p => some p
  | _ => none

def Call.makesTemp : Call → Bool
  | .mkdtemp _ _ => true
  | _ => false

/-- A failure model: which calls may fail, and where power may be lost. -/
structure Faults where
  mayFail : Call → Prop
  mayLose : Call → Node → Prop

/-- Every call works; there may be no room for a temporary directory. -/
def Faults.calm : Faults where
  mayFail c := c.makesTemp
  mayLose _ _ := False

/-- Every call works likewise, and power may be lost in front of any call. -/
def Faults.powerLoss : Faults where
  mayFail c := c.makesTemp
  mayLose _ _ := True

/-- Any call may fail, and power may be lost in front of any call. -/
def Faults.any : Faults where
  mayFail _ := True
  mayLose _ _ := True

def Faults.env (F : Faults) : Env files where
  allows c a t := Proper t c a ∨ (F.mayFail c ∧ a.failed)
  loses := F.mayLose

/-- Any call that writes may fail, except at the given paths, and power may be
lost in front of any call. -/
def Faults.writes (safe : Path → Prop) : Faults where
  mayFail c := ∃ p, c.writesAt = some p ∧ ¬safe p
  mayLose _ _ := True

/-- The answers of a machine on which the calls at the given positions fail
if they write.  Directories are read in the order of their entries, and there
is no room for temporary directories. -/
def failingAt (fails : List Nat) (k : Nat) (c : Call) (t : Node) : Answer :=
  match c with
  | .readdir p => .order (t.names p)
  | .mkdtemp _ _ => .fail 0
  | _ => if k ∈ fails ∧ c.writesAt.isSome then .fail 0 else .ok

theorem failingAt_allowed {F : Faults} {fails : List Nat}
    (hF : ∀ c : Call, c.makesTemp ∨ (fails ≠ [] ∧ c.writesAt.isSome) →
      F.mayFail c) (k : Nat) (c : Call) (t : Node) :
    F.env.allows c (failingAt fails k c t) t := by
  have hite : ∀ c : Call, (∀ a, Proper t c a ↔ a = .ok) →
      F.env.allows c
        (if k ∈ fails ∧ c.writesAt.isSome then .fail 0 else .ok) t := by
    intro c hproper
    split
    next h =>
      exact .inr ⟨hF c (.inr ⟨List.ne_nil_of_mem h.1, h.2⟩), rfl⟩
    · exact Or.inl ((hproper _).mpr rfl)
  cases c with
  | readdir p => exact Or.inl ⟨_, rfl, List.Perm.refl _⟩
  | mkdtemp parent stem => exact Or.inr ⟨hF _ (.inl rfl), rfl⟩
  | access p => exact hite _ fun _ => Iff.rfl
  | lstat p => exact hite _ fun _ => Iff.rfl
  | openRead p => exact hite _ fun _ => Iff.rfl
  | readFile p => exact hite _ fun _ => Iff.rfl
  | pread file offset size => exact hite _ fun _ => Iff.rfl
  | mkdir p => exact hite _ fun _ => Iff.rfl
  | create p mode => exact hite _ fun _ => Iff.rfl
  | append p data => exact hite _ fun _ => Iff.rfl
  | fsync p => exact hite _ fun _ => Iff.rfl
  | sync => exact hite _ fun _ => Iff.rfl
  | rename a b => exact hite _ fun _ => Iff.rfl
  | unlink p => exact hite _ fun _ => Iff.rfl
  | rmdir p => exact hite _ fun _ => Iff.rfl

theorem failingAt_writes (fails : List Nat) (k : Nat) (c : Call) (t : Node) :
    (Faults.writes fun _ => False).env.allows c (failingAt fails k c t) t := by
  refine failingAt_allowed (fun c hc => ?_) k c t
  have hwrites : c.writesAt.isSome := by
    rcases hc with htemp | ⟨-, hwrites⟩
    · cases c with
      | mkdtemp parent stem => rfl
      | _ => cases htemp
    · exact hwrites
  obtain ⟨p, hp⟩ := Option.isSome_iff_exists.mp hwrites
  exact ⟨p, hp, id⟩

theorem failingAt_powerLoss (k : Nat) (c : Call) (t : Node) :
    Faults.powerLoss.env.allows c (failingAt [] k c t) t :=
  failingAt_allowed (fun _ hc => hc.resolve_right fun h => h.1 rfl) k c t

/-! ## The calls as programs -/

def access (p : Path) : Prog files Bool :=
  @Prog.op files (.access p)

def lstat (p : Path) : Prog files (Except Errno Entry) :=
  @Prog.op files (.lstat p)

def openRead (p : Path) : Prog files (Except Errno Unit) :=
  @Prog.op files (.openRead p)

def readFile (p : Path) : Prog files (Except Errno Bytes) :=
  @Prog.op files (.readFile p)

def pread (file : Bytes) (offset size : Nat) : Prog files (Except Errno Bytes) :=
  @Prog.op files (.pread file offset size)

def readdir (p : Path) : Prog files (Except Errno (List Name)) :=
  @Prog.op files (.readdir p)

def mkdir (p : Path) : Prog files (Except Errno Unit) :=
  @Prog.op files (.mkdir p)

def mkdtemp (parent : Path) (stem : Name) : Prog files (Except Errno Name) :=
  @Prog.op files (.mkdtemp parent stem)

def create (p : Path) (mode : Mode) : Prog files (Except Errno Unit) :=
  @Prog.op files (.create p mode)

def append (p : Path) (data : Bytes) : Prog files (Except Errno Unit) :=
  @Prog.op files (.append p data)

def fsync (p : Path) : Prog files (Except Errno Unit) :=
  @Prog.op files (.fsync p)

def sync : Prog files Unit :=
  @Prog.op files (.sync)

def rename (a b : Path) : Prog files (Except Errno Unit) :=
  @Prog.op files (.rename a b)

def unlink (p : Path) : Prog files (Except Errno Unit) :=
  @Prog.op files (.unlink p)

def rmdir (p : Path) : Prog files (Except Errno Unit) :=
  @Prog.op files (.rmdir p)

/-! ## What a call changes -/

namespace Node

variable {t t' : Node} {p : Path}

theorem hasParent_of_look (hp : p ≠ []) (h : t.look p ≠ none) :
    t.hasParent p := by
  simp [hasParent, hp, look_dropLast hp h]

theorem hasParent_iff :
    t.hasParent p ↔ p ≠ [] ∧ t.look p.dropLast = some .dir := by
  simp [hasParent]

/-- Nothing is below a directory without names. -/
theorem look_below_of_names_eq_nil (h : t.names p = []) {q : Path}
    (hpq : p <+: q) (hne : q ≠ p) : t.look q = none := by
  obtain ⟨r, rfl⟩ := hpq
  cases r with
  | nil => exact absurd (List.append_nil p) hne
  | cons n r =>
      have hn : t.look (p ++ [n]) = none := by
        have := mt (mem_names (n := n)).mpr (by rw [h]; exact List.not_mem_nil)
        simpa using this
      have happ := look_append_eq_none hn r
      rwa [List.append_assoc, List.singleton_append] at happ

/-- Nothing is below a file. -/
theorem look_below_of_not_dir (h : t.look p ≠ some .dir) {q : Path}
    (hpq : p <+: q) (hne : q ≠ p) : t.look q = none := by
  obtain ⟨r, rfl⟩ := hpq
  cases r with
  | nil => exact absurd (List.append_nil p) hne
  | cons n r =>
      rw [look] at h
      rw [look, get_append]
      cases hx : t.get p with
      | none => rfl
      | some x =>
          cases x with
          | file data => rfl
          | other => rfl
          | dir es => simp [hx, kind] at h

theorem look_erase_leaf (hp : p ≠ [])
    (hleaf : ∀ q, p <+: q → q ≠ p → t.look q = none) (q : Path) :
    (t.erase p).look q = if q = p then none else t.look q := by
  rw [look_erase t hp]
  by_cases h : p <+: q
  · by_cases hq : q = p
    · rw [if_pos h, if_pos hq]
    · rw [if_pos h, if_neg hq, hleaf q h hq]
  · rw [if_neg h, if_neg]
    rintro rfl
    exact h (List.prefix_refl _)

theorem look_mkdirAt (h : t.mkdirAt p = .ok t') :
    t.look p = none ∧
      ∀ q, t'.look q = if q = p then some .dir else t.look q := by
  unfold mkdirAt at h
  split at h
  · cases h
  next hfree =>
    refine ⟨hfree, fun q => ?_⟩
    split at h
    next hparent =>
      cases h
      obtain ⟨hp, hdir⟩ := hasParent_iff.mp hparent
      rw [look_put hp hdir]
      by_cases hq : p <+: q
      · obtain ⟨r, rfl⟩ := hq
        rw [if_pos (List.prefix_append p r), List.drop_left]
        cases r with
        | nil => simp [look, kind]
        | cons n r =>
            rw [if_neg (by simp), look_append_eq_none hfree]
            rfl
      · rw [if_neg hq, if_neg]
        rintro rfl
        exact hq (List.prefix_refl _)
    · cases h

theorem look_createAt {mode : Mode} (hp : p ≠ [])
    (h : t.createAt p mode = .ok t') :
    ∃ data, (mode ≠ .keep → data = []) ∧ t.look p ≠ some .dir ∧
      ∀ q, t'.look q = if q = p then some (.file data) else t.look q := by
  unfold createAt at h
  split at h
  · cases h
  · cases h
  next old hold =>
    have hleaf : t.look p ≠ some .dir := by simp [hold]
    have hdir := look_dropLast (t := t) hp (by simp [hold])
    split at h
    · cases h
    · cases h
      exact ⟨[], fun _ => rfl, hleaf, look_put_file hp hdir hleaf []⟩
    · cases h
      refine ⟨old, fun hne => absurd rfl hne, hleaf, fun q => ?_⟩
      split
      next hq => rw [hq, hold]
      · rfl
  next hfree =>
    have hleaf : t.look p ≠ some .dir := by simp [hfree]
    split at h
    next hparent =>
      cases h
      exact ⟨[], fun _ => rfl, hleaf,
        look_put_file hp (hasParent_iff.mp hparent).2 hleaf []⟩
    · cases h

theorem look_appendAt {data : Bytes} (hp : p ≠ [])
    (h : t.appendAt p data = .ok t') :
    ∃ old, t.look p = some (.file old) ∧
      ∀ q, t'.look q =
        if q = p then some (.file (old ++ data)) else t.look q := by
  unfold appendAt at h
  split at h
  next old hold =>
    cases h
    have hdir := look_dropLast (t := t) hp (by simp [hold])
    exact ⟨old, hold, look_put_file hp hdir (by simp [hold]) _⟩
  · cases h

theorem look_unlinkAt (hp : p ≠ []) (h : t.unlinkAt p = .ok t') :
    t.look p ≠ none ∧ t.look p ≠ some .dir ∧
      ∀ q, t'.look q = if q = p then none else t.look q := by
  unfold unlinkAt at h
  split at h
  · cases h
  · cases h
  next e hsome hdir =>
    cases h
    rw [hdir]
    have hleaf : t.look p ≠ some .dir := by
      rw [hdir]
      simpa using hsome
    refine ⟨by simp, by rwa [← hdir], look_erase_leaf hp ?_⟩
    exact fun q => look_below_of_not_dir hleaf

theorem look_rmdirAt (hp : p ≠ []) (h : t.rmdirAt p = .ok t') :
    t.look p = some .dir ∧ t.names p = [] ∧
      ∀ q, t'.look q = if q = p then none else t.look q := by
  unfold rmdirAt at h
  split at h
  · cases h
  next hdir =>
    rw [if_neg hp] at h
    split at h
    next hnames =>
      cases h
      exact ⟨hdir, hnames,
        look_erase_leaf hp fun q => look_below_of_names_eq_nil hnames⟩
    · cases h
  · cases h

/-- A successful rename moves the subtree. -/
theorem renameAt_eq_ok {a b : Path} (h : t.renameAt a b = .ok t') :
    ∃ x, t.get a = some x ∧ ¬a <+: b ∧ ¬b <+: a ∧ t.hasParent b ∧
      t' = (t.erase a).put b x := by
  unfold renameAt at h
  split at h
  · cases h
  next x hx =>
    refine ⟨x, hx, ?_⟩
    split at h
    · cases h
    next hdisj =>
      rw [not_or] at hdisj
      refine ⟨hdisj.1, hdisj.2, ?_⟩
      split at h
      · cases h
      next hparent =>
        refine ⟨by simpa using hparent, ?_⟩
        split at h
        · split at h
          · cases h
            rfl
          · cases h
        · cases h
        · cases h
        · cases h
          rfl

theorem look_renameAt {a b : Path} (ha : a ≠ [])
    (h : t.renameAt a b = .ok t') :
    t.look a ≠ none ∧
      ∀ q, t'.look q =
        if b <+: q then t.look (a ++ q.drop b.length)
        else if a <+: q then none else t.look q := by
  obtain ⟨x, hx, hab, hba, hparent, rfl⟩ := renameAt_eq_ok h
  obtain ⟨hb, hdir⟩ := hasParent_iff.mp hparent
  refine ⟨by simp [look, hx], fun q => ?_⟩
  have hdir' : (t.erase a).look b.dropLast = some .dir := by
    rw [look_erase t ha, if_neg, hdir]
    exact fun hpre => hab (hpre.trans (List.dropLast_prefix b))
  rw [look_put hb hdir', look_erase t ha, look_append hx]

/-- A file replaces only what is not a directory. -/
theorem renameAt_file_ok {a b : Path} {data : Bytes}
    (hdata : t.look a = some (.file data)) (h : t.renameAt a b = .ok t') :
    t.look b ≠ some .dir ∧ t.hasParent b := by
  unfold renameAt at h
  split at h
  · cases h
  next x hx =>
    have hkind : x.kind = .file data := by simpa [look, hx] using hdata
    split at h
    · cases h
    · split at h
      · cases h
      next hparent =>
        rw [hkind] at h
        refine ⟨fun hdir => ?_, by simpa using hparent⟩
        simp [hdir] at h

end Node

/-- The paths at which a call can change what is there. -/
def Call.changes : Call → Path → Prop
  | .mkdir p, q => q = p
  | .mkdtemp parent stem, q => ∃ suffix, q = parent ++ [stem ++ suffix]
  | .create p _, q => q = p
  | .append p _, q => q = p
  | .rename a b, q => a <+: q ∨ b <+: q
  | .unlink p, q => q = p
  | .rmdir p, q => q = p
  | _, _ => False

section Frame

variable {t : Node} {q : Path}

theorem look_applied {r : Except Errno Node}
    (h : ∀ t', r = .ok t' → t'.look q = t.look q) :
    (applied t r).2.look q = t.look q := by
  cases r with
  | ok t' => exact h t' rfl
  | error e => rfl

theorem look_mutate {a : Answer} {r : Except Errno Node}
    (h : ∀ t', r = .ok t' → t'.look q = t.look q) :
    (mutate a t r).2.look q = t.look q := by
  rw [mutate]
  split
  · rfl
  · exact look_applied h

theorem look_appendAt_ne {p : Path} {data : Bytes} (hq : q ≠ p) {t' : Node}
    (h : t.appendAt p data = .ok t') : t'.look q = t.look q := by
  by_cases hp : p = []
  · subst p
    unfold Node.appendAt at h
    split at h
    · cases h
      cases t <;> rfl
    · cases h
  · obtain ⟨old, -, hlook⟩ := Node.look_appendAt hp h
    rw [hlook, if_neg hq]

/-- A call leaves what is at other paths alone. -/
theorem look_step (c : Call) (a : Answer) (hq : ¬c.changes q) :
    (step c a t).2.look q = t.look q := by
  cases c with
  | mkdir p =>
      rw [Call.changes] at hq
      refine look_mutate fun t' h => ?_
      rw [(Node.look_mkdirAt h).2, if_neg hq]
  | create p mode =>
      rw [Call.changes] at hq
      refine look_mutate fun t' h => ?_
      by_cases hp : p = []
      · subst p
        unfold Node.createAt at h
        split at h
        · cases h
        · cases h
        · split at h <;> cases h <;> cases t <;> rfl
        · split at h
          · cases h
            cases t <;> rfl
          · cases h
      · obtain ⟨data, -, -, hlook⟩ := Node.look_createAt hp h
        rw [hlook, if_neg hq]
  | append p data =>
      cases a with
      | fail n => exact look_applied fun t' h => look_appendAt_ne hq h
      | ok => exact look_mutate fun t' h => look_appendAt_ne hq h
      | order l => exact look_mutate fun t' h => look_appendAt_ne hq h
      | pick n => exact look_mutate fun t' h => look_appendAt_ne hq h
  | rename a b =>
      refine look_mutate fun t' h => ?_
      obtain ⟨hq1, hq2⟩ := not_or.mp hq
      have ha : a ≠ [] := fun h0 => hq1 (h0 ▸ List.nil_prefix)
      rw [(Node.look_renameAt ha h).2, if_neg hq2, if_neg hq1]
  | unlink p =>
      rw [Call.changes] at hq
      refine look_mutate fun t' h => ?_
      by_cases hp : p = []
      · subst p
        unfold Node.unlinkAt at h
        split at h
        · cases h
        · cases h
        · cases h
          cases t <;> rfl
      · rw [(Node.look_unlinkAt hp h).2.2, if_neg hq]
  | rmdir p =>
      rw [Call.changes] at hq
      refine look_mutate fun t' h => ?_
      by_cases hp : p = []
      · subst p
        unfold Node.rmdirAt at h
        split at h
        · cases h
        · rw [if_pos rfl] at h
          cases h
        · cases h
      · rw [(Node.look_rmdirAt hp h).2.2, if_neg hq]
  | mkdtemp parent stem =>
      simp only [step, mkdtempAt]
      split
      · split
        · rfl
        next suffix _ =>
          split
          next t' ht =>
            rw [(Node.look_mkdirAt ht).2, if_neg fun h => hq ⟨suffix, h⟩]
          · rfl
      · rfl
  | access p => rfl
  | lstat p => rfl
  | openRead p => rfl
  | readFile p => rfl
  | pread file offset size => rfl
  | readdir p => rfl
  | fsync p => rfl
  | sync => rfl

end Frame

/-- The calls of the program change the tree only at paths in `R`. -/
abbrev Within {α : Type} (R : Path → Prop) (p : Prog files α) : Prop :=
  p.Only fun c => ∀ q, Call.changes c q → R q

theorem Within.mono {α : Type} {R R' : Path → Prop} {p : Prog files α}
    (hp : Within R p) (h : ∀ q, R q → R' q) : Within R' p :=
  Prog.Only.mono (fun _ hc q hq => h q (hc q hq)) hp

/-- The frame rule: a program leaves what is outside its paths alone. -/
theorem spec_within {α : Type} {R : Path → Prop} {p : Prog files α}
    (hp : Within R p) (E : Env files) (t : Node) :
    Spec E p t (fun _ t' => ∀ q, ¬R q → Node.look t' q = t.look q)
      (fun t' => ∀ q, ¬R q → Node.look t' q = t.look q) := by
  refine Spec.invariant (fun c a t' hc _ ht' q hq => ?_) hp fun _ _ => rfl
  rw [look_step c a fun hch => hq (hc q hch), ht' q hq]

/-! ## Specifications of the calls -/

variable {F : Faults} {t : Node} {L : Node → Prop}

theorem spec_plain {c : Call} {Q : Reply c → Node → Prop}
    (hproper : ∀ a, Proper t c a ↔ a = .ok) :
    Spec F.env (@Prog.op files c) t Q L ↔
      (F.mayLose c t → L t) ∧ Q (step c .ok t).1 (step c .ok t).2 ∧
        (F.mayFail c →
          ∀ n, Q (step c (.fail n) t).1 (step c (.fail n) t).2) := by
  rw [spec_op]
  refine and_congr_right fun _ => ⟨fun h => ⟨?_, ?_⟩, ?_⟩
  · exact h .ok (Or.inl ((hproper _).mpr rfl))
  · exact fun hf n => h (.fail n) (Or.inr ⟨hf, rfl⟩)
  · rintro ⟨hok, hfail⟩ a (ha | ⟨hf, ha⟩)
    · rw [(hproper a).mp ha]
      exact hok
    · cases a with
      | fail n => exact hfail hf n
      | ok => cases ha
      | order l => cases ha
      | pick n => cases ha

@[simp] theorem spec_access {p : Path} {Q : Bool → Node → Prop} :
    Spec F.env (access p) t Q L ↔
      (F.mayLose (.access p) t → L t) ∧ Q (t.look p).isSome t ∧
        (F.mayFail (.access p) → Q false t) := by
  rw [access, spec_plain fun _ => Iff.rfl]
  simp [step, Answer.failed]

@[simp] theorem spec_lstat {p : Path} {Q : Except Errno Entry → Node → Prop} :
    Spec F.env (lstat p) t Q L ↔
      (F.mayLose (.lstat p) t → L t) ∧ Q (lstatAt t p) t ∧
        (F.mayFail (.lstat p) → Q (.error .eio) t) := by
  rw [lstat, spec_plain fun _ => Iff.rfl]
  simp [step, inspect, Answer.failed]

@[simp] theorem spec_openRead {p : Path}
    {Q : Except Errno Unit → Node → Prop} :
    Spec F.env (openRead p) t Q L ↔
      (F.mayLose (.openRead p) t → L t) ∧ Q (openAt t p) t ∧
        (F.mayFail (.openRead p) → Q (.error .eio) t) := by
  rw [openRead, spec_plain fun _ => Iff.rfl]
  simp [step, inspect, Answer.failed]

@[simp] theorem spec_readFile {p : Path}
    {Q : Except Errno Bytes → Node → Prop} :
    Spec F.env (readFile p) t Q L ↔
      (F.mayLose (.readFile p) t → L t) ∧ Q (readFileAt t p) t ∧
        (F.mayFail (.readFile p) → Q (.error .eio) t) := by
  rw [readFile, spec_plain fun _ => Iff.rfl]
  simp [step, inspect, Answer.failed]

@[simp] theorem spec_pread {file : Bytes} {offset size : Nat}
    {Q : Except Errno Bytes → Node → Prop} :
    Spec F.env (pread file offset size) t Q L ↔
      (F.mayLose (.pread file offset size) t → L t) ∧
        Q (preadAt file offset size) t ∧
        (F.mayFail (.pread file offset size) → Q (.error .eio) t) := by
  rw [pread, spec_plain fun _ => Iff.rfl]
  simp [step, inspect, Answer.failed]

@[simp] theorem spec_mkdir {p : Path} {Q : Except Errno Unit → Node → Prop} :
    Spec F.env (mkdir p) t Q L ↔
      (F.mayLose (.mkdir p) t → L t) ∧
        Q (applied t (t.mkdirAt p)).1 (applied t (t.mkdirAt p)).2 ∧
        (F.mayFail (.mkdir p) → Q (.error .eio) t) := by
  rw [mkdir, spec_plain fun _ => Iff.rfl]
  simp [step, mutate, Answer.failed]

@[simp] theorem spec_create {p : Path} {mode : Mode}
    {Q : Except Errno Unit → Node → Prop} :
    Spec F.env (create p mode) t Q L ↔
      (F.mayLose (.create p mode) t → L t) ∧
        Q (applied t (t.createAt p mode)).1
          (applied t (t.createAt p mode)).2 ∧
        (F.mayFail (.create p mode) → Q (.error .eio) t) := by
  rw [create, spec_plain fun _ => Iff.rfl]
  simp [step, mutate, Answer.failed]

@[simp] theorem spec_append {p : Path} {data : Bytes}
    {Q : Except Errno Unit → Node → Prop} :
    Spec F.env (append p data) t Q L ↔
      (F.mayLose (.append p data) t → L t) ∧
        Q (applied t (t.appendAt p data)).1
          (applied t (t.appendAt p data)).2 ∧
        (F.mayFail (.append p data) →
          ∀ n, Q (.error .eio)
            (applied t (t.appendAt p (data.take n))).2) := by
  rw [append, spec_plain fun _ => Iff.rfl]
  simp [step, mutate, Answer.failed]

@[simp] theorem spec_fsync {p : Path} {Q : Except Errno Unit → Node → Prop} :
    Spec F.env (fsync p) t Q L ↔
      (F.mayLose (.fsync p) t → L t) ∧ Q (.ok ()) t ∧
        (F.mayFail (.fsync p) → Q (.error .eio) t) := by
  rw [fsync, spec_plain fun _ => Iff.rfl]
  simp [step, inspect, Answer.failed]

@[simp] theorem spec_sync {Q : Unit → Node → Prop} :
    Spec F.env sync t Q L ↔ (F.mayLose .sync t → L t) ∧ Q () t := by
  rw [sync, spec_plain fun _ => Iff.rfl]
  simp only [step, and_congr_right_iff, and_iff_left_iff_imp]
  exact fun _ h _ _ => h

@[simp] theorem spec_rename {a b : Path}
    {Q : Except Errno Unit → Node → Prop} :
    Spec F.env (rename a b) t Q L ↔
      (F.mayLose (.rename a b) t → L t) ∧
        Q (applied t (t.renameAt a b)).1 (applied t (t.renameAt a b)).2 ∧
        (F.mayFail (.rename a b) → Q (.error .eio) t) := by
  rw [rename, spec_plain fun _ => Iff.rfl]
  simp [step, mutate, Answer.failed]

@[simp] theorem spec_unlink {p : Path}
    {Q : Except Errno Unit → Node → Prop} :
    Spec F.env (unlink p) t Q L ↔
      (F.mayLose (.unlink p) t → L t) ∧
        Q (applied t (t.unlinkAt p)).1 (applied t (t.unlinkAt p)).2 ∧
        (F.mayFail (.unlink p) → Q (.error .eio) t) := by
  rw [unlink, spec_plain fun _ => Iff.rfl]
  simp [step, mutate, Answer.failed]

@[simp] theorem spec_rmdir {p : Path} {Q : Except Errno Unit → Node → Prop} :
    Spec F.env (rmdir p) t Q L ↔
      (F.mayLose (.rmdir p) t → L t) ∧
        Q (applied t (t.rmdirAt p)).1 (applied t (t.rmdirAt p)).2 ∧
        (F.mayFail (.rmdir p) → Q (.error .eio) t) := by
  rw [rmdir, spec_plain fun _ => Iff.rfl]
  simp [step, mutate, Answer.failed]

/-- A directory is read in any order of its names. -/
theorem spec_readdir {p : Path}
    {Q : Except Errno (List Name) → Node → Prop} :
    Spec F.env (readdir p) t Q L ↔
      (F.mayLose (.readdir p) t → L t) ∧
        (∀ l : List Name, l.Perm (t.names p) →
          Q (readdirAt t p (.order l)) t) ∧
        (F.mayFail (.readdir p) → Q (.error .eio) t) := by
  rw [readdir, spec_op]
  refine and_congr_right fun _ => ⟨fun h => ⟨?_, ?_⟩, ?_⟩
  · exact fun l hl => h (.order l) (Or.inl ⟨l, rfl, hl⟩)
  · exact fun hf => h (.fail 0) (Or.inr ⟨hf, rfl⟩)
  · rintro ⟨hok, hfail⟩ a (⟨l, rfl, hl⟩ | ⟨hf, ha⟩)
    · exact hok l hl
    · simpa [step, inspect, ha] using hfail hf

/-- A temporary directory gets a name that was not in use. -/
theorem spec_mkdtemp {parent : Path} {stem : Name}
    {Q : Except Errno Name → Node → Prop} :
    Spec F.env (mkdtemp parent stem) t Q L ↔
      (F.mayLose (.mkdtemp parent stem) t → L t) ∧
        (∀ suffix, validSuffix suffix →
          t.look (parent ++ [stem ++ suffix]) = none →
          Q (mkdtempAt t parent stem (.pick suffix)).1
            (mkdtempAt t parent stem (.pick suffix)).2) ∧
        (F.mayFail (.mkdtemp parent stem) → Q (.error .eio) t) := by
  rw [mkdtemp, spec_op]
  refine and_congr_right fun _ => ⟨fun h => ⟨?_, ?_⟩, ?_⟩
  · exact fun s hs hfree => h (.pick s) (Or.inl ⟨s, rfl, hs, hfree⟩)
  · exact fun hf => h (.fail 0) (Or.inr ⟨hf, rfl⟩)
  · rintro ⟨hok, hfail⟩ a (⟨s, rfl, hs, hfree⟩ | ⟨hf, ha⟩)
    · exact hok s hs hfree
    · cases a with
      | fail n => exact hfail hf
      | ok => cases ha
      | order l => cases ha
      | pick n => cases ha

end FileTree
