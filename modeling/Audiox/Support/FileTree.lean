import Audiox.Support.ByteCodec
import Mathlib

/-!
# File trees

A file tree is a file, a directory of named trees, or another kind of node
(a link, a device, a socket).  The tree type is the invariant: no path of a
tree passes through anything but directories.

`Node.get` gives the subtree at a path, `Node.look` only its kind and, for a
file, its bytes.  The one modification is `Node.alter`, which changes the
entry at a path; `look_put` and `look_erase` describe it completely.
-/

namespace FileTree

open ByteCodec

abbrev Name := Bytes

/-- A path below the root of a tree, as the list of its components. -/
abbrev Path := List Name

inductive Node where
  | file (data : Bytes)
  | dir (entries : List (Name × Node))
  | other

/-- What is at a path, without what is below it. -/
inductive Entry where
  | file (data : Bytes)
  | dir
  | other
deriving DecidableEq, Repr

/-! ## Directory entries -/

/-- Binds a name in a list of entries, or removes it. -/
def setEntry (n : Name) (o : Option Node) (es : List (Name × Node)) :
    List (Name × Node) :=
  match o with
  | some t => (n, t) :: es.filter fun e => e.1 ≠ n
  | none => es.filter fun e => e.1 ≠ n

theorem lookup_filter_self (n : Name) (es : List (Name × Node)) :
    (es.filter fun e => e.1 ≠ n).lookup n = none := by
  rw [List.lookup_eq_none_iff]
  intro e he
  have hne := (List.mem_filter.mp he).2
  simp only [ne_eq, decide_not, Bool.not_eq_eq_eq_not, Bool.not_true,
    decide_eq_false_iff_not] at hne
  simpa using fun h => hne h.symm

theorem lookup_filter_ne {n m : Name} (h : m ≠ n)
    (es : List (Name × Node)) :
    (es.filter fun e => e.1 ≠ n).lookup m = es.lookup m := by
  induction es with
  | nil => rfl
  | cons e es ih =>
      obtain ⟨k, t⟩ := e
      by_cases hk : k = n
      · subst k
        rw [List.filter_cons_of_neg (by simp), ih, List.lookup_cons,
          beq_false_of_ne h]
      · rw [List.filter_cons_of_pos (by simpa using hk), List.lookup_cons,
          List.lookup_cons, ih]

theorem lookup_setEntry (n m : Name) (o : Option Node)
    (es : List (Name × Node)) :
    (setEntry n o es).lookup m = if m = n then o else es.lookup m := by
  by_cases h : m = n
  · subst m
    cases o with
    | none => simpa [setEntry] using lookup_filter_self n es
    | some t => simp [setEntry]
  · rw [if_neg h]
    cases o with
    | none => exact lookup_filter_ne h es
    | some t =>
        rw [setEntry, List.lookup_cons, lookup_filter_ne h,
          beq_false_of_ne h]

namespace Node

/-- The subtree at a path. -/
def get : Node → Path → Option Node
  | t, [] => some t
  | .dir es, n :: p => (es.lookup n).bind (get · p)
  | .file _, _ :: _ => none
  | .other, _ :: _ => none

def kind : Node → Entry
  | .file data => .file data
  | .dir _ => .dir
  | .other => .other

/-- What is at a path. -/
def look (t : Node) (p : Path) : Option Entry :=
  (t.get p).map kind

/-- The names in a directory, each once. -/
def children : Node → List Name
  | .dir es => (es.map Prod.fst).dedup
  | .file _ => []
  | .other => []

/-- Changes the entry at a path.  Nothing happens when a component on the way
is not a directory. -/
def alter (f : Option Node → Option Node) : Path → Node → Node
  | n :: p, .dir es =>
      .dir (setEntry n
        (if p = [] then f (es.lookup n) else (es.lookup n).map (alter f p)) es)
  | _, t => t

def put (t : Node) (p : Path) (x : Node) : Node :=
  t.alter (fun _ => some x) p

def erase (t : Node) (p : Path) : Node :=
  t.alter (fun _ => none) p

/-! ## Subtrees -/

@[simp] theorem get_nil (t : Node) : t.get [] = some t := by
  cases t <;> rfl

@[simp] theorem get_dir_cons (es : List (Name × Node)) (n : Name) (p : Path) :
    (dir es).get (n :: p) = (es.lookup n).bind (get · p) := rfl

@[simp] theorem get_file_cons (data : Bytes) (n : Name) (p : Path) :
    (file data).get (n :: p) = none := rfl

@[simp] theorem get_other_cons (n : Name) (p : Path) :
    other.get (n :: p) = none := rfl

theorem get_append (t : Node) (p q : Path) :
    t.get (p ++ q) = (t.get p).bind (get · q) := by
  induction p generalizing t with
  | nil => simp
  | cons n p ih =>
      cases t with
      | file data => rfl
      | other => rfl
      | dir es =>
          rw [List.cons_append, get_dir_cons, get_dir_cons,
            Option.bind_assoc]
          exact congrArg _ (funext fun t => ih t)

theorem lookup_isSome_iff (n : Name) (es : List (Name × Node)) :
    (es.lookup n).isSome ↔ n ∈ es.map Prod.fst := by
  induction es with
  | nil => simp
  | cons e es ih =>
      rw [List.lookup_cons, List.map_cons, List.mem_cons]
      by_cases h : n = e.1
      · simp [h]
      · rw [beq_false_of_ne h]
        simp [h, ih]

theorem mem_children {t : Node} {n : Name} :
    n ∈ t.children ↔ (t.get [n]).isSome := by
  cases t with
  | file data => simp [children]
  | other => simp [children]
  | dir es =>
      rw [children, List.mem_dedup, ← lookup_isSome_iff, get_dir_cons]
      simp

theorem nodup_children (t : Node) : t.children.Nodup := by
  cases t with
  | file data => exact List.nodup_nil
  | other => exact List.nodup_nil
  | dir es => exact List.nodup_dedup _

/-- The names in the directory at a path. -/
def names (t : Node) (p : Path) : List Name :=
  (t.get p).elim [] children

theorem mem_names {t : Node} {p : Path} {n : Name} :
    n ∈ t.names p ↔ (t.look (p ++ [n])).isSome := by
  rw [look, get_append, names]
  cases t.get p with
  | none => simp
  | some x => simpa using mem_children

theorem nodup_names (t : Node) (p : Path) : (t.names p).Nodup := by
  rw [names]
  cases t.get p with
  | none => exact List.nodup_nil
  | some x => exact nodup_children x

theorem look_append {t x : Node} {p : Path} (h : t.get p = some x)
    (q : Path) : t.look (p ++ q) = x.look q := by
  rw [look, get_append, h]
  rfl

theorem look_append_eq_none {t : Node} {p : Path} (h : t.look p = none)
    (q : Path) : t.look (p ++ q) = none := by
  have hget : t.get p = none := by simpa [look] using h
  simp [look, get_append, hget]

/-- Whatever is at a path, its parent is a directory. -/
theorem look_dropLast {t : Node} {p : Path} (hne : p ≠ [])
    (h : t.look p ≠ none) : t.look p.dropLast = some .dir := by
  obtain ⟨q, n, rfl⟩ := (List.eq_nil_or_concat p).resolve_left hne
  rw [List.concat_eq_append] at h ⊢
  rw [List.dropLast_concat]
  rw [look, get_append] at h
  rw [look]
  cases hx : t.get q with
  | none => simp [hx] at h
  | some x =>
      cases x with
      | file data => simp [hx] at h
      | other => simp [hx] at h
      | dir es => rfl

/-! ## Modifications -/

theorem get_alter_append (f : Option Node → Option Node) {t : Node}
    {p : Path} (hne : p ≠ []) (hdir : t.look p.dropLast = some .dir)
    (q : Path) :
    (t.alter f p).get (p ++ q) = (f (t.get p)).bind (get · q) := by
  induction p generalizing t with
  | nil => exact absurd rfl hne
  | cons n p ih =>
      cases t with
      | file data => cases p <;> simp [look, kind] at hdir
      | other => cases p <;> simp [look, kind] at hdir
      | dir es =>
          rw [alter, List.cons_append, get_dir_cons, lookup_setEntry,
            if_pos rfl]
          by_cases hp : p = []
          · subst p
            simp
          · rw [if_neg hp, get_dir_cons]
            rw [List.dropLast_cons_of_ne_nil hp, look, get_dir_cons] at hdir
            cases hl : es.lookup n with
            | none => simp [hl] at hdir
            | some c =>
                rw [hl] at hdir
                exact ih hp hdir

theorem get_erase_append (t : Node) {p : Path} (hne : p ≠ []) (q : Path) :
    (t.erase p).get (p ++ q) = none := by
  rw [erase]
  induction p generalizing t with
  | nil => exact absurd rfl hne
  | cons n p ih =>
      cases t with
      | file data => rfl
      | other => rfl
      | dir es =>
          rw [alter, List.cons_append, get_dir_cons, lookup_setEntry,
            if_pos rfl]
          by_cases hp : p = []
          · simp [hp]
          · rw [if_neg hp]
            cases es.lookup n with
            | none => rfl
            | some c => exact ih c hp

/-- A modification does not touch the subtrees beside the path. -/
theorem get_alter_of_disjoint (f : Option Node → Option Node) (t : Node)
    {p q : Path} (hpq : ¬p <+: q) (hqp : ¬q <+: p) :
    (t.alter f p).get q = t.get q := by
  induction p generalizing t q with
  | nil => exact absurd (List.nil_prefix) hpq
  | cons n p ih =>
      cases t with
      | file data => rfl
      | other => rfl
      | dir es =>
          cases q with
          | nil => exact absurd (List.nil_prefix) hqp
          | cons m q =>
              rw [alter, get_dir_cons, get_dir_cons, lookup_setEntry]
              by_cases hm : m = n
              · subst m
                rw [List.cons_prefix_cons, and_iff_right rfl] at hpq hqp
                rw [if_pos rfl, if_neg]
                · cases es.lookup n with
                  | none => rfl
                  | some c => exact ih c hpq hqp
                · rintro rfl
                  exact hpq List.nil_prefix
              · rw [if_neg hm]

/-- A modification changes nothing that is not at or below the path. -/
theorem look_alter_of_not_prefix (f : Option Node → Option Node) (t : Node)
    {p q : Path} (hpq : ¬p <+: q) : (t.alter f p).look q = t.look q := by
  induction p generalizing t q with
  | nil => exact absurd (List.nil_prefix) hpq
  | cons n p ih =>
      cases t with
      | file data => rfl
      | other => rfl
      | dir es =>
          cases q with
          | nil => rfl
          | cons m q =>
              rw [alter, look, look, get_dir_cons, get_dir_cons,
                lookup_setEntry]
              by_cases hm : m = n
              · subst m
                rw [List.cons_prefix_cons, and_iff_right rfl] at hpq
                rw [if_pos rfl, if_neg]
                · cases es.lookup n with
                  | none => rfl
                  | some c => exact ih c hpq
                · rintro rfl
                  exact hpq List.nil_prefix
              · rw [if_neg hm]

theorem get_put {t : Node} {p : Path} (hne : p ≠ [])
    (hdir : t.look p.dropLast = some .dir) (x : Node) (q : Path) :
    (t.put p x).get (p ++ q) = x.get q := by
  rw [put, get_alter_append _ hne hdir]
  rfl

theorem look_put {t : Node} {p : Path} (hne : p ≠ [])
    (hdir : t.look p.dropLast = some .dir) (x : Node) (q : Path) :
    (t.put p x).look q =
      if p <+: q then x.look (q.drop p.length) else t.look q := by
  by_cases h : p <+: q
  · obtain ⟨r, rfl⟩ := h
    rw [if_pos (List.prefix_append p r), List.drop_left, look,
      get_put hne hdir]
    rfl
  · rw [if_neg h]
    exact look_alter_of_not_prefix _ t h

theorem look_erase (t : Node) {p : Path} (hne : p ≠ []) (q : Path) :
    (t.erase p).look q = if p <+: q then none else t.look q := by
  by_cases h : p <+: q
  · obtain ⟨r, rfl⟩ := h
    rw [if_pos (List.prefix_append p r), look, get_erase_append t hne]
    rfl
  · rw [if_neg h]
    exact look_alter_of_not_prefix _ t h

/-- Writing a file changes the entry at its path only. -/
theorem look_put_file {t : Node} {p : Path} (hne : p ≠ [])
    (hdir : t.look p.dropLast = some .dir)
    (hleaf : t.look p ≠ some .dir) (data : Bytes) (q : Path) :
    (t.put p (.file data)).look q =
      if q = p then some (.file data) else t.look q := by
  rw [look_put hne hdir]
  by_cases h : p <+: q
  · obtain ⟨r, rfl⟩ := h
    rw [if_pos (List.prefix_append p r), List.drop_left]
    cases r with
    | nil => simp [look, kind]
    | cons n r =>
        rw [if_neg (by simp), look, look, get_append, get_file_cons]
        rw [look] at hleaf
        cases hx : t.get p with
        | none => rfl
        | some x =>
            cases x with
            | file data => rfl
            | other => rfl
            | dir es => simp [hx, kind] at hleaf
  · rw [if_neg h, if_neg]
    rintro rfl
    exact h (List.prefix_refl _)

end Node
end FileTree
