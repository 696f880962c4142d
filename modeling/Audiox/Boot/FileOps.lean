import Audiox.Boot.Frame
import Audiox.Support.FileRules

/-!
# What the file operations of boot recovery do

Specifications under any failure model: which file content each operation
leaves, also when a call fails and in the states where power may be lost.
-/

namespace Audiox

open ByteCodec FileTree Interruptible

variable {F : Faults} {t t' : Node}

/-- The second tree is the first with one more file, which was moved from a
temporary path. -/
def Replaced (t : Node) (tmp path : Path) (data : Bytes) (t' : Node) : Prop :=
  ∀ q, t'.look q =
    if q = path then some (.file data)
    else if q = tmp then none else t.look q

/-- The trees agree except at one path. -/
def SameBut (t : Node) (path : Path) (t' : Node) : Prop :=
  ∀ q, q ≠ path → t'.look q = t.look q

theorem SameBut.refl (t : Node) (path : Path) : SameBut t path t :=
  fun _ _ => rfl

theorem SameBut.trans {t'' : Node} {path : Path} (h : SameBut t path t')
    (h' : SameBut t' path t'') : SameBut t path t'' :=
  fun q hq => (h' q hq).trans (h q hq)

theorem sameBut_of_ite {path : Path} {e : Option Entry}
    (h : ∀ q, t'.look q = if q = path then e else t.look q) :
    SameBut t path t' :=
  fun q hq => by rw [h q, if_neg hq]

/-- A path where a file can be written: there is a file or nothing. -/
def Writable (t : Node) (path : Path) : Prop :=
  t.look path = none ∨ ∃ data, t.look path = some (.file data)

/-- The trees agree except at a temporary path, where a file may have been
written or removed. -/
def Scratched (t : Node) (tmp : Path) (t' : Node) : Prop :=
  SameBut t tmp t' ∧ (t'.look tmp = t.look tmp ∨ Writable t' tmp)

theorem Scratched.refl (t : Node) (tmp : Path) : Scratched t tmp t :=
  ⟨.refl t tmp, .inl rfl⟩

theorem Scratched.trans {t'' : Node} {tmp : Path} (h : Scratched t tmp t')
    (h' : Scratched t' tmp t'') : Scratched t tmp t'' := by
  refine ⟨h.1.trans h'.1, ?_⟩
  rcases h'.2 with hsame | hleaf
  · rw [Writable, hsame]
    exact h.2
  · exact .inr hleaf

theorem scratched_of_file {tmp : Path} {data : Bytes}
    (h : ∀ q, t'.look q = if q = tmp then some (.file data) else t.look q) :
    Scratched t tmp t' :=
  ⟨sameBut_of_ite h, .inr (.inr ⟨data, by simp [h]⟩)⟩

theorem Scratched.writable {tmp : Path} (h : Scratched t tmp t')
    (hw : Writable t tmp) : Writable t' tmp := by
  rcases h.2 with hsame | hleaf
  · rwa [Writable, hsame]
  · exact hleaf

theorem concat_ne_nil (dir : Path) (n : Name) : dir ++ [n] ≠ [] := by
  simp

/-! ## Atomic replacement -/

theorem spec_brFsyncDir {dir : Path} {Q : Unit → Node → Prop}
    {L : Node → Prop} (hlost : L t) (hdone : Q () t) :
    Spec F.env (brFsyncDir dir) t Q L := by
  simp only [brFsyncDir, spec_bind]
  refine fsync_spec (fun _ => hlost) fun r => ?_
  simpa using hdone

/-- Removing the temporary file after a failure. -/
theorem spec_unlink_tmp {tmp : Path} (htmp : tmp ≠ []) {t₀ : Node}
    (h : Scratched t₀ tmp t) :
    Spec F.env (do let _ ← unlink tmp; pure false) t
      (fun ok t' => ok = false ∧ Scratched t₀ tmp t') (Scratched t₀ tmp) := by
  simp only [spec_bind, spec_pure]
  refine unlink_spec htmp (fun _ => h) (fun e _ => ⟨trivial, h⟩)
    fun t' _ _ hlook => ⟨trivial, h.trans ⟨sameBut_of_ite hlook, .inr ?_⟩⟩
  exact .inl (by simp [hlook])

/-- The file has its old content or the new one, whatever happens. -/
theorem spec_brWriteFileAtomic (dir : Path) (name text : Bytes) (t : Node) :
    Spec F.env (brWriteFileAtomic dir name text) t
      (fun ok t' =>
        if ok then
          Replaced t (dir ++ [name ++ tmpSuffix]) (dir ++ [name]) text t'
        else Scratched t (dir ++ [name ++ tmpSuffix]) t')
      (fun t' =>
        Scratched t (dir ++ [name ++ tmpSuffix]) t' ∨
          Replaced t (dir ++ [name ++ tmpSuffix]) (dir ++ [name]) text t') := by
  have htmp := concat_ne_nil dir (name ++ tmpSuffix)
  have hcleanup : ∀ t', Scratched t (dir ++ [name ++ tmpSuffix]) t' →
      Spec F.env (do let _ ← unlink (dir ++ [name ++ tmpSuffix]); pure false) t'
        (fun ok t' =>
          if ok then
            Replaced t (dir ++ [name ++ tmpSuffix]) (dir ++ [name]) text t'
          else Scratched t (dir ++ [name ++ tmpSuffix]) t')
        (fun t' =>
          Scratched t (dir ++ [name ++ tmpSuffix]) t' ∨
            Replaced t (dir ++ [name ++ tmpSuffix]) (dir ++ [name]) text t') := by
    intro t' h
    refine (spec_unlink_tmp htmp h).mono ?_ fun _ => Or.inl
    rintro ok t'' ⟨rfl, h'⟩
    simpa using h'
  simp only [brWriteFileAtomic, spec_bind]
  refine create_spec htmp (fun _ => .inl (.refl _ _))
    (fun e => by simpa [Except.isOk, Except.toBool] using Scratched.refl t _)
    fun t₁ old hold _ h₁ => ?_
  obtain rfl := hold (by decide)
  have hs₁ : Scratched t _ t₁ := scratched_of_file h₁
  simp only [Except.isOk, Except.toBool, Bool.not_true, Bool.false_eq_true,
    if_false, spec_bind]
  refine append_spec htmp (fun _ => .inl hs₁) (fun e t₂ h₂ hleaf => ?_)
    fun t₂ old hold h₂ => ?_
  · have hs₂ : Scratched t _ t₂ :=
      hs₁.trans ⟨h₂, hleaf.imp id fun hfile => .inr hfile⟩
    simpa using hcleanup t₂ hs₂
  obtain rfl : old = [] := by simpa [h₁] using hold.symm
  have hs₂ : Scratched t _ t₂ := hs₁.trans (scratched_of_file h₂)
  simp only [Bool.not_true, Bool.false_eq_true, if_false, spec_bind]
  refine fsync_spec (fun _ => .inl hs₂) fun r => ?_
  cases r with
  | error e => simpa using hcleanup t₂ hs₂
  | ok u =>
      have hdata : t₂.look (dir ++ [name ++ tmpSuffix]) = some (.file text) := by
        simp [h₂]
      simp only [Bool.not_true, Bool.false_eq_true, if_false, spec_bind]
      refine rename_file_spec htmp hdata (fun _ => .inl hs₂)
        (fun e => by simpa using hcleanup t₂ hs₂) fun t₃ h₃ => ?_
      have hdone : Replaced t (dir ++ [name ++ tmpSuffix]) (dir ++ [name])
          text t₃ := by
        intro q
        rw [h₃ q]
        by_cases hq : q = dir ++ [name ++ tmpSuffix]
        · simp [hq]
        · rw [if_neg hq, if_neg hq, hs₂.1 q hq]
      simp only [Bool.not_true, Bool.false_eq_true, if_false, spec_bind]
      exact spec_brFsyncDir (.inr hdone) (by simpa using hdone)

/-- No call that writes at the path fails. -/
def WritesWork (F : Faults) (path : Path) : Prop :=
  ∀ c, F.mayFail c → c.makesTemp = false → c.writesAt ≠ some path

theorem calm_writesWork (h : Calm F) (path : Path) : WritesWork F path := by
  intro c hfail hc
  exact absurd hfail (h.not_fail hc)

/-- The replacement succeeds when the writes of the temporary file work. -/
theorem brWriteFileAtomic_works {dir : Path} {name text : Bytes}
    (hok : WritesWork F (dir ++ [name ++ tmpSuffix]))
    (hdir : t.look dir = some .dir)
    (htmp : Writable t (dir ++ [name ++ tmpSuffix]))
    (hfile : t.look (dir ++ [name]) ≠ some .dir) :
    Spec F.env (brWriteFileAtomic dir name text) t
      (fun ok _ => ok = true) (fun _ => True) := by
  have hne := concat_ne_nil dir (name ++ tmpSuffix)
  have hdisj : ∀ a b : Name, a ≠ b → ¬dir ++ [a] <+: dir ++ [b] := by
    intro a b hab hpre
    exact hab (by simpa [List.prefix_append_right_inj] using hpre)
  have hname : name ++ tmpSuffix ≠ name := by
    simp [tmpSuffix, ascii]
  simp only [brWriteFileAtomic, spec_bind]
  refine create_works hne (fun h => hok _ h rfl rfl) (by simpa using hdir)
    htmp (fun _ => trivial) fun t₁ h₁ => ?_
  simp only [Except.isOk, Except.toBool, Bool.not_true, Bool.false_eq_true,
    if_false, spec_bind]
  refine append_works hne (fun h => hok _ h rfl rfl)
    (by simp [h₁] : t₁.look _ = some (.file [])) (fun _ => trivial) fun t₂ h₂ => ?_
  simp only [Bool.not_true, Bool.false_eq_true, if_false, spec_bind]
  refine fsync_works (fun h => hok _ h rfl rfl) (fun _ => trivial) ?_
  have hother : ∀ q, q ≠ dir ++ [name ++ tmpSuffix] → t₂.look q = t.look q :=
    (sameBut_of_ite h₁).trans (sameBut_of_ite h₂)
  simp only [Bool.not_true, Bool.false_eq_true, if_false, spec_bind]
  refine rename_file_works hne (concat_ne_nil dir name)
    (fun h => hok _ h rfl rfl) (hdisj _ _ hname) (hdisj _ _ hname.symm)
    (by simp [h₂] : t₂.look _ = some (.file ([] ++ text))) ?_ ?_
    (fun _ => trivial) fun t₃ _ => ?_
  · rw [List.dropLast_concat, hother dir (by simp), hdir]
  · rw [hother _ (by simpa using hname.symm)]
    exact hfile
  · simp only [Bool.not_true, Bool.false_eq_true, if_false, spec_bind]
    exact spec_brFsyncDir trivial (by simp)

/-! ## Reading a small file -/

/-- What reading a small file finds: nothing if there is no file, no text if
there is something else in its place. -/
def smallFile (t : Node) (path : Path) (size : Nat) : Option Bytes :=
  match t.look path with
  | none => none
  | some (.file data) => some (data.take (size - 1))
  | some _ => some []

theorem spec_brReadSmallFile {path : Path} {size : Nat}
    {Q : Option Bytes → Node → Prop} {L : Node → Prop}
    (hopen : ¬F.mayFail (.openRead path)) (hread : ¬F.mayFail (.readFile path))
    (hlost : L t) (hdone : Q (smallFile t path size) t) :
    Spec F.env (brReadSmallFile path size) t Q L := by
  simp only [brReadSmallFile, spec_bind]
  refine openRead_spec (fun _ => hlost) (fun e he => ?_) fun hsome => ?_
  · have hnone := he.resolve_left hopen
    simpa [Except.isOk, Except.toBool, smallFile, hnone] using hdone
  · simp only [Except.isOk, Except.toBool, Bool.not_true, Bool.false_eq_true,
      if_false, spec_bind]
    refine readFile_spec (fun _ => hlost) (fun e he => ?_) fun data hdata => ?_
    · have hother := he.resolve_left hread
      rw [spec_pure]
      have hres : smallFile t path size = some [] := by
        unfold smallFile
        split
        next h => exact absurd h hsome
        next d h => exact absurd h (hother d)
        · rfl
      rwa [hres] at hdone
    · simpa [smallFile, hdata] using hdone

/-! ## Copying a file -/

theorem flatten_chunks_take (data : Bytes) (k n : Nat) :
    ((List.range n).map fun i => (data.drop (i * k)).take k).flatten =
      data.take (n * k) := by
  induction n with
  | zero => simp
  | succ n ih =>
      rw [List.range_succ, List.map_append, List.flatten_append, ih,
        Nat.succ_mul, List.take_add]
      simp

/-- The buffers a file is copied through make up the file. -/
theorem flatten_brChunks (data : Bytes) : (brChunks data).flatten = data := by
  rw [brChunks, flatten_chunks_take]
  apply List.take_of_length_le
  have hdiv := Nat.div_add_mod (data.length + brCopySize - 1) brCopySize
  have hmod := Nat.mod_lt (data.length + brCopySize - 1)
    (by decide : brCopySize > 0)
  rw [Nat.mul_comm] at hdiv
  have hsize : 0 < brCopySize := by decide
  omega

/-- The copy is complete. -/
def Copied (t : Node) (path : Path) (data : Bytes) (t' : Node) : Prop :=
  ∀ q, t'.look q = if q = path then some (.file data) else t.look q

theorem spec_appendChunk {dst : Path} (hdst : dst ≠ []) {t₀ : Node}
    {old : Bytes} (chunk : Bytes) (h : Copied t₀ dst old t) :
    Spec F.env (do pure (← append dst chunk).isOk) t
      (fun ok t' => if ok then Copied t₀ dst (old ++ chunk) t'
        else Scratched t₀ dst t')
      (Scratched t₀ dst) := by
  have hs : Scratched t₀ dst t := scratched_of_file h
  rw [spec_bind]
  refine append_spec hdst (fun _ => hs) (fun e t' h' hleaf => ?_)
    fun t' old' hold h' => ?_
  · simpa [Except.isOk, Except.toBool] using
      hs.trans ⟨h', hleaf.imp id fun hfile => .inr hfile⟩
  · obtain rfl : old' = old := by simpa [h dst] using hold.symm
    intro o ho
    cases ho
    intro q
    rw [h' q]
    by_cases hq : q = dst
    · simp [hq]
    · rw [if_neg hq, if_neg hq, h q, if_neg hq]

theorem spec_brCopyData {src dst : Path} (hne : src ≠ dst) (hdst : dst ≠ [])
    {t₀ : Node} (h : Copied t₀ dst [] t) :
    Spec F.env (brCopyData src dst) t
      (fun ok t' =>
        if ok then ∃ data, t₀.look src = some (.file data) ∧
          Copied t₀ dst data t'
        else Scratched t₀ dst t')
      (Scratched t₀ dst) := by
  have hs : Scratched t₀ dst t := scratched_of_file h
  rw [brCopyData, spec_bind]
  refine readFile_spec (fun _ => hs) (fun e _ => by simpa using hs)
    fun data hdata => ?_
  rw [h src, if_neg hne] at hdata
  simp only [spec_bind]
  -- The loop has written the chunks that are no longer to be visited.
  have hbody : ∀ (chunk : Bytes) (rest : List Bytes) (t' : Node),
      (∃ done, done ++ (chunk :: rest).flatten = data ∧
        Copied t₀ dst done t') →
      Spec F.env (do pure (← append dst chunk).isOk) t'
        (fun ok t'' =>
          if ok then ∃ done, done ++ rest.flatten = data ∧
            Copied t₀ dst done t''
          else Scratched t₀ dst t'')
        (Scratched t₀ dst) := by
    rintro chunk rest t' ⟨done, hdone, hcopied⟩
    refine (spec_appendChunk hdst chunk hcopied).mono (fun ok t'' hok => ?_)
      fun _ => id
    cases ok with
    | false => simpa using hok
    | true =>
        refine ⟨done ++ chunk, ?_, by simpa using hok⟩
        rw [← hdone, List.flatten_cons, List.append_assoc]
  refine (spec_untilFailure (fun rest t' => ∃ done,
    done ++ rest.flatten = data ∧ Copied t₀ dst done t')
    ⟨[], flatten_brChunks data, h⟩ hbody).mono (fun ok t' hok => ?_)
      fun _ => id
  cases ok with
  | false => simpa using hok
  | true =>
      obtain ⟨done, hdone, hcopied⟩ := hok
      obtain rfl : done = data := by simpa using hdone
      have hs' : Scratched t₀ dst t' := scratched_of_file hcopied
      simp only [if_true, spec_bind]
      refine fsync_spec (fun _ => hs') fun r => ?_
      cases r with
      | ok u => simpa [Except.isOk, Except.toBool] using ⟨done, hdata, hcopied⟩
      | error e => simpa [Except.isOk, Except.toBool] using hs'

/-- A copy is complete, or at most the target has been touched. -/
theorem spec_brCopyFile {src dst : Path} (hne : src ≠ dst) (hdst : dst ≠ [])
    (t : Node) :
    Spec F.env (brCopyFile src dst) t
      (fun ok t' =>
        if ok then ∃ data, t.look src = some (.file data) ∧
          Copied t dst data t'
        else Scratched t dst t')
      (Scratched t dst) := by
  rw [brCopyFile, spec_bind]
  have hrefl := Scratched.refl t dst
  refine openRead_spec (fun _ => hrefl)
    (fun e _ => by simpa [Except.isOk, Except.toBool] using hrefl) fun _ => ?_
  simp only [Except.isOk, Except.toBool, Bool.not_true, Bool.false_eq_true,
    if_false, spec_bind]
  refine create_spec hdst (fun _ => hrefl) (fun e => by simpa using hrefl)
    fun t₁ old hold _ h₁ => ?_
  obtain rfl := hold (by decide)
  simp only [Bool.not_true, Bool.false_eq_true, if_false, spec_bind]
  refine (spec_brCopyData hne hdst h₁).mono (fun ok t₂ h₂ => ?_) fun _ => id
  cases ok with
  | true => simpa using h₂
  | false =>
      refine (spec_unlink_tmp hdst (by simpa using h₂)).mono ?_ fun _ => id
      rintro ok t₃ ⟨rfl, h₃⟩
      simpa using h₃

/-- A copy succeeds when nothing that it needs fails. -/
theorem brCopyFile_works {src dst : Path} {data : Bytes} (hne : src ≠ dst)
    (hdst : dst ≠ []) (hok : Calm F)
    (hdata : t.look src = some (.file data))
    (hdir : t.look dst.dropLast = some .dir) (hleaf : Writable t dst) :
    Spec F.env (brCopyFile src dst) t (fun ok _ => ok = true)
      (fun _ => True) := by
  rw [brCopyFile, spec_bind]
  refine openRead_spec (fun _ => trivial) (fun e he => ?_) fun _ => ?_
  · rcases he with hfail | hnone
    · exact absurd hfail (hok.not_fail rfl)
    · simp [hdata] at hnone
  simp only [Except.isOk, Except.toBool, Bool.not_true, Bool.false_eq_true,
    if_false, spec_bind]
  refine create_works hdst (hok.not_fail rfl) hdir hleaf (fun _ => trivial)
    fun t₁ h₁ => ?_
  simp only [Bool.not_true, Bool.false_eq_true, if_false, spec_bind]
  rw [brCopyData, spec_bind]
  refine readFile_spec (fun _ => trivial) (fun e he => ?_) fun data' _ => ?_
  · rcases he with hfail | hnone
    · exact absurd hfail (hok.not_fail rfl)
    · exact absurd (by rw [h₁, if_neg hne, hdata]) (hnone data)
  simp only [spec_bind]
  have hbody : ∀ (chunk : Bytes) (rest : List Bytes) (t' : Node),
      (∃ old, t'.look dst = some (.file old)) →
      Spec F.env (do pure (← append dst chunk).isOk) t'
        (fun ok t'' =>
          if ok then ∃ old, Node.look t'' dst = some (.file old) else False)
        fun _ => True := by
    rintro chunk rest t' ⟨old, hold⟩
    rw [spec_bind]
    refine append_works hdst (hok.not_fail rfl) hold (fun _ => trivial) fun t'' h'' => ?_
    intro o ho
    cases ho
    exact ⟨old ++ chunk, by simp [h'']⟩
  refine (spec_untilFailure (F := fun _ => False)
    (fun _ t' => ∃ old, Node.look t' dst = some (.file old))
    ⟨[], by simp [h₁]⟩ hbody).mono (fun ok t₂ h₂ => ?_) fun _ => id
  cases ok with
  | false => exact absurd h₂ (by simp)
  | true =>
      simp only [if_true, spec_bind]
      refine fsync_works (hok.not_fail rfl) (fun _ => trivial) ?_
      simp [Except.isOk, Except.toBool]

/-! ## Removing a directory of files -/

/-- Below the directory some entries may be gone; nothing else changed. -/
def Shrunk (dir : Path) (t t' : Node) : Prop :=
  (∀ q, ¬dir <+: q → t'.look q = t.look q) ∧
    ∀ q, t'.look q = t.look q ∨ t'.look q = none

theorem Shrunk.refl (dir : Path) (t : Node) : Shrunk dir t t :=
  ⟨fun _ _ => rfl, fun _ => .inl rfl⟩

theorem Shrunk.trans {t'' : Node} {dir : Path} (h : Shrunk dir t t')
    (h' : Shrunk dir t' t'') : Shrunk dir t t'' := by
  constructor
  · intro q hq
    exact (h'.1 q hq).trans (h.1 q hq)
  · intro q
    rcases h'.2 q with hsame | hnone
    · rw [hsame]
      exact h.2 q
    · exact .inr hnone

theorem shrunk_of_ite {dir p : Path} (hp : dir <+: p)
    (h : ∀ q, t'.look q = if q = p then none else t.look q) :
    Shrunk dir t t' := by
  constructor
  · intro q hq
    rw [h, if_neg]
    rintro rfl
    exact hq hp
  · intro q
    rw [h]
    split
    · exact .inr rfl
    · exact .inl rfl

theorem spec_rmdir_shrunk {dir : Path} (hdir : dir ≠ []) {t₀ : Node}
    (h : Shrunk dir t₀ t) :
    Spec F.env (do let _ ← rmdir dir) t (fun _ => Shrunk dir t₀)
      (Shrunk dir t₀) := by
  simp only [spec_bind]
  refine rmdir_spec hdir (fun _ => h) (fun e => by simpa using h)
    fun t' _ _ h' => ?_
  simpa using h.trans (shrunk_of_ite (List.prefix_refl dir) h')

theorem spec_brRemoveFlatDir {dir : Path} (hdir : dir ≠ []) (t : Node) :
    Spec F.env (brRemoveFlatDir dir) t (fun _ => Shrunk dir t)
      (Shrunk dir t) := by
  rw [brRemoveFlatDir, spec_bind]
  refine readdir_spec (fun _ => .refl _ _) (fun e _ => ?_) fun l _ _ => ?_
  · exact spec_rmdir_shrunk hdir (.refl dir t)
  · simp only [spec_bind]
    refine (spec_forEach (fun _ => Shrunk dir t) (.refl dir t)
      fun n rest t' h' => ?_).mono
        (fun _ t' h' => by simpa using spec_rmdir_shrunk hdir h') fun _ => id
    simp only [spec_bind]
    refine unlink_spec (concat_ne_nil dir n) (fun _ => h')
      (fun e _ => by simpa using h') fun t'' _ _ h'' => ?_
    simpa using h'.trans (shrunk_of_ite (List.prefix_append dir [n]) h'')

/-- All files are gone when nothing fails. -/
theorem brRemoveFlatDir_works {dir : Path} (hdir : dir ≠ [])
    (hok : Calm F) (hisdir : t.look dir = some .dir)
    (hfiles : ∀ n, t.look (dir ++ [n]) ≠ some .dir) :
    Spec F.env (brRemoveFlatDir dir) t
      (fun _ t' => ∀ n, t'.look (dir ++ [n]) = none) (fun _ => True) := by
  rw [brRemoveFlatDir, spec_bind]
  refine readdir_spec (fun _ => trivial) (fun e he => ?_) fun l _ hl => ?_
  · rcases he with hfail | hno
    · exact absurd hfail (hok.not_fail rfl)
    · exact absurd hisdir hno
  · have hstart : ∀ n, n ∉ l → t.look (dir ++ [n]) = none := by
      intro n hn
      by_contra hsome
      exact hn (hl.mem_iff.mpr (Node.mem_names.mpr
        (Option.isSome_iff_ne_none.mpr hsome)))
    simp only [spec_bind]
    -- Whatever is still there is still to be visited.
    refine (spec_forEach
      (fun rest t' => ∀ n, Node.look t' (dir ++ [n]) ≠ some .dir ∧
        (n ∉ rest → Node.look t' (dir ++ [n]) = none))
      (fun n => ⟨hfiles n, hstart n⟩) fun n rest t' h' => ?_).mono
        (fun _ t' h' => ?_) fun _ => id
    · simp only [spec_bind]
      refine unlink_spec (concat_ne_nil dir n) (fun _ => trivial)
        (fun e he => ?_) fun t'' _ _ h'' => ?_
      · have hgone : t'.look (dir ++ [n]) = none := by
          rcases he with hfail | hnone | hdir'
          · exact absurd hfail (hok.not_fail rfl)
          · exact hnone
          · exact absurd hdir' (h' n).1
        rw [spec_pure]
        intro k
        refine ⟨(h' k).1, fun hk => ?_⟩
        by_cases hkn : k = n
        · rwa [hkn]
        · exact (h' k).2 (by simp [hkn, hk])
      · rw [spec_pure]
        intro k
        rw [h'']
        split
        · exact ⟨(by rintro ⟨⟩), fun _ => rfl⟩
        next hne =>
          have hkn : k ≠ n := by
            rintro rfl
            exact hne rfl
          exact ⟨(h' k).1, fun hk => (h' k).2 (by simp [hkn, hk])⟩
    · have hgone : ∀ n, Node.look t' (dir ++ [n]) = none :=
        fun n => (h' n).2 List.not_mem_nil
      refine rmdir_spec hdir (fun _ => trivial) (fun e => by simpa using hgone)
        fun t'' _ _ h'' => ?_
      rw [spec_pure]
      intro n
      rw [h'']
      split
      · rfl
      · exact hgone n

end Audiox
