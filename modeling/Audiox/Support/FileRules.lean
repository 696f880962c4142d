import Audiox.Support.FileCalls

/-!
# Rules for calls that may fail

One rule for each call, for programs that are verified whatever fails: the
call either reports an error and leaves the tree as it is, or it does what it
is asked for, which the rule gives by what is at each path afterwards.
-/

namespace FileTree

open ByteCodec Interruptible

variable {F : Faults} {t : Node} {L : Node → Prop} {p : Path}

/-- Only calls that write may fail. -/
def OnlyWritesFail (F : Faults) : Prop :=
  ∀ c, F.mayFail c → c.writesAt ≠ none

theorem OnlyWritesFail.reads (h : OnlyWritesFail F) (p : Path) :
    ¬F.mayFail (.openRead p) ∧ ¬F.mayFail (.readFile p) :=
  ⟨fun hf => h _ hf rfl, fun hf => h _ hf rfl⟩

theorem onlyWritesFail_writes (safe : Path → Prop) :
    OnlyWritesFail (Faults.writes safe) := by
  rintro c ⟨p, hp, -⟩
  simp [hp]

/-- Nothing fails; only the making of temporary directories, which needs an
unused name, may. -/
def Calm (F : Faults) : Prop :=
  ∀ c, F.mayFail c → c.makesTemp

theorem Calm.not_fail (h : Calm F) {c : Call} (hc : c.makesTemp = false) :
    ¬F.mayFail c := by
  intro hfail
  rw [h c hfail] at hc
  cases hc

theorem Calm.onlyWritesFail (h : Calm F) : OnlyWritesFail F := by
  intro c hc
  have htemp := h c hc
  cases c with
  | mkdtemp parent stem => rintro ⟨⟩
  | _ => cases htemp

theorem calm_calm : Calm Faults.calm :=
  fun _ => id

theorem calm_powerLoss : Calm Faults.powerLoss :=
  fun _ => id

/-- A program can be run where nothing fails. -/
theorem exec_calm {α : Type} (program : Prog files α) (t : Node) :
    ∃ a t', Exec Faults.calm.env program t (.done a t') := by
  refine exec_total (fun c t => ?_) program t
  cases c with
  | readdir p => exact ⟨.order (t.names p), .inl ⟨_, rfl, .refl _⟩⟩
  | mkdtemp parent stem => exact ⟨.fail 0, .inr ⟨rfl, rfl⟩⟩
  | access p => exact ⟨.ok, .inl rfl⟩
  | lstat p => exact ⟨.ok, .inl rfl⟩
  | openRead p => exact ⟨.ok, .inl rfl⟩
  | readFile p => exact ⟨.ok, .inl rfl⟩
  | pread file offset size => exact ⟨.ok, .inl rfl⟩
  | mkdir p => exact ⟨.ok, .inl rfl⟩
  | create p mode => exact ⟨.ok, .inl rfl⟩
  | append p data => exact ⟨.ok, .inl rfl⟩
  | fsync p => exact ⟨.ok, .inl rfl⟩
  | sync => exact ⟨.ok, .inl rfl⟩
  | rename a b => exact ⟨.ok, .inl rfl⟩
  | unlink p => exact ⟨.ok, .inl rfl⟩
  | rmdir p => exact ⟨.ok, .inl rfl⟩

theorem exec_writes_of_calm {α : Type} {program : Prog files α}
    {o : Outcome α Node} (h : Exec Faults.calm.env program t o) :
    Exec (Faults.writes fun _ => False).env program t o := by
  refine h.env_mono (fun c a s ha => ?_) fun _ _ _ => trivial
  rcases ha with hproper | ⟨hfail, ha⟩
  · exact .inl hproper
  · cases c with
    | mkdtemp parent stem => exact .inr ⟨⟨parent, rfl, id⟩, ha⟩
    | _ => cases hfail

theorem access_spec {Q : Bool → Node → Prop}
    (hlost : F.mayLose (.access p) t → L t)
    (hno : F.mayFail (.access p) ∨ t.look p = none → Q false t)
    (hyes : t.look p ≠ none → Q true t) :
    Spec F.env (access p) t Q L := by
  rw [spec_access]
  refine ⟨hlost, ?_, fun hfail => hno (Or.inl hfail)⟩
  cases h : t.look p with
  | none => exact hno (Or.inr h)
  | some e => exact hyes (by simp [h])

theorem openRead_spec {Q : Except Errno Unit → Node → Prop}
    (hlost : F.mayLose (.openRead p) t → L t)
    (hno : ∀ e, F.mayFail (.openRead p) ∨ t.look p = none → Q (.error e) t)
    (hyes : t.look p ≠ none → Q (.ok ()) t) :
    Spec F.env (openRead p) t Q L := by
  rw [spec_openRead]
  refine ⟨hlost, ?_, fun hfail => hno _ (Or.inl hfail)⟩
  rw [openAt]
  cases h : t.look p with
  | none => exact hno _ (Or.inr h)
  | some e => exact hyes (by simp [h])

theorem readFile_spec {Q : Except Errno Bytes → Node → Prop}
    (hlost : F.mayLose (.readFile p) t → L t)
    (hno : ∀ e, F.mayFail (.readFile p) ∨ (∀ data, t.look p ≠ some (.file data)) →
      Q (.error e) t)
    (hyes : ∀ data, t.look p = some (.file data) → Q (.ok data) t) :
    Spec F.env (readFile p) t Q L := by
  rw [spec_readFile]
  refine ⟨hlost, ?_, fun hfail => hno _ (Or.inl hfail)⟩
  rw [readFileAt]
  split
  next data h => exact hyes data h
  next h => exact hno _ (Or.inr (by simp [h]))
  next h => exact hno _ (Or.inr (by simp [h]))
  next h => exact hno _ (Or.inr (by simp [h]))

theorem readdir_spec {Q : Except Errno (List Name) → Node → Prop}
    (hlost : F.mayLose (.readdir p) t → L t)
    (hno : ∀ e, F.mayFail (.readdir p) ∨ t.look p ≠ some .dir → Q (.error e) t)
    (hyes : ∀ l : List Name, t.look p = some .dir → l.Perm (t.names p) →
      Q (.ok l) t) :
    Spec F.env (readdir p) t Q L := by
  rw [spec_readdir]
  refine ⟨hlost, fun l hl => ?_, fun hfail => hno _ (Or.inl hfail)⟩
  rw [readdirAt]
  cases h : t.look p with
  | none => exact hno _ (Or.inr (by simp [h]))
  | some e =>
      cases e with
      | file data => exact hno _ (Or.inr (by simp [h]))
      | other => exact hno _ (Or.inr (by simp [h]))
      | dir =>
          rw [if_pos hl]
          exact hyes l h hl

theorem mkdir_spec {Q : Except Errno Unit → Node → Prop}
    (hlost : F.mayLose (.mkdir p) t → L t)
    (hno : ∀ e, (e = .eexist → t.look p ≠ none) → Q (.error e) t)
    (hyes : ∀ t', t.look p = none →
      (∀ q, t'.look q = if q = p then some .dir else t.look q) →
      Q (.ok ()) t') :
    Spec F.env (mkdir p) t Q L := by
  rw [spec_mkdir]
  refine ⟨hlost, ?_, fun _ => hno .eio (by rintro ⟨⟩)⟩
  cases h : t.mkdirAt p with
  | ok t' =>
      obtain ⟨hfree, hlook⟩ := Node.look_mkdirAt h
      exact hyes t' hfree hlook
  | error e =>
      refine hno e ?_
      rintro rfl hfree
      cases hparent : t.hasParent p <;>
        simp [Node.mkdirAt, hfree, hparent] at h

theorem create_spec {mode : Mode} {Q : Except Errno Unit → Node → Prop}
    (hp : p ≠ []) (hlost : F.mayLose (.create p mode) t → L t)
    (hno : ∀ e, Q (.error e) t)
    (hyes : ∀ t' data, (mode ≠ .keep → data = []) → t.look p ≠ some .dir →
      (∀ q, t'.look q = if q = p then some (.file data) else t.look q) →
      Q (.ok ()) t') :
    Spec F.env (create p mode) t Q L := by
  rw [spec_create]
  refine ⟨hlost, ?_, fun _ => hno _⟩
  cases h : t.createAt p mode with
  | error e => exact hno e
  | ok t' =>
      obtain ⟨data, hdata, hleaf, hlook⟩ := Node.look_createAt hp h
      exact hyes t' data hdata hleaf hlook

/-- A failed write may have written the first bytes of its data. -/
theorem append_spec {data : Bytes} {Q : Except Errno Unit → Node → Prop}
    (hp : p ≠ []) (hlost : F.mayLose (.append p data) t → L t)
    (hno : ∀ e t', (∀ q, q ≠ p → t'.look q = t.look q) →
      (t'.look p = t.look p ∨ ∃ data, t'.look p = some (.file data)) →
      Q (.error e) t')
    (hyes : ∀ t' old, t.look p = some (.file old) →
      (∀ q, t'.look q =
        if q = p then some (.file (old ++ data)) else t.look q) →
      Q (.ok ()) t') :
    Spec F.env (append p data) t Q L := by
  rw [spec_append]
  refine ⟨hlost, ?_, fun _ n => ?_⟩
  · cases h : t.appendAt p data with
    | error e => exact hno e t (fun _ _ => rfl) (Or.inl rfl)
    | ok t' =>
        obtain ⟨old, hold, hlook⟩ := Node.look_appendAt hp h
        exact hyes t' old hold hlook
  · cases h : t.appendAt p (data.take n) with
    | error e => exact hno _ t (fun _ _ => rfl) (Or.inl rfl)
    | ok t' =>
        obtain ⟨old, -, hlook⟩ := Node.look_appendAt hp h
        refine hno _ t' (fun q hq => ?_) (Or.inr ⟨old ++ data.take n, ?_⟩)
        · rw [hlook, if_neg hq]
        · rw [hlook, if_pos rfl]

theorem fsync_spec {Q : Except Errno Unit → Node → Prop}
    (hlost : F.mayLose (.fsync p) t → L t) (h : ∀ r, Q r t) :
    Spec F.env (fsync p) t Q L := by
  rw [spec_fsync]
  exact ⟨hlost, h _, fun _ => h _⟩

theorem rename_spec {a b : Path} {Q : Except Errno Unit → Node → Prop}
    (ha : a ≠ []) (hlost : F.mayLose (.rename a b) t → L t)
    (hno : ∀ e, Q (.error e) t)
    (hyes : ∀ t', t.look a ≠ none →
      (∀ q, t'.look q =
        if b <+: q then t.look (a ++ q.drop b.length)
        else if a <+: q then none else t.look q) →
      Q (.ok ()) t') :
    Spec F.env (rename a b) t Q L := by
  rw [spec_rename]
  refine ⟨hlost, ?_, fun _ => hno _⟩
  cases h : t.renameAt a b with
  | error e => exact hno e
  | ok t' =>
      obtain ⟨hsome, hlook⟩ := Node.look_renameAt ha h
      exact hyes t' hsome hlook

/-- A file that is renamed over another one, or over nothing. -/
theorem rename_file_spec {a b : Path} {data : Bytes}
    {Q : Except Errno Unit → Node → Prop}
    (ha : a ≠ []) (hdata : t.look a = some (.file data))
    (hlost : F.mayLose (.rename a b) t → L t) (hno : ∀ e, Q (.error e) t)
    (hyes : ∀ t',
      (∀ q, t'.look q =
        if q = b then some (.file data)
        else if q = a then none else t.look q) →
      Q (.ok ()) t') :
    Spec F.env (rename a b) t Q L := by
  rw [spec_rename]
  refine ⟨hlost, ?_, fun _ => hno _⟩
  cases h : t.renameAt a b with
  | error e => exact hno e
  | ok t' =>
      refine hyes t' fun q => ?_
      obtain ⟨-, hlook⟩ := Node.look_renameAt ha h
      obtain ⟨hb, hab⟩ := Node.renameAt_file_ok hdata h
      rw [hlook]
      by_cases hbq : b <+: q
      · obtain ⟨r, rfl⟩ := hbq
        rw [if_pos (List.prefix_append b r), List.drop_left]
        cases r with
        | nil => simp [hdata]
        | cons n r =>
            have hne : b ++ n :: r ≠ b := by simp
            rw [if_neg hne,
              Node.look_below_of_not_dir (by simp [hdata])
                (List.prefix_append a (n :: r)) (by simp),
              Node.look_below_of_not_dir hb
                (List.prefix_append b (n :: r)) hne]
            exact (ite_self _).symm
      · have hqb : q ≠ b := by
          rintro rfl
          exact hbq (List.prefix_refl _)
        rw [if_neg hbq, if_neg hqb]
        by_cases hqa : q = a
        · rw [if_pos hqa, if_pos (hqa ▸ List.prefix_refl _)]
        · rw [if_neg hqa]
          split
          next haq =>
            exact (Node.look_below_of_not_dir (by simp [hdata]) haq hqa).symm
          · rfl

theorem unlink_spec {Q : Except Errno Unit → Node → Prop} (hp : p ≠ [])
    (hlost : F.mayLose (.unlink p) t → L t)
    (hno : ∀ e, F.mayFail (.unlink p) ∨ t.look p = none ∨
      t.look p = some .dir → Q (.error e) t)
    (hyes : ∀ t', t.look p ≠ none → t.look p ≠ some .dir →
      (∀ q, t'.look q = if q = p then none else t.look q) → Q (.ok ()) t') :
    Spec F.env (unlink p) t Q L := by
  rw [spec_unlink]
  refine ⟨hlost, ?_, fun hfail => hno _ (Or.inl hfail)⟩
  cases h : t.unlinkAt p with
  | ok t' =>
      obtain ⟨hsome, hleaf, hlook⟩ := Node.look_unlinkAt hp h
      exact hyes t' hsome hleaf hlook
  | error e =>
      refine hno e (Or.inr ?_)
      unfold Node.unlinkAt at h
      split at h
      next hnone => exact Or.inl hnone
      next hdir => exact Or.inr hdir
      · cases h

theorem rmdir_spec {Q : Except Errno Unit → Node → Prop} (hp : p ≠ [])
    (hlost : F.mayLose (.rmdir p) t → L t)
    (hno : ∀ e, Q (.error e) t)
    (hyes : ∀ t', t.look p = some .dir → t.names p = [] →
      (∀ q, t'.look q = if q = p then none else t.look q) → Q (.ok ()) t') :
    Spec F.env (rmdir p) t Q L := by
  rw [spec_rmdir]
  refine ⟨hlost, ?_, fun _ => hno _⟩
  cases h : t.rmdirAt p with
  | error e => exact hno e
  | ok t' =>
      obtain ⟨hdir, hnames, hlook⟩ := Node.look_rmdirAt hp h
      exact hyes t' hdir hnames hlook

/-! ## Calls that work -/

theorem access_works {Q : Bool → Node → Prop} (hok : ¬F.mayFail (.access p))
    (hlost : F.mayLose (.access p) t → L t) (hdone : Q (t.look p).isSome t) :
    Spec F.env (access p) t Q L := by
  rw [spec_access]
  exact ⟨hlost, hdone, fun hfail => absurd hfail hok⟩

theorem mkdir_works {Q : Except Errno Unit → Node → Prop} (hp : p ≠ [])
    (hok : ¬F.mayFail (.mkdir p)) (hdir : t.look p.dropLast = some .dir)
    (hfree : t.look p = none) (hlost : F.mayLose (.mkdir p) t → L t)
    (hyes : ∀ t', (∀ q, t'.look q = if q = p then some .dir else t.look q) →
      Q (.ok ()) t') :
    Spec F.env (mkdir p) t Q L := by
  have hres : t.mkdirAt p = .ok (t.put p (.dir [])) := by
    simp [Node.mkdirAt, hfree, Node.hasParent, hp, hdir]
  rw [spec_mkdir]
  refine ⟨hlost, ?_, fun hfail => absurd hfail hok⟩
  have hlook := (Node.look_mkdirAt hres).2
  rw [hres]
  exact hyes _ hlook

/-- A directory can be renamed to a name that is not in use. -/
theorem rename_dir_works {a b : Path} {Q : Except Errno Unit → Node → Prop}
    (ha : a ≠ []) (hb : b ≠ []) (hok : ¬F.mayFail (.rename a b))
    (hab : ¬a <+: b) (hba : ¬b <+: a) (hdata : t.look a = some .dir)
    (hdir : t.look b.dropLast = some .dir) (hfree : t.look b = none)
    (hlost : F.mayLose (.rename a b) t → L t)
    (hyes : ∀ t',
      (∀ q, t'.look q =
        if b <+: q then t.look (a ++ q.drop b.length)
        else if a <+: q then none else t.look q) →
      Q (.ok ()) t') :
    Spec F.env (rename a b) t Q L := by
  obtain ⟨x, hx⟩ : ∃ x, t.get a = some x := by
    cases hx : t.get a with
    | none => simp [Node.look, hx] at hdata
    | some x => exact ⟨x, rfl⟩
  have hkind : x.kind = .dir := by simpa [Node.look, hx] using hdata
  have hres : t.renameAt a b = .ok ((t.erase a).put b x) := by
    simp [Node.renameAt, hx, hab, hba, Node.hasParent, hb, hdir, hkind, hfree]
  rw [spec_rename]
  refine ⟨hlost, ?_, fun hfail => absurd hfail hok⟩
  have hlook := (Node.look_renameAt ha hres).2
  rw [hres]
  exact hyes _ hlook

/-- Creating a file works where there is a file or room for one. -/
theorem create_works {Q : Except Errno Unit → Node → Prop} (hp : p ≠ [])
    (hok : ¬F.mayFail (.create p .truncate))
    (hdir : t.look p.dropLast = some .dir)
    (hleaf : t.look p = none ∨ ∃ data, t.look p = some (.file data))
    (hlost : F.mayLose (.create p .truncate) t → L t)
    (hyes : ∀ t', (∀ q, t'.look q =
      if q = p then some (.file []) else t.look q) → Q (.ok ()) t') :
    Spec F.env (create p .truncate) t Q L := by
  have hres : t.createAt p .truncate = .ok (t.put p (.file [])) := by
    rcases hleaf with h | ⟨data, h⟩
    · simp [Node.createAt, h, Node.hasParent, hp, hdir]
    · simp [Node.createAt, h]
  rw [spec_create, hres]
  refine ⟨hlost, hyes _ fun q => ?_, fun hfail => absurd hfail hok⟩
  refine Node.look_put_file hp hdir ?_ _ q
  rcases hleaf with h | ⟨data, h⟩ <;> simp [h]

theorem append_works {data old : Bytes} {Q : Except Errno Unit → Node → Prop}
    (hp : p ≠ []) (hok : ¬F.mayFail (.append p data))
    (hold : t.look p = some (.file old))
    (hlost : F.mayLose (.append p data) t → L t)
    (hyes : ∀ t', (∀ q, t'.look q =
      if q = p then some (.file (old ++ data)) else t.look q) →
      Q (.ok ()) t') :
    Spec F.env (append p data) t Q L := by
  have hres : t.appendAt p data = .ok (t.put p (.file (old ++ data))) := by
    simp [Node.appendAt, hold]
  rw [spec_append, hres]
  refine ⟨hlost, hyes _ fun q => ?_, fun hfail => absurd hfail hok⟩
  exact Node.look_put_file hp (Node.look_dropLast hp (by simp [hold]))
    (by simp [hold]) _ q

theorem fsync_works {Q : Except Errno Unit → Node → Prop}
    (hok : ¬F.mayFail (.fsync p)) (hlost : F.mayLose (.fsync p) t → L t)
    (hyes : Q (.ok ()) t) : Spec F.env (fsync p) t Q L := by
  rw [spec_fsync]
  exact ⟨hlost, hyes, fun hfail => absurd hfail hok⟩

/-- A file can be renamed over another one, or over nothing. -/
theorem rename_file_works {a b : Path} {data : Bytes}
    {Q : Except Errno Unit → Node → Prop} (ha : a ≠ []) (hb : b ≠ [])
    (hok : ¬F.mayFail (.rename a b)) (hab : ¬a <+: b) (hba : ¬b <+: a)
    (hdata : t.look a = some (.file data))
    (hdir : t.look b.dropLast = some .dir) (hleaf : t.look b ≠ some .dir)
    (hlost : F.mayLose (.rename a b) t → L t)
    (hyes : ∀ t',
      (∀ q, t'.look q =
        if q = b then some (.file data)
        else if q = a then none else t.look q) →
      Q (.ok ()) t') :
    Spec F.env (rename a b) t Q L := by
  have hex : ∃ t', t.renameAt a b = .ok t' := by
    obtain ⟨x, hx⟩ : ∃ x, t.get a = some x := by
      cases hx : t.get a with
      | none => simp [Node.look, hx] at hdata
      | some x => exact ⟨x, rfl⟩
    have hkind : x.kind = .file data := by simpa [Node.look, hx] using hdata
    refine ⟨(t.erase a).put b x, ?_⟩
    cases hlook : t.look b with
    | none =>
        simp [Node.renameAt, hx, hab, hba, Node.hasParent, hb, hdir, hkind,
          hlook]
    | some e =>
        have hne : e ≠ .dir := by
          rintro rfl
          exact hleaf hlook
        cases e <;> simp_all [Node.renameAt, Node.hasParent]
  obtain ⟨t', ht'⟩ := hex
  have hweak := rename_file_spec (F := ⟨fun _ => False, F.mayLose⟩)
    (Q := fun r t' => r = .ok () → Q r t') ha hdata hlost (by rintro _ ⟨⟩)
    (fun t' hlook _ => hyes t' hlook)
  rw [spec_rename, ht'] at hweak ⊢
  exact ⟨hlost, hweak.2.1 rfl, fun hfail => absurd hfail hok⟩

end FileTree
