import Mathlib

/-!
# Caches that are checked with stamps

A reader goes through some files while others write them.  What it found is
kept with the stamps of the files, if they were the same before and after and
are settled: a settled stamp does not come back.  A later call that finds the
kept stamps returns what was kept.
-/

namespace ValidatedCache

variable {D P H C S T V : Type}

/-- Files that change step by step; a handle stands for an open file. -/
structure Source (D P H C S T : Type) where
  step : D → D → Prop
  clock : D → T
  stamp : D → P → S
  openAt : D → P → Option H
  readAt : D → H → C
  save : P → C → D → D → Prop
  Seen : D → P → S → Prop
  settled : T → S → Bool
  save_step : ∀ {p c d d'}, save p c d d' → step d d'
  seen_stamp : ∀ d p, Seen d p (stamp d p)
  seen_step : ∀ {d d' p s}, step d d' → Seen d p s → Seen d' p s
  settled_step : ∀ {d d' s}, step d d' → settled (clock d) s = true →
    settled (clock d') s = true
  stays : ∀ {d d' p s}, step d d' → Seen d p s →
    settled (clock d) s = true → stamp d' p = s →
    stamp d p = s ∧ (openAt d' p).map (fun x => (x, readAt d' x)) =
      (openAt d p).map fun x => (x, readAt d x)

namespace Source

variable (src : Source D P H C S T)

/-- A file as a reader finds it. -/
def file (d : D) (p : P) : Option (H × C) :=
  (src.openAt d p).map fun x => (x, src.readAt d x)

/-- The states of a run, one after the other. -/
def Valid (h : List D) : Prop :=
  ∀ i d d', h[i]? = some d → h[i + 1]? = some d' → src.step d d'

variable {src} {h : List D} {i j : Nat} {d d' : D} {p : P} {s : S}

theorem Valid.append (hvalid : src.Valid h) (hd : h[h.length - 1]? = some d)
    (hstep : src.step d d') : src.Valid (h ++ [d']) := by
  intro i a a' ha ha'
  have hlt : i + 1 < (h ++ [d']).length := (List.getElem?_eq_some_iff.mp ha').1
  rw [List.length_append, List.length_singleton] at hlt
  by_cases hlast : i + 1 = h.length
  · have hi : i = h.length - 1 := by omega
    rw [List.getElem?_append_left (by omega), hi, hd] at ha
    rw [hlast, List.getElem?_append_right (le_refl _), Nat.sub_self,
      List.getElem?_cons_zero] at ha'
    obtain rfl := Option.some.inj ha
    obtain rfl := Option.some.inj ha'
    exact hstep
  · rw [List.getElem?_append_left (by omega)] at ha ha'
    exact hvalid i a a' ha ha'

/-- What every step keeps is kept later on. -/
theorem Valid.later (hvalid : src.Valid h) {Q : D → Prop}
    (hQ : ∀ {a a'}, src.step a a' → Q a → Q a') (hij : i ≤ j)
    (hd : h[i]? = some d) (hd' : h[j]? = some d') (hq : Q d) : Q d' := by
  induction j, hij using Nat.le_induction generalizing d' with
  | base =>
      rw [hd] at hd'
      obtain rfl := Option.some.inj hd'
      exact hq
  | succ j hij ih =>
      have hlt : j < h.length := by
        have := (List.getElem?_eq_some_iff.mp hd').1
        omega
      have hmid : h[j]? = some h[j] := List.getElem?_eq_getElem hlt
      exact hQ (hvalid j _ _ hmid hd') (ih hmid)

/-- A settled stamp that is there later has been there all the time, with the
same file. -/
theorem Valid.stays (hvalid : src.Valid h) (hij : i ≤ j)
    (hd : h[i]? = some d) (hd' : h[j]? = some d') (hseen : src.Seen d p s)
    (hsettled : src.settled (src.clock d) s = true)
    (hs : src.stamp d' p = s) :
    src.stamp d p = s ∧ src.file d' p = src.file d p := by
  induction j, hij using Nat.le_induction generalizing d' with
  | base =>
      rw [hd] at hd'
      obtain rfl := Option.some.inj hd'
      exact ⟨hs, rfl⟩
  | succ j hij ih =>
      have hlt : j < h.length := by
        have := (List.getElem?_eq_some_iff.mp hd').1
        omega
      have hmid : h[j]? = some h[j] := List.getElem?_eq_getElem hlt
      have hseen' := hvalid.later (Q := fun a => src.Seen a p s)
        (fun hstep hq => src.seen_step hstep hq) hij hd hmid hseen
      have hsettled' := hvalid.later
        (Q := fun a => src.settled (src.clock a) s = true)
        (fun hstep hq => src.settled_step hstep hq) hij hd hmid hsettled
      obtain ⟨hstamp, hfile⟩ :=
        src.stays (hvalid j _ _ hmid hd') hseen' hsettled' hs
      obtain ⟨hfirst, hsame⟩ := ih hmid hstamp
      exact ⟨hfirst, hfile.trans hsame⟩

end Source

/-! ## Readers -/

inductive Act (P C V : Type) where
  | openFile (p : P)
  | read
  | save (p : P) (c : C)
  | finish (v : V) (keep : Bool)

/-- A program that opens files and reads them, in as many calls as it needs.
What it finishes with may be kept or not. -/
structure Reader (P C V : Type) where
  State : Type
  start : State
  act : State → Act P C V
  opened : Bool → State → State
  got : C → State → State
  failed : State → State
  saved : State → State

/-- A reader at work: the open file, and which files it has visited; a file
that it wrote is no visit. -/
structure Scan (H : Type) (rd : Reader P C V) where
  handle : Option H
  visits : List (Option P)
  state : rd.State

def Scan.start (rd : Reader P C V) : Scan H rd :=
  { handle := none, visits := [], state := rd.start }

section Scans

variable {rd : Reader P C V}

def Scan.open (s : Scan H rd) (p : P) (handle : Option H) : Scan H rd :=
  { handle, visits := s.visits ++ [some p]
    state := rd.opened handle.isSome s.state }

def Scan.openFailed (s : Scan H rd) (p : P) : Scan H rd :=
  { handle := none, visits := s.visits ++ [some p]
    state := rd.failed s.state }

def Scan.got (s : Scan H rd) (c : C) : Scan H rd :=
  { s with state := rd.got c s.state }

def Scan.failed (s : Scan H rd) : Scan H rd :=
  { s with state := rd.failed s.state }

def Scan.saved (s : Scan H rd) : Scan H rd :=
  { handle := none, visits := s.visits ++ [none], state := rd.saved s.state }

variable (src : Source D P H C S T) (faulty : Prop)

/-- One call of a reader; calls may fail where there are faults. -/
inductive Observe (d : D) : Scan H rd → Scan H rd → Prop where
  | open {s : Scan H rd} {p : P} (ha : rd.act s.state = .openFile p) :
      Observe d s (s.open p (src.openAt d p))
  | openFailed {s : Scan H rd} {p : P} (hf : faulty)
      (ha : rd.act s.state = .openFile p) : Observe d s (s.openFailed p)
  | read {s : Scan H rd} {x : H} (ha : rd.act s.state = .read)
      (hx : s.handle = some x) : Observe d s (s.got (src.readAt d x))
  | readFailed {s : Scan H rd} (hf : faulty) (ha : rd.act s.state = .read) :
      Observe d s s.failed

/-- Where a reader can be that has looked at these states in their order, from
the one with number `b` on. -/
inductive Reached (h : List D) (b : Nat) : Nat → Scan H rd → Prop where
  | start : Reached h b b (Scan.start rd)
  | later {i j : Nat} {s : Scan H rd} (hs : Reached h b i s) (hij : i ≤ j) :
      Reached h b j s
  | observe {i : Nat} {d : D} {s s' : Scan H rd} (hs : Reached h b i s)
      (hd : h[i]? = some d) (ho : Observe src faulty d s s') :
      Reached h b i s'
  | saved {i : Nat} {p : P} {c : C} {s : Scan H rd} (hs : Reached h b i s)
      (ha : rd.act s.state = .save p c) : Reached h b i s.saved

/-- Where a reader can be on files that do not change. -/
inductive Follows (files : P → Option (H × C)) : Scan H rd → Prop where
  | start : Follows files (Scan.start rd)
  | open {s : Scan H rd} {p : P} (hs : Follows files s)
      (ha : rd.act s.state = .openFile p) :
      Follows files (s.open p ((files p).map (·.1)))
  | openFailed {s : Scan H rd} {p : P} (hs : Follows files s) (hf : faulty)
      (ha : rd.act s.state = .openFile p) : Follows files (s.openFailed p)
  | read {s : Scan H rd} {p : P} {x : H} {c : C} (hs : Follows files s)
      (ha : rd.act s.state = .read) (hx : s.handle = some x)
      (hlast : s.visits.getLast? = some (some p))
      (hfile : files p = some (x, c)) : Follows files (s.got c)
  | readFailed {s : Scan H rd} (hs : Follows files s) (hf : faulty)
      (ha : rd.act s.state = .read) : Follows files s.failed

variable {src faulty} {h : List D} {b i j : Nat} {s : Scan H rd}

theorem Reached.le (hs : Reached src faulty h b i s) : b ≤ i := by
  induction hs with
  | start => exact le_refl b
  | later _ hij ih => exact ih.trans hij
  | observe _ _ _ ih => exact ih
  | saved _ _ ih => exact ih

theorem Reached.from_earlier {b' : Nat} (hs : Reached src faulty h b i s)
    (hb : b' ≤ b) : Reached src faulty h b' i s := by
  induction hs with
  | start => exact Reached.start.later hb
  | later _ hij ih => exact ih.later hij
  | observe _ hd ho ih => exact ih.observe hd ho
  | saved _ ha ih => exact ih.saved ha

theorem Reached.append (hs : Reached src faulty h b i s) (d : D) :
    Reached src faulty (h ++ [d]) b i s := by
  induction hs with
  | start => exact .start
  | later _ hij ih => exact ih.later hij
  | observe _ hd ho ih =>
      apply ih.observe _ ho
      rw [List.getElem?_append_left (List.getElem?_eq_some_iff.mp hd).1, hd]
  | saved _ ha ih => exact ih.saved ha

/-- What every act of a reader keeps, whatever it finds. -/
theorem Reached.invariant {I : List (Option P) → rd.State → Prop}
    (hstart : I [] rd.start)
    (hopen : ∀ visits state p, rd.act state = .openFile p → I visits state →
      (∀ present, I (visits ++ [some p]) (rd.opened present state)) ∧
        I (visits ++ [some p]) (rd.failed state))
    (hread : ∀ visits state, rd.act state = .read → I visits state →
      (∀ c, I visits (rd.got c state)) ∧ I visits (rd.failed state))
    (hsave : ∀ visits state p c, rd.act state = .save p c →
      I visits state → I (visits ++ [none]) (rd.saved state))
    (hs : Reached src faulty h b i s) : I s.visits s.state := by
  induction hs with
  | start => exact hstart
  | later _ _ ih => exact ih
  | observe _ _ ho ih =>
      cases ho with
      | «open» ha => exact (hopen _ _ _ ha ih).1 _
      | openFailed _ ha => exact (hopen _ _ _ ha ih).2
      | read ha _ => exact (hread _ _ ha ih).1 _
      | readFailed _ ha => exact (hread _ _ ha ih).2
  | saved _ ha ih => exact hsave _ _ _ _ ha ih

/-- A reader that found every file as it is follows those files. -/
theorem Reached.follows (files : P → Option (H × C))
    (hs : Reached src faulty h b i s) (hclean : none ∉ s.visits)
    (hfiles : ∀ p, some p ∈ s.visits → ∀ j d, b ≤ j → j ≤ i →
      h[j]? = some d → src.file d p = files p) :
    Follows faulty files s ∧ ∀ x, s.handle = some x →
      ∃ p, s.visits.getLast? = some (some p) ∧ (files p).map (·.1) = some x := by
  induction hs with
  | start =>
      refine ⟨.start, ?_⟩
      rintro x ⟨⟩
  | later hs hij ih =>
      apply ih hclean
      intro p hp j d hbj hji
      exact hfiles p hp j d hbj (hji.trans hij)
  | @saved i p c s hs ha ih =>
      exact absurd (List.mem_append_right _ (by simp)) hclean
  | @observe i d s s' hs hd ho ih =>
      cases ho with
      | @«open» p ha =>
          obtain ⟨hfollows, -⟩ := ih (fun hn => hclean (by simp [Scan.open, hn]))
            fun p' hp' => hfiles p' (by simp [Scan.open, hp'])
          have hfile := hfiles p (by simp [Scan.open]) i d hs.le (le_refl i) hd
          have hopen : src.openAt d p = (files p).map (·.1) := by
            rw [← hfile, Source.file, Option.map_map]
            exact Option.map_id'.symm
          rw [hopen]
          refine ⟨hfollows.open ha, ?_⟩
          intro x hx
          exact ⟨p, by simp [Scan.open], hx⟩
      | @openFailed p hf ha =>
          obtain ⟨hfollows, -⟩ := ih
            (fun hn => hclean (by simp [Scan.openFailed, hn]))
            fun p' hp' => hfiles p' (by simp [Scan.openFailed, hp'])
          refine ⟨hfollows.openFailed hf ha, ?_⟩
          rintro x ⟨⟩
      | @read x ha hx =>
          obtain ⟨hfollows, hhandle⟩ := ih hclean hfiles
          refine ⟨?_, hhandle⟩
          obtain ⟨p, hlast, hp⟩ := hhandle x hx
          obtain ⟨⟨x', c⟩, hfile, rfl⟩ := Option.map_eq_some_iff.mp hp
          have hmem : some p ∈ s.visits := List.mem_of_getLast? hlast
          have hfound := hfiles p hmem i d hs.le (le_refl i) hd
          rw [hfile, Source.file, Option.map_eq_some_iff] at hfound
          obtain ⟨x, -, hpair⟩ := hfound
          obtain ⟨rfl, rfl⟩ := Prod.mk.inj hpair
          exact hfollows.read ha hx hlast hfile
      | readFailed hf ha =>
          obtain ⟨hfollows, hhandle⟩ := ih hclean hfiles
          exact ⟨hfollows.readFailed hf ha, hhandle⟩

/-- A reader can follow files at moments of its own, if it visits them in the
order of these moments. -/
theorem Follows.reached {files : P → Option (H × C)} {watched : List P}
    {t : Nat → Nat} (hs : Follows faulty files s) {k : Nat}
    (hvisits : s.visits = (watched.take k).map some) (hk : k ≤ watched.length)
    (hb : b ≤ t 0) (hmono : Monotone t) (hlt : ∀ i, t i < h.length)
    (hfiles : ∀ i p, watched[i]? = some p →
      ∃ d, h[t (i + 1)]? = some d ∧ src.file d p = files p) :
    Reached src faulty h b (t k) s := by
  have hvisit : ∀ {k : Nat} {visits : List (Option P)} {p : P},
      k ≤ watched.length →
      visits ++ [some p] = (watched.take k).map some →
      ∃ k', k = k' + 1 ∧ visits = (watched.take k').map some ∧
        watched[k']? = some p := by
    intro k visits p hk hvisits
    cases k with
    | zero => simp at hvisits
    | succ k =>
        rw [List.take_succ_eq_append_getElem (by omega), List.map_append,
          List.map_singleton] at hvisits
        obtain ⟨hfront, hlast⟩ := List.append_inj' hvisits rfl
        refine ⟨k, rfl, hfront, ?_⟩
        rw [List.getElem?_eq_getElem (by omega)]
        simpa using hlast.symm
  induction hs generalizing k with
  | start =>
      exact Reached.start.later (hb.trans (hmono (Nat.zero_le k)))
  | @«open» s p hs ha ih =>
      obtain ⟨k, rfl, hfront, hp⟩ := hvisit hk hvisits
      obtain ⟨d, hd, hfile⟩ := hfiles k p hp
      have hearlier := (ih hfront (by omega)).later (hmono (Nat.le_succ k))
      have hopen : (files p).map (·.1) = src.openAt d p := by
        rw [← hfile, Source.file, Option.map_map]
        exact Option.map_id'
      rw [hopen]
      exact hearlier.observe hd (.open ha)
  | @openFailed s p hs hf ha ih =>
      obtain ⟨k, rfl, hfront, hp⟩ := hvisit hk hvisits
      obtain ⟨d, hd, -⟩ := hfiles k p hp
      have hearlier := (ih hfront (by omega)).later (hmono (Nat.le_succ k))
      exact hearlier.observe hd (.openFailed hf ha)
  | @read s p x c hs ha hx hlast hfile ih =>
      obtain ⟨front, hfront⟩ : ∃ front, s.visits = front ++ [some p] :=
        List.getLast?_eq_some_iff.mp hlast
      have hvisits' : s.visits = (watched.take k).map some := hvisits
      rw [hfront] at hvisits'
      obtain ⟨k, rfl, -, hp⟩ := hvisit hk hvisits'
      obtain ⟨d, hd, hfile'⟩ := hfiles k p hp
      rw [hfile, Source.file, Option.map_eq_some_iff] at hfile'
      obtain ⟨x', -, hpair⟩ := hfile'
      obtain ⟨rfl, rfl⟩ := Prod.mk.inj hpair
      exact (ih hvisits hk).observe hd (.read ha hx)
  | @readFailed s hs hf ha ih =>
      have hlt' := hlt k
      have hd : h[t k]? = some h[t k] := List.getElem?_eq_getElem hlt'
      exact (ih hvisits hk).observe hd (.readFailed hf ha)

end Scans

/-! ## Calls -/

/-- Where a call of the cached reader is: `before` and `after` are the stamps
it has taken so far, `none` where one could not be taken. -/
inductive Phase (H S T : Type) (rd : Reader P C V) where
  | statting (before : List S)
  | checking (before : List S)
  | timing (before : Option (List S))
  | reading (before : Option (List S)) (now : T) (scan : Scan H rd)
  | restatting (before : List S) (now : T) (v : V) (after : List S)
  | filling (before : List S) (v : V)
  | returned (v : V)

abbrev Cache (S V : Type) : Type :=
  Option (List S × V)

section Calls

variable {rd : Reader P C V}
variable (src : Source D P H C S T) (faulty : Prop) (watched : List P)

/-- One step of a call that leaves the files as they are. -/
inductive Phase.Step (d : D) :
    Cache S V → Phase H S T rd → Cache S V → Phase H S T rd → Prop where
  | stat {cache : Cache S V} {before : List S} {p : P}
      (hp : watched[before.length]? = some p) :
      Phase.Step d cache (.statting before) cache
        (.statting (before ++ [src.stamp d p]))
  | statFailed {cache : Cache S V} {before : List S} (hf : faulty) :
      Phase.Step d cache (.statting before) cache (.timing none)
  | statted {cache : Cache S V} {before : List S}
      (hall : before.length = watched.length) :
      Phase.Step d cache (.statting before) cache (.checking before)
  | hit {before : List S} {v : V} :
      Phase.Step d (some (before, v)) (.checking before) (some (before, v))
        (.returned v)
  | miss {cache : Cache S V} {before : List S}
      (hmiss : ∀ v, cache ≠ some (before, v)) :
      Phase.Step d cache (.checking before) cache (.timing (some before))
  | time {cache : Cache S V} {before : Option (List S)} :
      Phase.Step d cache (.timing before) cache
        (.reading before (src.clock d) (Scan.start rd))
  | observe {cache : Cache S V} {before : Option (List S)} {now : T}
      {s s' : Scan H rd} (ho : Observe src faulty d s s') :
      Phase.Step d cache (.reading before now s) cache (.reading before now s')
  | unkept {cache : Cache S V} {before : Option (List S)} {now : T}
      {s : Scan H rd} {v : V} {keep : Bool}
      (ha : rd.act s.state = .finish v keep)
      (hunkept : before = none ∨ keep = false) :
      Phase.Step d cache (.reading before now s) cache (.returned v)
  | finish {cache : Cache S V} {before : List S} {now : T} {s : Scan H rd}
      {v : V} (ha : rd.act s.state = .finish v true) :
      Phase.Step d cache (.reading (some before) now s) cache
        (.restatting before now v [])
  | restat {cache : Cache S V} {before after : List S} {now : T} {v : V} {p : P}
      (hp : watched[after.length]? = some p) :
      Phase.Step d cache (.restatting before now v after) cache
        (.restatting before now v (after ++ [src.stamp d p]))
  | restatFailed {cache : Cache S V} {before after : List S} {now : T} {v : V}
      (hf : faulty) :
      Phase.Step d cache (.restatting before now v after) cache (.returned v)
  | changed {cache : Cache S V} {before after : List S} {now : T} {v : V}
      (hall : after.length = watched.length)
      (hchanged : ¬(after = before ∧ ∀ s ∈ before, src.settled now s = true)) :
      Phase.Step d cache (.restatting before now v after) cache (.returned v)
  | unchanged {cache : Cache S V} {before : List S} {now : T} {v : V}
      (hall : before.length = watched.length)
      (hsettled : ∀ s ∈ before, src.settled now s = true) :
      Phase.Step d cache (.restatting before now v before) cache
        (.filling before v)
  | fill {cache : Cache S V} {before : List S} {v : V} :
      Phase.Step d cache (.filling before v) (some (before, v)) (.returned v)

/-- A call waits to write a file. -/
def Phase.Saves (p : P) (c : C) (phase phase' : Phase H S T rd) : Prop :=
  ∃ before now s, phase = .reading before now s ∧
    rd.act s.state = .save p c ∧ phase' = .reading before now s.saved

/-! ## What a call knows -/

/-- Stamps that were taken one after the other between two moments. -/
def Statted (h : List D) (b e : Nat) (stamps : List S) : Prop :=
  ∃ t : Nat → Nat, Monotone t ∧ b ≤ t 0 ∧ (∀ i, t i ≤ e) ∧
    ∀ i s, stamps[i]? = some s →
      ∃ p d, watched[i]? = some p ∧ h[t (i + 1)]? = some d ∧ src.stamp d p = s

/-- A value that the reader finished with between two moments. -/
def Found (h : List D) (b e : Nat) (rd : Reader P C V) (v : V) : Prop :=
  ∃ (s : Scan H rd) (keep : Bool), Reached src faulty h b e s ∧
    rd.act s.state = .finish v keep

/-- A value with the stamps that were there before and, up to the last moment,
after it was read. -/
structure Read (h : List D) (b e : Nat) (rd : Reader P C V)
    (before after : List S) (now : T) (v : V) : Prop where
  length : before.length = watched.length
  times : ∃ (n r : Nat) (d : D) (s : Scan H rd), b ≤ n ∧ r ≤ e ∧
    h[n]? = some d ∧ src.clock d = now ∧
    Statted src watched h b n before ∧ Reached src faulty h n r s ∧
    rd.act s.state = .finish v true ∧ Statted src watched h r e after

/-- What holds of a call that began with the state number `b`. -/
def Phase.Ok (h : List D) (b : Nat) : Phase H S T rd → Prop
  | .statting before => Statted src watched h b (h.length - 1) before
  | .checking before =>
      before.length = watched.length ∧
        Statted src watched h b (h.length - 1) before
  | .timing before => ∀ stamps, before = some stamps →
      stamps.length = watched.length ∧
        Statted src watched h b (h.length - 1) stamps
  | .reading before now s =>
      ∃ n d, b ≤ n ∧ h[n]? = some d ∧ src.clock d = now ∧
        Reached src faulty h n (h.length - 1) s ∧
        ∀ stamps, before = some stamps →
          stamps.length = watched.length ∧ Statted src watched h b n stamps
  | .restatting before now v after =>
      Read src faulty watched h b (h.length - 1) rd before after now v
  | .filling before v =>
      ∃ now, Read src faulty watched h b (h.length - 1) rd before before now
        v ∧ ∀ s ∈ before, src.settled now s = true
  | .returned v => Found src faulty h b (h.length - 1) rd v

/-- What holds of the cache: its value was read with settled stamps. -/
def CacheOk (h : List D) (rd : Reader P C V) (cache : Cache S V) : Prop :=
  ∀ stamps v, cache = some (stamps, v) →
    ∃ b now, Read src faulty watched h b (h.length - 1) rd stamps stamps now
      v ∧ ∀ s ∈ stamps, src.settled now s = true

/-- The reader keeps only what it found in the watched files, each opened once
and in their order. -/
def Keeps (rd : Reader P C V) : Prop :=
  ∀ (h : List D) (b i : Nat) (s : Scan H rd) (v : V),
    Reached src faulty h b i s → rd.act s.state = .finish v true →
    s.visits = watched.map some

section Later

variable {src faulty watched} {h : List D} {b e e' : Nat} {d : D}
  {stamps before after : List S} {now : T} {v : V}

theorem statted_nil (hbe : b ≤ e) : Statted src watched h b e [] := by
  refine ⟨fun _ => b, monotone_const, le_refl b, fun _ => hbe, ?_⟩
  intro i s hs
  simp at hs

theorem Statted.later (hstat : Statted src watched h b e stamps)
    (he : e ≤ e') : Statted src watched h b e' stamps := by
  obtain ⟨t, hmono, hb, hle, hstamps⟩ := hstat
  exact ⟨t, hmono, hb, fun i => (hle i).trans he, hstamps⟩

theorem Statted.append (hstat : Statted src watched h b e stamps) (d : D) :
    Statted src watched (h ++ [d]) b e stamps := by
  obtain ⟨t, hmono, hb, hle, hstamps⟩ := hstat
  refine ⟨t, hmono, hb, hle, ?_⟩
  intro i s hs
  obtain ⟨p, d', hp, hd', hstamp⟩ := hstamps i s hs
  refine ⟨p, d', hp, ?_, hstamp⟩
  rw [List.getElem?_append_left (List.getElem?_eq_some_iff.mp hd').1, hd']

/-- One more stamp that is taken now. -/
theorem Statted.snoc (hstat : Statted src watched h b e stamps) {p : P}
    (hp : watched[stamps.length]? = some p) (hd : h[e]? = some d) :
    Statted src watched h b e (stamps ++ [src.stamp d p]) := by
  obtain ⟨t, hmono, hb, hle, hstamps⟩ := hstat
  refine ⟨fun i => if i ≤ stamps.length then t i else e, ?_, ?_, ?_, ?_⟩
  · intro i j hij
    dsimp only
    split_ifs with hi hj
    · exact hmono hij
    · exact hle i
    · omega
    · exact le_refl e
  · simpa using hb
  · intro i
    dsimp only
    split_ifs
    · exact hle i
    · exact le_refl e
  · intro i s hs
    by_cases hi : i < stamps.length
    · rw [List.getElem?_append_left hi] at hs
      have hle' : i + 1 ≤ stamps.length := hi
      simp only [if_pos hle']
      exact hstamps i s hs
    · have hlt := (List.getElem?_eq_some_iff.mp hs).1
      rw [List.length_append, List.length_singleton] at hlt
      have hlast : i = stamps.length := by omega
      subst hlast
      rw [List.getElem?_append_right (le_refl _), Nat.sub_self,
        List.getElem?_cons_zero] at hs
      have hgt : ¬stamps.length + 1 ≤ stamps.length := by omega
      simp only [if_neg hgt]
      exact ⟨p, d, hp, hd, Option.some.inj hs⟩

theorem Found.append (hfound : Found src faulty h b e rd v) (d : D)
    (he : e ≤ e') : Found src faulty (h ++ [d]) b e' rd v := by
  obtain ⟨s, keep, hs, ha⟩ := hfound
  exact ⟨s, keep, (hs.append d).later he, ha⟩

theorem Read.append
    (hread : Read src faulty watched h b e rd before after now v) (d : D)
    (he : e ≤ e') :
    Read src faulty watched (h ++ [d]) b e' rd before after now v := by
  obtain ⟨n, r, a, s, hn, hr, ha, hnow, hbefore, hs, hact, hafter⟩ := hread.times
  refine ⟨hread.length, n, r, a, s, hn, hr.trans he, ?_, hnow, hbefore.append d,
    hs.append d, hact, (hafter.append d).later he⟩
  rw [List.getElem?_append_left (List.getElem?_eq_some_iff.mp ha).1, ha]

theorem Read.found
    (hread : Read src faulty watched h b e rd before after now v) :
    Found src faulty h b e rd v := by
  obtain ⟨n, r, a, s, hn, hr, -, -, -, hs, hact, -⟩ := hread.times
  exact ⟨s, true, (hs.from_earlier hn).later hr, hact⟩

theorem length_append_sub (h : List D) (d : D) :
    h.length - 1 ≤ (h ++ [d]).length - 1 := by
  rw [List.length_append]
  omega

/-- What is known of a call stays so when the files change. -/
theorem Phase.Ok.append {phase : Phase H S T rd}
    (hphase : phase.Ok src faulty watched h b) (d : D) :
    phase.Ok src faulty watched (h ++ [d]) b := by
  have hle := length_append_sub h d
  cases phase with
  | statting before => exact (Statted.append hphase d).later hle
  | checking before => exact ⟨hphase.1, (hphase.2.append d).later hle⟩
  | timing before =>
      intro stamps hstamps
      obtain ⟨hlength, hstat⟩ := hphase stamps hstamps
      exact ⟨hlength, (hstat.append d).later hle⟩
  | reading before now s =>
      obtain ⟨n, a, hn, ha, hnow, hs, hstat⟩ := hphase
      refine ⟨n, a, hn, ?_, hnow, (hs.append d).later hle, ?_⟩
      · rw [List.getElem?_append_left (List.getElem?_eq_some_iff.mp ha).1, ha]
      · intro stamps hstamps
        obtain ⟨hlength, hstat⟩ := hstat stamps hstamps
        exact ⟨hlength, hstat.append d⟩
  | restatting before now v after => exact Read.append hphase d hle
  | filling before v =>
      obtain ⟨now, hread, hsettled⟩ := hphase
      exact ⟨now, hread.append d hle, hsettled⟩
  | returned v => exact Found.append hphase d hle

theorem CacheOk.append {cache : Cache S V}
    (hcache : CacheOk src faulty watched h rd cache) (d : D) :
    CacheOk src faulty watched (h ++ [d]) rd cache := by
  intro stamps v hentry
  obtain ⟨b, now, hread, hsettled⟩ := hcache stamps v hentry
  exact ⟨b, now, hread.append d (length_append_sub h d), hsettled⟩

end Later

/-! ## What a call returns -/

section Steps

variable {src faulty watched} {h : List D} {b e : Nat} {d : D}
  {stamps : List S} {now : T} {v : V}

/-- A value that was read with settled stamps can be found between any two
moments at which these stamps were taken. -/
theorem Read.hit (hvalid : src.Valid h)
    (hkeeps : Keeps src faulty watched rd) {b' : Nat}
    (hread : Read src faulty watched h b' e rd stamps stamps now v)
    (hsettled : ∀ s ∈ stamps, src.settled now s = true)
    (hstat : Statted src watched h b e stamps) (he : e < h.length) :
    Found src faulty h b e rd v := by
  obtain ⟨n, r, a, s, -, hr, ha, hnow, hbefore, hs, hact, hafter⟩ := hread.times
  obtain ⟨t0, -, -, ht0, hstamps0⟩ := hbefore
  obtain ⟨t2, hmono2, hr2, ht2, hstamps2⟩ := hafter
  obtain ⟨t, hmono, hb, ht, hstamps⟩ := hstat
  have hnr := hs.le
  -- from the clock on, every stamp is one that was seen and is settled
  have hold : ∀ (i : Nat) (p : P), watched[i]? = some p →
      ∃ st : S, stamps[i]? = some st ∧ ∀ (j : Nat) (d' : D), n ≤ j →
        h[j]? = some d' →
        src.Seen d' p st ∧ src.settled (src.clock d') st = true := by
    intro i p hp
    have hi : i < stamps.length := by
      rw [hread.length]
      exact (List.getElem?_eq_some_iff.mp hp).1
    have hst : stamps[i]? = some stamps[i] := List.getElem?_eq_getElem hi
    refine ⟨stamps[i], hst, ?_⟩
    intro j d' hnj hd'
    obtain ⟨p', d0, hp', hd0, hstamp0⟩ := hstamps0 i _ hst
    rw [hp] at hp'
    obtain rfl := Option.some.inj hp'
    have hseen := src.seen_stamp d0 p
    rw [hstamp0] at hseen
    have hclock := hsettled _ (List.getElem_mem hi)
    rw [← hnow] at hclock
    exact ⟨hvalid.later (fun hstep hq => src.seen_step hstep hq)
        ((ht0 (i + 1)).trans hnj) hd0 hd' hseen,
      hvalid.later (Q := fun x => src.settled (src.clock x) stamps[i] = true)
        (fun hstep hq => src.settled_step hstep hq) hnj ha hd' hclock⟩
  -- where the stamp is there again, the file is that of this moment
  have hsame : ∀ (i : Nat) (p : P) (st : S),
      watched[i]? = some p → stamps[i]? = some st →
      ∀ j d', n ≤ j → h[j]? = some d' → src.stamp d' p = st →
        src.file d' p = src.file a p := by
    intro i p st hp hst j d' hnj hd' hstamp
    obtain ⟨st', hst', hfacts⟩ := hold i p hp
    rw [hst] at hst'
    obtain rfl := Option.some.inj hst'
    obtain ⟨hseen, hclock⟩ := hfacts n a (le_refl n) ha
    exact (hvalid.stays hnj ha hd' hseen hclock hstamp).2
  -- the second stamps show that the files stayed while they were read
  have hconst : ∀ i p, watched[i]? = some p → ∀ j d', n ≤ j →
      j ≤ t2 (i + 1) → h[j]? = some d' → src.file d' p = src.file a p := by
    intro i p hp j d' hnj hj hd'
    obtain ⟨st, hst, hfacts⟩ := hold i p hp
    obtain ⟨p2, d2, hp2, hd2, hstamp2⟩ := hstamps2 i st hst
    rw [hp] at hp2
    obtain rfl := Option.some.inj hp2
    obtain ⟨hseen, hclock⟩ := hfacts j d' hnj hd'
    exact hsame i p st hp hst j d' hnj hd'
      (hvalid.stays hj hd' hd2 hseen hclock hstamp2).1
  have hvisits := hkeeps h n r s v hs hact
  have hfollows := (hs.follows (src.file a) (by simp [hvisits]) (by
    intro p hp j d' hnj hjr hd'
    rw [hvisits, List.mem_map] at hp
    obtain ⟨p', hmem, hp'⟩ := hp
    obtain rfl := Option.some.inj hp'
    obtain ⟨i, hi⟩ := List.mem_iff_getElem?.mp hmem
    have hj : j ≤ t2 (i + 1) :=
      hjr.trans (hr2.trans (hmono2 (Nat.zero_le _)))
    exact hconst i p' hi j d' hnj hj hd')).1
  have hwatched : s.visits = (watched.take watched.length).map some := by
    rw [List.take_length]
    exact hvisits
  -- the stamps of the call are taken after the clock, or else the second ones
  -- of the reader are taken during the call
  by_cases hlate : n ≤ t 0
  · have hreached := hfollows.reached (b := b) hwatched (le_refl _) hb hmono
      (fun i => lt_of_le_of_lt (ht i) he) (by
        intro i p hp
        obtain ⟨st, hst, -⟩ := hold i p hp
        obtain ⟨p', d', hp', hd', hstamp⟩ := hstamps i st hst
        rw [hp] at hp'
        obtain rfl := Option.some.inj hp'
        exact ⟨d', hd', hsame i p st hp hst _ d'
          (hlate.trans (hmono (Nat.zero_le _))) hd' hstamp⟩)
    exact ⟨s, true, hreached.later (ht _), hact⟩
  · have hb2 : b ≤ t2 0 := by omega
    have hreached := hfollows.reached (b := b) hwatched (le_refl _) hb2 hmono2
      (fun i => lt_of_le_of_lt (ht2 i) he) (by
        intro i p hp
        obtain ⟨st, hst, -⟩ := hold i p hp
        obtain ⟨p', d', hp', hd', hstamp⟩ := hstamps2 i st hst
        rw [hp] at hp'
        obtain rfl := Option.some.inj hp'
        have hn2 : n ≤ t2 (i + 1) :=
          hnr.trans (hr2.trans (hmono2 (Nat.zero_le _)))
        exact ⟨d', hd', hsame i p st hp hst _ d' hn2 hd' hstamp⟩)
    exact ⟨s, true, hreached.later (ht2 _), hact⟩

/-- A step of a call keeps what is known of it and of the cache. -/
theorem Phase.Step.ok (hvalid : src.Valid h)
    (hkeeps : Keeps src faulty watched rd) (hd : h[h.length - 1]? = some d)
    {cache cache' : Cache S V} {phase phase' : Phase H S T rd}
    (hstep : Phase.Step src faulty watched d cache phase cache' phase')
    (hb : b ≤ h.length - 1)
    (hphase : phase.Ok src faulty watched h b)
    (hcache : CacheOk src faulty watched h rd cache) :
    phase'.Ok src faulty watched h b ∧
      CacheOk src faulty watched h rd cache' := by
  have hlast : h.length - 1 < h.length :=
    (List.getElem?_eq_some_iff.mp hd).1
  cases hstep with
  | stat hp => exact ⟨Statted.snoc hphase hp hd, hcache⟩
  | statFailed hf =>
      refine ⟨?_, hcache⟩
      rintro stamps ⟨⟩
  | statted hall => exact ⟨⟨hall, hphase⟩, hcache⟩
  | @hit before v =>
      obtain ⟨b', now, hread, hsettled⟩ := hcache before v rfl
      exact ⟨hread.hit hvalid hkeeps hsettled hphase.2 hlast, hcache⟩
  | miss hmiss =>
      refine ⟨?_, hcache⟩
      rintro stamps ⟨⟩
      exact hphase
  | time =>
      refine ⟨⟨h.length - 1, d, hb, hd, rfl, .start, ?_⟩, hcache⟩
      intro stamps hstamps
      exact hphase stamps hstamps
  | observe ho =>
      obtain ⟨n, a, hn, ha, hnow, hs, hstat⟩ := hphase
      exact ⟨⟨n, a, hn, ha, hnow, hs.observe hd ho, hstat⟩, hcache⟩
  | unkept hact hunkept =>
      obtain ⟨n, a, hn, ha, hnow, hs, hstat⟩ := hphase
      exact ⟨⟨_, _, hs.from_earlier hn, hact⟩, hcache⟩
  | finish hact =>
      obtain ⟨n, a, hn, ha, hnow, hs, hstat⟩ := hphase
      obtain ⟨hlength, hstat⟩ := hstat _ rfl
      exact ⟨⟨hlength, n, _, a, _, hn, le_refl _, ha, hnow, hstat, hs, hact,
        statted_nil (le_refl _)⟩, hcache⟩
  | restat hp =>
      obtain ⟨hlength, n, r, a, s, hn, hr, ha, hnow, hstat, hs, hact, hafter⟩ :=
        hphase
      exact ⟨⟨hlength, n, r, a, s, hn, hr, ha, hnow, hstat, hs, hact,
        hafter.snoc hp hd⟩, hcache⟩
  | restatFailed hf => exact ⟨Read.found hphase, hcache⟩
  | changed hall hchanged => exact ⟨Read.found hphase, hcache⟩
  | unchanged hall hsettled => exact ⟨⟨_, hphase, hsettled⟩, hcache⟩
  | fill =>
      obtain ⟨now, hread, hsettled⟩ := hphase
      refine ⟨hread.found, ?_⟩
      intro stamps v hentry
      obtain ⟨rfl, rfl⟩ := Prod.mk.inj (Option.some.inj hentry)
      exact ⟨b, now, hread, hsettled⟩

/-- A call that writes a file goes on behind it. -/
theorem Phase.Saves.ok {phase phase' : Phase H S T rd} {p : P} {c : C}
    (hsaves : phase.Saves p c phase')
    (hphase : phase.Ok src faulty watched h b) :
    phase'.Ok src faulty watched h b := by
  obtain ⟨before, now, s, rfl, hact, rfl⟩ := hsaves
  obtain ⟨n, a, hn, ha, hnow, hs, hstat⟩ := hphase
  exact ⟨n, a, hn, ha, hnow, hs.saved hact, hstat⟩

end Steps

end Calls

end ValidatedCache
