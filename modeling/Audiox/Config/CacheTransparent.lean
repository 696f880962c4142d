import Audiox.Config.CachedReads
import Mathlib

/-!
# The caches of the configuration are transparent

A settled stamp does not come back to a path, so the files are a source for
the checked caches.  Whatever readers and writers do, a call returns what an
uncached reader finds while the call lasts.
-/

namespace Audiox.Config

open ByteCodec ValidatedCache

/-! ## Stamps that do not come back -/

/-- A path has had the file with the stamp. -/
def SeenAt (disk : Disk) (path : ConfigPath)
    (stamp : Option ConfigFileStamp) : Prop :=
  ∀ s ∈ stamp, (s.dev, s.ino) ∈ disk.past path

theorem not_settled_of_recent {clock : Int} {stamp : ConfigFileStamp}
    (h : Recent clock stamp.mtime ∨ Recent clock stamp.ctime) :
    configFileStampSettled (seconds clock) (some stamp) = false := by
  have hyoung : ∀ time : Int × Nat, Recent clock time →
      seconds clock - time.1 < kGranularitySec := by
    rintro ⟨s, n⟩ ⟨hn, hle, hlt⟩
    simp only [nanoseconds, seconds, kGranularitySec] at *
    omega
  rw [configFileStampSettled, Bool.and_eq_false_iff, decide_eq_false_iff_not,
    decide_eq_false_iff_not, ge_iff_le, ge_iff_le, not_le, not_le]
  exact h.imp (hyoung _) (hyoung _)

theorem seconds_mono {clock clock' : Int} (h : clock ≤ clock') :
    seconds clock ≤ seconds clock' :=
  Int.ediv_le_ediv (by decide) h

theorem settled_later {stamp : Option ConfigFileStamp} {t t' : Int}
    (hle : t ≤ t') (h : configFileStampSettled t stamp = true) :
    configFileStampSettled t' stamp = true := by
  cases stamp with
  | none => rfl
  | some stamp =>
      simp only [configFileStampSettled, Bool.and_eq_true,
        decide_eq_true_eq] at h ⊢
      omega

theorem DiskStep.clock_le {disk disk' : Disk} (h : DiskStep disk disk') :
    disk.clock ≤ disk'.clock := by
  cases h with
  | tick h => exact h
  | write _ => exact le_refl _
  | place _ => exact le_refl _

theorem DiskStep.past_subset {disk disk' : Disk} (h : DiskStep disk disk')
    (path : ConfigPath) : disk.past path ⊆ disk'.past path := by
  cases h with
  | tick _ => exact List.Subset.refl _
  | write _ => exact List.Subset.refl _
  | @place path' inode _ =>
      by_cases hpath : path = path'
      · subst hpath
        simp [Disk.place]
      · simp [Disk.place, hpath]

/-- The file that a reader finds at a path. -/
def Disk.found (disk : Disk) (path : ConfigPath) : Option (Inode × Bytes) :=
  (disk.node path).map fun inode => (inode, (disk.body inode).content)

/-- A settled stamp that was seen and is there after a step was there before,
with the same file. -/
theorem DiskStep.stays {disk disk' : Disk} (h : DiskStep disk disk')
    {path : ConfigPath} {stamp : Option ConfigFileStamp}
    (hseen : SeenAt disk path stamp)
    (hsettled : configFileStampSettled (seconds disk.clock) stamp = true)
    (hstamp : disk'.configFileStamp path = stamp) :
    disk.configFileStamp path = stamp ∧
      disk'.found path = disk.found path := by
  cases h with
  | tick _ => exact ⟨hstamp, rfl⟩
  | @write inode body hcurrent =>
      by_cases hnode : disk.node path = some inode
      · have hyoung := hcurrent ⟨path, hnode⟩
        have hnew : stamp = some ((disk.write inode body).stampOf inode) := by
          rw [← hstamp, Disk.configFileStamp]
          exact congrArg (Option.map _) hnode
        rw [hnew, not_settled_of_recent] at hsettled
        · cases hsettled
        · simpa [Disk.stampOf, Disk.write, FileBody.Current] using hyoung
      · have hother : ∀ inode' ∈ disk.node path, inode' ≠ inode := by
          rintro inode' hinode rfl
          exact hnode hinode
        constructor
        · rw [← hstamp]
          apply Option.map_congr
          intro inode' hinode
          simp [Disk.stampOf, Disk.write, hother inode' hinode]
        · apply Option.map_congr
          intro inode' hinode
          simp [Disk.write, hother inode' hinode]
  | @place path' inode hfresh =>
      by_cases hpath : path = path'
      · subst hpath
        have hnew : stamp = some (disk.stampOf inode) := by
          rw [← hstamp, Disk.configFileStamp, Disk.place]
          simp only [Function.update_self, Option.map_some]
          rfl
        rcases hfresh with hfresh | hcurrent
        · exact absurd (hseen _ hnew) hfresh
        · rw [hnew, not_settled_of_recent] at hsettled
          · cases hsettled
          · exact hcurrent
      · have hnode : (disk.place path' inode).node path = disk.node path := by
          simp [Disk.place, hpath]
        constructor
        · rw [← hstamp, Disk.configFileStamp, Disk.configFileStamp, hnode]
          rfl
        · rw [Disk.found, Disk.found, hnode]
          rfl

/-- The files of the configuration. -/
def configSource :
    Source Disk ConfigPath Inode Bytes (Option ConfigFileStamp) Int where
  step := DiskStep
  clock := Disk.clock
  stamp := Disk.configFileStamp
  openAt := Disk.node
  readAt := fun disk inode => (disk.body inode).content
  save := Saves
  Seen := SeenAt
  settled := fun now stamp => configFileStampSettled (seconds now) stamp
  save_step := fun h => h.1
  seen_stamp := by
    intro disk path s hs
    obtain ⟨inode, hinode, rfl⟩ := Option.map_eq_some_iff.mp hs
    exact disk.known path inode hinode
  seen_step := fun h hseen s hs => h.past_subset _ (hseen s hs)
  settled_step := fun h hsettled =>
    settled_later (seconds_mono h.clock_le) hsettled
  stays := fun h hseen hsettled hstamp => h.stays hseen hsettled hstamp

/-! ## What the readers keep -/

variable {nightly : Bool} {blockSize : Nat} {faulty : Prop} {M : Type}
  {format : MidiFormat M}

/-- Which files the reader of the configuration has visited. -/
def ConfigLoad.visits : ConfigLoad → List (Option ConfigPath)
  | .opening => []
  | _ => [some .config]

theorem configReader_visits {h : List Disk} {b i : Nat}
    {s : Scan Inode (configReader nightly blockSize)}
    (hs : Reached configSource faulty h b i s) :
    s.visits = ConfigLoad.visits s.state := by
  refine hs.invariant (I := fun visits state =>
    visits = ConfigLoad.visits state) rfl ?_ ?_ ?_
  · rintro visits (_ | taken | cfg) p ⟨⟩ rfl
    refine ⟨?_, rfl⟩
    rintro (_ | _) <;> rfl
  · rintro visits (_ | taken | cfg) ⟨⟩ rfl
    refine ⟨?_, rfl⟩
    intro content
    simp only [configReader, ConfigLoad.got]
    split_ifs <;> rfl
  · rintro visits (_ | taken | cfg) p c ⟨⟩

theorem configReader_keeps :
    Keeps configSource faulty configWatched (configReader nightly blockSize) := by
  intro h b i s v hs ha
  rw [configReader_visits hs]
  obtain ⟨handle, visits, _ | taken | cfg⟩ := s
  · cases ha
  · cases ha
  · rfl

/-- What the reader of the MIDI map has visited where it may keep the map. -/
def MidiLoad.Visits (visits : List (Option ConfigPath)) : MidiLoad M → Prop
  | .openMap => visits = []
  | .readMap _ => visits = [some .midiMap]
  | .openFx _ keep => keep = true → visits = [some .midiMap]
  | .readFx _ keep _ =>
      keep = true → visits = [some .midiMap, some .fxParams]
  | .loaded _ keep => keep = true → visits = [some .midiMap, some .fxParams]
  | _ => True

theorem MidiLoad.visits_migrate (visits : List (Option ConfigPath)) (data : M)
    (texts : List Bytes) :
    MidiLoad.Visits visits (MidiLoad.migrate data texts) := by
  cases texts with
  | nil => rintro ⟨⟩
  | cons text texts => trivial

theorem midiReader_visits {h : List Disk} {b i : Nat}
    {s : Scan Inode (midiReader format)}
    (hs : Reached configSource faulty h b i s) :
    MidiLoad.Visits s.visits s.state := by
  refine hs.invariant (I := MidiLoad.Visits) rfl ?_ ?_ ?_
  · intro visits state p ha hvisits
    cases state with
    | openMap =>
        obtain rfl : visits = [] := hvisits
        cases ha
        refine ⟨?_, ?_⟩
        · rintro (_ | _)
          · trivial
          · rfl
        · rintro ⟨⟩
    | openOld =>
        refine ⟨?_, MidiLoad.visits_migrate _ _ _⟩
        rintro (_ | _)
        · exact MidiLoad.visits_migrate _ _ _
        · trivial
    | openFx data keep =>
        cases ha
        have hboth : keep = true → visits ++ [some ConfigPath.fxParams] =
            [some .midiMap, some .fxParams] := by
          intro hkeep
          rw [hvisits hkeep]
          rfl
        refine ⟨?_, hboth⟩
        rintro (_ | _)
        · exact hboth
        · exact hboth
    | readMap looks => cases ha
    | readOld looks => cases ha
    | writeMap data text texts => cases ha
    | readFx data keep looks => cases ha
    | loaded data keep => cases ha
  · intro visits state ha hvisits
    cases state with
    | readMap looks =>
        refine ⟨?_, ?_⟩
        · intro content
          simp only [midiReader, MidiLoad.got]
          split_ifs
          · exact hvisits
          · unfold MidiLoad.mapRead
            cases format.mapData (looks ++ [content]) with
            | none => rintro ⟨⟩
            | some data => exact fun _ => hvisits
        · rintro ⟨⟩
    | readOld looks =>
        refine ⟨?_, MidiLoad.visits_migrate _ _ _⟩
        intro content
        simp only [midiReader, MidiLoad.got]
        split_ifs
        · trivial
        · exact MidiLoad.visits_migrate _ _ _
    | readFx data keep looks =>
        refine ⟨?_, hvisits⟩
        intro content
        simp only [midiReader, MidiLoad.got]
        split_ifs
        · exact hvisits
        · exact hvisits
    | openMap => cases ha
    | openOld => cases ha
    | writeMap data text texts => cases ha
    | openFx data keep => cases ha
    | loaded data keep => cases ha
  · intro visits state p c ha _
    cases state with
    | writeMap data text texts => exact MidiLoad.visits_migrate _ _ _
    | openMap => cases ha
    | readMap looks => cases ha
    | openOld => cases ha
    | readOld looks => cases ha
    | openFx data keep => cases ha
    | readFx data keep looks => cases ha
    | loaded data keep => cases ha

theorem midiReader_keeps :
    Keeps configSource faulty midiWatched (midiReader format) := by
  intro h b i s v hs ha
  have hvisits := midiReader_visits hs
  obtain ⟨handle, visits, state⟩ := s
  cases state with
  | loaded data keep =>
      obtain ⟨rfl, rfl⟩ := Act.finish.inj ha
      exact hvisits rfl
  | openMap => cases ha
  | readMap looks => cases ha
  | openOld => cases ha
  | readOld looks => cases ha
  | writeMap data text texts => cases ha
  | openFx data keep => cases ha
  | readFx data keep looks => cases ha

end Audiox.Config
