import Audiox.Support.Runs
import Mathlib

/-!
# The volumes of the routing graph

A volume is kept twice: by the id of a thing in `thingGains`, and by the index
of its node in `nodeGainAtomics`, which the audio thread reads.  A call of
`setThingGain` writes the two under different locks.  Adoption of a graph
stores every gain again, first the default without a lock and then the known
gains under the lock of `thingGains`.
-/

namespace Audiox.Gains

open Runs

def AUDIO_GRAPH_MAX_THINGS : Nat := 64

/-- What a published graph says about gains: the id of each node.  `serial`
counts the publications. -/
structure Graph where
  serial : Nat
  things : List String
  fits : things.length ≤ AUDIO_GRAPH_MAX_THINGS
deriving DecidableEq

def Graph.generation (g : Graph) : UInt32 := UInt32.ofNat g.serial

def Graph.none : Graph where
  serial := 0
  things := []
  fits := Nat.zero_le _

/-- Where the audio thread is in `snapshotGainsForGraph`.  It holds the lock of
`thingGains` while it is applying. -/
inductive Adoption where
  | idle
  | resetting (next : Nat)
  | applying (next : Nat)
deriving DecidableEq

/-- A call of `setThingGain` between its two lock regions. -/
structure Call where
  thingId : String
  gain : ℚ
deriving DecidableEq

structure State where
  thingGains : String → Option ℚ
  nodeGainAtomics : Nat → ℚ
  published : Graph
  fresh : Bool
  runtime : Graph
  adoption : Adoption
  calls : List Call

/-- Before the first graph, with the gains read from the configuration. -/
def start (volumes : String → Option ℚ) : State where
  thingGains := volumes
  nodeGainAtomics _ := 1
  published := .none
  fresh := false
  runtime := .none
  adoption := .idle
  calls := []

/-- A gain of a call is `none` where it is not a finite number. -/
inductive Event where
  | setThingGain (thingId : String) (gain : Option ℚ)
  | storeGain (call : Call)
  | publishRoutingGraph (things : List String)
      (fits : things.length ≤ AUDIO_GRAPH_MAX_THINGS)
  | consume
  | snapshotGains

def clampGain (gain : ℚ) : ℚ :=
  if gain < 0 then 0 else if 2 < gain then 2 else gain

/-- The first region of a call, and the checks before it. -/
def setThingGain (s : State) (thingId : String) :
    Option ℚ → Option State
  | none => some s
  | some gain =>
      if thingId = "" then some s
      else
        match s.adoption with
        | .applying _ => none
        | _ =>
            some { s with
              thingGains := Function.update s.thingGains thingId
                (some (clampGain gain))
              calls := s.calls ++ [⟨thingId, clampGain gain⟩] }

def storeAt (gains : Nat → ℚ) (index : Option Nat) (gain : ℚ) : Nat → ℚ :=
  match index with
  | some i => Function.update gains i gain
  | none => gains

@[simp]
theorem storeAt_self (gains : Nat → ℚ) (i : Nat) (gain : ℚ) :
    storeAt gains (some i) gain i = gain := by
  rw [storeAt, Function.update_self]

theorem storeAt_of_ne {gains : Nat → ℚ} {index : Option Nat} {gain : ℚ}
    {i : Nat} (h : index ≠ some i) : storeAt gains index gain i = gains i := by
  cases index with
  | none => rfl
  | some j => exact Function.update_of_ne (fun heq => h (by rw [heq])) _ _

/-- The second region: the store to the first node of the published graph
that has the id. -/
def storeGain (s : State) (call : Call) : Option State :=
  if call ∈ s.calls then
    some { s with
      nodeGainAtomics := storeAt s.nodeGainAtomics
        (s.published.things.idxOf? call.thingId) call.gain
      calls := s.calls.erase call }
  else none

def publishRoutingGraph (s : State) (things : List String)
    (fits : things.length ≤ AUDIO_GRAPH_MAX_THINGS) : State :=
  { s with
    published := ⟨s.published.serial + 1, things, fits⟩
    fresh := true }

/-- The audio thread looks for a graph before a block.  It adopts one only
with a generation other than that of its own. -/
def consume (s : State) : Option State :=
  match s.adoption with
  | .idle =>
      if s.fresh ∨ s.runtime.generation = 0 then
        if s.published.generation = s.runtime.generation then
          some { s with fresh := false }
        else
          some { s with
            fresh := false
            runtime := s.published
            adoption := .resetting 0 }
      else some s
  | _ => none

def storeKnown (gains : Nat → ℚ) (i : Nat) (known : Option ℚ) : Nat → ℚ :=
  match known with
  | some gain => Function.update gains i gain
  | none => gains

theorem storeKnown_self (gains : Nat → ℚ) (i : Nat) (known : Option ℚ) :
    storeKnown gains i known i = known.getD (gains i) := by
  cases known with
  | none => rfl
  | some gain => exact Function.update_self i gain gains

theorem storeKnown_of_ne {gains : Nat → ℚ} {i k : Nat} {known : Option ℚ}
    (h : i ≠ k) : storeKnown gains k known i = gains i := by
  cases known with
  | none => rfl
  | some gain => exact Function.update_of_ne h gain gains

/-- The next store of `snapshotGainsForGraph`. -/
def snapshotGains (s : State) : Option State :=
  match s.adoption with
  | .idle => none
  | .resetting k =>
      if k < AUDIO_GRAPH_MAX_THINGS then
        some { s with
          nodeGainAtomics := Function.update s.nodeGainAtomics k 1
          adoption := .resetting (k + 1) }
      else some { s with adoption := .applying 0 }
  | .applying k =>
      match s.runtime.things[k]? with
      | some thingId =>
          some { s with
            nodeGainAtomics :=
              storeKnown s.nodeGainAtomics k (s.thingGains thingId)
            adoption := .applying (k + 1) }
      | none => some { s with adoption := .idle }

def step (s : State) : Event → Option State
  | .setThingGain thingId gain => setThingGain s thingId gain
  | .storeGain call => storeGain s call
  | .publishRoutingGraph things fits =>
      some (publishRoutingGraph s things fits)
  | .consume => consume s
  | .snapshotGains => snapshotGains s

/-- All calls have returned and the last published graph has been adopted. -/
def Quiet (s : State) : Prop :=
  s.calls = [] ∧ s.adoption = .idle ∧ s.runtime = s.published

instance (s : State) : Decidable (Quiet s) :=
  inferInstanceAs (Decidable (_ ∧ _))

/-- Every node of the published graph plays at the volume of its id. -/
def Agrees (s : State) : Prop :=
  ∀ i thingId, s.published.things[i]? = some thingId →
    s.nodeGainAtomics i = (s.thingGains thingId).getD 1

/-! ## When the two stay together -/

/-- The adoption has stored the gain of node `i`. -/
def Adoption.Stored : Adoption → Nat → Prop
  | .idle, _ => True
  | .resetting _, _ => False
  | .applying k, i => i < k

instance : ∀ (a : Adoption) (i : Nat), Decidable (a.Stored i)
  | .idle, _ => .isTrue trivial
  | .resetting _, _ => .isFalse id
  | .applying k, i => inferInstanceAs (Decidable (i < k))

/-- The store to node `i` by the adoption of the published graph is done. -/
def Applied (s : State) (i : Nat) : Prop :=
  s.runtime.serial = s.published.serial ∧ s.adoption.Stored i

/-- The last gain of a thing is the stored one, or that of a call that is
still to store it. -/
def Fresh (s : State) (call : Call) : Prop :=
  s.thingGains call.thingId = some call.gain ∨
    ∃ later ∈ s.calls.erase call, later.thingId = call.thingId ∧
      s.thingGains call.thingId = some later.gain

/-- The condition on a step.  A volume is not given to an id that several nodes
of the adopted graph have; and no call stores a gain that another call has
replaced in `thingGains` and has stored already, where the adoption does not
store the node again. -/
def Careful (s : State) : Event → Prop
  | .setThingGain thingId gain =>
      gain ≠ none ∧ thingId ≠ "" ∧ Applied s 0 →
        s.published.things.count thingId ≤ 1
  | .storeGain call =>
      ∀ i ∈ s.published.things.idxOf? call.thingId,
        Applied s i → Fresh s call
  | _ => True

instance (s : State) (i : Nat) : Decidable (Applied s i) :=
  inferInstanceAs (Decidable (_ ∧ _))

instance (s : State) (call : Call) : Decidable (Fresh s call) :=
  inferInstanceAs (Decidable (_ ∨ _))

instance (s : State) : ∀ e, Decidable (Careful s e)
  | .setThingGain _ _ => inferInstanceAs (Decidable (_ → _))
  | .storeGain _ => inferInstanceAs (Decidable (∀ _ ∈ _, _))
  | .publishRoutingGraph _ _ => .isTrue trivial
  | .consume => .isTrue trivial
  | .snapshotGains => .isTrue trivial

/-- Node `i` plays at the volume of its id, or a call will see to it. -/
def Settled (s : State) (i : Nat) (thingId : String) : Prop :=
  s.nodeGainAtomics i = (s.thingGains thingId).getD 1 ∨
    ∃ call ∈ s.calls, call.thingId = thingId ∧
      s.thingGains thingId = some call.gain ∧
      s.published.things.idxOf? thingId = some i

/-- Node `i` has its default again, and its gain has not been read yet. -/
def Cleared (s : State) (i : Nat) : Prop :=
  match s.adoption with
  | .idle => False
  | .resetting k => i < k
  | .applying k => k ≤ i

structure Inv (s : State) : Prop where
  serial_le : s.runtime.serial ≤ s.published.serial
  same : s.runtime.serial = s.published.serial → s.runtime = s.published
  known : ∀ call ∈ s.calls, s.thingGains call.thingId ≠ none
  settled : ∀ i thingId, s.published.things[i]? = some thingId →
    Applied s i → Settled s i thingId
  cleared : ∀ i thingId, s.published.things[i]? = some thingId →
    s.runtime = s.published → Cleared s i →
    s.thingGains thingId = none → s.nodeGainAtomics i = 1

theorem idxOf?_of_unique {things : List String} {thingId : String} {i : Nat}
    (hi : things[i]? = some thingId) (hcount : things.count thingId ≤ 1) :
    things.idxOf? thingId = some i := by
  induction things generalizing i with
  | nil => simp at hi
  | cons head rest ih =>
      rw [List.idxOf?_cons]
      by_cases hhead : head = thingId
      · subst hhead
        have hrest : head ∉ rest := by
          rw [List.count_cons_self] at hcount
          exact List.count_eq_zero.mp (by omega)
        have hzero : i = 0 := by
          by_contra hne
          obtain ⟨j, rfl⟩ := Nat.exists_eq_succ_of_ne_zero hne
          exact hrest (List.mem_of_getElem? (by simpa using hi))
        simp [hzero]
      · rw [List.count_cons_of_ne hhead] at hcount
        cases i with
        | zero => exact absurd (Option.some.inj hi) hhead
        | succ j => simp [hhead, ih (by simpa using hi) hcount]

theorem getElem?_of_idxOf? {things : List String} {thingId : String} {i : Nat}
    (h : things.idxOf? thingId = some i) : things[i]? = some thingId := by
  obtain ⟨hi, heq, _⟩ := List.idxOf?_eq_some_iff.mp h
  rw [List.getElem?_eq_getElem hi, heq]

theorem inv_start (volumes : String → Option ℚ) : Inv (start volumes) where
  serial_le := Nat.le_refl _
  same _ := rfl
  known _ h := by simp [start] at h
  settled _ _ h := by simp [start, Graph.none] at h
  cleared _ _ h := by simp [start, Graph.none] at h

/-! ## What one step keeps -/

section Steps

variable {s s' : State}

/-- What the first region of a call does. -/
def recorded (s : State) (call : Call) : State :=
  { s with
    thingGains := Function.update s.thingGains call.thingId (some call.gain)
    calls := s.calls ++ [call] }

theorem setThingGain_cases {thingId : String} {gain : Option ℚ}
    (h : setThingGain s thingId gain = some s') :
    s' = s ∨ ∃ call : Call, call.thingId = thingId ∧
      gain ≠ none ∧ thingId ≠ "" ∧
      (∀ k, s.adoption ≠ .applying k) ∧ s' = recorded s call := by
  cases gain with
  | none => exact .inl (Option.some.inj h).symm
  | some gain =>
      by_cases hempty : thingId = ""
      · rw [setThingGain, if_pos hempty] at h
        exact .inl (Option.some.inj h).symm
      · rw [setThingGain, if_neg hempty] at h
        split at h
        · simp at h
        · rename_i hfree
          exact .inr ⟨⟨thingId, _⟩, rfl, by simp, hempty, hfree,
            (Option.some.inj h).symm⟩

theorem applied_zero (hfree : ∀ k, s.adoption ≠ .applying k) {i : Nat}
    (h : Applied s i) : Applied s 0 := by
  obtain ⟨hserial, hdone⟩ := h
  refine ⟨hserial, ?_⟩
  cases hadopt : s.adoption with
  | idle => trivial
  | resetting _ => rw [hadopt] at hdone; exact hdone
  | applying k => exact absurd hadopt (hfree k)

/-- A new volume: the call that sets it is still to store it. -/
theorem inv_recorded {call : Call}
    (hfree : ∀ k, s.adoption ≠ .applying k)
    (hcare : Applied s 0 → s.published.things.count call.thingId ≤ 1)
    (hinv : Inv s) : Inv (recorded s call) where
  serial_le := hinv.serial_le
  same := hinv.same
  known := by
    intro c hc
    by_cases heq : c.thingId = call.thingId
    · simp [recorded, heq]
    · have hold : c ∈ s.calls := by
        rcases List.mem_append.mp hc with hold | hnew
        · exact hold
        · rw [List.mem_singleton.mp hnew] at heq
          exact absurd rfl heq
      simpa [recorded, Function.update_of_ne heq] using hinv.known c hold
  settled := by
    intro i thingId hi happ
    by_cases heq : thingId = call.thingId
    · subst heq
      right
      refine ⟨call, by simp [recorded], rfl, by simp [recorded], ?_⟩
      exact idxOf?_of_unique hi (hcare (applied_zero hfree happ))
    · rw [Settled, recorded]
      simp only [Function.update_of_ne heq]
      rcases hinv.settled i thingId hi happ with hold | ⟨c, hc, hrest⟩
      · exact .inl hold
      · exact .inr ⟨c, List.mem_append_left _ hc, hrest⟩
  cleared := by
    intro i thingId hi hrun hclear hnone
    by_cases heq : thingId = call.thingId
    · simp [recorded, heq] at hnone
    · simp only [recorded, Function.update_of_ne heq] at hnone
      exact hinv.cleared i thingId hi hrun hclear hnone

/-- A store, by the first node of the id. -/
theorem inv_storeGain {call : Call} (h : storeGain s call = some s')
    (hcare : Careful s (.storeGain call)) (hinv : Inv s) : Inv s' := by
  rw [storeGain] at h
  split at h
  case isFalse => simp at h
  case isTrue hmem =>
    obtain rfl := Option.some.inj h
    constructor
    · exact hinv.serial_le
    · exact hinv.same
    · exact fun c hc => hinv.known c (List.mem_of_mem_erase hc)
    · intro i thingId hi happ
      by_cases hfirst : s.published.things.idxOf? call.thingId = some i
      · have heq : call.thingId = thingId := by
          have hcall := getElem?_of_idxOf? hfirst
          rw [hi] at hcall
          exact (Option.some.inj hcall).symm
        subst heq
        rcases hcare i hfirst happ with hlast | ⟨later, hlater, hid, hgain⟩
        · left
          simp only [hfirst, storeAt_self, hlast, Option.getD_some]
        · right
          exact ⟨later, hlater, hid, hgain, hfirst⟩
      · rcases hinv.settled i thingId hi happ with hold | ⟨c, hc, hid, hrest⟩
        · left
          exact (storeAt_of_ne hfirst).trans hold
        · right
          have hne : c ≠ call := by
            rintro rfl
            rw [hid] at hfirst
            exact hfirst hrest.2
          exact ⟨c, (List.mem_erase_of_ne hne).mpr hc, hid, hrest⟩
    · intro i thingId hi hrun hclear hnone
      have hne : s.published.things.idxOf? call.thingId ≠ some i := by
        intro hfirst
        have hcall := getElem?_of_idxOf? hfirst
        rw [hi] at hcall
        apply hinv.known call hmem
        rw [← Option.some.inj hcall]
        exact hnone
      exact (storeAt_of_ne hne).trans
        (hinv.cleared i thingId hi hrun hclear hnone)

theorem inv_publishRoutingGraph {things : List String}
    {fits : things.length ≤ AUDIO_GRAPH_MAX_THINGS} (hinv : Inv s) :
    Inv (publishRoutingGraph s things fits) := by
  have hnew : s.runtime.serial ≠ s.published.serial + 1 :=
    fun h => Nat.not_succ_le_self _ (h ▸ hinv.serial_le)
  constructor
  · exact Nat.le_succ_of_le hinv.serial_le
  · exact fun h => absurd h hnew
  · exact hinv.known
  · exact fun _ _ _ happ => absurd happ.1 hnew
  · intro _ _ _ hrun
    exact absurd (congrArg Graph.serial hrun) hnew

theorem inv_consume (h : consume s = some s') (hinv : Inv s) : Inv s' := by
  have hseen : Inv { s with fresh := false } :=
    ⟨hinv.serial_le, hinv.same, hinv.known, hinv.settled, hinv.cleared⟩
  rw [consume] at h
  split at h
  case h_2 => simp at h
  case h_1 =>
    split at h
    case isFalse =>
      obtain rfl := Option.some.inj h
      exact hinv
    case isTrue =>
      split at h
      case isTrue =>
        obtain rfl := Option.some.inj h
        exact hseen
      case isFalse =>
        obtain rfl := Option.some.inj h
        constructor
        · exact Nat.le_refl _
        · exact fun _ => rfl
        · exact hinv.known
        · exact fun _ _ _ happ => absurd happ.2 id
        · exact fun i _ _ _ hclear => absurd hclear (Nat.not_lt_zero i)

theorem inv_snapshotGains (h : snapshotGains s = some s')
    (hinv : Inv s) : Inv s' := by
  unfold snapshotGains at h
  split at h
  case h_1 => simp at h
  case h_2 k hadopt =>
    split at h
    case isTrue hk =>
      obtain rfl := Option.some.inj h
      refine ⟨hinv.serial_le, hinv.same, hinv.known,
        fun _ _ _ happ => absurd happ.2 id, ?_⟩
      intro i thingId hi hrun hclear hnone
      by_cases heq : i = k
      · rw [heq]
        exact Function.update_self _ _ _
      · have hlt : i < k := Nat.lt_of_le_of_ne (Nat.le_of_lt_succ hclear) heq
        have hold := hinv.cleared i thingId hi hrun
          (by rw [Cleared, hadopt]; exact hlt) hnone
        exact (Function.update_of_ne heq _ _).trans hold
    case isFalse hk =>
      obtain rfl := Option.some.inj h
      refine ⟨hinv.serial_le, hinv.same, hinv.known,
        fun i _ _ happ => absurd happ.2 (Nat.not_lt_zero i), ?_⟩
      intro i thingId hi hrun _ hnone
      have hlength : i < s.published.things.length :=
        (List.getElem?_eq_some_iff.mp hi).1
      have hfits := s.published.fits
      exact hinv.cleared i thingId hi hrun
        (by rw [Cleared, hadopt]; show i < k; omega) hnone
  case h_3 k hadopt =>
    split at h
    case h_1 read hread =>
      obtain rfl := Option.some.inj h
      refine ⟨hinv.serial_le, hinv.same, hinv.known, ?_, ?_⟩
      · intro i thingId hi happ
        have hrun : s.runtime = s.published := hinv.same happ.1
        by_cases heq : i = k
        · left
          subst heq
          have hid : thingId = read := by
            rw [hrun] at hread
            exact Option.some.inj (hi.symm.trans hread)
          subst hid
          show storeKnown s.nodeGainAtomics i (s.thingGains thingId) i =
            (s.thingGains thingId).getD 1
          rw [storeKnown_self]
          cases hgain : s.thingGains thingId with
          | some gain => rfl
          | none =>
              exact hinv.cleared i thingId hi hrun
                (by rw [Cleared, hadopt]) hgain
        · have hlt : i < k := Nat.lt_of_le_of_ne (Nat.le_of_lt_succ happ.2) heq
          rcases hinv.settled i thingId hi
            ⟨happ.1, by rw [hadopt]; exact hlt⟩ with hold | hcall
          · exact .inl ((storeKnown_of_ne heq).trans hold)
          · exact .inr hcall
      · intro i thingId hi hrun hclear hnone
        have hlt : k < i := hclear
        have hold := hinv.cleared i thingId hi hrun
          (by rw [Cleared, hadopt]; exact Nat.le_of_lt hlt) hnone
        exact (storeKnown_of_ne (Nat.ne_of_gt hlt)).trans hold
    case h_2 hend =>
      obtain rfl := Option.some.inj h
      refine ⟨hinv.serial_le, hinv.same, hinv.known, ?_,
        fun _ _ _ _ hclear => absurd hclear id⟩
      intro i thingId hi happ
      have hrun : s.runtime = s.published := hinv.same happ.1
      have hlength : i < s.published.things.length :=
        (List.getElem?_eq_some_iff.mp hi).1
      rw [hrun, List.getElem?_eq_none_iff] at hend
      exact hinv.settled i thingId hi
        ⟨happ.1, by rw [hadopt]; show i < k; omega⟩

theorem inv_step {e : Event} (h : step s e = some s')
    (hcare : Careful s e) (hinv : Inv s) : Inv s' := by
  cases e with
  | setThingGain thingId gain =>
      rcases setThingGain_cases h with rfl | ⟨call, rfl, hset, hid, hfree, rfl⟩
      · exact hinv
      · exact inv_recorded hfree (fun happ => hcare ⟨hset, hid, happ⟩) hinv
  | storeGain call => exact inv_storeGain h hcare hinv
  | publishRoutingGraph things fits =>
      obtain rfl := Option.some.inj h
      exact inv_publishRoutingGraph hinv
  | consume => exact inv_consume h hinv
  | snapshotGains => exact inv_snapshotGains h hinv

end Steps

/-! ## Whole runs -/

theorem inv_of_run {volumes : String → Option ℚ} {es : List Event}
    {s : State} (h : Run (Guarded Careful step) (start volumes) es s) :
    Inv s :=
  Run.invariant Inv (P := fun _ => True)
    (fun _ _ _ _ hinv hstep => inv_step hstep.2 hstep.1 hinv)
    h (fun _ _ => trivial) (inv_start volumes)

/-- Once everything has come to rest, what no call has still to store is
stored. -/
theorem Inv.agrees {s : State} (hinv : Inv s) (hquiet : Quiet s) :
    Agrees s := by
  obtain ⟨hcalls, hadopt, hrun⟩ := hquiet
  intro i thingId hi
  have happ : Applied s i := ⟨congrArg Graph.serial hrun, by rw [hadopt]; trivial⟩
  rcases hinv.settled i thingId hi happ with hold | ⟨call, hcall, _⟩
  · exact hold
  · rw [hcalls] at hcall
    exact absurd hcall List.not_mem_nil

theorem volumes_not_lost {volumes : String → Option ℚ} {es : List Event}
    {s : State} (h : Run (Guarded Careful step) (start volumes) es s)
    (hquiet : Quiet s) : Agrees s :=
  (inv_of_run h).agrees hquiet

/-- One thing, published and adopted. -/
def adopted : List Event :=
  .publishRoutingGraph ["speaker"] (by decide) :: .consume ::
    List.replicate (AUDIO_GRAPH_MAX_THINGS + 3) .snapshotGains

/-- Two calls for the thing whose stores are in the order of their writes. -/
def ordered : List Event :=
  [.setThingGain "speaker" (some 0), .setThingGain "speaker" (some 2),
    .storeGain ⟨"speaker", 0⟩, .storeGain ⟨"speaker", 2⟩]

/-- Two calls for the thing whose stores are in the other order. -/
def crossed : List Event :=
  [.setThingGain "speaker" (some 0), .setThingGain "speaker" (some 2),
    .storeGain ⟨"speaker", 2⟩, .storeGain ⟨"speaker", 0⟩]

theorem volumes_not_lost_ordered :
    ∃ s, Run (Guarded Careful step) (start fun _ => none)
      (adopted ++ ordered) s ∧ Quiet s ∧ Agrees s := by
  have hrun : ((adopted ++ ordered).foldlM (guarded Careful step)
      (start fun _ => none)).any (fun s => Quiet s) = true := by
    decide
  obtain ⟨s, hs, hquiet⟩ := (Option.any_eq_true _ _).mp hrun
  have hrun := Run.of_guarded hs
  have hquiet : Quiet s := of_decide_eq_true hquiet
  exact ⟨s, hrun, hquiet, volumes_not_lost hrun hquiet⟩

/-- The gain of the first call stays although that of the second is kept. -/
theorem volumes_lost :
    ¬∀ volumes es s, Run (fun s e s' => step s e = some s')
      (start volumes) es s → Quiet s → Agrees s := by
  intro h
  have hrun : ((adopted ++ crossed).foldlM step (start fun _ => none)).any
      (fun s => Quiet s ∧ s.published.things[0]? = some "speaker" ∧
        s.nodeGainAtomics 0 = 0 ∧ s.thingGains "speaker" = some 2) = true := by
    decide
  obtain ⟨s, hs, hend⟩ := (Option.any_eq_true _ _).mp hrun
  obtain ⟨hquiet, hthing, hgain, hkept⟩ := of_decide_eq_true hend
  have hagrees := h _ _ s (Run.of_foldlM hs) hquiet 0 "speaker" hthing
  rw [hgain, hkept] at hagrees
  exact absurd hagrees (by decide)

end Audiox.Gains
