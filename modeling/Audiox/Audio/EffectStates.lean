import Audiox.Config.Text
import Audiox.Support.Recency
import Mathlib

/-!
# The states of the effects

`StateBank` keeps the state of an effect on a channel in one of its entries.
One pass over the entries looks for the state, by a hash first, and for the
entry that has not been used for the longest time.
-/

namespace Audiox.EffectStates

open ByteCodec Config Recency

variable {State : Type}

structure Entry (State : Type) where
  id : Bytes
  channel : UInt8
  hash : UInt32
  used : Nat
  state : State

structure StateBank (State : Type) where
  entries : Fin 128 → Entry State
  sequence : Nat

/-- A call, and what its caller makes of the state that is returned. -/
structure Call (State : Type) where
  id : Option Bytes
  short : ∀ name ∈ id, name.length < 64
  channel : UInt8
  create : Bool
  leave : State → State

def Call.name (c : Call State) : Bytes := c.id.getD (ascii "fx")

def hashOf (name : Bytes) (channel : UInt8) : UInt32 :=
  name.foldl (fun hash p => (hash ^^^ p.toUInt32) * 16777619)
    (2166136261 ^^^ channel.toUInt32)

def Call.wanted (c : Call State) (entry : Entry State) : Bool :=
  entry.used ≠ 0 ∧ entry.hash = hashOf c.name c.channel ∧
    entry.channel = c.channel ∧ entry.id = c.name

/-- The entry that is looked for, or else the oldest one. -/
def scan (entries : Fin 128 → Entry State) (wanted : Entry State → Bool) :
    List (Fin 128) → Fin 128 → Fin 128 ⊕ Fin 128
  | [], oldest => .inr oldest
  | i :: rest, oldest =>
      if wanted (entries i) then .inl i
      else
        scan entries wanted rest
          (if (entries i).used < (entries oldest).used then i else oldest)

/-- Stamps an entry. -/
def StateBank.put (bank : StateBank State) (i : Fin 128) (entry : Entry State) :
    StateBank State where
  entries :=
    Function.update bank.entries i { entry with used := bank.sequence + 1 }
  sequence := bank.sequence + 1

def find (fresh : State) (bank : StateBank State) (c : Call State) :
    Option (Fin 128) × StateBank State :=
  match scan bank.entries c.wanted (List.finRange 128) 0 with
  | .inl i => (some i, bank.put i (bank.entries i))
  | .inr oldest =>
      if c.create then
        (some oldest, bank.put oldest
          { id := copyBounded 64 c.name
            channel := c.channel
            hash := hashOf c.name c.channel
            used := 0
            state := fresh })
      else (none, bank)

/-! ## Runs -/

/-- An effect and a channel. -/
abbrev Pair : Type := Bytes × UInt8

def Call.pair (c : Call State) : Pair := (c.name, c.channel)

/-- The state that a caller leaves in an entry. -/
def leaveState (bank : StateBank State) (i : Fin 128) (state : State) :
    StateBank State :=
  { bank with
    entries := Function.update bank.entries i { bank.entries i with state := state } }

/-- The bank, and the uses of its states, the newest one first. -/
structure History (State : Type) where
  bank : StateBank State
  uses : List (Use (Fin 128) Pair State)

def step (fresh : State) (h : History State) (c : Call State) : History State :=
  match find fresh h.bank c with
  | (none, bank) => ⟨bank, h.uses⟩
  | (some i, bank) =>
      ⟨leaveState bank i (c.leave (bank.entries i).state),
        ⟨c.pair, i, c.leave (bank.entries i).state⟩ :: h.uses⟩

def start (fresh : State) : History State where
  bank := ⟨fun _ => ⟨[], 0, 0, 0, fresh⟩, 0⟩
  uses := []

def run (fresh : State) (calls : List (Call State)) : History State :=
  calls.foldl (step fresh) (start fresh)

/-! ## The pass over the entries -/

variable {entries : Fin 128 → Entry State} {wanted : Entry State → Bool}
  {l : List (Fin 128)} {oldest i : Fin 128}

theorem scan_inl (h : scan entries wanted l oldest = .inl i) :
    wanted (entries i) = true := by
  induction l generalizing oldest with
  | nil => cases h
  | cons j l ih =>
      rw [scan] at h
      split at h
      · next hwanted =>
          cases h
          exact hwanted
      · exact ih h

theorem scan_inr (h : scan entries wanted l oldest = .inr i) :
    (∀ j ∈ l, wanted (entries j) = false) ∧
      (entries i).used ≤ (entries oldest).used ∧
      ∀ j ∈ l, (entries i).used ≤ (entries j).used := by
  induction l generalizing oldest with
  | nil =>
      cases h
      simp
  | cons j l ih =>
      rw [scan] at h
      split at h
      · cases h
      · next hwanted =>
          obtain ⟨hnone, hold, hmin⟩ := ih h
          have hboth : (entries i).used ≤ (entries oldest).used ∧
              (entries i).used ≤ (entries j).used := by
            split at hold
            · omega
            · omega
          refine ⟨?_, hboth.1, ?_⟩
          · intro k hk
            rcases List.mem_cons.mp hk with rfl | hk
            · simpa using hwanted
            · exact hnone k hk
          · intro k hk
            rcases List.mem_cons.mp hk with rfl | hk
            · exact hboth.2
            · exact hmin k hk

/-! ## The bank as slots -/

def slots (bank : StateBank State) (i : Fin 128) : Slot Pair State where
  key := ((bank.entries i).id, (bank.entries i).channel)
  used := (bank.entries i).used
  content := (bank.entries i).state

/-- The slots follow the uses, and the hashes are those of the names. -/
structure Inv (h : History State) : Prop where
  recent : Recency.Inv (slots h.bank) h.uses
  sequence : h.bank.sequence = h.uses.length
  hashes : ∀ i, (h.bank.entries i).used ≠ 0 →
    (h.bank.entries i).hash =
      hashOf (h.bank.entries i).id (h.bank.entries i).channel

theorem Call.wanted_iff {h : History State} (hinv : Inv h) (c : Call State)
    (i : Fin 128) :
    c.wanted (h.bank.entries i) = true ↔
      (slots h.bank i).used ≠ 0 ∧ (slots h.bank i).key = c.pair := by
  have hhash := hinv.hashes i
  simp only [Call.wanted, decide_eq_true_eq, slots, Call.pair, Prod.mk.injEq]
  constructor
  · rintro ⟨hused, -, hchannel, hid⟩
    exact ⟨hused, hid, hchannel⟩
  · rintro ⟨hused, hid, hchannel⟩
    refine ⟨hused, ?_, hchannel, hid⟩
    rw [hhash hused, hid, hchannel]

theorem Call.copy_name (c : Call State) : copyBounded 64 c.name = c.name := by
  apply copyBounded_eq_self
  rw [Call.name]
  cases hid : c.id with
  | none => decide
  | some name => exact c.short name hid

/-! ## Calls -/

/-- A call finds the entry of its pair, or takes the one with the lowest stamp,
or returns nothing. -/
theorem find_cases {h : History State} (hinv : Inv h) (fresh : State)
    (c : Call State) :
    (∃ i, (slots h.bank i).used ≠ 0 ∧ (slots h.bank i).key = c.pair ∧
      find fresh h.bank c = (some i, h.bank.put i (h.bank.entries i))) ∨
    (¬Held (slots h.bank) c.pair ∧ c.create = true ∧
      ∃ i, (∀ j, (slots h.bank i).used ≤ (slots h.bank j).used) ∧
        find fresh h.bank c = (some i, h.bank.put i
          { id := c.name
            channel := c.channel
            hash := hashOf c.name c.channel
            used := 0
            state := fresh })) ∨
    (¬Held (slots h.bank) c.pair ∧ c.create = false ∧
      find fresh h.bank c = (none, h.bank)) := by
  cases hscan : scan h.bank.entries c.wanted (List.finRange 128) 0 with
  | inl i =>
      left
      obtain ⟨hused, hkey⟩ := (c.wanted_iff hinv i).mp (scan_inl hscan)
      refine ⟨i, hused, hkey, ?_⟩
      rw [find, hscan]
  | inr i =>
      right
      obtain ⟨hnone, -, hmin⟩ := scan_inr hscan
      have hfree : ¬Held (slots h.bank) c.pair := by
        rintro ⟨j, hj⟩
        have hwanted := (c.wanted_iff hinv j).mpr hj
        rw [hnone j (List.mem_finRange j)] at hwanted
        cases hwanted
      rw [find, hscan, c.copy_name]
      dsimp only
      cases hcreate : c.create with
      | true =>
          left
          rw [if_pos rfl]
          exact ⟨hfree, rfl, i, fun j => hmin j (List.mem_finRange j), rfl⟩
      | false =>
          right
          rw [if_neg Bool.false_ne_true]
          exact ⟨hfree, rfl, rfl⟩

theorem slots_leaveState (bank : StateBank State) (i : Fin 128)
    (entry : Entry State) (state : State) :
    slots (leaveState (bank.put i entry) i state) =
      Function.update (slots bank) i
        ⟨(entry.id, entry.channel), bank.sequence + 1, state⟩ := by
  funext j
  by_cases hj : j = i
  · subst hj
    simp [slots, leaveState, StateBank.put]
  · simp [slots, leaveState, StateBank.put, Function.update_of_ne hj]

theorem Inv.stamped {h : History State} (hinv : Inv h) {i : Fin 128}
    {entry : Entry State} {k : Pair} (hkey : (entry.id, entry.channel) = k)
    (hhash : entry.hash = hashOf entry.id entry.channel) (state : State)
    (hslot : ((slots h.bank i).used ≠ 0 ∧ (slots h.bank i).key = k) ∨
      (¬Held (slots h.bank) k ∧
        ∀ j, (slots h.bank i).used ≤ (slots h.bank j).used)) :
    Inv (⟨leaveState (h.bank.put i entry) i state,
      ⟨k, i, state⟩ :: h.uses⟩ : History State) := by
  constructor
  · rw [slots_leaveState, hinv.sequence, hkey]
    exact hinv.recent.use state hslot
  · rw [List.length_cons, ← hinv.sequence]
    rfl
  · intro j hused
    by_cases hj : j = i
    · subst hj
      simpa [leaveState, StateBank.put] using hhash
    · have hold : (leaveState (h.bank.put i entry) i state).entries j =
          h.bank.entries j := by
        simp [leaveState, StateBank.put, Function.update_of_ne hj]
      rw [hold] at hused ⊢
      exact hinv.hashes j hused

theorem Inv.called {h : History State} (hinv : Inv h) (fresh : State)
    (c : Call State) : Inv (step fresh h c) := by
  rcases find_cases hinv fresh c with ⟨i, hused, hkey, hfind⟩ |
    ⟨hfree, -, i, hmin, hfind⟩ | ⟨-, -, hfind⟩
  · rw [step, hfind]
    exact hinv.stamped hkey (hinv.hashes i hused) _ (.inl ⟨hused, hkey⟩)
  · rw [step, hfind]
    exact hinv.stamped rfl rfl _ (.inr ⟨hfree, hmin⟩)
  · rw [step, hfind]
    exact hinv

theorem inv_run (fresh : State) (calls : List (Call State)) :
    Inv (run fresh calls) := by
  have hstart : Inv (start fresh) :=
    ⟨Recency.Inv.initial fun _ => rfl, rfl, fun _ hused => absurd rfl hused⟩
  rw [run]
  generalize start fresh = h at hstart
  induction calls generalizing h with
  | nil => exact hstart
  | cons c calls ih => exact ih _ (hstart.called fresh c)

/-! ## Every history -/

/-- What a bank keeps.  The pairs since whose last use fewer than 128 others
have been used are found in their entries with the content that was left there;
a call without `create` finds nothing else and then changes nothing; and a new
pair gets a fresh state in an entry that is not in use, or else in the one that
has not been used for the longest time. -/
structure Keeps (fresh : State) (h : History State) : Prop where
  unique : ∀ i j, (h.bank.entries i).used ≠ 0 → (h.bank.entries j).used ≠ 0 →
    (h.bank.entries i).id = (h.bank.entries j).id →
    (h.bank.entries i).channel = (h.bank.entries j).channel → i = j
  kept : ∀ (c : Call State) (u : Use (Fin 128) Pair State),
    lastUse c.pair h.uses = some u → (since c.pair h.uses).card < 128 →
    (find fresh h.bank c).1 = some u.slot ∧
      ((find fresh h.bank c).2.entries u.slot).state = u.content
  renewed : ∀ c : Call State, c.create = true →
    lastUse c.pair h.uses = none ∨ 128 ≤ (since c.pair h.uses).card →
    ∃ i, (find fresh h.bank c).1 = some i ∧
      ((find fresh h.bank c).2.entries i).state = fresh
  absent : ∀ c : Call State, c.create = false →
    ((find fresh h.bank c).1 = none ↔ ¬Held (slots h.bank) c.pair) ∧
      ((find fresh h.bank c).1 = none → (find fresh h.bank c).2 = h.bank)
  evicted : ∀ (c : Call State) (i : Fin 128),
    ¬Held (slots h.bank) c.pair → (find fresh h.bank c).1 = some i →
    (∀ j, j ≠ i → (find fresh h.bank c).2.entries j = h.bank.entries j) ∧
      ((∃ j, (h.bank.entries j).used = 0) → (h.bank.entries i).used = 0) ∧
      ((∀ j, (h.bank.entries j).used ≠ 0) → ∀ j, j ≠ i →
        age (slots h.bank j).key h.uses < age (slots h.bank i).key h.uses)

theorem Inv.kept {h : History State} (hinv : Inv h) (fresh : State)
    (c : Call State) {u : Use (Fin 128) Pair State}
    (hheld : Held (slots h.bank) c.pair)
    (hlast : lastUse c.pair h.uses = some u) :
    (find fresh h.bank c).1 = some u.slot ∧
      ((find fresh h.bank c).2.entries u.slot).state = u.content := by
  rcases find_cases hinv fresh c with ⟨i, hused, hkey, hfind⟩ |
    ⟨hfree, -⟩ | ⟨hfree, -⟩
  · have hown := (hinv.recent.last i hused).1
    rw [hkey, hlast] at hown
    cases hown
    rw [hfind]
    refine ⟨rfl, ?_⟩
    simp [StateBank.put, slots]
  · exact absurd hheld hfree
  · exact absurd hheld hfree

theorem Inv.evicted {h : History State} (hinv : Inv h) {i : Fin 128}
    (hmin : ∀ j, (slots h.bank i).used ≤ (slots h.bank j).used) :
    ((∃ j, (h.bank.entries j).used = 0) → (h.bank.entries i).used = 0) ∧
      ((∀ j, (h.bank.entries j).used ≠ 0) → ∀ j, j ≠ i →
        age (slots h.bank j).key h.uses < age (slots h.bank i).key h.uses) := by
  constructor
  · rintro ⟨j, hj⟩
    have hle : (h.bank.entries i).used ≤ (h.bank.entries j).used := hmin j
    omega
  · intro hall j hj
    have hold := (hinv.recent.last i (hall i)).2
    have hnew := (hinv.recent.last j (hall j)).2
    have hle := hmin j
    have hdistinct : (slots h.bank j).used ≠ (slots h.bank i).used :=
      fun heq => hj (hinv.recent.used_injective (hall j) heq)
    omega

/-- The bank keeps the states through every sequence of calls. -/
theorem stateBank_keeps (fresh : State) (calls : List (Call State)) :
    Keeps fresh (run fresh calls) := by
  have hinv := inv_run fresh calls
  have hheld := fun k => hinv.recent.held_iff k
  rw [Fintype.card_fin] at hheld
  constructor
  · intro i j hi hj hid hchannel
    exact hinv.recent.unique hi hj (Prod.ext hid hchannel)
  · intro c u hlast hcard
    apply hinv.kept fresh c _ hlast
    rw [hheld, hlast]
    exact ⟨Option.some_ne_none u, hcard⟩
  · intro c hcreate hold
    rcases find_cases hinv fresh c with ⟨i, hused, hkey, -⟩ |
      ⟨-, -, i, -, hfind⟩ | ⟨-, hno, -⟩
    · obtain ⟨hlast, hcard⟩ := (hheld c.pair).mp ⟨i, hused, hkey⟩
      rcases hold with hnone | hmany
      · exact absurd hnone hlast
      · omega
    · refine ⟨i, ?_, ?_⟩
      · rw [hfind]
      · rw [hfind]
        simp [StateBank.put]
    · rw [hno] at hcreate
      cases hcreate
  · intro c hcreate
    rcases find_cases hinv fresh c with ⟨i, hused, hkey, hfind⟩ |
      ⟨-, hyes, -⟩ | ⟨hfree, -, hfind⟩
    · rw [hfind]
      refine ⟨⟨?_, ?_⟩, ?_⟩
      · exact fun hnone => absurd hnone (Option.some_ne_none i)
      · exact fun hfree => absurd ⟨i, hused, hkey⟩ hfree
      · exact fun hnone => absurd hnone (Option.some_ne_none i)
    · rw [hyes] at hcreate
      cases hcreate
    · rw [hfind]
      exact ⟨⟨fun _ => hfree, fun _ => rfl⟩, fun _ => rfl⟩
  · intro c i hfree hsome
    rcases find_cases hinv fresh c with ⟨i', hused, hkey, -⟩ |
      ⟨-, -, i', hmin, hfind⟩ | ⟨-, -, hfind⟩
    · exact absurd ⟨i', hused, hkey⟩ hfree
    · rw [hfind] at hsome ⊢
      cases hsome
      refine ⟨?_, hinv.evicted hmin⟩
      intro j hj
      exact Function.update_of_ne hj _ _
    · rw [hfind] at hsome
      cases hsome

end Audiox.EffectStates
