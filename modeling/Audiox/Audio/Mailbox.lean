import Audiox.Support.LatestValue
import Audiox.Support.Runs
import Mathlib

/-!
# The mailbox of the audio graph

Publisher and consumer exchange three slots through one atomic word, which
holds the index of the middle slot and a bit for a fresh graph.  A graph is
copied into and out of a slot word by word, so the two parties interleave
inside a copy as well.  Publishers are serialized; there is one consumer.

The mailbox of the device health has the same two operations: its `read` is
`consume` with `includeCurrent`, where the caller does the copying from the
slot to which it gets a reference.
-/

namespace Audiox

open LatestValue Runs

/-- A graph as the words that are copied. -/
abbrev GraphWords (n : Nat) (W : Type) : Type :=
  Fin n → W

/-- Where the publisher is in `publish`. -/
inductive Publisher (n : Nat) (W : Type) where
  | idle
  | copying (graph : GraphWords n W) (written : Nat)

/-- Where the consumer is in `consume`. -/
inductive Consumer (n : Nat) (W : Type) where
  | idle
  | loading (out : GraphWords n W) (includeCurrent : Bool)
  | exchanging (out : GraphWords n W)
  | copying (fresh : Bool) (out : GraphWords n W) (read : Nat)

/-- What a call of `consume` returns: nothing, the graph that the consumer
already had, or a new one. -/
inductive Consumed (n : Nat) (W : Type) where
  | nothing
  | current (graph : GraphWords n W)
  | fresh (graph : GraphWords n W)

def Consumed.fresh? {n : Nat} {W : Type} :
    Consumed n W → Option (GraphWords n W)
  | .fresh graph => some graph
  | _ => none

/-- The mailbox, the positions of both parties, and the calls that have
returned so far. -/
structure Mailbox (n : Nat) (W : Type) where
  slots : UInt32 → GraphWords n W
  middle : UInt32 := 1
  back : UInt32 := 2
  front : UInt32 := 0
  publisher : Publisher n W := .idle
  consumer : Consumer n W := .idle
  published : List (GraphWords n W) := []
  results : List (Consumed n W) := []

inductive MailboxEvent (n : Nat) (W : Type) where
  | publish (graph : GraphWords n W)
  | write
  | exchangeBack
  | consume (out : GraphWords n W) (includeCurrent : Bool)
  | load
  | exchangeFront
  | read
  | finish

def MailboxEvent.isConsumer {n : Nat} {W : Type} : MailboxEvent n W → Bool
  | .publish _ => false
  | .write => false
  | .exchangeBack => false
  | _ => true

namespace Mailbox

variable {n : Nat} {W : Type}

def start (slots : UInt32 → GraphWords n W) : Mailbox n W :=
  { slots }

/-- The index in the atomic word. -/
def index (word : UInt32) : UInt32 := word &&& 3

def isFresh (word : UInt32) : Bool := word &&& 4 != 0

/-- One step of `publish`. -/
def publishStep (s : Mailbox n W) : MailboxEvent n W → Option (Mailbox n W)
  | .publish graph =>
      match s.publisher with
      | .idle => some { s with publisher := .copying graph 0 }
      | .copying _ _ => none
  | .write =>
      match s.publisher with
      | .copying graph k =>
          if h : k < n then
            some { s with
              slots := Function.update s.slots s.back
                (Function.update (s.slots s.back) ⟨k, h⟩ (graph ⟨k, h⟩))
              publisher := .copying graph (k + 1) }
          else none
      | .idle => none
  | .exchangeBack =>
      match s.publisher with
      | .copying graph k =>
          if k = n then
            some { s with
              back := index s.middle
              middle := s.back ||| 4
              publisher := .idle
              published := s.published ++ [graph] }
          else none
      | .idle => none
  | _ => none

/-- One step of `consume`. -/
def consumeStep (s : Mailbox n W) : MailboxEvent n W → Option (Mailbox n W)
  | .consume out includeCurrent =>
      match s.consumer with
      | .idle => some { s with consumer := .loading out includeCurrent }
      | _ => none
  | .load =>
      match s.consumer with
      | .loading out includeCurrent =>
          if isFresh s.middle then some { s with consumer := .exchanging out }
          else if includeCurrent then
            some { s with consumer := .copying false out 0 }
          else
            some { s with
              consumer := .idle
              results := s.results ++ [.nothing] }
      | _ => none
  | .exchangeFront =>
      match s.consumer with
      | .exchanging out =>
          some { s with
            front := index s.middle
            middle := s.front
            consumer := .copying true out 0 }
      | _ => none
  | .read =>
      match s.consumer with
      | .copying fresh out k =>
          if h : k < n then
            some { s with
              consumer := .copying fresh
                (Function.update out ⟨k, h⟩ (s.slots s.front ⟨k, h⟩))
                (k + 1) }
          else none
      | _ => none
  | .finish =>
      match s.consumer with
      | .copying fresh out k =>
          if k = n then
            some { s with
              consumer := .idle
              results := s.results ++
                [if fresh then .fresh out else .current out] }
          else none
      | _ => none
  | _ => none

/-- One step of either party. -/
def step (s : Mailbox n W) (e : MailboxEvent n W) : Option (Mailbox n W) :=
  if e.isConsumer then s.consumeStep e else s.publishStep e

abbrev Steps (s : Mailbox n W) (es : List (MailboxEvent n W))
    (s' : Mailbox n W) : Prop :=
  Run (fun s e s' => step s e = some s') s es s'

/-- The slot that the publisher is writing. -/
def writing (s : Mailbox n W) : Option UInt32 :=
  match s.publisher with
  | .copying _ _ => some s.back
  | .idle => none

/-- The slot that the consumer is reading. -/
def reading (s : Mailbox n W) : Option UInt32 :=
  match s.consumer with
  | .copying _ _ _ => some s.front
  | _ => none

/-- The new graphs that the consumer has been given. -/
def taken (s : Mailbox n W) : List (GraphWords n W) :=
  s.results.filterMap Consumed.fresh?

/-- The graph that the consumer has exchanged for, but not copied yet. -/
def inHand (s : Mailbox n W) : List (GraphWords n W) :=
  match s.consumer with
  | .copying true _ _ => [s.slots s.front]
  | _ => []

/-! ## The exchange word -/

theorem index_lt {b m f : UInt32} (h : [b, m, f].Perm [0, 1, 2])
    {i : UInt32} (hi : i ∈ [b, m, f]) : i = 0 ∨ i = 1 ∨ i = 2 := by
  have hmem := h.mem_iff.mp hi
  simpa using hmem

theorem index_of_slot {i : UInt32} (h : i = 0 ∨ i = 1 ∨ i = 2) :
    index i = i ∧ isFresh i = false ∧
      index (i ||| 4) = i ∧ isFresh (i ||| 4) = true := by
  rcases h with rfl | rfl | rfl <;> decide

theorem slots_ne {b m f : UInt32} (h : [b, m, f].Perm [0, 1, 2]) :
    b ≠ m ∧ b ≠ f ∧ m ≠ f := by
  have hnodup : [b, m, f].Nodup := h.nodup_iff.mpr (by decide)
  simp only [List.nodup_cons, List.mem_cons, List.not_mem_nil, or_false,
    not_or] at hnodup
  exact ⟨hnodup.1.1, hnodup.1.2, hnodup.2.1⟩

/-! ## The mailbox implements the register -/

/-- How a state of the mailbox represents a history of the register. -/
structure Represents (initial : GraphWords n W) (s : Mailbox n W)
    (a : History (GraphWords n W)) : Prop where
  indices : [s.back, index s.middle, s.front].Perm [0, 1, 2]
  fresh : a.fresh = isFresh s.middle
  published : a.published = s.published
  taken : a.taken = s.taken ++ s.inHand
  middle : isFresh s.middle →
    a.published.getLast? = some (s.slots (index s.middle))
  front : s.slots s.front = a.taken.getLast?.getD initial
  exchanging : ∀ out, s.consumer = .exchanging out → isFresh s.middle
  written : ∀ g k, s.publisher = .copying g k →
    ∀ i : Fin n, i < k → s.slots s.back i = g i
  copied : ∀ fresh out k, s.consumer = .copying fresh out k →
    ∀ i : Fin n, i < k → out i = s.slots s.front i

theorem represents_start (slots : UInt32 → GraphWords n W) :
    Represents (slots 0) (start slots) (.empty _) where
  indices := by
    show [(2 : UInt32), index 1, 0].Perm [0, 1, 2]
    decide
  fresh := by
    show false = isFresh 1
    decide
  published := rfl
  taken := rfl
  middle h := absurd h (by
    show ¬isFresh 1
    decide)
  front := rfl
  exchanging := nofun
  written := nofun
  copied := nofun

variable {initial : GraphWords n W} {s s' : Mailbox n W}
  {a : History (GraphWords n W)} {e : MailboxEvent n W}

theorem inHand_congr (hconsumer : s'.consumer = s.consumer)
    (hslot : s'.slots s'.front = s.slots s.front) :
    s'.inHand = s.inHand := by
  simp only [inHand, hconsumer, hslot]

/-- What the consumer sees of a state: everything but the slot that the
publisher owns. -/
structure SameForConsumer (s s' : Mailbox n W) : Prop where
  middle : s'.middle = s.middle
  front : s'.front = s.front
  consumer : s'.consumer = s.consumer
  results : s'.results = s.results
  slots : ∀ i, i ≠ s.back → s'.slots i = s.slots i

/-- A step by which the publisher prepares its slot changes nothing for the
consumer. -/
theorem Represents.prepare (h : Represents initial s a)
    (hsame : SameForConsumer s s') (hback : s'.back = s.back)
    (hpublished : s'.published = s.published)
    (hwritten : ∀ g k, s'.publisher = .copying g k →
      ∀ i : Fin n, i < k → s'.slots s'.back i = g i) :
    Represents initial s' a := by
  obtain ⟨hbm, hbf, -⟩ := slots_ne h.indices
  have hfront : s'.slots s'.front = s.slots s.front := by
    rw [hsame.front, hsame.slots _ hbf.symm]
  have hmiddle : s'.slots (index s'.middle) = s.slots (index s.middle) := by
    rw [hsame.middle, hsame.slots _ hbm.symm]
  have htaken : s'.taken = s.taken := by
    simp only [Mailbox.taken, hsame.results]
  constructor
  · rw [hback, hsame.middle, hsame.front]
    exact h.indices
  · rw [hsame.middle]
    exact h.fresh
  · rw [hpublished]
    exact h.published
  · rw [htaken, inHand_congr hsame.consumer hfront]
    exact h.taken
  · intro hfresh
    rw [hmiddle]
    rw [hsame.middle] at hfresh
    exact h.middle hfresh
  · rw [hfront]
    exact h.front
  · intro out hout
    rw [hsame.consumer] at hout
    rw [hsame.middle]
    exact h.exchanging out hout
  · exact hwritten
  · intro fresh out k hcopy i hi
    rw [hsame.consumer] at hcopy
    rw [hfront]
    exact h.copied fresh out k hcopy i hi

/-- The exchange of the publisher publishes the graph that it has written. -/
theorem Represents.exchangeBack (h : Represents initial s a)
    {graph : GraphWords n W} (hpub : s.publisher = .copying graph n) :
    Represents initial
      { s with
        back := index s.middle
        middle := s.back ||| 4
        publisher := .idle
        published := s.published ++ [graph] } (a.publish graph) := by
  have hback := index_of_slot (index_lt h.indices (i := s.back) (by simp))
  have hslot : s.slots s.back = graph := by
    funext i
    exact h.written graph n hpub i i.isLt
  constructor
  · show [index s.middle, index (s.back ||| 4), s.front].Perm [0, 1, 2]
    rw [hback.2.2.1]
    exact (List.Perm.swap _ _ _).trans h.indices
  · exact hback.2.2.2.symm
  · exact congrArg (· ++ [graph]) h.published
  · exact h.taken
  · intro _
    show (a.published ++ [graph]).getLast? =
      some (s.slots (index (s.back ||| 4)))
    rw [List.getLast?_concat, hback.2.2.1, hslot]
  · exact h.front
  · intro out hout
    exact hback.2.2.2
  · exact nofun
  · exact h.copied

theorem represents_publishStep (h : Represents initial s a)
    (hstep : s.publishStep e = some s') :
    ∃ a', Represents initial s' a' := by
  cases e with
  | publish graph =>
      simp only [publishStep] at hstep
      split at hstep
      · cases hstep
        refine ⟨a, h.prepare ⟨rfl, rfl, rfl, rfl, fun _ _ => rfl⟩ rfl rfl ?_⟩
        intro g k hpub i hi
        cases hpub
        exact absurd hi (Nat.not_lt_zero _)
      · cases hstep
  | write =>
      simp only [publishStep] at hstep
      split at hstep
      next graph k hpub =>
        split at hstep
        next hk =>
          cases hstep
          refine ⟨a, h.prepare ⟨rfl, rfl, rfl, rfl, fun i hi => ?_⟩ rfl rfl ?_⟩
          · exact Function.update_of_ne hi _ _
          · intro g j hcopy i hi
            cases hcopy
            show Function.update s.slots s.back _ s.back i = graph i
            rw [Function.update_self]
            by_cases hik : i = ⟨k, hk⟩
            · rw [hik, Function.update_self]
            · rw [Function.update_of_ne hik]
              have hne : (i : Nat) ≠ k := fun heq => hik (Fin.ext heq)
              exact h.written graph k hpub i (by omega)
        · cases hstep
      · cases hstep
  | exchangeBack =>
      simp only [publishStep] at hstep
      split at hstep
      next graph k hpub =>
        split at hstep
        next hk =>
          subst k
          cases hstep
          exact ⟨a.publish graph, h.exchangeBack hpub⟩
        · cases hstep
      · cases hstep
  | consume out includeCurrent => cases hstep
  | load => cases hstep
  | exchangeFront => cases hstep
  | read => cases hstep
  | finish => cases hstep

/-- A step of the consumer that only moves it on represents the same
history. -/
theorem Represents.move (h : Represents initial s a)
    {consumer : Consumer n W} {results : List (Consumed n W)}
    (htaken : ({ s with consumer, results } : Mailbox n W).taken ++
      ({ s with consumer, results } : Mailbox n W).inHand =
        s.taken ++ s.inHand)
    (hexchanging : ∀ out, consumer = .exchanging out → isFresh s.middle)
    (hcopied : ∀ fresh out k, consumer = .copying fresh out k →
      ∀ i : Fin n, i < k → out i = s.slots s.front i) :
    Represents initial { s with consumer, results } a where
  indices := h.indices
  fresh := h.fresh
  published := h.published
  taken := h.taken.trans htaken.symm
  middle := h.middle
  front := h.front
  exchanging := hexchanging
  written := h.written
  copied := hcopied

/-- The exchange of the consumer takes the last published graph. -/
theorem Represents.exchangeFront (h : Represents initial s a)
    {out : GraphWords n W} (hconsumer : s.consumer = .exchanging out) :
    ∃ a', Represents initial
      { s with
        front := index s.middle
        middle := s.front
        consumer := .copying true out 0 } a' := by
  have hfront := index_of_slot (index_lt h.indices (i := s.front) (by simp))
  have hfresh := h.exchanging out hconsumer
  have hlast := h.middle hfresh
  have hinHand : s.inHand = [] := by simp only [inHand, hconsumer]
  refine ⟨a.take _ (h.fresh.trans hfresh) hlast, ?_⟩
  constructor
  · show [s.back, index s.front, index s.middle].Perm [0, 1, 2]
    rw [hfront.1]
    exact ((List.Perm.swap _ _ _).cons _).trans h.indices
  · exact hfront.2.1.symm
  · exact h.published
  · show a.taken ++ _ = s.taken ++ _
    rw [h.taken, hinHand, List.append_nil]
    rfl
  · intro hnew
    rw [hfront.2.1] at hnew
    exact absurd hnew (by simp)
  · show _ = (a.taken ++ [_]).getLast?.getD initial
    rw [List.getLast?_concat]
    rfl
  · exact nofun
  · exact h.written
  · intro fresh out' k hcopy i hi
    cases hcopy
    exact absurd hi (Nat.not_lt_zero _)

theorem represents_consumeStep (h : Represents initial s a)
    (hstep : s.consumeStep e = some s') :
    ∃ a', Represents initial s' a' := by
  cases e with
  | publish graph => cases hstep
  | write => cases hstep
  | exchangeBack => cases hstep
  | consume out includeCurrent =>
      simp only [consumeStep] at hstep
      split at hstep
      next hidle =>
        cases hstep
        refine ⟨a, h.move ?_ nofun nofun⟩
        simp [taken, inHand, hidle]
      · cases hstep
  | load =>
      simp only [consumeStep] at hstep
      split at hstep
      next out includeCurrent hload =>
        split at hstep
        next hfresh =>
          cases hstep
          refine ⟨a, h.move ?_ (fun _ _ => hfresh) nofun⟩
          simp [taken, inHand, hload]
        · split at hstep
          · cases hstep
            refine ⟨a, h.move ?_ nofun ?_⟩
            · simp [taken, inHand, hload]
            · intro fresh out' k hcopy i hi
              cases hcopy
              exact absurd hi (Nat.not_lt_zero _)
          · cases hstep
            refine ⟨a, h.move ?_ nofun nofun⟩
            simp [taken, inHand, hload, Consumed.fresh?]
      · cases hstep
  | exchangeFront =>
      simp only [consumeStep] at hstep
      split at hstep
      next out hexchange =>
        cases hstep
        exact h.exchangeFront hexchange
      · cases hstep
  | read =>
      simp only [consumeStep] at hstep
      split at hstep
      next fresh out k hcopy =>
        split at hstep
        next hk =>
          cases hstep
          refine ⟨a, h.move ?_ nofun ?_⟩
          · simp only [taken, inHand, hcopy]
            cases fresh <;> rfl
          · intro fresh' out' k' hcopy' i hi
            cases hcopy'
            by_cases hik : i = ⟨k, hk⟩
            · rw [hik, Function.update_self]
            · rw [Function.update_of_ne hik]
              have hne : (i : Nat) ≠ k := fun heq => hik (Fin.ext heq)
              exact h.copied fresh out k hcopy i (by omega)
        · cases hstep
      · cases hstep
  | finish =>
      simp only [consumeStep] at hstep
      split at hstep
      next fresh out k hcopy =>
        split at hstep
        next hk =>
          subst k
          cases hstep
          have hout : out = s.slots s.front := by
            funext i
            exact h.copied fresh out n hcopy i i.isLt
          refine ⟨a, h.move ?_ nofun nofun⟩
          cases fresh with
          | true => simp [taken, inHand, hcopy, Consumed.fresh?, hout]
          | false => simp [taken, inHand, hcopy, Consumed.fresh?]
        · cases hstep
      · cases hstep

theorem represents_step (h : ∃ a, Represents initial s a)
    (hstep : s.step e = some s') : ∃ a, Represents initial s' a := by
  obtain ⟨a, ha⟩ := h
  rw [step] at hstep
  split at hstep
  · exact represents_consumeStep ha hstep
  · exact represents_publishStep ha hstep

/-- Every reachable state of the mailbox represents a history of the
register. -/
theorem represents_run {slots : UInt32 → GraphWords n W}
    {es : List (MailboxEvent n W)} (h : Steps (start slots) es s) :
    ∃ a, Represents (slots 0) s a := by
  refine Run.invariant (P := fun _ => True)
    (fun s => ∃ a, Represents (slots 0) s a) ?_ h (fun _ _ => trivial)
    ⟨_, represents_start slots⟩
  intro s e s' _ hs hstep
  exact represents_step hs hstep

/-! ## A call of `consume` while nothing is published -/

/-- The answer to a call: the last published graph, unless it has already been
taken. -/
def Answers (s : Mailbox n W) (r : Consumed n W) : Prop :=
  (∃ g, s.published.getLast? = some g ∧ r = .fresh g) ∨
    (r.fresh? = none ∧ s.taken.getLast? = s.published.getLast?)

/-- How far a call that began in `s` can have come: the mailbox is as it was
until the exchange, and the copy is one of the front slot. -/
def Calling (s t : Mailbox n W) : Prop :=
  match t.consumer with
  | .idle => t.middle = s.middle ∧ t.slots = s.slots
  | .loading _ _ => t.middle = s.middle ∧ t.slots = s.slots
  | .exchanging _ => t.middle = s.middle ∧ t.slots = s.slots ∧
      isFresh s.middle
  | .copying fresh out k => k ≤ n ∧ fresh = isFresh s.middle ∧
      (fresh → t.slots t.front = s.slots (index s.middle)) ∧
      ∀ i : Fin n, i < k → out i = t.slots t.front i

/-- What holds after steps of the consumer alone. -/
structure Quiet (s t : Mailbox n W) : Prop where
  results : s.results <+: t.results
  calling : t.results = s.results → Calling s t
  answered : ∀ r rest, t.results = s.results ++ r :: rest → Answers s r

theorem quiet_refl (hidle : s.consumer = .idle) : Quiet s s where
  results := List.prefix_refl _
  calling _ := by simp [Calling, hidle]
  answered r rest h := by simp at h

/-- A step inside a call. -/
theorem Quiet.move {t t' : Mailbox n W} (h : Quiet s t)
    (hresults : t'.results = t.results)
    (hcalling : Calling s t → Calling s t') : Quiet s t' where
  results := by
    rw [hresults]
    exact h.results
  calling heq := by
    rw [hresults] at heq
    exact hcalling (h.calling heq)
  answered r rest heq := by
    rw [hresults] at heq
    exact h.answered r rest heq

/-- The last step of a call. -/
theorem Quiet.answer {t t' : Mailbox n W} {r : Consumed n W} (h : Quiet s t)
    (hresults : t'.results = t.results ++ [r])
    (hanswers : Calling s t → Answers s r) : Quiet s t' := by
  obtain ⟨tail, htail⟩ := h.results
  constructor
  · rw [hresults, ← htail, List.append_assoc]
    exact List.prefix_append _ _
  · intro heq
    have hlen := congrArg List.length heq
    rw [hresults, ← htail] at hlen
    simp only [List.length_append, List.length_singleton] at hlen
    omega
  · intro r' rest heq
    rw [hresults] at heq
    cases tail with
    | nil =>
        rw [List.append_nil] at htail
        rw [htail, List.append_cancel_left_eq] at heq
        cases heq
        exact hanswers (h.calling htail.symm)
    | cons r₀ tail =>
        rw [← htail, List.append_assoc, List.append_cancel_left_eq] at heq
        cases heq
        exact h.answered _ tail htail.symm

theorem quiet_step (hs : Represents initial s a) (hidle : s.consumer = .idle)
    {t t' : Mailbox n W} (h : Quiet s t) (hstep : t.consumeStep e = some t') :
    Quiet s t' := by
  have hinHand : s.inHand = [] := by simp only [inHand, hidle]
  have htaken : a.taken = s.taken := by rw [hs.taken, hinHand, List.append_nil]
  have hold : isFresh s.middle = false →
      s.taken.getLast? = s.published.getLast? := by
    intro hfresh
    have hseen := (a.seen (by rw [hs.fresh, hfresh]; simp)).2
    rwa [htaken, hs.published] at hseen
  have hnew : isFresh s.middle = true →
      s.published.getLast? = some (s.slots (index s.middle)) := by
    intro hfresh
    rw [← hs.published]
    exact hs.middle hfresh
  cases e with
  | publish graph => cases hstep
  | write => cases hstep
  | exchangeBack => cases hstep
  | consume out includeCurrent =>
      simp only [consumeStep] at hstep
      split at hstep
      next hconsumer =>
        cases hstep
        refine h.move rfl fun hcall => ?_
        simpa only [Calling, hconsumer] using hcall
      · cases hstep
  | load =>
      simp only [consumeStep] at hstep
      split at hstep
      next out includeCurrent hconsumer =>
        split at hstep
        next hfresh =>
          cases hstep
          refine h.move rfl fun hcall => ?_
          simp only [Calling, hconsumer] at hcall ⊢
          exact ⟨hcall.1, hcall.2, hcall.1 ▸ hfresh⟩
        next hfresh =>
          rw [Bool.not_eq_true] at hfresh
          split at hstep
          · cases hstep
            refine h.move rfl fun hcall => ?_
            simp only [Calling, hconsumer] at hcall ⊢
            rw [hcall.1] at hfresh
            rw [hfresh]
            exact ⟨Nat.zero_le _, rfl, nofun, fun i hi =>
              absurd hi (Nat.not_lt_zero _)⟩
          · cases hstep
            refine h.answer rfl fun hcall => ?_
            simp only [Calling, hconsumer] at hcall
            rw [hcall.1] at hfresh
            exact .inr ⟨rfl, hold hfresh⟩
      · cases hstep
  | exchangeFront =>
      simp only [consumeStep] at hstep
      split at hstep
      next out hconsumer =>
        cases hstep
        refine h.move rfl fun hcall => ?_
        simp only [Calling, hconsumer] at hcall ⊢
        obtain ⟨hmiddle, hslots, hfresh⟩ := hcall
        rw [hmiddle, hslots, hfresh]
        exact ⟨Nat.zero_le _, rfl, fun _ => rfl, fun i hi =>
          absurd hi (Nat.not_lt_zero _)⟩
      · cases hstep
  | read =>
      simp only [consumeStep] at hstep
      split at hstep
      next fresh out k hconsumer =>
        split at hstep
        next hk =>
          cases hstep
          refine h.move rfl fun hcall => ?_
          simp only [Calling, hconsumer] at hcall ⊢
          refine ⟨hk, hcall.2.1, hcall.2.2.1, fun i hi => ?_⟩
          by_cases hik : i = ⟨k, hk⟩
          · rw [hik, Function.update_self]
          · rw [Function.update_of_ne hik]
            have hne : (i : Nat) ≠ k := fun heq => hik (Fin.ext heq)
            exact hcall.2.2.2 i (by omega)
        · cases hstep
      · cases hstep
  | finish =>
      simp only [consumeStep] at hstep
      split at hstep
      next fresh out k hconsumer =>
        split at hstep
        next hk =>
          subst k
          cases hstep
          refine h.answer rfl fun hcall => ?_
          simp only [Calling, hconsumer] at hcall
          obtain ⟨-, hfresh, hslot, hcopied⟩ := hcall
          have hout : out = t.slots t.front := by
            funext i
            exact hcopied i i.isLt
          cases fresh with
          | true =>
              left
              refine ⟨_, hnew hfresh.symm, ?_⟩
              rw [if_pos rfl, hout, hslot rfl]
          | false => exact .inr ⟨rfl, hold hfresh.symm⟩
        · cases hstep
      · cases hstep

/-- A call that can be completed by the consumer alone. -/
def Completes (s : Mailbox n W) : Prop :=
  ∃ es s' r, (∀ e ∈ es, e.isConsumer) ∧ Steps s es s' ∧
    s'.consumer = .idle ∧ s'.results = s.results ++ [r]

theorem Completes.step {t : Mailbox n W} (h : Completes t)
    (he : e.isConsumer) (hstep : s.step e = some t)
    (hresults : t.results = s.results) : Completes s := by
  obtain ⟨es, s', r, hes, hrun, hidle, hres⟩ := h
  refine ⟨e :: es, s', r, ?_, .cons hstep hrun, hidle, ?_⟩
  · intro e' he'
    rcases List.mem_cons.mp he' with rfl | he'
    · exact he
    · exact hes e' he'
  · rw [hres, hresults]

theorem completes_copying {fresh : Bool} {out : GraphWords n W} {k : Nat}
    (hk : k ≤ n) (h : s.consumer = .copying fresh out k) : Completes s := by
  induction hm : n - k generalizing s out k with
  | zero =>
      have hkn : k = n := by omega
      refine ⟨[.finish], _, if fresh then .fresh out else .current out, ?_,
        .cons ?_ (.nil { s with
          consumer := .idle
          results := s.results ++
            [if fresh then .fresh out else .current out] }), rfl, rfl⟩
      · simp [MailboxEvent.isConsumer]
      · simp [step, MailboxEvent.isConsumer, consumeStep, h, hkn]
  | succ m ih =>
      have hlt : k < n := by omega
      have hnext := @ih
        { s with
          consumer := .copying fresh
            (Function.update out ⟨k, hlt⟩ (s.slots s.front ⟨k, hlt⟩)) (k + 1) }
        _ (k + 1) hlt rfl (by omega)
      refine Completes.step (e := .read) hnext rfl ?_ rfl
      simp [step, MailboxEvent.isConsumer, consumeStep, h, hlt]

/-- A call of `consume` returns after finitely many steps of its own. -/
theorem completes_consume (h : s.consumer = .idle) (out : GraphWords n W)
    (includeCurrent : Bool) : ∃ t,
      s.step (.consume out includeCurrent) = some t ∧
        t.results = s.results ∧ Completes t := by
  refine ⟨{ s with consumer := .loading out includeCurrent }, ?_, rfl, ?_⟩
  · simp [step, MailboxEvent.isConsumer, consumeStep, h]
  by_cases hfresh : isFresh s.middle
  · have hcopy := completes_copying (s := { s with
      front := index s.middle
      middle := s.front
      consumer := .copying true out 0 }) (Nat.zero_le n) rfl
    have hexchange := Completes.step (e := .exchangeFront)
      (s := { s with consumer := .exchanging out }) hcopy rfl rfl rfl
    refine Completes.step (e := .load) hexchange rfl ?_ rfl
    simp [step, MailboxEvent.isConsumer, consumeStep, hfresh]
  · cases includeCurrent with
    | true =>
        have hcopy := completes_copying
          (s := { s with consumer := .copying false out 0 })
          (Nat.zero_le n) rfl
        refine Completes.step (e := .load) hcopy rfl ?_ rfl
        simp [step, MailboxEvent.isConsumer, consumeStep, hfresh]
    | false =>
        refine ⟨[.load], _, .nothing, ?_, .cons ?_ (.nil { s with
          consumer := .idle
          results := s.results ++ [.nothing] }), rfl, rfl⟩
        · simp [MailboxEvent.isConsumer]
        · simp [step, MailboxEvent.isConsumer, consumeStep, hfresh]

/-- Once publishing has stopped, the next call of `consume` returns, and it
returns the last published graph, or that graph has already been taken. -/
def NextConsumeAnswers (s : Mailbox n W) : Prop :=
  (∀ out includeCurrent, ∃ t, s.step (.consume out includeCurrent) = some t ∧
    t.results = s.results ∧ Completes t) ∧
  ∀ es t r rest, (∀ e ∈ es, e.isConsumer) → Steps s es t →
    t.results = s.results ++ r :: rest → Answers s r

theorem nextConsumeAnswers (hs : Represents initial s a)
    (hidle : s.consumer = .idle) : NextConsumeAnswers s := by
  refine ⟨completes_consume hidle, ?_⟩
  intro es t r rest hes hrun hresults
  have hquiet : Quiet s t := by
    refine Run.invariant (P := fun e => e.isConsumer) (Quiet s) ?_ hrun hes
      (quiet_refl hidle)
    intro t e t' he ht hstep
    have hstep' : t.consumeStep e = some t' := by
      rw [step, if_pos he] at hstep
      exact hstep
    exact quiet_step hs hidle ht hstep'
  exact hquiet.answered r rest hresults

end Mailbox

open Mailbox in
/-- The mailbox as the publisher and the consumer see it, whatever the order
of their steps. -/
theorem mailbox_contract {n : Nat} {W : Type} {slots : UInt32 → GraphWords n W}
    {es : List (MailboxEvent n W)} {s : Mailbox n W}
    (h : Steps (start slots) es s) :
    [s.back, index s.middle, s.front].Perm [0, 1, 2] ∧
      (∀ i j, s.writing = some i → s.reading = some j → i ≠ j) ∧
      s.taken.Sublist s.published ∧
      (s.publisher = .idle → s.consumer = .idle → NextConsumeAnswers s) := by
  obtain ⟨a, ha⟩ := represents_run h
  refine ⟨ha.indices, ?_, ?_, fun _ hidle => nextConsumeAnswers ha hidle⟩
  · intro i j hi hj
    obtain ⟨-, hne, -⟩ := slots_ne ha.indices
    have hback : i = s.back := by
      unfold writing at hi
      split at hi
      · exact (Option.some.inj hi).symm
      · cases hi
    have hfront : j = s.front := by
      unfold reading at hj
      split at hj
      · exact (Option.some.inj hj).symm
      · cases hj
    rw [hback, hfront]
    exact hne
  · have hsub := a.sublist
    rw [ha.taken, ha.published] at hsub
    exact (List.sublist_append_left _ _).trans hsub

/-- The second graph is being written while the first one is taken. -/
def overtakingEvents : List (MailboxEvent 1 Nat) :=
  [.publish fun _ => 1, .write, .exchangeBack, .publish fun _ => 2,
    .consume (fun _ => 0) false, .load, .write, .exchangeFront,
    .exchangeBack, .read, .finish]

open Mailbox in
theorem mailbox_contract_overtaking :
    ∃ s : Mailbox 1 Nat, Steps (start fun _ _ => 0) overtakingEvents s ∧
      s.taken.map (· 0) = [1] ∧ s.published.map (· 0) = [1, 2] ∧
      s.taken.Sublist s.published ∧ NextConsumeAnswers s := by
  have hrun : ∃ s : Mailbox 1 Nat,
      Steps (start fun _ _ => 0) overtakingEvents s ∧
        s.taken.map (· 0) = [1] ∧ s.published.map (· 0) = [1, 2] ∧
        s.publisher = .idle ∧ s.consumer = .idle :=
    ⟨_, .cons rfl (.cons rfl (.cons rfl (.cons rfl (.cons rfl (.cons rfl
      (.cons rfl (.cons rfl (.cons rfl (.cons rfl (.cons rfl
        (.nil _))))))))))), rfl, rfl, rfl, rfl⟩
  obtain ⟨s, hrun, htaken, hpublished, hpublisher, hconsumer⟩ := hrun
  obtain ⟨-, -, hsub, hnext⟩ := mailbox_contract hrun
  exact ⟨s, hrun, htaken, hpublished, hsub, hnext hpublisher hconsumer⟩

end Audiox
