import Audiox.Audio.PluginExchange
import Mathlib

/-!
# Turns in the exchange with a plugin

The two sides are never in the arrays at the same time.  No generation is
younger than that of the mailbox, and the arrays hold the last request and what
the worker has done of it.
-/

namespace Audiox.PluginExchange

open Runs

section

variable {channels frames : Nat} {V S : Type}

/-! ## Whose turn it is -/

/-- The host reads or writes the arrays of the mailbox. -/
def HostAt.touches : HostAt channels frames V → Bool
  | .idle => false
  | .checking _ => false
  | .loading _ => false
  | .hearing _ => true
  | .copying _ _ wet _ => wet
  | .writing _ _ => true
  | .resetting => false

/-- The request between taking it and publishing its response. -/
def WorkerAt.owned : WorkerAt channels frames V S → Option UInt32
  | .polling => none
  | .taking => none
  | .checking request => some request
  | .comparing request => some request
  | .clamping request _ => some request
  | .processing request _ _ => some request
  | .answering request _ => some request
  | .publishing request _ => some request
  | .failed => none

theorem nextSequence_ne (n : UInt32) : nextSequence n ≠ n := by
  intro h
  unfold nextSequence at h
  split at h
  · next hwrap =>
      rw [← h] at hwrap
      exact absurd hwrap (by decide)
  · have hn : (n + 1).toNat = n.toNat := congrArg UInt32.toNat h
    rw [UInt32.toNat_add] at hn
    have hlt := n.toNat_lt
    change (n.toNat + 1) % 2 ^ 32 = n.toNat at hn
    omega

theorem nextSequence_ne_zero (n : UInt32) : nextSequence n ≠ 0 := by
  unfold nextSequence
  split
  · decide
  · assumption

/-- How old a generation is, as long as there are fewer than 2^32 of them. -/
def age (generation : UInt32) : Nat := (generation - 1).toNat

theorem age_inj {a b : UInt32} : age a = age b ↔ a = b := by
  constructor
  · intro h
    have hsub := UInt32.toNat_inj.mp h
    have hadd := congrArg (· + 1) hsub
    simpa using hadd
  · rintro rfl
    rfl

theorem age_succ {a : UInt32} (h : age a + 1 < 2 ^ 32) :
    age (a + 1) = age a + 1 := by
  have heq : a + 1 - 1 = (a - 1) + 1 := by
    rw [UInt32.add_sub_cancel, UInt32.sub_add_cancel]
  rw [age, heq, UInt32.toNat_add]
  exact Nat.mod_eq_of_lt h

/-- The arguments of a call that has not ended. -/
def HostAt.args :
    HostAt channels frames V → Option (Arguments channels frames V)
  | .idle => none
  | .checking args => some args
  | .loading args => some args
  | .hearing args => some args
  | .copying args _ _ _ => some args
  | .writing args _ => some args
  | .resetting => none

/-- The request that the worker works on, and the channels that are done. -/
def WorkerAt.progress :
    WorkerAt channels frames V S → Option (Taken channels frames V S × Nat)
  | .clamping _ taken => some (taken, 0)
  | .processing _ taken channel => some (taken, channel)
  | .answering _ taken => some (taken, channels)
  | .publishing _ taken => some (taken, channels)
  | _ => none

def WorkerAt.clamped : WorkerAt channels frames V S → Bool
  | .processing _ _ _ => true
  | .answering _ _ => true
  | .publishing _ _ => true
  | _ => false

/-- What the worker makes of a request. -/
def Taken.result (M : Module frames V S) (t : Taken channels frames V S) :
    Samples channels frames V :=
  fun c => (M.process (t.instances c) (t.input c) (M.clamp t.params)).2

/-- The instances when they have processed a request. -/
def advance (M : Module frames V S) (instances : Fin channels → S)
    (r : Request channels frames V) : Fin channels → S :=
  fun c => (M.process (instances c) (r.input c) (M.clamp r.params)).1

namespace Exchange

variable {M : Module frames V S} {s : Exchange channels frames V S}

/-- The host has a request in flight exactly while it waits for a response, and
the worker owns none but that one. -/
structure Turns (s : Exchange channels frames V S) : Prop where
  request : s.request = s.sequence
  completed : s.completed = s.response
  inFlight : s.inFlight = 0 ∨ s.inFlight = s.sequence
  pending : s.response ≠ s.sequence → s.inFlight = s.sequence
  zero : s.sequence = 0 → s.response = 0
  owned : ∀ r, s.worker.owned = some r →
    r = s.sequence ∧ s.response ≠ s.sequence
  loading : ∀ args, s.host = .loading args → s.inFlight ≠ 0
  hearing : ∀ args, s.host = .hearing args →
    s.response = s.sequence ∧ s.inFlight ≠ 0
  wet : ∀ args ready missed, s.host = .copying args ready true missed →
    s.response = s.sequence
  writing : ∀ args part, s.host = .writing args part → s.inFlight = 0
  counted : s.requests =
    s.taken.length + if s.response = s.sequence then 0 else 1

theorem Turns.start (h : s.Prepared M) : s.Turns := by
  obtain ⟨_, _, _, _, _, _, _, _, hhost, _, _, _, _, _, _, _, hworker, _⟩ := h
  constructor <;> grind [WorkerAt.owned]

theorem Turns.host [Zero V] (h : s.Turns) : s.hostStep.Turns := by
  obtain ⟨h1, h2, h3, h4, h5, h6, h7, h8, h9, h10, h11⟩ := h
  have hn := nextSequence_ne s.sequence
  have hz := nextSequence_ne_zero s.sequence
  cases hpc : s.host with
  | idle =>
    simp only [hostStep, hpc]
    exact ⟨h1, h2, h3, h4, h5, h6, h7, h8, h9, h10, h11⟩
  | checking args =>
    simp only [hostStep, hpc, checkState]
    constructor <;> grind
  | loading args =>
    simp only [hostStep, hpc, loadResponse]
    constructor <;> grind
  | hearing args =>
    simp only [hostStep, hpc, hear]
    constructor <;> grind
  | copying args ready wet missed =>
    simp only [hostStep, hpc, copyAudio]
    constructor <;> grind
  | writing args part =>
    cases part
    all_goals
      simp only [hostStep, hpc, writePart]
      constructor <;> grind
  | resetting =>
    simp only [hostStep, hpc]
    constructor <;> grind

theorem Turns.worker (h : s.Turns) : (s.workerStep M).Turns := by
  obtain ⟨h1, h2, h3, h4, h5, h6, h7, h8, h9, h10, h11⟩ := h
  cases hpc : s.worker with
  | polling =>
      simp only [workerStep, hpc]
      constructor <;> grind [WorkerAt.owned]
  | taking =>
      simp only [workerStep, hpc]
      constructor <;> grind [WorkerAt.owned]
  | checking request =>
      have hrequest := h6 request (by rw [hpc]; rfl)
      simp only [workerStep, hpc]
      constructor <;> grind [WorkerAt.owned]
  | comparing request =>
      have hrequest := h6 request (by rw [hpc]; rfl)
      simp only [workerStep, hpc]
      constructor <;> grind [WorkerAt.owned]
  | clamping request taken =>
      have hrequest := h6 request (by rw [hpc]; rfl)
      simp only [workerStep, hpc]
      constructor <;> grind [WorkerAt.owned]
  | processing request taken channel =>
      have hrequest := h6 request (by rw [hpc]; rfl)
      simp only [workerStep, hpc, processChannel]
      constructor <;> grind [WorkerAt.owned]
  | answering request taken =>
      have hrequest := h6 request (by rw [hpc]; rfl)
      simp only [workerStep, hpc]
      constructor <;> grind [WorkerAt.owned]
  | publishing request taken =>
      have hrequest := h6 request (by rw [hpc]; rfl)
      simp only [workerStep, hpc]
      constructor <;> grind [WorkerAt.owned]
  | failed =>
      simp only [workerStep, hpc]
      exact ⟨h1, h2, h3, h4, h5, h6, h7, h8, h9, h10, h11⟩

theorem Turns.step [Zero V] (h : s.Turns) (e : Event channels frames V) :
    (s.step M e).Turns := by
  cases e with
  | host => exact h.host
  | worker => exact h.worker
  | process ins params =>
    obtain ⟨h1, h2, h3, h4, h5, h6, h7, h8, h9, h10, h11⟩ := h
    simp only [Exchange.step, beginProcess]
    constructor <;> grind
  | reset =>
    obtain ⟨h1, h2, h3, h4, h5, h6, h7, h8, h9, h10, h11⟩ := h
    simp only [Exchange.step]
    constructor <;> grind

/-- While the host is in the arrays, every request has its response. -/
theorem Turns.answered (h : s.Turns) (ht : s.host.touches = true) :
    s.response = s.sequence := by
  obtain ⟨h1, h2, h3, h4, h5, h6, h7, h8, h9, h10, h11⟩ := h
  cases hpc : s.host with
  | idle => simp [hpc, HostAt.touches] at ht
  | checking args => simp [hpc, HostAt.touches] at ht
  | loading args => simp [hpc, HostAt.touches] at ht
  | hearing args => exact (h8 args hpc).1
  | copying args ready wet missed => grind [HostAt.touches]
  | writing args part => grind
  | resetting => simp [hpc, HostAt.touches] at ht

/-! ## The order of the generations -/

/-- Nothing is younger than the generation in the mailbox, which is that of the
host unless a reset has not ended. -/
structure Ages (resets : Nat) (s : Exchange channels frames V S) : Prop where
  bound : age s.generation ≤ resets
  box : s.host ≠ .resetting → s.boxGeneration = s.generation
  resetting : s.host = .resetting → age s.boxGeneration + 1 = age s.generation
  localAge : age s.localGeneration ≤ age s.generation
  args : ∀ args, s.host.args = some args →
    args.generation = s.generation ∧ s.localGeneration = s.generation
  sent : s.sequence ≠ 0 → age s.sent.generation ≤ age s.boxGeneration
  worker : age s.workerGeneration ≤ age s.boxGeneration
  written : ∀ args, s.host = .writing args .publish →
    s.requestGeneration = args.generation
  pending : s.response ≠ s.sequence → s.requestGeneration = s.sent.generation
  working : ∀ t k, s.worker.progress = some (t, k) →
    t.generation = s.sent.generation ∧ t.generation = s.workerGeneration
  taken : ∀ t ∈ s.taken,
    s.sequence ≠ 0 ∧ age t.generation ≤ age s.sent.generation
  older : age s.workerGeneration < age s.boxGeneration → ∀ t ∈ s.taken,
    age t.generation < age s.boxGeneration

/-- What the order of the generations is about, apart from the positions of the
two sides. -/
def generations (s : Exchange channels frames V S) :
    (UInt32 × UInt32 × UInt32 × UInt32 × UInt32) ×
      (UInt32 × UInt32 × UInt32) × List (Taken channels frames V S) :=
  ((s.generation, s.boxGeneration, s.localGeneration, s.workerGeneration,
      s.requestGeneration), (s.sequence, s.response, s.sent.generation),
    s.taken)

/-- A step within a call, or within the work on a request. -/
theorem Ages.frame {resets : Nat} (h : s.Ages resets)
    {s' : Exchange channels frames V S} (hsame : s'.generations = s.generations)
    (hreset : s'.host = .resetting ↔ s.host = .resetting)
    (hargs : ∀ args, s'.host.args = some args → s.host.args = some args)
    (hwritten : ∀ args, s'.host = .writing args .publish →
      s.host = .writing args .publish)
    (hworking : ∀ t k, s'.worker.progress = some (t, k) →
      ∃ k', s.worker.progress = some (t, k')) : s'.Ages resets := by
  obtain ⟨h1, h2, h3, h4, h5, h6, h7, h8, h9, h10, h11, h12⟩ := h
  simp only [generations, Prod.mk.injEq] at hsame
  obtain ⟨⟨e1, e2, e3, e4, e5⟩, ⟨e6, e7, e8⟩, e9⟩ := hsame
  constructor
  · rwa [e1]
  · rwa [e1, e2, Ne, hreset]
  · rwa [e1, e2, hreset]
  · rwa [e1, e3]
  · intro args ha
    rw [e1, e3]
    exact h5 args (hargs args ha)
  · rwa [e2, e6, e8]
  · rwa [e2, e4]
  · intro args hw
    rw [e5]
    exact h8 args (hwritten args hw)
  · rwa [e5, e7, e6, e8]
  · intro t k hprogress
    obtain ⟨k', hk'⟩ := hworking t k hprogress
    rw [e4, e8]
    exact h10 t k' hk'
  · rwa [e6, e8, e9]
  · rwa [e2, e4, e9]

theorem owned_of_progress {w : WorkerAt channels frames V S}
    {p : Taken channels frames V S × Nat} (h : w.progress = some p) :
    ∃ r, w.owned = some r := by
  cases w with
  | clamping request taken => exact ⟨request, rfl⟩
  | processing request taken channel => exact ⟨request, rfl⟩
  | answering request taken => exact ⟨request, rfl⟩
  | publishing request taken => exact ⟨request, rfl⟩
  | _ => cases h

theorem owned_of_clamped {w : WorkerAt channels frames V S}
    (h : w.clamped = true) : ∃ r, w.owned = some r := by
  cases w with
  | processing request taken channel => exact ⟨request, rfl⟩
  | answering request taken => exact ⟨request, rfl⟩
  | publishing request taken => exact ⟨request, rfl⟩
  | _ => cases h

/-- While the host is in the arrays, the worker works on nothing. -/
theorem Turns.unworked (h : s.Turns) (ht : s.response = s.sequence)
    (p : Taken channels frames V S × Nat) : s.worker.progress ≠ some p := by
  intro hprogress
  obtain ⟨r, hr⟩ := owned_of_progress hprogress
  exact (h.owned r hr).2 ht

theorem Ages.writePart [Zero V]
    {resets : Nat} (h : s.Ages resets) (hturns : s.Turns)
    {args : Arguments channels frames V} {part : Part}
    (hpc : s.host = .writing args part) :
    (s.writePart args part).Ages resets := by
  have hidle : s.response = s.sequence := hturns.answered (by rw [hpc]; rfl)
  have hnone := hturns.unworked hidle
  cases part with
  | generation =>
      obtain ⟨h1, h2, h3, h4, h5, h6, h7, h8, h9, h10, h11, h12⟩ := h
      simp only [Exchange.writePart]
      constructor <;> grind [HostAt.args]
  | publish =>
      have hz := nextSequence_ne_zero s.sequence
      obtain ⟨h1, h2, h3, h4, h5, h6, h7, h8, h9, h10, h11, h12⟩ := h
      have hwritten := h8 args hpc
      simp only [Exchange.writePart]
      constructor <;> grind [HostAt.args]
  | _ =>
      apply h.frame
      · rfl
      · simp [Exchange.writePart, hpc]
      · simp [Exchange.writePart, hpc, HostAt.args]
      · simp [Exchange.writePart]
      · exact fun t k hk => ⟨k, hk⟩

theorem Ages.host [Zero V]
    {resets : Nat} (h : s.Ages resets) (hturns : s.Turns) :
    s.hostStep.Ages resets := by
  cases hpc : s.host with
  | idle => rwa [hostStep, hpc]
  | checking args =>
    rw [hostStep, hpc]
    apply h.frame
    · grind [checkState, generations]
    · grind [checkState]
    · grind [checkState, HostAt.args]
    · grind [checkState]
    · grind [checkState]
  | loading args =>
    rw [hostStep, hpc]
    apply h.frame
    · grind [loadResponse, generations]
    · grind [loadResponse]
    · grind [loadResponse, HostAt.args]
    · grind [loadResponse]
    · grind [loadResponse]
  | hearing args =>
    rw [hostStep, hpc]
    apply h.frame
    · rfl
    · simp [hear, hpc]
    · simp [hear, hpc, HostAt.args]
    · simp [hear]
    · exact fun t k hk => ⟨k, hk⟩
  | copying args ready wet missed =>
    rw [hostStep, hpc]
    apply h.frame
    · rfl
    · grind [copyAudio]
    · grind [copyAudio, HostAt.args]
    · grind [copyAudio]
    · exact fun t k hk => ⟨k, hk⟩
  | writing args part =>
    rw [hostStep, hpc]
    exact h.writePart hturns hpc
  | resetting =>
    obtain ⟨h1, h2, h3, h4, h5, h6, h7, h8, h9, h10, h11, h12⟩ := h
    have hyounger := h3 hpc
    simp only [hostStep, hpc]
    constructor <;> grind [HostAt.args]

theorem Ages.worker_step {resets : Nat} (h : s.Ages resets) (hturns : s.Turns) :
    (s.workerStep M).Ages resets := by
  cases hpc : s.worker with
  | polling =>
      obtain ⟨h1, h2, h3, h4, h5, h6, h7, h8, h9, h10, h11, h12⟩ := h
      simp only [workerStep, hpc]
      constructor <;> grind [WorkerAt.progress]
  | taking =>
      rw [workerStep, hpc]
      apply h.frame
      · grind [generations]
      · grind
      · grind
      · grind
      · grind [WorkerAt.progress]
  | checking request =>
      rw [workerStep, hpc]
      apply h.frame
      · grind [generations]
      · grind
      · grind
      · grind
      · grind [WorkerAt.progress]
  | comparing request =>
      have hrequest := hturns.owned request (by rw [hpc]; rfl)
      have hzero := hturns.zero
      obtain ⟨h1, h2, h3, h4, h5, h6, h7, h8, h9, h10, h11, h12⟩ := h
      simp only [workerStep, hpc]
      constructor <;> grind [WorkerAt.progress]
  | clamping request taken =>
      rw [workerStep, hpc]
      apply h.frame
      · rfl
      · rfl
      · exact fun _ ha => ha
      · exact fun _ hw => hw
      · simp [hpc, WorkerAt.progress]
  | processing request taken channel =>
      rw [workerStep, hpc]
      apply h.frame
      · grind [processChannel, generations]
      · grind [processChannel]
      · grind [processChannel]
      · grind [processChannel]
      · grind [processChannel, WorkerAt.progress]
  | answering request taken =>
      rw [workerStep, hpc]
      apply h.frame
      · rfl
      · rfl
      · exact fun _ ha => ha
      · exact fun _ hw => hw
      · simp [hpc, WorkerAt.progress]
  | publishing request taken =>
      have hrequest := hturns.owned request (by rw [hpc]; rfl)
      have hzero := hturns.zero
      have htaken := h.working taken channels (by rw [hpc]; rfl)
      obtain ⟨h1, h2, h3, h4, h5, h6, h7, h8, h9, h10, h11, h12⟩ := h
      simp only [workerStep, hpc]
      constructor <;> grind [WorkerAt.progress]
  | failed => rwa [workerStep, hpc]

theorem Ages.process {resets : Nat} (h : s.Ages resets)
    (hpc : s.host = .idle) (ins : Samples channels frames V)
    (params : Option (Params V)) :
    (s.beginProcess ins params).Ages resets := by
  obtain ⟨h1, h2, h3, h4, h5, h6, h7, h8, h9, h10, h11, h12⟩ := h
  simp only [beginProcess]
  constructor <;> grind [HostAt.args]

theorem Ages.reset {resets : Nat} (h : s.Ages resets) (hpc : s.host = .idle)
    (hbound : resets + 1 < 2 ^ 32) :
    { s with
      generation := s.generation + 1
      host := .resetting }.Ages (resets + 1) := by
  have hage : age (s.generation + 1) = age s.generation + 1 :=
    age_succ (by have := h.bound; omega)
  obtain ⟨h1, h2, h3, h4, h5, h6, h7, h8, h9, h10, h11, h12⟩ := h
  constructor <;> grind [HostAt.args]

theorem Ages.start (h : s.Prepared M) : s.Ages 0 := by
  obtain ⟨_, _, _, _, _, _, _, _, hhost, _, _, _, _, _, _, _, hworker, _⟩ := h
  have hage : age 1 = 0 := by decide
  constructor <;> grind [HostAt.args, WorkerAt.progress]

theorem Ages.box_le {resets : Nat} (h : s.Ages resets) :
    age s.boxGeneration ≤ age s.generation := by
  by_cases hpc : s.host = .resetting
  · have hlt := h.resetting hpc
    omega
  · rw [h.box hpc]

/-! ## What is in the arrays -/

/-- The arrays hold the request that was sent, and what the worker has done of
it; after the response, what it has made of it. -/
structure Arrays [Zero V]
    (M : Module frames V S) (s : Exchange channels frames V S) :
    Prop where
  input : s.response ≠ s.sequence → s.input = s.sent.input
  params : s.response ≠ s.sequence → s.params =
    if s.worker.clamped then M.clamp s.sent.params else s.sent.params
  written : ∀ args part, s.host = .writing args part →
    s.dry = clean args.ins ∧ (part ≠ .input → s.input = s.dry) ∧
      (part ≠ .input → part ≠ .params → s.params = cleanParams args.params)
  working : ∀ t k, s.worker.progress = some (t, k) → t.toRequest = s.sent
  part : ∀ t k, s.worker.progress = some (t, k) → ∀ c,
    s.instances c =
        (if c.val < k then advance M t.instances t.toRequest c
          else t.instances c) ∧
      (c.val < k → s.output c = t.result M c)
  responded : ∀ r t, s.worker = .publishing r t →
    s.responseGeneration = s.sent.generation
  answered : s.response = s.sequence → s.sequence ≠ 0 →
    ∃ t, s.taken.getLast? = some t ∧ t.toRequest = s.sent ∧
      s.responseGeneration = s.sent.generation ∧ s.output = t.result M

/-- What the arrays are about, apart from the host. -/
def contents (s : Exchange channels frames V S) :
    (Samples channels frames V × Params V × Samples channels frames V ×
      (Fin channels → S)) × (UInt32 × UInt32 × UInt32) ×
        Request channels frames V × WorkerAt channels frames V S ×
          List (Taken channels frames V S) :=
  ((s.input, s.params, s.output, s.instances),
    (s.sequence, s.response, s.responseGeneration), s.sent, s.worker, s.taken)

/-- A step of the host outside the arrays. -/
theorem Arrays.frame [Zero V]
    (h : s.Arrays M) {s' : Exchange channels frames V S}
    (hsame : s'.contents = s.contents)
    (hwritten : ∀ args part, s'.host = .writing args part →
      s'.dry = clean args.ins ∧ (part ≠ .input → s'.input = s'.dry) ∧
        (part ≠ .input → part ≠ .params →
          s'.params = cleanParams args.params)) : s'.Arrays M := by
  obtain ⟨h1, h2, -, h4, h5, h6, h7⟩ := h
  simp only [contents, Prod.mk.injEq] at hsame
  obtain ⟨⟨e1, e2, e3, e4⟩, ⟨e5, e6, e7⟩, e8, e9, e10⟩ := hsame
  refine ⟨?_, ?_, hwritten, ?_, ?_, ?_, ?_⟩
  · rwa [e1, e5, e6, e8]
  · rwa [e2, e5, e6, e8, e9]
  · rwa [e8, e9]
  · rwa [e3, e4, e9]
  · rwa [e7, e8, e9]
  · rwa [e3, e5, e6, e7, e8, e10]

theorem Arrays.writePart [Zero V] (h : s.Arrays M) (hturns : s.Turns)
    {args : Arguments channels frames V} {part : Part}
    (hpc : s.host = .writing args part) :
    (s.writePart args part).Arrays M := by
  have hidle : s.response = s.sequence := hturns.answered (by rw [hpc]; rfl)
  have hnone := hturns.unworked hidle
  have hwritten := h.written args part hpc
  have howned := hturns.owned
  have hn := nextSequence_ne s.sequence
  obtain ⟨h1, h2, h3, h4, h5, h6, h7⟩ := h
  cases part with
  | input =>
      simp only [Exchange.writePart]
      constructor <;> grind
  | params =>
      simp only [Exchange.writePart]
      constructor <;> grind
  | frames =>
      simp only [Exchange.writePart]
      constructor <;> grind
  | generation =>
      simp only [Exchange.writePart]
      constructor <;> grind
  | publish =>
      have hclamped : s.worker.clamped = false := by
        by_contra hclamped
        obtain ⟨r, hr⟩ := owned_of_clamped (by simpa using hclamped)
        exact (howned r hr).2 hidle
      obtain ⟨-, hinput, hparams⟩ := hwritten
      simp only [Exchange.writePart]
      refine ⟨?_, ?_, ?_, ?_, ?_, ?_, ?_⟩
      · exact fun _ => hinput (by simp)
      · intro _
        rw [hclamped]
        exact hparams (by simp) (by simp)
      · simp
      · exact fun t k hk => absurd hk (hnone (t, k))
      · exact fun t k hk => absurd hk (hnone (t, k))
      · intro r t hpublishing
        exact absurd hidle (howned r (by rw [hpublishing]; rfl)).2
      · exact fun heq => absurd (heq.symm.trans hidle) hn

theorem Arrays.host [Zero V] (h : s.Arrays M) (hturns : s.Turns) :
    s.hostStep.Arrays M := by
  cases hpc : s.host with
  | idle => rwa [hostStep, hpc]
  | checking args =>
    rw [hostStep, hpc]
    apply h.frame
    · grind [checkState, contents]
    · grind [checkState]
  | loading args =>
    rw [hostStep, hpc]
    apply h.frame
    · grind [loadResponse, contents]
    · grind [loadResponse]
  | hearing args =>
    rw [hostStep, hpc]
    apply h.frame
    · rfl
    · simp [hear]
  | copying args ready wet missed =>
    rw [hostStep, hpc]
    apply h.frame
    · rfl
    · grind [copyAudio]
  | writing args part =>
    rw [hostStep, hpc]
    exact h.writePart hturns hpc
  | resetting =>
    rw [hostStep, hpc]
    apply h.frame
    · rfl
    · simp

theorem Arrays.worker [Zero V]
    (h : s.Arrays M) (hturns : s.Turns) {resets : Nat}
    (hages : s.Ages resets) : (s.workerStep M).Arrays M := by
  have hwriting : s.response ≠ s.sequence → ∀ args part,
      s.host ≠ .writing args part :=
    fun hne args part hpc => hne (hturns.answered (by rw [hpc]; rfl))
  have hpending := hages.pending
  cases hpc : s.worker with
  | polling =>
      obtain ⟨h1, h2, h3, h4, h5, h6, h7⟩ := h
      simp only [workerStep, hpc]
      constructor <;> grind [WorkerAt.progress, WorkerAt.clamped]
  | taking =>
      obtain ⟨h1, h2, h3, h4, h5, h6, h7⟩ := h
      simp only [workerStep, hpc]
      constructor <;> grind [WorkerAt.progress, WorkerAt.clamped]
  | checking request =>
      obtain ⟨h1, h2, h3, h4, h5, h6, h7⟩ := h
      simp only [workerStep, hpc]
      constructor <;> grind [WorkerAt.progress, WorkerAt.clamped]
  | comparing request =>
      have hrequest := hturns.owned request (by rw [hpc]; rfl)
      obtain ⟨h1, h2, h3, h4, h5, h6, h7⟩ := h
      have hinput := h1 hrequest.2
      have hparams := h2 hrequest.2
      rw [hpc] at hparams
      simp only [workerStep, hpc]
      refine ⟨h1, ?_, h3, ?_, ?_, ?_, h7⟩
      · exact fun _ => hparams
      · intro t k hk
        obtain ⟨rfl, -⟩ := Prod.mk.inj (Option.some.inj hk)
        rw [hinput, hpending hrequest.2, hparams]
        rfl
      · intro t k hk c
        obtain ⟨rfl, rfl⟩ := Prod.mk.inj (Option.some.inj hk)
        simp
      · simp
  | clamping request taken =>
      have hrequest := hturns.owned request (by rw [hpc]; rfl)
      obtain ⟨h1, h2, h3, h4, h5, h6, h7⟩ := h
      have hparams := h2 hrequest.2
      have hwork := h4 taken 0 (by rw [hpc]; rfl)
      have hpart := h5 taken 0 (by rw [hpc]; rfl)
      rw [hpc] at hparams
      simp only [workerStep, hpc]
      refine ⟨h1, ?_, ?_, ?_, ?_, ?_, h7⟩
      · intro _
        rw [hparams]
        rfl
      · exact fun args part hhost =>
          absurd hhost (hwriting hrequest.2 args part)
      · intro t k hk
        obtain ⟨rfl, -⟩ := Prod.mk.inj (Option.some.inj hk)
        exact hwork
      · intro t k hk
        obtain ⟨rfl, rfl⟩ := Prod.mk.inj (Option.some.inj hk)
        exact hpart
      · simp
  | processing request taken channel =>
      have hrequest := hturns.owned request (by rw [hpc]; rfl)
      obtain ⟨h1, h2, h3, h4, h5, h6, h7⟩ := h
      have hinput := h1 hrequest.2
      have hparams := h2 hrequest.2
      have hwork := h4 taken channel (by rw [hpc]; rfl)
      have hpart := h5 taken channel (by rw [hpc]; rfl)
      rw [hpc] at hparams
      simp only [workerStep, hpc, processChannel]
      split
      next hchannel =>
        refine ⟨h1, ?_, h3, ?_, ?_, ?_, ?_⟩
        · exact fun _ => hparams
        · intro t k hk
          obtain ⟨rfl, -⟩ := Prod.mk.inj (Option.some.inj hk)
          exact hwork
        · intro t k hk c
          obtain ⟨rfl, rfl⟩ := Prod.mk.inj (Option.some.inj hk)
          have hc := hpart c
          by_cases heq : c = ⟨channel, hchannel⟩
          · subst heq
            rw [if_neg (lt_irrefl channel)] at hc
            dsimp only
            rw [Function.update_self, Function.update_self,
              if_pos (Nat.lt_succ_self channel), hc.1, hinput, hparams,
              ← hwork]
            exact ⟨rfl, fun _ => rfl⟩
          · have hne : c.val ≠ channel := fun h => heq (Fin.ext h)
            dsimp only
            rw [Function.update_of_ne heq, Function.update_of_ne heq]
            have hiff : c.val < channel + 1 ↔ c.val < channel := by omega
            simp only [hiff]
            exact hc
        · simp
        · exact fun heq => absurd heq hrequest.2
      next hchannel =>
        refine ⟨h1, ?_, h3, ?_, ?_, ?_, h7⟩
        · exact fun _ => hparams
        · intro t k hk
          obtain ⟨rfl, -⟩ := Prod.mk.inj (Option.some.inj hk)
          exact hwork
        · intro t k hk c
          obtain ⟨rfl, rfl⟩ := Prod.mk.inj (Option.some.inj hk)
          have hc := hpart c
          have hlt := c.isLt
          rw [if_pos (by omega)] at hc
          rw [if_pos hlt]
          exact ⟨hc.1, fun _ => hc.2 (by omega)⟩
        · simp
  | answering request taken =>
      have hrequest := hturns.owned request (by rw [hpc]; rfl)
      obtain ⟨h1, h2, h3, h4, h5, h6, h7⟩ := h
      have hparams := h2 hrequest.2
      have hwork := h4 taken channels (by rw [hpc]; rfl)
      have hpart := h5 taken channels (by rw [hpc]; rfl)
      rw [hpc] at hparams
      simp only [workerStep, hpc]
      refine ⟨h1, ?_, h3, ?_, ?_, ?_, ?_⟩
      · exact fun _ => hparams
      · intro t k hk
        obtain ⟨rfl, -⟩ := Prod.mk.inj (Option.some.inj hk)
        exact hwork
      · intro t k hk
        obtain ⟨rfl, rfl⟩ := Prod.mk.inj (Option.some.inj hk)
        exact hpart
      · exact fun _ _ _ => hpending hrequest.2
      · exact fun heq => absurd heq hrequest.2
  | publishing request taken =>
      have hrequest := hturns.owned request (by rw [hpc]; rfl)
      obtain ⟨h1, h2, h3, h4, h5, h6, h7⟩ := h
      have hwork := h4 taken channels (by rw [hpc]; rfl)
      have hpart := h5 taken channels (by rw [hpc]; rfl)
      have hresponded := h6 request taken hpc
      simp only [workerStep, hpc]
      refine ⟨?_, ?_, h3, ?_, ?_, ?_, ?_⟩
      · exact fun hne => absurd hrequest.1 hne
      · exact fun hne => absurd hrequest.1 hne
      · simp [WorkerAt.progress]
      · simp [WorkerAt.progress]
      · simp
      · intro _ _
        refine ⟨taken, List.getLast?_concat, hwork, hresponded, ?_⟩
        funext c
        exact (hpart c).2 c.isLt
  | failed => rwa [workerStep, hpc]

theorem Arrays.process [Zero V]
    (h : s.Arrays M) (ins : Samples channels frames V)
    (params : Option (Params V)) : (s.beginProcess ins params).Arrays M := by
  apply h.frame
  · grind [beginProcess, contents]
  · grind [beginProcess]

theorem Arrays.start [Zero V] (h : s.Prepared M) : s.Arrays M := by
  obtain ⟨_, _, _, _, _, _, _, _, hhost, _, _, _, _, _, _, _, hworker, _⟩ := h
  constructor <;> grind [WorkerAt.progress]

end Exchange

end

end Audiox.PluginExchange
