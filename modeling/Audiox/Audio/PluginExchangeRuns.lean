import Audiox.Audio.PluginExchangeSafety
import Mathlib

/-!
# Runs of the exchange with a plugin

Every interleaving of the calls and resets of the host with the steps of the
worker keeps the exchange exact, as long as the generations do not wrap.
-/

namespace Audiox.PluginExchange

open Runs

section

variable {channels frames : Nat} {V S : Type}

/-! ## The numbers of the calls -/

namespace Exchange

variable {M : Module frames V S} {s : Exchange channels frames V S}

/-- The requests that were answered belong to different calls, in their
order. -/
structure Numbers (s : Exchange channels frames V S) : Prop where
  calls : ∀ before c after, s.calls = before ++ c :: after →
    c.call = before.length
  sent : s.sequence ≠ 0 → s.sent.call < s.calls.length
  writing : ∀ args part, s.host = .writing args part → s.sequence ≠ 0 →
    s.sent.call + 1 < s.calls.length
  taken : ∀ t ∈ s.taken, s.sequence ≠ 0 ∧ t.call ≤ s.sent.call ∧
    (s.response ≠ s.sequence → t.call < s.sent.call)
  order : s.taken.Pairwise fun t t' => t.call < t'.call

/-- A step that neither ends a call nor sends a request nor answers one. -/
theorem Numbers.frame (h : s.Numbers) {s' : Exchange channels frames V S}
    (hsame : (s'.calls, s'.sequence, s'.response, s'.sent, s'.taken) =
      (s.calls, s.sequence, s.response, s.sent, s.taken))
    (hwriting : ∀ args part, s'.host = .writing args part →
      ∃ part', s.host = .writing args part') : s'.Numbers := by
  obtain ⟨h1, h2, h3, h4, h5⟩ := h
  simp only [Prod.mk.injEq] at hsame
  obtain ⟨e1, e2, e3, e4, e5⟩ := hsame
  constructor
  · rwa [e1]
  · rwa [e1, e2, e4]
  · intro args part hpc
    obtain ⟨part', hpc'⟩ := hwriting args part hpc
    rw [e1, e2, e4]
    exact h3 args part' hpc'
  · rwa [e2, e3, e4, e5]
  · rwa [e5]

theorem Numbers.copyAudio [Zero V] (h : s.Numbers)
    (args : Arguments channels frames V) (ready wet missed : Bool) :
    (s.copyAudio args ready wet missed).Numbers := by
  obtain ⟨h1, h2, h3, h4, h5⟩ := h
  rw [Exchange.copyAudio]
  refine ⟨?_, ?_, ?_, h4, h5⟩
  · intro before c after hsplit
    rcases eq_concat_cases hsplit with ⟨after', -, hcalls⟩ | ⟨-, rfl, rfl⟩
    · exact h1 before c after' hcalls
    · rfl
  · intro hz
    rw [List.length_append]
    exact (h2 hz).trans (Nat.lt_succ_self _)
  · intro args' part _ hz
    rw [List.length_append]
    exact Nat.succ_lt_succ (h2 hz)

theorem Numbers.publish [Zero V] (h : s.Numbers)
    {args : Arguments channels frames V}
    (hpc : s.host = .writing args .publish) (hcalls : s.calls ≠ []) :
    (s.writePart args .publish).Numbers := by
  have hlength := List.length_pos_iff.mpr hcalls
  obtain ⟨h1, h2, h3, h4, h5⟩ := h
  rw [Exchange.writePart]
  refine ⟨h1, ?_, ?_, ?_, h5⟩
  · intro _
    dsimp only
    omega
  · simp
  · intro t ht
    obtain ⟨hz, hle, -⟩ := h4 t ht
    have hlt := h3 args .publish hpc hz
    refine ⟨nextSequence_ne_zero s.sequence, ?_, ?_⟩
    · dsimp only
      omega
    · intro _
      dsimp only
      omega

theorem Numbers.host [Zero V] (h : s.Numbers) (hhistory : s.History M) :
    s.hostStep.Numbers := by
  cases hpc : s.host with
  | copying args ready wet missed =>
      rw [hostStep, hpc]
      exact h.copyAudio args ready wet missed
  | writing args part =>
      rw [hostStep, hpc]
      cases part with
      | publish =>
          obtain ⟨p, hp, -⟩ := hhistory.written args .publish hpc
          have hcalls : s.calls ≠ [] := by
            rintro hnil
            rw [hnil] at hp
            cases hp
          exact h.publish hpc hcalls
      | _ =>
          apply h.frame
          · rfl
          · grind [Exchange.writePart]
  | checking args =>
      rw [hostStep, hpc]
      apply h.frame
      · grind [checkState]
      · grind [checkState]
  | loading args =>
      rw [hostStep, hpc]
      apply h.frame
      · grind [loadResponse]
      · grind [loadResponse]
  | hearing args =>
      rw [hostStep, hpc]
      exact h.frame rfl (by simp [hear])
  | idle => rwa [hostStep, hpc]
  | resetting =>
      rw [hostStep, hpc]
      exact h.frame rfl (by simp)

theorem Numbers.worker [Zero V] (h : s.Numbers) (hturns : s.Turns)
    (harrays : s.Arrays M) : (s.workerStep M).Numbers := by
  cases hpc : s.worker with
  | publishing request taken =>
      have hrequest := hturns.owned request (by rw [hpc]; rfl)
      have hcall : taken.call = s.sent.call := by
        rw [harrays.working taken channels (by rw [hpc]; rfl)]
      have hz : s.sequence ≠ 0 := fun hz =>
        hrequest.2 ((hturns.zero hz).trans hz.symm)
      obtain ⟨h1, h2, h3, h4, h5⟩ := h
      rw [workerStep, hpc]
      refine ⟨h1, h2, h3, ?_, ?_⟩
      · intro t ht
        rcases List.mem_append.mp ht with ht | ht
        · obtain ⟨-, hle, -⟩ := h4 t ht
          exact ⟨hz, hle, fun hne => absurd hrequest.1 hne⟩
        · obtain rfl := List.mem_singleton.mp ht
          exact ⟨hz, hcall.le, fun hne => absurd hrequest.1 hne⟩
      · rw [List.pairwise_append]
        refine ⟨h5, List.pairwise_singleton _ _, ?_⟩
        intro t ht t' ht'
        obtain rfl := List.mem_singleton.mp ht'
        rw [hcall]
        exact (h4 t ht).2.2 hrequest.2
  | taking =>
      apply h.frame
      · grind [workerStep]
      · grind [workerStep]
  | checking request =>
      apply h.frame
      · grind [workerStep]
      · grind [workerStep]
  | processing request taken channel =>
      apply h.frame
      · grind [workerStep, processChannel]
      · grind [workerStep, processChannel]
  | _ =>
      rw [workerStep, hpc]
      exact h.frame rfl fun args part hwriting => ⟨part, hwriting⟩

theorem Numbers.start (h : s.Prepared M) : s.Numbers := by
  obtain ⟨_, _, _, hsequence, _, _, _, _, hhost, _, _, _, _, _, _, _, _, _,
    hcalls, htaken⟩ := h
  constructor
  · simp [hcalls]
  · simp [hsequence]
  · simp [hhost]
  · simp [htaken]
  · simp [htaken]

/-! ## Calls without a response -/

/-- How many calls in a row, up to the last one, have missed a response. -/
def late (calls : List (Call channels frames V)) : Nat :=
  (calls.reverse.takeWhile fun c => c.missed).length

theorem late_concat (calls : List (Call channels frames V))
    (c : Call channels frames V) :
    late (calls ++ [c]) = if c.missed then late calls + 1 else 0 := by
  rw [late, List.reverse_concat, List.takeWhile_cons]
  split
  · rfl
  · rfl

/-- The host counts the calls in a row that have missed a response, and fails
at the 32nd. -/
structure Missed (s : Exchange channels frames V S) : Prop where
  zero : s.inFlight = 0 → s.missed = 0
  counted : s.ready = true →
    (∀ args ready wet missed, s.host ≠ .copying args ready wet missed) →
      s.missed.toNat = late s.calls
  again : ∀ args ready wet, s.host = .copying args ready wet true →
    late s.calls < 32 ∧ s.missed.toNat = late s.calls + 1 ∧
      (s.ready = true ↔ late s.calls + 1 < 32)
  fresh : ∀ args ready wet, s.host = .copying args ready wet false →
    s.ready = true → s.missed = 0
  waiting : ∀ args, s.host = .loading args ∨ s.host = .hearing args →
    s.ready = true
  steady : s.ready = true → ∀ before after, s.calls = before ++ after →
    late before < 32
  fault : s.ready = false → s.workerReady = false ∨
    (∃ before after, s.calls = before ++ after ∧ late before = 32) ∨
      ∃ args ready wet, s.host = .copying args ready wet true ∧
        late s.calls + 1 = 32

theorem Missed.loadResponse (h : s.Missed) (hturns : s.Turns)
    {args : Arguments channels frames V} (hpc : s.host = .loading args) :
    (s.loadResponse args).Missed := by
  have hready := h.waiting args (.inl hpc)
  have hcount := h.counted hready (by simp [hpc])
  have hne := hturns.loading args hpc
  have hlate := h.steady hready s.calls [] (List.append_nil _).symm
  have hsucc : (s.missed + 1).toNat = late s.calls + 1 := by
    rw [UInt32.toNat_add, hcount]
    change (late s.calls + 1) % 2 ^ 32 = late s.calls + 1
    omega
  have hlt : s.missed + 1 < kMaxMissedCycles ↔ late s.calls + 1 < 32 := by
    rw [UInt32.lt_iff_toNat_lt, hsucc]
    rfl
  obtain ⟨h1, h2, h3, h4, h5, h6, h7⟩ := h
  rw [Exchange.loadResponse]
  split
  · refine ⟨h1, ?_, ?_, ?_, ?_, h6, ?_⟩
    · exact fun _ _ => hcount
    · simp
    · simp
    · exact fun _ _ => hready
    · simp [hready]
  · refine ⟨fun heq => absurd heq hne, ?_, ?_, ?_, ?_, ?_, ?_⟩
    · exact fun _ hall => absurd rfl (hall _ _ _ _)
    · intro args' ready wet _
      refine ⟨hlate, hsucc, ?_⟩
      rw [decide_eq_true_eq]
      exact hlt
    · simp
    · simp
    · exact fun _ => h6 hready
    · intro hfault
      refine .inr (.inr ⟨_, _, _, rfl, ?_⟩)
      rw [decide_eq_false_iff_not, hlt] at hfault
      dsimp only
      omega

theorem Missed.copyAudio [Zero V] (h : s.Missed)
    {args : Arguments channels frames V} {ready wet missed : Bool}
    (hpc : s.host = .copying args ready wet missed) :
    (s.copyAudio args ready wet missed).Missed := by
  obtain ⟨h1, h2, h3, h4, h5, h6, h7⟩ := h
  have hcount : s.ready = true → s.missed.toNat =
      if missed then late s.calls + 1 else 0 := by
    intro hready
    cases missed with
    | true => exact (h3 args ready wet hpc).2.1
    | false =>
        rw [h4 args ready wet hpc hready]
        rfl
  rw [Exchange.copyAudio]
  refine ⟨h1, ?_, ?_, ?_, ?_, ?_, ?_⟩
  · intro hready _
    rw [late_concat]
    exact hcount hready
  · grind
  · grind
  · grind
  · intro hready before after hsplit
    dsimp only at hready hsplit
    cases after using List.reverseRecOn with
    | nil =>
        rw [List.append_nil] at hsplit
        rw [← hsplit, late_concat]
        cases missed with
        | true => exact ((h3 args ready wet hpc).2.2).mp hready
        | false => simp
    | append_singleton after last =>
        rw [← List.append_assoc] at hsplit
        exact h6 hready before after (List.append_inj' hsplit rfl).1
  · intro hfault
    dsimp only at hfault ⊢
    rcases h7 hfault with hworker | ⟨before, after, hcalls, hlate⟩ |
      ⟨args', ready', wet', hcopying, hlate⟩
    · exact .inl hworker
    · rw [hcalls, List.append_assoc]
      exact .inr (.inl ⟨before, _, rfl, hlate⟩)
    · refine .inr (.inl ⟨_, [], (List.append_nil _).symm, ?_⟩)
      rw [hpc] at hcopying
      obtain ⟨-, -, -, rfl⟩ := HostAt.copying.inj hcopying
      rw [late_concat]
      exact hlate

theorem Missed.frame (h : s.Missed) {s' : Exchange channels frames V S}
    (hsame : (s'.ready, s'.missed, s'.calls) = (s.ready, s.missed, s.calls))
    (hzero : s'.inFlight = 0 → s.inFlight = 0)
    (hworker : s.workerReady = false → s'.workerReady = false)
    (hhost : ∀ args ready wet missed, s'.host = .copying args ready wet missed ↔
      s.host = .copying args ready wet missed)
    (hwaiting : ∀ args, s'.host = .loading args ∨ s'.host = .hearing args →
      s'.ready = true) : s'.Missed := by
  obtain ⟨h1, h2, h3, h4, -, h6, h7⟩ := h
  simp only [Prod.mk.injEq] at hsame
  obtain ⟨e1, e2, e3⟩ := hsame
  constructor
  · intro heq
    rw [e2]
    exact h1 (hzero heq)
  · rw [e1, e2, e3]
    intro hready hall
    apply h2 hready
    intro args ready wet missed hpc
    exact hall args ready wet missed ((hhost args ready wet missed).mpr hpc)
  · intro args ready wet hpc
    rw [e1, e2, e3]
    exact h3 args ready wet ((hhost args ready wet true).mp hpc)
  · intro args ready wet hpc
    rw [e1, e2]
    exact h4 args ready wet ((hhost args ready wet false).mp hpc)
  · exact hwaiting
  · rwa [e1, e3]
  · rw [e1, e3]
    intro hfault
    rcases h7 hfault with hworker' | hcalls | ⟨args, ready, wet, hpc, hlate⟩
    · exact .inl (hworker hworker')
    · exact .inr (.inl hcalls)
    · exact .inr (.inr
        ⟨args, ready, wet, (hhost args ready wet true).mpr hpc, hlate⟩)

theorem Missed.host [Zero V] (h : s.Missed) (hturns : s.Turns) :
    s.hostStep.Missed := by
  cases hpc : s.host with
  | loading args =>
      rw [hostStep, hpc]
      exact h.loadResponse hturns hpc
  | copying args ready wet missed =>
      rw [hostStep, hpc]
      exact h.copyAudio hpc
  | checking args =>
      simp only [hostStep, hpc, checkState]
      split
      · next hready =>
        split
        · split
          · apply h.frame
            · rfl
            · exact id
            · exact id
            · simp [hpc]
            · exact fun _ _ => hready
          · next hzero =>
            have hzero := not_not.mp hzero
            have hcount := h.counted hready (by simp [hpc])
            have hmissed := h.zero hzero
            obtain ⟨h1, h2, h3, h4, h5, h6, h7⟩ := h
            refine ⟨h1, ?_, ?_, ?_, ?_, h6, ?_⟩
            · exact fun _ hall => absurd rfl (hall _ _ _ _)
            · simp
            · exact fun _ _ _ _ _ => hmissed
            · simp
            · simp [hready]
        · next hworker =>
          obtain ⟨h1, h2, h3, h4, h5, h6, h7⟩ := h
          refine ⟨h1, ?_, ?_, ?_, ?_, ?_, ?_⟩
          · simp
          · simp
          · simp
          · simp
          · simp
          · exact fun _ => .inl (by simpa using hworker)
      · next hfault =>
        have hfault : s.ready = false := by simpa using hfault
        obtain ⟨h1, h2, h3, h4, h5, h6, h7⟩ := h
        refine ⟨h1, ?_, ?_, ?_, ?_, h6, ?_⟩
        · simp [hfault]
        · simp
        · simp [hfault]
        · simp
        · intro _
          rcases h7 hfault with hworker | hcalls | ⟨args', _, _, hcopying, _⟩
          · exact .inl hworker
          · exact .inr (.inl hcalls)
          · rw [hpc] at hcopying
            cases hcopying
  | hearing args =>
      have hready := h.waiting args (.inr hpc)
      rw [hostStep, hpc]
      obtain ⟨h1, h2, h3, h4, h5, h6, h7⟩ := h
      refine ⟨fun _ => rfl, ?_, ?_, ?_, ?_, h6, ?_⟩
      · exact fun _ hall => absurd rfl (hall _ _ _ _)
      · simp [hear]
      · exact fun _ _ _ _ _ => rfl
      · simp [hear]
      · simp [hear, hready]
  | writing args part =>
      rw [hostStep, hpc]
      apply h.frame
      · cases part <;> rfl
      · have hzero := hturns.writing args part hpc
        exact fun _ => hzero
      · cases part <;> exact id
      · cases part <;> simp [hpc, Exchange.writePart]
      · cases part <;> simp [Exchange.writePart]
  | idle => rwa [hostStep, hpc]
  | resetting =>
      rw [hostStep, hpc]
      exact h.frame rfl id id (by simp [hpc]) (by simp)

theorem Missed.worker (h : s.Missed) : (s.workerStep M).Missed := by
  have hsame := hostFields_workerStep (M := M) (s := s)
  simp only [hostFields, Prod.mk.injEq] at hsame
  obtain ⟨⟨e1, -, -, -, e5, e6⟩, -, e10, -, e12⟩ := hsame
  apply h.frame
  · rw [e1, e6, e12]
  · rw [e5]
    exact id
  · intro hworker
    cases hpc : s.worker with
    | checking request => grind [workerStep]
    | taking => grind [workerStep]
    | processing request taken channel => grind [workerStep, processChannel]
    | _ => simp [workerStep, hpc, hworker]
  · simp [e10]
  · rw [e1, e10]
    exact h.waiting

theorem Missed.process (h : s.Missed) (hpc : s.host = .idle)
    (ins : Samples channels frames V) (params : Option (Params V)) :
    (s.beginProcess ins params).Missed := by
  rw [beginProcess]
  split
  · exact h.frame rfl id id (by simp [hpc]) (by simp)
  · exact h.frame rfl id id (by simp [hpc]) (by simp)

theorem Missed.reset (h : s.Missed) (hpc : s.host = .idle) :
    { s with
      generation := s.generation + 1
      host := .resetting }.Missed :=
  h.frame rfl id id (by simp [hpc]) (by simp)

theorem Missed.start (h : s.Prepared M) : s.Missed := by
  obtain ⟨hready, _, _, _, _, hmissed, _, _, hhost, _, _, _, _, _, _, _, _, _,
    hcalls, _⟩ := h
  constructor
  · exact fun _ => hmissed
  · intro _ _
    rw [hmissed, hcalls]
    rfl
  · simp [hhost]
  · simp [hhost]
  · simp [hhost]
  · intro _ before after hsplit
    rw [hcalls] at hsplit
    rw [(List.append_eq_nil_iff.mp hsplit.symm).1]
    exact Nat.succ_pos 31
  · simp [hready]

/-! ## All invariants -/

structure Consistent [Zero V] (M : Module frames V S) (resets : Nat)
    (s : Exchange channels frames V S) : Prop where
  turns : s.Turns
  ages : s.Ages resets
  arrays : s.Arrays M
  states : s.States M
  history : s.History M
  numbers : s.Numbers
  missed : s.Missed

theorem Consistent.start [Zero V] (h : s.Prepared M) : s.Consistent M 0 :=
  ⟨.start h, .start h, .start h, .start h, .start h, .start h, .start h⟩

theorem Consistent.mono [Zero V] {resets resets' : Nat}
    (h : s.Consistent M resets) (hle : resets ≤ resets') :
    s.Consistent M resets' :=
  { h with ages := { h.ages with bound := h.ages.bound.trans hle } }

theorem Consistent.host [Zero V] {resets : Nat} (h : s.Consistent M resets) :
    s.hostStep.Consistent M resets where
  turns := h.turns.host
  ages := h.ages.host h.turns
  arrays := h.arrays.host h.turns
  states := h.states.host h.ages
  history := h.history.host h.ages h.turns h.arrays h.states
  numbers := h.numbers.host h.history
  missed := h.missed.host h.turns

theorem Consistent.worker [Zero V] {resets : Nat} (h : s.Consistent M resets) :
    (s.workerStep M).Consistent M resets where
  turns := h.turns.worker
  ages := h.ages.worker_step h.turns
  arrays := h.arrays.worker h.turns h.ages
  states := h.states.worker h.ages h.turns h.arrays
  history := h.history.worker
  numbers := h.numbers.worker h.turns h.arrays
  missed := h.missed.worker

theorem Consistent.process [Zero V] {resets : Nat}
    (h : s.Consistent M resets) (ins : Samples channels frames V)
    (params : Option (Params V)) :
    (s.step M (.process ins params)).Consistent M resets := by
  have hturns := h.turns.step (M := M) (.process ins params)
  cases hpc : s.host with
  | idle =>
      rw [Exchange.step, hpc] at hturns ⊢
      refine ⟨hturns, ?_, ?_, ?_, ?_, ?_, ?_⟩
      · exact h.ages.process hpc ins params
      · exact h.arrays.process ins params
      · exact h.states.process ins params
      · exact h.history.process h.ages ins params
      · apply h.numbers.frame
        · grind [beginProcess]
        · grind [beginProcess]
      · exact h.missed.process hpc ins params
  | _ =>
      rw [Exchange.step, hpc]
      exact h

theorem Consistent.reset [Zero V] {resets : Nat} (h : s.Consistent M resets)
    (hbound : resets + 1 < 2 ^ 32) :
    (s.step M .reset).Consistent M (resets + 1) := by
  have hturns := h.turns.step (M := M) .reset
  cases hpc : s.host with
  | idle =>
      rw [Exchange.step, hpc] at hturns ⊢
      refine ⟨hturns, ?_, ?_, ?_, ?_, ?_, ?_⟩
      · exact h.ages.reset hpc hbound
      · exact h.arrays.frame rfl (by simp)
      · exact h.states.reset h.ages hbound
      · exact h.history.reset
      · exact h.numbers.frame rfl (by simp)
      · exact h.missed.reset hpc
  | _ =>
      rw [Exchange.step, hpc]
      exact h.mono (Nat.le_succ resets)

end Exchange

def Event.isReset : Event channels frames V → Bool
  | .reset => true
  | _ => false

namespace Exchange

variable {M : Module frames V S} {s : Exchange channels frames V S}

theorem Consistent.run [Zero V] {resets : Nat} (h : s.Consistent M resets)
    (events : List (Event channels frames V))
    (hbound : resets + events.countP Event.isReset < 2 ^ 32) :
    (run M s events).Consistent M
      (resets + events.countP Event.isReset) := by
  induction events generalizing s resets with
  | nil => exact h
  | cons e events ih =>
      cases e with
      | reset =>
          have hcount : (Event.reset :: events).countP Event.isReset =
              events.countP Event.isReset + 1 := List.countP_cons_of_pos rfl
          rw [hcount, Nat.add_comm _ 1, ← Nat.add_assoc] at hbound ⊢
          exact ih (h.reset (by omega)) hbound
      | process ins params => exact ih (h.process ins params) hbound
      | host => exact ih h.host hbound
      | worker => exact ih h.worker hbound

/-! ## What the exchange promises -/

/-- What both sides write besides the sequence numbers. -/
def mailbox (s : Exchange channels frames V S) :
    Samples channels frames V × Params V × Nat × (UInt32 × UInt32) ×
      Samples channels frames V :=
  (s.input, s.params, s.boxFrames,
    (s.requestGeneration, s.responseGeneration), s.output)

theorem mailbox_hostStep [Zero V] (h : s.host.touches = false) :
    s.hostStep.mailbox = s.mailbox := by
  cases hpc : s.host with
  | writing args part => simp [hpc, HostAt.touches] at h
  | checking args => grind [hostStep, checkState, mailbox]
  | loading args => grind [hostStep, loadResponse, mailbox]
  | _ => simp [hostStep, hpc, hear, copyAudio, mailbox]

theorem mailbox_workerStep (h : s.worker.owned = none) :
    (s.workerStep M).mailbox = s.mailbox := by
  cases hpc : s.worker with
  | polling => simp [workerStep, hpc, mailbox]
  | taking => grind [workerStep, mailbox]
  | failed => simp [workerStep, hpc]
  | _ => simp [hpc, WorkerAt.owned] at h

/-- The two sides take turns in the arrays; a response in the mailbox is that
of the request in flight exactly if every request is answered; a call plays
what became of the block of the call before; the instances of every such
request have processed the requests of its generation before it; and the host
fails at the 32nd call in a row without a response, or with the worker. -/
structure Exact [Zero V] (M : Module frames V S)
    (which : Taken channels frames V S → Prop)
    (s : Exchange channels frames V S) : Prop where
  apart : s.host.touches = true → s.worker.owned = none
  host : s.host.touches = false → s.hostStep.mailbox = s.mailbox
  worker : s.worker.owned = none → (s.workerStep M).mailbox = s.mailbox
  answered : s.inFlight ≠ 0 →
    (s.response = s.inFlight ↔ s.taken.length = s.requests)
  numbers : ∀ before c after, s.calls = before ++ c :: after →
    c.call = before.length
  order : s.taken.Pairwise fun t t' => t.call < t'.call
  sounds : ∀ before c after, s.calls = before ++ c :: after →
    Sounds M s.taken c before.getLast?
  since : ∀ before t after, s.taken = before ++ t :: after → which t →
    Since M (sameGeneration before t.generation) t.instances
  steady : s.ready = true → ∀ before after, s.calls = before ++ after →
    late before < 32
  fault : s.ready = false → s.host = .idle → s.workerReady = false ∨
    ∃ before after, s.calls = before ++ after ∧ late before = 32

theorem Consistent.exact [Zero V] {resets : Nat}
    (h : s.Consistent M resets) : s.Exact M fun t => t.current = true where
  apart := by
    intro htouches
    have hanswered := h.turns.answered htouches
    cases howned : s.worker.owned with
    | none => rfl
    | some r => exact absurd hanswered (h.turns.owned r howned).2
  host := mailbox_hostStep
  worker := mailbox_workerStep
  answered := by
    intro hne
    have hcounted := h.turns.counted
    have hflight : s.inFlight = s.sequence := h.turns.inFlight.resolve_left hne
    rw [hflight, hcounted]
    constructor
    · intro heq
      rw [if_pos heq, Nat.add_zero]
    · intro hlength
      by_contra hneq
      rw [if_neg hneq] at hlength
      omega
  numbers := h.numbers.calls
  order := h.numbers.order
  sounds := h.history.sounds
  since := h.states.since
  steady := h.missed.steady
  fault := by
    intro hfault hidle
    rcases h.missed.fault hfault with hworker | hcalls | ⟨_, _, _, hpc, _⟩
    · exact .inl hworker
    · exact .inr hcalls
    · rw [hidle] at hpc
      cases hpc

/-- Every interleaving with fewer than 2^32 resets is exact; the instances of a
request that is overtaken by a reset are the exception. -/
theorem exchange_exact [Zero V] (h : s.Prepared M)
    (events : List (Event channels frames V))
    (hresets : events.countP Event.isReset < 2 ^ 32) :
    (run M s events).Exact M fun t => t.current = true := by
  have hconsistent := (Consistent.start h).run events (by omega)
  exact hconsistent.exact

end Exchange

end

/-! ## A request that is overtaken by a reset -/

/-- A module whose instances count the blocks that they have processed. -/
def counting : Module 1 Nat Nat where
  create := 0
  reset _ := 0
  process count samples _ := (count + 1, samples)
  clamp params := params

def prepared : Exchange 1 1 Nat Nat where
  ready := true
  generation := 1
  localGeneration := 1
  sequence := 0
  inFlight := 0
  missed := 0
  eligible := false
  dryValid := false
  dry := silence
  host := .idle
  workerReady := true
  request := 0
  response := 0
  boxGeneration := 1
  requestGeneration := 0
  responseGeneration := 0
  boxFrames := 0
  params := cleanParams none
  input := silence
  output := silence
  completed := 0
  workerGeneration := 1
  instances := fun _ => 0
  worker := .polling
  sent := ⟨silence, cleanParams none, 0, 0⟩
  requests := 0
  calls := []
  taken := []

theorem prepared_prepared : prepared.Prepared counting := by
  constructor <;> first | rfl | exact fun _ => rfl

/-- A call, and the worker's answer to the request before it. -/
def exchanged : List (Event 1 1 Nat) :=
  .process silence none :: List.replicate 9 .host ++
    List.replicate 11 .worker

/-- Two calls, and a reset before the worker takes the second request. -/
def overtaken : List (Event 1 1 Nat) :=
  exchanged ++ .process silence none :: List.replicate 9 .host ++
    [.reset, .host] ++ List.replicate 11 .worker

theorem overtaken_taken : ∃ t t',
    (Exchange.run counting prepared overtaken).taken = [t, t'] ∧
      t.generation = 1 ∧ t'.generation = 1 ∧ t'.instances 0 = 0 :=
  ⟨_, _, rfl, rfl, rfl, rfl⟩

/-- The instances that have processed a request have counted it. -/
theorem since_counting {t : Taken 1 1 Nat Nat} {instances : Fin 1 → Nat}
    (h : Exchange.Since counting [t] instances) : instances 0 = 1 := by
  obtain ⟨origin, horigin, rfl⟩ := h
  have hzero : origin 0 = 0 := by
    rcases horigin with rfl | ⟨old, rfl⟩
    · rfl
    · rfl
  change origin 0 + 1 = 1
  rw [hzero]

/-- Instances that have counted nothing have not processed the request before
theirs. -/
theorem not_exact_of_taken {s : Exchange 1 1 Nat Nat} {t t' : Taken 1 1 Nat Nat}
    {which : Taken 1 1 Nat Nat → Prop} (htaken : s.taken = [t, t'])
    (hgeneration : t.generation = t'.generation) (hwhich : which t')
    (hzero : t'.instances 0 = 0) : ¬ s.Exact counting which := by
  intro h
  have hsince := h.since [t] t' [] htaken hwhich
  have hsame : Exchange.sameGeneration [t] t'.generation = [t] := by
    simp [Exchange.sameGeneration, hgeneration]
  rw [hsame] at hsince
  have hone := since_counting hsince
  rw [hzero] at hone
  cases hone

/-- Resets that follow each other only add to the generation. -/
theorem run_resets (n : Nat) (s : Exchange 1 1 Nat Nat)
    (hidle : s.host = .idle) (hbox : s.boxGeneration = s.generation) :
    Exchange.run counting s (List.replicate n [.reset, .host]).flatten =
      { s with
        generation := s.generation + UInt32.ofNat n
        boxGeneration := s.generation + UInt32.ofNat n } := by
  induction n generalizing s with
  | zero =>
      have hadd : s.generation + UInt32.ofNat 0 = s.generation :=
        UInt32.add_zero _
      simp only [List.replicate_zero, List.flatten_nil, hadd]
      obtain ⟨⟩ := s
      cases hbox
      rfl
  | succ n ih =>
      have hadd : s.generation + 1 + UInt32.ofNat n =
          s.generation + UInt32.ofNat (n + 1) := by
        rw [UInt32.ofNat_add, UInt32.add_assoc, UInt32.add_comm 1]
        rfl
      have hstep : Exchange.run counting s [.reset, .host] =
          { s with
            generation := s.generation + 1
            boxGeneration := s.generation + 1 } := by
        obtain ⟨⟩ := s
        cases hidle
        rfl
      rw [List.replicate_succ, List.flatten_cons, Exchange.run,
        List.foldl_append]
      change Exchange.run counting (Exchange.run counting s _) _ = _
      rw [hstep]
      simpa only [hadd] using ih { s with
        generation := s.generation + 1
        boxGeneration := s.generation + 1 } hidle rfl

/-- A request of the first generation, then resets up to the next generation of
that number, and another request. -/
def wrapped : List (Event 1 1 Nat) :=
  exchanged ++ [.reset, .host, .worker, .worker] ++
    ((List.replicate (2 ^ 32 - 1) [.reset, .host]).flatten ++ exchanged)

theorem wrapped_taken : ∃ t t',
    (Exchange.run counting prepared wrapped).taken = [t, t'] ∧
      t.generation = 1 ∧ t'.generation = 1 ∧ t'.current = true ∧
        t'.instances 0 = 0 := by
  rw [wrapped, Exchange.run, List.foldl_append, List.foldl_append]
  change ∃ t t', (Exchange.run counting (Exchange.run counting
    (Exchange.run counting prepared _) _) _).taken = [t, t'] ∧ _
  rw [run_resets _ _ rfl rfl]
  exact ⟨_, _, rfl, rfl, rfl, rfl, rfl⟩

/-- With every request, or with the generations beyond 2^32, not every run is
exact. -/
theorem exchange_not_exact : prepared.Prepared counting ∧
    (¬ ∀ events, (Exchange.run counting prepared events).Exact counting
      fun _ => True) ∧
    ¬ ∀ events, (Exchange.run counting prepared events).Exact counting
      fun t => t.current = true := by
  refine ⟨prepared_prepared, ?_, ?_⟩
  · intro h
    obtain ⟨t, t', htaken, hfirst, hsecond, hzero⟩ := overtaken_taken
    exact not_exact_of_taken htaken (hfirst.trans hsecond.symm) trivial hzero
      (h overtaken)
  · intro h
    obtain ⟨t, t', htaken, hfirst, hsecond, hcurrent, hzero⟩ := wrapped_taken
    exact not_exact_of_taken htaken (hfirst.trans hsecond.symm) hcurrent hzero
      (h wrapped)

theorem exchange_exact_overtaken :
    prepared.Prepared counting ∧
      overtaken.countP Event.isReset < 2 ^ 32 ∧
        (Exchange.run counting prepared overtaken).Exact counting
          fun t => t.current = true := by
  have hcount : overtaken.countP Event.isReset < 2 ^ 32 := by decide
  exact ⟨prepared_prepared, hcount,
    Exchange.exchange_exact prepared_prepared overtaken hcount⟩

end Audiox.PluginExchange
