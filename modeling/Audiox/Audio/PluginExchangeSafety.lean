import Audiox.Audio.PluginExchangeTurns
import Mathlib

/-!
# What the calls of a plugin play

What a call plays is what the worker has made of the block of the call before,
or that block as it was, or silence.
-/

namespace Audiox.PluginExchange

open Runs

section

variable {channels frames : Nat} {V S : Type}

namespace Exchange

variable {M : Module frames V S} {s : Exchange channels frames V S}

/-! ## The state of the instances -/

/-- The requests of a generation that were answered. -/
def sameGeneration (taken : List (Taken channels frames V S))
    (generation : UInt32) : List (Taken channels frames V S) :=
  taken.filter fun t => t.generation == generation

/-- Instances that have processed exactly these requests since they were
created or reset. -/
def Since (M : Module frames V S) (taken : List (Taken channels frames V S))
    (instances : Fin channels → S) : Prop :=
  ∃ origin : Fin channels → S,
    ((origin = fun _ => M.create) ∨
      ∃ old : Fin channels → S, origin = fun c => M.reset (old c)) ∧
      instances = taken.foldl (fun i t => advance M i t.toRequest) origin

theorem Since.append {taken : List (Taken channels frames V S)}
    {t : Taken channels frames V S} {generation : UInt32}
    (h : Since M (sameGeneration taken generation) t.instances)
    (heq : t.generation = generation) :
    Since M (sameGeneration (taken ++ [t]) generation)
      (advance M t.instances t.toRequest) := by
  obtain ⟨origin, horigin, hinstances⟩ := h
  refine ⟨origin, horigin, ?_⟩
  have hfilter : sameGeneration (taken ++ [t]) generation =
      sameGeneration taken generation ++ [t] := by
    simp [sameGeneration, heq]
  rw [hfilter, List.foldl_append, ← hinstances]
  rfl

/-- The instances have processed the requests of the worker's generation, if it
is that of the mailbox. -/
structure States (M : Module frames V S) (s : Exchange channels frames V S) :
    Prop where
  idle : s.worker.progress = none → s.workerGeneration = s.boxGeneration →
    Since M (sameGeneration s.taken s.workerGeneration) s.instances
  busy : ∀ t k, s.worker.progress = some (t, k) →
    t.current = true ∨ t.generation = s.boxGeneration →
      Since M (sameGeneration s.taken t.generation) t.instances
  current : ∀ t k, s.worker.progress = some (t, k) →
    t.generation = s.generation → t.current = true
  taken : ∀ t ∈ s.taken, t.generation = s.generation → t.current = true
  since : ∀ before t after, s.taken = before ++ t :: after →
    t.current = true → Since M (sameGeneration before t.generation) t.instances

/-- What the states are about, apart from the progress of the worker. -/
def origins (s : Exchange channels frames V S) :
    (UInt32 × UInt32 × UInt32) × List (Taken channels frames V S) :=
  ((s.generation, s.boxGeneration, s.workerGeneration), s.taken)

theorem States.frame (h : s.States M) {s' : Exchange channels frames V S}
    (hsame : s'.origins = s.origins)
    (hidle : s'.worker.progress = none →
      s.worker.progress = none ∧ s'.instances = s.instances)
    (hbusy : ∀ t k, s'.worker.progress = some (t, k) →
      ∃ k', s.worker.progress = some (t, k')) : s'.States M := by
  obtain ⟨h1, h2, h3, h4, h5⟩ := h
  simp only [origins, Prod.mk.injEq] at hsame
  obtain ⟨⟨e1, e2, e3⟩, e4⟩ := hsame
  constructor
  · intro hnone
    obtain ⟨hnone, hinstances⟩ := hidle hnone
    rw [e2, e3, e4, hinstances]
    exact h1 hnone
  · intro t k hk
    obtain ⟨k', hk'⟩ := hbusy t k hk
    rw [e2, e4]
    exact h2 t k' hk'
  · intro t k hk
    obtain ⟨k', hk'⟩ := hbusy t k hk
    rw [e1]
    exact h3 t k' hk'
  · rwa [e1, e4]
  · rwa [e4]

theorem States.host [Zero V] (h : s.States M) {resets : Nat}
    (hages : s.Ages resets) : s.hostStep.States M := by
  cases hpc : s.host with
  | resetting =>
      have hyounger := hages.resetting hpc
      obtain ⟨h1, h2, h3, h4, h5⟩ := h
      rw [hostStep, hpc]
      refine ⟨?_, ?_, h3, h4, h5⟩
      · intro _ heq
        have hworker := hages.worker
        rw [show s.workerGeneration = s.generation from heq] at hworker
        omega
      · intro t k hk hor
        refine h2 t k hk (hor.imp_right ?_)
        intro heq
        obtain ⟨-, hworker⟩ := hages.working t k hk
        have hle := hages.worker
        rw [← hworker, show t.generation = s.generation from heq] at hle
        omega
  | idle =>
      rwa [hostStep, hpc]
  | checking args =>
      rw [hostStep, hpc]
      apply h.frame
      · grind [checkState, origins]
      · grind [checkState]
      · grind [checkState]
  | loading args =>
      rw [hostStep, hpc]
      apply h.frame
      · grind [loadResponse, origins]
      · grind [loadResponse]
      · grind [loadResponse]
  | hearing args =>
      rw [hostStep, hpc]
      exact h.frame rfl (fun hnone => ⟨hnone, rfl⟩) fun t k hk => ⟨k, hk⟩
  | copying args ready wet missed =>
      rw [hostStep, hpc]
      exact h.frame rfl (fun hnone => ⟨hnone, rfl⟩) fun t k hk => ⟨k, hk⟩
  | writing args part =>
      rw [hostStep, hpc]
      cases part <;>
        exact h.frame rfl (fun hnone => ⟨hnone, rfl⟩) fun t k hk => ⟨k, hk⟩

/-- Instances that a new generation finds have processed nothing of it. -/
theorem States.freshened (h : s.States M) {resets : Nat}
    (hages : s.Ages resets) (hnone : s.worker.progress = none) :
    Since M (sameGeneration s.taken s.boxGeneration)
      (s.freshened M s.boxGeneration) := by
  rw [Exchange.freshened]
  split
  next hne =>
    have hlt : age s.workerGeneration < age s.boxGeneration :=
      lt_of_le_of_ne hages.worker fun heq => hne (age_inj.mp heq).symm
    have hnil : sameGeneration s.taken s.boxGeneration = [] := by
      apply List.filter_eq_nil_iff.mpr
      intro t ht heq
      have hage := hages.older hlt t ht
      rw [beq_iff_eq.mp heq] at hage
      exact lt_irrefl _ hage
    rw [hnil]
    exact ⟨_, .inr ⟨s.instances, rfl⟩, rfl⟩
  next heq =>
    have hsame : s.workerGeneration = s.boxGeneration := by
      simpa using (not_not.mp heq).symm
    rw [← hsame]
    exact h.idle hnone hsame

theorem States.worker [Zero V]
    (h : s.States M) {resets : Nat} (hages : s.Ages resets)
    (hturns : s.Turns) (harrays : s.Arrays M) : (s.workerStep M).States M := by
  cases hpc : s.worker with
  | polling =>
      have hsince := h.freshened hages (by rw [hpc]; rfl)
      rw [workerStep, hpc]
      refine ⟨fun _ _ => hsince, ?_, ?_, h.taken, h.since⟩
      · simp [WorkerAt.progress]
      · simp [WorkerAt.progress]
  | taking =>
      rw [workerStep, hpc]
      apply h.frame
      · grind [origins]
      · grind [WorkerAt.progress]
      · grind [WorkerAt.progress]
  | checking request =>
      rw [workerStep, hpc]
      apply h.frame
      · grind [origins]
      · grind [WorkerAt.progress]
      · grind [WorkerAt.progress]
  | comparing request =>
      have hsince := h.freshened hages (by rw [hpc]; rfl)
      have hrequest := hturns.owned request (by rw [hpc]; rfl)
      have hsent := hages.pending hrequest.2
      rw [workerStep, hpc]
      refine ⟨?_, ?_, ?_, h.taken, h.since⟩
      · simp [WorkerAt.progress]
      · intro t k hk hor
        obtain ⟨rfl, rfl⟩ := Prod.mk.inj (Option.some.inj hk)
        have hbox : s.requestGeneration = s.boxGeneration := by
          rcases hor with hcurrent | hbox
          · have hgeneration : s.generation = s.requestGeneration :=
              beq_iff_eq.mp hcurrent
            have hle := hages.box_le
            have hage := hages.sent fun hz =>
              hrequest.2 ((hturns.zero hz).trans hz.symm)
            rw [← hsent, ← hgeneration] at hage
            rw [← hgeneration]
            exact age_inj.mp (le_antisymm hage hle)
          · exact hbox
        dsimp only
        rw [hbox]
        exact hsince
      · intro t k hk heq
        obtain ⟨rfl, rfl⟩ := Prod.mk.inj (Option.some.inj hk)
        exact beq_iff_eq.mpr heq.symm
  | clamping request taken =>
      rw [workerStep, hpc]
      apply h.frame
      · rfl
      · simp [WorkerAt.progress]
      · simp [hpc, WorkerAt.progress]
  | processing request taken channel =>
      rw [workerStep, hpc]
      apply h.frame
      · grind [processChannel, origins]
      · grind [processChannel, WorkerAt.progress]
      · grind [processChannel, WorkerAt.progress]
  | answering request taken =>
      rw [workerStep, hpc]
      apply h.frame
      · rfl
      · simp [WorkerAt.progress]
      · simp [hpc, WorkerAt.progress]
  | publishing request taken =>
      have hprogress : s.worker.progress = some (taken, channels) := by
        rw [hpc]
        rfl
      have hgeneration := (hages.working taken channels hprogress).2
      have hinstances : s.instances =
          advance M taken.instances taken.toRequest := by
        funext c
        have hc := (harrays.part taken channels hprogress c).1
        rwa [if_pos c.isLt] at hc
      have hsince := h.busy taken channels hprogress
      rw [workerStep, hpc]
      refine ⟨?_, ?_, ?_, ?_, ?_⟩
      · intro _ heq
        dsimp only at heq ⊢
        rw [hinstances, ← hgeneration]
        exact (hsince (.inr (hgeneration.trans heq))).append rfl
      · simp [WorkerAt.progress]
      · simp [WorkerAt.progress]
      · intro t ht heq
        rcases List.mem_append.mp ht with ht | ht
        · exact h.taken t ht heq
        · obtain rfl := List.mem_singleton.mp ht
          exact h.current _ _ hprogress heq
      · intro before t after hsplit hcurrent
        rcases eq_concat_cases hsplit with
          ⟨after', -, htaken⟩ | ⟨-, rfl, rfl⟩
        · exact h.since before t after' htaken hcurrent
        · exact hsince (.inl hcurrent)
  | failed => rwa [workerStep, hpc]

theorem States.process (h : s.States M) (ins : Samples channels frames V)
    (params : Option (Params V)) : (s.beginProcess ins params).States M := by
  apply h.frame
  · grind [beginProcess, origins]
  · grind [beginProcess]
  · grind [beginProcess]

theorem States.reset (h : s.States M) {resets : Nat} (hages : s.Ages resets)
    (hbound : resets + 1 < 2 ^ 32) :
    { s with
      generation := s.generation + 1
      host := .resetting }.States M := by
  have hage : age (s.generation + 1) = age s.generation + 1 :=
    age_succ (by have := hages.bound; omega)
  have hle := hages.box_le
  obtain ⟨h1, h2, h3, h4, h5⟩ := h
  refine ⟨h1, h2, ?_, ?_, h5⟩
  · intro t k hk heq
    obtain ⟨-, hworker⟩ := hages.working t k hk
    have hbox := hages.worker
    rw [← hworker, show t.generation = s.generation + 1 from heq] at hbox
    omega
  · intro t ht heq
    obtain ⟨hz, hsent⟩ := hages.taken t ht
    have hbox := hages.sent hz
    rw [show t.generation = s.generation + 1 from heq] at hsent
    omega

theorem States.start (h : s.Prepared M) : s.States M := by
  obtain ⟨_, _, _, _, _, _, _, _, _, _, _, _, hbox, _, hgeneration, hcreate,
    hworker, _, _, htaken⟩ := h
  constructor
  · intro _ _
    rw [htaken]
    exact ⟨_, .inl rfl, funext hcreate⟩
  · simp [hworker, WorkerAt.progress]
  · simp [hworker, WorkerAt.progress]
  · simp [htaken]
  · simp [htaken]

/-! ## What the calls play -/

/-- How the output of a call comes about, from the requests that were answered
and the call before. -/
inductive Sounds [Zero V] (M : Module frames V S)
    (taken : List (Taken channels frames V S)) (c : Call channels frames V) :
    Option (Call channels frames V) → Prop
  | silent (last : Option (Call channels frames V)) :
      (∀ p, last = some p → p.generation ≠ c.generation) →
        c.output = silence → Sounds M taken c last
  | dry (p : Call channels frames V) : p.generation = c.generation →
      c.output = p.input → Sounds M taken c (some p)
  | wet (p : Call channels frames V) (t : Taken channels frames V S) :
      p.generation = c.generation → t ∈ taken → t.current = true →
        t.toRequest = p.toRequest → c.output = clean (t.result M) →
          Sounds M taken c (some p)

theorem Sounds.mono [Zero V] {taken taken' : List (Taken channels frames V S)}
    {c : Call channels frames V} {last : Option (Call channels frames V)}
    (h : Sounds M taken c last) (hle : ∀ t ∈ taken, t ∈ taken') :
    Sounds M taken' c last := by
  cases h with
  | silent _ hne houtput => exact .silent _ hne houtput
  | dry p hgeneration houtput => exact .dry p hgeneration houtput
  | wet p t hgeneration ht hcurrent hrequest houtput =>
      exact .wet p t hgeneration (hle t ht) hcurrent hrequest houtput

/-- The request in flight is that of the last call, unless its response is not
wanted any more or the host has failed. -/
structure History [Zero V]
    (M : Module frames V S) (s : Exchange channels frames V S) :
    Prop where
  eligible : s.ready = true → s.inFlight ≠ 0 → s.eligible = true →
    ∃ p, s.calls.getLast? = some p ∧ p.toRequest = s.sent
  waiting : ∀ args, s.host = .loading args ∨ s.host = .hearing args →
    s.ready = true
  late : ∀ args ready wet missed, s.host = .copying args ready wet missed →
    s.ready = true → s.inFlight ≠ 0 → s.eligible = false
  wet : ∀ args ready missed, s.host = .copying args ready true missed →
    s.sequence ≠ 0 ∧ s.sent.generation = args.generation ∧
      ∃ p, s.calls.getLast? = some p ∧ p.toRequest = s.sent
  written : ∀ args part, s.host = .writing args part →
    ∃ p, s.calls.getLast? = some p ∧
      p.toRequest =
        ⟨s.dry, cleanParams args.params, args.generation, s.calls.length - 1⟩
  dry : s.dryValid = true → ∃ p, s.calls.getLast? = some p ∧
    s.dry = p.input ∧ clean p.input = p.input ∧
      p.generation = s.localGeneration
  young : ∀ p ∈ s.calls, age p.generation ≤ age s.localGeneration
  old : s.dryValid = false → ∀ p ∈ s.calls,
    age p.generation < age s.localGeneration
  sounds : ∀ before c after, s.calls = before ++ c :: after →
    Sounds M s.taken c before.getLast?

theorem clean_clean [Zero V] (samples : Samples channels frames V) :
    clean (clean samples) = clean samples := rfl

/-- The samples of a call, and where they are from. -/
theorem History.played [Zero V] (h : s.History M) {resets : Nat}
    (hages : s.Ages resets) (hturns : s.Turns) (harrays : s.Arrays M)
    (hstates : s.States M) {args : Arguments channels frames V}
    {ready wet missed : Bool} (hpc : s.host = .copying args ready wet missed)
    {c : Call channels frames V} (hgeneration : c.generation = args.generation)
    (houtput : c.output = s.played wet) :
    Sounds M s.taken c s.calls.getLast? := by
  obtain ⟨hargs, hlocal⟩ := hages.args args (by rw [hpc]; rfl)
  cases wet with
  | true =>
      obtain ⟨hz, hsent, p, hp, hrequest⟩ := h.wet args ready missed hpc
      obtain ⟨t, ht, htsent, -, hresult⟩ :=
        harrays.answered (hturns.wet args ready missed hpc) hz
      have hmem : t ∈ s.taken := List.mem_of_getLast? ht
      have htgeneration : t.generation = s.generation := by
        rw [← hargs, ← hsent, ← htsent]
      rw [hp]
      refine .wet p t ?_ hmem (hstates.taken t hmem htgeneration)
        (htsent.trans hrequest.symm) ?_
      · rw [hgeneration, ← hsent, ← hrequest]
      · rw [houtput, Exchange.played, if_pos rfl, hresult]
  | false =>
      cases hdry : s.dryValid with
      | true =>
          obtain ⟨p, hp, hinput, hclean, hpgeneration⟩ := h.dry hdry
          rw [hp]
          refine .dry p ?_ ?_
          · rw [hpgeneration, hgeneration, hlocal, hargs]
          · rw [houtput, Exchange.played, if_neg (by simp), if_pos hdry, hinput,
              hclean]
      | false =>
          refine .silent _ ?_ ?_
          · intro p hp heq
            have hlt := h.old hdry p (List.mem_of_getLast? hp)
            rw [heq, hgeneration, hargs, hlocal] at hlt
            exact lt_irrefl _ hlt
          · rw [houtput, Exchange.played, if_neg (by simp),
              if_neg (by simp [hdry])]
            rfl

/-- A step that neither ends a call nor sends a request. -/
theorem History.frame [Zero V]
    (h : s.History M) {s' : Exchange channels frames V S}
    (hsame : (s'.calls, s'.sent, s'.sequence, s'.localGeneration, s'.dry,
      s'.dryValid) = (s.calls, s.sent, s.sequence, s.localGeneration, s.dry,
        s.dryValid))
    (htaken : ∀ t ∈ s.taken, t ∈ s'.taken)
    (heligible : s'.ready = true → s'.inFlight ≠ 0 → s'.eligible = true →
      s.ready = true ∧ s.inFlight ≠ 0 ∧ s.eligible = true)
    (hwaiting : ∀ args, s'.host = .loading args ∨ s'.host = .hearing args →
      s'.ready = true)
    (hlate : ∀ args ready wet missed,
      s'.host = .copying args ready wet missed → s'.ready = true →
        s'.inFlight ≠ 0 → s'.eligible = false)
    (hwet : ∀ args ready missed, s'.host = .copying args ready true missed →
      s.host = .copying args ready true missed)
    (hwritten : ∀ args part, s'.host = .writing args part →
      ∃ part', s.host = .writing args part') : s'.History M := by
  obtain ⟨h1, -, -, h2, h3, h4, h5, h6, h7⟩ := h
  simp only [Prod.mk.injEq] at hsame
  obtain ⟨e1, e2, e3, e4, e5, e6⟩ := hsame
  refine ⟨?_, hwaiting, hlate, ?_, ?_, ?_, ?_, ?_, ?_⟩
  · intro hready hne htrue
    rw [e1, e2]
    obtain ⟨hready, hne, htrue⟩ := heligible hready hne htrue
    exact h1 hready hne htrue
  · intro args ready missed hpc
    rw [e1, e2, e3]
    exact h2 args ready missed (hwet args ready missed hpc)
  · intro args part hpc
    obtain ⟨part', hpc'⟩ := hwritten args part hpc
    rw [e1, e5]
    exact h3 args part' hpc'
  · rwa [e1, e4, e5, e6]
  · rwa [e1, e4]
  · rwa [e1, e4, e6]
  · intro before c after hsplit
    rw [e1] at hsplit
    exact (h7 before c after hsplit).mono htaken

theorem History.hear [Zero V] (h : s.History M) (hturns : s.Turns)
    (harrays : s.Arrays M) {args : Arguments channels frames V}
    (hpc : s.host = .hearing args) : (s.hear args).History M := by
  obtain ⟨hanswered, hne⟩ := hturns.hearing args hpc
  have hz : s.sequence ≠ 0 := by
    rcases hturns.inFlight with hzero | heq
    · exact absurd hzero hne
    · rwa [← heq]
  have hready := h.waiting args (.inr hpc)
  obtain ⟨h1, -, -, h2, h3, h4, h5, h6, h7⟩ := h
  rw [Exchange.hear]
  refine ⟨?_, ?_, ?_, ?_, ?_, h4, h5, h6, h7⟩
  · exact fun _ hne => absurd rfl hne
  · simp
  · exact fun _ _ _ _ _ _ hne => absurd rfl hne
  · intro args' ready missed hcopying
    simp only [HostAt.copying.injEq, Bool.and_eq_true, beq_iff_eq] at hcopying
    obtain ⟨rfl, -, ⟨heligible, hgeneration⟩, -⟩ := hcopying
    obtain ⟨t, -, -, hresponse, -⟩ := harrays.answered hanswered hz
    exact ⟨hz, hresponse.symm.trans hgeneration, h1 hready hne heligible⟩
  · simp

theorem History.copyAudio [Zero V] (h : s.History M) {resets : Nat}
    (hages : s.Ages resets) (hturns : s.Turns) (harrays : s.Arrays M)
    (hstates : s.States M) {args : Arguments channels frames V}
    {ready wet missed : Bool}
    (hpc : s.host = .copying args ready wet missed) :
    (s.copyAudio args ready wet missed).History M := by
  have hplayed := h.played hages hturns harrays hstates hpc
    (c := ⟨⟨clean args.ins, cleanParams args.params, args.generation,
      s.calls.length⟩, s.played wet, missed⟩) rfl rfl
  obtain ⟨hargs, hlocal⟩ := hages.args args (by rw [hpc]; rfl)
  have hlast : args.generation = s.localGeneration := hargs.trans hlocal.symm
  obtain ⟨h1, -, hlate, h2, h3, h4, h5, h6, h7⟩ := h
  rw [Exchange.copyAudio]
  refine ⟨?_, ?_, ?_, ?_, ?_, ?_, ?_, ?_, ?_⟩
  · intro hready hne htrue
    rw [hlate args ready wet missed hpc hready hne] at htrue
    cases htrue
  · grind
  · grind
  · grind
  · intro args' part hwriting
    refine ⟨_, List.getLast?_concat, ?_⟩
    have heq : args = args' := by grind
    rw [heq, List.length_append, List.length_singleton, Nat.add_sub_cancel]
  · exact fun _ => ⟨_, List.getLast?_concat, rfl, rfl, hlast⟩
  · intro p hp
    rcases List.mem_append.mp hp with hp | hp
    · exact h5 p hp
    · obtain rfl := List.mem_singleton.mp hp
      exact (congrArg age hlast).le
  · simp
  · intro before c after hsplit
    rcases eq_concat_cases hsplit with ⟨after', -, hcalls⟩ | ⟨-, rfl, rfl⟩
    · exact h7 before c after' hcalls
    · exact hplayed

theorem History.writePart [Zero V] (h : s.History M)
    {args : Arguments channels frames V} {part : Part}
    (hpc : s.host = .writing args part) :
    (s.writePart args part).History M := by
  cases part with
  | publish =>
      have hwritten := h.written args .publish hpc
      obtain ⟨h1, -, -, h2, h3, h4, h5, h6, h7⟩ := h
      rw [Exchange.writePart]
      refine ⟨fun _ _ _ => hwritten, ?_, ?_, ?_, ?_, h4, h5, h6, h7⟩
      · simp
      · simp
      · simp
      · simp
  | _ =>
      apply h.frame
      · rfl
      · exact fun t ht => ht
      · exact fun hready hne htrue => ⟨hready, hne, htrue⟩
      · simp [Exchange.writePart]
      · simp [Exchange.writePart]
      · simp [Exchange.writePart]
      · grind [Exchange.writePart]

theorem History.host [Zero V]
    (h : s.History M) {resets : Nat} (hages : s.Ages resets)
    (hturns : s.Turns) (harrays : s.Arrays M) (hstates : s.States M) :
    s.hostStep.History M := by
  cases hpc : s.host with
  | idle => rwa [hostStep, hpc]
  | checking args =>
      rw [hostStep, hpc]
      apply h.frame
      · grind [checkState]
      · grind [checkState]
      · grind [checkState]
      · grind [checkState]
      · grind [checkState]
      · grind [checkState]
      · grind [checkState]
  | loading args =>
      have hready := h.waiting args (.inl hpc)
      rw [hostStep, hpc]
      apply h.frame
      · grind [loadResponse]
      · grind [loadResponse]
      · grind [loadResponse]
      · grind [loadResponse]
      · grind [loadResponse]
      · grind [loadResponse]
      · grind [loadResponse]
  | hearing args =>
      rw [hostStep, hpc]
      exact h.hear hturns harrays hpc
  | copying args ready wet missed =>
      rw [hostStep, hpc]
      exact h.copyAudio hages hturns harrays hstates hpc
  | writing args part =>
      rw [hostStep, hpc]
      exact h.writePart hpc
  | resetting =>
      rw [hostStep, hpc]
      exact h.frame rfl (fun t ht => ht)
        (fun hready hne htrue => ⟨hready, hne, htrue⟩) (by simp) (by simp)
          (by simp) (by simp)

/-- The worker only adds to the requests that were answered. -/
theorem taken_workerStep :
    ∃ new, (s.workerStep M).taken = s.taken ++ new := by
  cases hpc : s.worker with
  | publishing request taken => exact ⟨[taken], by rw [workerStep, hpc]⟩
  | polling => exact ⟨[], by simp [workerStep, hpc]⟩
  | taking => exact ⟨[], by grind [workerStep]⟩
  | checking request => exact ⟨[], by grind [workerStep]⟩
  | comparing request => exact ⟨[], by simp [workerStep, hpc]⟩
  | clamping request taken => exact ⟨[], by simp [workerStep, hpc]⟩
  | processing request taken channel =>
      exact ⟨[], by grind [workerStep, processChannel]⟩
  | answering request taken => exact ⟨[], by simp [workerStep, hpc]⟩
  | failed => exact ⟨[], by simp [workerStep, hpc]⟩

/-- The fields of the host. -/
def hostFields (s : Exchange channels frames V S) :
    (Bool × UInt32 × UInt32 × UInt32 × UInt32 × UInt32) ×
      (Bool × Bool × Samples channels frames V) × HostAt channels frames V ×
        Request channels frames V × List (Call channels frames V) :=
  ((s.ready, s.generation, s.localGeneration, s.sequence, s.inFlight, s.missed),
    (s.eligible, s.dryValid, s.dry), s.host, s.sent, s.calls)

theorem hostFields_workerStep :
    (s.workerStep M).hostFields = s.hostFields := by
  cases hpc : s.worker with
  | taking => grind [workerStep, hostFields]
  | checking request => grind [workerStep, hostFields]
  | processing request taken channel =>
      grind [workerStep, processChannel, hostFields]
  | _ => simp [workerStep, hpc, hostFields]

theorem History.worker [Zero V]
    (h : s.History M) : (s.workerStep M).History M := by
  obtain ⟨new, hnew⟩ := taken_workerStep (M := M) (s := s)
  have hsame := hostFields_workerStep (M := M) (s := s)
  simp only [hostFields, Prod.mk.injEq] at hsame
  obtain ⟨⟨e1, e2, e3, e4, e5, e6⟩, ⟨e7, e8, e9⟩, e10, e11, e12⟩ := hsame
  apply h.frame
  · rw [e3, e4, e8, e9, e11, e12]
  · intro t ht
    rw [hnew]
    exact List.mem_append_left new ht
  · rw [e1, e5, e7]
    exact fun hready hne htrue => ⟨hready, hne, htrue⟩
  · rw [e1, e10]
    exact h.waiting
  · rw [e1, e5, e7, e10]
    exact h.late
  · rw [e10]
    exact fun _ _ _ hwet => hwet
  · rw [e10]
    exact fun _ part hwriting => ⟨part, hwriting⟩

theorem History.process [Zero V] (h : s.History M) {resets : Nat}
    (hages : s.Ages resets) (ins : Samples channels frames V)
    (params : Option (Params V)) :
    (s.beginProcess ins params).History M := by
  rw [beginProcess]
  split
  next hne =>
    have hlt : age s.localGeneration < age s.generation :=
      lt_of_le_of_ne hages.localAge fun heq => hne (age_inj.mp heq).symm
    obtain ⟨h1, -, -, h2, h3, h4, h5, h6, h7⟩ := h
    refine ⟨?_, ?_, ?_, ?_, ?_, ?_, ?_, ?_, h7⟩
    · simp
    · simp
    · simp
    · simp
    · simp
    · simp
    · exact fun p hp => (h5 p hp).trans hlt.le
    · exact fun _ p hp => (h5 p hp).trans_lt hlt
  next =>
    exact h.frame rfl (fun t ht => ht)
      (fun hready hne htrue => ⟨hready, hne, htrue⟩) (by simp) (by simp)
        (by simp) (by simp)

theorem History.reset [Zero V] (h : s.History M) :
    { s with
      generation := s.generation + 1
      host := .resetting }.History M :=
  h.frame rfl (fun t ht => ht)
    (fun hready hne htrue => ⟨hready, hne, htrue⟩) (by simp) (by simp)
      (by simp) (by simp)

theorem History.start [Zero V] (h : s.Prepared M) : s.History M := by
  obtain ⟨_, _, _, _, hinFlight, _, heligible, hdry, hhost, _, _, _, _, _, _, _,
    _, _, hcalls, _⟩ := h
  constructor <;> simp [hhost, hcalls, heligible, hdry]

end Exchange

end

end Audiox.PluginExchange
