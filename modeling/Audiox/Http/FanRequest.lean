import Audiox.Http.FanRewrite
import Mathlib

/-!
# Requests for the fan block

What the checks of a request promise of its curve, and what an accepted request
makes of the boot configuration.
-/

namespace Audiox.Http.FanConfig

open ByteCodec Config Checks Pattern Scenes

/-! ## The checks -/

theorem fanInteger_range {body key : Bytes} {low high v : Int}
    (h : fanInteger body key low high = some v) : low ≤ v ∧ v ≤ high := by
  unfold fanInteger at h
  split at h
  · cases h
  · split at h
    · cases h
    · split at h
      · split at h
        · next hrange =>
            cases h
            exact hrange
        · cases h
      · cases h

/-- Every round of a loop that keeps nothing succeeds. -/
theorem foldlM_unit {ε α : Type} {f : α → Except ε Unit} {l : List α} {u : Unit}
    (h : l.foldlM (fun _ a => f a) () = .ok u) : ∀ a ∈ l, f a = .ok () := by
  induction l with
  | nil => simp
  | cons b l ih =>
      rw [List.foldlM_cons, bind_eq_ok] at h
      obtain ⟨⟨⟩, hb, hrest⟩ := h
      intro a ha
      rcases List.mem_cons.mp ha with rfl | ha
      · exact hb
      · exact ih hrest a ha

theorem checkStep_ok {body : Bytes} {hysteresis : Int} {i : Fin 4}
    (h : checkStep body hysteresis i = .ok ()) :
    ∃ temperature speed, requestTemperature body i = some temperature ∧
      requestSpeed body i = some speed ∧
      (0 < i.val →
        (requestTemperature body (previous i)).getD 0 < temperature ∧
        (requestSpeed body (previous i)).getD 0 < speed ∧
        hysteresis < temperature - (requestTemperature body (previous i)).getD 0) := by
  rw [checkStep, bind_eq_ok] at h
  obtain ⟨temperature, htemperature, h⟩ := h
  rw [bind_eq_ok] at h
  obtain ⟨speed, hspeed, h⟩ := h
  rw [failIf_eq_ok] at h
  refine ⟨temperature, speed, orFail_eq_ok.mp htemperature,
    orFail_eq_ok.mp hspeed, ?_⟩
  intro hi
  simp only [not_and, not_or, not_le] at h
  exact h hi

theorem fanRequest_requested {body : Bytes} {s : FanSettings}
    (h : fanRequest body = .ok s) : Requested s := by
  rw [fanRequest, bind_eq_ok] at h
  obtain ⟨enabled, -, h⟩ := h
  rw [bind_eq_ok] at h
  obtain ⟨hysteresis, hhysteresis, h⟩ := h
  rw [bind_eq_ok] at h
  obtain ⟨⟨⟩, hsteps, h⟩ := h
  cases h
  have hstep : ∀ i : Fin 4, checkStep body hysteresis i = .ok () :=
    fun i => foldlM_unit hsteps i (List.mem_finRange i)
  refine ⟨?_, ?_, fanInteger_range (orFail_eq_ok.mp hhysteresis), ?_⟩
  · intro i
    obtain ⟨temperature, -, htemperature, -⟩ := checkStep_ok (hstep i)
    dsimp only
    rw [htemperature, Option.getD_some]
    exact fanInteger_range htemperature
  · intro i
    obtain ⟨-, speed, -, hspeed, -⟩ := checkStep_ok (hstep i)
    dsimp only
    rw [hspeed, Option.getD_some]
    exact fanInteger_range hspeed
  · intro i hi
    obtain ⟨temperature, speed, htemperature, hspeed, hincreasing⟩ :=
      checkStep_ok (hstep i)
    dsimp only
    rw [htemperature, hspeed, Option.getD_some, Option.getD_some]
    exact hincreasing hi

/-! ## No write behind the buffer -/

def InBounds {α : Type} (r : Except Failure α) : Prop :=
  r ≠ .error .outOfBounds

theorem InBounds.bind {α β : Type} {r : Except Failure α}
    {f : α → Except Failure β} (h : InBounds r)
    (hf : ∀ a, r = .ok a → InBounds (f a)) : InBounds (r >>= f) := by
  cases r with
  | error e => exact fun heq => h (congrArg _ (Except.error.inj heq))
  | ok a => exact hf a rfl

theorem inBounds_failIf (c : Prop) [Decidable c] (status text : String) :
    InBounds (failIf c (.refused status text)) := by
  unfold failIf InBounds
  split <;> simp

theorem inBounds_orFail {α : Type} (value : Option α) (text : String) :
    InBounds (orFail value (badRequest text)) := by
  unfold InBounds
  cases value <;> simp [orFail, badRequest]

theorem inBounds_checkStep (body : Bytes) (hysteresis : Int) (i : Fin 4) :
    InBounds (checkStep body hysteresis i) := by
  apply (inBounds_orFail _ _).bind
  intro temperature _
  apply (inBounds_orFail _ _).bind
  intro speed _
  exact inBounds_failIf _ _ _

theorem inBounds_fanRequest (body : Bytes) : InBounds (fanRequest body) := by
  have hsteps : ∀ (hysteresis : Int) (l : List (Fin 4)),
      InBounds (l.foldlM (fun _ i => checkStep body hysteresis i) ()) := by
    intro hysteresis l
    induction l with
    | nil => simp [InBounds, pure, Except.pure]
    | cons i l ih =>
        rw [List.foldlM_cons]
        exact (inBounds_checkStep body hysteresis i).bind fun _ _ => ih
  apply (inBounds_orFail _ _).bind
  intro enabled _
  apply (inBounds_orFail _ _).bind
  intro hysteresis _
  apply (hsteps hysteresis _).bind
  intro _ _
  simp [InBounds]

theorem inBounds_rewriteConfig {config : Bytes} (s : FanSettings)
    (h : config.length < HTTP_BODY_MAX) : InBounds (rewriteConfig config s) := by
  rcases cutBlock_cases config with ⟨front, behind, hcut, -, hle⟩ |
    ⟨status, text, hcut⟩
  · rw [rewriteConfig_eq s hcut (by omega)]
    unfold InBounds
    split <;> simp [tooLarge]
  · rw [rewriteConfig, hcut]
    simp [InBounds, Bind.bind, Except.bind]

theorem inBounds_handle (config body : Bytes) :
    InBounds (handlePi5FanConfig config body) := by
  apply (inBounds_failIf _ _ _).bind
  intro _ hshort
  apply (inBounds_failIf _ _ _).bind
  intro _ _
  apply (inBounds_fanRequest body).bind
  intro request _
  apply (inBounds_rewriteConfig request
    (Nat.not_le.mp (failIf_eq_ok.mp hshort))).bind
  intro updated _
  simp [InBounds]

/-! ## The text that is written -/

theorem front_separator {rest : Bytes} (h : firstAt beginMarker rest = none) :
    Front (rest ++ separator rest) := by
  have hnone := (firstAt_none_iff (by decide)).mp h
  constructor
  · rw [separator]
    split
    · exact .inr ⟨rest, rfl⟩
    · next hclosed =>
        rw [List.append_nil]
        by_cases hnil : rest = []
        · exact .inl hnil
        · right
          have hlast : rest.getLast? = some newline := by
            by_contra hlast
            exact hclosed ⟨hnil, hlast⟩
          exact ⟨rest.dropLast, (List.dropLast_append_getLast? _ hlast).symm⟩
  · rw [separator]
    split
    · intro j hat
      have hle := hat.end_le (by decide)
      have hlen : beginMarker.length = 30 := markers_spec.1
      rw [List.length_append, List.length_singleton] at hle
      rcases hat.cases_of_notMem markers_spec.2.2.1 with hat | hlt
      · exact hnone j hat
      · omega
    · rw [List.append_nil]
      exact hnone

/-- A text that is closed already gets nothing in between. -/
theorem separator_closed (rest : Bytes) : separator (rest ++ separator rest) = [] := by
  rw [separator, if_neg]
  rintro ⟨hne, hlast⟩
  rw [separator] at hne hlast
  split at hne
  · next hopen =>
      rw [if_pos hopen, List.getLast?_concat] at hlast
      exact hlast rfl
  · next hclosed =>
      rw [if_neg hclosed, List.append_nil] at hlast
      rw [List.append_nil] at hne
      exact hclosed ⟨hne, hlast⟩

/-- What an accepted request writes. -/
theorem handle_ok {config body new : Bytes} {s : FanSettings}
    (h : handlePi5FanConfig config body = .ok (new, s)) :
    fanRequest body = .ok s ∧
      ∃ rest, WithoutBlock config rest ∧ rest.length < HTTP_BODY_MAX ∧
        new = rewritten s rest ∧ new ≠ [] ∧ new.length < HTTP_BODY_MAX := by
  rw [handlePi5FanConfig, bind_eq_ok] at h
  obtain ⟨_, hshort, h⟩ := h
  rw [bind_eq_ok] at h
  obtain ⟨_, -, h⟩ := h
  rw [bind_eq_ok] at h
  obtain ⟨request, hrequest, h⟩ := h
  rw [bind_eq_ok] at h
  obtain ⟨updated, hupdated, h⟩ := h
  cases h
  refine ⟨hrequest, ?_⟩
  rw [failIf_eq_ok] at hshort
  rcases cutBlock_cases config with ⟨front, behind, hcut, hwithout, hle⟩ |
    ⟨status, text, hcut⟩
  · have hrest : (front ++ behind).length < HTTP_BODY_MAX := by omega
    rw [rewriteConfig_eq s hcut hrest] at hupdated
    split at hupdated
    · cases hupdated
    · next hfits =>
        cases hupdated
        rw [not_or, not_le] at hfits
        exact ⟨_, hwithout, hrest, rfl, hfits⟩
  · rw [rewriteConfig, hcut] at hupdated
    cases hupdated

/-- A text whose block is cut out to a front is rewritten. -/
theorem handle_eq {config body front : Bytes} {s : FanSettings}
    (hshort : config.length < HTTP_BODY_MAX)
    (hread : readPi5FanSettings config ≠ none)
    (hrequest : fanRequest body = .ok s)
    (hcut : cutBlock config = .ok (front, []))
    (hlen : front.length < HTTP_BODY_MAX) :
    handlePi5FanConfig config body =
      if rewritten s front = [] ∨ (rewritten s front).length ≥ HTTP_BODY_MAX then
        .error tooLarge
      else .ok (rewritten s front, s) := by
  have hrewrite := rewriteConfig_eq s hcut (by rwa [List.append_nil])
  rw [List.append_nil] at hrewrite
  rw [handlePi5FanConfig, failIf_neg (Nat.not_le.mpr hshort), ok_bind,
    failIf_neg hread, ok_bind, hrequest, ok_bind, hrewrite]
  split
  · rfl
  · rfl

theorem read_rewritten {rest : Bytes} {s : FanSettings} (hs : Requested s)
    (h : firstAt beginMarker rest = none) :
    readPi5FanSettings (rewritten s rest) =
      some (if s.enabled then s else defaultSettings) := by
  rw [rewritten]
  by_cases henabled : s.enabled = true
  · rw [if_pos henabled, if_pos henabled]
    exact read_blockText (front_separator h) hs henabled
  · rw [if_neg henabled, if_neg henabled]
    exact readPi5FanSettings_none h

/-- The marker of a begin is in the new text where the block starts. -/
theorem at_rewritten_iff {rest : Bytes} {s : FanSettings} (hs : Requested s)
    (henabled : s.enabled = true) (h : firstAt beginMarker rest = none) (j : Nat) :
    At beginMarker (rewritten s rest) j ↔ j = (rest ++ separator rest).length := by
  obtain ⟨hbegin, hend, -, -, -, -, -, hendText, -⟩ := markers_spec
  have hhash : beginMarker[0]? = some (chr '#') := by decide
  have hplace := (firstAt_some_iff (by decide)).mp
    (firstAt_beginMarker (front_separator h) s)
  rw [rewritten, if_pos henabled]
  constructor
  · intro hat
    have hle := hat.end_le (by decide)
    have hchar := hat.getElem? (by omega : 0 < beginMarker.length)
    have htail : endText.length = 29 := by
      rw [hendText, List.length_append, List.length_singleton, hend]
    rw [blockText, ← List.append_assoc, List.length_append, htail,
      List.length_append] at hle
    rw [Nat.add_zero, hhash] at hchar
    rcases Nat.lt_trichotomy j (rest ++ separator rest).length with
      hlt | heq | hgt
    · exact absurd hat (hplace.2 j hlt)
    · exact heq
    · -- Behind its start the body has no hash sign, and its end is too short.
      obtain ⟨k, rfl⟩ := Nat.exists_eq_add_of_lt hgt
      rw [List.getElem?_append_right (by omega), blockText,
        List.getElem?_append_left (by omega), Nat.add_assoc,
        Nat.add_sub_cancel_left, ← List.getElem?_tail] at hchar
      exact absurd (List.mem_of_getElem? hchar) (hash_notMem_tail hs)
  · rintro rfl
    exact hplace.1

/-! ## Requests -/

theorem rewritten_repeated (s : FanSettings) (rest : Bytes) :
    rewritten s (if s.enabled then rest ++ separator rest else rest) =
      rewritten s rest := by
  unfold rewritten
  by_cases henabled : s.enabled = true
  · rw [if_pos henabled, if_pos henabled, if_pos henabled, separator_closed,
      List.append_nil]
  · rw [if_neg henabled, if_neg henabled, if_neg henabled]

theorem cutBlock_rewritten {rest : Bytes} {s : FanSettings} (hs : Requested s)
    (h : firstAt beginMarker rest = none) :
    cutBlock (rewritten s rest) =
      .ok (if s.enabled then rest ++ separator rest else rest, []) := by
  rw [rewritten]
  by_cases henabled : s.enabled = true
  · rw [if_pos henabled, if_pos henabled]
    exact cutBlock_blockText (front_separator h) hs
  · rw [if_neg henabled, if_neg henabled]
    exact cutBlock_none h

/-- A second request takes out what a first one has written. -/
theorem handle_rewritten {rest body : Bytes} {s t : FanSettings}
    (hs : Requested s) (h : firstAt beginMarker rest = none)
    (hlen : (rewritten s rest).length < HTTP_BODY_MAX)
    (hbody : fanRequest body = .ok t) :
    handlePi5FanConfig (rewritten s rest) body =
      if rewritten t (if s.enabled then rest ++ separator rest else rest) = [] ∨
          (rewritten t (if s.enabled then rest ++ separator rest else rest)).length ≥
            HTTP_BODY_MAX then
        .error tooLarge
      else
        .ok (rewritten t (if s.enabled then rest ++ separator rest else rest), t) := by
  apply handle_eq hlen _ hbody (cutBlock_rewritten hs h)
  · rw [rewritten] at hlen
    split at hlen
    · next henabled =>
        rw [if_pos henabled]
        rw [List.length_append] at hlen
        omega
    · next henabled =>
        rw [if_neg henabled]
        exact hlen
  · rw [read_rewritten hs h]
    simp

def turnedOn : Bytes :=
  ascii "enabled=1&hysteresis=3&temperature0=45&speed0=60&temperature1=55&speed1=90&temperature2=65&speed2=120&temperature3=75&speed3=200"

def turnedOff : Bytes :=
  ascii "enabled=0&hysteresis=3&temperature0=45&speed0=60&temperature1=55&speed1=90&temperature2=65&speed2=120&temperature3=75&speed3=200"

def curve (enabled : Bool) : FanSettings where
  enabled := enabled
  temperatures := ![45, 55, 65, 75]
  speeds := ![60, 90, 120, 200]
  hysteresis := 3

/-- A text in which the parts around the block make up a marker. -/
def joined : Bytes :=
  ascii "# AudioX Pi" ++ blockText (curve true) ++ ascii " 5 fan curve: begin"

/-- The new text and the first temperature of the answer. -/
def written (config body : Bytes) : Option (Bytes × Int) :=
  (handlePi5FanConfig config body).toOption.map fun answer =>
    (answer.1, answer.2.temperatures firstStep)

def firstRead (config : Bytes) : Option Int :=
  (readPi5FanSettings config).map (·.temperatures firstStep)

end Audiox.Http.FanConfig
