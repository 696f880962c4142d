import Audiox.Plugin.MetadataLines
import Mathlib

/-!
# Accepted metadata

What a metadata text is when it is accepted, what then holds of the metadata,
and how metadata is written as a text again.
-/

namespace Audiox.Plugin

open ByteCodec Checks TextFields MetadataLine

variable {streamFloat : Bytes → Option ℚ} {ls : List MetadataLine}

/-! ## Accepted texts -/

/-- The call with the metadata that it changes. -/
def parseMetadataInto (streamFloat : Bytes → Option ℚ) (text : Bytes)
    (metadata : PackageMetadata) : Bool × PackageMetadata :=
  match parseMetadata streamFloat text with
  | .ok result => (true, result)
  | .error _ => (false, metadata)

/-- The characters of a line. -/
def Clean (s : Bytes) : Prop :=
  ∀ c ∈ s, 32 ≤ c ∧ c ≤ 126

/-- The sizes and the characters of a text. -/
structure WellSized (text : Bytes) : Prop where
  nonempty : text ≠ []
  size : text.length ≤ kMaxMetadataBytes
  clean : ∀ c ∈ text, c = chr '\n' ∨ (32 ≤ c ∧ c ≤ 126)

/-- A text consists of lines that are in order, each required one once. -/
structure Describes (streamFloat : Bytes → Option ℚ) (text : Bytes)
    (ls : List MetadataLine) : Prop where
  lines : lines text = ls.map MetadataLine.bytes
  inOrder : InOrder streamFloat ls
  required : (ls.filterMap singleKey).Perm requiredKeys

theorem singleKey_mem {l : MetadataLine} {k : Bytes} (h : l.singleKey = some k) :
    k ∈ requiredKeys := by
  cases l with
  | param => cases h
  | text => cases h
  | control => cases h
  | _ =>
      cases h
      decide

/-- Keys that are not repeated are the required ones if those are there. -/
theorem required_iff (h : InOrder streamFloat ls) :
    (ls.filterMap singleKey).Perm requiredKeys ↔
      ∀ k ∈ requiredKeys, k ∈ ls.filterMap singleKey := by
  have hmem : ∀ k ∈ ls.filterMap singleKey, k ∈ requiredKeys := by
    intro k hk
    obtain ⟨l, -, hl⟩ := List.mem_filterMap.mp hk
    exact singleKey_mem hl
  rw [List.perm_ext_iff_of_nodup h.single (by decide)]
  constructor
  · exact fun hperm k hk => (hperm k).mpr hk
  · exact fun hall k => ⟨hmem k, hall k⟩

theorem parseMetadata_eq_ok {text : Bytes} {m : PackageMetadata} :
    parseMetadata streamFloat text = .ok m ↔
      WellSized text ∧
        ∃ ls, Describes streamFloat text ls ∧ m = meaning streamFloat ls := by
  have hkeys : ∀ ls : List MetadataLine, InOrder streamFloat ls →
      (((stateOf streamFloat ls).keys.all fun key => key ∈ requiredKeys) &&
        requiredKeys.all fun key => key ∈ (stateOf streamFloat ls).keys) =
        true → (ls.filterMap singleKey).Perm requiredKeys := by
    intro ls hls hall
    rw [Bool.and_eq_true] at hall
    rw [required_iff hls]
    intro k hk
    have hk' := List.all_eq_true.mp hall.2 k hk
    simpa [stateOf] using hk'
  constructor
  · intro h
    rw [parseMetadata] at h
    split at h
    · cases h
    · next hsize =>
        split at h
        · cases h
        · next hclean =>
            obtain ⟨st, hst, h⟩ := bind_eq_ok.mp h
            obtain ⟨ls, hlines, hls, rfl⟩ :=
              (foldlM_parseMetadataLine_eq_ok _).mp hst
            split at h
            · next hall =>
                cases h
                push Not at hsize
                refine ⟨⟨hsize.1, hsize.2, ?_⟩, ls, ⟨hlines, hls,
                  hkeys ls hls hall⟩, rfl⟩
                intro c hc
                by_contra hbad
                push Not at hbad
                apply hclean
                rw [List.any_eq_true]
                refine ⟨c, hc, ?_⟩
                simp only [hbad.1, ne_eq, not_false_eq_true, decide_true,
                  Bool.true_and, Bool.or_eq_true, decide_eq_true_eq]
                by_cases hlow : c < 32
                · exact .inl hlow
                · exact .inr
                    (UInt8.not_le.mp (hbad.2 (UInt8.not_lt.mp hlow)))
            · cases h
  · rintro ⟨hsized, ls, hdescribes, rfl⟩
    have hst := (foldlM_parseMetadataLine_eq_ok (lines text)).mpr
      ⟨ls, hdescribes.lines, hdescribes.inOrder, rfl⟩
    have hclean : ¬(text.any fun c => c ≠ chr '\n' && (c < 32 || c > 126)) =
        true := by
      intro hany
      obtain ⟨c, hc, hbad⟩ := List.any_eq_true.mp hany
      simp only [ne_eq, Bool.and_eq_true, Bool.or_eq_true, decide_eq_true_eq]
        at hbad
      rcases hsized.clean c hc with heq | ⟨hlow, hhigh⟩
      · exact hbad.1 heq
      · rcases hbad.2 with hlt | hgt
        · exact UInt8.not_lt.mpr hlow hlt
        · exact UInt8.not_lt.mpr hhigh hgt
    have hall : (((stateOf streamFloat ls).keys.all fun key =>
        key ∈ requiredKeys) && requiredKeys.all fun key =>
          key ∈ (stateOf streamFloat ls).keys) = true := by
      have hmem : ∀ k, k ∈ (stateOf streamFloat ls).keys ↔
          k ∈ requiredKeys := by
        intro k
        rw [stateOf, List.mem_reverse]
        exact hdescribes.required.mem_iff
      simp only [Bool.and_eq_true, List.all_eq_true, decide_eq_true_eq]
      exact ⟨fun k hk => (hmem k).mp hk, fun k hk => (hmem k).mpr hk⟩
    rw [parseMetadata, if_neg (by
      push Not
      exact ⟨hsized.nonempty, hsized.size⟩), if_neg hclean, hst]
    simp only [bind, Except.bind]
    rw [if_pos hall]
    rfl

/-! ## Parameters and their controls -/

/-- The one control of a parameter decides what becomes of it. -/
theorem foldl_applyControl_of_mem (h : InOrder streamFloat ls)
    {l : MetadataLine} (hl : l ∈ ls) {p : ParameterSpec}
    (hname : l.controlled = some p.name) :
    ls.foldl (fun p l => applyControl streamFloat l p) p =
      applyControl streamFloat l p := by
  obtain ⟨before, after, rfl⟩ := List.append_of_mem hl
  have hcontrols := h.controls
  rw [List.filterMap_append, List.filterMap_cons_some hname,
    List.nodup_append'] at hcontrols
  obtain ⟨-, hafter, hdisjoint⟩ := hcontrols
  have hbefore : p.name ∉ before.filterMap controlled :=
    fun hmem => hdisjoint hmem (by simp)
  have hafter' : (applyControl streamFloat l p).name ∉
      after.filterMap controlled := by
    rw [applyControl_name]
    exact (List.nodup_cons.mp hafter).1
  rw [List.foldl_append, List.foldl_cons,
    foldl_applyControl_of_notMem hbefore, foldl_applyControl_of_notMem hafter']

/-- A parameter without its control. -/
def ParameterSpec.base (p : ParameterSpec) : ParameterSpec where
  name := p.name
  label := p.label
  min := p.min
  max := p.max
  defaultValue := p.defaultValue

/-- Where a parameter comes from: a param line, and a control line unless it is
as the param line has it. -/
theorem param_of_mem (h : InOrder streamFloat ls) {p : ParameterSpec}
    (hp : p ∈ (meaning streamFloat ls).params) :
    (∃ min max start,
      MetadataLine.param p.name p.label min max start ∈ ls ∧
      p.min = number streamFloat min ∧ p.max = number streamFloat max ∧
      p.defaultValue = number streamFloat start) ∧
    (p = p.base ∨
      ∃ type step,
        MetadataLine.control p.name type p.unit step p.description p.options ∈
          ls ∧
        p.type = (controlType type).getD .float ∧
        p.step = number streamFloat step ∧
        controlError p.type p p.step p.options = none) := by
  obtain ⟨q, hq, rfl⟩ := List.mem_map.mp hp
  obtain ⟨l, hl, hspec⟩ := List.mem_filterMap.mp hq
  obtain ⟨n, label, min, max, start, rfl⟩ : ∃ n label min max start,
      l = .param n label min max start := by
    cases l with
    | param n label min max start => exact ⟨n, label, min, max, start, rfl⟩
    | _ => cases hspec
  cases hspec
  by_cases hcontrolled : n ∈ ls.filterMap controlled
  · obtain ⟨l', hl', hname⟩ := List.mem_filterMap.mp hcontrolled
    obtain ⟨type, unit, step, description, options, rfl⟩ :
        ∃ type unit step description options,
          l' = .control n type unit step description options := by
      cases l' with
      | control n' type unit step description options =>
          cases hname
          exact ⟨type, unit, step, description, options, rfl⟩
      | _ => cases hname
    obtain ⟨before, after, hsplit⟩ := List.append_of_mem hl'
    obtain ⟨q', hq', hname', herror⟩ := h.targets before _ after hsplit
    have hq'mem : q' ∈ ls.filterMap (spec streamFloat) := by
      rw [hsplit, List.filterMap_append]
      exact List.mem_append_left _ hq'
    have hsame := List.inj_on_of_nodup_map h.nodup_specs hq'mem hq hname'
    subst hsame
    rw [foldl_applyControl_of_mem h hl' rfl, applyControl, if_pos rfl]
    exact ⟨⟨min, max, start, hl, rfl, rfl, rfl⟩, .inr ⟨type, step, hl', rfl,
      rfl, (controlError_congr rfl rfl rfl _ _ _).trans herror⟩⟩
  · rw [foldl_applyControl_of_notMem hcontrolled]
    exact ⟨⟨min, max, start, hl, rfl, rfl, rfl⟩, .inl rfl⟩

/-! ## What holds of accepted metadata -/

/-- A parameter that is in order. -/
structure ParameterSpec.Proper (p : ParameterSpec) : Prop where
  name : identifier p.name 23 = true
  label : printable p.label 63 = true
  ordered : p.min < p.max
  start : p.min ≤ p.defaultValue ∧ p.defaultValue ≤ p.max
  unit : p.unit.length ≤ 23
  description : p.description.length ≤ 255
  options : p.options.length ≤ 255
  step : 0 < p.step
  control : controlError p.type p p.step p.options = none

theorem number_of_some {s : Bytes} {x : ℚ}
    (h : floatValue streamFloat s = some x) : number streamFloat s = x := by
  rw [number, h]
  rfl

theorem proper_of_mem (h : InOrder streamFloat ls) {p : ParameterSpec}
    (hp : p ∈ (meaning streamFloat ls).params) : p.Proper := by
  obtain ⟨⟨min, max, start, hline, hmin, hmax, hstart⟩, hcontrol⟩ :=
    param_of_mem h hp
  obtain ⟨hname, hlabel, low, high, first, hlow, hhigh, hfirst, hlt, hle,
    hle'⟩ := h.valid _ hline
  rw [number_of_some hlow] at hmin
  rw [number_of_some hhigh] at hmax
  rw [number_of_some hfirst] at hstart
  have hordered : p.min < p.max := by rwa [hmin, hmax]
  have hstart' : p.min ≤ p.defaultValue ∧ p.defaultValue ≤ p.max := by
    rw [hmin, hmax, hstart]
    exact ⟨hle, hle'⟩
  rcases hcontrol with hbase | ⟨type, step, hline', -, hstep, herror⟩
  · have hunit : p.unit = [] := congrArg ParameterSpec.unit hbase
    have hdescription : p.description = [] :=
      congrArg ParameterSpec.description hbase
    have hoptions : p.options = [] := congrArg ParameterSpec.options hbase
    have htype : p.type = .float := congrArg ParameterSpec.type hbase
    have hstep : p.step = 5368709 / 536870912 :=
      congrArg ParameterSpec.step hbase
    refine ⟨hname, hlabel, hordered, hstart', ?_, ?_, ?_, ?_, ?_⟩
    · simp [hunit]
    · simp [hdescription]
    · simp [hoptions]
    · rw [hstep]
      norm_num
    · simp [controlError, htype, hoptions]
  · obtain ⟨-, hunit, hdescription, hoptions, -, size, hsize, hpos⟩ :=
      h.valid _ hline'
    refine ⟨hname, hlabel, hordered, hstart', hunit, hdescription, hoptions, ?_,
      herror⟩
    rw [hstep, number_of_some hsize]
    exact hpos

theorem text_of_mem {t : TextControl}
    (ht : t ∈ (meaning streamFloat ls).texts) :
    MetadataLine.text t.name t.label t.defaultValue t.description ∈ ls := by
  obtain ⟨l, hl, hspec⟩ := List.mem_filterMap.mp ht
  cases l with
  | text =>
      cases hspec
      exact hl
  | _ => cases hspec

/-- The last value of a kind of line is in such a line. -/
theorem last_mem {f : MetadataLine → Option Bytes}
    {mk : Bytes → MetadataLine} (hmk : ∀ l v, f l = some v → l = mk v)
    (h : ls.filterMap f ≠ []) :
    mk ((ls.filterMap f).getLast?.getD []) ∈ ls := by
  rw [List.getLast?_eq_some_getLast h, Option.getD_some]
  obtain ⟨l, hl, hv⟩ := List.mem_filterMap.mp (List.getLast_mem h)
  rw [hmk l _ hv] at hl
  exact hl

theorem last_cases {f : MetadataLine → Option Bytes}
    {mk : Bytes → MetadataLine} (hmk : ∀ l v, f l = some v → l = mk v)
    (ls : List MetadataLine) :
    (ls.filterMap f).getLast?.getD [] = [] ∨
      mk ((ls.filterMap f).getLast?.getD []) ∈ ls := by
  by_cases h : ls.filterMap f = []
  · rw [h]
    exact .inl rfl
  · exact .inr (last_mem hmk h)

theorem eq_id {l : MetadataLine} {v : Bytes} (h : l.idValue = some v) :
    l = .id v := by
  cases l <;> cases h
  rfl

theorem eq_name {l : MetadataLine} {v : Bytes} (h : l.nameValue = some v) :
    l = .name v := by
  cases l <;> cases h
  rfl

theorem eq_version {l : MetadataLine} {v : Bytes}
    (h : l.versionValue = some v) : l = .version v := by
  cases l <;> cases h
  rfl

theorem length_of_identifier {s : Bytes} {max : Nat}
    (h : identifier s max = true) : s.length ≤ max := by
  cases s with
  | nil => exact Nat.zero_le _
  | cons c s =>
      simp only [identifier, Bool.and_eq_true, decide_eq_true_eq] at h
      exact h.1.1

theorem length_of_printable {s : Bytes} {max : Nat}
    (h : printable s max = true) : s.length ≤ max := by
  simp only [printable, Bool.and_eq_true, decide_eq_true_eq] at h
  exact h.1.2

theorem length_of_validId {s : Bytes} (h : validId s = true) :
    s.length ≤ 23 := by
  rw [validId, Bool.and_eq_true] at h
  have hrest := length_of_identifier h.2
  rw [List.length_drop] at hrest
  omega

/-- The characters of a text in an array of a size, its end included. -/
def FitsIn (s : Bytes) (size : Nat) : Prop :=
  s.length < size

/-- All texts fit into their arrays, and both tables have room. -/
structure PackageMetadata.Fits (m : PackageMetadata) : Prop where
  id : FitsIn m.id 24
  name : FitsIn m.name 64
  version : FitsIn m.version 32
  room : m.params.length + m.texts.length ≤ maxParams
  params : ∀ p ∈ m.params, FitsIn p.name 24 ∧ FitsIn p.label 64 ∧
    FitsIn p.unit 24 ∧ FitsIn p.description 256 ∧ FitsIn p.options 256
  texts : ∀ t ∈ m.texts, FitsIn t.name 24 ∧ FitsIn t.label 64 ∧
    FitsIn t.defaultValue 256 ∧ FitsIn t.description 256

theorem fits_meaning (h : InOrder streamFloat ls) :
    (meaning streamFloat ls).Fits := by
  constructor
  · rcases last_cases (fun l v => eq_id (l := l) (v := v)) ls with hnil | hline
    · simp only [meaning, hnil]
      exact Nat.succ_pos _
    · exact Nat.lt_succ_of_le (length_of_validId (h.valid _ hline))
  · rcases last_cases (fun l v => eq_name (l := l) (v := v)) ls with hnil | hline
    · simp only [meaning, hnil]
      exact Nat.succ_pos _
    · exact Nat.lt_succ_of_le (length_of_printable (h.valid _ hline))
  · rcases last_cases (fun l v => eq_version (l := l) (v := v)) ls with hnil | hline
    · simp only [meaning, hnil]
      exact Nat.succ_pos _
    · exact Nat.lt_succ_of_le (length_of_printable (h.valid _ hline))
  · rw [length_meaning]
    exact h.room
  · intro p hp
    have hproper := proper_of_mem h hp
    exact ⟨Nat.lt_succ_of_le (length_of_identifier hproper.name),
      Nat.lt_succ_of_le (length_of_printable hproper.label),
      Nat.lt_succ_of_le hproper.unit, Nat.lt_succ_of_le hproper.description,
      Nat.lt_succ_of_le hproper.options⟩
  · intro t ht
    obtain ⟨hname, hlabel, hstart, hdescription⟩ := h.valid _ (text_of_mem ht)
    exact ⟨Nat.lt_succ_of_le (length_of_identifier hname),
      Nat.lt_succ_of_le (length_of_printable hlabel),
      Nat.lt_succ_of_le hstart, Nat.lt_succ_of_le hdescription⟩

/-! ## Discrete controls -/

theorem isWhole_iff {x : ℚ} : isWhole x = true ↔ ∃ n : ℤ, x = n := by
  rw [isWhole, decide_eq_true_iff]
  constructor
  · intro h
    exact ⟨x.floor, h.symm⟩
  · rintro ⟨n, rfl⟩
    rw [Rat.floor_intCast]

/-- What a control without an error promises. -/
theorem controlError_none {type : ControlType} {p : ParameterSpec} {step : ℚ}
    {options : Bytes} (h : controlError type p step options = none) :
    (type ≠ .float → step = 1 ∧ isWhole p.min = true ∧ isWhole p.max = true ∧
      isWhole p.defaultValue = true ∧ |p.min| ≤ 16777216 ∧
      |p.max| ≤ 16777216) ∧
    (type = .boolean → p.min = 0 ∧ p.max = 1) ∧
    (type = .enum → options ≠ [] ∧ options.head? ≠ some (chr '~') ∧
      options.getLast? ≠ some (chr '~') ∧ ¬ascii "~~" <:+: options ∧
      p.min = 0 ∧ p.max = (enumChoices options - 1 : Nat) ∧
      enumChoices options ≤ 32) ∧
    (type ≠ .enum → options = []) := by
  rw [controlError] at h
  split at h
  · cases h
  · next hdiscrete =>
      have hdiscrete' : type ≠ .float → step = 1 ∧ isWhole p.min = true ∧
          isWhole p.max = true ∧ isWhole p.defaultValue = true ∧
          |p.min| ≤ 16777216 ∧ |p.max| ≤ 16777216 := by
        intro htype
        by_contra hbad
        apply hdiscrete
        refine ⟨htype, ?_⟩
        by_contra hnone
        apply hbad
        simpa only [not_or, not_not, Bool.not_eq_true, Bool.not_eq_false',
          gt_iff_lt, not_lt] using hnone
      split at h
      · cases h
      · next hboolean =>
          have hboolean' : type = .boolean → p.min = 0 ∧ p.max = 1 := by
            intro htype
            by_contra hbad
            apply hboolean
            refine ⟨htype, ?_⟩
            rwa [not_and_or] at hbad
          split at h
          · next henum =>
              split at h
              · cases h
              · next hall =>
                  simp only [not_or, not_not, gt_iff_lt, not_lt] at hall
                  exact ⟨hdiscrete', hboolean', fun _ => hall,
                    fun hne => absurd henum hne⟩
          · next henum =>
              split at h
              · cases h
              · next hoptions =>
                  exact ⟨hdiscrete', hboolean', fun htype => absurd htype henum,
                    fun _ => not_not.mp hoptions⟩

/-- The labels of an enumeration. -/
def labels (options : Bytes) : List Bytes :=
  options.splitOn (chr '~')

theorem length_labels (options : Bytes) :
    (labels options).length = enumChoices options :=
  length_splitOn _ _

/-- What metadata promises to those that use it. -/
structure PackageMetadata.Sound (m : PackageMetadata) : Prop where
  names : (m.params.map ParameterSpec.name ++
    m.texts.map TextControl.name).Nodup
  bounds : ∀ p ∈ m.params, p.min < p.max ∧ p.min ≤ p.defaultValue ∧
    p.defaultValue ≤ p.max ∧ 0 < p.step
  discrete : ∀ p ∈ m.params, p.type ≠ .float → p.step = 1 ∧
    ∃ low high start : ℤ, p.min = low ∧ p.max = high ∧ p.defaultValue = start ∧
      |low| ≤ 2 ^ 24 ∧ |high| ≤ 2 ^ 24 ∧ |start| ≤ 2 ^ 24
  boolean : ∀ p ∈ m.params, p.type = .boolean → p.min = 0 ∧ p.max = 1
  enum : ∀ p ∈ m.params, p.type = .enum → p.min = 0 ∧
    (∀ label ∈ labels p.options, label ≠ []) ∧
    (labels p.options).length ≤ 32 ∧
    p.max = ((labels p.options).length - 1 : Nat)

theorem ParameterSpec.Proper.discrete {p : ParameterSpec} (h : p.Proper)
    (htype : p.type ≠ .float) :
    p.step = 1 ∧ ∃ low high start : ℤ, p.min = low ∧ p.max = high ∧
      p.defaultValue = start ∧ |low| ≤ 2 ^ 24 ∧ |high| ≤ 2 ^ 24 ∧
      |start| ≤ 2 ^ 24 := by
  obtain ⟨hstep, hmin, hmax, hstart, hlow, hhigh⟩ :=
    (controlError_none h.control).1 htype
  obtain ⟨low, hmin⟩ := isWhole_iff.mp hmin
  obtain ⟨high, hmax⟩ := isWhole_iff.mp hmax
  obtain ⟨start, hstart⟩ := isWhole_iff.mp hstart
  obtain ⟨hle, hle'⟩ := h.start
  rw [hmin, abs_le] at hlow
  rw [hmax, abs_le] at hhigh
  rw [hmin, hstart] at hle
  rw [hmax, hstart] at hle'
  norm_cast at hlow hhigh hle hle'
  refine ⟨hstep, low, high, start, hmin, hmax, hstart, ?_, ?_, ?_⟩
  · exact abs_le.mpr hlow
  · exact abs_le.mpr hhigh
  · exact abs_le.mpr ⟨hlow.1.trans hle, hle'.trans hhigh.2⟩

theorem sound_meaning (h : InOrder streamFloat ls) :
    (meaning streamFloat ls).Sound := by
  have hnames : (meaning streamFloat ls).params.map ParameterSpec.name =
      (ls.filterMap (spec streamFloat)).map ParameterSpec.name := by
    rw [meaning, List.map_map]
    apply List.map_congr_left
    intro p _
    exact foldl_applyControl_name ls p
  constructor
  · rw [hnames]
    exact (declared_perm streamFloat ls).nodup_iff.mpr h.names
  · intro p hp
    have hproper := proper_of_mem h hp
    exact ⟨hproper.ordered, hproper.start.1, hproper.start.2, hproper.step⟩
  · intro p hp
    exact (proper_of_mem h hp).discrete
  · intro p hp
    exact (controlError_none (proper_of_mem h hp).control).2.1
  · intro p hp htype
    obtain ⟨hne, hhead, hlast, hpair, hmin, hmax, hcount⟩ :=
      (controlError_none (proper_of_mem h hp).control).2.2.1 htype
    have htildes : ascii "~~" = [chr '~', chr '~'] := by decide
    rw [htildes] at hpair
    refine ⟨hmin, splitOn_ne_nil_of_inner hne hhead hlast hpair, ?_, ?_⟩
    · rw [length_labels]
      exact hcount
    · rw [length_labels]
      exact hmax

end Audiox.Plugin
