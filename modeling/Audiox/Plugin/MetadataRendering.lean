import Audiox.Plugin.MetadataExact
import Mathlib

/-!
# Metadata as a text again

Accepted metadata is written as lines: the four required ones, one for each
parameter and for each text, and a control for each parameter that differs from
its own line.  Such a text is parsed as the same metadata.
-/

namespace Audiox.Plugin

open ByteCodec Checks TextFields MetadataLine

/-! ## Writing -/

def typeText : ControlType → Bytes
  | .float => ascii "float"
  | .integer => ascii "integer"
  | .boolean => ascii "boolean"
  | .enum => ascii "enum"

variable (print : ℚ → Bytes)

def paramLine (p : ParameterSpec) : MetadataLine :=
  .param p.name p.label (print p.min) (print p.max) (print p.defaultValue)

def textLine (t : TextControl) : MetadataLine :=
  .text t.name t.label t.defaultValue t.description

def controlLine (p : ParameterSpec) : MetadataLine :=
  .control p.name (typeText p.type) p.unit (print p.step) p.description p.options

/-- The parameters that differ from their own lines. -/
def controlledParams (m : PackageMetadata) : List ParameterSpec :=
  m.params.filter fun p => p ≠ p.base

def headLines (m : PackageMetadata) : List MetadataLine :=
  [.id m.id, .name m.name, .version m.version, .api]

/-- The lines in front of the controls. -/
def declaringLines (m : PackageMetadata) : List MetadataLine :=
  headLines m ++ (m.params.map (paramLine print) ++ m.texts.map textLine)

def render (m : PackageMetadata) : List MetadataLine :=
  declaringLines print m ++ (controlledParams m).map (controlLine print)

def renderText (m : PackageMetadata) : Bytes :=
  (render print m).flatMap fun l => l.bytes ++ ascii "\n"

/-- A number is printed as a text that is read as this number. -/
def Prints (streamFloat : Bytes → Option ℚ) (print : ℚ → Bytes) : Prop :=
  ∀ s x, floatValue streamFloat s = some x →
    floatValue streamFloat (print x) = some x

/-! ## Characters -/

variable {print} {streamFloat : Bytes → Option ℚ} {ls : List MetadataLine}
  {m : PackageMetadata}

/-- A field has no separator and no unprintable character. -/
def CleanField (s : Bytes) : Prop :=
  Clean s ∧ chr '|' ∉ s

theorem clean_ascii_keys (l : MetadataLine) : Clean l.key := by
  have hkeys : ∀ k ∈ [ascii "id", ascii "name", ascii "version", ascii "api",
      ascii "param", ascii "text", ascii "control"],
      ∀ c ∈ k, 32 ≤ c ∧ c ≤ 126 := by decide +kernel
  cases l <;> exact hkeys _ (by simp [key])

theorem cleanField_typeText (type : ControlType) :
    CleanField (typeText type) := by
  have htexts : ∀ s ∈ [ascii "float", ascii "integer", ascii "boolean",
      ascii "enum"], (∀ c ∈ s, 32 ≤ c ∧ c ≤ 126) ∧ chr '|' ∉ s := by decide +kernel
  cases type <;> exact htexts _ (by simp [typeText])

theorem controlType_typeText (type : ControlType) :
    controlType (typeText type) = some type := by
  cases type <;> decide

/-- The characters of a decimal number. -/
def numberChars : Bytes := ascii "0123456789+-.eE"

theorem mem_numberChars_of_isDigit {c : UInt8} (h : isDigit c = true) :
    c ∈ numberChars := by
  have hall : ∀ n < 256, isDigit (UInt8.ofNat n) = true →
      UInt8.ofNat n ∈ numberChars := by decide +kernel
  have hc := hall c.toNat c.toNat_lt
  rw [UInt8.ofNat_toNat] at hc
  exact hc h

theorem mem_dropSign {s : Bytes} {c : UInt8} (hc : c ∈ s) :
    c ∈ dropSign s ∨ c ∈ numberChars := by
  have hsigns : chr '+' ∈ numberChars ∧ chr '-' ∈ numberChars := by decide
  cases s with
  | nil => exact absurd hc List.not_mem_nil
  | cons d s =>
      rw [dropSign]
      split
      · next hsign =>
          rcases List.mem_cons.mp hc with rfl | hc
          · rcases hsign with rfl | rfl
            · exact .inr hsigns.1
            · exact .inr hsigns.2
          · exact .inl hc
      · exact .inl hc

theorem numberChars_of_exponentSyntax {s : Bytes}
    (h : exponentSyntax s = true) {c : UInt8} (hc : c ∈ s) :
    c ∈ numberChars := by
  have hletters : chr 'e' ∈ numberChars ∧ chr 'E' ∈ numberChars := by decide
  cases s with
  | nil => exact absurd hc List.not_mem_nil
  | cons d s =>
      rw [exponentSyntax] at h
      split at h
      · next hletter =>
          simp only [Bool.and_eq_true, List.all_eq_true] at h
          rcases List.mem_cons.mp hc with rfl | hc
          · rcases hletter with rfl | rfl
            · exact hletters.1
            · exact hletters.2
          · rcases mem_dropSign hc with hdigit | hsign
            · exact mem_numberChars_of_isDigit (h.2 c hdigit)
            · exact hsign
      · cases h

/-- Only the characters of numbers occur in numbers. -/
theorem numberChars_of_floatSyntax {s : Bytes} (h : floatSyntax s = true)
    {c : UInt8} (hc : c ∈ s) : c ∈ numberChars := by
  have hdot : chr '.' ∈ numberChars := by decide
  have hdigits : ∀ s : Bytes, c ∈ s → c ∈ s.dropWhile isDigit ∨
      c ∈ numberChars := by
    intro s hc
    rw [← List.takeWhile_append_dropWhile (p := isDigit) (l := s),
      List.mem_append] at hc
    rcases hc with hdigit | hrest
    · exact .inr (mem_numberChars_of_isDigit (List.mem_takeWhile_imp hdigit))
    · exact .inl hrest
  rcases mem_dropSign hc with hc | hsign
  · rcases hdigits _ hc with hrest | hdigit
    · rw [floatSyntax] at h
      simp only at h
      split at h
      · next hnil =>
          rw [hnil] at hrest
          exact absurd hrest List.not_mem_nil
      · next d rest hcons =>
          rw [hcons] at hrest
          split at h
          · next hd =>
              rw [Bool.and_eq_true] at h
              rcases List.mem_cons.mp hrest with rfl | hrest
              · rw [hd]
                exact hdot
              · rcases hdigits _ hrest with hexponent | hdigit
                · exact numberChars_of_exponentSyntax h.2 hexponent
                · exact hdigit
          · rw [Bool.and_eq_true] at h
            exact numberChars_of_exponentSyntax h.2 hrest
    · exact hdigit
  · exact hsign

theorem cleanField_number {s : Bytes} {x : ℚ}
    (h : floatValue streamFloat s = some x) : CleanField s := by
  have hchars : ∀ c ∈ numberChars, (32 ≤ c ∧ c ≤ 126) ∧ c ≠ chr '|' := by
    decide +kernel
  rw [floatValue] at h
  split at h
  · next hsyntax =>
      constructor
      · exact fun c hc => (hchars c (numberChars_of_floatSyntax hsyntax hc)).1
      · intro hc
        exact (hchars _ (numberChars_of_floatSyntax hsyntax hc)).2 rfl
  · cases h

theorem mem_fieldsText {fields : List Bytes} {c : UInt8} :
    c ∈ fieldsText fields → c = chr '|' ∨ ∃ f ∈ fields, c ∈ f := by
  intro h
  rw [fieldsText, List.intercalate, List.mem_flatten] at h
  obtain ⟨part, hpart, hc⟩ := h
  induction fields with
  | nil => simp at hpart
  | cons f fields ih =>
      cases fields with
      | nil =>
          rw [List.intersperse_singleton, List.mem_singleton] at hpart
          subst hpart
          exact .inr ⟨_, by simp, hc⟩
      | cons g fields =>
          rw [List.intersperse_cons_cons, List.mem_cons, List.mem_cons] at hpart
          rcases hpart with rfl | rfl | hpart
          · exact .inr ⟨_, by simp, hc⟩
          · exact .inl (List.mem_singleton.mp hc)
          · rcases ih hpart with hbar | ⟨f', hf', hc⟩
            · exact .inl hbar
            · exact .inr ⟨f', List.mem_cons_of_mem _ hf', hc⟩

theorem mem_fieldsText_of_mem {fields : List Bytes} {f : Bytes} {c : UInt8}
    (hf : f ∈ fields) (hc : c ∈ f) : c ∈ fieldsText fields := by
  rw [fieldsText, List.intercalate, List.mem_flatten]
  refine ⟨f, ?_, hc⟩
  induction fields with
  | nil => exact absurd hf List.not_mem_nil
  | cons g fields ih =>
      cases fields with
      | nil => simpa using hf
      | cons g' fields =>
          rw [List.intersperse_cons_cons, List.mem_cons, List.mem_cons]
          rcases List.mem_cons.mp hf with rfl | hf
          · exact .inl rfl
          · exact .inr (.inr (ih hf))

/-! ## What can be written -/

theorem mem_of_mem_lines {text line : Bytes} (hline : line ∈ lines text)
    {c : UInt8} (hc : c ∈ line) : c ∈ text ∧ c ≠ chr '\n' := by
  induction text generalizing line with
  | nil => exact absurd hline List.not_mem_nil
  | cons d text ih =>
      rw [lines] at hline
      split at hline
      · rcases List.mem_cons.mp hline with rfl | hline
        · exact absurd hc List.not_mem_nil
        · obtain ⟨hmem, hne⟩ := ih hline hc
          exact ⟨List.mem_cons_of_mem _ hmem, hne⟩
      · next hd =>
          split at hline
          · obtain rfl := List.mem_singleton.mp hline
            obtain rfl := List.mem_singleton.mp hc
            exact ⟨by simp, hd⟩
          · next first rest hrest =>
              rcases List.mem_cons.mp hline with rfl | hline
              · rcases List.mem_cons.mp hc with rfl | hc
                · exact ⟨by simp, hd⟩
                · obtain ⟨hmem, hne⟩ := ih (by rw [hrest]; simp) hc
                  exact ⟨List.mem_cons_of_mem _ hmem, hne⟩
              · obtain ⟨hmem, hne⟩ := ih
                  (by rw [hrest]; exact List.mem_cons_of_mem _ hline) hc
                exact ⟨List.mem_cons_of_mem _ hmem, hne⟩

/-- A key tells which line has it. -/
theorem singleKey_cases {l : MetadataLine} {k : Bytes}
    (h : l.singleKey = some k) :
    (k = ascii "id" → l.idValue ≠ none) ∧
      (k = ascii "name" → l.nameValue ≠ none) ∧
      (k = ascii "version" → l.versionValue ≠ none) := by
  cases l with
  | id =>
      cases h
      exact ⟨fun _ => by simp [idValue], fun heq => absurd heq (by decide),
        fun heq => absurd heq (by decide)⟩
  | name =>
      cases h
      exact ⟨fun heq => absurd heq (by decide), fun _ => by simp [nameValue],
        fun heq => absurd heq (by decide)⟩
  | version =>
      cases h
      exact ⟨fun heq => absurd heq (by decide),
        fun heq => absurd heq (by decide), fun _ => by simp [versionValue]⟩
  | api =>
      cases h
      exact ⟨fun heq => absurd heq (by decide),
        fun heq => absurd heq (by decide), fun heq => absurd heq (by decide)⟩
  | param => cases h
  | text => cases h
  | control => cases h

/-- A number that some field is read as. -/
def Readable (streamFloat : Bytes → Option ℚ) (x : ℚ) : Prop :=
  ∃ s, floatValue streamFloat s = some x

/-- Metadata that can be written as lines. -/
structure Renderable (streamFloat : Bytes → Option ℚ) (m : PackageMetadata) :
    Prop where
  api : m.api = 1
  id : validId m.id = true ∧ Clean m.id
  name : printable m.name 63 = true ∧ Clean m.name
  version : printable m.version 31 = true ∧ Clean m.version
  room : m.params.length + m.texts.length ≤ maxParams
  names : (m.params.map ParameterSpec.name ++
    m.texts.map TextControl.name).Nodup
  proper : ∀ p ∈ m.params, p.Proper
  params : ∀ p ∈ m.params, CleanField p.name ∧ CleanField p.label ∧
    CleanField p.unit ∧ CleanField p.description ∧ CleanField p.options
  bounds : ∀ p ∈ m.params, Readable streamFloat p.min ∧
    Readable streamFloat p.max ∧ Readable streamFloat p.defaultValue
  steps : ∀ p ∈ m.params, p ≠ p.base → Readable streamFloat p.step
  valid : ∀ t ∈ m.texts, (textLine t).Valid streamFloat
  texts : ∀ t ∈ m.texts, ∀ f ∈ (textLine t).fields, CleanField f

section

variable {text : Bytes} (hsized : WellSized text)
  (h : Describes streamFloat text ls)

include hsized h

theorem Describes.clean {l : MetadataLine} (hl : l ∈ ls) : Clean l.value := by
  have hline : l.bytes ∈ ByteCodec.lines text := by
    rw [h.lines]
    exact List.mem_map_of_mem hl
  intro c hc
  have hbytes : c ∈ l.bytes :=
    List.mem_append_right _ (List.mem_cons_of_mem _ hc)
  obtain ⟨hmem, hne⟩ := mem_of_mem_lines hline hbytes
  rcases hsized.clean c hmem with heq | hclean
  · exact absurd heq hne
  · exact hclean

theorem Describes.cleanField {l : MetadataLine} (hl : l ∈ ls)
    (hvalue : l.value = fieldsText l.fields) :
    ∀ f ∈ l.fields, CleanField f := by
  intro f hf
  constructor
  · intro c hc
    apply h.clean hsized hl
    rw [hvalue]
    exact mem_fieldsText_of_mem hf hc
  · exact h.inOrder.plain l hl f hf

omit hsized in
theorem Describes.occurs {k : Bytes} (hk : k ∈ requiredKeys) :
    ∃ l ∈ ls, l.singleKey = some k :=
  List.mem_filterMap.mp (h.required.mem_iff.mpr hk)

omit hsized in
/-- The metadata has the id, the name and the version of lines. -/
theorem Describes.head_mem :
    MetadataLine.id (meaning streamFloat ls).id ∈ ls ∧
      MetadataLine.name (meaning streamFloat ls).name ∈ ls ∧
      MetadataLine.version (meaning streamFloat ls).version ∈ ls := by
  have hvalue : ∀ f : MetadataLine → Option Bytes, ∀ l ∈ ls, f l ≠ none →
      ls.filterMap f ≠ [] := by
    intro f l hl hf
    obtain ⟨v, hv⟩ := Option.ne_none_iff_exists'.mp hf
    exact List.ne_nil_of_mem (List.mem_filterMap.mpr ⟨l, hl, hv⟩)
  obtain ⟨l, hl, hid⟩ := h.occurs (k := ascii "id") (by decide)
  obtain ⟨l', hl', hname⟩ := h.occurs (k := ascii "name") (by decide)
  obtain ⟨l'', hl'', hversion⟩ := h.occurs (k := ascii "version") (by decide)
  refine ⟨last_mem (fun l v => eq_id) (hvalue idValue l hl ?_),
    last_mem (fun l v => eq_name) (hvalue nameValue l' hl' ?_),
    last_mem (fun l v => eq_version) (hvalue versionValue l'' hl'' ?_)⟩
  · exact (singleKey_cases hid).1 rfl
  · exact (singleKey_cases hname).2.1 rfl
  · exact (singleKey_cases hversion).2.2 rfl

/-- What a text describes can be written. -/
theorem Describes.renderable : Renderable streamFloat (meaning streamFloat ls) := by
  have hls := h.inOrder
  obtain ⟨hid, hname, hversion⟩ := h.head_mem
  have hfits := fits_meaning hls
  have hempty : CleanField [] := by
    constructor
    · exact fun c hc => absurd hc List.not_mem_nil
    · exact List.not_mem_nil
  refine ⟨rfl, ⟨hls.valid _ hid, h.clean hsized hid⟩,
    ⟨hls.valid _ hname, h.clean hsized hname⟩,
    ⟨hls.valid _ hversion, h.clean hsized hversion⟩, hfits.room,
    (sound_meaning hls).names, fun p => proper_of_mem hls, ?_, ?_, ?_, ?_, ?_⟩
  · intro p hp
    obtain ⟨⟨min, max, start, hline, -⟩, hcontrol⟩ := param_of_mem hls hp
    have hfield := h.cleanField hsized hline rfl
    refine ⟨hfield _ (by simp [fields]), hfield _ (by simp [fields]), ?_⟩
    rcases hcontrol with hbase | ⟨type, step, hline', -⟩
    · have hunit : p.unit = [] := congrArg ParameterSpec.unit hbase
      have hdescription : p.description = [] :=
        congrArg ParameterSpec.description hbase
      have hoptions : p.options = [] := congrArg ParameterSpec.options hbase
      rw [hunit, hdescription, hoptions]
      exact ⟨hempty, hempty, hempty⟩
    · have hfield' := h.cleanField hsized hline' rfl
      exact ⟨hfield' _ (by simp [fields]), hfield' _ (by simp [fields]),
        hfield' _ (by simp [fields])⟩
  · intro p hp
    obtain ⟨⟨min, max, start, hline, hmin, hmax, hstart⟩, -⟩ :=
      param_of_mem hls hp
    obtain ⟨-, -, low, high, first, hlow, hhigh, hfirst, -⟩ := hls.valid _ hline
    rw [hmin, hmax, hstart, number_of_some hlow, number_of_some hhigh,
      number_of_some hfirst]
    exact ⟨⟨min, hlow⟩, ⟨max, hhigh⟩, ⟨start, hfirst⟩⟩
  · intro p hp hbase
    obtain ⟨-, hcontrol⟩ := param_of_mem hls hp
    rcases hcontrol with heq | ⟨type, step, hline, -, hstep, -⟩
    · exact absurd heq hbase
    · obtain ⟨-, -, -, -, -, size, hsize, -⟩ := hls.valid _ hline
      rw [hstep, number_of_some hsize]
      exact ⟨step, hsize⟩
  · intro t ht
    exact hls.valid _ (text_of_mem ht)
  · intro t ht f hf
    exact h.cleanField hsized (text_of_mem ht) rfl f hf

end

/-! ## The written lines -/

theorem filterMap_render {α : Type} (f : MetadataLine → Option α)
    (print : ℚ → Bytes) (m : PackageMetadata) :
    (render print m).filterMap f =
      (headLines m).filterMap f ++
        (m.params.filterMap (fun p => f (paramLine print p)) ++
          m.texts.filterMap (fun t => f (textLine t))) ++
        (controlledParams m).filterMap (fun p => f (controlLine print p)) := by
  simp only [render, declaringLines, List.filterMap_append, List.filterMap_map,
    Function.comp_def]

theorem singleKey_render (print : ℚ → Bytes) (m : PackageMetadata) :
    (render print m).filterMap singleKey = requiredKeys := by
  rw [filterMap_render]
  simp [headLines, singleKey, paramLine, textLine, controlLine, requiredKeys]

theorem declared_render (print : ℚ → Bytes) (m : PackageMetadata) :
    (render print m).filterMap declared =
      m.params.map ParameterSpec.name ++ m.texts.map TextControl.name := by
  rw [filterMap_render]
  simp [headLines, declared, paramLine, textLine, controlLine,
    List.filterMap_eq_map']

theorem controlled_render (print : ℚ → Bytes) (m : PackageMetadata) :
    (render print m).filterMap controlled =
      (controlledParams m).map ParameterSpec.name := by
  rw [filterMap_render]
  simp [headLines, controlled, paramLine, textLine, controlLine,
    List.filterMap_eq_map']

theorem textControl_render (print : ℚ → Bytes) (m : PackageMetadata) :
    (render print m).filterMap textControl = m.texts := by
  rw [filterMap_render]
  simp [headLines, textControl, paramLine, textLine, controlLine]

/-- What can be said of all lines that are written is said of each kind. -/
theorem forall_mem_render {P : MetadataLine → Prop}
    (hhead : ∀ l ∈ headLines m, P l)
    (hparams : ∀ p ∈ m.params, P (paramLine print p))
    (htexts : ∀ t ∈ m.texts, P (textLine t))
    (hcontrols : ∀ p ∈ controlledParams m, P (controlLine print p)) :
    ∀ l ∈ render print m, P l := by
  intro l hl
  simp only [render, declaringLines, List.mem_append, List.mem_map] at hl
  rcases hl with (hl | ⟨p, hp, rfl⟩ | ⟨t, ht, rfl⟩) | ⟨p, hp, rfl⟩
  · exact hhead l hl
  · exact hparams p hp
  · exact htexts t ht
  · exact hcontrols p hp

theorem mem_controlledParams {p : ParameterSpec} :
    p ∈ controlledParams m ↔ p ∈ m.params ∧ p ≠ p.base := by
  simp [controlledParams]

section

variable (hm : Renderable streamFloat m) (hprint : Prints streamFloat print)

include hm hprint

theorem Renderable.prints {p : ParameterSpec} (hp : p ∈ m.params) :
    floatValue streamFloat (print p.min) = some p.min ∧
      floatValue streamFloat (print p.max) = some p.max ∧
      floatValue streamFloat (print p.defaultValue) = some p.defaultValue := by
  obtain ⟨⟨s, hs⟩, ⟨s', hs'⟩, ⟨s'', hs''⟩⟩ := hm.bounds p hp
  exact ⟨hprint s _ hs, hprint s' _ hs', hprint s'' _ hs''⟩

theorem Renderable.prints_step {p : ParameterSpec}
    (hp : p ∈ controlledParams m) :
    floatValue streamFloat (print p.step) = some p.step := by
  obtain ⟨hp, hne⟩ := mem_controlledParams.mp hp
  obtain ⟨s, hs⟩ := hm.steps p hp hne
  exact hprint s _ hs

theorem Renderable.cleanField_render :
    ∀ l ∈ render print m, ∀ f ∈ l.fields, CleanField f := by
  apply forall_mem_render
  · intro l hl
    have hnone : l.fields = [] := by
      simp only [headLines, List.mem_cons, List.not_mem_nil, or_false] at hl
      rcases hl with rfl | rfl | rfl | rfl <;> rfl
    simp [hnone]
  · intro p hp
    obtain ⟨hmin, hmax, hstart⟩ := hm.prints hprint hp
    obtain ⟨hname, hlabel, -⟩ := hm.params p hp
    simp only [paramLine, fields, List.forall_mem_cons]
    exact ⟨hname, hlabel, cleanField_number hmin, cleanField_number hmax,
      cleanField_number hstart, by simp⟩
  · exact hm.texts
  · intro p hp
    obtain ⟨hname, -, hunit, hdescription, hoptions⟩ :=
      hm.params p (mem_controlledParams.mp hp).1
    simp only [controlLine, fields, List.forall_mem_cons]
    exact ⟨hname, cleanField_typeText _, hunit,
      cleanField_number (hm.prints_step hprint hp), hdescription, hoptions,
      by simp⟩

theorem Renderable.valid_render :
    ∀ l ∈ render print m, l.Valid streamFloat := by
  apply forall_mem_render
  · intro l hl
    simp only [headLines, List.mem_cons, List.not_mem_nil, or_false] at hl
    rcases hl with rfl | rfl | rfl | rfl
    · exact hm.id.1
    · exact hm.name.1
    · exact hm.version.1
    · trivial
  · intro p hp
    obtain ⟨hmin, hmax, hstart⟩ := hm.prints hprint hp
    have hproper := hm.proper p hp
    exact ⟨hproper.name, hproper.label, _, _, _, hmin, hmax, hstart,
      hproper.ordered, hproper.start⟩
  · exact hm.valid
  · intro p hp
    have hproper := hm.proper p (mem_controlledParams.mp hp).1
    refine ⟨hproper.name, hproper.unit, hproper.description, hproper.options,
      ?_, _, hm.prints_step hprint hp, hproper.step⟩
    rw [controlType_typeText]
    exact Option.some_ne_none _

theorem Renderable.spec_paramLine {p : ParameterSpec} (hp : p ∈ m.params) :
    (paramLine print p).spec streamFloat = some p.base := by
  obtain ⟨hmin, hmax, hstart⟩ := hm.prints hprint hp
  rw [paramLine, spec, number_of_some hmin, number_of_some hmax,
    number_of_some hstart]
  rfl

theorem Renderable.specs_declaringLines :
    (declaringLines print m).filterMap (spec streamFloat) =
      m.params.map ParameterSpec.base := by
  have hspecs : m.params.filterMap (fun p => (paramLine print p).spec streamFloat) =
      m.params.map ParameterSpec.base := by
    rw [← List.filterMap_eq_map]
    apply List.filterMap_congr
    intro p hp
    exact hm.spec_paramLine hprint hp
  simp only [declaringLines, List.filterMap_append, List.filterMap_map,
    Function.comp_def, hspecs]
  simp [headLines, spec, textLine]

theorem Renderable.specs_render :
    (render print m).filterMap (spec streamFloat) =
      m.params.map ParameterSpec.base := by
  rw [render, List.filterMap_append, hm.specs_declaringLines hprint]
  simp [controlLine, spec, List.filterMap_map, Function.comp_def]

omit hm hprint in
/-- A control stands behind all other lines. -/
theorem controlLine_behind {before after : List MetadataLine} {l : MetadataLine}
    (h : render print m = before ++ l :: after) (hl : l.controlled ≠ none) :
    ∃ mid, before = declaringLines print m ++ mid ∧
      l ∈ (controlledParams m).map (controlLine print) := by
  have hplain : ∀ l ∈ declaringLines print m, l.controlled = none := by
    intro l hl
    simp only [declaringLines, headLines, List.mem_append, List.mem_map,
      List.mem_cons, List.not_mem_nil, or_false] at hl
    rcases hl with (rfl | rfl | rfl | rfl) | ⟨p, -, rfl⟩ | ⟨t, -, rfl⟩ <;> rfl
  rcases List.append_eq_append_iff.mp h with ⟨mid, hmid, hrest⟩ | ⟨mid, hmid, hrest⟩
  · refine ⟨mid, hmid, ?_⟩
    rw [hrest]
    simp
  · cases mid with
    | nil =>
        rw [List.append_nil] at hmid
        rw [List.nil_append] at hrest
        refine ⟨[], ?_, ?_⟩
        · rw [List.append_nil, hmid]
        · rw [← hrest]
          simp
    | cons l' mid =>
        obtain ⟨rfl, -⟩ := List.cons_eq_cons.mp hrest
        exact absurd (hplain l (by rw [hmid]; simp)) hl

theorem Renderable.targets_render {before after : List MetadataLine}
    {l : MetadataLine} (h : render print m = before ++ l :: after) :
    l.Targets streamFloat before := by
  cases l with
  | control n type unit step description options =>
      obtain ⟨mid, rfl, hl⟩ := controlLine_behind h (by simp [controlled])
      obtain ⟨p, hp, hline⟩ := List.mem_map.mp hl
      have hp' := (mem_controlledParams.mp hp).1
      have herror := (hm.proper p hp').control
      have hstep := hm.prints_step hprint hp
      cases hline
      refine ⟨p.base, ?_, rfl, ?_⟩
      · rw [List.filterMap_append, hm.specs_declaringLines hprint]
        exact List.mem_append_left _ (List.mem_map_of_mem hp')
      · rw [controlType_typeText, number_of_some hstep]
        exact herror
  | _ => trivial

theorem Renderable.inOrder_render : InOrder streamFloat (render print m) := by
  have hparams := (List.nodup_append'.mp hm.names).1
  constructor
  · rw [singleKey_render]
    decide
  · exact fun l hl f hf => (hm.cleanField_render hprint l hl f hf).2
  · exact hm.valid_render hprint
  · rw [declared_render, List.length_append, List.length_map, List.length_map]
    exact hm.room
  · rw [declared_render]
    exact hm.names
  · rw [controlled_render]
    exact hparams.sublist (List.filter_sublist.map _)
  · exact fun before l after h => hm.targets_render hprint h

/-- The written lines mean the metadata. -/
theorem Renderable.meaning_render : meaning streamFloat (render print m) = m := by
  have hls := hm.inOrder_render hprint
  have hparams : (m.params.map ParameterSpec.base).map (fun p =>
      (render print m).foldl (fun p l => applyControl streamFloat l p) p) =
      m.params := by
    rw [List.map_map]
    conv_rhs => rw [← List.map_id m.params]
    apply List.map_congr_left
    intro p hp
    by_cases hbase : p = p.base
    · have hfree : p.base.name ∉ (render print m).filterMap controlled := by
        rw [controlled_render]
        intro hmem
        obtain ⟨q, hq, hname⟩ := List.mem_map.mp hmem
        obtain ⟨hq, hne⟩ := mem_controlledParams.mp hq
        have hparams := (List.nodup_append'.mp hm.names).1
        obtain rfl := List.inj_on_of_nodup_map hparams hq hp hname
        exact hne hbase
      rw [Function.comp, foldl_applyControl_of_notMem hfree]
      exact hbase.symm
    · have hp' := mem_controlledParams.mpr ⟨hp, hbase⟩
      have hl : controlLine print p ∈ render print m :=
        List.mem_append_right _ (List.mem_map_of_mem hp')
      have hstep := hm.prints_step hprint hp'
      have hname : (controlLine print p).controlled = some p.base.name := rfl
      have hsame : p.base.name = p.name := rfl
      rw [Function.comp, foldl_applyControl_of_mem hls hl hname, controlLine,
        applyControl, if_pos hsame, controlType_typeText, number_of_some hstep]
      rfl
  have hhead : ∀ f : MetadataLine → Option Bytes,
      (∀ l, f l ≠ none → l.singleKey ≠ none) →
      (render print m).filterMap f = (headLines m).filterMap f := by
    intro f hf
    have hnone : ∀ l, l.singleKey = none → f l = none := by
      intro l hl
      by_contra hne
      exact hf l hne hl
    rw [filterMap_render]
    simp [hnone (paramLine print _) rfl, hnone (textLine _) rfl,
      hnone (controlLine print _) rfl]
  rw [meaning, hm.specs_render hprint, hparams, textControl_render,
    hhead idValue (fun l hl => by cases l <;> simp_all [idValue, singleKey]),
    hhead nameValue (fun l hl => by cases l <;> simp_all [nameValue, singleKey]),
    hhead versionValue
      (fun l hl => by cases l <;> simp_all [versionValue, singleKey])]
  have hapi := hm.api
  cases m
  cases hapi
  rfl

theorem Renderable.clean_render : ∀ l ∈ render print m, Clean l.bytes := by
  have hjoin : ∀ l : MetadataLine, Clean l.value → Clean l.bytes := by
    intro l hl c hc
    rcases List.mem_append.mp hc with hc | hc
    · exact clean_ascii_keys l c hc
    · rcases List.mem_cons.mp hc with rfl | hc
      · decide
      · exact hl c hc
  have hfields : ∀ l ∈ render print m, Clean (fieldsText l.fields) := by
    intro l hl c hc
    rcases mem_fieldsText hc with rfl | ⟨f, hf, hc⟩
    · decide
    · exact (hm.cleanField_render hprint l hl f hf).1 c hc
  intro l hl
  apply hjoin
  have hl' := hfields l hl
  simp only [render, declaringLines, headLines, List.mem_append, List.mem_map,
    List.mem_cons, List.not_mem_nil, or_false] at hl
  rcases hl with ((rfl | rfl | rfl | rfl) | ⟨p, -, rfl⟩ | ⟨t, -, rfl⟩) |
    ⟨p, -, rfl⟩
  · exact hm.id.2
  · exact hm.name.2
  · exact hm.version.2
  · intro c hc
    have hone : ascii "1" = [49] := by decide
    rw [value, hone, List.mem_singleton] at hc
    subst hc
    decide
  · exact hl'
  · exact hl'
  · exact hl'

theorem Renderable.describes_render :
    Describes streamFloat (renderText print m) (render print m) := by
  refine ⟨?_, hm.inOrder_render hprint, ?_⟩
  · have hlines : renderText print m =
        ((render print m).map MetadataLine.bytes).flatMap (· ++ ascii "\n") := by
      rw [renderText, List.flatMap_map]
    rw [hlines]
    apply lines_flatMap
    intro line hline hmem
    obtain ⟨l, hl, rfl⟩ := List.mem_map.mp hline
    exact absurd (hm.clean_render hprint l hl _ hmem).1 (by decide)
  · rw [singleKey_render]

/-- The text of metadata is parsed as this metadata, unless it is too long. -/
theorem Renderable.parse_renderText :
    parseMetadata streamFloat (renderText print m) =
      if (renderText print m).length ≤ kMaxMetadataBytes then .ok m
      else .error "invalid metadata size" := by
  split
  · next hsize =>
      rw [parseMetadata_eq_ok]
      refine ⟨⟨?_, hsize, ?_⟩, render print m, hm.describes_render hprint,
        (hm.meaning_render hprint).symm⟩
      · simp [renderText, render, declaringLines, headLines, MetadataLine.bytes]
      · intro c hc
        obtain ⟨l, hl, hc⟩ := List.mem_flatMap.mp hc
        rcases List.mem_append.mp hc with hc | hc
        · exact .inr (hm.clean_render hprint l hl c hc)
        · have hend : ascii "\n" = [chr '\n'] := by decide
          rw [hend, List.mem_singleton] at hc
          exact .inl hc
  · next hsize =>
      rw [parseMetadata, if_pos (.inr (Nat.not_le.mp hsize))]

end

/-! ## Exactness -/

/-- The parser fails and leaves the metadata alone, or it stores what the lines
of the text mean.  Texts always fit into their arrays; what is stored is sound,
and it is what a text is parsed as that is written from it. -/
theorem parseMetadata_exact (streamFloat : Bytes → Option ℚ) (text : Bytes)
    (metadata : PackageMetadata) :
    (parseMetadataInto streamFloat text metadata = (false, metadata) ∨
      ∃ m, parseMetadata streamFloat text = .ok m ∧
        parseMetadataInto streamFloat text metadata = (true, m)) ∧
    (∀ n st, ((lines text).take n).foldlM (parseMetadataLine streamFloat) {} =
      .ok st → st.result.Fits) ∧
    (∀ m, parseMetadata streamFloat text = .ok m ↔
      WellSized text ∧
        ∃ ls, Describes streamFloat text ls ∧ m = meaning streamFloat ls) ∧
    (∀ m, parseMetadata streamFloat text = .ok m → m.Fits ∧ m.Sound) ∧
    ∀ m print, parseMetadata streamFloat text = .ok m →
      Prints streamFloat print →
      parseMetadata streamFloat (renderText print m) =
        if (renderText print m).length ≤ kMaxMetadataBytes then .ok m
        else .error "invalid metadata size" := by
  refine ⟨?_, ?_, fun m => parseMetadata_eq_ok, ?_, ?_⟩
  · rw [parseMetadataInto]
    cases hparse : parseMetadata streamFloat text with
    | ok m => exact .inr ⟨m, rfl, rfl⟩
    | error e => exact .inl rfl
  · intro n st hst
    obtain ⟨ls, -, hls, rfl⟩ := (foldlM_parseMetadataLine_eq_ok _).mp hst
    exact fits_meaning hls
  · intro m hm
    obtain ⟨-, ls, hdescribes, rfl⟩ := parseMetadata_eq_ok.mp hm
    exact ⟨fits_meaning hdescribes.inOrder, sound_meaning hdescribes.inOrder⟩
  · intro m print hm hprint
    obtain ⟨hsized, ls, hdescribes, rfl⟩ := parseMetadata_eq_ok.mp hm
    exact (hdescribes.renderable hsized).parse_renderText hprint

end Audiox.Plugin
