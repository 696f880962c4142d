import Audiox.Plugin.Metadata
import Audiox.Support.Checks
import Audiox.Support.TextFields
import Mathlib

/-!
# The lines of plugin metadata

What the lines of a metadata text are, which sequences of them are in order,
and what they mean.  The parser is compared with this description line by line:
its state is a function of the lines it has read.
-/

namespace Audiox.Plugin

open ByteCodec Checks TextFields

/-! ## Lines -/

inductive MetadataLine where
  | id (value : Bytes)
  | name (value : Bytes)
  | version (value : Bytes)
  | api
  | param (name label min max defaultValue : Bytes)
  | text (name label defaultValue description : Bytes)
  | control (name type unit step description options : Bytes)
deriving DecidableEq

def fieldsText (fields : List Bytes) : Bytes :=
  [chr '|'].intercalate fields

namespace MetadataLine

def key : MetadataLine → Bytes
  | id _ => ascii "id"
  | name _ => ascii "name"
  | version _ => ascii "version"
  | api => ascii "api"
  | param .. => ascii "param"
  | text .. => ascii "text"
  | control .. => ascii "control"

/-- The fields of a line whose value has some. -/
def fields : MetadataLine → List Bytes
  | param n label min max defaultValue => [n, label, min, max, defaultValue]
  | text n label defaultValue description =>
      [n, label, defaultValue, description]
  | control n type unit step description options =>
      [n, type, unit, step, description, options]
  | _ => []

def value : MetadataLine → Bytes
  | id value => value
  | name value => value
  | version value => value
  | api => ascii "1"
  | line => fieldsText line.fields

def bytes (line : MetadataLine) : Bytes :=
  line.key ++ chr '=' :: line.value

/-- The key of a line that may occur once. -/
def singleKey : MetadataLine → Option Bytes
  | id _ => some (ascii "id")
  | name _ => some (ascii "name")
  | version _ => some (ascii "version")
  | api => some (ascii "api")
  | _ => none

/-- The name that a line declares. -/
def declared : MetadataLine → Option Bytes
  | param n .. => some n
  | text n .. => some n
  | _ => none

/-- The parameter that a line controls. -/
def controlled : MetadataLine → Option Bytes
  | control n .. => some n
  | _ => none

def idValue : MetadataLine → Option Bytes
  | id value => some value
  | _ => none

def nameValue : MetadataLine → Option Bytes
  | name value => some value
  | _ => none

def versionValue : MetadataLine → Option Bytes
  | version value => some value
  | _ => none

variable (streamFloat : Bytes → Option ℚ)

/-- The number of a field, or zero. -/
def number (s : Bytes) : ℚ :=
  (floatValue streamFloat s).getD 0

/-- The parameter of a line, without its control. -/
def spec : MetadataLine → Option ParameterSpec
  | param n label min max defaultValue =>
      some
        { name := n
          label
          min := number streamFloat min
          max := number streamFloat max
          defaultValue := number streamFloat defaultValue }
  | _ => none

def textControl : MetadataLine → Option TextControl
  | text n label defaultValue description =>
      some { name := n, label, defaultValue, description }
  | _ => none

/-- What a line makes of a parameter: a control changes the one it names. -/
def applyControl (line : MetadataLine) (p : ParameterSpec) : ParameterSpec :=
  match line with
  | control n type unit step description options =>
      if p.name = n then
        { p with
          type := (controlType type).getD .float
          unit := unit
          description := description
          options := options
          step := number streamFloat step }
      else p
  | _ => p

/-- What a line satisfies whatever the other lines are. -/
def Valid : MetadataLine → Prop
  | id value => validId value = true
  | name value => printable value 63 = true
  | version value => printable value 31 = true
  | api => True
  | param n label min max defaultValue =>
      identifier n 23 = true ∧ printable label 63 = true ∧
        ∃ low high start, floatValue streamFloat min = some low ∧
          floatValue streamFloat max = some high ∧
          floatValue streamFloat defaultValue = some start ∧
          low < high ∧ low ≤ start ∧ start ≤ high
  | text n label defaultValue description =>
      identifier n 23 = true ∧ printable label 63 = true ∧
        defaultValue.length ≤ 255 ∧ description.length ≤ 255
  | control n type unit step description options =>
      identifier n 23 = true ∧ unit.length ≤ 23 ∧
        description.length ≤ 255 ∧ options.length ≤ 255 ∧
        controlType type ≠ none ∧
        ∃ size, floatValue streamFloat step = some size ∧ 0 < size

/-- A control names a parameter of a line before it, and fits it. -/
def Targets (before : List MetadataLine) : MetadataLine → Prop
  | control n type _ step _ options =>
      ∃ p ∈ before.filterMap (spec streamFloat), p.name = n ∧
        controlError ((controlType type).getD .float) p
          (number streamFloat step) options = none
  | _ => True

end MetadataLine

open MetadataLine

variable (streamFloat : Bytes → Option ℚ)

/-- What lines mean: one parameter for each param line with its controls, and
one text for each text line. -/
def meaning (ls : List MetadataLine) : PackageMetadata where
  id := (ls.filterMap idValue).getLast?.getD []
  name := (ls.filterMap nameValue).getLast?.getD []
  version := (ls.filterMap versionValue).getLast?.getD []
  params := (ls.filterMap (spec streamFloat)).map fun p =>
    ls.foldl (fun p line => applyControl streamFloat line p) p
  texts := ls.filterMap textControl

/-- The sequences of lines that are in order. -/
structure InOrder (ls : List MetadataLine) : Prop where
  single : (ls.filterMap singleKey).Nodup
  plain : ∀ l ∈ ls, ∀ f ∈ l.fields, chr '|' ∉ f
  valid : ∀ l ∈ ls, l.Valid streamFloat
  room : (ls.filterMap declared).length ≤ maxParams
  names : (ls.filterMap declared).Nodup
  controls : (ls.filterMap controlled).Nodup
  targets : ∀ before l after, ls = before ++ l :: after →
    l.Targets streamFloat before

/-- The state of the parser behind lines. -/
def stateOf (ls : List MetadataLine) : MetadataState where
  result := meaning streamFloat ls
  keys := (ls.filterMap singleKey).reverse
  params := (ls.filterMap declared).reverse
  controls := (ls.filterMap controlled).reverse

/-! ## What the parser of a value accepts -/

variable {streamFloat} {st st' : MetadataState} {value : Bytes}

theorem parseParam_eq_ok :
    parseParam streamFloat value st = .ok st' ↔
      controlsFull st = false ∧
      ∃ n label min max start low high first,
        value.splitOn (chr '|') = [n, label, min, max, start] ∧
        floatValue streamFloat min = some low ∧
        floatValue streamFloat max = some high ∧
        floatValue streamFloat start = some first ∧
        (identifier n 23 = true ∧ n ∉ st.params ∧ printable label 63 = true ∧
          low < high ∧ low ≤ first ∧ first ≤ high) ∧
        st' = { st with
          params := n :: st.params
          result := { st.result with
            params := st.result.params ++
              [{ name := n
                 label
                 min := low
                 max := high
                 defaultValue := first }] } } := by
  constructor
  · intro h
    rw [parseParam] at h
    split at h
    · cases h
    · next hroom =>
        split at h
        · next n label min max start hfields =>
            split at h
            · next low high first hlow hhigh hfirst =>
                split at h
                · cases h
                · next hall =>
                    simp only [not_or, ge_iff_le, not_le, not_lt,
                      Bool.not_eq_true, Bool.not_eq_false',
                      gt_iff_lt] at hall
                    refine ⟨by simpa using hroom, n, label, min, max, start,
                      low, high, first, hfields, hlow, hhigh, hfirst, hall, ?_⟩
                    exact (Except.ok.inj h).symm
            · cases h
        · cases h
  · rintro ⟨hroom, n, label, min, max, start, low, high, first, hfields, hlow,
      hhigh, hfirst, ⟨hn, hnew, hlabel, hlt, hle, hle'⟩, rfl⟩
    rw [parseParam, if_neg (by simp [hroom]), hfields]
    simp only [hlow, hhigh, hfirst]
    rw [if_neg (by simp [hn, hnew, hlabel, hlt, hle, hle'])]

theorem parseText_eq_ok :
    parseText value st = .ok st' ↔
      ∃ n label start description,
        value.splitOn (chr '|') = [n, label, start, description] ∧
        (identifier n 23 = true ∧ controlsFull st = false ∧ n ∉ st.params ∧
          printable label 63 = true ∧ start.length ≤ 255 ∧
          description.length ≤ 255) ∧
        st' = { st with
          params := n :: st.params
          result := { st.result with
            texts := st.result.texts ++
              [{ name := n, label, defaultValue := start, description }] } } := by
  constructor
  · intro h
    rw [parseText] at h
    split at h
    · next n label start description hfields =>
        split at h
        · cases h
        · next hn =>
            split at h
            · cases h
            · next hall =>
                simp only [not_or, gt_iff_lt, not_lt, Bool.not_eq_true,
                  Bool.not_eq_false'] at hall
                refine ⟨n, label, start, description, hfields,
                  ⟨by simpa using hn, hall⟩, ?_⟩
                exact (Except.ok.inj h).symm
    · cases h
  · rintro ⟨n, label, start, description, hfields,
      ⟨hn, hroom, hnew, hlabel, hstart, hdescription⟩, rfl⟩
    rw [parseText, hfields]
    simp only
    rw [if_neg (by simp [hn]), if_neg (by
      simp [hroom, hnew, hlabel, hstart, hdescription])]

theorem parseControl_eq_ok :
    parseControl streamFloat value st = .ok st' ↔
      ∃ n typeText unit step description options param type size,
        value.splitOn (chr '|') =
          [n, typeText, unit, step, description, options] ∧
        st.result.params.find? (·.name = n) = some param ∧
        controlType typeText = some type ∧
        floatValue streamFloat step = some size ∧
        (identifier n 23 = true ∧ n ∉ st.controls ∧ unit.length ≤ 23 ∧
          description.length ≤ 255 ∧ options.length ≤ 255 ∧ 0 < size) ∧
        controlError type param size options = none ∧
        st' = { st with
          controls := n :: st.controls
          result := { st.result with
            params := st.result.params.map fun p =>
              if p.name = n then
                { p with type, unit, description, options, step := size }
              else p } } := by
  constructor
  · intro h
    rw [parseControl] at h
    split at h
    · next n typeText unit step description options hfields =>
        split at h
        · cases h
        · next hn =>
            split at h
            · next param type size hparam htype hsize =>
                split at h
                · cases h
                · next hall =>
                    split at h
                    · cases h
                    · next herror =>
                        simp only [not_or, gt_iff_lt, not_lt, not_le] at hall
                        refine ⟨n, typeText, unit, step, description, options,
                          param, type, size, hfields, hparam, htype, hsize,
                          ⟨by simpa using hn, hall⟩, herror, ?_⟩
                        exact (Except.ok.inj h).symm
            · cases h
    · cases h
  · rintro ⟨n, typeText, unit, step, description, options, param, type, size,
      hfields, hparam, htype, hsize,
      ⟨hn, hnew, hunit, hdescription, hoptions, hpos⟩, herror, rfl⟩
    rw [parseControl, hfields]
    simp only
    rw [if_neg (by simp [hn])]
    simp only [hparam, htype, hsize]
    rw [if_neg (by simp [hnew, hunit, hdescription, hoptions, hpos]), herror]

/-! ## One more line -/

variable {ls : List MetadataLine} {l : MetadataLine}

/-- What a line must satisfy behind others. -/
structure Admits (streamFloat : Bytes → Option ℚ) (ls : List MetadataLine)
    (l : MetadataLine) : Prop where
  single : ∀ k ∈ l.singleKey, k ∉ ls.filterMap singleKey
  plain : ∀ f ∈ l.fields, chr '|' ∉ f
  valid : l.Valid streamFloat
  room : l.declared ≠ none → (ls.filterMap declared).length < maxParams
  names : ∀ n ∈ l.declared, n ∉ ls.filterMap declared
  controls : ∀ n ∈ l.controlled, n ∉ ls.filterMap controlled
  targets : l.Targets streamFloat ls

theorem filterMap_concat {α β : Type} (f : α → Option β) (xs : List α) (a : α) :
    (xs ++ [a]).filterMap f = xs.filterMap f ++ (f a).toList := by
  rw [List.filterMap_append]
  cases h : f a <;> simp [h]

theorem nodup_filterMap_concat {α β : Type} (f : α → Option β) (xs : List α)
    (a : α) :
    ((xs ++ [a]).filterMap f).Nodup ↔
      (xs.filterMap f).Nodup ∧ ∀ b ∈ f a, b ∉ xs.filterMap f := by
  rw [filterMap_concat, List.nodup_append']
  cases f a with
  | none => simp
  | some b => simp [List.disjoint_singleton]

theorem inOrder_nil : InOrder streamFloat [] := by
  constructor
  · exact List.nodup_nil
  · simp
  · simp
  · exact Nat.zero_le _
  · exact List.nodup_nil
  · exact List.nodup_nil
  · intro before l after h
    exact absurd h.symm (by simp)

theorem InOrder.concat (h : InOrder streamFloat ls)
    (hl : Admits streamFloat ls l) : InOrder streamFloat (ls ++ [l]) := by
  constructor
  · exact (nodup_filterMap_concat _ _ _).mpr ⟨h.single, hl.single⟩
  · intro l' hl'
    rcases List.mem_append.mp hl' with hold | hnew
    · exact h.plain l' hold
    · obtain rfl := List.mem_singleton.mp hnew
      exact hl.plain
  · intro l' hl'
    rcases List.mem_append.mp hl' with hold | hnew
    · exact h.valid l' hold
    · obtain rfl := List.mem_singleton.mp hnew
      exact hl.valid
  · rw [filterMap_concat, List.length_append]
    cases hd : l.declared with
    | none => simpa [hd] using h.room
    | some n => exact hl.room (by simp [hd])
  · exact (nodup_filterMap_concat _ _ _).mpr ⟨h.names, hl.names⟩
  · exact (nodup_filterMap_concat _ _ _).mpr ⟨h.controls, hl.controls⟩
  · intro before l' after heq
    rcases List.eq_nil_or_concat' after with rfl | ⟨after, last, rfl⟩
    · obtain ⟨rfl, hlast⟩ := List.append_inj' heq rfl
      obtain rfl := List.singleton_inj.mp hlast
      exact hl.targets
    · have hsplit : ls ++ [l] = (before ++ l' :: after) ++ [last] := by
        rw [heq]
        simp
      obtain ⟨rfl, -⟩ := List.append_inj' hsplit rfl
      exact h.targets before l' after rfl

theorem InOrder.of_concat (h : InOrder streamFloat (ls ++ [l])) :
    InOrder streamFloat ls ∧ Admits streamFloat ls l := by
  obtain ⟨hsingle, hsingle'⟩ := (nodup_filterMap_concat _ _ _).mp h.single
  obtain ⟨hnames, hnames'⟩ := (nodup_filterMap_concat _ _ _).mp h.names
  obtain ⟨hcontrols, hcontrols'⟩ := (nodup_filterMap_concat _ _ _).mp h.controls
  have hroom := h.room
  rw [filterMap_concat, List.length_append] at hroom
  constructor
  · refine ⟨hsingle, ?_, ?_, by omega, hnames, hcontrols, ?_⟩
    · exact fun l' hl' => h.plain l' (List.mem_append_left _ hl')
    · exact fun l' hl' => h.valid l' (List.mem_append_left _ hl')
    · rintro before l' after rfl
      apply h.targets before l' (after ++ [l])
      simp
  · refine ⟨hsingle', h.plain l (by simp), h.valid l (by simp), ?_, hnames',
      hcontrols', h.targets ls l [] rfl⟩
    intro hd
    obtain ⟨n, hn⟩ := Option.ne_none_iff_exists'.mp hd
    rw [hn] at hroom
    exact hroom

/-- Every parameter or text comes from the line that declares it. -/
theorem declared_perm (streamFloat : Bytes → Option ℚ)
    (ls : List MetadataLine) :
    ((ls.filterMap (spec streamFloat)).map ParameterSpec.name ++
        (ls.filterMap textControl).map TextControl.name).Perm
      (ls.filterMap declared) := by
  induction ls with
  | nil => exact .refl _
  | cons l ls ih =>
      cases l with
      | param n => exact ih.cons n
      | text n => exact List.perm_middle.trans (ih.cons n)
      | id => exact ih
      | name => exact ih
      | version => exact ih
      | api => exact ih
      | control => exact ih

theorem length_meaning (streamFloat : Bytes → Option ℚ)
    (ls : List MetadataLine) :
    (meaning streamFloat ls).params.length +
        (meaning streamFloat ls).texts.length =
      (ls.filterMap declared).length := by
  have hlength := (declared_perm streamFloat ls).length_eq
  rw [List.length_append, List.length_map, List.length_map] at hlength
  rw [meaning, List.length_map, hlength]

theorem applyControl_name (l : MetadataLine) (p : ParameterSpec) :
    (applyControl streamFloat l p).name = p.name := by
  cases l with
  | control =>
      rw [applyControl]
      split <;> rfl
  | _ => rfl

/-- A control changes nothing that it is checked against. -/
theorem applyControl_bounds (streamFloat : Bytes → Option ℚ)
    (l : MetadataLine) (p : ParameterSpec) :
    (applyControl streamFloat l p).min = p.min ∧
      (applyControl streamFloat l p).max = p.max ∧
      (applyControl streamFloat l p).defaultValue = p.defaultValue := by
  cases l with
  | control =>
      rw [applyControl]
      split <;> exact ⟨rfl, rfl, rfl⟩
  | _ => exact ⟨rfl, rfl, rfl⟩

theorem foldl_applyControl_bounds (streamFloat : Bytes → Option ℚ)
    (ls : List MetadataLine) (p : ParameterSpec) :
    (ls.foldl (fun p l => applyControl streamFloat l p) p).min = p.min ∧
      (ls.foldl (fun p l => applyControl streamFloat l p) p).max = p.max ∧
      (ls.foldl (fun p l => applyControl streamFloat l p) p).defaultValue =
        p.defaultValue := by
  induction ls generalizing p with
  | nil => exact ⟨rfl, rfl, rfl⟩
  | cons l ls ih =>
      obtain ⟨hmin, hmax, hdefault⟩ := ih (applyControl streamFloat l p)
      obtain ⟨hmin', hmax', hdefault'⟩ :=
        applyControl_bounds streamFloat l p
      exact ⟨hmin.trans hmin', hmax.trans hmax', hdefault.trans hdefault'⟩

theorem controlError_congr {p q : ParameterSpec} (hmin : p.min = q.min)
    (hmax : p.max = q.max) (hdefault : p.defaultValue = q.defaultValue)
    (type : ControlType) (step : ℚ) (options : Bytes) :
    controlError type p step options = controlError type q step options := by
  rw [controlError, controlError, hmin, hmax, hdefault]

theorem foldl_applyControl_name (ls : List MetadataLine) (p : ParameterSpec) :
    (ls.foldl (fun p l => applyControl streamFloat l p) p).name = p.name := by
  induction ls generalizing p with
  | nil => rfl
  | cons l ls ih => rw [List.foldl_cons, ih, applyControl_name]

/-- A parameter that no line controls stays as it is. -/
theorem applyControl_of_ne {p : ParameterSpec} (h : p.name ∉ l.controlled) :
    applyControl streamFloat l p = p := by
  cases l with
  | control n =>
      rw [applyControl, if_neg]
      rintro rfl
      exact h rfl
  | _ => rfl

theorem foldl_applyControl_of_notMem {p : ParameterSpec}
    (h : p.name ∉ ls.filterMap controlled) :
    ls.foldl (fun p l => applyControl streamFloat l p) p = p := by
  induction ls with
  | nil => rfl
  | cons l ls ih =>
      have hl : p.name ∉ l.controlled := by
        intro hmem
        exact h (List.mem_filterMap.mpr ⟨l, by simp, hmem⟩)
      rw [List.foldl_cons, applyControl_of_ne hl]
      apply ih
      intro hmem
      obtain ⟨l', hl', hname⟩ := List.mem_filterMap.mp hmem
      exact h (List.mem_filterMap.mpr ⟨l', List.mem_cons_of_mem _ hl', hname⟩)

theorem declared_of_spec {p : ParameterSpec}
    (h : l.spec streamFloat = some p) : l.declared = some p.name := by
  cases l with
  | param => cases h; rfl
  | _ => cases h

/-- Only declared parameters are controlled. -/
theorem InOrder.controlled_subset (h : InOrder streamFloat ls) {n : Bytes}
    (hn : n ∈ ls.filterMap controlled) : n ∈ ls.filterMap declared := by
  obtain ⟨l, hl, hcontrolled⟩ := List.mem_filterMap.mp hn
  obtain ⟨before, after, rfl⟩ := List.append_of_mem hl
  have htargets := h.targets before l after rfl
  cases l with
  | control n' =>
      obtain ⟨p, hp, hname, -⟩ := htargets
      obtain ⟨l', hl', hspec⟩ := List.mem_filterMap.mp hp
      rw [List.mem_filterMap]
      refine ⟨l', List.mem_append_left _ hl', ?_⟩
      rw [declared_of_spec hspec, hname]
      exact hcontrolled
  | _ => cases hcontrolled

theorem stateOf_nil : stateOf streamFloat [] = {} := rfl

/-- Behind a line that is no control nothing else about parameters changes. -/
theorem foldl_applyControl_concat (hl : l.controlled = none)
    (p : ParameterSpec) :
    (ls ++ [l]).foldl (fun p l => applyControl streamFloat l p) p =
      ls.foldl (fun p l => applyControl streamFloat l p) p := by
  rw [List.foldl_concat]
  apply applyControl_of_ne
  rw [hl]
  simp

theorem stateOf_single {k : Bytes} (hl : l.singleKey = some k) :
    stateOf streamFloat (ls ++ [l]) =
      { stateOf streamFloat ls with
        keys := k :: (stateOf streamFloat ls).keys
        result := { (stateOf streamFloat ls).result with
          id := l.idValue.getD (stateOf streamFloat ls).result.id
          name := l.nameValue.getD (stateOf streamFloat ls).result.name
          version := l.versionValue.getD
            (stateOf streamFloat ls).result.version } } := by
  have hnone : l.spec streamFloat = none ∧ l.textControl = none ∧
      l.declared = none ∧ l.controlled = none := by
    cases l with
    | param => cases hl
    | text => cases hl
    | control => cases hl
    | _ => exact ⟨rfl, rfl, rfl, rfl⟩
  obtain ⟨hspec, htext, hdeclared, hcontrolled⟩ := hnone
  have hlast : ∀ (xs : List Bytes) (o : Option Bytes),
      (xs ++ o.toList).getLast?.getD [] = o.getD (xs.getLast?.getD []) := by
    intro xs o
    cases o with
    | none => simp
    | some b => simp
  simp only [stateOf, meaning, filterMap_concat, hl, hspec, htext, hdeclared,
    hcontrolled, Option.toList_none, Option.toList_some, List.append_nil,
    List.reverse_append, List.reverse_singleton, List.singleton_append, hlast,
    foldl_applyControl_concat hcontrolled]

theorem stateOf_param (h : InOrder streamFloat ls)
    {n label min max start : Bytes}
    (hnew : n ∉ ls.filterMap declared) :
    stateOf streamFloat (ls ++ [.param n label min max start]) =
      { stateOf streamFloat ls with
        params := n :: (stateOf streamFloat ls).params
        result := { (stateOf streamFloat ls).result with
          params := (stateOf streamFloat ls).result.params ++
            [{ name := n
               label
               min := number streamFloat min
               max := number streamFloat max
               defaultValue := number streamFloat start }] } } := by
  have hfree : n ∉ ls.filterMap controlled :=
    fun hmem => hnew (h.controlled_subset hmem)
  simp only [stateOf, meaning, filterMap_concat, singleKey, spec, textControl,
    declared, controlled, idValue, nameValue, versionValue, Option.toList_none,
    Option.toList_some, List.append_nil, List.reverse_append,
    List.reverse_singleton, List.singleton_append, List.map_append,
    List.map_singleton,
    foldl_applyControl_concat (l := .param n label min max start) rfl]
  rw [foldl_applyControl_of_notMem hfree]

theorem stateOf_text {n label start description : Bytes} :
    stateOf streamFloat (ls ++ [.text n label start description]) =
      { stateOf streamFloat ls with
        params := n :: (stateOf streamFloat ls).params
        result := { (stateOf streamFloat ls).result with
          texts := (stateOf streamFloat ls).result.texts ++
            [{ name := n, label, defaultValue := start, description }] } } := by
  simp only [stateOf, meaning, filterMap_concat, singleKey, spec, textControl,
    declared, controlled, idValue, nameValue, versionValue, Option.toList_none,
    Option.toList_some, List.append_nil, List.reverse_append,
    List.reverse_singleton, List.singleton_append,
    foldl_applyControl_concat (l := .text n label start description) rfl]

theorem stateOf_control {n type unit step description options : Bytes} :
    stateOf streamFloat
        (ls ++ [.control n type unit step description options]) =
      { stateOf streamFloat ls with
        controls := n :: (stateOf streamFloat ls).controls
        result := { (stateOf streamFloat ls).result with
          params := (stateOf streamFloat ls).result.params.map fun p =>
            if p.name = n then
              { p with
                type := (controlType type).getD .float
                unit := unit
                description := description
                options := options
                step := number streamFloat step }
            else p } } := by
  simp only [stateOf, meaning, filterMap_concat, singleKey, spec, textControl,
    declared, controlled, idValue, nameValue, versionValue, Option.toList_none,
    Option.toList_some, List.append_nil, List.reverse_append,
    List.reverse_singleton, List.singleton_append, List.foldl_concat,
    List.map_map]
  rfl

/-! ## One round of the parser -/

/-- The parser of a value, by the key. -/
def parseValue (streamFloat : Bytes → Option ℚ) (st : MetadataState)
    (key value : Bytes) : Except String MetadataState :=
  if key = ascii "param" then parseParam streamFloat value st
  else if key = ascii "control" then parseControl streamFloat value st
  else if key = ascii "text" then parseText value st
  else if key ∈ st.keys then .error "duplicate metadata key"
  else if key = ascii "id" then
    if !validId value then .error "invalid plugin id"
    else
      .ok { st with
        keys := key :: st.keys
        result := { st.result with id := value } }
  else if key = ascii "name" then
    if !printable value 63 then .error "invalid plugin name"
    else
      .ok { st with
        keys := key :: st.keys
        result := { st.result with name := value } }
  else if key = ascii "version" then
    if !printable value 31 then .error "invalid plugin version"
    else
      .ok { st with
        keys := key :: st.keys
        result := { st.result with version := value } }
  else if key = ascii "api" then
    if value ≠ ascii "1" then .error "unsupported plugin API"
    else .ok { st with keys := key :: st.keys }
  else .error "unknown metadata key"

theorem parseMetadataLine_keyed {key : Bytes} (hkey : chr '=' ∉ key)
    (value : Bytes) :
    parseMetadataLine streamFloat st (key ++ chr '=' :: value) =
      parseValue streamFloat st key value := by
  obtain ⟨htake, hdrop⟩ := takeWhile_stop hkey value
  rw [parseMetadataLine, if_neg (by simp)]
  simp only [htake, hdrop]
  rfl

theorem key_notMem (l : MetadataLine) : chr '=' ∉ l.key := by
  have hkeys : ∀ k ∈ [ascii "id", ascii "name", ascii "version", ascii "api",
      ascii "param", ascii "text", ascii "control"], chr '=' ∉ k := by decide
  cases l <;> exact hkeys _ (by simp [key])

/-- What is accepted as the value of a key is a line. -/
theorem line_of_parseValue {key value : Bytes}
    (h : parseValue streamFloat st key value = .ok st') :
    ∃ l : MetadataLine, key = l.key ∧ value = l.value ∧
      ∀ f ∈ l.fields, chr '|' ∉ f := by
  rw [parseValue] at h
  split at h
  · next hkey =>
      obtain ⟨-, n, label, min, max, start, -, -, -, hfields, -⟩ :=
        parseParam_eq_ok.mp h
      obtain ⟨hplain, hvalue⟩ := (splitOn_eq_iff (by simp)).mp hfields
      exact ⟨.param n label min max start, hkey, hvalue, hplain⟩
  · split at h
    · next hkey =>
        obtain ⟨n, type, unit, step, description, options, -, -, -, hfields,
          -⟩ := parseControl_eq_ok.mp h
        obtain ⟨hplain, hvalue⟩ := (splitOn_eq_iff (by simp)).mp hfields
        exact ⟨.control n type unit step description options, hkey, hvalue,
          hplain⟩
    · split at h
      · next hkey =>
          obtain ⟨n, label, start, description, hfields, -⟩ :=
            parseText_eq_ok.mp h
          obtain ⟨hplain, hvalue⟩ := (splitOn_eq_iff (by simp)).mp hfields
          exact ⟨.text n label start description, hkey, hvalue, hplain⟩
      · split at h
        · cases h
        · split at h
          · next hkey => exact ⟨.id value, hkey, rfl, by simp [fields]⟩
          · split at h
            · next hkey => exact ⟨.name value, hkey, rfl, by simp [fields]⟩
            · split at h
              · next hkey =>
                  exact ⟨.version value, hkey, rfl, by simp [fields]⟩
              · split at h
                · next hkey =>
                    split at h
                    · cases h
                    · next hvalue =>
                        exact ⟨.api, hkey, not_not.mp hvalue, by simp [fields]⟩
                · cases h

theorem line_of_ok {line : Bytes}
    (h : parseMetadataLine streamFloat st line = .ok st') :
    ∃ l : MetadataLine, line = l.bytes ∧ ∀ f ∈ l.fields, chr '|' ∉ f := by
  by_cases hequal : chr '=' ∈ line
  · obtain ⟨key, value, rfl, hkey⟩ := List.eq_append_cons_of_mem hequal
    rw [parseMetadataLine_keyed hkey] at h
    obtain ⟨l, rfl, rfl, hplain⟩ := line_of_parseValue h
    exact ⟨l, rfl, hplain⟩
  · rw [parseMetadataLine, if_pos hequal] at h
    cases h

theorem controlsFull_stateOf :
    controlsFull (stateOf streamFloat ls) = false ↔
      (ls.filterMap declared).length ≠ maxParams := by
  rw [controlsFull, decide_eq_false_iff_not, ← length_meaning streamFloat]
  rfl

theorem parse_param (h : InOrder streamFloat ls)
    {n label min max start : Bytes}
    (hplain : ∀ f ∈ [n, label, min, max, start], chr '|' ∉ f) :
    parseParam streamFloat (fieldsText [n, label, min, max, start])
        (stateOf streamFloat ls) = .ok st' ↔
      Admits streamFloat ls (.param n label min max start) ∧
        st' = stateOf streamFloat (ls ++ [.param n label min max start]) := by
  have hfields : (fieldsText [n, label, min, max, start]).splitOn (chr '|') =
      [n, label, min, max, start] :=
    List.splitOn_intercalate _ hplain (by simp)
  rw [parseParam_eq_ok, hfields, controlsFull_stateOf]
  constructor
  · rintro ⟨hroom, n', label', min', max', start', low, high, first, heq, hlow,
      hhigh, hfirst, ⟨hn, hnew, hlabel, hlt, hle, hle'⟩, rfl⟩
    simp only [List.cons.injEq, and_true] at heq
    obtain ⟨rfl, rfl, rfl, rfl, rfl⟩ := heq
    have hnew' : n ∉ ls.filterMap declared := by
      intro hmem
      exact hnew (List.mem_reverse.mpr hmem)
    constructor
    · refine ⟨by simp [singleKey], hplain, ⟨hn, hlabel, low, high, first, hlow,
        hhigh, hfirst, hlt, hle, hle'⟩, fun _ => ?_, ?_, by simp [controlled],
        trivial⟩
      · exact lt_of_le_of_ne h.room hroom
      · simpa [declared] using hnew'
    · rw [stateOf_param h hnew', number, number, number, hlow, hhigh, hfirst]
      rfl
  · rintro ⟨hadmits, rfl⟩
    obtain ⟨hn, hlabel, low, high, first, hlow, hhigh, hfirst, hlt, hle, hle'⟩ :=
      hadmits.valid
    have hnew : n ∉ ls.filterMap declared := hadmits.names n rfl
    refine ⟨(hadmits.room (by simp [declared])).ne, n, label, min, max, start,
      low, high, first, rfl, hlow, hhigh, hfirst,
      ⟨hn, fun hmem => hnew (List.mem_reverse.mp hmem), hlabel, hlt, hle, hle'⟩,
      ?_⟩
    rw [stateOf_param h hnew, number, number, number, hlow, hhigh, hfirst]
    rfl

theorem parse_text (h : InOrder streamFloat ls)
    {n label start description : Bytes}
    (hplain : ∀ f ∈ [n, label, start, description], chr '|' ∉ f) :
    parseText (fieldsText [n, label, start, description])
        (stateOf streamFloat ls) = .ok st' ↔
      Admits streamFloat ls (.text n label start description) ∧
        st' = stateOf streamFloat (ls ++ [.text n label start description]) := by
  have hfields : (fieldsText [n, label, start, description]).splitOn (chr '|') =
      [n, label, start, description] :=
    List.splitOn_intercalate _ hplain (by simp)
  rw [parseText_eq_ok, hfields, controlsFull_stateOf]
  constructor
  · rintro ⟨n', label', start', description', heq,
      ⟨hn, hroom, hnew, hlabel, hstart, hdescription⟩, rfl⟩
    simp only [List.cons.injEq, and_true] at heq
    obtain ⟨rfl, rfl, rfl, rfl⟩ := heq
    constructor
    · refine ⟨by simp [singleKey], hplain, ⟨hn, hlabel, hstart, hdescription⟩,
        fun _ => lt_of_le_of_ne h.room hroom, ?_, by simp [controlled], trivial⟩
      intro n' hn' hmem
      cases hn'
      exact hnew (List.mem_reverse.mpr hmem)
    · exact stateOf_text.symm
  · rintro ⟨hadmits, rfl⟩
    obtain ⟨hn, hlabel, hstart, hdescription⟩ := hadmits.valid
    have hnew : n ∉ ls.filterMap declared := hadmits.names n rfl
    exact ⟨n, label, start, description, rfl,
      ⟨hn, (hadmits.room (by simp [declared])).ne,
        fun hmem => hnew (List.mem_reverse.mp hmem), hlabel, hstart,
        hdescription⟩, stateOf_text⟩

theorem InOrder.nodup_specs (h : InOrder streamFloat ls) :
    ((ls.filterMap (spec streamFloat)).map ParameterSpec.name).Nodup := by
  have hall := (declared_perm streamFloat ls).nodup_iff.mpr h.names
  exact (List.nodup_append'.mp hall).1

/-- The parser finds the parameter that a control names. -/
theorem find_stateOf (h : InOrder streamFloat ls) {n : Bytes}
    {param : ParameterSpec} :
    (stateOf streamFloat ls).result.params.find? (·.name = n) = some param ↔
      ∃ p ∈ ls.filterMap (spec streamFloat), p.name = n ∧
        param = ls.foldl (fun p l => applyControl streamFloat l p) p := by
  have hname : (fun p : ParameterSpec => decide (p.name = n)) ∘
      (fun p => ls.foldl (fun p l => applyControl streamFloat l p) p) =
      fun p => decide (p.name = n) := by
    funext p
    simp only [Function.comp, foldl_applyControl_name]
  simp only [stateOf, meaning, List.find?_map, hname, Option.map_eq_some_iff]
  constructor
  · rintro ⟨p, hp, rfl⟩
    exact ⟨p, List.mem_of_find?_eq_some hp,
      of_decide_eq_true (List.find?_some (p := fun p : ParameterSpec => decide (p.name = n)) hp),
      rfl⟩
  · rintro ⟨p, hp, rfl, rfl⟩
    refine ⟨p, ?_, rfl⟩
    cases hfind : (ls.filterMap (spec streamFloat)).find?
        (fun q => decide (q.name = p.name)) with
    | none =>
        have hnone := List.find?_eq_none.mp hfind p hp
        simp at hnone
    | some q =>
        have hq := List.mem_of_find?_eq_some hfind
        have hqname := List.find?_some
          (p := fun q : ParameterSpec => decide (q.name = p.name)) hfind
        rw [List.inj_on_of_nodup_map h.nodup_specs hq hp (of_decide_eq_true hqname)]

theorem parse_control (h : InOrder streamFloat ls)
    {n type unit step description options : Bytes}
    (hplain : ∀ f ∈ [n, type, unit, step, description, options], chr '|' ∉ f) :
    parseControl streamFloat
        (fieldsText [n, type, unit, step, description, options])
        (stateOf streamFloat ls) = .ok st' ↔
      Admits streamFloat ls (.control n type unit step description options) ∧
        st' = stateOf streamFloat
          (ls ++ [.control n type unit step description options]) := by
  have hfields : (fieldsText [n, type, unit, step, description,
      options]).splitOn (chr '|') = [n, type, unit, step, description, options] :=
    List.splitOn_intercalate _ hplain (by simp)
  rw [parseControl_eq_ok, hfields]
  constructor
  · rintro ⟨n', type', unit', step', description', options', param, kind, size,
      heq, hparam, hkind, hsize, ⟨hn, hnew, hunit, hdescription, hoptions, hpos⟩,
      herror, rfl⟩
    simp only [List.cons.injEq, and_true] at heq
    obtain ⟨rfl, rfl, rfl, rfl, rfl, rfl⟩ := heq
    obtain ⟨p, hp, hname, rfl⟩ := (find_stateOf h).mp hparam
    obtain ⟨hmin, hmax, hdefault⟩ :=
      foldl_applyControl_bounds streamFloat ls p
    constructor
    · refine ⟨by simp [singleKey], hplain, ⟨hn, hunit, hdescription, hoptions,
        by simp [hkind], size, hsize, hpos⟩, fun hd => absurd rfl hd,
        by simp [declared], ?_, p, hp, hname, ?_⟩
      · intro n' hn' hmem
        cases hn'
        exact hnew (List.mem_reverse.mpr hmem)
      · rw [hkind, number, hsize, Option.getD_some, Option.getD_some,
          ← controlError_congr hmin hmax hdefault]
        exact herror
    · rw [stateOf_control, hkind, number, hsize]
      rfl
  · rintro ⟨hadmits, rfl⟩
    obtain ⟨hn, hunit, hdescription, hoptions, hkind, size, hsize, hpos⟩ :=
      hadmits.valid
    obtain ⟨kind, hkind⟩ := Option.ne_none_iff_exists'.mp hkind
    obtain ⟨p, hp, hname, herror⟩ := hadmits.targets
    obtain ⟨hmin, hmax, hdefault⟩ :=
      foldl_applyControl_bounds streamFloat ls p
    have hnew : n ∉ ls.filterMap controlled := hadmits.controls n rfl
    rw [hkind, number, hsize, Option.getD_some, Option.getD_some] at herror
    refine ⟨n, type, unit, step, description, options, _, kind, size, rfl,
      (find_stateOf h).mpr ⟨p, hp, hname, rfl⟩, hkind, hsize,
      ⟨hn, fun hmem => hnew (List.mem_reverse.mp hmem), hunit, hdescription,
        hoptions, hpos⟩, ?_, ?_⟩
    · rw [controlError_congr hmin hmax hdefault]
      exact herror
    · rw [stateOf_control, hkind, number, hsize]
      rfl

/-- A line with a key of its own is admitted once, with a valid value. -/
theorem admits_single {k : Bytes} (hl : l.singleKey = some k) :
    Admits streamFloat ls l ↔
      k ∉ (stateOf streamFloat ls).keys ∧ l.Valid streamFloat := by
  have hkeys : k ∉ (stateOf streamFloat ls).keys ↔
      k ∉ ls.filterMap singleKey := by
    rw [stateOf, List.mem_reverse]
  have hother : l.fields = [] ∧ l.declared = none ∧ l.controlled = none ∧
      l.Targets streamFloat ls := by
    cases l with
    | param => cases hl
    | text => cases hl
    | control => cases hl
    | _ => exact ⟨rfl, rfl, rfl, trivial⟩
  obtain ⟨hfields, hdeclared, hcontrolled, htargets⟩ := hother
  rw [hkeys]
  constructor
  · intro h
    exact ⟨h.single k hl, h.valid⟩
  · rintro ⟨hnew, hvalid⟩
    refine ⟨?_, by simp [hfields], hvalid, fun hd => absurd hdeclared hd,
      by simp [hdeclared], by simp [hcontrolled], htargets⟩
    intro k' hk'
    rw [hl] at hk'
    cases hk'
    exact hnew

theorem parse_single {k : Bytes} (hl : l.singleKey = some k) :
    parseValue streamFloat (stateOf streamFloat ls) l.key l.value = .ok st' ↔
      Admits streamFloat ls l ∧ st' = stateOf streamFloat (ls ++ [l]) := by
  rw [admits_single hl, stateOf_single hl]
  cases l with
  | param => cases hl
  | text => cases hl
  | control => cases hl
  | id v =>
      cases hl
      simp only [key, value, Valid, idValue, nameValue, versionValue,
        Option.getD_some, Option.getD_none]
      rw [parseValue, if_neg (by decide), if_neg (by decide), if_neg (by decide)]
      split
      · next hseen => simp [hseen]
      · next hnew =>
          rw [if_pos rfl]
          split
          · next hinvalid => simp_all
          · next hvalid =>
              rw [Bool.not_eq_true, Bool.not_eq_false'] at hvalid
              simp only [Except.ok.injEq, hnew, hvalid, not_false_eq_true,
                true_and, eq_comm]
  | name v =>
      cases hl
      simp only [key, value, Valid, idValue, nameValue, versionValue,
        Option.getD_some, Option.getD_none]
      rw [parseValue, if_neg (by decide), if_neg (by decide), if_neg (by decide)]
      split
      · next hseen => simp [hseen]
      · next hnew =>
          rw [if_neg (by decide), if_pos rfl]
          split
          · next hinvalid => simp_all
          · next hvalid =>
              rw [Bool.not_eq_true, Bool.not_eq_false'] at hvalid
              simp only [Except.ok.injEq, hnew, hvalid, not_false_eq_true,
                true_and, eq_comm]
  | version v =>
      cases hl
      simp only [key, value, Valid, idValue, nameValue, versionValue,
        Option.getD_some, Option.getD_none]
      rw [parseValue, if_neg (by decide), if_neg (by decide), if_neg (by decide)]
      split
      · next hseen => simp [hseen]
      · next hnew =>
          rw [if_neg (by decide), if_neg (by decide), if_pos rfl]
          split
          · next hinvalid => simp_all
          · next hvalid =>
              rw [Bool.not_eq_true, Bool.not_eq_false'] at hvalid
              simp only [Except.ok.injEq, hnew, hvalid, not_false_eq_true,
                true_and, eq_comm]
  | api =>
      cases hl
      simp only [key, value, Valid, idValue, nameValue, versionValue,
        Option.getD_none]
      rw [parseValue, if_neg (by decide), if_neg (by decide), if_neg (by decide)]
      split
      · next hseen => simp [hseen]
      · next hnew =>
          rw [if_neg (by decide), if_neg (by decide), if_neg (by decide),
            if_pos rfl, if_neg (by simp)]
          simp [hnew, eq_comm]

theorem parse_plain (h : InOrder streamFloat ls)
    (hplain : ∀ f ∈ l.fields, chr '|' ∉ f) :
    parseMetadataLine streamFloat (stateOf streamFloat ls) l.bytes = .ok st' ↔
      Admits streamFloat ls l ∧ st' = stateOf streamFloat (ls ++ [l]) := by
  rw [MetadataLine.bytes, parseMetadataLine_keyed (key_notMem l)]
  cases l with
  | param =>
      rw [parseValue, key, if_pos rfl]
      exact parse_param h hplain
  | text =>
      rw [parseValue, key, if_neg (by decide), if_neg (by decide), if_pos rfl]
      exact parse_text h hplain
  | control =>
      rw [parseValue, key, if_neg (by decide), if_pos rfl]
      exact parse_control h hplain
  | id => exact parse_single rfl
  | name => exact parse_single rfl
  | version => exact parse_single rfl
  | api => exact parse_single rfl

/-- What one round accepts, and what it makes of it. -/
theorem parseMetadataLine_eq_ok (h : InOrder streamFloat ls) {line : Bytes} :
    parseMetadataLine streamFloat (stateOf streamFloat ls) line = .ok st' ↔
      ∃ l : MetadataLine, line = l.bytes ∧ Admits streamFloat ls l ∧
        st' = stateOf streamFloat (ls ++ [l]) := by
  constructor
  · intro hok
    obtain ⟨l, rfl, hplain⟩ := line_of_ok hok
    exact ⟨l, rfl, (parse_plain h hplain).mp hok⟩
  · rintro ⟨l, rfl, hadmits, rfl⟩
    exact (parse_plain h hadmits.plain).mpr ⟨hadmits, rfl⟩

/-! ## All lines -/

/-- The parser accepts the lines that are in order, and its state is what they
mean. -/
theorem foldlM_parseMetadataLine_eq_ok (lines : List Bytes) :
    lines.foldlM (parseMetadataLine streamFloat) {} = .ok st' ↔
      ∃ ls : List MetadataLine, lines = ls.map MetadataLine.bytes ∧
        InOrder streamFloat ls ∧ st' = stateOf streamFloat ls := by
  induction lines using List.reverseRecOn generalizing st' with
  | nil =>
      constructor
      · intro hok
        refine ⟨[], rfl, inOrder_nil, ?_⟩
        exact (Except.ok.inj hok).symm
      · rintro ⟨ls, hls, -, rfl⟩
        obtain rfl := List.map_eq_nil_iff.mp hls.symm
        rfl
  | append_singleton lines line ih =>
      rw [List.foldlM_append, bind_eq_ok]
      simp only [ih, List.foldlM_cons, List.foldlM_nil, bind_pure]
      constructor
      · rintro ⟨st, ⟨ls, rfl, hls, rfl⟩, hok⟩
        obtain ⟨l, rfl, hadmits, rfl⟩ := (parseMetadataLine_eq_ok hls).mp hok
        exact ⟨ls ++ [l], by simp, hls.concat hadmits, rfl⟩
      · rintro ⟨ls', heq, hls', rfl⟩
        rcases List.eq_nil_or_concat' ls' with rfl | ⟨ls, l, rfl⟩
        · exact absurd heq (by simp)
        · rw [List.map_append, List.map_singleton] at heq
          obtain ⟨rfl, hline⟩ := List.append_inj' heq rfl
          obtain rfl := List.singleton_inj.mp hline
          obtain ⟨hls, hadmits⟩ := hls'.of_concat
          exact ⟨_, ⟨ls, rfl, hls, rfl⟩,
            (parseMetadataLine_eq_ok hls).mpr ⟨l, rfl, hadmits, rfl⟩⟩

end Audiox.Plugin
