import Audiox.Support.ByteCodec
import Mathlib

/-!
# The metadata of a plugin

The `axm.txt` entry of a plugin package is a text of `key=value` lines: an id,
a name, a version, the API, and the controls of the plugin.

Finite floating point numbers are rationals here; the conversion of a decimal
text by an input stream is a parameter, `none` where the stream fails or the
value is not finite.
-/

namespace Audiox.Plugin

open ByteCodec

def kMaxMetadataBytes : Nat := 16384
def maxParams : Nat := 32

/-! ## Texts -/

def lower (c : UInt8) : Bool :=
  chr 'a' ≤ c && c ≤ chr 'z'

def identifier (s : Bytes) (max : Nat) : Bool :=
  match s with
  | [] => false
  | c :: _ =>
      s.length ≤ max && lower c &&
        s.all fun c => lower c || isDigit c || c == chr '_'

def printable (s : Bytes) (max : Nat) : Bool :=
  s ≠ [] && s.length ≤ max && s.all fun c => 32 ≤ c && c ≤ 126

def validId (id : Bytes) : Bool :=
  id.take 7 = ascii "plugin_" && identifier (id.drop 7) 16

/-- Cuts a sign. -/
def dropSign : Bytes → Bytes
  | [] => []
  | c :: s => if c = chr '+' ∨ c = chr '-' then s else c :: s

/-- The exponent of a decimal number, up to the end of the text. -/
def exponentSyntax : Bytes → Bool
  | [] => true
  | c :: s =>
      if c = chr 'e' ∨ c = chr 'E' then
        dropSign s ≠ [] && (dropSign s).all isDigit
      else false

/-- Decimal syntax: no whitespace, hex, NaN or infinity. -/
def floatSyntax (s : Bytes) : Bool :=
  let s := dropSign s
  let whole := s.takeWhile isDigit
  match s.dropWhile isDigit with
  | [] => whole ≠ []
  | c :: rest =>
      if c = chr '.' then
        let fraction := rest.takeWhile isDigit
        (whole ≠ [] || fraction ≠ []) &&
          exponentSyntax (rest.dropWhile isDigit)
      else whole ≠ [] && exponentSyntax (c :: rest)

def floatValue (streamFloat : Bytes → Option ℚ) (s : Bytes) : Option ℚ :=
  if floatSyntax s then streamFloat s else none

/-! ## Controls -/

inductive ControlType where
  | float | integer | boolean | enum
deriving DecidableEq

def controlType (s : Bytes) : Option ControlType :=
  if s = ascii "float" then some .float
  else if s = ascii "integer" then some .integer
  else if s = ascii "boolean" then some .boolean
  else if s = ascii "enum" then some .enum
  else none

/-- The step of a parameter without a control is the float nearest to
0.01. -/
structure ParameterSpec where
  name : Bytes
  label : Bytes
  min : ℚ
  max : ℚ
  defaultValue : ℚ
  type : ControlType := .float
  unit : Bytes := []
  description : Bytes := []
  options : Bytes := []
  step : ℚ := 5368709 / 536870912
deriving DecidableEq

structure TextControl where
  name : Bytes
  label : Bytes
  defaultValue : Bytes
  description : Bytes
deriving DecidableEq

structure PackageMetadata where
  id : Bytes := []
  name : Bytes := []
  version : Bytes := []
  api : Nat := 1
  params : List ParameterSpec := []
  texts : List TextControl := []
deriving DecidableEq

/-- The metadata read so far, and the names that have been used. -/
structure MetadataState where
  result : PackageMetadata := {}
  keys : List Bytes := []
  params : List Bytes := []
  controls : List Bytes := []

def controlsFull (st : MetadataState) : Bool :=
  st.result.params.length + st.result.texts.length = maxParams

def parseParam (streamFloat : Bytes → Option ℚ) (value : Bytes)
    (st : MetadataState) : Except String MetadataState :=
  if controlsFull st then .error "too many plugin controls"
  else
    match value.splitOn (chr '|') with
    | [name, label, minText, maxText, defaultText] =>
        match floatValue streamFloat minText, floatValue streamFloat maxText,
            floatValue streamFloat defaultText with
        | some min, some max, some defaultValue =>
            if !identifier name 23 ∨ name ∈ st.params ∨ !printable label 63 ∨
                min ≥ max ∨ defaultValue < min ∨ defaultValue > max then
              .error "invalid parameter specification"
            else
              .ok { st with
                params := name :: st.params
                result := { st.result with
                  params := st.result.params ++
                    [{ name, label, min, max, defaultValue }] } }
        | _, _, _ => .error "invalid parameter specification"
    | _ => .error "parameter requires five fields"

def parseText (value : Bytes) (st : MetadataState) :
    Except String MetadataState :=
  match value.splitOn (chr '|') with
  | [name, label, defaultValue, description] =>
      if !identifier name 23 then .error "invalid control name"
      else if controlsFull st ∨ name ∈ st.params ∨ !printable label 63 ∨
          defaultValue.length > 255 ∨ description.length > 255 then
        .error "invalid text control"
      else
        .ok { st with
          params := name :: st.params
          result := { st.result with
            texts := st.result.texts ++
              [{ name, label, defaultValue, description }] } }
  | _ => .error "invalid control field count"

def isWhole (x : ℚ) : Bool :=
  (x.floor : ℚ) = x

/-- The choices of an enumeration, separated by tildes. -/
def enumChoices (options : Bytes) : Nat :=
  1 + options.count (chr '~')

/-- The error of a numeric control that does not fit its parameter. -/
def controlError (type : ControlType) (param : ParameterSpec) (step : ℚ)
    (options : Bytes) : Option String :=
  if type ≠ .float ∧ (step ≠ 1 ∨ !isWhole param.min ∨ !isWhole param.max ∨
      !isWhole param.defaultValue ∨ |param.min| > 16777216 ∨
      |param.max| > 16777216) then
    some "discrete controls require exact integer bounds, defaults and step 1"
  else if type = .boolean ∧ (param.min ≠ 0 ∨ param.max ≠ 1) then
    some "boolean controls require bounds 0 and 1"
  else if type = .enum then
    if options = [] ∨ options.head? = some (chr '~') ∨
        options.getLast? = some (chr '~') ∨ ascii "~~" <:+: options ∨
        param.min ≠ 0 ∨ param.max ≠ (enumChoices options - 1 : Nat) ∨
        enumChoices options > 32 then
      some "enum choices must match zero-based bounds"
    else none
  else if options ≠ [] then some "choices require enum type"
  else none

def parseControl (streamFloat : Bytes → Option ℚ) (value : Bytes)
    (st : MetadataState) : Except String MetadataState :=
  match value.splitOn (chr '|') with
  | [name, typeText, unit, stepText, description, options] =>
      if !identifier name 23 then .error "invalid control name"
      else
        match st.result.params.find? (·.name = name), controlType typeText,
            floatValue streamFloat stepText with
        | some param, some type, some step =>
            if name ∈ st.controls ∨ unit.length > 23 ∨
                description.length > 255 ∨ options.length > 255 ∨ step ≤ 0 then
              .error "invalid numeric control"
            else
              match controlError type param step options with
              | some error => .error error
              | none =>
                  .ok { st with
                    controls := name :: st.controls
                    result := { st.result with
                      params := st.result.params.map fun p =>
                        if p.name = name then
                          { p with type, unit, description, options, step }
                        else p } }
        | _, _, _ => .error "invalid numeric control"
  | _ => .error "invalid control field count"

/-! ## Lines -/

def requiredKeys : List Bytes :=
  [ascii "id", ascii "name", ascii "version", ascii "api"]

def parseMetadataLine (streamFloat : Bytes → Option ℚ) (st : MetadataState)
    (line : Bytes) : Except String MetadataState :=
  if chr '=' ∉ line then .error "metadata line requires key=value"
  else
    let key := line.takeWhile (· ≠ chr '=')
    let value := (line.dropWhile (· ≠ chr '=')).drop 1
    if key = ascii "param" then parseParam streamFloat value st
    else if key = ascii "control" then parseControl streamFloat value st
    else if key = ascii "text" then parseText value st
    else if key ∈ st.keys then .error "duplicate metadata key"
    else
      let st := { st with keys := key :: st.keys }
      if key = ascii "id" then
        if !validId value then .error "invalid plugin id"
        else .ok { st with result := { st.result with id := value } }
      else if key = ascii "name" then
        if !printable value 63 then .error "invalid plugin name"
        else .ok { st with result := { st.result with name := value } }
      else if key = ascii "version" then
        if !printable value 31 then .error "invalid plugin version"
        else .ok { st with result := { st.result with version := value } }
      else if key = ascii "api" then
        if value ≠ ascii "1" then .error "unsupported plugin API" else .ok st
      else .error "unknown metadata key"

def parseMetadata (streamFloat : Bytes → Option ℚ) (text : Bytes) :
    Except String PackageMetadata := do
  if text = [] ∨ text.length > kMaxMetadataBytes then
    .error "invalid metadata size"
  else if text.any fun c => c ≠ chr '\n' && (c < 32 || c > 126) then
    .error "metadata must be printable ASCII and LF"
  else
    let st ← (lines text).foldlM (parseMetadataLine streamFloat) {}
    if (st.keys.all fun key => key ∈ requiredKeys) &&
        requiredKeys.all fun key => key ∈ st.keys then
      .ok st.result
    else .error "missing required metadata key"

end Audiox.Plugin
