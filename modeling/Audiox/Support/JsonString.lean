import Mathlib

/-!
# String literals of JSON

The characters between two quotation marks, in which a backslash begins an
escape: a short one, or four hexadecimal digits for a code unit of UTF-16.
-/

namespace JsonString

def hexValue (c : Char) : Option Nat :=
  if '0' ≤ c ∧ c ≤ '9' then some (c.toNat - '0'.toNat)
  else if 'a' ≤ c ∧ c ≤ 'f' then some (c.toNat - 'a'.toNat + 10)
  else if 'A' ≤ c ∧ c ≤ 'F' then some (c.toNat - 'A'.toNat + 10)
  else none

/-- The code unit of four digits, and the text behind them. -/
def codeUnit : List Char → Option (Nat × List Char)
  | a :: b :: c :: d :: rest =>
      match hexValue a, hexValue b, hexValue c, hexValue d with
      | some a, some b, some c, some d =>
          some (((a * 16 + b) * 16 + c) * 16 + d, rest)
      | _, _, _, _ => none
  | _ => none

/-- The second unit of a character that takes two. -/
def lowSurrogate (high : Nat) : List Char → Option (Char × List Char)
  | '\\' :: 'u' :: text =>
      match codeUnit text with
      | some (low, rest) =>
          if 0xdc00 ≤ low ∧ low ≤ 0xdfff then
            some (Char.ofNat (0x10000 + (high - 0xd800) * 1024 +
              (low - 0xdc00)), rest)
          else none
      | none => none
  | _ => none

def unicodeEscape (text : List Char) : Option (Char × List Char) :=
  match codeUnit text with
  | some (unit, rest) =>
      if 0xd800 ≤ unit ∧ unit ≤ 0xdbff then lowSurrogate unit rest
      else if 0xdc00 ≤ unit ∧ unit ≤ 0xdfff then none
      else some (Char.ofNat unit, rest)
  | none => none

def shortEscape (c : Char) : Option Char :=
  if c = '"' ∨ c = '\\' ∨ c = '/' then some c
  else if c = 'b' then some (Char.ofNat 8)
  else if c = 'f' then some (Char.ofNat 12)
  else if c = 'n' then some '\n'
  else if c = 'r' then some '\r'
  else if c = 't' then some '\t'
  else none

def escape : List Char → Option (Char × List Char)
  | [] => none
  | c :: rest =>
      match shortEscape c with
      | some value => some (value, rest)
      | none => if c = 'u' then unicodeEscape rest else none

/-- The first character of a literal's inside, and the text behind it. -/
def element : List Char → Option (Char × List Char)
  | [] => none
  | c :: rest =>
      if c = '\\' then escape rest
      else if 0x20 ≤ c.toNat ∧ c ≠ '"' then some (c, rest)
      else none

/-- The characters up to the quotation mark that ends the text. -/
def body : Nat → List Char → Option (List Char)
  | 0, _ => none
  | fuel + 1, text =>
      if text = ['"'] then some []
      else
        match element text with
        | some (c, rest) => (body fuel rest).map (c :: ·)
        | none => none

/-- The value of a literal; `none` if the text is no literal. -/
def decode : List Char → Option (List Char)
  | '"' :: text => body text.length text
  | _ => none

/-! ## Literals element by element -/

theorem element_plain {c : Char} (hlow : 0x20 ≤ c.toNat) (hquote : c ≠ '"')
    (hslash : c ≠ '\\') (rest : List Char) :
    element (c :: rest) = some (c, rest) := by
  rw [element, if_neg hslash, if_pos ⟨hlow, hquote⟩]

theorem element_short {c value : Char} (h : shortEscape c = some value)
    (rest : List Char) : element ('\\' :: c :: rest) = some (value, rest) := by
  rw [element, if_pos rfl, escape, h]

/-- Four digits for a unit that is a character. -/
theorem element_unicode {a b c d : Char} {w x y z : Nat}
    (ha : hexValue a = some w) (hb : hexValue b = some x)
    (hc : hexValue c = some y) (hd : hexValue d = some z)
    (hunit : ((w * 16 + x) * 16 + y) * 16 + z < 0xd800 ∨
      0xdfff < ((w * 16 + x) * 16 + y) * 16 + z) (rest : List Char) :
    element ('\\' :: 'u' :: a :: b :: c :: d :: rest) =
      some (Char.ofNat (((w * 16 + x) * 16 + y) * 16 + z), rest) := by
  have hshort : shortEscape 'u' = none := by decide
  rw [element, if_pos rfl, escape, hshort]
  dsimp only
  rw [if_pos rfl, unicodeEscape, codeUnit, ha, hb, hc, hd]
  dsimp only
  rw [if_neg (by omega), if_neg (by omega)]

/-- A text whose elements are known one after the other. -/
inductive Elements : List Char → List Char → Prop
  | nil : Elements [] []
  | cons {part text value : List Char} {c : Char} (hpart : part ≠ [])
      (hquote : part.head? ≠ some '"')
      (helement : ∀ rest, element (part ++ rest) = some (c, rest))
      (h : Elements text value) : Elements (part ++ text) (c :: value)

theorem Elements.body_eq {text value : List Char} (h : Elements text value)
    {fuel : Nat} (hfuel : text.length < fuel) :
    body fuel (text ++ ['"']) = some value := by
  induction h generalizing fuel with
  | nil =>
      obtain ⟨fuel, rfl⟩ := Nat.exists_eq_succ_of_ne_zero
        (Nat.pos_iff_ne_zero.mp (lt_of_le_of_lt (Nat.zero_le _) hfuel))
      rw [Nat.succ_eq_add_one, body, if_pos (List.nil_append _)]
  | @cons part text value c hpart hquote helement h ih =>
      have hpos := List.length_pos_iff.mpr hpart
      rw [List.length_append] at hfuel
      obtain ⟨fuel, rfl⟩ := Nat.exists_eq_succ_of_ne_zero
        (Nat.pos_iff_ne_zero.mp (lt_of_le_of_lt (Nat.zero_le _) hfuel))
      have hmore : part ++ text ++ ['"'] ≠ ['"'] := by
        cases part with
        | nil => exact absurd rfl hpart
        | cons d part =>
            intro heq
            rw [List.cons_append, List.cons_append] at heq
            exact hquote (congrArg some (List.cons.inj heq).1)
      rw [Nat.succ_eq_add_one, body, if_neg hmore, List.append_assoc,
        helement]
      dsimp only
      rw [ih (by omega), Option.map_some]

/-- Elements between two quotation marks are a literal. -/
theorem Elements.decode_eq {text value : List Char} (h : Elements text value) :
    decode ('"' :: (text ++ ['"'])) = some value := by
  rw [decode, h.body_eq]
  rw [List.length_append]
  exact Nat.lt_succ_self _

end JsonString
