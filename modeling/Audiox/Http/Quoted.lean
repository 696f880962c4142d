import Audiox.Support.JsonString
import Audiox.Support.Utf8
import Mathlib

/-!
# Log lines as JSON strings

`quoted` turns the bytes of a log line into a JSON string literal.  Whatever
the bytes are, the literal is well-formed UTF-8, and its value is the line with
a replacement character for every byte that belongs to no sequence.
-/

namespace Audiox.Http

open ByteCodec

/-! ## The function -/

def hex : Bytes :=
  ascii "0123456789abcdef"

/-- How long the sequence is that a byte begins; 0 if it begins none. -/
def sequenceCount (c : UInt8) : Nat :=
  if 0xc2 ≤ c ∧ c ≤ 0xdf then 2
  else if 0xe0 ≤ c ∧ c ≤ 0xef then 3
  else if 0xf0 ≤ c ∧ c ≤ 0xf4 then 4
  else 0

/-- Whether the next bytes of a sequence are in range, up to the first that is
not; `none` if a byte behind the text is read. -/
def tailsValid (text : Bytes) (position : Nat) : Nat → Option Bool
  | 0 => some true
  | n + 1 =>
      match text[position]? with
      | none => none
      | some next =>
          if 0x80 ≤ next ∧ next ≤ 0xbf then tailsValid text (position + 1) n
          else some false

/-- The overlong forms, the surrogates and the numbers that are too large. -/
def secondValid (c second : UInt8) : Bool :=
  !(c == 0xe0 && second < 0xa0) && !(c == 0xed && second ≥ 0xa0) &&
    !(c == 0xf0 && second < 0x90) && !(c == 0xf4 && second ≥ 0x90)

def sequenceValid (text : Bytes) (i : Nat) (c : UInt8) : Option Bool :=
  if sequenceCount c = 0 ∨ text.length < i + sequenceCount c then some false
  else
    match tailsValid text (i + 1) (sequenceCount c - 1) with
    | some true => (text[i + 1]?).map (secondValid c)
    | valid => valid

/-- What is written for the byte at a position, and how many bytes are used
up. -/
def quotedPart (text : Bytes) (i : Nat) : Option (Bytes × Nat) :=
  match text[i]? with
  | none => none
  | some c =>
      if c = chr '"' ∨ c = chr '\\' then some ([chr '\\', c], 1)
      else if c < 32 ∨ c = 127 then
        match hex[(c >>> 4).toNat]?, hex[(c &&& 15).toNat]? with
        | some high, some low =>
            some (ascii "\\u00" ++ [high, low], 1)
        | _, _ => none
      else if 128 ≤ c then
        match sequenceValid text i c with
        | none => none
        | some true =>
            some ((text.drop i).take (sequenceCount c), sequenceCount c)
        | some false => some (ascii "\\ufffd", 1)
      else some ([c], 1)

/-- The rest of the text; every round uses up a byte. -/
def quotedLoop (text : Bytes) : Nat → Nat → Option Bytes
  | 0, _ => some []
  | fuel + 1, i =>
      if i < text.length then
        match quotedPart text i with
        | none => none
        | some (part, used) =>
            (quotedLoop text fuel (i + used)).map (part ++ ·)
      else some []

/-- The literal of a text; `none` if a byte behind the text is read. -/
def quoted (text : Bytes) : Option Bytes :=
  (quotedLoop text text.length 0).map fun out =>
    chr '"' :: (out ++ [chr '"'])

/-! ## Positions -/

theorem drop_of_getElem? {text : Bytes} {i : Nat} {b : UInt8}
    (h : text[i]? = some b) : text.drop i = b :: text.drop (i + 1) := by
  obtain ⟨hi, rfl⟩ := List.getElem?_eq_some_iff.mp h
  exact List.drop_eq_getElem_cons hi

theorem getElem?_of_drop {text rest : Bytes} {i : Nat} {b : UInt8}
    (h : text.drop i = b :: rest) :
    text[i]? = some b ∧ text.drop (i + 1) = rest := by
  have hb : (text.drop i)[0]? = text[i + 0]? := List.getElem?_drop
  rw [h] at hb
  refine ⟨hb.symm, ?_⟩
  rw [← List.drop_drop, h]
  rfl

/-! ## Sequences -/

theorem sequenceCount_two {c : UInt8} (h : 0xc2 ≤ c.toNat ∧ c.toNat ≤ 0xdf) :
    sequenceCount c = 2 := by
  rw [sequenceCount, if_pos]
  simpa [UInt8.le_iff_toNat_le] using h

theorem sequenceCount_three {c : UInt8}
    (h : 0xe0 ≤ c.toNat ∧ c.toNat ≤ 0xef) : sequenceCount c = 3 := by
  simp only [sequenceCount, UInt8.le_iff_toNat_le, UInt8.toNat_ofNat,
    Nat.reducePow, Nat.reduceMod]
  rw [if_neg (by omega), if_pos h]

theorem sequenceCount_four {c : UInt8}
    (h : 0xf0 ≤ c.toNat ∧ c.toNat ≤ 0xf4) : sequenceCount c = 4 := by
  simp only [sequenceCount, UInt8.le_iff_toNat_le, UInt8.toNat_ofNat,
    Nat.reducePow, Nat.reduceMod]
  rw [if_neg (by omega), if_neg (by omega), if_pos h]

/-- Which bytes begin a sequence of more than one byte. -/
theorem sequenceCount_cases (c : UInt8) :
    sequenceCount c = 0 ∨
      sequenceCount c = 2 ∧ 0xc2 ≤ c.toNat ∧ c.toNat ≤ 0xdf ∨
      sequenceCount c = 3 ∧ 0xe0 ≤ c.toNat ∧ c.toNat ≤ 0xef ∨
      sequenceCount c = 4 ∧ 0xf0 ≤ c.toNat ∧ c.toNat ≤ 0xf4 := by
  simp only [sequenceCount, UInt8.le_iff_toNat_le, UInt8.toNat_ofNat,
    Nat.reducePow, Nat.reduceMod]
  split_ifs with htwo hthree hfour
  · exact Or.inr (Or.inl ⟨rfl, htwo⟩)
  · exact Or.inr (Or.inr (Or.inl ⟨rfl, hthree⟩))
  · exact Or.inr (Or.inr (Or.inr ⟨rfl, hfour⟩))
  · exact Or.inl rfl

/-- The checks of the second byte, as numbers. -/
theorem secondValid_iff {c second : UInt8} :
    secondValid c second = true ↔
      (c.toNat = 0xe0 → 0xa0 ≤ second.toNat) ∧
      (c.toNat = 0xed → second.toNat < 0xa0) ∧
      (c.toNat = 0xf0 → 0x90 ≤ second.toNat) ∧
      (c.toNat = 0xf4 → second.toNat < 0x90) := by
  simp only [secondValid, ge_iff_le, Bool.and_eq_true, Bool.not_eq_true',
    Bool.and_eq_false_iff, beq_eq_false_iff_ne, decide_eq_false_iff_not,
    ne_eq, UInt8.lt_iff_toNat_lt, UInt8.le_iff_toNat_le, ← UInt8.toNat_inj,
    UInt8.toNat_ofNat, Nat.reducePow, Nat.reduceMod]
  omega

theorem tailsValid_append {text tails rest : Bytes} {position : Nat}
    (htext : text.drop position = tails ++ rest)
    (htails : ∀ b ∈ tails, Utf8.Tail b) :
    tailsValid text position tails.length = some true := by
  induction tails generalizing position with
  | nil => rfl
  | cons b tails ih =>
      obtain ⟨hb, hnext⟩ := getElem?_of_drop htext
      have htail := htails b (by simp)
      rw [Utf8.Tail] at htail
      rw [List.length_cons, tailsValid, hb]
      dsimp only
      rw [if_pos (by simpa [UInt8.le_iff_toNat_le] using htail)]
      exact ih hnext fun d hd => htails d (List.mem_cons_of_mem _ hd)

/-- Inside the text the bytes are either all in range, or one is found that is
not. -/
theorem tailsValid_cases {text : Bytes} {position n : Nat}
    (hin : position + n ≤ text.length) :
    tailsValid text position n = some false ∨
      ∃ tails rest, text.drop position = tails ++ rest ∧
        tails.length = n ∧ (∀ b ∈ tails, Utf8.Tail b) ∧
        tailsValid text position n = some true := by
  induction n generalizing position with
  | zero => exact Or.inr ⟨[], _, rfl, rfl, by simp, rfl⟩
  | succ n ih =>
      obtain ⟨b, hb⟩ : ∃ b, text[position]? = some b :=
        ⟨_, List.getElem?_eq_getElem (by omega)⟩
      rw [tailsValid, hb]
      dsimp only
      by_cases hrange : 0x80 ≤ b ∧ b ≤ 0xbf
      · rw [if_pos hrange]
        have hin' : position + 1 + n ≤ text.length := by omega
        rcases ih hin' with hfalse | ⟨tails, rest, hdrop, hlen, htails, htrue⟩
        · exact Or.inl hfalse
        · refine Or.inr ⟨b :: tails, rest, ?_, ?_, ?_, htrue⟩
          · rw [drop_of_getElem? hb, hdrop]
            rfl
          · rw [List.length_cons, hlen]
          · intro d hmem
            rcases List.mem_cons.mp hmem with rfl | hmem
            · rw [Utf8.Tail]
              simpa [UInt8.le_iff_toNat_le] using hrange
            · exact htails d hmem
      · exact Or.inl (if_neg hrange)

/-- The bytes of a sequence pass the checks. -/
theorem sequenceValid_of_sequence {text : Bytes} {i v : Nat} {l rest : Bytes}
    (hseq : Utf8.Sequence l v) (htext : text.drop i = l ++ rest) {c : UInt8}
    (hhead : l.head? = some c) (hc : 128 ≤ c) :
    sequenceCount c = l.length ∧ sequenceValid text i c = some true := by
  have hlen : l.length + rest.length = text.length - i := by
    rw [← List.length_append, ← htext, List.length_drop]
  have hc' : 128 ≤ c.toNat := by
    simpa [UInt8.le_iff_toNat_le] using hc
  have hbehind : text.drop (i + 1) = l.tail ++ rest := by
    cases l with
    | nil => simp at hhead
    | cons a l => exact (getElem?_of_drop htext).2
  have hsecond : ∀ b m, l.tail = b :: m → text[i + 1]? = some b := by
    intro b m hm
    rw [hm] at hbehind
    exact (getElem?_of_drop hbehind).1
  have hfinish : sequenceCount c = l.length → l.length ≠ 0 →
      (∀ b ∈ l.tail, Utf8.Tail b) →
      (∃ b m, l.tail = b :: m ∧ secondValid c b = true) →
      sequenceCount c = l.length ∧ sequenceValid text i c = some true := by
    rintro hcount hne htails ⟨b, m, hm, hvalid⟩
    refine ⟨hcount, ?_⟩
    have hall := tailsValid_append hbehind htails
    rw [List.length_tail, ← hcount] at hall
    rw [sequenceValid, if_neg (by omega), hall, hsecond b m hm,
      Option.map_some, hvalid]
  cases hseq with
  | @one a _ ha _ =>
      obtain rfl : a = c := Option.some.inj hhead
      omega
  | @two a b _ ha hb hv =>
      obtain rfl : a = c := Option.some.inj hhead
      refine hfinish (sequenceCount_two ha) (by simp) ?_ ⟨b, [], rfl, ?_⟩
      · simpa using hb
      · rw [secondValid_iff]
        omega
  | @three a b d _ ha hb hd hv hmin hscalar =>
      obtain rfl : a = c := Option.some.inj hhead
      refine hfinish (sequenceCount_three ha) (by simp) ?_ ⟨b, [d], rfl, ?_⟩
      · simpa using ⟨hb, hd⟩
      · rw [secondValid_iff]
        rw [Utf8.Tail] at hb hd
        rw [Utf8.Scalar] at hscalar
        omega
  | @four a b d e _ ha hb hd he hv hmin hscalar =>
      obtain rfl : a = c := Option.some.inj hhead
      refine hfinish (sequenceCount_four ha) (by simp) ?_
        ⟨b, [d, e], rfl, ?_⟩
      · simpa using ⟨hb, hd, he⟩
      · rw [secondValid_iff]
        rw [Utf8.Tail] at hb hd he
        rw [Utf8.Scalar] at hscalar
        omega

/-- The checks do not read behind the text, and what passes them begins with a
sequence. -/
theorem sequenceValid_cases {text : Bytes} {i : Nat} {c : UInt8}
    {rest : Bytes} (htext : text.drop i = c :: rest) :
    sequenceValid text i c = some false ∨
      sequenceValid text i c = some true ∧ ∃ l v behind,
        Utf8.Sequence l v ∧ text.drop i = l ++ behind ∧
        l.length = sequenceCount c := by
  have hlen : rest.length + 1 = text.length - i := by
    rw [← List.length_cons, ← htext, List.length_drop]
  have hbehind := (getElem?_of_drop htext).2
  by_cases hcut : sequenceCount c = 0 ∨
      text.length < i + sequenceCount c
  · exact Or.inl (by rw [sequenceValid, if_pos hcut])
  rw [sequenceValid, if_neg hcut]
  have hin : i + 1 + (sequenceCount c - 1) ≤ text.length := by omega
  rcases tailsValid_cases hin with hfalse |
    ⟨tails, behind, hdrop, htailsLen, htails, htrue⟩
  · exact Or.inl (by rw [hfalse])
  rw [htrue]
  dsimp only
  rw [hbehind] at hdrop
  obtain ⟨b, more, rfl⟩ : ∃ b more, tails = b :: more := by
    cases tails with
    | nil =>
        have hcases := sequenceCount_cases c
        rw [List.length_nil] at htailsLen
        omega
    | cons b more => exact ⟨b, more, rfl⟩
  have hsecond : text[i + 1]? = some b :=
    (getElem?_of_drop (hbehind.trans hdrop)).1
  rw [hsecond, Option.map_some]
  cases hvalid : secondValid c b with
  | false => exact Or.inl rfl
  | true =>
      refine Or.inr ⟨rfl, c :: b :: more, ?_⟩
      rw [secondValid_iff] at hvalid
      have hb := htails b (by simp)
      have hb' := hb
      rw [Utf8.Tail] at hb'
      rw [List.length_cons] at htailsLen
      rcases sequenceCount_cases c with h | ⟨h, hc⟩ | ⟨h, hc⟩ | ⟨h, hc⟩
      · exact absurd (Or.inl h) hcut
      · obtain rfl : more = [] := List.length_eq_zero_iff.mp (by omega)
        refine ⟨_, behind, Utf8.Sequence.two hc hb rfl, ?_, by rw [h]; rfl⟩
        rw [htext, hdrop]
        rfl
      · obtain ⟨d, rfl⟩ : ∃ d, more = [d] :=
          List.length_eq_one_iff.mp (by omega)
        have hd := htails d (by simp)
        have hd' := hd
        rw [Utf8.Tail] at hd'
        refine ⟨_, behind, Utf8.Sequence.three hc hb hd rfl ?_ ?_, ?_,
          by rw [h]; rfl⟩
        · omega
        · rw [Utf8.Scalar]
          omega
        · rw [htext, hdrop]
          rfl
      · obtain ⟨d, e, rfl⟩ : ∃ d e, more = [d, e] :=
          List.length_eq_two.mp (by omega)
        have hd := htails d (by simp)
        have he := htails e (by simp)
        have hd' := hd
        have he' := he
        rw [Utf8.Tail] at hd' he'
        refine ⟨_, behind, Utf8.Sequence.four hc hb hd he rfl ?_ ?_, ?_,
          by rw [h]; rfl⟩
        · omega
        · rw [Utf8.Scalar]
          omega
        · rw [htext, hdrop]
          rfl

/-! ## One part -/

/-- What is written stands for one entry of the text, and means that entry in
a literal. -/
def Means (text : Bytes) (i : Nat) (out : Option (Bytes × Nat)) : Prop :=
  ∃ part used entry, out = some (Utf8.bytes part, used) ∧
    0 < used ∧ i + used ≤ text.length ∧
    (∀ scan, Utf8.Scan (text.drop (i + used)) scan →
      Utf8.Scan (text.drop i) (entry :: scan)) ∧
    part ≠ [] ∧ part.head? ≠ some '"' ∧
    ∀ rest, JsonString.element (part ++ rest) =
      some (entry.getD (Char.ofNat 0xfffd), rest)

section

variable {text : Bytes} {i : Nat} {c : UInt8}

/-- A byte that is the sequence of a character. -/
theorem means_byte (hc : text[i]? = some c) {d : Char}
    (hd : Utf8.encode d = [c]) {part : List Char} (hne : part ≠ [])
    (hquote : part.head? ≠ some '"')
    (helement : ∀ rest, JsonString.element (part ++ rest) = some (d, rest)) :
    Means text i (some (Utf8.bytes part, 1)) := by
  obtain ⟨hi, -⟩ := List.getElem?_eq_some_iff.mp hc
  refine ⟨part, 1, some d, rfl, by omega, by omega, ?_, hne, hquote, helement⟩
  intro scan hscan
  rw [drop_of_getElem? hc]
  have hchar := hscan.char d
  rwa [hd] at hchar

theorem means_quote (hc : text[i]? = some c)
    (hquote : c = chr '"' ∨ c = chr '\\') :
    Means text i (some ([chr '\\', c], 1)) := by
  rcases hquote with rfl | rfl
  · have hmeans : Means text i (some (Utf8.bytes ['\\', '"'], 1)) :=
      means_byte hc (d := '"') rfl (by simp) (by decide) fun rest =>
        JsonString.element_short rfl rest
    exact hmeans
  · have hmeans : Means text i (some (Utf8.bytes ['\\', '\\'], 1)) :=
      means_byte hc (d := '\\') rfl (by simp) (by decide) fun rest =>
        JsonString.element_short rfl rest
    exact hmeans

def hexChar (n : Nat) : Char :=
  ("0123456789abcdef".toList).getD n '0'

theorem hexChar_spec : ∀ n < 16, hex[n]? = some (chr (hexChar n)) ∧
    Utf8.encode (hexChar n) = [chr (hexChar n)] ∧
    JsonString.hexValue (hexChar n) = some n := by
  decide

theorem means_control (hc : text[i]? = some c)
    (hcontrol : c < 32 ∨ c = 127) :
    Means text i (match hex[(c >>> 4).toNat]?, hex[(c &&& 15).toNat]? with
      | some high, some low => some (ascii "\\u00" ++ [high, low], 1)
      | _, _ => none) := by
  have hlow : c.toNat < 0x80 := by
    rcases hcontrol with h | rfl
    · rw [UInt8.lt_iff_toNat_lt] at h
      exact lt_trans h (by decide)
    · decide
  have hdiv : (c >>> 4).toNat = c.toNat / 16 := by
    simp [Nat.shiftRight_eq_div_pow]
  have hmod : (c &&& 15).toNat = c.toNat % 16 := by
    rw [UInt8.toNat_and]
    exact Nat.and_two_pow_sub_one_eq_mod c.toNat 4
  obtain ⟨hhigh, hhighBytes, hhighValue⟩ :=
    hexChar_spec (c.toNat / 16) (by omega)
  obtain ⟨hlowByte, hlowBytes, hlowValue⟩ :=
    hexChar_spec (c.toNat % 16) (by omega)
  obtain ⟨d, hd, hencode⟩ := Utf8.encode_ascii hlow
  rw [hdiv, hmod, hhigh, hlowByte]
  dsimp only
  have hbytes : Utf8.bytes ['\\', 'u', '0', '0', hexChar (c.toNat / 16),
      hexChar (c.toNat % 16)] = ascii "\\u00" ++
        [chr (hexChar (c.toNat / 16)), chr (hexChar (c.toNat % 16))] := by
    simp only [Utf8.bytes, List.flatMap_cons, List.flatMap_nil, hhighBytes,
      hlowBytes]
    rfl
  rw [← hbytes]
  refine means_byte hc hencode (by simp) (by simp) ?_
  intro rest
  have hvalue : ((0 * 16 + 0) * 16 + c.toNat / 16) * 16 + c.toNat % 16 =
      d.toNat := by
    omega
  have hzero : JsonString.hexValue '0' = some 0 := by decide
  have helement := JsonString.element_unicode hzero hzero hhighValue
    hlowValue (by omega) rest
  rw [hvalue, Char.ofNat_toNat] at helement
  exact helement

theorem means_plain (hc : text[i]? = some c)
    (hquote : ¬(c = chr '"' ∨ c = chr '\\')) (hlow : 32 ≤ c.toNat)
    (hhigh : c.toNat < 0x80) : Means text i (some ([c], 1)) := by
  obtain ⟨d, hd, hencode⟩ := Utf8.encode_ascii hhigh
  have hbytes : Utf8.bytes [d] = [c] := by
    rw [Utf8.bytes, List.flatMap_singleton, hencode]
  have hother : ∀ e : Char, e.toNat < 128 → c ≠ chr e → d ≠ e := by
    rintro e he hne rfl
    apply hne
    rw [chr, hd, Nat.toUInt8, UInt8.ofNat_toNat]
  rw [not_or] at hquote
  rw [← hbytes]
  refine means_byte hc hencode (by simp) ?_ ?_
  · rw [List.head?_cons, ne_eq, Option.some.injEq]
    exact hother '"' (by decide) hquote.1
  · intro rest
    exact JsonString.element_plain (by omega)
      (hother '"' (by decide) hquote.1) (hother '\\' (by decide) hquote.2) rest

theorem means_sequence (hc : text[i]? = some c) (hhigh : 128 ≤ c) :
    Means text i (match sequenceValid text i c with
      | none => none
      | some true =>
          some ((text.drop i).take (sequenceCount c), sequenceCount c)
      | some false => some (ascii "\\ufffd", 1)) := by
  obtain ⟨hi, -⟩ := List.getElem?_eq_some_iff.mp hc
  have hdrop := drop_of_getElem? hc
  rcases sequenceValid_cases hdrop with hfalse |
    ⟨htrue, l, v, behind, hseq, hsplit, hlen⟩
  · rw [hfalse]
    dsimp only
    -- No character's sequence stands here, it would have passed.
    have hbad : ∀ d, ¬Utf8.encode d <+: c :: text.drop (i + 1) := by
      rintro d ⟨rest, hrest⟩
      rw [← hdrop] at hrest
      have hhead : (Utf8.encode d).head? = some c := by
        rw [← List.head?_append_of_ne_nil _ (Utf8.encode_ne_nil d), hrest,
          hdrop, List.head?_cons]
      have hvalid := (sequenceValid_of_sequence (Utf8.sequence_encode d)
        hrest.symm hhead hhigh).2
      rw [hfalse] at hvalid
      cases hvalid
    refine ⟨['\\', 'u', 'f', 'f', 'f', 'd'], 1, none, rfl, by omega, by omega,
      ?_, by simp, by decide, ?_⟩
    · intro scan hscan
      rw [hdrop]
      exact hscan.bad hbad
    · intro rest
      exact JsonString.element_unicode (a := 'f') (b := 'f') (c := 'f')
        (d := 'd') rfl rfl rfl rfl (by decide) rest
  · rw [htrue]
    dsimp only
    obtain ⟨d, hd, hencode⟩ := hseq.exists_encode
    have hlow : 0x80 ≤ d.toNat := by
      have hrange := hseq.range
      have hcases := sequenceCount_cases c
      omega
    have hne : ∀ e : Char, e.toNat < 0x80 → d ≠ e := by
      rintro e he rfl
      omega
    have hbytes : Utf8.bytes [d] = (text.drop i).take (sequenceCount c) := by
      rw [Utf8.bytes, List.flatMap_singleton, hencode, hsplit, ← hlen,
        List.take_left]
    have hlength : l.length + behind.length = text.length - i := by
      rw [← List.length_append, ← hsplit, List.length_drop]
    rw [← hbytes]
    refine ⟨[d], sequenceCount c, some d, rfl, ?_, by omega, ?_, by simp, ?_,
      ?_⟩
    · have hrange := hseq.range
      omega
    · intro scan hscan
      rw [← List.drop_drop, hsplit, ← hlen, List.drop_left] at hscan
      rw [hsplit, ← hencode]
      exact hscan.char d
    · rw [List.head?_cons, ne_eq, Option.some.injEq]
      exact hne '"' (by decide)
    · intro rest
      exact JsonString.element_plain (by omega) (hne '"' (by decide))
        (hne '\\' (by decide)) rest

theorem quotedPart_means (hi : i < text.length) :
    Means text i (quotedPart text i) := by
  obtain ⟨c, hc⟩ : ∃ c, text[i]? = some c :=
    ⟨_, List.getElem?_eq_getElem hi⟩
  rw [quotedPart, hc]
  dsimp only
  split_ifs with hquote hcontrol hhigh
  · exact means_quote hc hquote
  · exact means_control hc hcontrol
  · exact means_sequence hc hhigh
  · rw [not_or, UInt8.lt_iff_toNat_lt] at hcontrol
    rw [UInt8.le_iff_toNat_le] at hhigh
    exact means_plain hc hquote (Nat.le_of_not_lt hcontrol.1)
      (Nat.lt_of_not_le hhigh)

/-! ## The whole text -/

theorem quotedLoop_spec {fuel : Nat} (hfuel : text.length ≤ i + fuel)
    (hi : i ≤ text.length) :
    ∃ written scan, quotedLoop text fuel i = some (Utf8.bytes written) ∧
      Utf8.Scan (text.drop i) scan ∧
      JsonString.Elements written
        (Utf8.replaced (Char.ofNat 0xfffd) scan) := by
  induction fuel generalizing i with
  | zero =>
      refine ⟨[], [], rfl, ?_, JsonString.Elements.nil⟩
      rw [List.drop_of_length_le (by omega)]
      exact Utf8.Scan.nil
  | succ fuel ih =>
      rw [quotedLoop]
      by_cases hlt : i < text.length
      · rw [if_pos hlt]
        obtain ⟨part, used, entry, hpart, hpos, hin, hscan, hne, hquote,
          helement⟩ := quotedPart_means hlt
        obtain ⟨written, scan, hloop, hrest, hwritten⟩ :=
          ih (i := i + used) (by omega) hin
        refine ⟨part ++ written, entry :: scan, ?_, hscan scan hrest,
          hwritten.cons hne hquote helement⟩
        rw [hpart]
        dsimp only
        rw [hloop, Option.map_some, Utf8.bytes, Utf8.bytes, Utf8.bytes,
          List.flatMap_append]
      · refine ⟨[], [], by rw [if_neg hlt]; rfl, ?_, JsonString.Elements.nil⟩
        rw [List.drop_of_length_le (by omega)]
        exact Utf8.Scan.nil

end

/-- The literal of a text is well-formed UTF-8, and its value is the text with
the bytes that belong to no sequence replaced. -/
theorem quoted_spec (text : Bytes) :
    ∃ literal scan, quoted text = some (Utf8.bytes literal) ∧
      Utf8.Scan text scan ∧
      JsonString.decode literal =
        some (Utf8.replaced (Char.ofNat 0xfffd) scan) := by
  obtain ⟨written, scan, hloop, hscan, hwritten⟩ :=
    quotedLoop_spec (Nat.le_add_left text.length 0) (Nat.zero_le _)
  refine ⟨'"' :: (written ++ ['"']), scan, ?_, hscan, hwritten.decode_eq⟩
  rw [quoted, hloop, Option.map_some, Utf8.bytes, Utf8.bytes,
    List.flatMap_cons, List.flatMap_append]
  rfl

end Audiox.Http
