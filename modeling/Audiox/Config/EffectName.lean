import Audiox.Support.Utf8
import Mathlib

/-!
# The names of effects

`midiEffectNameValid` accepts a name of fewer than 64 bytes if it is
well-formed UTF-8 without control characters.  A pointer is what lies behind
it, up to the end of its memory, and reading behind that end is `none`.
-/

namespace Audiox.Config

open ByteCodec

/-! ## The function -/

def strnlen : Nat → Bytes → Option Nat
  | 0, _ => some 0
  | _ + 1, [] => none
  | n + 1, c :: p =>
      if c = 0 then some 0 else (strnlen n p).map (· + 1)

/-- The value of the first byte of a sequence, the number of bytes that follow
it, and the smallest number that needs them. -/
def leadByte (c : UInt8) : Option (Nat × Nat × Nat) :=
  if 0xc2 ≤ c ∧ c ≤ 0xdf then some ((c &&& 31).toNat, 1, 0x80)
  else if 0xe0 ≤ c ∧ c ≤ 0xef then some ((c &&& 15).toNat, 2, 0x800)
  else if 0xf0 ≤ c ∧ c ≤ 0xf4 then some ((c &&& 7).toNat, 3, 0x10000)
  else none

/-- The bytes behind the first one: the number, and the pointer behind them;
`some none` if one of them is out of range. -/
def readTails : Nat → Bytes → Nat → Option (Option (Nat × Bytes))
  | 0, p, value => some (some (value, p))
  | _ + 1, [], _ => none
  | n + 1, c :: p, value =>
      if c &&& 0xc0 ≠ 0x80 then some none
      else readTails n p ((value <<< 6) ||| (c &&& 63).toNat)

def valueRefused (value minimum : Nat) : Bool :=
  value < minimum || value > 0x10ffff ||
    (value ≥ 0xd800 && value ≤ 0xdfff) || (value ≥ 0x80 && value ≤ 0x9f)

/-- The loop over the characters; every round uses up a byte. -/
def nameLoop : Nat → Bytes → Option Bool
  | 0, _ => none
  | _ + 1, [] => none
  | fuel + 1, c :: p =>
      if c = 0 then some true
      else if c < 32 ∨ c = 127 then some false
      else if c < 128 then nameLoop fuel p
      else
        match leadByte c with
        | none => some false
        | some (value, count, minimum) =>
            match readTails count p value with
            | none => none
            | some none => some false
            | some (some (value, p)) =>
                if valueRefused value minimum then some false
                else nameLoop fuel p

/-- Whether a name is valid; the outer `none` is a read behind the memory. -/
def midiEffectNameValid : Option Bytes → Option Bool
  | none => some false
  | some name =>
      match strnlen 64 name with
      | none => none
      | some length =>
          if length ≥ 64 then some false
          else nameLoop name.length name

/-! ## The first byte of a sequence -/

theorem leadByte_two {c : UInt8} (h : 0xc2 ≤ c.toNat ∧ c.toNat ≤ 0xdf) :
    leadByte c = some (c.toNat - 0xc0, 1, 0x80) := by
  have hmask : (c &&& 31).toNat = c.toNat - 0xc0 := by
    have hmod : (c &&& 31).toNat = c.toNat % 32 :=
      Nat.and_two_pow_sub_one_eq_mod c.toNat 5
    omega
  simp only [leadByte, UInt8.le_iff_toNat_le, UInt8.toNat_ofNat,
    Nat.reducePow, Nat.reduceMod, hmask]
  rw [if_pos h]

theorem leadByte_three {c : UInt8} (h : 0xe0 ≤ c.toNat ∧ c.toNat ≤ 0xef) :
    leadByte c = some (c.toNat - 0xe0, 2, 0x800) := by
  have hmask : (c &&& 15).toNat = c.toNat - 0xe0 := by
    have hmod : (c &&& 15).toNat = c.toNat % 16 :=
      Nat.and_two_pow_sub_one_eq_mod c.toNat 4
    omega
  simp only [leadByte, UInt8.le_iff_toNat_le, UInt8.toNat_ofNat,
    Nat.reducePow, Nat.reduceMod, hmask]
  rw [if_neg (by omega), if_pos h]

theorem leadByte_four {c : UInt8} (h : 0xf0 ≤ c.toNat ∧ c.toNat ≤ 0xf4) :
    leadByte c = some (c.toNat - 0xf0, 3, 0x10000) := by
  have hmask : (c &&& 7).toNat = c.toNat - 0xf0 := by
    have hmod : (c &&& 7).toNat = c.toNat % 8 :=
      Nat.and_two_pow_sub_one_eq_mod c.toNat 3
    omega
  simp only [leadByte, UInt8.le_iff_toNat_le, UInt8.toNat_ofNat,
    Nat.reducePow, Nat.reduceMod, hmask]
  rw [if_neg (by omega), if_neg (by omega), if_pos h]

/-- The bytes that begin a longer sequence. -/
theorem leadByte_range {c : UInt8} {lead : Nat × Nat × Nat}
    (h : leadByte c = some lead) :
    (0xc2 ≤ c.toNat ∧ c.toNat ≤ 0xdf) ∨ (0xe0 ≤ c.toNat ∧ c.toNat ≤ 0xef) ∨
      (0xf0 ≤ c.toNat ∧ c.toNat ≤ 0xf4) := by
  simp only [leadByte, UInt8.le_iff_toNat_le, UInt8.toNat_ofNat,
    Nat.reducePow, Nat.reduceMod] at h
  split_ifs at h with htwo hthree hfour
  · exact Or.inl htwo
  · exact Or.inr (Or.inl hthree)
  · exact Or.inr (Or.inr hfour)

theorem le_minimum {c : UInt8} {value count minimum : Nat}
    (h : leadByte c = some (value, count, minimum)) : 0x80 ≤ minimum := by
  rcases leadByte_range h with hc | hc | hc
  · rw [leadByte_two hc, Option.some.injEq, Prod.mk.injEq,
      Prod.mk.injEq] at h
    omega
  · rw [leadByte_three hc, Option.some.injEq, Prod.mk.injEq,
      Prod.mk.injEq] at h
    omega
  · rw [leadByte_four hc, Option.some.injEq, Prod.mk.injEq,
      Prod.mk.injEq] at h
    omega

/-- What the bytes behind a first byte add to its value. -/
def tailValue (value : Nat) (tails : Bytes) : Nat :=
  tails.foldl (fun value b => value * 64 + (b.toNat - 0x80)) value

theorem tailValue_cons (value : Nat) (c : UInt8) (tails : Bytes) :
    tailValue value (c :: tails) =
      tailValue (value * 64 + (c.toNat - 0x80)) tails := by
  rw [tailValue, List.foldl_cons, tailValue]

/-- The decoding of a first byte fits every sequence that begins with it. -/
theorem leadByte_of_sequence {c : UInt8} (hc : 0x80 ≤ c.toNat)
    {tails : Bytes} {v : Nat} (hseq : Utf8.Sequence (c :: tails) v) :
    ∃ value count minimum, leadByte c = some (value, count, minimum) ∧
      tails.length = count ∧ (∀ b ∈ tails, Utf8.Tail b) ∧
      v = tailValue value tails ∧ minimum ≤ v := by
  have hrange := hseq.range
  cases hseq with
  | one ha hv => omega
  | two ha hb hv =>
      refine ⟨_, _, _, leadByte_two ha, rfl, by simpa using hb, hv, ?_⟩
      rw [Utf8.Tail] at hb
      omega
  | three ha hb hd hv hmin _ =>
      refine ⟨_, _, _, leadByte_three ha, rfl, by simpa using ⟨hb, hd⟩, ?_,
        hmin⟩
      simp only [tailValue, List.foldl_cons, List.foldl_nil]
      omega
  | four ha hb hd he hv hmin _ =>
      refine ⟨_, _, _, leadByte_four ha, rfl, by simpa using ⟨hb, hd, he⟩, ?_,
        hmin⟩
      simp only [tailValue, List.foldl_cons, List.foldl_nil]
      omega

/-- What the decoding accepts is a sequence. -/
theorem sequence_of_leadByte {c : UInt8} {value count minimum : Nat}
    (hlead : leadByte c = some (value, count, minimum)) {tails : Bytes}
    (hlen : tails.length = count) (htails : ∀ b ∈ tails, Utf8.Tail b)
    (hmin : minimum ≤ tailValue value tails)
    (hscalar : Utf8.Scalar (tailValue value tails)) :
    Utf8.Sequence (c :: tails) (tailValue value tails) := by
  rcases leadByte_range hlead with hc | hc | hc
  · rw [leadByte_two hc, Option.some.injEq, Prod.mk.injEq,
      Prod.mk.injEq] at hlead
    obtain ⟨rfl, rfl, rfl⟩ := hlead
    obtain ⟨b, rfl⟩ : ∃ b, tails = [b] := List.length_eq_one_iff.mp hlen
    exact Utf8.Sequence.two hc (htails b (by simp)) rfl
  · rw [leadByte_three hc, Option.some.injEq, Prod.mk.injEq,
      Prod.mk.injEq] at hlead
    obtain ⟨rfl, rfl, rfl⟩ := hlead
    obtain ⟨b, d, rfl⟩ : ∃ b d, tails = [b, d] :=
      List.length_eq_two.mp hlen
    refine Utf8.Sequence.three hc (htails b (by simp)) (htails d (by simp))
      ?_ hmin hscalar
    simp only [tailValue, List.foldl_cons, List.foldl_nil]
    omega
  · rw [leadByte_four hc, Option.some.injEq, Prod.mk.injEq,
      Prod.mk.injEq] at hlead
    obtain ⟨rfl, rfl, rfl⟩ := hlead
    obtain ⟨b, d, e, rfl⟩ : ∃ b d e, tails = [b, d, e] :=
      List.length_eq_three.mp hlen
    refine Utf8.Sequence.four hc (htails b (by simp)) (htails d (by simp))
      (htails e (by simp)) ?_ hmin hscalar
    simp only [tailValue, List.foldl_cons, List.foldl_nil]
    omega

/-! ## The loops -/

theorem strnlen_append {n : Nat} {name : Bytes} (hname : 0 ∉ name)
    (behind : Bytes) :
    strnlen n (name ++ 0 :: behind) = some (min n name.length) := by
  induction n generalizing name with
  | zero => simp [strnlen]
  | succ n ih =>
      cases name with
      | nil => simp [strnlen]
      | cons c name =>
          rw [List.mem_cons, not_or] at hname
          rw [List.cons_append, strnlen, if_neg (Ne.symm hname.1),
            ih hname.2, Option.map_some, List.length_cons,
            Nat.add_min_add_right]

theorem tail_iff (c : UInt8) : c &&& 0xc0 = 0x80 ↔ Utf8.Tail c := by
  have hall : ∀ n < 256, ∀ d : UInt8, d = UInt8.ofNat n →
      (d &&& 0xc0 = 0x80 ↔ 0x80 ≤ d.toNat ∧ d.toNat ≤ 0xbf) := by
    simp only [forall_eq]
    decide +kernel
  exact hall c.toNat c.toNat_lt c UInt8.ofNat_toNat.symm

theorem tail_value {c : UInt8} (h : Utf8.Tail c) (value : Nat) :
    (value <<< 6) ||| (c &&& 63).toNat = value * 64 + (c.toNat - 0x80) := by
  rw [Utf8.Tail] at h
  have hmod : (c &&& 63).toNat = c.toNat % 64 :=
    Nat.and_two_pow_sub_one_eq_mod c.toNat 6
  rw [← Nat.shiftLeft_add_eq_or_of_lt (by omega), Nat.shiftLeft_eq]
  omega

/-- Reading the bytes behind a first byte stops at the end of the name. -/
theorem readTails_cases (count : Nat) (name behind : Bytes) (value : Nat) :
    (readTails count (name ++ 0 :: behind) value = some none ∧
      ∀ tails rest, name = tails ++ rest → tails.length = count →
        ¬∀ b ∈ tails, Utf8.Tail b) ∨
    ∃ tails rest, name = tails ++ rest ∧ tails.length = count ∧
      (∀ b ∈ tails, Utf8.Tail b) ∧
      readTails count (name ++ 0 :: behind) value =
        some (some (tailValue value tails, rest ++ 0 :: behind)) := by
  induction count generalizing name value with
  | zero => exact Or.inr ⟨[], name, rfl, rfl, by simp, rfl⟩
  | succ count ih =>
      cases name with
      | nil =>
          refine Or.inl ⟨rfl, ?_⟩
          intro tails rest hsplit hlen
          obtain ⟨rfl, -⟩ := List.append_eq_nil_iff.mp hsplit.symm
          simp at hlen
      | cons c name =>
          rw [List.cons_append, readTails]
          by_cases hc : Utf8.Tail c
          · rw [if_neg (by rw [ne_eq, not_not]; exact (tail_iff c).mpr hc),
              tail_value hc]
            rcases ih name (value * 64 + (c.toNat - 0x80)) with
              ⟨hread, hno⟩ | ⟨tails, rest, rfl, hlen, htails, hread⟩
            · refine Or.inl ⟨hread, ?_⟩
              intro tails rest hsplit hlen htails
              cases tails with
              | nil => simp at hlen
              | cons d tails =>
                  obtain ⟨-, hrest⟩ := List.cons.inj hsplit
                  exact hno tails rest hrest (Nat.succ.inj hlen)
                    fun b hb => htails b (List.mem_cons_of_mem _ hb)
            · refine Or.inr ⟨c :: tails, rest, rfl, congrArg _ hlen, ?_, ?_⟩
              · intro b hb
                rcases List.mem_cons.mp hb with rfl | hb
                · exact hc
                · exact htails b hb
              · rw [tailValue_cons]
                exact hread
          · rw [if_pos fun h => hc ((tail_iff c).mp h)]
            refine Or.inl ⟨rfl, ?_⟩
            intro tails rest hsplit hlen htails
            cases tails with
            | nil => simp at hlen
            | cons d tails =>
                obtain ⟨rfl, -⟩ := List.cons.inj hsplit
                exact hc (htails c (by simp))

/-! ## What the loop decides -/

/-- The entries of a text that a name may have. -/
def Allowed (entry : Option Char) : Prop :=
  ∃ c : Char, entry = some c ∧ ¬c.toNat ≤ 31 ∧
    ¬(127 ≤ c.toNat ∧ c.toNat ≤ 159)

/-- The decision is right for the rest of a name. -/
def Decides (name : Bytes) (result : Option Bool) : Prop :=
  ∃ valid scan, result = some valid ∧ Utf8.Scan name scan ∧
    (valid = true ↔ ∀ entry ∈ scan, Allowed entry)

section

variable {name rest : Bytes} {result : Option Bool}

/-- An entry that a name must not have in front of anything. -/
theorem decides_false {entry : Option Char} (hentry : ¬Allowed entry)
    (hscan : ∀ scan, Utf8.Scan rest scan → Utf8.Scan name (entry :: scan)) :
    Decides name (some false) := by
  obtain ⟨scan, hrest⟩ := Utf8.exists_scan rest
  refine ⟨false, entry :: scan, rfl, hscan scan hrest, ?_⟩
  constructor
  · intro h
    cases h
  · intro h
    exact absurd (h entry (by simp)) hentry

/-- An entry that a name may have leaves the decision to the rest. -/
theorem Decides.cons {entry : Option Char} (hentry : Allowed entry)
    (hscan : ∀ scan, Utf8.Scan rest scan → Utf8.Scan name (entry :: scan))
    (h : Decides rest result) : Decides name result := by
  obtain ⟨valid, scan, hresult, hrest, hiff⟩ := h
  refine ⟨valid, entry :: scan, hresult, hscan scan hrest, ?_⟩
  rw [hiff]
  constructor
  · intro h e he
    rcases List.mem_cons.mp he with rfl | he
    · exact hentry
    · exact h e he
  · intro h e he
    exact h e (List.mem_cons_of_mem _ he)

theorem not_allowed_none : ¬Allowed none := by
  rintro ⟨c, hc, -⟩
  cases hc

theorem not_allowed {c : Char}
    (h : c.toNat ≤ 31 ∨ 127 ≤ c.toNat ∧ c.toNat ≤ 159) :
    ¬Allowed (some c) := by
  rintro ⟨d, hd, hlow, hhigh⟩
  obtain rfl := Option.some.inj hd
  rcases h with h | h
  · exact hlow h
  · exact hhigh h

/-- A number that is refused is no character, or a control character. -/
theorem valueRefused_iff {value minimum : Nat} :
    valueRefused value minimum = true ↔ ¬(minimum ≤ value ∧
      Utf8.Scalar value ∧ ¬(0x80 ≤ value ∧ value ≤ 0x9f)) := by
  simp only [valueRefused, Bool.or_eq_true, Bool.and_eq_true,
    decide_eq_true_eq, Utf8.Scalar, ge_iff_le, gt_iff_lt]
  omega

theorem scan_char {d : Char} {bytes : Bytes} (hd : Utf8.encode d = bytes)
    {scan : List (Option Char)} (h : Utf8.Scan rest scan) :
    Utf8.Scan (bytes ++ rest) (some d :: scan) := by
  rw [← hd]
  exact h.char d

end

/-- A byte from 128 on: the decoding decides about one entry of the name. -/
theorem decides_high {fuel : Nat} {c : UInt8} {name behind : Bytes}
    (hc : 128 ≤ c.toNat)
    (ih : ∀ rest tails, name = tails ++ rest →
      Decides rest (nameLoop fuel (rest ++ 0 :: behind))) :
    Decides (c :: name) (match leadByte c with
      | none => some false
      | some (value, count, minimum) =>
          match readTails count (name ++ 0 :: behind) value with
          | none => none
          | some none => some false
          | some (some (value, p)) =>
              if valueRefused value minimum then some false
              else nameLoop fuel p) := by
  -- A sequence at the front would be decoded.
  have hfront : ∀ d, Utf8.encode d <+: c :: name → ∃ tails rest,
      name = tails ++ rest ∧ Utf8.Sequence (c :: tails) d.toNat := by
    rintro d ⟨rest, hrest⟩
    have hseq := Utf8.sequence_encode d
    cases hencode : Utf8.encode d with
    | nil => exact absurd hencode (Utf8.encode_ne_nil d)
    | cons a tails =>
        rw [hencode] at hrest hseq
        obtain ⟨rfl, hname⟩ := List.cons.inj hrest
        exact ⟨tails, rest, hname.symm, hseq⟩
  cases hlead : leadByte c with
  | none =>
      refine decides_false not_allowed_none fun scan hscan =>
        Utf8.Scan.bad ?_ hscan
      intro d hd
      obtain ⟨tails, rest, -, hseq⟩ := hfront d hd
      obtain ⟨value, count, minimum, hsome, -⟩ :=
        leadByte_of_sequence hc hseq
      rw [hlead] at hsome
      cases hsome
  | some lead =>
      obtain ⟨value, count, minimum⟩ := lead
      dsimp only
      rcases readTails_cases count name behind value with
        ⟨hread, hno⟩ | ⟨tails, rest, rfl, hlen, htails, hread⟩
      · rw [hread]
        refine decides_false not_allowed_none fun scan hscan =>
          Utf8.Scan.bad ?_ hscan
        intro d hd
        obtain ⟨tails, rest, hname, hseq⟩ := hfront d hd
        obtain ⟨value', count', minimum', hsome, hlen, htails, -⟩ :=
          leadByte_of_sequence hc hseq
        rw [hlead] at hsome
        cases hsome
        exact hno tails rest hname hlen htails
      · rw [hread]
        dsimp only
        by_cases hok : minimum ≤ tailValue value tails ∧
            Utf8.Scalar (tailValue value tails)
        · have hseq := sequence_of_leadByte hlead hlen htails hok.1 hok.2
          have hlow := le_trans (le_minimum hlead) hok.1
          obtain ⟨d, hd, hencode⟩ := hseq.exists_encode
          have hscan : ∀ scan, Utf8.Scan rest scan →
              Utf8.Scan (c :: (tails ++ rest)) (some d :: scan) :=
            fun scan h => scan_char hencode h
          by_cases hcontrol : 0x80 ≤ tailValue value tails ∧
              tailValue value tails ≤ 0x9f
          · rw [if_pos (valueRefused_iff.mpr fun h => h.2.2 hcontrol)]
            exact decides_false (not_allowed (by omega)) hscan
          · rw [if_neg fun h => valueRefused_iff.mp h
              ⟨hok.1, hok.2, hcontrol⟩]
            refine Decides.cons ⟨d, rfl, ?_, ?_⟩ hscan (ih rest tails rfl)
            · omega
            · omega
        · -- Another sequence at the front would have the same number.
          rw [if_pos (valueRefused_iff.mpr fun h => hok ⟨h.1, h.2.1⟩)]
          refine decides_false not_allowed_none fun scan hscan =>
            Utf8.Scan.bad ?_ hscan
          intro d hd
          obtain ⟨tails', rest', hname, hseq⟩ := hfront d hd
          obtain ⟨value', count', minimum', hsome, hlen', -, hvalue, hmin⟩ :=
            leadByte_of_sequence hc hseq
          rw [hlead] at hsome
          cases hsome
          obtain ⟨rfl, -⟩ := List.append_inj hname (hlen.trans hlen'.symm)
          rw [hvalue] at hmin
          have hscalar := hseq.scalar
          rw [hvalue] at hscalar
          exact hok ⟨hmin, hscalar⟩

/-- The loop decides about a whole name and reads nothing behind its end. -/
theorem nameLoop_decides {fuel : Nat} {name : Bytes} (hname : 0 ∉ name)
    (hfuel : name.length < fuel) (behind : Bytes) :
    Decides name (nameLoop fuel (name ++ 0 :: behind)) := by
  induction fuel generalizing name with
  | zero => omega
  | succ fuel ih =>
      cases name with
      | nil => exact ⟨true, [], rfl, Utf8.Scan.nil, by simp⟩
      | cons c name =>
          rw [List.mem_cons, not_or] at hname
          rw [List.length_cons] at hfuel
          rw [List.cons_append, nameLoop, if_neg (Ne.symm hname.1)]
          by_cases hcontrol : c < 32 ∨ c = 127
          · rw [if_pos hcontrol]
            have hvalue : c.toNat ≤ 31 ∨ c.toNat = 127 := by
              rcases hcontrol with h | rfl
              · rw [UInt8.lt_iff_toNat_lt] at h
                exact Or.inl (Nat.le_of_lt_succ h)
              · exact Or.inr rfl
            obtain ⟨d, hd, hencode⟩ := Utf8.encode_ascii (b := c) (by omega)
            exact decides_false (not_allowed (by omega)) fun scan hscan =>
              scan_char hencode hscan
          rw [if_neg hcontrol]
          rw [not_or, UInt8.lt_iff_toNat_lt, ← UInt8.toNat_inj] at hcontrol
          by_cases hlow : c < 128
          · rw [if_pos hlow]
            rw [UInt8.lt_iff_toNat_lt] at hlow
            obtain ⟨d, hd, hencode⟩ := Utf8.encode_ascii hlow
            have hallowed : Allowed (some d) := by
              refine ⟨d, rfl, ?_, ?_⟩
              · exact fun h => hcontrol.1 (by
                  rw [← hd]
                  exact Nat.lt_succ_of_le h)
              · intro h
                have heq : c.toNat = 127 := by
                  have : c.toNat < 128 := hlow
                  omega
                exact hcontrol.2 heq
            exact (ih hname.2 (by omega)).cons hallowed fun scan hscan =>
              scan_char hencode hscan
          · rw [if_neg hlow]
            rw [UInt8.lt_iff_toNat_lt] at hlow
            refine decides_high (Nat.le_of_not_lt hlow) ?_
            rintro rest tails rfl
            rw [List.length_append] at hfuel
            refine ih ?_ (by omega)
            exact fun h => hname.2 (List.mem_append_right _ h)

/-- A name is valid exactly if it is short, well-formed UTF-8 and without
control characters. -/
theorem midiEffectNameValid_spec {name : Bytes} (hname : 0 ∉ name)
    (behind : Bytes) :
    ∃ valid scan, midiEffectNameValid (some (name ++ 0 :: behind)) =
        some valid ∧ Utf8.Scan name scan ∧
      (valid = true ↔ name.length < 64 ∧ ∀ entry ∈ scan, Allowed entry) := by
  rw [midiEffectNameValid, strnlen_append hname]
  dsimp only
  by_cases hlong : name.length < 64
  · have hfuel : name.length < (name ++ 0 :: behind).length := by simp
    obtain ⟨valid, scan, hresult, hscan, hiff⟩ :=
      nameLoop_decides hname hfuel behind
    refine ⟨valid, scan, ?_, hscan, ?_⟩
    · rw [if_neg (by omega), hresult]
    · rw [hiff, and_iff_right hlong]
  · obtain ⟨scan, hscan⟩ := Utf8.exists_scan name
    refine ⟨false, scan, by rw [if_pos (by omega)], hscan, ?_⟩
    constructor
    · intro h
      cases h
    · rintro ⟨h, -⟩
      exact absurd h hlong

end Audiox.Config
