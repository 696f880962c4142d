import Audiox.Update.Text

/-!
# Texts of the configuration

The small functions with which the configuration files are read: trimming,
bounded copies and numbers.  A C string is the list of its bytes, without the
NUL.
-/

namespace Audiox.Config

open ByteCodec

/-! ## Trimming -/

def trimLeft (s : Bytes) : Bytes :=
  s.dropWhile isBlank

/-- The characters that are trimmed at the end. -/
def isTrailing (c : UInt8) : Bool :=
  c == chr ' ' || c == chr '\n' || c == chr '\r' || c == chr '\t'

def trimRight (s : Bytes) : Bytes :=
  s.rdropWhile isTrailing

def trim (s : Bytes) : Bytes :=
  trimRight (trimLeft s)

/-- A copy into a buffer of a size. -/
def copyBounded (size : Nat) (s : Bytes) : Bytes :=
  s.take (size - 1)

theorem copyBounded_eq_self {size : Nat} {s : Bytes} (h : s.length < size) :
    copyBounded size s = s :=
  List.take_of_length_le (by omega)

theorem isTrailing_of_isBlank {c : UInt8} (h : isBlank c = true) :
    isTrailing c = true := by
  simp only [isBlank, isTrailing, Bool.or_eq_true] at h ⊢
  tauto

/-- A text that neither begins with a blank nor ends with one. -/
def NoBlankEnds (s : Bytes) : Prop :=
  (∀ c, s.head? = some c → isBlank c = false) ∧
    ∀ c, s.getLast? = some c → isTrailing c = false

theorem trimLeft_eq_self_iff {s : Bytes} :
    trimLeft s = s ↔ ∀ c, s.head? = some c → isBlank c = false := by
  cases s with
  | nil => simp [trimLeft]
  | cons d s =>
      rw [trimLeft, List.dropWhile_eq_self_iff]
      simp

theorem trimRight_eq_self_iff {s : Bytes} :
    trimRight s = s ↔ ∀ c, s.getLast? = some c → isTrailing c = false := by
  rw [trimRight, List.rdropWhile_eq_self_iff]
  constructor
  · intro h c hc
    have hne : s ≠ [] := by
      rintro rfl
      cases hc
    rw [List.getLast?_eq_some_getLast hne, Option.some_inj] at hc
    have hlast := h hne
    rw [hc] at hlast
    exact Bool.eq_false_iff.mpr hlast
  · intro h hne
    have hlast := h _ (List.getLast?_eq_some_getLast hne)
    rw [hlast]
    exact Bool.false_ne_true

/-- Nothing is trimmed exactly if the ends are not blank. -/
theorem trim_eq_self_iff {s : Bytes} : trim s = s ↔ NoBlankEnds s := by
  rw [NoBlankEnds, ← trimLeft_eq_self_iff, ← trimRight_eq_self_iff, trim]
  constructor
  · intro h
    have hcut : (trimRight (trimLeft s)).length ≤ (trimLeft s).length :=
      (List.rdropWhile_prefix _ _).length_le
    have hleft : trimLeft s = s := by
      apply (List.dropWhile_suffix isBlank).eq_of_length_le
      have hlen := congrArg List.length h
      rw [trimLeft] at hcut hlen
      omega
    rw [hleft] at h
    exact ⟨hleft, h⟩
  · rintro ⟨hleft, hright⟩
    rw [hleft, hright]

/-- Blanks around a text are trimmed. -/
theorem trim_padded {pre s post : Bytes} (hpre : ∀ c ∈ pre, isBlank c = true)
    (hpost : ∀ c ∈ post, isTrailing c = true) (hne : s ≠ [])
    (hs : NoBlankEnds s) : trim (pre ++ s ++ post) = s := by
  have hleft : trimLeft (pre ++ s ++ post) = s ++ post := by
    have hhead := trimLeft_eq_self_iff.mpr hs.1
    rw [trimLeft] at hhead ⊢
    obtain ⟨c, s, rfl⟩ := List.exists_cons_of_ne_nil hne
    have hc := hs.1 c rfl
    rw [List.append_assoc, List.dropWhile_append_of_pos hpre, List.cons_append,
      List.dropWhile_cons_of_neg (by simp [hc])]
  have hright := trimRight_eq_self_iff.mpr hs.2
  rw [trim, hleft, trimRight, List.rdropWhile, List.reverse_append,
    List.dropWhile_append_of_pos (by simpa using hpost)]
  exact hright

/-- Blanks in front of a stop do not hide it. -/
theorem trimLeft_append_stop {c : UInt8} (hc : isBlank c = false)
    (s rest : Bytes) :
    trimLeft (s ++ c :: rest) = trimLeft s ++ c :: rest := by
  rw [trimLeft, trimLeft]
  induction s with
  | nil =>
      rw [List.nil_append, List.dropWhile_cons_of_neg (by simp [hc])]
      rfl
  | cons d s ih =>
      by_cases hd : isBlank d = true
      · rw [List.cons_append, List.dropWhile_cons_of_pos hd, ih,
          List.dropWhile_cons_of_pos hd]
      · rw [List.cons_append, List.dropWhile_cons_of_neg hd,
          List.dropWhile_cons_of_neg hd]
        rfl

theorem trimLeft_idem (s : Bytes) : trimLeft (trimLeft s) = trimLeft s :=
  List.dropWhile_idempotent isBlank s

theorem trimRight_append_trailing {post : Bytes}
    (h : ∀ c ∈ post, isTrailing c = true) (s : Bytes) :
    trimRight (s ++ post) = trimRight s := by
  rw [trimRight, trimRight, List.rdropWhile, List.reverse_append,
    List.dropWhile_append_of_pos (by simpa using h)]
  rfl

theorem trimRight_append_of_last {post : Bytes} (hne : post ≠ [])
    (h : ∀ c, post.getLast? = some c → isTrailing c = false) (s : Bytes) :
    trimRight (s ++ post) = s ++ post := by
  apply trimRight_eq_self_iff.mpr
  intro c hc
  rw [List.getLast?_append_of_ne_nil s hne] at hc
  exact h c hc

theorem length_trim_le (s : Bytes) : (trim s).length ≤ s.length :=
  (List.rdropWhile_prefix _ _).length_le.trans
    (List.dropWhile_suffix _).length_le

/-! ## Numbers -/

def isSpace (c : UInt8) : Bool :=
  (9 ≤ c && c ≤ 13) || c == 32

/-- Cuts a sign and tells whether it is a minus. -/
def takeSign : Bytes → Bool × Bytes
  | [] => (false, [])
  | c :: s =>
      if c = chr '-' then (true, s)
      else if c = chr '+' then (false, s)
      else (false, c :: s)

/-- The bounds of a `long`. -/
def clampLong (v : Int) : Int :=
  max (-2 ^ 63) (min (2 ^ 63 - 1) v)

/-- The decimal number at the start of a text, and what follows it; a text
without a number is left as it is. -/
def strtol (s : Bytes) : Int × Bytes :=
  let (negative, digits) := takeSign (s.dropWhile isSpace)
  let value : Int := decimal (digits.takeWhile isDigit)
  if digits.takeWhile isDigit = [] then (0, s)
  else
    (clampLong (if negative then -value else value),
      digits.dropWhile isDigit)

theorem isDigit_bounds {c : UInt8} (h : isDigit c = true) :
    48 ≤ c.toNat ∧ c.toNat ≤ 57 := by
  simp only [isDigit, Bool.and_eq_true, decide_eq_true_eq,
    UInt8.le_iff_toNat_le] at h
  exact h

/-- A digit is neither blank nor a sign. -/
theorem isDigit_other {c d : UInt8} (h : isDigit c = true)
    (hd : d.toNat < 48 ∨ 57 < d.toNat) : c ≠ d := by
  rintro rfl
  have hbounds := isDigit_bounds h
  omega

theorem isBlank_of_isDigit {c : UInt8} (h : isDigit c = true) :
    isBlank c = false ∧ isTrailing c = false ∧ isSpace c = false := by
  have hne : ∀ d : UInt8, d.toNat < 48 → (c == d) = false :=
    fun d hd => beq_false_of_ne (isDigit_other h (.inl hd))
  have hbounds := isDigit_bounds h
  have hspace : ¬(9 ≤ c ∧ c ≤ 13) := by
    simp only [UInt8.le_iff_toNat_le, UInt8.reduceToNat]
    omega
  refine ⟨?_, ?_, ?_⟩
  · simp [isBlank, hne _ (by decide : (chr ' ').toNat < 48),
      hne _ (by decide : (chr '\t').toNat < 48)]
  · simp [isTrailing, hne _ (by decide : (chr ' ').toNat < 48),
      hne _ (by decide : (chr '\t').toNat < 48),
      hne _ (by decide : (chr '\n').toNat < 48),
      hne _ (by decide : (chr '\r').toNat < 48)]
  · simp only [isSpace, hne 32 (by decide), Bool.or_false]
    simpa using hspace

/-- A number that stands alone. -/
theorem strtol_of_digits {digits : Bytes} (hne : digits ≠ [])
    (hdigits : ∀ c ∈ digits, isDigit c = true) :
    strtol digits = (clampLong (decimal digits), []) := by
  obtain ⟨c, rest, rfl⟩ := List.exists_cons_of_ne_nil hne
  have hc := hdigits c (by simp)
  have hspace : (c :: rest).dropWhile isSpace = c :: rest := by
    rw [List.dropWhile_cons_of_neg]
    simp [(isBlank_of_isDigit hc).2.2]
  have hsign : takeSign (c :: rest) = (false, c :: rest) := by
    rw [takeSign, if_neg (isDigit_other hc (.inl (by decide))),
      if_neg (isDigit_other hc (.inl (by decide)))]
  have htake : (c :: rest).takeWhile isDigit = c :: rest :=
    List.takeWhile_eq_self_iff.mpr hdigits
  have hdrop : (c :: rest).dropWhile isDigit = [] :=
    List.dropWhile_eq_nil_iff.mpr hdigits
  rw [strtol, hspace, hsign]
  simp only [htake, hdrop, if_neg (List.cons_ne_nil c rest),
    Bool.false_eq_true, if_false]

theorem strtol_digits {digits : Bytes} (hne : digits ≠ [])
    (hdigits : ∀ c ∈ digits, isDigit c = true)
    (hsmall : decimal digits < 2 ^ 63) :
    strtol digits = ((decimal digits : Int), []) := by
  rw [strtol_of_digits hne hdigits, clampLong]
  congr 1
  omega

theorem strtol_nil : strtol [] = (0, []) := rfl

/-- The number, also where there is none. -/
theorem strtol_fst (s : Bytes) :
    (strtol s).1 =
      clampLong (if (takeSign (s.dropWhile isSpace)).1 then
        -(decimal ((takeSign (s.dropWhile isSpace)).2.takeWhile isDigit) : Int)
      else decimal ((takeSign (s.dropWhile isSpace)).2.takeWhile isDigit)) := by
  rw [strtol]
  simp only
  split
  case isTrue hnone =>
    rw [hnone]
    split <;> rfl
  case isFalse => rfl

/-- White space in front of a number has no part in it. -/
theorem strtol_of_space {a : Bytes} (h : ∀ c ∈ a, isSpace c = true)
    (b : Bytes) : (strtol (a ++ b)).1 = (strtol b).1 := by
  rw [strtol_fst, strtol_fst, List.dropWhile_append_of_pos h]

theorem takeSign_append {a : Bytes} (hne : a ≠ []) (b : Bytes) :
    takeSign (a ++ b) = ((takeSign a).1, (takeSign a).2 ++ b) := by
  obtain ⟨c, a, rfl⟩ := List.exists_cons_of_ne_nil hne
  rw [List.cons_append, takeSign, takeSign]
  split_ifs <;> rfl

theorem dropWhile_isSpace_append {a : Bytes}
    (h : a.dropWhile isSpace ≠ []) (b : Bytes) :
    (a ++ b).dropWhile isSpace = a.dropWhile isSpace ++ b := by
  rw [List.dropWhile_append]
  simp [h]

/-- A number ends where a character follows that is no digit. -/
theorem strtol_append_of_stop {a b : Bytes}
    (h : a.dropWhile isSpace ≠ [])
    (hstop : ∀ c ∈ b.head?, isDigit c = false) :
    (strtol (a ++ b)).1 = (strtol a).1 := by
  have htake : ∀ digits : Bytes,
      (digits ++ b).takeWhile isDigit = digits.takeWhile isDigit := by
    intro digits
    have hnone : b.takeWhile isDigit = [] := by
      cases b with
      | nil => rfl
      | cons c b => rw [List.takeWhile_cons_of_neg (by simp [hstop c rfl])]
    rw [List.takeWhile_append, hnone]
    split
    case isTrue hall =>
      rw [List.append_nil]
      exact ((List.takeWhile_prefix _).eq_of_length hall).symm
    case isFalse => rfl
  rw [strtol_fst, strtol_fst, dropWhile_isSpace_append h, takeSign_append h]
  simp only [htake]

theorem decimal_prefix_le (a b : Bytes) : decimal a ≤ decimal (a ++ b) := by
  induction b using List.reverseRecOn with
  | nil => rw [List.append_nil]
  | append_singleton b c ih =>
      refine ih.trans ?_
      rw [← List.append_assoc, decimal, decimal, List.foldl_append (l := a ++ b)]
      simp only [List.foldl_cons, List.foldl_nil]
      omega

/-- A text that starts no positive number has no front that does. -/
theorem strtol_prefix_nonpos {a b : Bytes} (h : (strtol (a ++ b)).1 ≤ 0) :
    (strtol a).1 ≤ 0 := by
  by_cases hspace : a.dropWhile isSpace = []
  · rw [strtol_fst, hspace]
    decide
  · rw [strtol_fst, dropWhile_isSpace_append hspace,
      takeSign_append hspace] at h
    rw [strtol_fst]
    simp only at h
    have hdigits : ∃ more, ((takeSign (a.dropWhile isSpace)).2 ++
        b).takeWhile isDigit =
          (takeSign (a.dropWhile isSpace)).2.takeWhile isDigit ++ more := by
      rw [List.takeWhile_append]
      split
      case isTrue hall =>
        refine ⟨b.takeWhile isDigit, ?_⟩
        rw [(List.takeWhile_prefix _).eq_of_length hall]
      case isFalse => exact ⟨[], (List.append_nil _).symm⟩
    obtain ⟨more, hmore⟩ := hdigits
    have hle := decimal_prefix_le
      ((takeSign (a.dropWhile isSpace)).2.takeWhile isDigit) more
    rw [hmore] at h
    rw [clampLong] at h ⊢
    split_ifs at h ⊢ <;> omega

end Audiox.Config
