import Mathlib

/-!
# Byte strings

Byte strings, the text conventions of C on top of them (NUL termination,
lines), and fixed-width little-endian integers with their round trip.
-/

namespace ByteCodec

abbrev Bytes := List UInt8

instance : LawfulBEq Bytes :=
  inferInstance

/-- The code of an ASCII character. -/
def chr (c : Char) : UInt8 :=
  c.toNat.toUInt8

/-- The bytes of an ASCII text. -/
def ascii (s : String) : Bytes :=
  s.toList.map chr

/-- The part of a buffer in front of its first NUL. -/
def cstr (buf : Bytes) : Bytes :=
  buf.takeWhile (· ≠ 0)

theorem cstr_eq_self {buf : Bytes} (h : 0 ∉ buf) : cstr buf = buf := by
  induction buf with
  | nil => rfl
  | cons c buf ih =>
      rw [List.mem_cons, not_or] at h
      rw [cstr, List.takeWhile_cons_of_pos (by simpa using Ne.symm h.1)]
      exact congrArg _ (ih h.2)

theorem zero_notMem_cstr (buf : Bytes) : 0 ∉ cstr buf := by
  induction buf with
  | nil => simp [cstr]
  | cons c buf ih =>
      by_cases hc : c = 0
      · simp [cstr, hc]
      · rw [cstr, List.takeWhile_cons_of_pos (by simpa using hc)]
        rw [List.mem_cons, not_or]
        exact ⟨Ne.symm hc, ih⟩

/-! ## Lines -/

/-- The lines of a text; a newline ends a line and starts none. -/
def lines : Bytes → List Bytes
  | [] => []
  | c :: rest =>
      if c = chr '\n' then [] :: lines rest
      else
        match lines rest with
        | [] => [[c]]
        | l :: ls => (c :: l) :: ls

theorem lines_line_append {l : Bytes} (hl : chr '\n' ∉ l) (rest : Bytes) :
    lines (l ++ chr '\n' :: rest) = l :: lines rest := by
  induction l with
  | nil => simp [lines]
  | cons c l ih =>
      rw [List.mem_cons, not_or] at hl
      rw [List.cons_append, lines, if_neg (fun h => hl.1 h.symm), ih hl.2]

theorem lines_last {l : Bytes} (hl : chr '\n' ∉ l) (hne : l ≠ []) :
    lines l = [l] := by
  induction l with
  | nil => exact absurd rfl hne
  | cons c l ih =>
      rw [List.mem_cons, not_or] at hl
      rw [lines, if_neg (fun h => hl.1 h.symm)]
      by_cases h : l = []
      · subst l
        rfl
      · rw [ih hl.2 h]

/-- Lines that are written one after the other. -/
theorem lines_flatMap {ls : List Bytes} (h : ∀ l ∈ ls, chr '\n' ∉ l) :
    lines (ls.flatMap (· ++ ascii "\n")) = ls := by
  induction ls with
  | nil => rfl
  | cons l ls ih =>
      have hstop : ascii "\n" = [chr '\n'] := by decide
      have hrest := ih fun l' hl' => h l' (List.mem_cons_of_mem _ hl')
      rw [hstop] at hrest
      rw [List.flatMap_cons, hstop, List.append_assoc, List.singleton_append,
        lines_line_append (h l (by simp)), hrest]

/-! ## Decimal numbers -/

def isDigit (c : UInt8) : Bool :=
  chr '0' ≤ c && c ≤ chr '9'

/-- The value of a string of decimal digits. -/
def decimal (digits : Bytes) : Nat :=
  digits.foldl (fun n c => n * 10 + (c.toNat - 48)) 0

/-- A number in decimal digits. -/
def showDecimal (n : Nat) : Bytes :=
  (Nat.toDigits 10 n).map chr

theorem isDigit_chr {c : Char} (h : c.isDigit) :
    isDigit (chr c) = true ∧ (chr c).toNat = c.toNat := by
  simp only [Char.isDigit, Bool.and_eq_true, decide_eq_true_eq, ge_iff_le] at h
  have hlow : 48 ≤ c.toNat := h.1
  have hhigh : c.toNat ≤ 57 := h.2
  have hnat : (chr c).toNat = c.toNat := by
    simp only [chr, Nat.toUInt8]
    exact UInt8.toNat_ofNat_of_lt' (by show _ < 256; omega)
  have h0 : (chr '0').toNat = 48 := by decide
  have h9 : (chr '9').toNat = 57 := by decide
  refine ⟨?_, hnat⟩
  simp only [isDigit, Bool.and_eq_true, decide_eq_true_eq,
    UInt8.le_iff_toNat_le, hnat, h0, h9]
  exact ⟨hlow, hhigh⟩

theorem isDigit_of_mem_showDecimal {n : Nat} {c : UInt8}
    (h : c ∈ showDecimal n) : isDigit c = true := by
  obtain ⟨d, hd, rfl⟩ := List.mem_map.mp h
  exact (isDigit_chr (Nat.isDigit_of_mem_toDigits (by decide) (by decide) hd)).1

theorem showDecimal_ne_nil (n : Nat) : showDecimal n ≠ [] := by
  intro h
  exact Nat.toDigits_ne_nil (List.map_eq_nil_iff.mp h)

theorem decimal_showDecimal (n : Nat) : decimal (showDecimal n) = n := by
  have hfold : ∀ (l : List Char) (init : Nat), (∀ c ∈ l, c.isDigit) →
      (l.map chr).foldl (fun n c => n * 10 + (c.toNat - 48)) init =
        Nat.ofDigitChars 10 l init := by
    intro l
    induction l with
    | nil =>
        intro init _
        rw [Nat.ofDigitChars_nil]
        rfl
    | cons c l ih =>
        intro init hl
        rw [Nat.ofDigitChars_cons, List.map_cons, List.foldl_cons,
          ih _ fun d hd => hl d (List.mem_cons_of_mem _ hd),
          (isDigit_chr (hl c (by simp))).2, Nat.mul_comm init 10]
        rfl
  have hdigits : ∀ c ∈ Nat.toDigits 10 n, c.isDigit :=
    fun c hc => Nat.isDigit_of_mem_toDigits (by decide) (by decide) hc
  rw [decimal, showDecimal, hfold _ 0 hdigits]
  exact Nat.ofDigitChars_ten_toDigits

theorem length_showDecimal_le {n k : Nat} (hk : 0 < k) (h : n < 10 ^ k) :
    (showDecimal n).length ≤ k := by
  rw [showDecimal, List.length_map]
  exact (Nat.length_toDigits_le_iff (by decide) hk).mpr h

/-! ## Little-endian integers -/

/-- The `k` low bytes of a number, the lowest first. -/
def leBytes : Nat → Nat → Bytes
  | 0, _ => []
  | k + 1, v => v.toUInt8 :: leBytes k (v / 256)

/-- The number whose bytes are given, the lowest first. -/
def leNat : Bytes → Nat
  | [] => 0
  | c :: rest => c.toNat + 256 * leNat rest

@[simp] theorem length_leBytes (k v : Nat) : (leBytes k v).length = k := by
  induction k generalizing v with
  | zero => rfl
  | succ k ih => rw [leBytes, List.length_cons, ih]

theorem leNat_leBytes (k v : Nat) : leNat (leBytes k v) = v % 256 ^ k := by
  induction k generalizing v with
  | zero => simp [leBytes, leNat, Nat.mod_one]
  | succ k ih =>
      have hlow : v.toUInt8.toNat = v % 256 := by simp
      rw [leBytes, leNat, ih, hlow, Nat.pow_succ, Nat.mul_comm (256 ^ k) 256,
        Nat.mod_mul]

theorem leBytes_leNat (bs : Bytes) : leBytes bs.length (leNat bs) = bs := by
  induction bs with
  | nil => rfl
  | cons c rest ih =>
      have hc := c.toNat_lt
      have hdiv : (c.toNat + 256 * leNat rest) / 256 = leNat rest := by omega
      rw [List.length_cons, leBytes, leNat, hdiv, ih]
      congr 1
      apply UInt8.toNat_inj.mp
      simp

theorem leNat_lt (bs : Bytes) : leNat bs < 256 ^ bs.length := by
  have h := leNat_leBytes bs.length (leNat bs)
  rw [leBytes_leNat] at h
  rw [h]
  exact Nat.mod_lt _ (Nat.pow_pos (by decide))

theorem leNat_leBytes_of_lt {k v : Nat} (h : v < 256 ^ k) :
    leNat (leBytes k v) = v := by
  rw [leNat_leBytes, Nat.mod_eq_of_lt h]

/-! ## Big-endian integers -/

/-- The `k` low bytes of a number, the highest first. -/
def beBytes (k v : Nat) : Bytes :=
  (leBytes k v).reverse

/-- The number whose bytes are given, the highest first. -/
def beNat (bs : Bytes) : Nat :=
  leNat bs.reverse

@[simp] theorem length_beBytes (k v : Nat) : (beBytes k v).length = k := by
  rw [beBytes, List.length_reverse, length_leBytes]

theorem beNat_beBytes_of_lt {k v : Nat} (h : v < 256 ^ k) :
    beNat (beBytes k v) = v := by
  rw [beNat, beBytes, List.reverse_reverse, leNat_leBytes_of_lt h]

theorem beBytes_beNat (bs : Bytes) : beBytes bs.length (beNat bs) = bs := by
  have h := leBytes_leNat bs.reverse
  rw [List.length_reverse] at h
  rw [beBytes, beNat, h, List.reverse_reverse]

theorem beNat_lt (bs : Bytes) : beNat bs < 256 ^ bs.length := by
  have h := leNat_lt bs.reverse
  rwa [List.length_reverse] at h

end ByteCodec
