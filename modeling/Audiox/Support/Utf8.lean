import Audiox.Support.ByteCodec
import Mathlib

/-!
# UTF-8

The sequences of bytes that encode characters, described by their bytes, and
the reading of an arbitrary byte string from left to right in which every byte
that starts no sequence stands alone.
-/

namespace Utf8

open ByteCodec

/-- The sequence of a character. -/
abbrev encode (c : Char) : Bytes :=
  String.utf8EncodeChar c

/-- The bytes of a text. -/
def bytes (text : List Char) : Bytes :=
  text.flatMap encode

/-- The bytes behind the first one of a sequence. -/
def Tail (b : UInt8) : Prop :=
  0x80 ≤ b.toNat ∧ b.toNat ≤ 0xbf

/-- The numbers that are characters. -/
def Scalar (v : Nat) : Prop :=
  v < 0xd800 ∨ 0xdfff < v ∧ v < 0x110000

/-- The well-formed sequences, and the numbers that they encode. -/
inductive Sequence : Bytes → Nat → Prop
  | one {a : UInt8} {v : Nat} (ha : a.toNat < 0x80) (hv : v = a.toNat) :
      Sequence [a] v
  | two {a b : UInt8} {v : Nat} (ha : 0xc2 ≤ a.toNat ∧ a.toNat ≤ 0xdf)
      (hb : Tail b) (hv : v = (a.toNat - 0xc0) * 64 + (b.toNat - 0x80)) :
      Sequence [a, b] v
  | three {a b d : UInt8} {v : Nat} (ha : 0xe0 ≤ a.toNat ∧ a.toNat ≤ 0xef)
      (hb : Tail b) (hd : Tail d)
      (hv : v = (a.toNat - 0xe0) * 4096 + (b.toNat - 0x80) * 64 +
        (d.toNat - 0x80))
      (hmin : 0x800 ≤ v) (hscalar : Scalar v) : Sequence [a, b, d] v
  | four {a b d e : UInt8} {v : Nat} (ha : 0xf0 ≤ a.toNat ∧ a.toNat ≤ 0xf4)
      (hb : Tail b) (hd : Tail d) (he : Tail e)
      (hv : v = (a.toNat - 0xf0) * 262144 + (b.toNat - 0x80) * 4096 +
        (d.toNat - 0x80) * 64 + (e.toNat - 0x80))
      (hmin : 0x10000 ≤ v) (hscalar : Scalar v) : Sequence [a, b, d, e] v

/-! ## Sequences and characters -/

theorem scalar_toNat (c : Char) : Scalar c.toNat := by
  rcases c.valid with h | h
  · exact Or.inl h
  · exact Or.inr h

theorem exists_char {v : Nat} (h : Scalar v) : ∃ c : Char, c.toNat = v := by
  refine ⟨Char.ofNat v, ?_⟩
  have hvalid : v.isValidChar := h
  rw [Char.ofNat, dif_pos hvalid]
  rfl

theorem toNat_injective {c d : Char} (h : c.toNat = d.toNat) : c = d := by
  rw [← Char.ofNat_toNat c, ← Char.ofNat_toNat d, h]

/-- The encoding of a character is a sequence for its number. -/
theorem sequence_encode (c : Char) : Sequence (encode c) c.toNat := by
  have hscalar := scalar_toNat c
  have hval : c.val.toNat = c.toNat := rfl
  have hbyte : ∀ n < 256, (UInt8.ofNat n).toNat = n := fun n hn =>
    UInt8.toNat_ofNat_of_lt' hn
  have htail : ∀ n, Tail (UInt8.ofNat (n % 64 + 128)) := by
    intro n
    rw [Tail, hbyte _ (by omega)]
    omega
  unfold encode String.utf8EncodeChar
  rw [hval]
  generalize c.toNat = v at hscalar
  dsimp only
  have hbound : v < 0x110000 := by
    rcases hscalar with h | h <;> omega
  split_ifs with hone htwo hthree
  · apply Sequence.one
    · rw [hbyte _ (by omega)]
      omega
    · rw [hbyte _ (by omega)]
  · apply Sequence.two
    · rw [hbyte _ (by omega)]
      omega
    · exact htail _
    · rw [hbyte _ (by omega), hbyte _ (by omega)]
      omega
  · apply Sequence.three
    · rw [hbyte _ (by omega)]
      omega
    · exact htail _
    · exact htail _
    · rw [hbyte _ (by omega), hbyte _ (by omega), hbyte _ (by omega)]
      omega
    · omega
    · exact hscalar
  · apply Sequence.four
    · rw [hbyte _ (by omega)]
      omega
    · exact htail _
    · exact htail _
    · exact htail _
    · rw [hbyte _ (by omega), hbyte _ (by omega), hbyte _ (by omega),
        hbyte _ (by omega)]
      omega
    · omega
    · exact hscalar

theorem Sequence.scalar {l : Bytes} {v : Nat} (h : Sequence l v) :
    Scalar v := by
  cases h with
  | one ha hv => exact Or.inl (by omega)
  | two ha hb hv =>
      obtain ⟨hlow, hhigh⟩ := hb
      exact Or.inl (by omega)
  | three _ _ _ _ _ hscalar => exact hscalar
  | four _ _ _ _ _ _ hscalar => exact hscalar

/-- Each length has its own range of numbers. -/
theorem Sequence.range {l : Bytes} {v : Nat} (h : Sequence l v) :
    (l.length = 1 ∧ v < 0x80) ∨ (l.length = 2 ∧ 0x80 ≤ v ∧ v < 0x800) ∨
      (l.length = 3 ∧ 0x800 ≤ v ∧ v < 0x10000) ∨
      (l.length = 4 ∧ 0x10000 ≤ v) := by
  cases h with
  | one ha hv => exact Or.inl ⟨rfl, by omega⟩
  | two ha hb hv =>
      obtain ⟨hlow, hhigh⟩ := hb
      exact Or.inr (Or.inl ⟨rfl, by omega, by omega⟩)
  | three ha hb hd hv hmin _ =>
      obtain ⟨hlow, hhigh⟩ := hb
      obtain ⟨hlow', hhigh'⟩ := hd
      exact Or.inr (Or.inr (Or.inl ⟨rfl, hmin, by omega⟩))
  | four _ _ _ _ _ hmin _ => exact Or.inr (Or.inr (Or.inr ⟨rfl, hmin⟩))

/-- A number has one sequence. -/
theorem Sequence.unique {l l' : Bytes} {v : Nat} (h : Sequence l v)
    (h' : Sequence l' v) : l = l' := by
  have hrange := h.range
  have hrange' := h'.range
  have hlen : l.length = l'.length := by omega
  cases h with
  | one ha hv =>
      cases h' with
      | one ha' hv' =>
          rw [UInt8.toNat_inj.mp (hv.symm.trans hv')]
      | _ => simp at hlen
  | two ha hb hv =>
      cases h' with
      | two ha' hb' hv' =>
          rw [Tail] at hb hb'
          congr 1
          · exact UInt8.toNat_inj.mp (by omega)
          · congr 1
            exact UInt8.toNat_inj.mp (by omega)
      | _ => simp at hlen
  | three ha hb hd hv _ _ =>
      cases h' with
      | three ha' hb' hd' hv' _ _ =>
          rw [Tail] at hb hb' hd hd'
          congr 1
          · exact UInt8.toNat_inj.mp (by omega)
          · congr 1
            · exact UInt8.toNat_inj.mp (by omega)
            · congr 1
              exact UInt8.toNat_inj.mp (by omega)
      | _ => simp at hlen
  | four ha hb hd he hv _ _ =>
      cases h' with
      | four ha' hb' hd' he' hv' _ _ =>
          rw [Tail] at hb hb' hd hd' he he'
          congr 1
          · exact UInt8.toNat_inj.mp (by omega)
          · congr 1
            · exact UInt8.toNat_inj.mp (by omega)
            · congr 1
              · exact UInt8.toNat_inj.mp (by omega)
              · congr 1
                exact UInt8.toNat_inj.mp (by omega)
      | _ => simp at hlen

theorem Sequence.exists_encode {l : Bytes} {v : Nat} (h : Sequence l v) :
    ∃ c : Char, c.toNat = v ∧ encode c = l := by
  obtain ⟨c, hc⟩ := exists_char h.scalar
  refine ⟨c, hc, ?_⟩
  have hseq := sequence_encode c
  rw [hc] at hseq
  exact hseq.unique h

theorem Sequence.value_unique {l : Bytes} {v v' : Nat} (h : Sequence l v)
    (h' : Sequence l v') : v = v' := by
  cases h <;> cases h' <;> omega

/-- The first byte tells how long a sequence is. -/
theorem Sequence.length_eq {l l' : Bytes} {v v' : Nat} (h : Sequence l v)
    (h' : Sequence l' v') (hhead : l.head? = l'.head?) :
    l.length = l'.length := by
  cases h <;> cases h' <;>
    simp only [List.head?_cons, Option.some.injEq] at hhead <;>
    first
    | rfl
    | (subst hhead; omega)

theorem encode_ne_nil (c : Char) : encode c ≠ [] := by
  have hrange := (sequence_encode c).range
  intro h
  rw [h, List.length_nil] at hrange
  omega

/-- No character's sequence begins another one's. -/
theorem encode_append_inj {c c' : Char} {rest rest' : Bytes}
    (h : encode c ++ rest = encode c' ++ rest') : c = c' ∧ rest = rest' := by
  have hhead : (encode c).head? = (encode c').head? := by
    rw [← List.head?_append_of_ne_nil _ (encode_ne_nil c), h,
      List.head?_append_of_ne_nil _ (encode_ne_nil c')]
  have hlen := (sequence_encode c).length_eq (sequence_encode c') hhead
  obtain ⟨hbytes, hrest⟩ := List.append_inj h hlen
  have hseq := sequence_encode c'
  rw [← hbytes] at hseq
  exact ⟨toNat_injective ((sequence_encode c).value_unique hseq), hrest⟩

/-- The characters below 128 are their own bytes. -/
theorem encode_ascii {b : UInt8} (h : b.toNat < 0x80) :
    ∃ c : Char, c.toNat = b.toNat ∧ encode c = [b] :=
  (Sequence.one h rfl).exists_encode

/-! ## Reading from left to right -/

/-- The characters of a byte string, and a `none` for every byte that starts
no sequence. -/
inductive Scan : Bytes → List (Option Char) → Prop
  | nil : Scan [] []
  | char (c : Char) {rest : Bytes} {scan : List (Option Char)}
      (h : Scan rest scan) : Scan (encode c ++ rest) (some c :: scan)
  | bad {b : UInt8} {rest : Bytes} {scan : List (Option Char)}
      (hbad : ∀ c, ¬encode c <+: b :: rest) (h : Scan rest scan) :
      Scan (b :: rest) (none :: scan)

theorem exists_scan (l : Bytes) : ∃ scan, Scan l scan := by
  induction hn : l.length using Nat.strong_induction_on generalizing l with
  | _ n ih =>
      by_cases hleads : ∃ c, encode c <+: l
      · obtain ⟨c, rest, rfl⟩ := hleads
        have hpos := List.length_pos_iff.mpr (encode_ne_nil c)
        rw [List.length_append] at hn
        obtain ⟨scan, hscan⟩ := ih _ (by omega) rest rfl
        exact ⟨_, hscan.char c⟩
      · cases l with
        | nil => exact ⟨_, Scan.nil⟩
        | cons b rest =>
            rw [List.length_cons] at hn
            obtain ⟨scan, hscan⟩ := ih _ (by omega) rest rfl
            exact ⟨_, hscan.bad fun c hc => hleads ⟨c, hc⟩⟩

/-- A byte string is read in one way. -/
theorem Scan.unique {l : Bytes} {scan scan' : List (Option Char)}
    (h : Scan l scan) (h' : Scan l scan') : scan = scan' := by
  induction h generalizing scan' with
  | nil =>
      generalize hl : ([] : Bytes) = l at h'
      cases h' with
      | nil => rfl
      | char c _ =>
          have hnil := List.append_eq_nil_iff.mp hl.symm
          exact absurd hnil.1 (encode_ne_nil c)
      | bad _ _ => exact absurd hl.symm (List.cons_ne_nil _ _)
  | @char c rest scan h ih =>
      generalize hl : encode c ++ rest = l at h'
      cases h' with
      | nil =>
          have hnil := List.append_eq_nil_iff.mp hl
          exact absurd hnil.1 (encode_ne_nil c)
      | char c' hrest =>
          obtain ⟨rfl, rfl⟩ := encode_append_inj hl
          rw [ih hrest]
      | bad hbad _ => exact absurd ⟨rest, hl⟩ (hbad c)
  | @bad b rest scan hbad h ih =>
      generalize hl : b :: rest = l at h'
      cases h' with
      | nil => exact absurd hl (List.cons_ne_nil _ _)
      | @char c rest' _ hrest => exact absurd ⟨rest', hl.symm⟩ (hbad c)
      | bad _ hrest =>
          obtain ⟨-, rfl⟩ := List.cons.inj hl
          rw [ih hrest]

/-- What the read text becomes when a character stands for every bad byte. -/
def replaced (mark : Char) (scan : List (Option Char)) : List Char :=
  scan.map fun entry => entry.getD mark

end Utf8
