import Audiox.Support.RadixTwo
import Mathlib

/-!
# The transform of the effects

`fftComplex` transforms an array of complex numbers in place: a loop that swaps
the values at reversed indices, and the stages of butterflies.  The numbers are
of any type with the operations that the loops use.
-/

namespace Audiox.Fft

open RadixTwo

variable {C : Type}

/-! ## The order of the values -/

def swap (data : Nat → C) (i j : Nat) : Nat → C :=
  Function.update (Function.update data i (data j)) j (data i)

/-- The next reversed index; the loop of at most 32 bits. -/
def advance : Nat → Nat → Nat → Nat
  | 0, bit, j => j + bit
  | fuel + 1, bit, j =>
      if bit ≠ 0 ∧ bit ≤ j then advance fuel (bit / 2) (j - bit) else j + bit

def reversal (n : Nat) (state : (Nat → C) × Nat) (i : Nat) :
    (Nat → C) × Nat :=
  (if i < state.2 then swap state.1 i state.2 else state.1,
    advance 32 (n / 2) state.2)

theorem reversal_fst (n : Nat) (state : (Nat → C) × Nat) (i : Nat) :
    (reversal n state i).1 =
      if i < state.2 then swap state.1 i state.2 else state.1 := rfl

def reversed (n : Nat) (data : Nat → C) : Nat → C :=
  ((List.range (n - 1)).foldl (reversal n) (data, 0)).1

/-! ## The stages -/

section

variable [Add C] [Sub C] [Mul C]

def butterfly (data : Nat → C) (even odd : Nat) (twiddle : C) : Nat → C :=
  Function.update
    (Function.update data even (data even + data odd * twiddle))
    odd (data even - data odd * twiddle)

/-- One pass of the loop over the offsets. -/
def butterflyAt (step : C) (half base : Nat) (state : (Nat → C) × C)
    (offset : Nat) : (Nat → C) × C :=
  (butterfly state.1 (base + offset) (base + offset + half) state.2,
    state.2 * step)

def butterflies (one step : C) (half base : Nat) (data : Nat → C) : Nat → C :=
  ((List.range half).foldl (butterflyAt step half base) (data, one)).1

def stage (one step : C) (n length : Nat) (data : Nat → C) : Nat → C :=
  (List.range ((n + length - 1) / length)).foldl
    (fun data block =>
      butterflies one step (length / 2) (block * length) data) data

/-- The stages from a length on; a length has at most 32 bits. -/
def stages (one : C) (step : Nat → C) (n : Nat) :
    Nat → Nat → (Nat → C) → Nat → C
  | 0, _, data => data
  | fuel + 1, length, data =>
      if length ≤ n then
        stages one step n fuel (2 * length)
          (stage one (step length) n length data)
      else data

/-- `step length` has the angle of one part of a turn in `length` parts. -/
def fftComplex (one : C) (step : Nat → C) (n : Nat) (data : Nat → C) :
    Nat → C :=
  stages one step n 32 2 (reversed n data)

end

/-! ## Reversed indices -/

theorem advance_reverseBits {bits fuel i : Nat} (hfuel : bits ≤ fuel)
    (hi : i + 1 < 2 ^ bits) :
    advance fuel (2 ^ bits / 2) (reverseBits bits i) =
      reverseBits bits (i + 1) := by
  induction bits generalizing fuel i with
  | zero => omega
  | succ bits ih =>
      obtain ⟨fuel, rfl⟩ : ∃ m, fuel = m + 1 := ⟨fuel - 1, by omega⟩
      have hbit : 2 ^ (bits + 1) / 2 = 2 ^ bits := by
        rw [pow_succ, Nat.mul_div_cancel _ two_pos]
      have hpos : 2 ^ bits ≠ 0 := (Nat.two_pow_pos bits).ne'
      rw [pow_succ] at hi
      rw [hbit, advance]
      obtain ⟨m, rfl | rfl⟩ := Nat.even_or_odd' i
      · have hlt := reverseBits_lt bits m
        rw [reverseBits_even, if_neg (by omega), reverseBits_odd,
          Nat.add_comm]
      · rw [reverseBits_odd, if_pos ⟨hpos, Nat.le_add_right _ _⟩,
          Nat.add_sub_cancel_left, ih (Nat.le_of_succ_le_succ hfuel) (by omega),
          show 2 * m + 1 + 1 = 2 * (m + 1) by ring, reverseBits_even]

/-- The values after some passes of the loop. -/
theorem reversal_range {bits : Nat} (hbits : bits ≤ 32) (data : Nat → C)
    {m : Nat} (hm : m < 2 ^ bits) :
    ((List.range m).foldl (reversal (2 ^ bits)) (data, 0)).2 =
        reverseBits bits m ∧
      ∀ k < 2 ^ bits,
        ((List.range m).foldl (reversal (2 ^ bits)) (data, 0)).1 k =
          if min k (reverseBits bits k) < m then data (reverseBits bits k)
          else data k := by
  induction m with
  | zero => exact ⟨(reverseBits_zero bits).symm, fun k _ => by simp⟩
  | succ m ih =>
      obtain ⟨hindex, hdata⟩ := ih (by omega)
      have hback := reverseBits_reverseBits (show m < 2 ^ bits by omega)
      rw [List.range_succ, List.foldl_append, List.foldl_cons,
        List.foldl_nil, reversal_fst, reversal, hindex]
      refine ⟨advance_reverseBits hbits hm, ?_⟩
      intro k hk
      have hkback := reverseBits_reverseBits hk
      by_cases hswap : m < reverseBits bits m
      · rw [if_pos hswap, swap, hdata m (by omega),
          hdata _ (reverseBits_lt bits m), hback, if_neg (by omega),
          if_neg (by omega)]
        by_cases hkr : k = reverseBits bits m
        · rw [hkr, Function.update_self, hback, if_pos (by omega)]
        · rw [Function.update_of_ne hkr]
          by_cases hkm : k = m
          · rw [hkm, Function.update_self, if_pos (by omega)]
          · have hother : reverseBits bits k ≠ m := by
              rintro rfl
              exact hkr hkback.symm
            rw [Function.update_of_ne hkm, hdata k hk]
            congr 1
            rw [eq_iff_iff]
            omega
      · rw [if_neg hswap, hdata k hk]
        by_cases hmin : min k (reverseBits bits k) = m
        · have hfix : reverseBits bits k = k := by
            by_cases hkm : k = m
            · subst hkm
              omega
            · have hrm : reverseBits bits k = m := by omega
              rw [hrm] at hkback
              omega
          rw [hfix]
          simp only [ite_self]
        · congr 1
          rw [eq_iff_iff]
          omega

theorem reversed_apply {bits : Nat} (hbits : bits ≤ 32) (data : Nat → C)
    {k : Nat} (hk : k < 2 ^ bits) :
    reversed (2 ^ bits) data k = data (reverseBits bits k) := by
  have hpos := Nat.two_pow_pos bits
  have hr := reverseBits_lt bits k
  rw [reversed, (reversal_range hbits data (by omega)).2 k hk]
  by_cases hlast : min k (reverseBits bits k) < 2 ^ bits - 1
  · rw [if_pos hlast]
  · rw [if_neg hlast, show reverseBits bits k = k by omega]

/-! ## Butterflies -/

section

variable [CommRing C] {one step : C}

/-- What a block of butterflies leaves at an offset. -/
def joined (step : C) (half base : Nat) (data : Nat → C) (k : Nat) : C :=
  if k < base + half then data k + data (k + half) * step ^ (k - base)
  else data (k - half) - data k * step ^ (k - half - base)

theorem butterflies_range (half base : Nat) (data : Nat → C) {m : Nat}
    (hm : m ≤ half) :
    ((List.range m).foldl (butterflyAt step half base) (data, 1)).2 =
        step ^ m ∧
      ∀ k, ((List.range m).foldl (butterflyAt step half base) (data, 1)).1 k =
        if base ≤ k ∧ k < base + m ∨
            base + half ≤ k ∧ k < base + half + m then
          joined step half base data k
        else data k := by
  induction m with
  | zero => exact ⟨(pow_zero _).symm, fun k => by rw [if_neg (by omega)]; rfl⟩
  | succ m ih =>
      obtain ⟨htwiddle, hdata⟩ := ih (by omega)
      rw [List.range_succ, List.foldl_append, List.foldl_cons, List.foldl_nil,
        butterflyAt, htwiddle, butterfly, hdata, hdata, if_neg (by omega),
        if_neg (by omega)]
      refine ⟨(pow_succ _ _).symm, ?_⟩
      intro k
      dsimp only
      by_cases hodd : k = base + m + half
      · rw [hodd, Function.update_self, if_pos (by omega), joined,
          if_neg (by omega), Nat.add_sub_cancel, Nat.add_sub_cancel_left]
      · rw [Function.update_of_ne hodd]
        by_cases heven : k = base + m
        · rw [heven, Function.update_self, if_pos (by omega), joined,
            if_pos (by omega), Nat.add_sub_cancel_left]
        · rw [Function.update_of_ne heven, hdata]
          congr 1
          rw [eq_iff_iff]
          omega

theorem butterflies_apply (half base : Nat) (data : Nat → C) (k : Nat) :
    butterflies 1 step half base data k =
      if base ≤ k ∧ k < base + 2 * half then joined step half base data k
      else data k := by
  rw [butterflies, (butterflies_range half base data le_rfl).2]
  congr 1
  rw [eq_iff_iff]
  omega

/-- What a stage leaves at an index. -/
def staged (step : C) (half : Nat) (data : Nat → C) (k : Nat) : C :=
  joined step half (k / (2 * half) * (2 * half)) data k

theorem stage_range (half : Nat) (hhalf : 0 < half) (data : Nat → C)
    (m k : Nat) :
    (List.range m).foldl
        (fun data block => butterflies 1 step half (block * (2 * half)) data)
        data k =
      if k < m * (2 * half) then staged step half data k else data k := by
  induction m generalizing k with
  | zero => simp
  | succ m ih =>
      rw [List.range_succ, List.foldl_append, List.foldl_cons, List.foldl_nil,
        butterflies_apply]
      have hsucc : (m + 1) * (2 * half) = m * (2 * half) + 2 * half := by ring
      by_cases hblock : m * (2 * half) ≤ k ∧ k < m * (2 * half) + 2 * half
      · have hdiv : k / (2 * half) = m :=
          Nat.div_eq_of_lt_le hblock.1 (by rw [hsucc]; exact hblock.2)
        rw [if_pos hblock, hsucc, if_pos hblock.2, staged, hdiv, joined,
          joined]
        by_cases hlow : k < m * (2 * half) + half
        · rw [if_pos hlow, if_pos hlow, ih, ih, if_neg (by omega),
            if_neg (by omega)]
        · rw [if_neg hlow, if_neg hlow, ih, ih, if_neg (by omega),
            if_neg (by omega)]
      · rw [if_neg hblock, ih, hsucc]
        congr 1
        rw [eq_iff_iff]
        omega

theorem stage_apply {half : Nat} (hhalf : 0 < half) (blocks : Nat)
    (data : Nat → C) {k : Nat} (hk : k < blocks * (2 * half)) :
    stage 1 step (blocks * (2 * half)) (2 * half) data k =
      staged step half data k := by
  have hcount : (blocks * (2 * half) + 2 * half - 1) / (2 * half) =
      blocks := by
    rw [Nat.add_sub_assoc (by omega), Nat.add_comm, Nat.add_mul_div_right _ _
      (by omega), Nat.div_eq_of_lt (by omega), Nat.zero_add]
  rw [stage, hcount, Nat.mul_div_cancel_left _ two_pos,
    stage_range half hhalf, if_pos hk]

/-! ## The whole transform -/

variable {steps : Nat → C} {bits : Nat} {x : Nat → C}

/-- A stage takes the transforms of one length to those of the next. -/
theorem stage_partialDft (hroots : Roots steps) {s : Nat} (hs : s < bits)
    {data : Nat → C}
    (hdata : ∀ k < 2 ^ bits, data k = partialDft steps bits s x k) {k : Nat}
    (hk : k < 2 ^ bits) :
    stage 1 (steps (2 ^ (s + 1))) (2 ^ bits) (2 ^ (s + 1)) data k =
      partialDft steps bits (s + 1) x k := by
  have hlength : 2 ^ (s + 1) = 2 * 2 ^ s := by ring
  have hbits : 2 ^ bits = 2 ^ (bits - (s + 1)) * (2 * 2 ^ s) := by
    rw [← hlength, ← pow_add]
    congr 1
    omega
  have hfits := hk
  rw [hbits] at hk
  rw [hlength, hbits, stage_apply (Nat.two_pow_pos s) _ _ hk, staged, joined]
  have hdiv := Nat.div_add_mod k (2 * 2 ^ s)
  have hmod := Nat.mod_lt k (show 0 < 2 * 2 ^ s by positivity)
  obtain ⟨m, hm⟩ : ∃ m, m = k / (2 * 2 ^ s) := ⟨_, rfl⟩
  obtain ⟨o, ho⟩ : ∃ o, o = k % (2 * 2 ^ s) := ⟨_, rfl⟩
  rw [← hm, ← ho] at hdiv
  rw [← ho] at hmod
  rw [← hm, ← hlength]
  have hbase : m * 2 ^ (s + 1) = 2 * m * 2 ^ s := by rw [hlength]; ring
  have hnext : (2 * m + 1) * 2 ^ s = 2 * m * 2 ^ s + 2 ^ s := by ring
  have hblock : 2 * 2 ^ s * m = 2 * m * 2 ^ s := by ring
  rw [hblock] at hdiv
  have hroom : 2 * m * 2 ^ s + 2 * 2 ^ s ≤ 2 ^ bits := by
    have hlt : m < 2 ^ (bits - (s + 1)) := by
      rw [hm]
      exact Nat.div_lt_of_lt_mul (by rwa [Nat.mul_comm])
    calc 2 * m * 2 ^ s + 2 * 2 ^ s = (m + 1) * (2 * 2 ^ s) := by ring
      _ ≤ 2 ^ (bits - (s + 1)) * (2 * 2 ^ s) :=
        Nat.mul_le_mul_right _ hlt
      _ = 2 ^ bits := hbits.symm
  by_cases hlow : o < 2 ^ s
  · rw [if_pos (by omega), hdata k hfits, hdata _ (by omega),
      show k = m * 2 ^ (s + 1) + o by omega,
      hroots.partialDft_low hs m hlow, hbase, hnext, Nat.add_sub_cancel_left]
    congr 3
    omega
  · rw [if_neg (by omega), hdata k hfits, hdata _ (by omega)]
    obtain ⟨o, rfl⟩ : ∃ o', o = o' + 2 ^ s := ⟨o - 2 ^ s, by omega⟩
    have hk' : k = m * 2 ^ (s + 1) + (o + 2 ^ s) := by omega
    have hlowIndex : k - 2 ^ s = 2 * m * 2 ^ s + o := by omega
    have hhighIndex : k = (2 * m + 1) * 2 ^ s + o := by omega
    have hoffset : k - 2 ^ s - m * 2 ^ (s + 1) = o := by omega
    conv_rhs => rw [hk', hroots.partialDft_high hs m (by omega)]
    rw [hoffset, hlowIndex, ← hhighIndex]

theorem stages_partialDft (hroots : Roots steps) {s fuel : Nat}
    (hs : s ≤ bits) (hfuel : bits - s ≤ fuel) {data : Nat → C}
    (hdata : ∀ k < 2 ^ bits, data k = partialDft steps bits s x k) {k : Nat}
    (hk : k < 2 ^ bits) :
    stages 1 steps (2 ^ bits) fuel (2 ^ (s + 1)) data k =
      partialDft steps bits bits x k := by
  induction fuel generalizing s data with
  | zero =>
      obtain rfl : s = bits := by omega
      exact hdata k hk
  | succ fuel ih =>
      rw [stages]
      by_cases hlast : s = bits
      · subst hlast
        rw [if_neg (by rw [pow_succ]; omega)]
        exact hdata k hk
      · have hlt : s < bits := by omega
        rw [if_pos (Nat.pow_le_pow_right two_pos hlt), ← pow_succ']
        exact ih hlt (by omega)
          (fun k hk => stage_partialDft hroots hlt hdata hk)

/-- The transform computes the sums of the discrete Fourier transform. -/
theorem fftComplex_eq_dft (hroots : Roots steps) (hbits : bits ≤ 32)
    {k : Nat} (hk : k < 2 ^ bits) :
    fftComplex 1 steps (2 ^ bits) x k =
      dft (2 ^ bits) (steps (2 ^ bits)) x k := by
  rw [← partialDft_bits hk, fftComplex]
  refine stages_partialDft (s := 0) hroots (Nat.zero_le _) (by omega) ?_ hk
  intro i hi
  rw [partialDft_zero, reversed_apply hbits x hi]

end

/-! ## Other numbers -/

section

variable {D : Type} [Add C] [Sub C] [Mul C] [Add D] [Sub D] [Mul D]
  {f : C → D}

omit [Add C] [Sub C] [Mul C] [Add D] [Sub D] [Mul D] in
theorem comp_reversed (n : Nat) (data : Nat → C) :
    f ∘ reversed n data = reversed n (f ∘ data) := by
  have hloop : ∀ (indices : List Nat) (state : (Nat → C) × Nat),
      indices.foldl (reversal n) (f ∘ state.1, state.2) =
        (f ∘ (indices.foldl (reversal n) state).1,
          (indices.foldl (reversal n) state).2) := by
    intro indices
    induction indices with
    | nil => exact fun _ => rfl
    | cons i indices ih =>
        intro state
        rw [List.foldl_cons, List.foldl_cons, ← ih]
        congr 1
        rw [reversal, reversal]
        dsimp only
        split
        · rw [swap, swap, Function.comp_update, Function.comp_update]
          rfl
        · rfl
  rw [reversed, reversed, hloop _ (data, 0)]

/-- The operations of the loops are kept. -/
structure Preserves (f : C → D) : Prop where
  add : ∀ a b, f (a + b) = f a + f b
  sub : ∀ a b, f (a - b) = f a - f b
  mul : ∀ a b, f (a * b) = f a * f b

namespace Preserves

theorem butterflies (h : Preserves f) (one step : C) (half base : Nat)
    (data : Nat → C) :
    f ∘ Fft.butterflies one step half base data =
      Fft.butterflies (f one) (f step) half base (f ∘ data) := by
  have hloop : ∀ (offsets : List Nat) (state : (Nat → C) × C),
      offsets.foldl (butterflyAt (f step) half base)
          (f ∘ state.1, f state.2) =
        (f ∘ (offsets.foldl (butterflyAt step half base) state).1,
          f (offsets.foldl (butterflyAt step half base) state).2) := by
    intro offsets
    induction offsets with
    | nil => exact fun _ => rfl
    | cons offset offsets ih =>
        intro state
        rw [List.foldl_cons, List.foldl_cons, ← ih]
        congr 1
        rw [butterflyAt, butterflyAt, butterfly, butterfly,
          Function.comp_update, Function.comp_update, h.add, h.sub, h.mul,
          h.mul]
        rfl
  rw [Fft.butterflies, Fft.butterflies, hloop _ (data, one)]

theorem stage (h : Preserves f) (one step : C) (n length : Nat)
    (data : Nat → C) :
    f ∘ Fft.stage one step n length data =
      Fft.stage (f one) (f step) n length (f ∘ data) := by
  rw [Fft.stage, Fft.stage]
  generalize List.range ((n + length - 1) / length) = blocks
  induction blocks generalizing data with
  | nil => rfl
  | cons block blocks ih =>
      rw [List.foldl_cons, List.foldl_cons, ih, h.butterflies]

theorem stages (h : Preserves f) (one : C) (step : Nat → C)
    (n fuel length : Nat) (data : Nat → C) :
    f ∘ Fft.stages one step n fuel length data =
      Fft.stages (f one) (f ∘ step) n fuel length (f ∘ data) := by
  induction fuel generalizing length data with
  | zero => rfl
  | succ fuel ih =>
      rw [Fft.stages, Fft.stages]
      split
      · rw [ih, h.stage]
        rfl
      · rfl

theorem fftComplex (h : Preserves f) (one : C) (step : Nat → C) (n : Nat)
    (data : Nat → C) :
    f ∘ Fft.fftComplex one step n data =
      Fft.fftComplex (f one) (f ∘ step) n (f ∘ data) := by
  rw [Fft.fftComplex, Fft.fftComplex, h.stages, comp_reversed]

end Preserves

end

end Audiox.Fft
