import Mathlib

/-!
# Radix-two transforms

The discrete Fourier transform of `2 ^ bits` values by halves: the values in
the order of their reversed indices, and stages that join two transforms of
half the length.  `step length` is the root of unity of a length.
-/

namespace RadixTwo

/-! ## Reversed indices -/

/-- The lowest bits of a number in the opposite order. -/
def reverseBits : Nat → Nat → Nat
  | 0, _ => 0
  | bits + 1, i => 2 ^ bits * (i % 2) + reverseBits bits (i / 2)

theorem reverseBits_lt (bits i : Nat) : reverseBits bits i < 2 ^ bits := by
  induction bits generalizing i with
  | zero => exact Nat.one_pos
  | succ bits ih =>
      have hrest := ih (i / 2)
      have hbit : 2 ^ bits * (i % 2) ≤ 2 ^ bits * 1 :=
        Nat.mul_le_mul_left _ (by omega)
      rw [reverseBits, pow_succ]
      omega

@[simp] theorem reverseBits_zero (bits : Nat) : reverseBits bits 0 = 0 := by
  induction bits with
  | zero => rfl
  | succ bits ih => rw [reverseBits, Nat.zero_mod, Nat.zero_div, ih, mul_zero]

theorem reverseBits_even (bits i : Nat) :
    reverseBits (bits + 1) (2 * i) = reverseBits bits i := by
  rw [reverseBits, Nat.mul_mod_right, Nat.mul_div_cancel_left _ two_pos,
    mul_zero, zero_add]

theorem reverseBits_odd (bits i : Nat) :
    reverseBits (bits + 1) (2 * i + 1) = 2 ^ bits + reverseBits bits i := by
  have hmod : (2 * i + 1) % 2 = 1 := by omega
  have hdiv : (2 * i + 1) / 2 = i := by omega
  rw [reverseBits, hmod, hdiv, mul_one]

/-- A further bit is the lowest of the reversed index. -/
theorem reverseBits_succ (bits i : Nat) :
    reverseBits (bits + 1) i = 2 * reverseBits bits i + i / 2 ^ bits % 2 := by
  induction bits generalizing i with
  | zero => simp [reverseBits]
  | succ bits ih =>
      rw [reverseBits, ih, reverseBits, Nat.div_div_eq_div_mul, ← pow_succ',
        pow_succ]
      ring

theorem testBit_reverseBits (bits i j : Nat) :
    (reverseBits bits i).testBit j =
      (decide (j < bits) && i.testBit (bits - 1 - j)) := by
  induction bits generalizing i j with
  | zero => simp [reverseBits]
  | succ bits ih =>
      rw [reverseBits, Nat.testBit_two_pow_mul_add _ (reverseBits_lt _ _)]
      by_cases hj : j < bits
      · have hindex : bits + 1 - 1 - j = bits - 1 - j + 1 := by omega
        rw [if_pos hj, ih, hindex, Nat.testBit_add_one, decide_eq_true hj,
          decide_eq_true (hj.trans (Nat.lt_succ_self bits))]
      · rw [if_neg hj]
        by_cases hlast : j = bits
        · subst hlast
          rw [Nat.sub_self, Nat.add_sub_cancel, Nat.sub_self,
            decide_eq_true (Nat.lt_succ_self j), Bool.true_and,
            Nat.testBit_zero, Nat.testBit_zero, Nat.mod_mod]
        · have hhigh : 2 ≤ 2 ^ (j - bits) :=
            Nat.le_self_pow (by omega) 2
          rw [decide_eq_false (by omega), Bool.false_and]
          exact Nat.testBit_lt_two_pow (by omega)

theorem reverseBits_reverseBits {bits i : Nat} (h : i < 2 ^ bits) :
    reverseBits bits (reverseBits bits i) = i := by
  apply Nat.eq_of_testBit_eq
  intro j
  rw [testBit_reverseBits, testBit_reverseBits]
  by_cases hj : j < bits
  · rw [decide_eq_true hj, decide_eq_true (by omega), Bool.true_and,
      Bool.true_and]
    congr 1
    omega
  · rw [decide_eq_false hj, Bool.false_and, Nat.testBit_lt_two_pow]
    exact h.trans_le (Nat.pow_le_pow_right two_pos (not_lt.mp hj))

/-! ## Transforms by halves -/

section

variable {C : Type} [CommRing C]

def dft (n : Nat) (root : C) (x : Nat → C) (k : Nat) : C :=
  ∑ j ∈ Finset.range n, x j * root ^ (j * k)

/-- The transforms of length `2 ^ s`, one in each block of as many values. -/
def partialDft (step : Nat → C) (bits s : Nat) (x : Nat → C) (k : Nat) : C :=
  dft (2 ^ s) (step (2 ^ s))
    (fun j => x (reverseBits (bits - s) (k / 2 ^ s) + 2 ^ (bits - s) * j))
    (k % 2 ^ s)

/-- The roots of unity of the lengths, each the square of the next. -/
structure Roots (step : Nat → C) : Prop where
  square : ∀ s, step (2 ^ (s + 1)) ^ 2 = step (2 ^ s)
  half : ∀ s, step (2 ^ (s + 1)) ^ 2 ^ s = -1

variable {step : Nat → C} {bits s : Nat} {x : Nat → C}

theorem partialDft_zero (k : Nat) :
    partialDft step bits 0 x k = x (reverseBits bits k) := by
  simp [partialDft, dft]

theorem partialDft_bits {k : Nat} (hk : k < 2 ^ bits) :
    partialDft step bits bits x k = dft (2 ^ bits) (step (2 ^ bits)) x k := by
  rw [partialDft, Nat.sub_self, Nat.div_eq_of_lt hk, Nat.mod_eq_of_lt hk]
  simp

/-- A sum over an even number of terms, by pairs. -/
theorem sum_range_two_mul (n : Nat) (f : Nat → C) :
    ∑ j ∈ Finset.range (2 * n), f j =
      ∑ j ∈ Finset.range n, f (2 * j) +
        ∑ j ∈ Finset.range n, f (2 * j + 1) := by
  induction n with
  | zero => simp
  | succ n ih =>
      rw [show 2 * (n + 1) = 2 * n + 1 + 1 by ring, Finset.sum_range_succ,
        Finset.sum_range_succ, ih, Finset.sum_range_succ,
        Finset.sum_range_succ]
      ring

theorem block_div (m : Nat) {o : Nat} (ho : o < 2 ^ s) :
    (m * 2 ^ s + o) / 2 ^ s = m := by
  rw [Nat.add_comm, Nat.add_mul_div_right _ _ (Nat.two_pow_pos s),
    Nat.div_eq_of_lt ho, Nat.zero_add]

theorem block_mod (m : Nat) {o : Nat} (ho : o < 2 ^ s) :
    (m * 2 ^ s + o) % 2 ^ s = o := by
  rw [Nat.add_comm, Nat.add_mul_mod_self_right, Nat.mod_eq_of_lt ho]

/-- The transform of a block, at an exponent that need not be reduced. -/
theorem partialDft_block (hs : s < bits) (m r o e : Nat) (ho : o < 2 ^ s)
    (hr : r < 2) (he : step (2 ^ s) ^ e = step (2 ^ s) ^ o) :
    partialDft step bits s x ((2 * m + r) * 2 ^ s + o) =
      ∑ j ∈ Finset.range (2 ^ s),
        x (reverseBits (bits - (s + 1)) m + 2 ^ (bits - (s + 1)) *
          (2 * j + r)) * step (2 ^ s) ^ (j * e) := by
  have hbits : bits - s = bits - (s + 1) + 1 := by omega
  have hstart : reverseBits (bits - s) (2 * m + r) =
      2 ^ (bits - (s + 1)) * r + reverseBits (bits - (s + 1)) m := by
    rw [hbits]
    obtain rfl | rfl : r = 0 ∨ r = 1 := by omega
    · rw [Nat.add_zero (2 * m), reverseBits_even, mul_zero, zero_add]
    · rw [reverseBits_odd, mul_one]
  rw [partialDft, dft, block_div _ ho, block_mod _ ho]
  refine Finset.sum_congr rfl fun j _ => ?_
  have hpow : step (2 ^ s) ^ (j * e) = step (2 ^ s) ^ (j * o) := by
    rw [mul_comm j e, mul_comm j o, pow_mul, pow_mul, he]
  have hindex : reverseBits (bits - s) (2 * m + r) + 2 ^ (bits - s) * j =
      reverseBits (bits - (s + 1)) m +
        2 ^ (bits - (s + 1)) * (2 * j + r) := by
    rw [hstart, hbits, pow_succ]
    ring
  rw [hindex, hpow]

/-- A stage joins the transforms of the even and of the odd values. -/
theorem partialDft_succ (hroots : Roots step) (hs : s < bits) (m o e : Nat)
    (ho : o < 2 ^ s) (he : e < 2 ^ (s + 1))
    (heo : step (2 ^ s) ^ e = step (2 ^ s) ^ o) :
    partialDft step bits (s + 1) x (m * 2 ^ (s + 1) + e) =
      partialDft step bits s x (2 * m * 2 ^ s + o) +
        partialDft step bits s x ((2 * m + 1) * 2 ^ s + o) *
          step (2 ^ (s + 1)) ^ e := by
  have heven := partialDft_block (x := x) hs m 0 o e ho two_pos heo
  have hodd := partialDft_block (x := x) hs m 1 o e ho one_lt_two heo
  rw [Nat.add_zero (2 * m)] at heven
  rw [heven, hodd, partialDft, dft, block_div _ he, block_mod _ he,
    show 2 ^ (s + 1) = 2 * 2 ^ s by ring, sum_range_two_mul, Finset.sum_mul]
  congr 1
  · refine Finset.sum_congr rfl fun j _ => ?_
    have hpow : step (2 * 2 ^ s) ^ (2 * j * e) = step (2 ^ s) ^ (j * e) := by
      rw [← hroots.square s, ← pow_mul, pow_succ']
      ring
    rw [hpow, Nat.add_zero (2 * j)]
  · refine Finset.sum_congr rfl fun j _ => ?_
    have hpow : step (2 * 2 ^ s) ^ ((2 * j + 1) * e) =
        step (2 ^ s) ^ (j * e) * step (2 * 2 ^ s) ^ e := by
      rw [← hroots.square s, ← pow_mul, ← pow_succ', ← pow_add]
      ring_nf
    rw [hpow, mul_assoc]

namespace Roots

theorem pow_two_pow (h : Roots step) (s : Nat) :
    step (2 ^ s) ^ 2 ^ s = 1 := by
  rw [← h.square s, ← pow_mul, mul_comm, pow_mul, h.half s]
  ring

/-- The first half of a block. -/
theorem partialDft_low (h : Roots step) (hs : s < bits) (m : Nat) {o : Nat}
    (ho : o < 2 ^ s) :
    partialDft step bits (s + 1) x (m * 2 ^ (s + 1) + o) =
      partialDft step bits s x (2 * m * 2 ^ s + o) +
        partialDft step bits s x ((2 * m + 1) * 2 ^ s + o) *
          step (2 ^ (s + 1)) ^ o := by
  refine partialDft_succ h hs m o o ho ?_ rfl
  rw [pow_succ]
  omega

/-- The second half of a block. -/
theorem partialDft_high (h : Roots step) (hs : s < bits) (m : Nat) {o : Nat}
    (ho : o < 2 ^ s) :
    partialDft step bits (s + 1) x (m * 2 ^ (s + 1) + (o + 2 ^ s)) =
      partialDft step bits s x (2 * m * 2 ^ s + o) -
        partialDft step bits s x ((2 * m + 1) * 2 ^ s + o) *
          step (2 ^ (s + 1)) ^ o := by
  have hexp : step (2 ^ s) ^ (o + 2 ^ s) = step (2 ^ s) ^ o := by
    rw [pow_add, h.pow_two_pow, mul_one]
  rw [partialDft_succ h hs m o (o + 2 ^ s) ho (by rw [pow_succ]; omega) hexp,
    pow_add, h.half s]
  ring

/-- The root of a length is primitive. -/
theorem isPrimitiveRoot (h : Roots step) (hneg : (-1 : C) ≠ 1) (s : Nat) :
    IsPrimitiveRoot (step (2 ^ (s + 1))) (2 ^ (s + 1)) := by
  rw [IsPrimitiveRoot.iff_orderOf]
  apply orderOf_eq_prime_pow
  · rw [h.half s]
    exact hneg
  · exact h.pow_two_pow (s + 1)

end Roots

/-! ## The inverse transform -/

/-- The powers of a root that is not one add up to zero. -/
theorem sum_pow_eq_zero [IsDomain C] {n : Nat} {z : C} (hz : z ^ n = 1)
    (hne : z ≠ 1) : ∑ k ∈ Finset.range n, z ^ k = 0 := by
  have hmul := geom_sum_mul z n
  rw [hz, sub_self] at hmul
  exact (mul_eq_zero.mp hmul).resolve_right (sub_ne_zero.mpr hne)

/-- A transform with the inverse root takes a transform back. -/
theorem dft_dft [IsDomain C] {n : Nat} {root inverse : C}
    (hroot : IsPrimitiveRoot root n) (hinverse : root * inverse = 1)
    {y : Nat → C} (hy : ∀ k < n, y k = dft n root x k) {i : Nat}
    (hi : i < n) : dft n inverse y i = n * x i := by
  have hone : inverse ^ n = 1 := by
    have hpow := congrArg (· ^ n) hinverse
    simpa [mul_pow, hroot.pow_eq_one] using hpow
  have hsum : ∀ j ∈ Finset.range n,
      ∑ k ∈ Finset.range n, x j * (root ^ j * inverse ^ i) ^ k =
        if j = i then n * x i else 0 := by
    intro j hj
    rw [Finset.mem_range] at hj
    rw [← Finset.mul_sum]
    by_cases hji : j = i
    · subst hji
      rw [if_pos rfl, ← mul_pow, hinverse]
      simp [mul_comm]
    · rw [if_neg hji, sum_pow_eq_zero, mul_zero]
      · rw [mul_pow, ← pow_mul, ← pow_mul, mul_comm j, mul_comm i, pow_mul,
          pow_mul, hroot.pow_eq_one, hone, one_pow, one_pow, one_mul]
      · intro heq
        have hpow : root ^ j = root ^ i := by
          calc root ^ j = root ^ j * (root * inverse) ^ i := by
                rw [hinverse, one_pow, mul_one]
            _ = root ^ j * inverse ^ i * root ^ i := by rw [mul_pow]; ring
            _ = root ^ i := by rw [heq, one_mul]
        exact hji (hroot.pow_inj hj hi hpow)
  calc dft n inverse y i
      = ∑ k ∈ Finset.range n, ∑ j ∈ Finset.range n,
          x j * (root ^ j * inverse ^ i) ^ k := by
        refine Finset.sum_congr rfl fun k hk => ?_
        rw [hy k (Finset.mem_range.mp hk), dft, Finset.sum_mul]
        refine Finset.sum_congr rfl fun j _ => ?_
        rw [mul_pow, ← pow_mul, ← pow_mul, mul_comm i k, mul_assoc]
    _ = ∑ j ∈ Finset.range n, if j = i then n * x i else 0 := by
        rw [Finset.sum_comm]
        exact Finset.sum_congr rfl hsum
    _ = n * x i := by
        rw [Finset.sum_ite_eq', if_pos (Finset.mem_range.mpr hi)]

/-- The transform of real values at the mirror index. -/
theorem dft_mirror [StarRing C] {n : Nat} {root : C} (hone : root ^ n = 1)
    (hstar : root * star root = 1) (hx : ∀ j < n, star (x j) = x j) {k : Nat}
    (hk : k ≤ n) : dft n root x (n - k) = star (dft n root x k) := by
  rw [dft, dft, star_sum]
  refine Finset.sum_congr rfl fun j hj => ?_
  rw [star_mul', star_pow, hx j (Finset.mem_range.mp hj)]
  congr 1
  calc root ^ (j * (n - k))
      = root ^ (j * (n - k)) * (root * star root) ^ (j * k) := by
        rw [hstar, one_pow, mul_one]
    _ = root ^ (j * (n - k) + j * k) * star root ^ (j * k) := by
        rw [mul_pow, pow_add, mul_assoc]
    _ = star root ^ (j * k) := by
        rw [← Nat.mul_add, Nat.sub_add_cancel hk, mul_comm j n, pow_mul, hone,
          one_pow, one_mul]

end

end RadixTwo
