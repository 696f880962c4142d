import Audiox.Audio.FftArrays
import Audiox.Audio.NoiseReductionExact
import Mathlib

/-!
# Transforms of arrays in exact arithmetic

With real numbers both transforms make the Fourier sums of their data, and no
index is outside an array, for every size whose lengths fit in 32 bits.
-/

namespace Audiox.FftArrays

open CountedLoop RadixTwo

/-! ## Arrays of complex numbers -/

/-- The parts of complex numbers in turn. -/
def interleave (n : Nat) (z : Nat → ℂ) : List ℝ :=
  (List.range (2 * n)).map fun k =>
    if k % 2 = 0 then (z (k / 2)).re else (z (k / 2)).im

variable {n : Nat} {z : Nat → ℂ} {i j : Nat} {w : ℂ}

@[simp] theorem length_interleave (n : Nat) (z : Nat → ℂ) :
    (interleave n z).length = 2 * n := by
  rw [interleave, List.length_map, List.length_range]

theorem getElem?_interleave (z : Nat → ℂ) {k : Nat} (hk : k < 2 * n) :
    (interleave n z)[k]? =
      some (if k % 2 = 0 then (z (k / 2)).re else (z (k / 2)).im) := by
  rw [interleave, List.getElem?_map, List.getElem?_range hk]
  rfl

theorem getElem?_re (z : Nat → ℂ) (hi : i < n) :
    (interleave n z)[i * 2]? = some (z i).re := by
  rw [getElem?_interleave z (by omega), if_pos (by omega),
    Nat.mul_div_cancel _ two_pos]

theorem getElem?_im (z : Nat → ℂ) (hi : i < n) :
    (interleave n z)[i * 2 + 1]? = some (z i).im := by
  have hhalf : (i * 2 + 1) / 2 = i := by omega
  rw [getElem?_interleave z (by omega), if_neg (by omega), hhalf]

theorem interleave_congr {y : Nat → ℂ} (h : ∀ k < n, z k = y k) :
    interleave n z = interleave n y := by
  apply List.map_congr_left
  intro k hk
  have hlt := List.mem_range.mp hk
  rw [h (k / 2) (by omega)]

theorem set_interleave (z : Nat → ℂ) (i : Nat) (w : ℂ) :
    ((interleave n z).set (i * 2) w.re).set (i * 2 + 1) w.im =
      interleave n (Function.update z i w) := by
  apply List.ext_getElem?
  intro k
  by_cases hk : k < 2 * n
  · rw [getElem?_interleave _ hk, List.getElem?_set, List.getElem?_set,
      List.length_set, length_interleave, getElem?_interleave _ hk]
    by_cases him : i * 2 + 1 = k
    · have hhalf : k / 2 = i := by omega
      rw [if_pos him, if_pos (by omega), if_neg (by omega), hhalf,
        Function.update_self]
    · rw [if_neg him]
      by_cases hre : i * 2 = k
      · have hhalf : k / 2 = i := by omega
        rw [if_pos hre, if_pos (by omega), if_pos (by omega), hhalf,
          Function.update_self]
      · rw [if_neg hre, Function.update_of_ne (by omega)]
  · rw [List.getElem?_eq_none (by simpa using hk),
      List.getElem?_eq_none (by simpa using hk)]

theorem store_of_lt {α : Type} {data : List α} {i : Nat} (v : α)
    (h : i < data.length) : store data i v = some (data.set i v) :=
  if_pos h

theorem swap_of_getElem? {α : Type} {data : List α} {i j : Nat} {a b : α}
    (ha : data[i]? = some a) (hb : data[j]? = some b) :
    swap data i j = some ((data.set i b).set j a) := by
  have hi := (List.getElem?_eq_some_iff.mp ha).1
  have hj := (List.getElem?_eq_some_iff.mp hb).1
  rw [swap, ha, hb]
  simp only [Option.bind_eq_bind, Option.bind_some]
  rw [store_of_lt _ hi, Option.bind_some, store_of_lt _ (by simpa using hj)]

theorem swapPair_interleave (z : Nat → ℂ) (hi : i < n) (hj : j < n) :
    swapPair (interleave n z) i j = some (interleave n (Fft.swap z i j)) := by
  have hother : ∀ {k : Nat} (a b : ℝ), i * 2 ≠ k → j * 2 ≠ k →
      (((interleave n z).set (i * 2) a).set (j * 2) b)[k]? =
        (interleave n z)[k]? := by
    intro k a b hik hjk
    rw [List.getElem?_set_ne hjk, List.getElem?_set_ne hik]
  have him : (((interleave n z).set (i * 2) (z j).re).set (j * 2)
      (z i).re)[i * 2 + 1]? = some (z i).im := by
    rw [hother _ _ (by omega) (by omega), getElem?_im z hi]
  have hjm : (((interleave n z).set (i * 2) (z j).re).set (j * 2)
      (z i).re)[j * 2 + 1]? = some (z j).im := by
    rw [hother _ _ (by omega) (by omega), getElem?_im z hj]
  rw [swapPair, swap_of_getElem? (getElem?_re z hi) (getElem?_re z hj)]
  simp only [Option.bind_eq_bind, Option.bind_some]
  rw [swap_of_getElem? him hjm,
    List.set_comm _ _ (by omega : j * 2 ≠ i * 2 + 1), set_interleave,
    set_interleave]
  rfl

theorem butterfly_interleave (z : Nat → ℂ) (hi : i < n) (hj : j < n) :
    butterfly (interleave n z) i j w.re w.im =
      some (interleave n (Fft.butterfly z i j w)) := by
  have hre : ((z j) * w).re = (z j).re * w.re - (z j).im * w.im :=
    Complex.mul_re _ _
  have him : ((z j) * w).im = (z j).re * w.im + (z j).im * w.re :=
    Complex.mul_im _ _
  simp only [butterfly, getElem?_re z hi, getElem?_im z hi, getElem?_re z hj,
    getElem?_im z hj, Option.bind_eq_bind, Option.bind_some]
  rw [store_of_lt _ (by simp; omega), Option.bind_some,
    store_of_lt _ (by simp; omega), Option.bind_some,
    store_of_lt _ (by simp; omega), Option.bind_some,
    store_of_lt _ (by simp; omega), ← hre, ← him, ← Complex.add_re,
    ← Complex.add_im, ← Complex.sub_re, ← Complex.sub_im, set_interleave,
    set_interleave]
  rfl

/-! ## Loops -/

variable {bits s : Nat} {steps : Nat → ℂ}

/-- The loop over the lengths, for sizes below the largest. -/
theorem lengths_eq_foldlM {fuel : Nat} (hbits : bits ≤ 30) (hfuel : bits < fuel)
    {σ : Type} (body : Nat → σ → Option σ) (data : σ) :
    forLoop fuel (· ≤ 2 ^ bits) double body 2 data =
      (List.range bits).foldlM (fun data s => body (2 ^ (s + 1)) data) data := by
  apply forLoop_eq_foldlM (i := fun s => 2 ^ (s + 1)) (m := bits) _ _ _ hfuel data
  · intro s hs
    exact decide_eq_true (Nat.pow_le_pow_right two_pos hs)
  · exact decide_eq_false (Nat.not_le.mpr (Nat.pow_lt_pow_right (by omega)
      (Nat.lt_succ_self bits)))
  · intro s hs
    have hlt : 2 ^ (s + 2) < 2 ^ 32 :=
      Nat.pow_lt_pow_right (by omega) (by omega)
    rw [double, ← pow_succ', Nat.mod_eq_of_lt hlt]

/-- The loop over the blocks of a length. -/
theorem blocks_eq_foldlM {fuel : Nat} (hbits : bits ≤ 30) (hs : s < bits)
    (hfuel : 2 ^ bits < fuel) {σ : Type} (body : Nat → σ → Option σ)
    (data : σ) :
    forLoop fuel (· < 2 ^ bits) (advance (2 ^ (s + 1))) body 0 data =
      (List.range (2 ^ (bits - (s + 1)))).foldlM
        (fun data m => body (m * 2 ^ (s + 1)) data) data := by
  have hsize : 2 ^ bits = 2 ^ (bits - (s + 1)) * 2 ^ (s + 1) := by
    rw [← pow_add]
    congr 1
    omega
  have hcount : 2 ^ (bits - (s + 1)) ≤ 2 ^ bits :=
    Nat.pow_le_pow_right two_pos (Nat.sub_le _ _)
  have hsmall : 2 ^ bits < 2 ^ 32 :=
    Nat.pow_lt_pow_right (by omega) (by omega)
  have hzero : 0 = 0 * 2 ^ (s + 1) := (Nat.zero_mul _).symm
  rw [hzero]
  apply forLoop_eq_foldlM (i := fun m => m * 2 ^ (s + 1))
    (m := 2 ^ (bits - (s + 1))) _ _ _ (by omega) data
  · intro m hm
    rw [hsize]
    exact decide_eq_true (Nat.mul_lt_mul_of_pos_right hm (Nat.two_pow_pos _))
  · exact decide_eq_false (by rw [hsize]; exact lt_irrefl _)
  · intro m hm
    have hle : (m + 1) * 2 ^ (s + 1) ≤ 2 ^ bits := by
      rw [hsize]
      exact Nat.mul_le_mul_right _ hm
    rw [Nat.add_one_mul] at hle ⊢
    exact Nat.mod_eq_of_lt (by omega)

/-! ## Blocks of butterflies -/

theorem half_two_pow (s : Nat) : 2 ^ (s + 1) / 2 = 2 ^ s := by
  rw [pow_succ, Nat.mul_div_cancel _ two_pos]

/-- The data and the factor after some offsets of a block. -/
noncomputable def offsets (w : ℂ) (s base : Nat) (z : Nat → ℂ) (k : Nat) :
    (Nat → ℂ) × ℂ :=
  (List.range k).foldl (Fft.butterflyAt w (2 ^ s) base) (z, 1)

theorem offsets_succ (w : ℂ) (s base : Nat) (z : Nat → ℂ) (k : Nat) :
    offsets w s base z (k + 1) =
      Fft.butterflyAt w (2 ^ s) base (offsets w s base z k) k := by
  rw [offsets, List.range_succ, List.foldl_concat]
  rfl

theorem offsets_snd {k : Nat} (hk : k ≤ 2 ^ s) (base : Nat) (z : Nat → ℂ) :
    (offsets w s base z k).2 = w ^ k :=
  (Fft.butterflies_range (2 ^ s) base z hk).1

noncomputable def running (n : Nat) (w : ℂ) (s base : Nat) (z : Nat → ℂ)
    (k : Nat) : Running ℝ where
  data := interleave n (offsets w s base z k).1
  real := (offsets w s base z k).2.re
  imag := (offsets w s base z k).2.im

theorem block_interleave (w : ℂ) (z : Nat → ℂ) {base : Nat}
    (hbase : base + 2 ^ (s + 1) ≤ n) :
    block w.re w.im (2 ^ (s + 1)) base (interleave n z) =
      some (interleave n (Fft.butterflies 1 w (2 ^ s) base z)) := by
  have hrun : (List.range (2 ^ s)).foldlM
      (butterflyAt w.re w.im (2 ^ (s + 1)) base) (running n w s base z 0) =
        some (running n w s base z (2 ^ s)) := by
    apply foldlM_range_eq_some
    intro k hk
    rw [pow_succ] at hbase
    rw [butterflyAt, half_two_pow, running, running,
      butterfly_interleave _ (by omega) (by omega), offsets_succ]
    simp [Fft.butterflyAt, Complex.mul_re, Complex.mul_im]
  rw [block, half_two_pow]
  exact congrArg (Option.map Running.data) hrun

/-- The tables of a plan hold the reversed indices and the powers of the
roots. -/
structure Holds (p : FftPlan ℝ) (bits : Nat) : Prop where
  reversed : ∀ i < 2 ^ bits, p.reversed[i]? = some (reverseBits bits i)
  real : ∀ s < bits, ∀ o < 2 ^ s, p.real[2 ^ s - 1 + o]? =
    some (NoiseReduction.root false (2 ^ (s + 1)) ^ o).re
  imag : ∀ s < bits, ∀ o < 2 ^ s, p.imag[2 ^ s - 1 + o]? =
    some (NoiseReduction.root false (2 ^ (s + 1)) ^ o).im

/-- The inverse direction has the conjugate powers. -/
theorem root_pow (inverse : Bool) (length o : Nat) :
    (NoiseReduction.root inverse length ^ o).re =
        (NoiseReduction.root false length ^ o).re ∧
      (NoiseReduction.root inverse length ^ o).im =
        if inverse then -(NoiseReduction.root false length ^ o).im
        else (NoiseReduction.root false length ^ o).im := by
  cases inverse with
  | false => simp
  | true =>
      rw [← NoiseReduction.star_root, ← star_pow, if_pos rfl]
      exact ⟨Complex.conj_re _, Complex.conj_im _⟩

theorem Holds.block_interleave {p : FftPlan ℝ} (h : Holds p bits)
    (hs : s < bits) (inverse : Bool) (z : Nat → ℂ) {base : Nat}
    (hbase : base + 2 ^ (s + 1) ≤ n) :
    p.block inverse (2 ^ (s + 1)) base (interleave n z) =
      some (interleave n (Fft.butterflies 1
        (NoiseReduction.root inverse (2 ^ (s + 1))) (2 ^ s) base z)) := by
  rw [FftPlan.block, half_two_pow]
  apply foldlM_range_eq_some
    (fun k => interleave n (offsets
      (NoiseReduction.root inverse (2 ^ (s + 1))) s base z k).1)
  intro k hk
  rw [pow_succ] at hbase
  obtain ⟨hre, him⟩ := root_pow inverse (2 ^ (s + 1)) k
  rw [FftPlan.butterflyAt, half_two_pow, h.real s hs k hk, h.imag s hs k hk]
  simp only [Option.bind_eq_bind, Option.bind_some]
  rw [← hre, ← him, butterfly_interleave _ (by omega) (by omega), offsets_succ,
    Fft.butterflyAt, offsets_snd hk.le]

/-! ## Stages -/

/-- A loop over blocks that are blocks of butterflies is a stage. -/
theorem blocks_interleave {fuel : Nat} (hbits : bits ≤ 30) (hs : s < bits)
    (hfuel : 2 ^ bits < fuel) {body : Nat → List ℝ → Option (List ℝ)}
    (hbody : ∀ base z, base + 2 ^ (s + 1) ≤ 2 ^ bits →
      body base (interleave (2 ^ bits) z) =
        some (interleave (2 ^ bits) (Fft.butterflies 1 w (2 ^ s) base z)))
    (z : Nat → ℂ) :
    forLoop fuel (· < 2 ^ bits) (advance (2 ^ (s + 1))) body 0
        (interleave (2 ^ bits) z) =
      some (interleave (2 ^ bits)
        (Fft.stage 1 w (2 ^ bits) (2 ^ (s + 1)) z)) := by
  have hsize : 2 ^ bits = 2 ^ (bits - (s + 1)) * 2 ^ (s + 1) := by
    rw [← pow_add]
    congr 1
    omega
  have hcount : (2 ^ bits + 2 ^ (s + 1) - 1) / 2 ^ (s + 1) =
      2 ^ (bits - (s + 1)) := by
    have hpos := Nat.two_pow_pos (s + 1)
    rw [hsize, Nat.add_sub_assoc hpos, Nat.add_comm,
      Nat.add_mul_div_right _ _ hpos, Nat.div_eq_of_lt (by omega), Nat.zero_add]
  rw [blocks_eq_foldlM hbits hs hfuel, Fft.stage, hcount, half_two_pow]
  apply foldlM_range_eq_some
    (fun m => interleave (2 ^ bits) ((List.range m).foldl
      (fun data m => Fft.butterflies 1 w (2 ^ s) (m * 2 ^ (s + 1)) data) z))
  intro m hm
  have hle : m * 2 ^ (s + 1) + 2 ^ (s + 1) ≤ 2 ^ bits := by
    rw [hsize, ← Nat.add_one_mul]
    exact Nat.mul_le_mul_right _ hm
  rw [hbody _ _ hle, List.range_succ, List.foldl_concat]

/-- A loop over lengths whose rounds are stages makes the sums of the
transform. -/
theorem lengths_interleave (hroots : Roots steps) {fuel : Nat}
    (hbits : bits ≤ 30) (hfuel : bits < fuel)
    {body : Nat → List ℝ → Option (List ℝ)}
    (hbody : ∀ s < bits, ∀ z,
      body (2 ^ (s + 1)) (interleave (2 ^ bits) z) =
        some (interleave (2 ^ bits)
          (Fft.stage 1 (steps (2 ^ (s + 1))) (2 ^ bits) (2 ^ (s + 1)) z)))
    (z : Nat → ℂ) :
    forLoop fuel (· ≤ 2 ^ bits) double body 2
        (interleave (2 ^ bits) (Fft.reversed (2 ^ bits) z)) =
      some (interleave (2 ^ bits) (dft (2 ^ bits) (steps (2 ^ bits)) z)) := by
  have hfirst : interleave (2 ^ bits) (Fft.reversed (2 ^ bits) z) =
      interleave (2 ^ bits) (partialDft steps bits 0 z) := by
    apply interleave_congr
    intro k hk
    rw [Fft.reversed_apply (by omega) z hk, partialDft_zero]
  have hlast : interleave (2 ^ bits) (dft (2 ^ bits) (steps (2 ^ bits)) z) =
      interleave (2 ^ bits) (partialDft steps bits bits z) :=
    interleave_congr fun k hk => (partialDft_bits hk).symm
  rw [lengths_eq_foldlM hbits hfuel, hfirst, hlast]
  apply foldlM_range_eq_some
    (fun s => interleave (2 ^ bits) (partialDft steps bits s z))
  intro s hs
  rw [hbody s hs]
  congr 1
  exact interleave_congr fun k hk =>
    Fft.stage_partialDft hroots hs (fun _ _ => rfl) hk

/-! ## The order of the values -/

theorem swapBelow_interleave (z : Nat → ℂ) (hi : i < n) (hj : j < n) :
    swapBelow (interleave n z) i j =
      some (interleave n (if i < j then Fft.swap z i j else z)) := by
  rw [swapBelow]
  split
  · exact swapPair_interleave z hi hj
  · rfl

noncomputable def reversals (n : Nat) (z : Nat → ℂ) (m : Nat) :
    (Nat → ℂ) × Nat :=
  (List.range m).foldl (Fft.reversal n) (z, 0)

theorem reversals_succ (n : Nat) (z : Nat → ℂ) (m : Nat) :
    reversals n z (m + 1) = Fft.reversal n (reversals n z m) m := by
  rw [reversals, List.range_succ, List.foldl_concat]
  rfl

theorem reversals_snd (hbits : bits ≤ 30) (z : Nat → ℂ) {m : Nat}
    (hm : m < 2 ^ bits) : (reversals (2 ^ bits) z m).2 = reverseBits bits m :=
  (Fft.reversal_range (by omega) z hm).1

theorem reorder_interleave (hbits : bits ≤ 30) (z : Nat → ℂ) :
    ((List.range (2 ^ bits - 1)).foldlM (reorderStep (2 ^ bits))
        (interleave (2 ^ bits) z, 0)).map Prod.fst =
      some (interleave (2 ^ bits) (Fft.reversed (2 ^ bits) z)) := by
  have hrun : (List.range (2 ^ bits - 1)).foldlM (reorderStep (2 ^ bits))
      (interleave (2 ^ bits) (reversals (2 ^ bits) z 0).1,
        (reversals (2 ^ bits) z 0).2) =
      some (interleave (2 ^ bits) (reversals (2 ^ bits) z (2 ^ bits - 1)).1,
        (reversals (2 ^ bits) z (2 ^ bits - 1)).2) := by
    apply foldlM_range_eq_some
      (fun m => (interleave (2 ^ bits) (reversals (2 ^ bits) z m).1,
        (reversals (2 ^ bits) z m).2))
    intro m hm
    have hindex : (reversals (2 ^ bits) z m).2 < 2 ^ bits := by
      rw [reversals_snd hbits z (by omega)]
      exact reverseBits_lt bits m
    rw [reorderStep, swapBelow_interleave _ (by omega) hindex, reversals_succ]
    rfl
  exact congrArg (Option.map Prod.fst) hrun

theorem Holds.reorder_interleave {p : FftPlan ℝ} (h : Holds p bits)
    (hbits : bits ≤ 30) (z : Nat → ℂ) :
    (List.range (2 ^ bits)).foldlM p.reorderStep (interleave (2 ^ bits) z) =
      some (interleave (2 ^ bits) (Fft.reversed (2 ^ bits) z)) := by
  have hpos := Nat.two_pow_pos bits
  have hsplit : List.range (2 ^ bits) =
      List.range (2 ^ bits - 1) ++ [2 ^ bits - 1] := by
    rw [← List.range_succ, Nat.succ_eq_add_one, Nat.sub_add_cancel hpos]
  have hstep : ∀ m < 2 ^ bits, ∀ y, p.reorderStep (interleave (2 ^ bits) y) m =
      some (interleave (2 ^ bits) (if m < reverseBits bits m then
        Fft.swap y m (reverseBits bits m) else y)) := by
    intro m hm y
    rw [FftPlan.reorderStep, h.reversed m hm]
    exact swapBelow_interleave y hm (reverseBits_lt bits m)
  have hrun : (List.range (2 ^ bits - 1)).foldlM p.reorderStep
      (interleave (2 ^ bits) z) =
        some (interleave (2 ^ bits) (Fft.reversed (2 ^ bits) z)) := by
    apply foldlM_range_eq_some
      (fun m => interleave (2 ^ bits) (reversals (2 ^ bits) z m).1)
    intro m hm
    rw [hstep m (by omega), ← reversals_snd hbits z (by omega), reversals_succ,
      Fft.reversal_fst]
  -- The last index is its own reverse.
  have hend := hstep (2 ^ bits - 1) (by omega) (Fft.reversed (2 ^ bits) z)
  have hlt := reverseBits_lt bits (2 ^ bits - 1)
  rw [if_neg (by omega)] at hend
  rw [hsplit, List.foldlM_append, hrun]
  simpa using hend

/-! ## The tables -/

/-- An array whose first elements have been written. -/
def fill {α : Type} [Zero α] (n : Nat) (f : Nat → α) (m : Nat) : List α :=
  (List.range n).map fun i => if i < m then f i else 0

section

variable {α : Type} [Zero α] (f : Nat → α) {m : Nat}

theorem fill_zero (n : Nat) : fill n f 0 = List.replicate n 0 := by
  simp [fill]

theorem getElem?_fill (hi : i < n) (him : i < m) :
    (fill n f m)[i]? = some (f i) := by
  rw [fill, List.getElem?_map, List.getElem?_range hi, Option.map_some,
    if_pos him]

theorem store_fill (hm : m < n) :
    store (fill n f m) m (f m) = some (fill n f (m + 1)) := by
  rw [store_of_lt _ (by simpa [fill] using hm)]
  congr 1
  apply List.ext_getElem
  · simp [fill]
  · intro k hk hk'
    rw [List.getElem_set]
    simp only [fill, List.getElem_map, List.getElem_range]
    by_cases heq : m = k
    · rw [if_pos heq, heq, if_pos (Nat.lt_succ_self k)]
    · rw [if_neg heq]
      congr 1
      rw [eq_iff_iff]
      omega

end

theorem reversedIndex_eq {fuel : Nat} (hbits : bits ≤ 30) (hfuel : bits < fuel)
    (i : Nat) : reversedIndex fuel (2 ^ bits) i = some (reverseBits bits i) := by
  have hloop : forLoop fuel (fun length => 1 < length) (· / 2)
      (fun _ (s : Nat × Nat) =>
        some (s.1 / 2, s.2 * 2 % 2 ^ 32 ||| s.1 % 2)) (2 ^ bits) (i, 0) =
      (List.range bits).foldlM (fun (s : Nat × Nat) _ =>
        some (s.1 / 2, s.2 * 2 % 2 ^ 32 ||| s.1 % 2)) (i, 0) := by
    apply forLoop_eq_foldlM (i := fun k => 2 ^ (bits - k)) _ _ _ hfuel
    · intro k hk
      exact decide_eq_true (Nat.one_lt_two_pow (by omega))
    · simp
    · intro k hk
      have hsucc : bits - k = bits - (k + 1) + 1 := by omega
      rw [hsucc, half_two_pow]
  have hrun : (List.range bits).foldlM (fun (s : Nat × Nat) _ =>
      some (s.1 / 2, s.2 * 2 % 2 ^ 32 ||| s.1 % 2))
        (i / 2 ^ 0, reverseBits 0 i) =
      some (i / 2 ^ bits, reverseBits bits i) := by
    apply foldlM_range_eq_some (fun k => (i / 2 ^ k, reverseBits k i))
    intro k hk
    have hlt := reverseBits_lt k i
    have hsmall : 2 ^ k < 2 ^ 31 := Nat.pow_lt_pow_right (by omega) (by omega)
    have hbit : i / 2 ^ k % 2 < 2 ^ 1 := Nat.mod_lt _ two_pos
    have hor := Nat.two_pow_add_eq_or_of_lt hbit (reverseBits k i)
    rw [pow_one, Nat.mul_comm 2] at hor
    rw [Nat.mod_eq_of_lt (by omega), ← hor, reverseBits_succ, pow_succ,
      Nat.div_div_eq_div_mul, Nat.mul_comm 2]
  rw [pow_zero, Nat.div_one] at hrun
  rw [reversedIndex, hloop]
  exact congrArg (Option.map Prod.snd) hrun

theorem reversedTable_eq {fuel : Nat} (hbits : bits ≤ 30) (hfuel : bits < fuel) :
    reversedTable fuel (2 ^ bits) =
      some (fill (2 ^ bits) (reverseBits bits) (2 ^ bits)) := by
  rw [reversedTable, ← fill_zero (reverseBits bits)]
  apply foldlM_range_eq_some (fill (2 ^ bits) (reverseBits bits))
  intro m hm
  rw [reversedEntry, reversedIndex_eq hbits hfuel]
  exact store_fill _ hm

noncomputable def exactTrig : Trig ℝ where
  cos := Real.cos
  sin := Real.sin
  pi := Real.pi

theorem cos_angle (inverse : Bool) (length : Nat) :
    exactTrig.cos (angle exactTrig inverse length) =
        (NoiseReduction.root inverse length).re ∧
      exactTrig.sin (angle exactTrig inverse length) =
        (NoiseReduction.root inverse length).im := by
  have hangle : angle exactTrig inverse length =
      NoiseReduction.sign inverse * (2 * Real.pi / length) := by
    rw [angle, NoiseReduction.sign]
    cases inverse with
    | false =>
        simp only [Bool.false_eq_true, if_false, exactTrig]
        ring
    | true =>
        simp only [if_true, exactTrig]
        ring
  rw [NoiseReduction.root_eq_exp, Complex.exp_ofReal_mul_I_re,
    Complex.exp_ofReal_mul_I_im, hangle]
  exact ⟨rfl, rfl⟩

/-- What the tables have at an index: the row of a length starts at half of
the length less one. -/
noncomputable def packed (k : Nat) : ℂ :=
  NoiseReduction.root false (2 ^ (Nat.log 2 (k + 1) + 1)) ^
    (k + 1 - 2 ^ Nat.log 2 (k + 1))

theorem packed_row {o : Nat} (ho : o < 2 ^ s) :
    packed (2 ^ s - 1 + o) = NoiseReduction.root false (2 ^ (s + 1)) ^ o := by
  have hpos := Nat.two_pow_pos s
  have hindex : 2 ^ s - 1 + o + 1 = 2 ^ s + o := by omega
  have hlog : Nat.log 2 (2 ^ s + o) = s := by
    apply Nat.log_eq_of_pow_le_of_lt_pow
    · exact Nat.le_add_right _ _
    · rw [pow_succ]
      omega
  rw [packed, hindex, hlog, Nat.add_sub_cancel_left]

noncomputable def packedTables (n m : Nat) : List ℝ × List ℝ :=
  (fill n (fun k => (packed k).re) m, fill n (fun k => (packed k).im) m)

theorem twiddleRow_eq (hs : s < bits) :
    twiddleRow exactTrig (2 ^ (s + 1)) (packedTables (2 ^ bits - 1) (2 ^ s - 1)) =
      some (packedTables (2 ^ bits - 1) (2 ^ (s + 1) - 1)) := by
  obtain ⟨hcos, hsin⟩ := cos_angle false (2 ^ (s + 1))
  have hpos := Nat.two_pow_pos s
  have hle : 2 ^ (s + 1) ≤ 2 ^ bits := Nat.pow_le_pow_right two_pos hs
  rw [pow_succ] at hle
  have hrun : (List.range (2 ^ s)).foldlM
      (twiddleEntry (NoiseReduction.root false (2 ^ (s + 1))).re
        (NoiseReduction.root false (2 ^ (s + 1))).im (2 ^ (s + 1)))
      ⟨(packedTables (2 ^ bits - 1) (2 ^ s - 1 + 0)).1,
        (packedTables (2 ^ bits - 1) (2 ^ s - 1 + 0)).2,
        (NoiseReduction.root false (2 ^ (s + 1)) ^ 0).re,
        (NoiseReduction.root false (2 ^ (s + 1)) ^ 0).im⟩ =
      some ⟨(packedTables (2 ^ bits - 1) (2 ^ s - 1 + 2 ^ s)).1,
        (packedTables (2 ^ bits - 1) (2 ^ s - 1 + 2 ^ s)).2,
        (NoiseReduction.root false (2 ^ (s + 1)) ^ 2 ^ s).re,
        (NoiseReduction.root false (2 ^ (s + 1)) ^ 2 ^ s).im⟩ := by
    apply foldlM_range_eq_some (fun o => Twiddles.mk
      (packedTables (2 ^ bits - 1) (2 ^ s - 1 + o)).1
      (packedTables (2 ^ bits - 1) (2 ^ s - 1 + o)).2
      (NoiseReduction.root false (2 ^ (s + 1)) ^ o).re
      (NoiseReduction.root false (2 ^ (s + 1)) ^ o).im)
    intro o ho
    have hlt : 2 ^ s - 1 + o < 2 ^ bits - 1 := by omega
    have hreal := store_fill (fun k => (packed k).re) hlt
    have himag := store_fill (fun k => (packed k).im) hlt
    rw [packed_row ho] at hreal himag
    rw [twiddleEntry, half_two_pow]
    dsimp only [packedTables]
    rw [hreal, himag, pow_succ (NoiseReduction.root false (2 ^ (s + 1))),
      Complex.mul_re, Complex.mul_im]
    rfl
  have hend : 2 ^ s - 1 + 2 ^ s = 2 ^ (s + 1) - 1 := by
    rw [pow_succ]
    omega
  have hstart : 2 ^ s - 1 + 0 = 2 ^ s - 1 := Nat.add_zero _
  rw [hend, hstart, pow_zero, Complex.one_re, Complex.one_im] at hrun
  rw [twiddleRow, half_two_pow, hcos, hsin, hrun]
  rfl

theorem twiddleTables_eq {fuel : Nat} (hbits : bits ≤ 30) (hfuel : bits < fuel) :
    twiddleTables exactTrig fuel (2 ^ bits) =
      some (packedTables (2 ^ bits - 1) (2 ^ bits - 1)) := by
  rw [twiddleTables, lengths_eq_foldlM hbits hfuel]
  have hzero : (List.replicate (2 ^ bits - 1) 0, List.replicate (2 ^ bits - 1) 0) =
      packedTables (2 ^ bits - 1) (2 ^ 0 - 1) := by
    rw [packedTables, pow_zero, Nat.sub_self, fill_zero, fill_zero]
  rw [hzero]
  apply foldlM_range_eq_some
    (fun s => packedTables (2 ^ bits - 1) (2 ^ s - 1))
  intro s hs
  exact twiddleRow_eq hs

/-- The plan that the constructor makes. -/
noncomputable def exactPlan (bits : Nat) : FftPlan ℝ where
  reversed := fill (2 ^ bits) (reverseBits bits) (2 ^ bits)
  real := (packedTables (2 ^ bits - 1) (2 ^ bits - 1)).1
  imag := (packedTables (2 ^ bits - 1) (2 ^ bits - 1)).2

theorem make_eq {fuel : Nat} (hbits : bits ≤ 30) (hfuel : bits < fuel) :
    FftPlan.make exactTrig fuel (2 ^ bits) = some (exactPlan bits) := by
  rw [FftPlan.make, reversedTable_eq hbits hfuel, twiddleTables_eq hbits hfuel]
  rfl

theorem holds_exactPlan (bits : Nat) : Holds (exactPlan bits) bits := by
  have hrow : ∀ s < bits, ∀ o < 2 ^ s, 2 ^ s - 1 + o < 2 ^ bits - 1 := by
    intro s hs o ho
    have hle : 2 ^ (s + 1) ≤ 2 ^ bits := Nat.pow_le_pow_right two_pos hs
    have hpos := Nat.two_pow_pos s
    rw [pow_succ] at hle
    omega
  constructor
  · intro i hi
    exact getElem?_fill _ hi hi
  · intro s hs o ho
    rw [← packed_row ho]
    exact getElem?_fill (fun k => (packed k).re) (hrow s hs o ho)
      (hrow s hs o ho)
  · intro s hs o ho
    rw [← packed_row ho]
    exact getElem?_fill (fun k => (packed k).im) (hrow s hs o ho)
      (hrow s hs o ho)

/-! ## Transforms -/

/-- The sums of the discrete Fourier transform, which are not normalized. -/
noncomputable def fourier (n : Nat) (inverse : Bool) (z : Nat → ℂ) (k : Nat) :
    ℂ :=
  ∑ j ∈ Finset.range n, z j *
    Complex.exp ((if inverse then 1 else -1) * (Real.pi + Real.pi) *
      Complex.I * j * k / n)

theorem dft_root (n : Nat) (inverse : Bool) (z : Nat → ℂ) :
    dft n (NoiseReduction.root inverse n) z = fourier n inverse z := by
  funext k
  apply Finset.sum_congr rfl
  intro j _
  rw [NoiseReduction.root_eq_exp, ← Complex.exp_nat_mul, NoiseReduction.sign]
  congr 2
  cases inverse with
  | false =>
      simp only [Bool.false_eq_true, if_false]
      push_cast
      ring
  | true =>
      simp only [if_true]
      push_cast
      ring

theorem planned_eq {fuel : Nat} (hbits : bits ≤ 30) (hfuel : 2 ^ bits < fuel)
    (inverse : Bool) (z : Nat → ℂ) :
    planned exactTrig fuel (2 ^ bits) (interleave (2 ^ bits) z) inverse =
      some (interleave (2 ^ bits) (fourier (2 ^ bits) inverse z)) := by
  have hless : bits < fuel := Nat.lt_two_pow_self.trans hfuel
  have h := holds_exactPlan bits
  have hstage : ∀ s < bits, ∀ y,
      (exactPlan bits).stage fuel (2 ^ bits) inverse (2 ^ (s + 1))
          (interleave (2 ^ bits) y) =
        some (interleave (2 ^ bits) (Fft.stage 1
          (NoiseReduction.root inverse (2 ^ (s + 1))) (2 ^ bits) (2 ^ (s + 1))
          y)) :=
    fun s hs => blocks_interleave hbits hs hfuel
      fun base y hbase => h.block_interleave hs inverse y hbase
  rw [planned, make_eq hbits hless]
  simp only [Option.bind_eq_bind, Option.bind_some]
  rw [FftPlan.transform, h.reorder_interleave hbits, ← dft_root]
  exact lengths_interleave (NoiseReduction.roots inverse) hbits hless hstage z

theorem fftComplex_eq {fuel : Nat} (hbits : bits ≤ 30) (hfuel : 2 ^ bits < fuel)
    (inverse : Bool) (z : Nat → ℂ) :
    fftComplex exactTrig fuel (2 ^ bits) (interleave (2 ^ bits) z) inverse =
      some (interleave (2 ^ bits) (fourier (2 ^ bits) inverse z)) := by
  have hless : bits < fuel := Nat.lt_two_pow_self.trans hfuel
  have hblock : ∀ s : Nat, ∀ base (y : Nat → ℂ), base + 2 ^ (s + 1) ≤ 2 ^ bits →
      block (exactTrig.cos (angle exactTrig inverse (2 ^ (s + 1))))
        (exactTrig.sin (angle exactTrig inverse (2 ^ (s + 1)))) (2 ^ (s + 1))
        base (interleave (2 ^ bits) y) =
      some (interleave (2 ^ bits) (Fft.butterflies 1
        (NoiseReduction.root inverse (2 ^ (s + 1))) (2 ^ s) base y)) := by
    intro s base y hbase
    rw [(cos_angle inverse _).1, (cos_angle inverse _).2]
    exact block_interleave _ y hbase
  have hstage : ∀ s < bits, ∀ y,
      stage exactTrig fuel (2 ^ bits) inverse (2 ^ (s + 1))
          (interleave (2 ^ bits) y) =
        some (interleave (2 ^ bits) (Fft.stage 1
          (NoiseReduction.root inverse (2 ^ (s + 1))) (2 ^ bits) (2 ^ (s + 1))
          y)) :=
    fun s hs => blocks_interleave hbits hs hfuel (hblock s)
  have horder := reorder_interleave hbits z
  rw [Option.map_eq_some_iff] at horder
  obtain ⟨⟨data, index⟩, hrun, rfl⟩ := horder
  rw [fftComplex, hrun, ← dft_root]
  exact lengths_interleave (NoiseReduction.roots inverse) hbits hless hstage z

/-- The inverse transform takes a transform back, up to the size. -/
theorem fourier_fourier (hbits : 1 ≤ bits) (z : Nat → ℂ) :
    interleave (2 ^ bits) (fourier (2 ^ bits) true (fourier (2 ^ bits) false z)) =
      interleave (2 ^ bits) (fun k => (2 ^ bits : ℕ) * z k) := by
  obtain ⟨s, rfl⟩ : ∃ s, bits = s + 1 := ⟨bits - 1, by omega⟩
  apply interleave_congr
  intro k hk
  rw [← dft_root, ← dft_root]
  exact dft_dft ((NoiseReduction.roots false).isPrimitiveRoot (by norm_num) s)
    (NoiseReduction.root_mul_root _) (fun _ _ => rfl) hk

/-! ## Sizes -/

/-- The sizes of a transform, powers of two in 32 bits. -/
def Size (n : Nat) : Prop :=
  ∃ bits, 1 ≤ bits ∧ bits < 32 ∧ n = 2 ^ bits

/-- With enough rounds both transforms end with the Fourier sums of the data,
every index inside its array, and the inverse direction takes the other one
back. -/
def Exact (n : Nat) : Prop :=
  ∃ enough, ∀ fuel ≥ enough, ∀ z : Nat → ℂ,
    (∀ inverse,
      planned exactTrig fuel n (interleave n z) inverse =
          some (interleave n (fourier n inverse z)) ∧
        fftComplex exactTrig fuel n (interleave n z) inverse =
          some (interleave n (fourier n inverse z))) ∧
    ((planned exactTrig fuel n (interleave n z) false).bind fun data =>
        planned exactTrig fuel n data true) =
      some (interleave n fun k => n * z k) ∧
    ((fftComplex exactTrig fuel n (interleave n z) false).bind fun data =>
        fftComplex exactTrig fuel n data true) =
      some (interleave n fun k => n * z k)

theorem exact_two_pow (hpos : 1 ≤ bits) (hbits : bits ≤ 30) : Exact (2 ^ bits) := by
  refine ⟨2 ^ bits + 1, ?_⟩
  intro fuel hfuel z
  refine ⟨?_, ?_, ?_⟩
  · exact fun inverse => ⟨planned_eq hbits hfuel inverse z,
      fftComplex_eq hbits hfuel inverse z⟩
  · rw [planned_eq hbits hfuel, Option.bind_some, planned_eq hbits hfuel,
      fourier_fourier hpos]
  · rw [fftComplex_eq hbits hfuel, Option.bind_some, fftComplex_eq hbits hfuel,
      fourier_fourier hpos]

/-- The lengths of the largest size go over to zero and never exceed it. -/
theorem lengths_eq_none (fuel : Nat) {σ : Type} (body : Nat → σ → Option σ)
    (data : σ) : forLoop fuel (· ≤ 2 ^ 31) double body 2 data = none := by
  apply forLoop_eq_none (fun length => length = 0 ∨ ∃ k ≤ 31, length = 2 ^ k)
  · rintro length (rfl | ⟨k, hk, rfl⟩)
    · exact ⟨rfl, .inl rfl⟩
    · refine ⟨decide_eq_true (Nat.pow_le_pow_right two_pos hk), ?_⟩
      by_cases hlast : k = 31
      · left
        rw [hlast, double]
        norm_num
      · right
        refine ⟨k + 1, by omega, ?_⟩
        have hlt : 2 ^ (k + 1) < 2 ^ 32 :=
          Nat.pow_lt_pow_right (by omega) (by omega)
        rw [double, ← pow_succ', Nat.mod_eq_of_lt hlt]
  · exact .inr ⟨1, by omega, rfl⟩

/-- Neither transform of the largest size ends. -/
theorem two_pow_31_none {R : Type} [Field R] (t : Trig R) (fuel : Nat)
    (data : List R) (inverse : Bool) :
    planned t fuel (2 ^ 31) data inverse = none ∧
      fftComplex t fuel (2 ^ 31) data inverse = none := by
  constructor
  · have hmake : FftPlan.make t fuel (2 ^ 31) = none := by
      rw [FftPlan.make, twiddleTables, lengths_eq_none]
      cases reversedTable fuel (2 ^ 31) <;> rfl
    rw [planned, hmake]
    rfl
  · rw [fftComplex]
    simp only [lengths_eq_none]
    cases (List.range (2 ^ 31 - 1)).foldlM (reorderStep (2 ^ 31)) (data, 0) <;>
      rfl

theorem not_exact_two_pow_31 : ¬Exact (2 ^ 31) := by
  rintro ⟨enough, h⟩
  have hsome := ((h enough le_rfl 0).1 false).1
  rw [(two_pow_31_none _ _ _ _).1] at hsome
  cases hsome

/-- The transforms are exact for every size but the largest one. -/
theorem transforms_exact_iff {n : Nat} (hn : Size n) : Exact n ↔ n < 2 ^ 31 := by
  obtain ⟨bits, hpos, hbits, rfl⟩ := hn
  constructor
  · intro h
    by_contra hlarge
    have hlast : bits = 31 := by
      have hle : 31 ≤ bits := by
        by_contra hlt
        exact hlarge (Nat.pow_lt_pow_right (by omega) (by omega))
      omega
    subst hlast
    exact not_exact_two_pow_31 h
  · intro hsmall
    have hlt := (Nat.pow_lt_pow_iff_right (by omega)).mp hsmall
    exact exact_two_pow hpos (by omega)

theorem exact_eight : Size 8 ∧ Exact 8 :=
  ⟨⟨3, by omega, by omega, rfl⟩,
    (transforms_exact_iff ⟨3, by omega, by omega, rfl⟩).mpr (by norm_num)⟩

/-- No number of rounds is enough for the largest size. -/
theorem largest_not_exact : Size (2 ^ 31) ∧ ¬Exact (2 ^ 31) ∧
    ∀ fuel data inverse,
      planned exactTrig fuel (2 ^ 31) data inverse = none ∧
        fftComplex exactTrig fuel (2 ^ 31) data inverse = none :=
  ⟨⟨31, by omega, by omega, rfl⟩, not_exact_two_pow_31,
    two_pow_31_none exactTrig⟩

end Audiox.FftArrays
