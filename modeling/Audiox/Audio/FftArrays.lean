import Audiox.Audio.Fft
import Audiox.Support.CountedLoop
import Mathlib

/-!
# Transforms of arrays

`FftPlan` and `fftComplex` on the arrays of the effects, in which the parts of
the complex numbers alternate.  Every index is checked, and the lengths are
numbers of 32 bits.
-/

namespace Audiox.FftArrays

open CountedLoop

/-- The functions and the constant of the mathematical library. -/
structure Trig (R : Type) where
  cos : R → R
  sin : R → R
  pi : R

/-! ## Arrays -/

section

variable {α : Type}

/-- Writes an element of an array. -/
def store (data : List α) (i : Nat) (v : α) : Option (List α) :=
  if i < data.length then some (data.set i v) else none

def swap (data : List α) (i j : Nat) : Option (List α) := do
  let a ← data[i]?
  let b ← data[j]?
  let data ← store data i b
  store data j a

/-- Swaps two complex numbers. -/
def swapPair (data : List α) (i j : Nat) : Option (List α) := do
  let data ← swap data (i * 2) (j * 2)
  swap data (i * 2 + 1) (j * 2 + 1)

def swapBelow (data : List α) (i j : Nat) : Option (List α) :=
  if i < j then swapPair data i j else some data

end

def double (length : Nat) : Nat := 2 * length % 2 ^ 32

def advance (length base : Nat) : Nat := (base + length) % 2 ^ 32

variable {R : Type} [Field R]

def butterfly (data : List R) (even odd : Nat) (re im : R) :
    Option (List R) := do
  let oddRe ← data[odd * 2]?
  let oddIm ← data[odd * 2 + 1]?
  let evenRe ← data[even * 2]?
  let evenIm ← data[even * 2 + 1]?
  let data ← store data (even * 2) (evenRe + (oddRe * re - oddIm * im))
  let data ← store data (even * 2 + 1) (evenIm + (oddRe * im + oddIm * re))
  let data ← store data (odd * 2) (evenRe - (oddRe * re - oddIm * im))
  store data (odd * 2 + 1) (evenIm - (oddRe * im + oddIm * re))

def angle (t : Trig R) (inverse : Bool) (length : Nat) : R :=
  (if inverse then 2 else -2) * t.pi / length

/-! ## The plan -/

structure FftPlan (R : Type) where
  reversed : List Nat
  real : List R
  imag : List R

/-- The loop over the bits of an index: the bits left and the index so far. -/
def reversedIndex (fuel n i : Nat) : Option Nat :=
  (forLoop fuel (fun length => 1 < length) (· / 2)
    (fun _ (s : Nat × Nat) => some (s.1 / 2, s.2 * 2 % 2 ^ 32 ||| s.1 % 2))
    n (i, 0)).map Prod.snd

def reversedEntry (fuel n : Nat) (table : List Nat) (i : Nat) :
    Option (List Nat) := do
  let index ← reversedIndex fuel n i
  store table i index

def reversedTable (fuel n : Nat) : Option (List Nat) :=
  (List.range n).foldlM (reversedEntry fuel n) (List.replicate n 0)

/-- The tables, and the factor of the loop over the offsets. -/
structure Twiddles (R : Type) where
  real : List R
  imag : List R
  re : R
  im : R

def twiddleEntry (stepReal stepImag : R) (length : Nat) (s : Twiddles R)
    (offset : Nat) : Option (Twiddles R) := do
  let real ← store s.real (length / 2 - 1 + offset) s.re
  let imag ← store s.imag (length / 2 - 1 + offset) s.im
  some ⟨real, imag, s.re * stepReal - s.im * stepImag,
    s.re * stepImag + s.im * stepReal⟩

def twiddleRow (t : Trig R) (length : Nat) (tables : List R × List R) :
    Option (List R × List R) := do
  let s ← (List.range (length / 2)).foldlM
    (twiddleEntry (t.cos (angle t false length)) (t.sin (angle t false length))
      length) ⟨tables.1, tables.2, 1, 0⟩
  some (s.real, s.imag)

def twiddleTables (t : Trig R) (fuel n : Nat) : Option (List R × List R) :=
  forLoop fuel (· ≤ n) double (twiddleRow t) 2
    (List.replicate (n - 1) 0, List.replicate (n - 1) 0)

/-- The constructor. -/
def FftPlan.make (t : Trig R) (fuel n : Nat) : Option (FftPlan R) := do
  let reversed ← reversedTable fuel n
  let tables ← twiddleTables t fuel n
  some ⟨reversed, tables.1, tables.2⟩

namespace FftPlan

def reorderStep (p : FftPlan R) (data : List R) (i : Nat) :
    Option (List R) := do
  let index ← p.reversed[i]?
  swapBelow data i index

def butterflyAt (p : FftPlan R) (inverse : Bool) (length base : Nat)
    (data : List R) (offset : Nat) : Option (List R) := do
  let re ← p.real[length / 2 - 1 + offset]?
  let im ← p.imag[length / 2 - 1 + offset]?
  butterfly data (base + offset) (base + offset + length / 2) re
    (if inverse then -im else im)

def block (p : FftPlan R) (inverse : Bool) (length base : Nat)
    (data : List R) : Option (List R) :=
  (List.range (length / 2)).foldlM (p.butterflyAt inverse length base) data

def stage (p : FftPlan R) (fuel n : Nat) (inverse : Bool) (length : Nat)
    (data : List R) : Option (List R) :=
  forLoop fuel (· < n) (advance length) (p.block inverse length) 0 data

def transform (p : FftPlan R) (fuel n : Nat) (data : List R)
    (inverse : Bool) : Option (List R) := do
  let data ← (List.range n).foldlM p.reorderStep data
  forLoop fuel (· ≤ n) double (p.stage fuel n inverse) 2 data

end FftPlan

/-- A plan for a size, and a transform with it. -/
def planned (t : Trig R) (fuel n : Nat) (data : List R) (inverse : Bool) :
    Option (List R) := do
  let p ← FftPlan.make t fuel n
  p.transform fuel n data inverse

/-! ## Without a plan -/

def reorderStep (n : Nat) (s : List R × Nat) (i : Nat) :
    Option (List R × Nat) := do
  let data ← swapBelow s.1 i s.2
  some (data, Fft.advance 32 (n / 2) s.2)

/-- The data, and the factor of the loop over the offsets. -/
structure Running (R : Type) where
  data : List R
  real : R
  imag : R

def butterflyAt (stepReal stepImag : R) (length base : Nat) (s : Running R)
    (offset : Nat) : Option (Running R) := do
  let data ← butterfly s.data (base + offset) (base + offset + length / 2)
    s.real s.imag
  some ⟨data, s.real * stepReal - s.imag * stepImag,
    s.real * stepImag + s.imag * stepReal⟩

def block (stepReal stepImag : R) (length base : Nat) (data : List R) :
    Option (List R) :=
  ((List.range (length / 2)).foldlM (butterflyAt stepReal stepImag length base)
    ⟨data, 1, 0⟩).map Running.data

def stage (t : Trig R) (fuel n : Nat) (inverse : Bool) (length : Nat)
    (data : List R) : Option (List R) :=
  forLoop fuel (· < n) (advance length)
    (block (t.cos (angle t inverse length)) (t.sin (angle t inverse length))
      length) 0 data

def fftComplex (t : Trig R) (fuel n : Nat) (data : List R) (inverse : Bool) :
    Option (List R) := do
  let s ← (List.range (n - 1)).foldlM (reorderStep n) (data, 0)
  forLoop fuel (· ≤ n) double (stage t fuel n inverse) 2 s.1

end Audiox.FftArrays
