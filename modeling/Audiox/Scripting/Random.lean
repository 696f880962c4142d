import Audiox.Support.RejectionSampling
import Mathlib

/-!
# Random numbers of a script

A script draws integers from an interval with a 64-bit generator.  Outputs
below a threshold are rejected, so that every value of the interval has the
same number of outputs.
-/

namespace Audiox

open RejectionSampling

/-! ## Model -/

def xorShift (value shift : UInt64) : UInt64 :=
  value ^^^ (value >>> shift)

def mixBits (value : UInt64) : UInt64 :=
  xorShift (xorShift (xorShift value 30 * 0xbf58476d1ce4e5b9) 27 *
    0x94d049bb133111eb) 31

/-- The next output of the generator, and its next state. -/
def randomBits (randomState : UInt64) : UInt64 × UInt64 :=
  (mixBits (randomState + 0x9e3779b97f4a7c15),
    randomState + 0x9e3779b97f4a7c15)

def rejectionThreshold (span : UInt64) : UInt64 :=
  (0 - span) % span

def samplingLimitExceeded : String :=
  "random sampling limit exceeded"

def randomBelow (span randomState : UInt64) :
    Except String UInt64 × UInt64 :=
  if span = 0 then
    (.ok (randomBits randomState).1, (randomBits randomState).2)
  else
    match draw randomBits (fun bits => rejectionThreshold span ≤ bits) 32
        randomState with
    | (some bits, randomState) => (.ok (bits % span), randomState)
    | (none, randomState) => (.error samplingLimitExceeded, randomState)

def randomSpan (low high : Int64) : UInt64 :=
  high.toUInt64 - low.toUInt64 + 1

/-- The integers that a script draws; without a lower bound it is one. -/
def random (low : Option Int64) (high : Int64) (randomState : UInt64) :
    Except String Int64 × UInt64 :=
  if low.getD 1 > high then (.error "empty random interval", randomState)
  else
    match randomBelow (randomSpan (low.getD 1) high) randomState with
    | (.ok bits, randomState) =>
        (.ok ((low.getD 1).toUInt64 + bits).toInt64, randomState)
    | (.error message, randomState) => (.error message, randomState)

/-! ## Outputs and values -/

/-- The outputs of the generator that are not rejected. -/
def acceptsBits (low high : Int64) (bits : UInt64) : Bool :=
  randomSpan low high = 0 || rejectionThreshold (randomSpan low high) ≤ bits

/-- The value of the interval that an output stands for. -/
def drawnValue (low high : Int64) (bits : UInt64) : Int64 :=
  (low.toUInt64 + if randomSpan low high = 0 then bits
    else bits % randomSpan low high).toInt64

/-- How many values an interval has. -/
def intervalWidth (low high : Int64) : Nat :=
  (high.toInt - low.toInt + 1).toNat

section Interval

variable {low high : Int64}

theorem intervalWidth_bounds (h : low ≤ high) :
    0 < intervalWidth low high ∧ intervalWidth low high ≤ 2 ^ 64 := by
  rw [Int64.le_iff_toInt_le] at h
  have hlow := low.le_toInt
  have hhigh := high.toInt_lt
  rw [intervalWidth]
  omega

theorem toNat_toUInt64_cast (x : Int64) :
    (x.toUInt64.toNat : Int) = x.toInt % 2 ^ 64 := by
  have hint : x.toInt = x.toBitVec.toInt := rfl
  have hlt : x.toUInt64.toNat < 2 ^ 64 := x.toUInt64.toNat_lt
  rw [hint, BitVec.toInt_eq_toNat_cond, Int64.toNat_toBitVec]
  split
  · omega
  · omega

/-- The span of the full range wraps to zero. -/
theorem randomSpan_toNat (h : low ≤ high) :
    (randomSpan low high).toNat = intervalWidth low high % 2 ^ 64 := by
  have hwidth := intervalWidth_bounds h
  have hlow := toNat_toUInt64_cast low
  have hhigh := toNat_toUInt64_cast high
  have hlt := low.toUInt64.toNat_lt
  have hone : (1 : UInt64).toNat = 1 := rfl
  rw [randomSpan, UInt64.toNat_add, UInt64.toNat_sub, hone]
  rw [intervalWidth] at hwidth ⊢
  omega

theorem randomSpan_eq_zero_iff (h : low ≤ high) :
    randomSpan low high = 0 ↔ intervalWidth low high = 2 ^ 64 := by
  have hwidth := intervalWidth_bounds h
  have hspan := randomSpan_toNat h
  rw [← UInt64.toNat_inj, hspan, UInt64.toNat_zero]
  omega

theorem randomSpan_toNat_of_ne (h : low ≤ high)
    (hfull : intervalWidth low high ≠ 2 ^ 64) :
    (randomSpan low high).toNat = intervalWidth low high := by
  have hlt : intervalWidth low high < 2 ^ 64 :=
    lt_of_le_of_ne (intervalWidth_bounds h).2 hfull
  rw [randomSpan_toNat h, Nat.mod_eq_of_lt hlt]

theorem acceptsBits_iff (h : low ≤ high) (bits : UInt64) :
    acceptsBits low high bits = true ↔
      2 ^ 64 % intervalWidth low high ≤ bits.toNat := by
  have hwidth := intervalWidth_bounds h
  rw [acceptsBits, Bool.or_eq_true, decide_eq_true_eq, decide_eq_true_eq,
    randomSpan_eq_zero_iff h]
  by_cases hfull : intervalWidth low high = 2 ^ 64
  · simp [hfull]
  · have hspan := randomSpan_toNat_of_ne h hfull
    have hneg : (0 - randomSpan low high).toNat =
        2 ^ 64 - intervalWidth low high := by
      rw [UInt64.toNat_sub, hspan, UInt64.toNat_zero]
      omega
    rw [or_iff_right hfull, UInt64.le_iff_toNat_le, rejectionThreshold,
      UInt64.toNat_mod, hneg, hspan, ← Nat.mod_eq_sub_mod hwidth.2]

/-- The drawn value, as an integer that does not overflow. -/
theorem drawnValue_toInt (h : low ≤ high) (bits : UInt64) :
    (drawnValue low high bits).toInt =
      low.toInt + (bits.toNat % intervalWidth low high : Nat) := by
  have hwidth := intervalWidth_bounds h
  have hoffset : (if randomSpan low high = 0 then bits
      else bits % randomSpan low high).toNat =
        bits.toNat % intervalWidth low high := by
    by_cases hfull : intervalWidth low high = 2 ^ 64
    · rw [if_pos ((randomSpan_eq_zero_iff h).mpr hfull), hfull,
        Nat.mod_eq_of_lt bits.toNat_lt]
    · rw [if_neg fun hzero => hfull ((randomSpan_eq_zero_iff h).mp hzero),
        UInt64.toNat_mod, randomSpan_toNat_of_ne h hfull]
  have hvalue := toNat_toUInt64_cast (drawnValue low high bits)
  rw [drawnValue, UInt64.toUInt64_toInt64, UInt64.toNat_add, hoffset,
    ← drawnValue] at hvalue
  have hlow := toNat_toUInt64_cast low
  have hmod := Nat.mod_lt bits.toNat hwidth.1
  have hmin := low.le_toInt
  have hmax := high.toInt_lt
  have hvmin := (drawnValue low high bits).le_toInt
  have hvmax := (drawnValue low high bits).toInt_lt
  have hspread : (intervalWidth low high : Int) =
      high.toInt - low.toInt + 1 := by
    rw [intervalWidth] at hwidth ⊢
    omega
  omega

theorem drawnValue_mem (h : low ≤ high) (bits : UInt64) :
    low ≤ drawnValue low high bits ∧ drawnValue low high bits ≤ high := by
  have hwidth := intervalWidth_bounds h
  have hmod := Nat.mod_lt bits.toNat hwidth.1
  have hspread : (intervalWidth low high : Int) =
      high.toInt - low.toInt + 1 := by
    rw [intervalWidth] at hwidth ⊢
    omega
  rw [Int64.le_iff_toInt_le, Int64.le_iff_toInt_le, drawnValue_toInt h]
  omega

/-! ## Counting outputs -/

theorem ncard_bits (p : Nat → Prop) [DecidablePred p] (first : Nat) :
    {bits : UInt64 | first ≤ bits.toNat ∧ p bits.toNat}.ncard =
      ((Finset.Ico first (2 ^ 64)).filter p).card := by
  have hinj : Function.Injective UInt64.toNat := fun _ _ => UInt64.toNat_inj.mp
  rw [← Set.ncard_image_of_injective _ hinj, ← Set.ncard_coe_finset]
  congr 1
  ext m
  simp only [Set.mem_image, Set.mem_ofPred_eq, Finset.coe_filter,
    Finset.mem_Ico]
  constructor
  · rintro ⟨bits, ⟨hfirst, hp⟩, rfl⟩
    exact ⟨⟨hfirst, bits.toNat_lt⟩, hp⟩
  · rintro ⟨⟨hfirst, hlt⟩, hp⟩
    have hnat : (UInt64.ofNatLT m hlt).toNat = m := rfl
    exact ⟨UInt64.ofNatLT m hlt, by rw [hnat]; exact ⟨hfirst, hp⟩, hnat⟩

/-- Every value of the interval has the same number of outputs. -/
theorem ncard_drawnValue (h : low ≤ high) {v : Int64} (hlow : low ≤ v)
    (hhigh : v ≤ high) :
    {bits | acceptsBits low high bits = true ∧
      drawnValue low high bits = v}.ncard =
        2 ^ 64 / intervalWidth low high := by
  rw [Int64.le_iff_toInt_le] at hlow hhigh
  have hwidth := intervalWidth_bounds h
  have hoffset : (v.toInt - low.toInt).toNat < intervalWidth low high := by
    rw [intervalWidth]
    omega
  rw [← card_accepted_residue hwidth.1 hoffset, ← ncard_bits]
  congr 1
  ext bits
  rw [Set.mem_ofPred_eq, Set.mem_ofPred_eq, acceptsBits_iff h,
    ← Int64.toInt_inj, drawnValue_toInt h]
  refine and_congr_right fun _ => ?_
  omega

/-- Fewer than half of the outputs are rejected. -/
theorem ncard_rejected (h : low ≤ high) :
    2 * {bits | acceptsBits low high bits = false}.ncard < 2 ^ 64 := by
  have hwidth := intervalWidth_bounds h
  have hrejected : {bits : UInt64 | acceptsBits low high bits = false} =
      {bits | 0 ≤ bits.toNat ∧
        bits.toNat < 2 ^ 64 % intervalWidth low high} := by
    ext bits
    rw [Set.mem_ofPred_eq, Set.mem_ofPred_eq, ← Bool.not_eq_true,
      acceptsBits_iff h, not_le, and_iff_right (Nat.zero_le _)]
  have hcount : ((Finset.Ico 0 (2 ^ 64)).filter
      fun bits => bits < 2 ^ 64 % intervalWidth low high).card ≤
        2 ^ 64 % intervalWidth low high := by
    refine (Finset.card_le_card ?_).trans (Finset.card_range _).le
    intro bits hbits
    exact Finset.mem_range.mpr (Finset.mem_filter.mp hbits).2
  rw [hrejected,
    ncard_bits (fun bits => bits < 2 ^ 64 % intervalWidth low high)]
  exact (Nat.mul_le_mul_left 2 hcount).trans_lt
    (two_mul_mod_lt hwidth.1 hwidth.2)

/-! ## Draws -/

/-- All outputs that a script would try are rejected. -/
def AllRejected (low high : Int64) (randomState : UInt64) : Prop :=
  ∀ k < 32, acceptsBits low high (output randomBits k randomState) = false

/-- A script draws the value of the first output that is accepted, and fails
if there is none. -/
theorem random_cases (h : low ≤ high) (randomState : UInt64) :
    (AllRejected low high randomState ∧
      (random (some low) high randomState).1 =
        .error samplingLimitExceeded) ∨
    ∃ k < 32,
      (∀ j < k,
        acceptsBits low high (output randomBits j randomState) = false) ∧
      acceptsBits low high (output randomBits k randomState) = true ∧
      (random (some low) high randomState).1 =
        .ok (drawnValue low high (output randomBits k randomState)) := by
  have hopen : ¬(some low).getD 1 > high := Int64.not_lt.mpr h
  rw [random, if_neg hopen, Option.getD_some, randomBelow]
  by_cases hfull : randomSpan low high = 0
  · right
    refine ⟨0, by decide, by simp, by simp [acceptsBits, hfull], ?_⟩
    rw [if_pos hfull, drawnValue, if_pos hfull]
    rfl
  · have haccepts : (fun bits => decide
        (rejectionThreshold (randomSpan low high) ≤ bits)) =
          acceptsBits low high := by
      funext bits
      simp [acceptsBits, hfull]
    rw [if_neg hfull, haccepts]
    cases hdraw : draw randomBits (acceptsBits low high) 32 randomState with
    | mk drawn next =>
      cases drawn with
      | none =>
          left
          exact ⟨draw_eq_none_iff.mp (by rw [hdraw]), rfl⟩
      | some bits =>
          right
          obtain ⟨k, hk, hearlier, haccept, hout⟩ :=
            draw_eq_some_iff.mp (congrArg Prod.fst hdraw)
          refine ⟨k, hk, hearlier, haccept, ?_⟩
          rw [hout, drawnValue, if_neg hfull]

/-- A draw fails only if 32 outputs in a row are rejected.  Otherwise it is a
value of the interval, computed without overflow, and every value of the
interval has the same number of outputs. -/
theorem random_exact (low high : Int64) (h : low ≤ high) :
    (∀ randomState,
      (AllRejected low high randomState ∧
        (random (some low) high randomState).1 =
          .error samplingLimitExceeded) ∨
      ∃ k < 32,
        (∀ j < k,
          acceptsBits low high (output randomBits j randomState) = false) ∧
        acceptsBits low high (output randomBits k randomState) = true ∧
        (random (some low) high randomState).1 =
          .ok (drawnValue low high (output randomBits k randomState))) ∧
    (∀ bits, low ≤ drawnValue low high bits ∧
      drawnValue low high bits ≤ high ∧
      (drawnValue low high bits).toInt =
        low.toInt + (bits.toNat % intervalWidth low high : Nat)) ∧
    (∀ v, low ≤ v → v ≤ high →
      {bits | acceptsBits low high bits = true ∧
        drawnValue low high bits = v}.ncard =
          2 ^ 64 / intervalWidth low high) ∧
    2 * {bits | acceptsBits low high bits = false}.ncard < 2 ^ 64 := by
  refine ⟨random_cases h, ?_, ?_, ncard_rejected h⟩
  · intro bits
    have hmem := drawnValue_mem h bits
    exact ⟨hmem.1, hmem.2, drawnValue_toInt h bits⟩
  · intro v hlow hhigh
    exact ncard_drawnValue h hlow hhigh

theorem random_exact_full_range :
    Int64.minValue ≤ Int64.maxValue ∧
      {bits | acceptsBits Int64.minValue Int64.maxValue bits = true ∧
        drawnValue Int64.minValue Int64.maxValue bits = 0}.ncard =
          2 ^ 64 / intervalWidth Int64.minValue Int64.maxValue :=
  have hle : Int64.minValue ≤ Int64.maxValue := by decide
  ⟨hle, (random_exact Int64.minValue Int64.maxValue hle).2.2.1 0
    (by decide) (by decide)⟩

/-- After some seeds the generator has 32 outputs in a row that are all
rejected. -/
theorem random_exceeds_limit :
    ¬∀ low high randomState, low ≤ high →
      ∃ v, (random (some low) high randomState).1 = .ok v ∧
        low ≤ v ∧ v ≤ high := by
  intro hclaim
  obtain ⟨v, hv, _⟩ :=
    hclaim Int64.minValue 0 8023464001174401705 (by decide)
  have hfails : (random (some Int64.minValue) 0 8023464001174401705).1 =
      .error samplingLimitExceeded := by
    decide
  rw [hfails] at hv
  cases hv

end Interval

end Audiox
