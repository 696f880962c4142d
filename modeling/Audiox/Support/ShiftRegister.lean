import Mathlib

/-!
# Shift registers

A register of `w` bits takes the bits of a message one after the other: the
bit is added to the lowest place, the register moves down one place, and the
bit that drops out decides whether a feedback word is added.  If the feedback
word has its top bit, then no step loses information, and two messages that
differ in at most `w` consecutive bits leave different registers.
-/

namespace ShiftRegister

variable {w : Nat}

section

variable (feedback : BitVec w)

/-- Moves the register down one place. -/
def shift (r : BitVec w) : BitVec w :=
  (r >>> 1) ^^^ if r.getLsbD 0 then feedback else 0#w

/-- A bit in the lowest place. -/
def lowBit (b : Bool) : BitVec w :=
  (BitVec.ofBool b).setWidth w

/-- Takes one bit of the message. -/
def feed (r : BitVec w) (b : Bool) : BitVec w :=
  shift feedback (r ^^^ lowBit b)

/-- Takes a message. -/
def run (r : BitVec w) (message : List Bool) : BitVec w :=
  message.foldl (feed feedback) r

end

/-- A message in a register, its first bit in the lowest place. -/
def word : List Bool → BitVec w
  | [] => 0#w
  | b :: message => lowBit b ^^^ (word message <<< 1)

variable {feedback : BitVec w}

/-! ## One step -/

theorem getLsbD_lowBit (b : Bool) (i : Nat) :
    (lowBit b : BitVec w).getLsbD i =
      (decide (i < w) && (decide (i = 0) && b)) := by
  rw [lowBit, BitVec.getLsbD_setWidth, BitVec.getLsbD_ofBool]

/-- Moving down is linear. -/
theorem shift_xor (r s : BitVec w) :
    shift feedback (r ^^^ s) = shift feedback r ^^^ shift feedback s := by
  apply BitVec.eq_of_getLsbD_eq
  intro i _
  simp only [shift, BitVec.getLsbD_xor, BitVec.getLsbD_ushiftRight]
  cases r.getLsbD 0 <;> cases s.getLsbD 0 <;>
    cases r.getLsbD (1 + i) <;> cases s.getLsbD (1 + i) <;>
      cases hf : feedback.getLsbD i <;> simp [hf]

/-- With the top bit in the feedback only the empty register moves to the
empty register. -/
theorem eq_zero_of_shift (hfeedback : feedback.msb = true) {r : BitVec w}
    (h : shift feedback r = 0#w) : r = 0#w := by
  have hbit : ∀ i, (shift feedback r).getLsbD i = false := by
    intro i
    rw [h]
    exact BitVec.getLsbD_zero
  have hlow : r.getLsbD 0 = false := by
    by_contra hset
    have htop := hbit (w - 1)
    rw [Bool.not_eq_false] at hset
    have hin : 0 < w := BitVec.lt_of_getLsbD hset
    rw [shift, if_pos hset, BitVec.getLsbD_xor, BitVec.getLsbD_ushiftRight,
      BitVec.getLsbD_of_ge r _ (by omega), ← BitVec.msb_eq_getLsbD_last,
      hfeedback] at htop
    simp at htop
  apply BitVec.eq_of_getLsbD_eq
  intro i _
  rw [BitVec.getLsbD_zero]
  cases i with
  | zero => exact hlow
  | succ i =>
      have hmoved := hbit i
      rw [shift, if_neg (by rw [hlow]; decide), BitVec.getLsbD_xor,
        BitVec.getLsbD_zero, Bool.xor_false, BitVec.getLsbD_ushiftRight,
        Nat.add_comm] at hmoved
      exact hmoved

theorem shift_injective (hfeedback : feedback.msb = true) :
    Function.Injective (shift feedback) := by
  intro r s h
  have hzero : shift feedback (r ^^^ s) = 0#w := by
    rw [shift_xor, h, BitVec.xor_self]
  exact BitVec.xor_eq_zero_iff.mp (eq_zero_of_shift hfeedback hzero)

theorem feed_injective (hfeedback : feedback.msb = true) (b : Bool) :
    Function.Injective fun r => feed feedback r b := by
  intro r s h
  exact (BitVec.xor_left_inj _).mp (shift_injective hfeedback h)

/-- A message tells registers apart that were apart before it. -/
theorem run_injective (hfeedback : feedback.msb = true)
    (message : List Bool) :
    Function.Injective fun r => run feedback r message := by
  induction message with
  | nil => exact Function.injective_id
  | cons b message ih => exact ih.comp (feed_injective hfeedback b)

theorem run_append (r : BitVec w) (l l' : List Bool) :
    run feedback r (l ++ l') = run feedback (run feedback r l) l' :=
  List.foldl_append ..

/-! ## A message as a word -/

theorem getLsbD_word (message : List Bool) (i : Nat) :
    (word message : BitVec w).getLsbD i =
      (decide (i < w) && message.getD i false) := by
  induction message generalizing i with
  | nil => simp [word]
  | cons b message ih =>
      rw [word, BitVec.getLsbD_xor, getLsbD_lowBit, BitVec.getLsbD_shiftLeft]
      cases i with
      | zero => simp
      | succ i =>
          rw [ih]
          by_cases hi : i + 1 < w
          · have : i < w := by omega
            simp [hi, this]
          · simp [hi]

theorem word_injective {l l' : List Bool} (hlen : l.length = l'.length)
    (hfits : l.length ≤ w) (h : (word l : BitVec w) = word l') : l = l' := by
  apply List.ext_getElem hlen
  intro i hi hi'
  have hbit := congrArg (fun r => BitVec.getLsbD r i) h
  simp only [getLsbD_word] at hbit
  rw [List.getD_eq_getElem _ _ hi, List.getD_eq_getElem _ _ hi'] at hbit
  simpa [lt_of_lt_of_le hi hfits] using hbit

/-- While a message fits, moving down undoes the place that it was moved up. -/
theorem shift_word {message : List Bool} (h : message.length < w) :
    shift feedback (word message <<< 1) = word message := by
  have hlow : ((word message : BitVec w) <<< 1).getLsbD 0 = false := by
    simp [BitVec.getLsbD_shiftLeft]
  rw [shift, if_neg (by rw [hlow]; decide)]
  apply BitVec.eq_of_getLsbD_eq
  intro i hi
  rw [BitVec.getLsbD_xor, BitVec.getLsbD_zero, Bool.xor_false,
    BitVec.getLsbD_ushiftRight, BitVec.getLsbD_shiftLeft]
  by_cases hnext : 1 + i < w
  · simp [hnext]
  · have hout : (word message : BitVec w).getLsbD i = false := by
      rw [getLsbD_word, List.getD_eq_default _ _ (by omega), Bool.and_false]
    simp [hnext, hout]

/-- A message that fits can be added as a whole before the register moves. -/
theorem run_eq_iterate (r : BitVec w) {message : List Bool}
    (h : message.length ≤ w) :
    run feedback r message =
      (shift feedback)^[message.length] (r ^^^ word message) := by
  induction message generalizing r with
  | nil => simp [run, word]
  | cons b message ih =>
      rw [List.length_cons] at h
      rw [List.length_cons, Function.iterate_succ_apply, word,
        ← BitVec.xor_assoc, shift_xor, shift_word (by omega)]
      exact ih _ (by omega)

/-! ## Bursts -/

/-- Two messages of one length that fit leave different registers. -/
theorem run_ne_of_fits (hfeedback : feedback.msb = true) (r : BitVec w)
    {l l' : List Bool} (hlen : l.length = l'.length) (hfits : l.length ≤ w)
    (hne : l ≠ l') : run feedback r l ≠ run feedback r l' := by
  intro h
  rw [run_eq_iterate r hfits, run_eq_iterate r (hlen ▸ hfits), hlen] at h
  have hword := (shift_injective hfeedback).iterate _ h
  exact hne (word_injective hlen hfits ((BitVec.xor_right_inj _).mp hword))

/-- Messages that differ only inside a window as long as the register leave
different registers. -/
theorem run_ne_of_window (hfeedback : feedback.msb = true) (r : BitVec w)
    {l l' : List Bool} (hlen : l.length = l'.length) (hne : l ≠ l') {k : Nat}
    (hwindow : ∀ i, l[i]? ≠ l'[i]? → k ≤ i ∧ i < k + w) :
    run feedback r l ≠ run feedback r l' := by
  have hsame : ∀ i, (i < k ∨ k + w ≤ i) → l[i]? = l'[i]? := by
    intro i hi
    by_contra hdiff
    have := hwindow i hdiff
    omega
  have hbefore : l.take k = l'.take k := by
    apply List.ext_getElem?
    intro i
    rw [List.getElem?_take, List.getElem?_take]
    split
    · exact hsame i (by omega)
    · rfl
  have hafter : (l.drop k).drop w = (l'.drop k).drop w := by
    apply List.ext_getElem?
    intro i
    rw [List.drop_drop, List.drop_drop, List.getElem?_drop,
      List.getElem?_drop]
    exact hsame _ (by omega)
  have hsplit : ∀ m : List Bool,
      m = m.take k ++ ((m.drop k).take w ++ (m.drop k).drop w) := by
    intro m
    rw [List.take_append_drop, List.take_append_drop]
  have hmiddle : (l.drop k).take w ≠ (l'.drop k).take w := by
    intro h
    exact hne (by rw [hsplit l, hsplit l', hbefore, h, hafter])
  rw [hsplit l, hsplit l', run_append, run_append, run_append, run_append,
    hbefore, hafter]
  refine (run_injective hfeedback _).ne ?_
  exact run_ne_of_fits hfeedback _ (by simp [hlen])
    (List.length_take_le _ _) hmiddle

end ShiftRegister
