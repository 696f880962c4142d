import Audiox.Support.ShiftRegister
import Audiox.Update.Agreement
import Mathlib

/-!
# What the checksum tells apart

The checksum of a payload does not depend on the pieces in which it is read.
It is a shift register of 32 bits that takes the bits of the payload one after
the other, the lowest bit of a byte first, so a payload that is changed within
32 consecutive bits has another checksum.
-/

namespace Audiox

open ByteCodec

/-- A bit of a payload; the bits of a byte come in the order in which the
register takes them. -/
def payloadBit (data : Bytes) (position : Nat) : Bool :=
  (data.getD (position / 8) 0).toBitVec.getLsbD (position % 8)

/-- Two payloads are equally long, and there is a range of 32 bits outside of
which they agree. -/
def DifferWithin32 (data data' : Bytes) : Prop :=
  data.length = data'.length ∧ ∃ first, ∀ position,
    payloadBit data position ≠ payloadBit data' position →
      first ≤ position ∧ position < first + 32

/-! ## The register behind the checksum -/

def crcFeedback : BitVec 32 :=
  0xedb88320#32

theorem crcFeedback_msb : crcFeedback.msb = true := by
  decide

/-- The mask of a step is full if a bit drops out, and empty if not. -/
theorem zero_sub_and_one (r : BitVec 32) :
    0#32 - (r &&& 1#32) = if r.getLsbD 0 then BitVec.allOnes 32 else 0#32 := by
  rw [BitVec.and_one_eq_setWidth_ofBool_getLsbD]
  cases r.getLsbD 0 <;> rfl

theorem toBitVec_crcBit (crc : UInt32) :
    (crcBit crc).toBitVec = ShiftRegister.shift crcFeedback crc.toBitVec := by
  have hmask : (crcBit crc).toBitVec =
      (crc.toBitVec >>> 1) ^^^
        (crcFeedback &&& (0#32 - (crc.toBitVec &&& 1#32))) := by
    simp [crcBit, crcFeedback]
  rw [hmask, zero_sub_and_one, ShiftRegister.shift]
  split
  · rw [BitVec.and_allOnes]
  · rw [BitVec.and_zero]

theorem toBitVec_repeat_crcBit (n : Nat) (crc : UInt32) :
    (Nat.repeat crcBit n crc).toBitVec =
      (ShiftRegister.shift crcFeedback)^[n] crc.toBitVec := by
  induction n with
  | zero => rfl
  | succ n ih =>
      rw [Function.iterate_succ_apply', ← ih]
      exact toBitVec_crcBit _

/-- The bits of a byte, the lowest first. -/
def byteBits (byte : UInt8) : List Bool :=
  (List.range 8).map byte.toBitVec.getLsbD

@[simp] theorem length_byteBits (byte : UInt8) : (byteBits byte).length = 8 := by
  simp [byteBits]

theorem word_byteBits (byte : UInt8) :
    (ShiftRegister.word (byteBits byte) : BitVec 32) =
      byte.toUInt32.toBitVec := by
  apply BitVec.eq_of_getLsbD_eq
  intro i hi
  rw [ShiftRegister.getLsbD_word, UInt8.toBitVec_toUInt32,
    BitVec.getLsbD_setWidth]
  by_cases hbyte : i < 8
  · rw [List.getD_eq_getElem _ _ (by simpa using hbyte)]
    simp [byteBits]
  · rw [List.getD_eq_default _ _ (by simpa using hbyte),
      BitVec.getLsbD_of_ge _ _ (by omega)]

/-- Eight steps take the eight bits of a byte. -/
theorem toBitVec_crcByte (crc : UInt32) (byte : UInt8) :
    (crcByte crc byte).toBitVec =
      ShiftRegister.run crcFeedback crc.toBitVec (byteBits byte) := by
  rw [crcByte, toBitVec_repeat_crcBit, UInt32.toBitVec_xor, ← word_byteBits,
    ShiftRegister.run_eq_iterate _ (by simp), length_byteBits]

/-- The register takes the bits of all bytes in their order. -/
theorem toBitVec_foldl_crcByte (data : Bytes) (crc : UInt32) :
    (data.foldl crcByte crc).toBitVec =
      ShiftRegister.run crcFeedback crc.toBitVec (data.flatMap byteBits) := by
  induction data generalizing crc with
  | nil => rfl
  | cons byte data ih =>
      rw [List.foldl_cons, ih, toBitVec_crcByte, List.flatMap_cons,
        ShiftRegister.run_append]

/-! ## Positions -/

theorem length_flatMap_byteBits (data : Bytes) :
    (data.flatMap byteBits).length = 8 * data.length := by
  induction data with
  | nil => rfl
  | cons byte data ih =>
      rw [List.flatMap_cons, List.length_append, ih, length_byteBits,
        List.length_cons]
      omega

theorem getElem?_flatMap_byteBits (data : Bytes) {position : Nat}
    (h : position < 8 * data.length) :
    (data.flatMap byteBits)[position]? = some (payloadBit data position) := by
  induction data generalizing position with
  | nil => simp at h
  | cons byte data ih =>
      rw [List.flatMap_cons, payloadBit]
      by_cases hfirst : position < 8
      · have hbyte : position / 8 = 0 := by omega
        have hbit : position % 8 = position := by omega
        rw [List.getElem?_append_left (by simpa using hfirst), hbyte, hbit]
        simp [byteBits, hfirst]
      · have hbyte : position / 8 = (position - 8) / 8 + 1 := by omega
        have hbit : position % 8 = (position - 8) % 8 := by omega
        rw [List.length_cons] at h
        rw [List.getElem?_append_right (by simpa using hfirst),
          length_byteBits, ih (by omega), hbyte, hbit]
        rfl

theorem byteBits_injective : Function.Injective byteBits := by
  intro a b h
  apply UInt8.toBitVec_inj.mp
  apply BitVec.eq_of_getLsbD_eq
  intro i hi
  have hbit := congrArg (fun l => l[i]?) h
  simpa [byteBits, hi] using hbit

theorem flatMap_byteBits_injective {data data' : Bytes}
    (h : data.flatMap byteBits = data'.flatMap byteBits) : data = data' := by
  induction data generalizing data' with
  | nil =>
      have hlen := congrArg List.length h
      rw [length_flatMap_byteBits, length_flatMap_byteBits,
        List.length_nil] at hlen
      exact (List.length_eq_zero_iff.mp (by omega)).symm
  | cons byte data ih =>
      cases data' with
      | nil =>
          have hlen := congrArg List.length h
          rw [length_flatMap_byteBits, length_flatMap_byteBits] at hlen
          simp at hlen
      | cons byte' data' =>
          rw [List.flatMap_cons, List.flatMap_cons] at h
          obtain ⟨hbyte, hrest⟩ := List.append_inj h (by simp)
          rw [byteBits_injective hbyte, ih hrest]

/-! ## The results -/

/-- A payload that is changed within 32 consecutive bits has another
checksum. -/
theorem audioxUpdateCrc32_ne (crc : UInt32) {data data' : Bytes}
    (hnear : DifferWithin32 data data') (hne : data ≠ data') :
    audioxUpdateCrc32 crc data ≠ audioxUpdateCrc32 crc data' := by
  obtain ⟨hlen, first, hwindow⟩ := hnear
  have hrun : ShiftRegister.run crcFeedback (~~~crc).toBitVec
      (data.flatMap byteBits) ≠ ShiftRegister.run crcFeedback
        (~~~crc).toBitVec (data'.flatMap byteBits) := by
    apply ShiftRegister.run_ne_of_window crcFeedback_msb
    · rw [length_flatMap_byteBits, length_flatMap_byteBits, hlen]
    · intro h
      exact hne (flatMap_byteBits_injective h)
    · intro position hposition
      apply hwindow
      intro hsame
      apply hposition
      by_cases hin : position < 8 * data.length
      · rw [getElem?_flatMap_byteBits data hin,
          getElem?_flatMap_byteBits data' (hlen ▸ hin), hsame]
      · rw [List.getElem?_eq_none (by rw [length_flatMap_byteBits]; omega),
          List.getElem?_eq_none (by rw [length_flatMap_byteBits]; omega)]
  rw [← toBitVec_foldl_crcByte, ← toBitVec_foldl_crcByte] at hrun
  intro h
  rw [audioxUpdateCrc32, audioxUpdateCrc32] at h
  exact hrun (by rw [UInt32.not_inj.mp h])

/-- The payload that an entry points at. -/
def ArchiveFile.payload (f : ArchiveFile) (entry : AudioxUpdateEntry) :
    Bytes :=
  (f.bytes.drop entry.offset.toNat).take entry.size.toNat

/-- The checksum of pieces is that of the whole, the pieces of the writer and
of the reader accept the same payloads, and every change within 32 consecutive
bits is noticed. -/
theorem crc32_pieces_and_bursts :
    (∀ (data : Bytes) (pieces : List Bytes), pieces.flatten = data →
      pieces.foldl audioxUpdateCrc32 0 = audioxUpdateCrc32 0 data) ∧
    (∀ (f : ArchiveFile) (entry : AudioxUpdateEntry),
      entry.offset.toNat + entry.size.toNat ≤ f.bytes.length →
      audioxUpdateCheckEntryCrc f entry = some
        ((freads 65536 (f.payload entry).length (f.payload entry)).foldl
          audioxUpdateCrc32 0 == entry.crc)) ∧
    ∀ data data' : Bytes, DifferWithin32 data data' → data ≠ data' →
      audioxUpdateCrc32 0 data ≠ audioxUpdateCrc32 0 data' := by
  refine ⟨?_, ?_, ?_⟩
  · intro data pieces hpieces
    rw [foldl_crc, hpieces]
  · intro f entry hin
    rw [checkEntryCrc_eq entry hin, foldl_crc, freads_file]
    rfl
  · intro data data' hnear hne
    exact audioxUpdateCrc32_ne 0 hnear hne

theorem crc32_pieces_and_bursts_bit :
    audioxUpdateCrc32 0 [1, 0, 7] ≠ audioxUpdateCrc32 0 [1, 4, 7] := by
  apply crc32_pieces_and_bursts.2.2
  · refine ⟨rfl, 10, ?_⟩
    intro position hdiff
    by_contra hout
    apply hdiff
    have hbyte : position / 8 = 0 ∨ position / 8 = 1 ∧ position % 8 < 2 ∨
        position / 8 = 2 ∨ 3 ≤ position / 8 := by
      omega
    rcases hbyte with h | ⟨h, hbit⟩ | h | h
    · simp [payloadBit, h]
    · rw [payloadBit, payloadBit, h]
      interval_cases position % 8 <;> rfl
    · simp [payloadBit, h]
    · rw [payloadBit, payloadBit, List.getD_eq_default _ _ h,
        List.getD_eq_default _ _ h]
  · decide

end Audiox
