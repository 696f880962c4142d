import Audiox.Http.MdnsName
import Mathlib

/-!
# The reader of names ends inside its buffers

The reader ends on every packet, since a pointer leads backwards and a label
makes the name longer, and it stays inside the packet and the output.
-/

namespace Audiox.Http

open ByteCodec CheckedRead

/-! ## Names in place -/

/-- A name whose bytes at a position end in front of another one. -/
inductive NameAt (packet : Bytes) : Nat → Nat → Prop where
  | root {position : Nat} (h : packet[position]? = some 0) :
      NameAt packet position (position + 1)
  | pointer {position : Nat} {c : UInt8} (h : packet[position]? = some c)
      (hpointer : c &&& 0xC0 = 0xC0) (hfits : position + 1 < packet.length) :
      NameAt packet position (position + 2)
  | label {position stop : Nat} {c : UInt8} (h : packet[position]? = some c)
      (hlabel : 0 < c.toNat ∧ c.toNat ≤ 63)
      (hfits : position + 1 + c.toNat ≤ packet.length)
      (hrest : NameAt packet (position + 1 + c.toNat) stop) :
      NameAt packet position stop

theorem toNat_lt_of_and_eq_zero {c : UInt8} (h : c &&& 0xC0 = 0) :
    c.toNat ≤ 63 := by
  have hbits : ∀ n < 256, n &&& 0xC0 = 0 → n ≤ 63 := by decide +kernel
  apply hbits c.toNat c.toNat_lt
  have hnat := congrArg UInt8.toNat h
  rwa [UInt8.toNat_and] at hnat

theorem and_eq_zero_of_toNat_le {c : UInt8} (h : c.toNat ≤ 63) :
    c &&& 0xC0 = 0 := by
  have hbits : ∀ n ≤ 63, n &&& 0xC0 = 0 := by decide
  apply UInt8.toNat_inj.mp
  rw [UInt8.toNat_and]
  exact hbits c.toNat h

/-- What the loop keeps: the name at the offset ends where the one at the
position does, or behind the first pointer. -/
structure Scanning (packet : Bytes) (offset capacity : Nat) (s : NameScan) :
    Prop where
  room : s.written + 1 ≤ capacity
  short : s.written ≤ kMaxNameLength
  length : s.out.length = capacity
  caller : s.offset = offset
  direct : s.jumped = false → ∀ stop, NameAt packet s.position stop →
    NameAt packet offset stop
  behind : s.jumped = true → NameAt packet offset s.resumeAt

/-- What the reader leaves to its caller. -/
structure NameResult (packet : Bytes) (offset capacity : Nat) (r : NameRead) :
    Prop where
  length : r.out.length = capacity
  unchanged : r.ok = false → r.offset = offset
  advanced : r.ok = true → NameAt packet offset r.offset

/-- Decreases with every turn of the loop. -/
def nameMeasure (packet : Bytes) (s : NameScan) : Nat :=
  (kMaxNameLength - s.written) * (packet.length + 1) +
    min s.position packet.length

section Safety

variable {packet : Bytes} {offset capacity : Nat} {s : NameScan}

/-- A turn goes on from a smaller state, or ends the loop with a result. -/
def TurnEnd (packet : Bytes) (offset capacity : Nat) (s : NameScan) :
    NameScan ⊕ NameRead → Prop :=
  Sum.elim
    (fun s' => Scanning packet offset capacity s' ∧
      nameMeasure packet s' < nameMeasure packet s)
    (NameResult packet offset capacity)

theorem Scanning.refused (hs : Scanning packet offset capacity s) {out : Bytes}
    (hout : out.length = capacity) :
    NameResult packet offset capacity { s.refused with out } := by
  constructor
  · exact hout
  · intro _
    exact hs.caller
  · rintro ⟨⟩

theorem Scanning.refused_self (hs : Scanning packet offset capacity s) :
    NameResult packet offset capacity s.refused :=
  hs.refused hs.length

theorem Scanning.stop (hs : Scanning packet offset capacity s) {stop : Nat}
    (hstop : NameAt packet s.position stop) :
    NameAt packet offset (if s.jumped then s.resumeAt else stop) := by
  by_cases hjumped : s.jumped = true
  · rw [if_pos hjumped]
    exact hs.behind hjumped
  · rw [if_neg hjumped]
    exact hs.direct (by simpa using hjumped) stop hstop

theorem Scanning.follow (hs : Scanning packet offset capacity s) {c : UInt8}
    (hc : packet[s.position]? = some c) (hpointer : c &&& 0xC0 = 0xC0)
    (hfits : s.position + 1 < packet.length) (target : Nat) :
    TurnEnd packet offset capacity s (s.follow target) := by
  unfold NameScan.follow
  by_cases hback : target ≥ s.position
  · rw [if_pos hback]
    exact hs.refused_self
  · rw [if_neg hback]
    refine ⟨⟨hs.room, hs.short, hs.length, hs.caller, ?_, ?_⟩, ?_⟩
    · rintro ⟨⟩
    · intro _
      exact hs.stop (.pointer hc hpointer hfits)
    · simp only [nameMeasure]
      omega

theorem Scanning.finish (hs : Scanning packet offset capacity s)
    (hroot : packet[s.position]? = some 0) :
    Yields s.finish (TurnEnd packet offset capacity s) := by
  have hroom := hs.room
  have hlength := hs.length
  apply (yields_store (by omega)).bind
  intro out hout
  apply yields_pure
  constructor
  · rw [← hlength]
    exact hout
  · rintro ⟨⟩
  · intro _
    exact hs.stop (.root hroot)

theorem yields_storeDot (hroom : s.written + 1 ≤ s.out.length) :
    Yields s.storeDot fun out => out.length = s.out.length := by
  unfold NameScan.storeDot
  split_ifs with hfirst
  · exact yields_store (by omega)
  · exact yields_pure rfl

theorem yields_copyLabel {count position written : Nat} {out : Bytes}
    (hpacket : position + count ≤ packet.length)
    (hroom : written + count ≤ out.length) :
    Yields (copyLabel packet count position written out)
      fun copied => copied.2.length = out.length := by
  induction count generalizing position written out with
  | zero => exact yields_pure rfl
  | succ count ih =>
      rw [copyLabel]
      apply (yields_byteAt (by omega)).bind
      intro c _
      split_ifs with hstop
      · exact yields_pure rfl
      · apply (yields_store (by omega)).bind
        intro out' hout'
        apply (ih (by omega) (by omega)).mono
        intro copied hcopied
        rw [hcopied, hout']

theorem Scanning.label (hs : Scanning packet offset capacity s) {c : UInt8}
    (hc : packet[s.position]? = some c)
    (hlabel : 0 < c.toNat ∧ c.toNat ≤ 63) :
    Yields (s.label packet c.toNat) (TurnEnd packet offset capacity s) := by
  have hlength := hs.length
  have hroom := hs.room
  have hneeded : s.needed c.toNat = s.needed 0 + c.toNat := by
    simp [NameScan.needed]
  unfold NameScan.label
  split_ifs with hpacket hfull
  · exact yields_pure hs.refused_self
  · exact yields_pure hs.refused_self
  · rw [not_or] at hfull
    have hspace : s.written + s.needed 0 + c.toNat + 1 ≤ s.out.length := by
      omega
    apply (yields_storeDot (by omega)).bind
    intro dotted hdotted
    apply (yields_copyLabel (by omega) (by omega)).bind
    intro copied hcopied
    split_ifs with hwhole
    · apply yields_pure
      have hroom' : s.written + s.needed c.toNat + 1 ≤ capacity := by omega
      have hout : copied.2.length = capacity := by omega
      refine ⟨⟨hroom', not_lt.mp hfull.2, hout, hs.caller, ?_, hs.behind⟩, ?_⟩
      · intro hjumped stop hstop
        exact hs.direct hjumped stop
          (.label hc hlabel (not_lt.mp hpacket) hstop)
      · have hless : kMaxNameLength - (s.written + s.needed c.toNat) + 1 ≤
            kMaxNameLength - s.written := by
          omega
        have hproduct := Nat.mul_le_mul_right (packet.length + 1) hless
        rw [Nat.add_mul] at hproduct
        simp only [nameMeasure]
        omega
    · exact yields_pure (hs.refused (by omega))

theorem Scanning.turn (hs : Scanning packet offset capacity s) :
    Yields (nameTurn packet s) (TurnEnd packet offset capacity s) := by
  by_cases hend : s.position ≥ packet.length
  · rw [nameTurn, if_pos hend]
    exact yields_pure hs.refused_self
  · rw [nameTurn, if_neg hend]
    rw [ge_iff_le, not_le] at hend
    apply (yields_byteAt hend).bind
    intro c hc
    split_ifs with hpointer hshort hreserved hroot
    · exact yields_pure hs.refused_self
    · rw [ge_iff_le, not_le] at hshort
      apply (yields_byteAt hshort).bind
      intro low _
      exact yields_pure (hs.follow hc hpointer hshort _)
    · exact yields_pure hs.refused_self
    · exact hs.finish (hroot ▸ hc)
    · apply hs.label hc
      constructor
      · rw [Nat.pos_iff_ne_zero]
        intro hzero
        exact hroot (UInt8.toNat_inj.mp hzero)
      · exact toNat_lt_of_and_eq_zero (not_not.mp hreserved)

end Safety

/-- The loop of the reader ends, and the reader is that loop. -/
theorem readName_ends (packet : Bytes) (offset : Nat) (out : Bytes) :
    (∀ fuel, nameTurns packet ≤ fuel →
      readNameLoop packet offset out fuel = some (readName packet offset out)) ∧
    Yields (readName packet offset out)
      (NameResult packet offset out.length) := by
  unfold readName readNameLoop
  split_ifs with hempty
  · constructor
    · intro _ _
      rfl
    · apply yields_pure
      constructor
      · rfl
      · intro _
        rfl
      · rintro ⟨⟩
  · have hstart : Scanning packet offset out.length
        { position := offset, written := 0, resumeAt := 0, jumped := false,
          offset, out := out.set 0 0 } := by
      refine ⟨by show 0 + 1 ≤ _; omega, Nat.zero_le _, List.length_set, rfl,
        ?_, ?_⟩
      · intro _ stop hstop
        exact hstop
      · rintro ⟨⟩
    obtain ⟨r, hr, hloop⟩ := loop_ends (fun s hs => Scanning.turn hs) hstart
    have hturns : nameMeasure packet
        { position := offset, written := 0, resumeAt := 0, jumped := false,
          offset, out := out.set 0 0 } < nameTurns packet := by
      simp only [nameMeasure, nameTurns, kMaxNameLength]
      omega
    rw [hloop _ hturns]
    constructor
    · intro fuel hfuel
      exact hloop fuel (lt_of_lt_of_le hturns hfuel)
    · exact hr

/-- A loop that ends is the reader. -/
theorem readName_of_loop {packet : Bytes} {offset fuel : Nat} {out : Bytes}
    {r : Read Empty NameRead}
    (h : readNameLoop packet offset out fuel = some r) :
    readName packet offset out = r := by
  have hturns := (readName_ends packet offset out).1
    (fuel + nameTurns packet) (Nat.le_add_left _ _)
  have hmore : readNameLoop packet offset out (fuel + nameTurns packet) =
      some r := by
    unfold readNameLoop at h ⊢
    split_ifs at h ⊢ with hempty
    · exact h
    · exact loop_mono h _
  rw [hmore] at hturns
  exact (Option.some.inj hturns).symm

end Audiox.Http
