import Audiox.Support.FixedRecord
import Mathlib

/-!
# Growing the storage

At boot the second partition is grown to the end of the disk, and the file
system on it to the end of the partition, in steps.  Both are planned from
bytes that were read from the disk.
-/

namespace Audiox

open ByteCodec FixedRecord

/-! ## The partition -/

/-- The first sector of a disk. -/
structure BootRecord where
  b : Bytes
  length : b.length = 512
deriving DecidableEq

namespace BootRecord

def byte (mbr : BootRecord) (i : Nat) : UInt8 :=
  mbr.b.getD i 0

def bootStart (mbr : BootRecord) : Nat := read32 mbr.b 454
def bootSize (mbr : BootRecord) : Nat := read32 mbr.b 458
def start (mbr : BootRecord) : Nat := read32 mbr.b 470
def size (mbr : BootRecord) : Nat := read32 mbr.b 474

theorem length_write32 (mbr : BootRecord) (target : Nat) :
    (write32 mbr.b 474 target).length = 512 := by
  rw [FixedRecord.length_write32 (by rw [mbr.length]; decide), mbr.length]

def setSize (mbr : BootRecord) (target : Nat) : BootRecord :=
  ⟨write32 mbr.b 474 target, mbr.length_write32 target⟩

/-- The signature, and a disk whose sectors have numbers of 32 bits. -/
def Recognised (mbr : BootRecord) (diskSectors : Nat) : Prop :=
  mbr.byte 510 = 0x55 ∧ mbr.byte 511 = 0xaa ∧ diskSectors ≤ 2 ^ 32 - 1 ∧
    2 ≤ diskSectors

/-- Two partitions of the types that are shipped, and no other. -/
def Shipped (mbr : BootRecord) : Prop :=
  (mbr.byte 450 = 0x0b ∨ mbr.byte 450 = 0x0c) ∧
    (mbr.byte 466 = 0x83 ∨ mbr.byte 466 = 0x0b ∨ mbr.byte 466 = 0x0c) ∧
    (mbr.byte 446 = 0 ∨ mbr.byte 446 = 0x80) ∧ mbr.byte 462 = 0 ∧
    ∀ i ∈ List.range' 478 32, mbr.byte i = 0

/-- The partitions lie one behind the other on the disk, and the kernel has the
second one where the record has it, and no larger. -/
def Consistent (mbr : BootRecord)
    (diskSectors kernelStart kernelSectors : Nat) : Prop :=
  mbr.bootStart ≠ 0 ∧ mbr.bootSize ≠ 0 ∧ mbr.size ≠ 0 ∧
    mbr.bootStart + mbr.bootSize ≤ mbr.start ∧ mbr.start = kernelStart ∧
    kernelSectors ≠ 0 ∧ mbr.start + mbr.size ≤ diskSectors ∧
    kernelSectors ≤ diskSectors - mbr.start ∧ kernelSectors ≤ mbr.size

section

variable (mbr : BootRecord) (diskSectors kernelStart kernelSectors : Nat)

instance : Decidable (mbr.Recognised diskSectors) := by
  unfold Recognised
  infer_instance

instance : Decidable mbr.Shipped := by
  unfold Shipped
  infer_instance

instance : Decidable
    (mbr.Consistent diskSectors kernelStart kernelSectors) := by
  unfold Consistent
  infer_instance

end

end BootRecord

/-- The record afterwards, and the sectors of the second partition if it can
be grown. -/
def planPartition (mbr : BootRecord)
    (diskSectors kernelStart kernelSectors : Nat) : BootRecord × Option Nat :=
  if ¬ mbr.Recognised diskSectors then (mbr, none)
  else if ¬ mbr.Shipped then (mbr, none)
  else if ¬ mbr.Consistent diskSectors kernelStart kernelSectors then
    (mbr, none)
  else
    (mbr.setSize ((diskSectors - mbr.start) % 2 ^ 32),
      some ((diskSectors - mbr.start) % 2 ^ 32))

/-! ## The file system -/

/-- The 1024 bytes of the superblock. -/
structure Superblock where
  b : Bytes
  length : b.length = 1024
deriving DecidableEq

namespace Superblock

def byte (super : Superblock) (i : Nat) : UInt8 :=
  super.b.getD i 0

def logBlockSize (super : Superblock) : Nat := read32 super.b 24

def blockSize (super : Superblock) : Nat := 1024 <<< super.logBlockSize

/-- The count of blocks; its upper half counts where the file system has the
feature for it. -/
def blocks (super : Superblock) : Nat :=
  if read32 super.b 96 &&& 0x80 ≠ 0 then
    read32 super.b 4 ||| read32 super.b 336 <<< 32
  else read32 super.b 4

end Superblock

/-- The blocks that there are and the blocks that the partition has room for. -/
def planFilesystem (super : Superblock) (partitionBytes : Nat) :
    Option (Nat × Nat) :=
  if super.byte 56 ≠ 0x53 ∨ super.byte 57 ≠ 0xef ∨ super.logBlockSize > 6 then
    none
  else if 0 < super.blocks ∧
      super.blocks ≤ partitionBytes / super.blockSize then
    some (super.blocks, partitionBytes / super.blockSize)
  else none

/-- What the kernel answers: whether the mounted file system is the one of the
partition, the superblock after each resizing that succeeds, and whether it can
be read back. -/
structure GrowEnv where
  mounted : Except Bytes Unit
  resize : Nat → Superblock → Nat → Option Superblock
  readable : Nat → Bool

/-- The block counts that were asked for, the superblock at the end, and the
result. -/
structure GrowRun where
  issued : List Nat
  super : Superblock
  result : Except Bytes Unit

def nextBlocks (step target current : Nat) : Nat :=
  if target - current > step then current + step else target

/-- The loop of `growFilesystem` from its turn `i`; it has no result when it
needs more turns than `fuel`. -/
def growLoop (env : GrowEnv) (partitionBytes step target : Nat) :
    Nat → Nat → Superblock → Nat → Option GrowRun
  | fuel, i, super, current =>
      if current < target then
        match fuel with
        | 0 => none
        | fuel + 1 =>
            match env.resize i super (nextBlocks step target current) with
            | none =>
                some ⟨[nextBlocks step target current], super,
                  .error (ascii "grow ext4 filesystem")⟩
            | some grown =>
                if env.readable i = true ∧
                    (planFilesystem grown partitionBytes).map Prod.fst =
                      some (nextBlocks step target current) then
                  (growLoop env partitionBytes step target fuel (i + 1) grown
                    (nextBlocks step target current)).map fun run =>
                      { run with
                        issued := nextBlocks step target current ::
                          run.issued }
                else
                  some ⟨[nextBlocks step target current], grown,
                    .error (ascii "verify expanded ext4 filesystem")⟩
      else some ⟨[], super, .ok ()⟩

def growFilesystem (env : GrowEnv) (fuel : Nat) (super : Superblock)
    (partitionBytes : Nat) : Option GrowRun :=
  match planFilesystem super partitionBytes with
  | none =>
      some ⟨[], super, .error (ascii "invalid ext4 geometry (left unchanged)")⟩
  | some (current, target) =>
      if current = target then some ⟨[], super, .ok ()⟩
      else
        match env.mounted with
        | .error reason => some ⟨[], super, .error reason⟩
        | .ok () =>
            growLoop env partitionBytes (2 ^ 30 / super.blockSize) target
              fuel 0 super current

/-! ## Plans for the partition -/

theorem planPartition_of_ok {mbr : BootRecord}
    {diskSectors kernelStart kernelSectors : Nat}
    (hrecognised : mbr.Recognised diskSectors) (hshipped : mbr.Shipped)
    (hconsistent : mbr.Consistent diskSectors kernelStart kernelSectors) :
    planPartition mbr diskSectors kernelStart kernelSectors =
      (mbr.setSize (diskSectors - mbr.start),
        some (diskSectors - mbr.start)) := by
  have hlt : diskSectors - mbr.start < 2 ^ 32 := by
    have hdisk := hrecognised.2.2.1
    omega
  rw [planPartition, if_neg (not_not.mpr hrecognised),
    if_neg (not_not.mpr hshipped), if_neg (not_not.mpr hconsistent),
    Nat.mod_eq_of_lt hlt]

theorem planPartition_cases (mbr : BootRecord)
    (diskSectors kernelStart kernelSectors : Nat) :
    planPartition mbr diskSectors kernelStart kernelSectors = (mbr, none) ∨
      (mbr.Recognised diskSectors ∧ mbr.Shipped ∧
        mbr.Consistent diskSectors kernelStart kernelSectors) := by
  rw [planPartition]
  by_cases hrecognised : mbr.Recognised diskSectors
  · by_cases hshipped : mbr.Shipped
    · by_cases hconsistent :
          mbr.Consistent diskSectors kernelStart kernelSectors
      · exact .inr ⟨hrecognised, hshipped, hconsistent⟩
      · left
        rw [if_neg (not_not.mpr hrecognised), if_neg (not_not.mpr hshipped),
          if_pos hconsistent]
    · left
      rw [if_neg (not_not.mpr hrecognised), if_pos hshipped]
  · left
    rw [if_pos hrecognised]

section

variable {mbr : BootRecord} {diskSectors kernelStart kernelSectors : Nat}

theorem getElem?_setSize (target : Nat) {i : Nat} (hi : i < 474 ∨ 478 ≤ i) :
    (mbr.setSize target).b[i]? = mbr.b[i]? :=
  getElem?_write32 (by rw [mbr.length]; decide) hi

theorem byte_setSize (target : Nat) {i : Nat} (hi : i < 474 ∨ 478 ≤ i) :
    (mbr.setSize target).byte i = mbr.byte i := by
  rw [BootRecord.byte, BootRecord.byte, List.getD_eq_getElem?_getD,
    List.getD_eq_getElem?_getD, getElem?_setSize target hi]

theorem size_setSize {target : Nat} (h : target < 2 ^ 32) :
    (mbr.setSize target).size = target :=
  read32_write32 (by rw [mbr.length]; decide) h

theorem setSize_setSize (target target' : Nat) :
    (mbr.setSize target).setSize target' = mbr.setSize target' := by
  have hsame := @write32_write32 mbr.b 474 target
    (show 474 + 4 ≤ mbr.b.length by rw [mbr.length]; decide)
  simp only [BootRecord.setSize, hsame]

theorem bootStart_setSize (target : Nat) :
    (mbr.setSize target).bootStart = mbr.bootStart :=
  read32_write32_of_disjoint (by rw [mbr.length]; decide) (by decide)

theorem bootSize_setSize (target : Nat) :
    (mbr.setSize target).bootSize = mbr.bootSize :=
  read32_write32_of_disjoint (by rw [mbr.length]; decide) (by decide)

theorem start_setSize (target : Nat) :
    (mbr.setSize target).start = mbr.start :=
  read32_write32_of_disjoint (by rw [mbr.length]; decide) (by decide)

theorem recognised_setSize (target : Nat) (h : mbr.Recognised diskSectors) :
    (mbr.setSize target).Recognised diskSectors := by
  rw [BootRecord.Recognised, byte_setSize target (by decide),
    byte_setSize target (by decide)]
  exact h

theorem shipped_setSize (target : Nat) (h : mbr.Shipped) :
    (mbr.setSize target).Shipped := by
  obtain ⟨hboot, hstorage, hactive, hinactive, hempty⟩ := h
  refine ⟨?_, ?_, ?_, ?_, ?_⟩
  · rwa [byte_setSize target (by decide)]
  · rwa [byte_setSize target (by decide)]
  · rwa [byte_setSize target (by decide)]
  · rwa [byte_setSize target (by decide)]
  · intro i hi
    have hlow := (List.mem_range'_1.mp hi).1
    rw [byte_setSize target (.inr hlow)]
    exact hempty i hi

/-- The grown partition is consistent with every view of the kernel that is no
larger than it. -/
theorem consistent_setSize {kernelSectors' : Nat}
    (h : mbr.Consistent diskSectors kernelStart kernelSectors)
    (hdisk : diskSectors < 2 ^ 32) (hpos : kernelSectors' ≠ 0)
    (hle : kernelSectors' ≤ diskSectors - mbr.start) :
    (mbr.setSize (diskSectors - mbr.start)).Consistent diskSectors kernelStart
      kernelSectors' := by
  obtain ⟨hbootStart, hbootSize, hsize, hbehind, hstart, -, hend, -, -⟩ := h
  rw [BootRecord.Consistent, bootStart_setSize, bootSize_setSize,
    start_setSize, size_setSize (by omega)]
  refine ⟨hbootStart, hbootSize, by omega, hbehind, hstart, hpos, by omega,
    hle, hle⟩

end

/-- What a plan for the second partition does to the record. -/
structure PlanSafe (mbr mbr' : BootRecord)
    (diskSectors kernelStart kernelSectors target : Nat) : Prop where
  bytes : ∀ i : Nat, i < 474 ∨ 478 ≤ i → mbr'.b[i]? = mbr.b[i]?
  start : mbr'.start = mbr.start
  size : mbr'.size = target
  notSmaller : mbr.size ≤ mbr'.size
  kernel : kernelSectors ≤ mbr'.size
  diskEnd : mbr'.start + mbr'.size = diskSectors
  noWrap : mbr'.start + mbr'.size < 2 ^ 32
  apart : mbr'.bootStart + mbr'.bootSize ≤ mbr'.start
  again : ∀ kernelSectors' : Nat,
    kernelSectors' = kernelSectors ∨ kernelSectors' = target →
      planPartition mbr' diskSectors kernelStart kernelSectors' =
        (mbr', some target)

theorem planPartition_safe (mbr : BootRecord)
    (diskSectors kernelStart kernelSectors : Nat) :
    planPartition mbr diskSectors kernelStart kernelSectors = (mbr, none) ∨
      ∃ (mbr' : BootRecord) (target : Nat),
        planPartition mbr diskSectors kernelStart kernelSectors =
          (mbr', some target) ∧
        PlanSafe mbr mbr' diskSectors kernelStart kernelSectors target := by
  rcases planPartition_cases mbr diskSectors kernelStart kernelSectors with
    hrefused | ⟨hrecognised, hshipped, hconsistent⟩
  · exact .inl hrefused
  · right
    refine ⟨_, _, planPartition_of_ok hrecognised hshipped hconsistent, ?_⟩
    have hdisk : diskSectors < 2 ^ 32 := by
      have hle := hrecognised.2.2.1
      omega
    have hlayout := hconsistent
    obtain ⟨-, -, hsize, hbehind, -, hpos, hend, hview, hkernel⟩ := hlayout
    have hnew : (mbr.setSize (diskSectors - mbr.start)).size =
        diskSectors - mbr.start := size_setSize (by omega)
    constructor
    · exact fun i hi => getElem?_setSize _ hi
    · exact start_setSize _
    · exact hnew
    · rw [hnew]
      omega
    · rw [hnew]
      exact hview
    · rw [hnew, start_setSize]
      omega
    · rw [hnew, start_setSize]
      omega
    · rw [bootStart_setSize, bootSize_setSize, start_setSize]
      exact hbehind
    · intro kernelSectors' hkernel'
      have hpos' : kernelSectors' ≠ 0 := by omega
      have hle' : kernelSectors' ≤ diskSectors - mbr.start := by omega
      rw [planPartition_of_ok (recognised_setSize _ hrecognised)
        (shipped_setSize _ hshipped)
        (consistent_setSize hconsistent hdisk hpos' hle'),
        start_setSize, setSize_setSize]

/-- The record on the disk after `growPartition`, which writes the four bytes
of the length and only if the plan changed the record. -/
def growPartition (original mbr : BootRecord) : Bytes :=
  if original = mbr then original.b
  else put original.b 474 (field mbr.b 474 4)

/-- The disk gets the record that was planned. -/
theorem growPartition_planned {mbr mbr' : BootRecord}
    {diskSectors kernelStart kernelSectors : Nat} {target : Option Nat}
    (h : planPartition mbr diskSectors kernelStart kernelSectors =
      (mbr', target)) : growPartition mbr mbr' = mbr'.b := by
  rw [growPartition]
  split_ifs with hsame
  · rw [hsame]
  · rcases planPartition_cases mbr diskSectors kernelStart kernelSectors with
      hrefused | ⟨hrecognised, hshipped, hconsistent⟩
    · rw [hrefused] at h
      exact absurd (congrArg Prod.fst h) hsame
    · rw [planPartition_of_ok hrecognised hshipped hconsistent] at h
      obtain rfl := congrArg Prod.fst h
      have hfield := @field_put mbr.b
        (leBytes 4 (diskSectors - mbr.start)) 474
        (by rw [length_leBytes, mbr.length]; decide)
      rw [length_leBytes] at hfield
      simp only [BootRecord.setSize, write32, hfield]

/-! ## Growing the file system -/

/-- A resizing that succeeds sets the count of blocks that was asked for, and
the file system stays one with blocks of the same size. -/
def SetsBlocks (env : GrowEnv) : Prop :=
  ∀ (i : Nat) (super : Superblock) (next : Nat) (grown : Superblock),
    env.resize i super next = some grown →
      grown.byte 56 = super.byte 56 ∧ grown.byte 57 = super.byte 57 ∧
        grown.logBlockSize = super.logBlockSize ∧ grown.blocks = next

theorem planFilesystem_eq_some {super : Superblock}
    {partitionBytes current target : Nat} :
    planFilesystem super partitionBytes = some (current, target) ↔
      super.byte 56 = 0x53 ∧ super.byte 57 = 0xef ∧ super.logBlockSize ≤ 6 ∧
        super.blocks = current ∧
        partitionBytes / super.blockSize = target ∧
        0 < current ∧ current ≤ target := by
  rw [planFilesystem]
  by_cases hmagic : super.byte 56 ≠ 0x53 ∨ super.byte 57 ≠ 0xef ∨
      super.logBlockSize > 6
  · rw [if_pos hmagic]
    constructor
    · intro h
      cases h
    · rintro ⟨h56, h57, hlog, -⟩
      rcases hmagic with h | h | h
      · exact absurd h56 h
      · exact absurd h57 h
      · omega
  · rw [if_neg hmagic]
    obtain ⟨h56, h57, hlog⟩ := by
      simpa only [not_or, not_not, not_lt, ne_eq] using hmagic
    split_ifs with hroom
    · rw [Option.some.injEq, Prod.mk.injEq]
      constructor
      · rintro ⟨rfl, rfl⟩
        exact ⟨h56, h57, hlog, rfl, rfl, hroom⟩
      · rintro ⟨-, -, -, rfl, rfl, -⟩
        exact ⟨rfl, rfl⟩
    · constructor
      · intro h
        cases h
      · rintro ⟨-, -, -, rfl, rfl, hroom'⟩
        exact absurd hroom' hroom

/-- After a resizing that succeeds, the plan goes on from the new count to the
same target. -/
theorem planFilesystem_grown {env : GrowEnv} (hsets : SetsBlocks env)
    {super grown : Superblock} {partitionBytes current target next i : Nat}
    (hplan : planFilesystem super partitionBytes = some (current, target))
    (hresize : env.resize i super next = some grown) (hpos : 0 < next)
    (hle : next ≤ target) :
    planFilesystem grown partitionBytes = some (next, target) := by
  obtain ⟨h56, h57, hlog, -, htarget, -⟩ := planFilesystem_eq_some.mp hplan
  obtain ⟨g56, g57, glog, gblocks⟩ := hsets i super next grown hresize
  have hsize : grown.blockSize = super.blockSize := by
    rw [Superblock.blockSize, glog, Superblock.blockSize]
  apply planFilesystem_eq_some.mpr
  exact ⟨g56.trans h56, g57.trans h57, by omega, gblocks,
    by rw [hsize, htarget], hpos, hle⟩

theorem nextBlocks_bounds {step target current : Nat} (hstep : 0 < step)
    (h : current < target) :
    current < nextBlocks step target current ∧
      nextBlocks step target current ≤ target := by
  rw [nextBlocks]
  split_ifs <;> omega

/-- How a run from turn `i` ends: at the target, or because the last thing
that was asked for failed. -/
def Ends (env : GrowEnv) (partitionBytes target i : Nat) (run : GrowRun) :
    Prop :=
  (run.result = .ok () ∧
    planFilesystem run.super partitionBytes = some (target, target)) ∨
  ∃ (last : Nat) (reason : Bytes), run.result = .error reason ∧
    i + run.issued.length = last + 1 ∧
    ((∃ (super : Superblock) (next : Nat),
      env.resize last super next = none) ∨ env.readable last = false)

theorem growLoop_spec {env : GrowEnv} (hsets : SetsBlocks env)
    {partitionBytes step target : Nat} (hstep : 0 < step) (i : Nat)
    {super : Superblock} {current : Nat}
    (hplan : planFilesystem super partitionBytes = some (current, target)) :
    ∃ run : GrowRun,
      (∀ fuel : Nat, target - current ≤ fuel →
        growLoop env partitionBytes step target fuel i super current =
          some run) ∧
      (current :: run.issued).Pairwise (· < ·) ∧
      (∀ next ∈ run.issued, next ≤ target) ∧
      Ends env partitionBytes target i run := by
  induction hn : target - current using Nat.strong_induction_on
    generalizing i super current with
  | h n ih =>
      have hle := (planFilesystem_eq_some.mp hplan).2.2.2.2.2.2
      by_cases hlt : current < target
      · obtain ⟨hmore, hmost⟩ := nextBlocks_bounds hstep hlt
        have hone : [current, nextBlocks step target current].Pairwise
            (· < ·) := by simp [hmore]
        cases hresize : env.resize i super
            (nextBlocks step target current) with
        | none =>
            refine ⟨⟨[nextBlocks step target current], super,
              .error (ascii "grow ext4 filesystem")⟩, ?_, hone, ?_, ?_⟩
            · intro fuel hfuel
              obtain ⟨fuel, rfl⟩ := Nat.exists_eq_succ_of_ne_zero
                (show fuel ≠ 0 by omega)
              rw [growLoop, if_pos hlt]
              simp only [hresize]
            · simp [hmost]
            · exact .inr ⟨i, _, rfl, rfl, .inl ⟨super, _, hresize⟩⟩
        | some grown =>
            have hgrown := planFilesystem_grown hsets hplan hresize
              (by omega) hmost
            cases hread : env.readable i with
            | false =>
                refine ⟨⟨[nextBlocks step target current], grown,
                  .error (ascii "verify expanded ext4 filesystem")⟩, ?_,
                  hone, ?_, ?_⟩
                · intro fuel hfuel
                  obtain ⟨fuel, rfl⟩ := Nat.exists_eq_succ_of_ne_zero
                    (show fuel ≠ 0 by omega)
                  rw [growLoop, if_pos hlt]
                  simp [hresize, hread]
                · simp [hmost]
                · exact .inr ⟨i, _, rfl, rfl, .inr hread⟩
            | true =>
                obtain ⟨run, hrun, hsorted, hbound, hends⟩ :=
                  ih (target - nextBlocks step target current) (by omega)
                    (i + 1) hgrown rfl
                refine ⟨⟨nextBlocks step target current :: run.issued,
                  run.super, run.result⟩, ?_, ?_, ?_, ?_⟩
                · intro fuel hfuel
                  obtain ⟨fuel, rfl⟩ := Nat.exists_eq_succ_of_ne_zero
                    (show fuel ≠ 0 by omega)
                  rw [growLoop, if_pos hlt]
                  simp [hresize, hread, hgrown, hrun fuel (by omega)]
                · apply List.pairwise_cons.mpr
                  refine ⟨?_, hsorted⟩
                  intro next hnext
                  rcases List.mem_cons.mp hnext with rfl | hnext
                  · exact hmore
                  · exact hmore.trans
                      ((List.pairwise_cons.mp hsorted).1 next hnext)
                · intro next hnext
                  rcases List.mem_cons.mp hnext with rfl | hnext
                  · exact hmost
                  · exact hbound next hnext
                · rcases hends with hdone | ⟨last, reason, hresult, hlen, hfail⟩
                  · exact .inl hdone
                  · refine .inr ⟨last, reason, hresult, ?_, hfail⟩
                    rw [List.length_cons]
                    omega
      · obtain rfl : current = target := by omega
        refine ⟨⟨[], super, .ok ()⟩, ?_, by simp, by simp, .inl ⟨rfl, hplan⟩⟩
        intro fuel _
        cases fuel with
        | zero => rw [growLoop, if_neg hlt]
        | succ fuel => rw [growLoop, if_neg hlt]

theorem blockSize_le {super : Superblock} (h : super.logBlockSize ≤ 6) :
    0 < super.blockSize ∧ super.blockSize ≤ 2 ^ 16 := by
  rw [Superblock.blockSize, Nat.shiftLeft_eq]
  constructor
  · positivity
  · calc 1024 * 2 ^ super.logBlockSize ≤ 1024 * 2 ^ 6 :=
          Nat.mul_le_mul_left _ (Nat.pow_le_pow_right (by decide) h)
      _ = 2 ^ 16 := by norm_num

/-- The superblock with another lower half of its count. -/
def Superblock.setBlocks (super : Superblock) (next : Nat) : Superblock :=
  ⟨write32 super.b 4 next, by
    rw [FixedRecord.length_write32 (by rw [super.length]; decide),
      super.length]⟩

/-- A kernel that refuses a count of more than 32 bits. -/
def plainKernel : GrowEnv where
  mounted := .ok ()
  resize := fun _ super next =>
    if (super.setBlocks next).blocks = next then some (super.setBlocks next)
    else none
  readable := fun _ => true

theorem byte_setBlocks (super : Superblock) (next : Nat) {i : Nat}
    (hi : 8 ≤ i) : (super.setBlocks next).byte i = super.byte i := by
  have hsame : (super.setBlocks next).b[i]? = super.b[i]? :=
    getElem?_write32 (by rw [super.length]; decide) (.inr hi)
  rw [Superblock.byte, Superblock.byte, List.getD_eq_getElem?_getD,
    List.getD_eq_getElem?_getD, hsame]

theorem setsBlocks_plainKernel : SetsBlocks plainKernel := by
  intro i super next grown h
  simp only [plainKernel] at h
  split_ifs at h with hcount
  obtain rfl := Option.some.inj h
  exact ⟨byte_setBlocks super next (by decide),
    byte_setBlocks super next (by decide),
    read32_write32_of_disjoint (by rw [super.length]; decide) (by decide),
    hcount⟩

/-- The superblock of a file system of 300000 blocks of 4 KiB. -/
def smallSuper : Superblock :=
  ⟨((List.replicate 1024 (0 : UInt8)).set 56 0x53).set 57 0xef |>.set 24 2
    |>.set 4 0xe0 |>.set 5 0x93 |>.set 6 0x04, by
    simp only [List.length_set, List.length_replicate]⟩

end Audiox
