import Audiox.Support.ByteCodec
import Mathlib

/-!
# Records of fixed layout

A record is a byte string with fields at fixed positions.  Writing a field
leaves the others as they are.
-/

namespace FixedRecord

open ByteCodec

/-- The field of `n` bytes at a position. -/
def field (record : Bytes) (pos n : Nat) : Bytes :=
  (record.drop pos).take n

/-- The record with other bytes at a position. -/
def put (record : Bytes) (pos : Nat) (bytes : Bytes) : Bytes :=
  record.take pos ++ bytes ++ record.drop (pos + bytes.length)

section

variable {record bytes : Bytes} {pos n : Nat}

theorem length_field (h : pos + n ≤ record.length) :
    (field record pos n).length = n := by
  rw [field, List.length_take, List.length_drop]
  omega

theorem length_put (h : pos + bytes.length ≤ record.length) :
    (put record pos bytes).length = record.length := by
  rw [put, List.length_append, List.length_append, List.length_take,
    List.length_drop]
  omega

/-- Outside the field that is written every byte stays. -/
theorem getElem?_put (h : pos + bytes.length ≤ record.length) {i : Nat}
    (hi : i < pos ∨ pos + bytes.length ≤ i) :
    (put record pos bytes)[i]? = record[i]? := by
  have htake : (record.take pos).length = pos := by
    rw [List.length_take]
    omega
  rw [put]
  rcases hi with hi | hi
  · rw [List.append_assoc, List.getElem?_append_left (by omega),
      List.getElem?_take_of_lt hi]
  · rw [List.getElem?_append_right (by
        rw [List.length_append, htake]
        exact hi), List.length_append, htake, List.getElem?_drop]
    congr 1
    omega

/-- A field is made of the bytes at its positions. -/
theorem field_congr {record' : Bytes} {m : Nat}
    (h : ∀ i, m ≤ i → i < m + n → record'[i]? = record[i]?) :
    field record' m n = field record m n := by
  apply List.ext_getElem?
  intro i
  rw [field, field]
  by_cases hi : i < n
  · rw [List.getElem?_take_of_lt hi, List.getElem?_take_of_lt hi,
      List.getElem?_drop, List.getElem?_drop]
    exact h (m + i) (by omega) (by omega)
  · rw [List.getElem?_take_eq_none (by omega),
      List.getElem?_take_eq_none (by omega)]

theorem field_put_of_disjoint (h : pos + bytes.length ≤ record.length)
    {m : Nat} (hdisjoint : m + n ≤ pos ∨ pos + bytes.length ≤ m) :
    field (put record pos bytes) m n = field record m n := by
  apply field_congr
  intro i hlow hhigh
  exact getElem?_put h (by omega)

/-- The field that is written has the bytes. -/
theorem field_put (h : pos + bytes.length ≤ record.length) :
    field (put record pos bytes) pos bytes.length = bytes := by
  have htake : (record.take pos).length = pos := by
    rw [List.length_take]
    omega
  rw [field, put, List.append_assoc, List.drop_left' htake,
    List.take_left' rfl]

/-- The last of two writings at one place counts. -/
theorem put_put {bytes' : Bytes} (h : pos + bytes.length ≤ record.length)
    (hlen : bytes'.length = bytes.length) :
    put (put record pos bytes) pos bytes' = put record pos bytes' := by
  have htake : (record.take pos).length = pos := by
    rw [List.length_take]
    omega
  rw [put, put, put, hlen]
  congr 1
  · rw [List.append_assoc, List.take_left' htake]
  · rw [List.drop_left' (by rw [List.length_append, htake])]

/-- A field of a field. -/
theorem field_field {m k : Nat} (h : m + k ≤ n) :
    field (field record pos n) m k = field record (pos + m) k := by
  rw [field, field, field, List.drop_take, List.take_take, List.drop_drop,
    min_eq_left (by omega)]

theorem length_field_le (record : Bytes) (pos n : Nat) :
    (field record pos n).length ≤ n :=
  List.length_take_le _ _

/-- A field that is not there in full is shorter. -/
theorem length_field_eq_iff (hn : 0 < n) :
    (field record pos n).length = n ↔ pos + n ≤ record.length := by
  rw [field, List.length_take, List.length_drop]
  omega

end

/-! ## Numbers of 32 bits -/

def read32 (record : Bytes) (pos : Nat) : Nat :=
  leNat (field record pos 4)

def write32 (record : Bytes) (pos v : Nat) : Bytes :=
  put record pos (leBytes 4 v)

section

variable {record : Bytes} {pos v : Nat}

theorem read32_lt (record : Bytes) (pos : Nat) : read32 record pos < 2 ^ 32 := by
  have hlt := leNat_lt (field record pos 4)
  have hlen : (field record pos 4).length ≤ 4 := List.length_take_le _ _
  calc read32 record pos < 256 ^ (field record pos 4).length := hlt
    _ ≤ 256 ^ 4 := Nat.pow_le_pow_right (by omega) hlen
    _ = 2 ^ 32 := by norm_num

theorem length_write32 (h : pos + 4 ≤ record.length) :
    (write32 record pos v).length = record.length :=
  length_put (by rwa [length_leBytes])

theorem read32_write32 (h : pos + 4 ≤ record.length) (hv : v < 2 ^ 32) :
    read32 (write32 record pos v) pos = v := by
  have hfield := @field_put record (leBytes 4 v) pos (by rwa [length_leBytes])
  rw [length_leBytes] at hfield
  rw [read32, write32, hfield]
  exact leNat_leBytes_of_lt (by norm_num; exact hv)

theorem read32_write32_of_disjoint (h : pos + 4 ≤ record.length) {m : Nat}
    (hdisjoint : m + 4 ≤ pos ∨ pos + 4 ≤ m) :
    read32 (write32 record pos v) m = read32 record m := by
  rw [read32, write32, field_put_of_disjoint (by rwa [length_leBytes])
    (by rwa [length_leBytes]), read32]

theorem getElem?_write32 (h : pos + 4 ≤ record.length) {i : Nat}
    (hi : i < pos ∨ pos + 4 ≤ i) :
    (write32 record pos v)[i]? = record[i]? :=
  getElem?_put (by rwa [length_leBytes]) (by rwa [length_leBytes])

theorem write32_write32 (h : pos + 4 ≤ record.length) {v' : Nat} :
    write32 (write32 record pos v) pos v' = write32 record pos v' :=
  put_put (by rwa [length_leBytes]) (by rw [length_leBytes, length_leBytes])

end

end FixedRecord
