import Mathlib.Tactic.Common
import Mathlib.Data.List.Basic

/-!
# Bytes in memory

A region of memory is a list of bytes. `write` is `memcpy` into it, `readLe16`
and `le16` are a 16-bit load and store on a little-endian machine, `readLe32` and
`le32` the same for 32 bits.
-/

namespace StarCraftIocp.Bytes

/-- Copy `bs` into the region `m` at `pos`. -/
def write (m : List UInt8) (pos : Nat) (bs : List UInt8) : List UInt8 :=
  m.take pos ++ bs ++ m.drop (pos + bs.length)

/-- The `n` bytes of `m` from `pos` on. -/
def slice (m : List UInt8) (pos n : Nat) : List UInt8 := (m.drop pos).take n

/-- A 16-bit value as two bytes, low byte first. -/
def le16 (n : Nat) : List UInt8 := [UInt8.ofNat n, UInt8.ofNat (n / 256)]

/-- The 16-bit value stored at `pos`. -/
def readLe16 (m : List UInt8) (pos : Nat) : Nat :=
  (m.getD pos 0).toNat + 256 * (m.getD (pos + 1) 0).toNat

@[simp] theorem length_le16 (n : Nat) : (le16 n).length = 2 := rfl

/-- A load looks at two bytes only. -/
theorem readLe16_append {a b : List UInt8} {pos : Nat} (h : pos + 2 ≤ a.length) :
    readLe16 (a ++ b) pos = readLe16 a pos := by
  unfold readLe16
  simp only [List.getD_eq_getElem?_getD]
  rw [List.getElem?_append_left (by omega), List.getElem?_append_left (by omega)]

theorem readLe16_drop (m : List UInt8) (k pos : Nat) :
    readLe16 (m.drop k) pos = readLe16 m (k + pos) := by
  simp [readLe16, List.getD_eq_getElem?_getD, List.getElem?_drop, Nat.add_assoc]

/-- A load at the place of a store gives the stored value. -/
theorem readLe16_le16 {n : Nat} (h : n < 65536) (a r : List UInt8) :
    readLe16 (a ++ le16 n ++ r) a.length = n := by
  have h0 : readLe16 (a ++ le16 n ++ r) a.length = readLe16 (le16 n ++ r) 0 := by
    have := readLe16_drop (a ++ le16 n ++ r) a.length 0
    simp only [List.append_assoc, List.drop_left, Nat.add_zero] at this
    simpa using this.symm
  rw [h0]
  simp only [readLe16, le16, List.cons_append, List.getD_cons_zero, List.getD_cons_succ,
    UInt8.toNat_ofNat']
  omega

theorem readLe16_lt (m : List UInt8) (pos : Nat) : readLe16 m pos < 65536 := by
  have hlow := (m.getD pos 0).toNat_lt
  have hhigh := (m.getD (pos + 1) 0).toNat_lt
  unfold readLe16
  omega

theorem le16_inj {m n : Nat} (hm : m < 65536) (hn : n < 65536) (h : le16 m = le16 n) : m = n := by
  rw [← readLe16_le16 hm [] [], ← readLe16_le16 hn [] [], h]

/-- Behind a prefix a load looks at the rest. -/
theorem readLe16_append_right (a b : List UInt8) (pos : Nat) :
    readLe16 (a ++ b) (a.length + pos) = readLe16 b pos := by
  rw [← readLe16_drop, List.drop_left]

/-- A 32-bit value as four bytes, low byte first. -/
def le32 (n : Nat) : List UInt8 := le16 n ++ le16 (n / 65536)

/-- The 32-bit value stored at `pos`. -/
def readLe32 (m : List UInt8) (pos : Nat) : Nat := readLe16 m pos + 65536 * readLe16 m (pos + 2)

@[simp] theorem length_le32 (n : Nat) : (le32 n).length = 4 := rfl

theorem readLe32_append {a b : List UInt8} {pos : Nat} (h : pos + 4 ≤ a.length) :
    readLe32 (a ++ b) pos = readLe32 a pos := by
  unfold readLe32
  rw [readLe16_append (by omega), readLe16_append (by omega)]

theorem readLe32_append_right (a b : List UInt8) (pos : Nat) :
    readLe32 (a ++ b) (a.length + pos) = readLe32 b pos := by
  unfold readLe32
  rw [readLe16_append_right, Nat.add_assoc, readLe16_append_right]

theorem readLe32_le32 {n : Nat} (h : n < 4294967296) (r : List UInt8) : readLe32 (le32 n ++ r) 0 = n := by
  have hlow : readLe16 (le32 n ++ r) 0 = n % 65536 := by
    simp only [readLe16, le32, le16, List.cons_append, List.nil_append, List.getD_cons_zero,
      List.getD_cons_succ, UInt8.toNat_ofNat']
    omega
  have hhigh : readLe16 (le32 n ++ r) 2 = n / 65536 := by
    simp only [readLe16, le32, le16, List.cons_append, List.nil_append, List.getD_cons_zero,
      List.getD_cons_succ, UInt8.toNat_ofNat']
    omega
  unfold readLe32
  rw [hlow, hhigh]
  omega

/-! ## Records of one length -/

section

variable {α : Type} {encode : α → List UInt8} {k : Nat} (hk : ∀ a, (encode a).length = k)

include hk

theorem length_flatMap (l : List α) : (l.flatMap encode).length = k * l.length := by
  induction l with
  | nil => rfl
  | cons a l ih => rw [List.flatMap_cons, List.length_append, hk, ih, List.length_cons, Nat.mul_succ,
    Nat.add_comm]

theorem flatMap_eq_nil_iff (hpos : 0 < k) (l : List α) : l.flatMap encode = [] ↔ l = [] := by
  rw [← List.length_eq_zero_iff, length_flatMap hk, Nat.mul_eq_zero, or_iff_right (Nat.ne_of_gt hpos),
    List.length_eq_zero_iff]

/-- Records of one length can be told apart without anything between them. -/
theorem flatMap_injective (hpos : 0 < k) (hencode : Function.Injective encode) :
    Function.Injective (List.flatMap encode) := by
  intro l
  induction l with
  | nil =>
      intro l' h
      have hlen := congrArg List.length h
      rw [length_flatMap hk, length_flatMap hk, List.length_nil, Nat.mul_zero] at hlen
      rcases Nat.mul_eq_zero.mp hlen.symm with hzero | hzero
      · exact absurd hzero (Nat.ne_of_gt hpos)
      · exact (List.eq_nil_of_length_eq_zero hzero).symm
  | cons a l ih =>
      intro l' h
      cases l' with
      | nil =>
          have hlen := congrArg List.length h
          rw [length_flatMap hk, length_flatMap hk, List.length_nil, List.length_cons, Nat.mul_succ,
            Nat.mul_zero] at hlen
          omega
      | cons b l' =>
          rw [List.flatMap_cons, List.flatMap_cons] at h
          obtain ⟨hhead, htail⟩ := List.append_inj h (by rw [hk, hk])
          rw [hencode hhead, ih htail]

/-- A load inside one record of many. -/
theorem readLe16_flatMap_append {l : List α} {i : Nat} {a : α} (hi : l[i]? = some a) {pos : Nat}
    (hpos : pos + 2 ≤ k) (r : List UInt8) :
    readLe16 (l.flatMap encode ++ r) (k * i + pos) = readLe16 (encode a) pos := by
  induction l generalizing i with
  | nil => cases hi
  | cons b l ih =>
      rw [List.flatMap_cons, List.append_assoc]
      cases i with
      | zero =>
          obtain rfl : b = a := by simpa using hi
          rw [Nat.mul_zero, Nat.zero_add]
          exact readLe16_append (by rw [hk]; exact hpos)
      | succ i =>
          rw [Nat.mul_succ, Nat.add_right_comm, Nat.add_comm, ← hk b, readLe16_append_right, hk b]
          exact ih (by simpa using hi)

theorem readLe16_flatMap {l : List α} {i : Nat} {a : α} (hi : l[i]? = some a) {pos : Nat}
    (hpos : pos + 2 ≤ k) : readLe16 (l.flatMap encode) (k * i + pos) = readLe16 (encode a) pos := by
  have := readLe16_flatMap_append hk hi hpos []
  rwa [List.append_nil] at this

/-- A reader of records, applied to records that were written. -/
theorem map_range_flatMap_zipIdx {β : Type} (hpos : 0 < k) {read : Nat → β} {value : α → Nat → β}
    {l : List α} (hread : ∀ i a, l[i]? = some a → read i = value a i) :
    (List.range ((l.flatMap encode).length / k)).map read = l.zipIdx.map fun p => value p.1 p.2 := by
  rw [length_flatMap hk, Nat.mul_div_cancel_left _ hpos]
  refine List.ext_getElem? fun i => ?_
  rw [List.getElem?_map, List.getElem?_map, List.getElem?_zipIdx, Nat.zero_add]
  by_cases hi : i < l.length
  · have hget : l[i]? = some l[i] := List.getElem?_eq_getElem hi
    rw [List.getElem?_range hi, hget, Option.map_some, hread i _ hget]
    rfl
  · rw [List.getElem?_eq_none (by rw [List.length_range]; omega), List.getElem?_eq_none (by omega)]
    rfl

theorem map_range_flatMap {β : Type} (hpos : 0 < k) {read : Nat → β} {value : α → β} {l : List α}
    (hread : ∀ (i : Nat) a, l[i]? = some a → read i = value a) :
    (List.range ((l.flatMap encode).length / k)).map read = l.map value := by
  have hidx := map_range_flatMap_zipIdx hk hpos fun i a hi => hread i a hi
  have hfst : (l.zipIdx.map Prod.fst).map value = l.map value := by
    rw [List.zipIdx_map_fst]
  rw [hidx, ← hfst, List.map_map]
  rfl

end

/-! ## Writing and reading back -/

theorem length_write {m bs : List UInt8} {pos : Nat} (h : pos + bs.length ≤ m.length) :
    (write m pos bs).length = m.length := by
  simp only [write, List.length_append, List.length_take, List.length_drop]; omega

theorem length_slice {m : List UInt8} {pos n : Nat} (h : pos + n ≤ m.length) :
    (slice m pos n).length = n := by
  simp only [slice, List.length_take, List.length_drop]; omega

/-- Writing right behind a slice extends it by what was written. -/
theorem slice_write {m bs : List UInt8} {pos n : Nat} (h : pos + n + bs.length ≤ m.length) :
    slice (write m (pos + n) bs) pos (n + bs.length) = slice m pos n ++ bs := by
  have htake : (m.take (pos + n)).length = pos + n := by
    rw [List.length_take]; omega
  unfold slice write
  rw [List.append_assoc, List.drop_append_of_le_length (by omega),
    ← List.append_assoc, List.take_append_of_le_length (by
      rw [List.length_append, List.length_drop]; omega)]
  rw [List.take_of_length_le (by rw [List.length_append, List.length_drop]; omega),
    List.drop_take]
  simp

/-- Moving a slice to the front keeps its bytes. -/
theorem slice_write_zero (m bs : List UInt8) :
    slice (write m 0 bs) 0 bs.length = bs := by
  simp [slice, write]

/-- A slice with its first `k` bytes dropped is a later slice. -/
theorem slice_drop {m : List UInt8} {pos n k : Nat} :
    slice m (pos + k) (n - k) = (slice m pos n).drop k := by
  simp [slice, List.drop_take, List.drop_drop]

end StarCraftIocp.Bytes
