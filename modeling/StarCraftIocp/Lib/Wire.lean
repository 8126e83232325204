import StarCraftIocp.Lib.Bytes

/-!
# The protocol buffer wire format

What a serialized proto3 message consists of: fields, each a tag followed by a
varint, a fixed 32-bit word or a length and that many bytes. A scalar field with
its default value is left out; a sub-message that is present is written even
when it is empty.
-/

namespace StarCraftIocp.Wire

/-- At most `k` groups of seven bits, low group first, all but the last flagged. -/
def groups : Nat → Nat → List UInt8
  | 0, _ => []
  | k + 1, n => if n < 128 then [UInt8.ofNat n] else UInt8.ofNat (n % 128 + 128) :: groups k (n / 128)

/-- A 64-bit value takes at most ten groups. -/
def varint (n : Nat) : List UInt8 := groups 10 n

def tag (field wireType : Nat) : List UInt8 := varint (field * 8 + wireType)

/-- An integer, boolean or enumeration field. -/
def varintField (field n : Nat) : List UInt8 := if n = 0 then [] else tag field 0 ++ varint n

/-- A length-delimited value, written whatever it contains: a sub-message that is present. -/
def lenField (field : Nat) (bs : List UInt8) : List UInt8 :=
  tag field 2 ++ varint bs.length ++ bs

/-- A `string` or `bytes` field. -/
def bytesField (field : Nat) (bs : List UInt8) : List UInt8 :=
  if bs = [] then [] else lenField field bs

/-- A `float` field, given by its bit pattern. -/
def fixed32Field (field : Nat) (bits : Nat) : List UInt8 :=
  if bits = 0 then [] else tag field 5 ++ (Bytes.le16 (bits % 65536) ++ Bytes.le16 (bits / 65536))

/-- A repeated sub-message field. -/
def repeatedField (field : Nat) (items : List (List UInt8)) : List UInt8 :=
  (items.map (lenField field)).flatten

/-! ## Lengths -/

theorem length_groups (k n : Nat) : (groups k n).length ≤ k := by
  induction k generalizing n with
  | zero => simp [groups]
  | succ k ih =>
      unfold groups
      split
      · simp
      · have := ih (n / 128)
        simp only [List.length_cons]; omega

theorem length_varint (n : Nat) : (varint n).length ≤ 10 := length_groups 10 n

theorem length_tag (field wireType : Nat) : (tag field wireType).length ≤ 10 := length_varint _

theorem length_varintField (field n : Nat) : (varintField field n).length ≤ 20 := by
  have h1 := length_tag field 0
  have h2 := length_varint n
  unfold varintField
  split
  · simp
  · rw [List.length_append]; omega

theorem length_lenField (field : Nat) (bs : List UInt8) :
    (lenField field bs).length ≤ 20 + bs.length := by
  have h1 := length_tag field 2
  have h2 := length_varint bs.length
  unfold lenField
  rw [List.length_append, List.length_append]; omega

theorem length_fixed32Field (field bits : Nat) : (fixed32Field field bits).length ≤ 14 := by
  have h1 := length_tag field 5
  unfold fixed32Field
  split
  · simp
  · simp only [List.length_append, Bytes.length_le16]; omega

/-- A `bytes` field is no shorter than its contents. -/
theorem le_length_bytesField (field : Nat) (bs : List UInt8) :
    bs.length ≤ (bytesField field bs).length := by
  unfold bytesField
  split
  · rename_i h; simp [h]
  · unfold lenField
    rw [List.length_append]; omega

end StarCraftIocp.Wire
