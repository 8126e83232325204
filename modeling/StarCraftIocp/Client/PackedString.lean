import Mathlib.Data.List.DropRight
import StarCraftIocp.Lib.Single

/-!
# Strings in words

A string travels in a message as a list of 32-bit words, four characters to a word.
A `string` is a list of UTF-16 code units. Its length in words comes from a division
in `float`.
-/

namespace StarCraftIocp.GlobalUtils

/-- `Encoding.ASCII.GetBytes`. What is not ASCII becomes a question mark. -/
def asciiGetBytes (str : List UInt16) : List UInt8 := str.map fun c => if c < 128 then c.toUInt8 else 63

/-- `Encoding.ASCII.GetString`. -/
def asciiGetString (bytes : List UInt8) : List UInt16 := bytes.map fun b => if b < 128 then b.toUInt16 else 63

/-! ## PackStringToBytes -/

/-- `(int)Math.Ceiling(length / 4f)`: dividing by 4 and rounding up are exact. -/
def uintCount (length : Nat) : Nat := (Single.ofNat length + 3) / 4

/-- What the inner loop adds at an index. -/
def byteAt (bytes : List UInt8) (index : Nat) : UInt8 :=
  if h : index < bytes.length then bytes[index] else 0

/-- The body of the inner loop. -/
def packByte (bytes : List UInt8) (packed : UInt32) (index : Nat) : UInt32 :=
  (packed <<< 8) ||| (byteAt bytes index).toUInt32

/-- The inner loop, from `index` on. -/
def packWord (bytes : List UInt8) (index : Nat) : UInt32 :=
  (List.range' index 4).foldl (packByte bytes) 0

/-- The outer loop. -/
def packLoop (bytes : List UInt8) : Nat → Nat → List UInt32
  | 0, _ => []
  | n + 1, index => packWord bytes index :: packLoop bytes n (index + 4)

/-- `PackStringToBytes`. -/
def packStringToBytes (str : List UInt16) : List UInt32 :=
  let bytes := asciiGetBytes str
  packLoop bytes (uintCount bytes.length) 0

/-! ## UnpackBytesToString -/

/-- `b1` to `b4`. -/
def unpackWord (value : UInt32) : List UInt8 :=
  [((value >>> 24) &&& 255).toUInt8, ((value >>> 16) &&& 255).toUInt8, ((value >>> 8) &&& 255).toUInt8,
    (value &&& 255).toUInt8]

/-- The `while` loop: bytes are removed at the end as long as they are 0. -/
def trim (byteList : List UInt8) : List UInt8 := byteList.rdropWhile (· = 0)

/-- `UnpackBytesToString`. -/
def unpackBytesToString (packedData : List UInt32) : List UInt16 :=
  asciiGetString (trim (packedData.flatMap unpackWord))

end StarCraftIocp.GlobalUtils
