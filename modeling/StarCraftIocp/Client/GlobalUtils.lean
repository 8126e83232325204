import StarCraftIocp.GameServer.MapMaker

/-!
# The client's map files

`GlobalUtils` takes a map file apart for the game client, which has its own copy of
the section codes. `none` stands for an exception. A `byte[]` is shorter than `2^31`
bytes, so that an offset into one is an `int`.
-/

namespace StarCraftIocp.GlobalUtils

/-- `BitConverter.ToUInt16`. -/
def toUInt16 (data : List UInt8) (index : Int) : Option Nat :=
  if 0 ≤ index ∧ index + 2 ≤ data.length then some (Bytes.readLe16 data index.toNat) else none

/-- `BitConverter.ToInt16`. -/
def toInt16 (data : List UInt8) (index : Int) : Option Int :=
  if 0 ≤ index ∧ index + 2 ≤ data.length then some (CInt.int16 (Bytes.readLe16 data index.toNat))
  else none

/-- `BitConverter.ToInt32`. -/
def toInt32 (data : List UInt8) (index : Int) : Option Int :=
  if 0 ≤ index ∧ index + 4 ≤ data.length then some (CInt.int32 (Bytes.readLe32 data index.toNat))
  else none

/-- `new byte[length]`, and `Buffer.BlockCopy` from `index` to its beginning. -/
def blockCopy (data : List UInt8) (index length : Int) : Option (List UInt8) :=
  if 0 ≤ length ∧ 0 ≤ index ∧ index + length ≤ data.length
    then some (Bytes.slice data index.toNat length.toNat) else none

/-- `ExtractionMapHash`: what it returns, and `bytes`. There may be no file. -/
def extractionMapHash (file : Option (List UInt8)) : Option (Bool × List UInt8) :=
  match file with
  | none => some (false, [])
  | some data => do
      let sectionCode ← toUInt16 data 0
      if sectionCode ≠ MapSection.hash then return (false, [])
      else do
        let length ← toInt32 data 2
        let hash ← blockCopy data 6 length
        return (true, hash)

/-- The loop of `ExtractionMapSection`. -/
def sectionLoop (mapData : List UInt8) :
    Nat → Int → Std.ExtTreeMap MapSection (List UInt8) → Option (Std.ExtTreeMap MapSection (List UInt8))
  | 0, _, _ => none
  | fuel + 1, index, dictionary =>
      if index < mapData.length then do
        let sectionCode ← toUInt16 mapData index
        let length ← toInt32 mapData (index + 2)
        let index := index + 6
        if CInt.int32 (index + length) > mapData.length then return dictionary
        else do
          let data ← blockCopy mapData index length
          sectionLoop mapData fuel (index + length) (dictionary.insert sectionCode data)
      else return dictionary

/-- `ExtractionMapSection`. -/
def extractionMapSection (mapData : List UInt8) : Option (Std.ExtTreeMap MapSection (List UInt8)) :=
  sectionLoop mapData (mapData.length + 1) 0 ∅

end StarCraftIocp.GlobalUtils
