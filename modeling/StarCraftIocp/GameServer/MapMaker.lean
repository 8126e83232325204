import StarCraftIocp.GameServer.GameObject
import StarCraftIocp.Lib.Traced
import Std.Data.ExtTreeMap

/-!
# The server's map loader

`MapMaker` reads a map file into memory and takes it apart section by section. It
does so with `memcpy` at computed offsets; every `memcpy` is recorded, with the
sizes of what it reads from and writes to. `behind` is what lies in memory behind a
buffer, which is what a read over its end finds there.
-/

namespace StarCraftIocp

/-- `enum class MapSection : uint16`, which a section's code is cast to unchecked. -/
abbrev MapSection : Type := Nat

namespace MapSection

def hash : MapSection := 0

def ownr : MapSection := 1

def size : MapSection := 2

def mtxm : MapSection := 3

def reso : MapSection := 4

def spos : MapSection := 5

end MapSection

structure ResourceEntry where
  type : Nat
  x : Int
  y : Int
  deriving Repr, DecidableEq

/-- `MapSectionData` with the members that no game reads. -/
structure LoadedMap extends MapSectionData where
  sections : Std.ExtTreeMap MapSection (List UInt8)
  playerCount : Nat
  tiles : List Nat
  scale : Nat
  resources : List ResourceEntry

/-- A `memcpy` of `size` bytes from an offset of a buffer to a member, vector or local. -/
structure Memcpy where
  offset : Int
  /-- The size of the buffer. -/
  source : Nat
  size : Nat
  /-- The size of what is written to. -/
  dest : Nat
  deriving Repr, DecidableEq

/-- It reads inside the buffer, and writes no more than there is room for. -/
def Memcpy.Safe (c : Memcpy) : Prop := 0 ≤ c.offset ∧ c.offset + c.size ≤ c.source ∧ c.size ≤ c.dest

instance (c : Memcpy) : Decidable c.Safe := inferInstanceAs (Decidable (_ ∧ _ ∧ _))

/-- What `SetHashToMap` comes to. -/
inductive MapLoad where
  /-- It returns true, and has stored the map under the hash. -/
  | accepted (hash : List UInt8) (map : LoadedMap)
  /-- It returns false. -/
  | refused
  /-- `string::assign` throws: a negative length is a huge `size_t`. -/
  | lengthError

/-- What `GetHashData` comes to. -/
inductive HashLoad where
  /-- It returns true, with this in `mapHash`. -/
  | found (mapHash : List UInt8)
  /-- It returns false. -/
  | notFound
  /-- `vector::resize` throws: a negative length is a huge `size_t`. -/
  | lengthError

namespace LoadedMap

/-- `MakeShared<MapSectionData>()`, which zeroes the members without an initializer. -/
def new : LoadedMap where
  mapWidth := 0
  mapHeight := 0
  height := []
  playerPos := []
  sections := ∅
  playerCount := 0
  tiles := []
  scale := 0
  resources := []

end LoadedMap

namespace MapMaker

section

variable (behind : List UInt8 → List UInt8)

/-- A `uint16` is copied from the data. -/
def copy16 (data : List UInt8) (index : Int) : Traced Memcpy Nat where
  value := Bytes.readLe16 (data ++ behind data) index.toNat
  trace := [⟨index, data.length, 2, 2⟩]

/-- An `int32` is copied from the data. -/
def copy32 (data : List UInt8) (index : Int) : Traced Memcpy Int where
  value := CInt.int32 (Bytes.readLe32 (data ++ behind data) index.toNat)
  trace := [⟨index, data.length, 4, 4⟩]

/-- A vector of this size is filled from the data. -/
def copyBytes (data : List UInt8) (index : Int) (size : Nat) : Traced Memcpy (List UInt8) where
  value := (List.range size).map fun i => (data ++ behind data).getD (index.toNat + i) 0
  trace := [⟨index, data.length, size, size⟩]

/-- The `RESO` loop. -/
def resourceLoop (data : List UInt8) : Nat → Nat → Traced Memcpy (List ResourceEntry)
  | 0, _ => pure []
  | fuel + 1, index =>
      if index < data.length then
        if index + 6 > data.length then pure []
        else do
          let type ← copy16 behind data index
          let x ← copy16 behind data (index + 2)
          let y ← copy16 behind data (index + 4)
          let entries ← resourceLoop data fuel (index + 6)
          return { type := type, x := CInt.int16 x, y := CInt.int16 y } :: entries
      else pure []

/-- The `SPOS` loop; `playerCount` is a `uint16`. -/
def startPosLoop (data : List UInt8) : Nat → Nat → Nat → Traced Memcpy (List PlayerStartPos)
  | 0, _, _ => pure []
  | fuel + 1, index, playerCount =>
      if index < data.length then
        if index + 4 > data.length then pure []
        else do
          let x ← copy16 behind data index
          let y ← copy16 behind data (index + 2)
          let rest ← startPosLoop data fuel (index + 4) ((playerCount + 1) % 65536)
          return { playerIndex := playerCount, x := CInt.int16 x, y := CInt.int16 y } :: rest
      else pure []

/-- `ParsingMapData`. -/
def parsingMapData (sectionCode : MapSection) (data : List UInt8) (out : LoadedMap) :
    Traced Memcpy LoadedMap :=
  if sectionCode = MapSection.ownr then do
    let playerCount ← copy16 behind data 0
    return { out with playerCount := playerCount }
  else if sectionCode = MapSection.size then do
    let mapWidth ← copy32 behind data 0
    let mapHeight ← copy32 behind data 4
    -- four bytes go to `scale`, which has room for two
    let scale ← (⟨Bytes.readLe16 (data ++ behind data) 8, [⟨8, data.length, 4, 2⟩]⟩ : Traced Memcpy Nat)
    return { out with mapWidth := mapWidth, mapHeight := mapHeight, scale := scale }
  else if sectionCode = MapSection.mtxm then do
    let count := data.length / 2 / 2
    let cells ← (List.range count).mapM fun i : Nat => do
      let tileId ← copy16 behind data (4 * i : Nat)
      let height ← copy16 behind data (4 * i + 2 : Nat)
      return (tileId, height)
    return { out with tiles := cells.map Prod.fst, height := cells.map Prod.snd }
  else if sectionCode = MapSection.reso then do
    let entries ← resourceLoop behind data data.length 0
    return { out with resources := out.resources ++ entries }
  else if sectionCode = MapSection.spos then do
    let entries ← startPosLoop behind data data.length 0 0
    return { out with playerPos := out.playerPos ++ entries }
  else return out

/-- `GetHashData`. -/
def getHashData (data : List UInt8) : Traced Memcpy HashLoad := do
  let sectionCode ← copy16 behind data 0
  if sectionCode ≠ MapSection.hash then return .notFound
  else do
    let size ← copy32 behind data 2
    if size < 0 then return .lengthError
    else do
      let mapHash ← copyBytes behind data 6 size.toNat
      return .found mapHash

/-- The loop of `SetHashToMap`. `index` is an `int`, and compared as a `size_t`. -/
def sectionLoop (data : List UInt8) : Nat → Int → LoadedMap → Traced Memcpy (Option LoadedMap)
  | 0, _, _ => pure none
  | fuel + 1, index, mapData =>
      if CInt.sizeT index < data.length then do
        let sectionCode ← copy16 behind data index
        let index := CInt.int32 (index + 2)
        let size ← copy32 behind data index
        let index := CInt.int32 (index + 4)
        if size < 0 then return none
        else do
          let sectionData ← copyBytes behind data index size.toNat
          let index := CInt.int32 (index + size)
          let mapData ← parsingMapData behind sectionCode sectionData mapData
          sectionLoop data fuel index
            { mapData with sections := mapData.sections.insert sectionCode sectionData }
      else return some mapData

/-- `SetHashToMap`. -/
def setHashToMap (data : List UInt8) : Traced Memcpy MapLoad := do
  let sectionCode ← copy16 behind data 0
  if sectionCode ≠ MapSection.hash then return .refused
  else do
    let size ← copy32 behind data 2
    if size < 0 then return .lengthError
    else do
      let hash ← copyBytes behind data 6 size.toNat
      match ← sectionLoop behind data (data.length + 1) (CInt.int32 (6 + size)) LoadedMap.new with
      | none => return .refused
      | some mapData => return .accepted hash mapData

end

/-- `hashToMap` after `SetHashToMap`. -/
def store (hashToMap : List UInt8 → Option LoadedMap) : MapLoad → List UInt8 → Option LoadedMap
  | .accepted hash map => Function.update hashToMap hash (some map)
  | .refused => hashToMap
  | .lengthError => hashToMap

end MapMaker

end StarCraftIocp
