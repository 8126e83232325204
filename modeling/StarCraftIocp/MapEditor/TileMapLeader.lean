import StarCraftIocp.Lib.Bytes
import StarCraftIocp.Lib.CInt

/-!
# The editor's tile maps

`TileMapLeader` reads two Unity tile maps, one with the ground and one with the
markers for resources and starting places, and writes their tiles down as records.
Of a Unity tile map it uses the bounds and the tile in a cell.
-/

namespace StarCraftIocp

/-- A tile asset: those the editor knows, and any other. -/
inductive TileBase where
  | ground
  | hill
  | runwayUp
  | runwayDown
  | runwayRight
  | runwayLeft
  | water
  | wall
  | bridge
  | mineral
  | gas
  | playerStartPointer
  | other (asset : Nat)
  deriving Repr, DecidableEq

structure TileInfo where
  tileId : UInt16
  tileHeight : UInt16
  deriving Repr, DecidableEq

structure ResourceInfo where
  resourceId : UInt16
  x : Int16
  y : Int16
  deriving Repr, DecidableEq

structure TileMapSize where
  width : Int32
  height : Int32
  deriving Repr, DecidableEq

structure PlayerStartPoint where
  x : Int16
  y : Int16
  deriving Repr, DecidableEq

/-- A `Tilemap`, with `cellBounds` as `CompressBounds` leaves it; sizes are `int`s. -/
structure Tilemap where
  xMin : Int
  yMin : Int
  sizeX : Nat
  sizeY : Nat
  getTile : Int → Int → Option TileBase
  sizeX_lt : sizeX < 2147483648
  sizeY_lt : sizeY < 2147483648

/-- `bw.Write` of the two fields. -/
def TileInfo.write (info : TileInfo) : List UInt8 :=
  Bytes.le16 info.tileId.toNat ++ Bytes.le16 info.tileHeight.toNat

/-- `bw.Write` of the three fields. -/
def ResourceInfo.write (info : ResourceInfo) : List UInt8 :=
  Bytes.le16 info.resourceId.toNat ++ Bytes.le16 info.x.toUInt16.toNat
    ++ Bytes.le16 info.y.toUInt16.toNat

/-- `bw.Write` of the two fields. -/
def PlayerStartPoint.write (point : PlayerStartPoint) : List UInt8 :=
  Bytes.le16 point.x.toUInt16.toNat ++ Bytes.le16 point.y.toUInt16.toNat

theorem TileInfo.length_write (info : TileInfo) : info.write.length = 4 := rfl

theorem ResourceInfo.length_write (info : ResourceInfo) : info.write.length = 6 := rfl

theorem PlayerStartPoint.length_write (point : PlayerStartPoint) : point.write.length = 4 := rfl

namespace Tilemap

/-- The cells inside the bounds, row by row. -/
def cells (t : Tilemap) : List (Int × Int) :=
  (List.range t.sizeY).flatMap fun j : Nat => (List.range t.sizeX).map fun i : Nat =>
    (t.xMin + (i : Int), t.yMin + (j : Int))

/-- `GetTilesBlock(cellBounds)`. -/
def getTilesBlock (t : Tilemap) : List (Option TileBase) := t.cells.map fun pos => t.getTile pos.1 pos.2

end Tilemap

namespace TileMapLeader

/-- `tileHandler`, whose functions do not look at the position. -/
def tileHandler : TileBase → Option TileInfo
  | .ground => some ⟨101, 1⟩
  | .hill => some ⟨201, 3⟩
  | .runwayUp => some ⟨301, 2⟩
  | .runwayDown => some ⟨302, 2⟩
  | .runwayRight => some ⟨303, 2⟩
  | .runwayLeft => some ⟨304, 2⟩
  | .water => some ⟨401, 0⟩
  | .wall => some ⟨501, 0⟩
  | .bridge => some ⟨601, 1⟩
  | _ => none

/-- `resourceHandler`. A coordinate is cast to a `short`. -/
def resourceHandler (tile : TileBase) (x y : Int) : Option ResourceInfo :=
  match tile with
  | .mineral => some ⟨0, Int16.ofInt x, Int16.ofInt y⟩
  | .gas => some ⟨1, Int16.ofInt x, Int16.ofInt y⟩
  | .playerStartPointer => some ⟨10, Int16.ofInt x, Int16.ofInt y⟩
  | _ => none

/-- `TileMapDatas`. A cell without a tile, or with one that is not registered, is skipped. -/
def tileMapDatas (tileMap : Tilemap) : List UInt8 × TileMapSize :=
  let bytes := tileMap.cells.flatMap fun pos =>
    match tileMap.getTile pos.1 pos.2 with
    | none => []
    | some tile =>
        match tileHandler tile with
        | some info => info.write
        | none => []
  (bytes, ⟨Int32.ofInt tileMap.sizeX, Int32.ofInt tileMap.sizeY⟩)

/-- The cell that an index of `GetTilesBlock` stands for. -/
def cellOf (b : Tilemap) (i : Nat) : Int × Int :=
  (((i % b.sizeX : Nat) : Int) + b.xMin, ((i / b.sizeX : Nat) : Int) + b.yMin)

/-- `ResourceTileMapDatas`: the handler's record for every marker, in the order of the block. -/
def resourceInfos (resourceTileMap : Tilemap) : List ResourceInfo :=
  resourceTileMap.getTilesBlock.zipIdx.filterMap fun p =>
    match p.1 with
    | none => none
    | some tile =>
        let pos := cellOf resourceTileMap p.2
        resourceHandler tile pos.1 pos.2

/-- `ResourceTileMapDatas`. Starting places go to the list, the others to the stream. -/
def resourceTileMapDatas (resourceTileMap : Tilemap) : List UInt8 × List PlayerStartPoint :=
  let infos := resourceInfos resourceTileMap
  ((infos.filter fun info => info.resourceId ≠ 10).flatMap ResourceInfo.write,
    (infos.filter fun info => info.resourceId = 10).map fun info => ⟨info.x, info.y⟩)

end TileMapLeader

end StarCraftIocp
