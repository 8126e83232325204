import StarCraftIocp.Client.GlobalUtils
import StarCraftIocp.Lib.Rows

/-!
# The client's map

`MapManager` builds the scene from the sections of a map file: a tile for every
cell, then the resources. Each function gives what it has built, and whether it came
to its end: an exception leaves what was built before it, and keeps `Init` from all
that would have come after it.
-/

namespace StarCraftIocp

structure TileData where
  sprite : Option Nat
  value : Int
  deriving Repr, DecidableEq

structure ResourceTileData where
  sprite : Option Nat
  value : Int
  deriving Repr, DecidableEq

structure TileDataScriptable where
  tiles : List TileData
  resources : List ResourceTileData
  deriving Repr, DecidableEq

/-- A tile id, read for a cell. -/
structure TileRead where
  x : Nat
  y : Nat
  tileId : Nat
  deriving Repr, DecidableEq

/-- What `Init` has built. -/
structure BuiltScene where
  tiles : List TileRead
  resources : List ResourceEntry
  /-- It has got to `SettingCamera`. -/
  complete : Bool
  deriving Repr, DecidableEq

namespace MapManager

/-- `MapDataInit`, the dictionary of the tiles. A tile without a sprite is left out. -/
def tileDictionary (tiles : List TileData) : Std.ExtTreeMap Int Nat :=
  tiles.foldl (fun dictionary tile =>
    match tile.sprite with
    | none => dictionary
    | some sprite => dictionary.insert tile.value sprite) ∅

/-- The loops of `BuildTileMap`. A cell whose id is not in the dictionary ends them. -/
def tileLoop (known : Std.ExtTreeMap Int Nat) (mapData : List UInt8) :
    List (Nat × Nat) → Int → List TileRead × Bool
  | [], _ => ([], true)
  | cell :: cells, index =>
      match GlobalUtils.toUInt16 mapData index with
      | none => ([], false)
      | some tileId =>
          let read : TileRead := ⟨cell.1, cell.2, tileId⟩
          if (tileId : Int) ∈ known then
            let (reads, done) := tileLoop known mapData cells (index + 4)
            (read :: reads, done)
          else ([read], false)

/-- `BuildTileMap`. It reads the scale as well, and does nothing with it. -/
def buildTileMap (asset : TileDataScriptable)
    (mapSectionData : Std.ExtTreeMap MapSection (List UInt8)) : List TileRead × Bool :=
  match mapSectionData[MapSection.mtxm]?, mapSectionData[MapSection.size]? with
  | some mapData, some mapSize =>
      match GlobalUtils.toInt32 mapSize 0, GlobalUtils.toInt32 mapSize 4, GlobalUtils.toUInt16 mapSize 8 with
      | some width, some height, some _ =>
          tileLoop (tileDictionary asset.tiles) mapData (rows width.toNat height.toNat) 0
      | _, _, _ => ([], false)
  | _, _ => ([], false)

/-- The loop of `BuildResource`. An object is placed before its sprite is looked up. -/
def resourceLoop (asset : TileDataScriptable) (resourceData : List UInt8) :
    Nat → Int → List ResourceEntry × Bool
  | 0, _ => ([], false)
  | fuel + 1, index =>
      if index < resourceData.length then
        match GlobalUtils.toUInt16 resourceData index, GlobalUtils.toInt16 resourceData (index + 2),
          GlobalUtils.toInt16 resourceData (index + 4) with
        | some resourceId, some x, some y =>
            let placed : ResourceEntry := ⟨resourceId, x, y⟩
            if resourceId < asset.resources.length then
              let (rest, done) := resourceLoop asset resourceData fuel (index + 6)
              (placed :: rest, done)
            else ([placed], false)
        | _, _, _ => ([], false)
      else ([], true)

/-- `BuildResource`. -/
def buildResource (asset : TileDataScriptable)
    (mapSectionData : Std.ExtTreeMap MapSection (List UInt8)) : List ResourceEntry × Bool :=
  match mapSectionData[MapSection.reso]? with
  | some resourceData => resourceLoop asset resourceData (resourceData.length + 1) 0
  | none => ([], false)

/-- `MapDataInit`, the sections. Without a file at the path `mapSectionData` stays null. -/
def mapDataInit (file : Option (List UInt8)) : Option (Option (Std.ExtTreeMap MapSection (List UInt8))) :=
  match file with
  | none => some none
  | some fileData => (GlobalUtils.extractionMapSection fileData).map some

/-- `Init`, with the file that the room's hash leads to. -/
def init (asset : TileDataScriptable) (file : Option (List UInt8)) : BuiltScene :=
  match mapDataInit file with
  | some (some mapSectionData) =>
      let (tiles, drawn) := buildTileMap asset mapSectionData
      if drawn then
        let (resources, placed) := buildResource asset mapSectionData
        { tiles := tiles, resources := resources, complete := placed }
      else { tiles := tiles, resources := [], complete := false }
  -- an exception, or `BuildTileMap` looks into a null dictionary
  | _ => { tiles := [], resources := [], complete := false }

end MapManager

end StarCraftIocp
