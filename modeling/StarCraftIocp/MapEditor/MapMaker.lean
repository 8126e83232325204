import StarCraftIocp.GameServer.MapMaker
import StarCraftIocp.MapEditor.TileMapLeader

/-!
# The editor's map files

`WriteMapFile` writes the sections one after the other, the hash first. Its lengths
are written out by hand, apart from the bytes that follow them. SHA-256 is the
platform's; what matters here is that it gives 32 bytes. `Run` reads two tile maps and
has a file written if both have something in them.
-/

namespace StarCraftIocp.MapEditor

/-- `SHA256`. -/
structure Sha256 where
  computeHash : List UInt8 → List UInt8
  length_computeHash : ∀ bytes, (computeHash bytes).length = 32

/-- `MakeChecksum`. -/
def makeChecksum (mapData resourceData : List UInt8) (points : List PlayerStartPoint) : List UInt8 :=
  mapData ++ resourceData ++ points.flatMap PlayerStartPoint.write

/-- `WriteMapFile`. -/
def writeMapFile (sha : Sha256) (playerNum scale : UInt16) (mapData : List UInt8)
    (tileMapSize : TileMapSize) (resourceData : List UInt8) (points : List PlayerStartPoint) :
    List UInt8 :=
  let data := sha.computeHash (makeChecksum mapData resourceData points)
  Bytes.le16 MapSection.hash ++ Bytes.le32 data.length ++ data
    ++ (Bytes.le16 MapSection.ownr ++ Bytes.le32 2 ++ Bytes.le16 playerNum.toNat)
    ++ (Bytes.le16 MapSection.size ++ Bytes.le32 (2 * 4 + 2)
      ++ (Bytes.le32 tileMapSize.width.toUInt32.toNat ++ Bytes.le32 tileMapSize.height.toUInt32.toNat
        ++ Bytes.le16 scale.toNat))
    ++ (Bytes.le16 MapSection.mtxm ++ Bytes.le32 mapData.length ++ mapData)
    ++ (Bytes.le16 MapSection.reso ++ Bytes.le32 resourceData.length ++ resourceData)
    ++ (Bytes.le16 MapSection.spos ++ Bytes.le32 (points.length * 2 * 2)
      ++ points.flatMap PlayerStartPoint.write)

/-- `Run`: what is written, if the user names a file for it. Nothing changes `scale` from 2. -/
def run (sha : Sha256) (playerNum : UInt16) (tileMap resourceTileMap : Tilemap) : Option (List UInt8) :=
  let (tileData, tileMapSize) := TileMapLeader.tileMapDatas tileMap
  if tileData = [] then none
  else
    let (resourceData, points) := TileMapLeader.resourceTileMapDatas resourceTileMap
    if resourceData = [] then none
    else some (writeMapFile sha playerNum 2 tileData tileMapSize resourceData points)

end StarCraftIocp.MapEditor
