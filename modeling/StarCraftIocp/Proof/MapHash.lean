import StarCraftIocp.Proof.ClientMap
import StarCraftIocp.Proof.Markers

/-!
# What the hash of a map stands for

The checksum is the records of a map one after the other, without the size of the
map and without the lengths of the lists. The tile ids are above 100 and the types of
the resources below 2, so that one can tell where the tiles end, but not where the
resources do. Between maps with as many resources or as many starting places the
checksum tells all records apart; other maps may have the same checksum, and then the
same hash.
-/

namespace StarCraftIocp.MapEditor

open MapMaker TileMapLeader

/-! ## Records are told apart -/

theorem TileInfo.write_injective : Function.Injective TileInfo.write := by
  intro a b h
  obtain ⟨hid, hheight⟩ := List.append_inj h rfl
  have hid := UInt16.toNat_inj.mp (Bytes.le16_inj a.tileId.toNat_lt b.tileId.toNat_lt hid)
  have hheight := UInt16.toNat_inj.mp (Bytes.le16_inj a.tileHeight.toNat_lt b.tileHeight.toNat_lt hheight)
  cases a
  cases b
  exact congrArg₂ TileInfo.mk hid hheight

/-- A coordinate can be read off its two bytes. -/
theorem int16_inj {x y : Int16} (h : Bytes.le16 x.toUInt16.toNat = Bytes.le16 y.toUInt16.toNat) : x = y := by
  have h := Bytes.le16_inj x.toUInt16.toNat_lt y.toUInt16.toNat_lt h
  refine Int16.toInt_inj.mp ?_
  rw [← CInt.int16_toUInt16, ← CInt.int16_toUInt16, h]

theorem ResourceInfo.write_injective : Function.Injective ResourceInfo.write := by
  intro a b h
  obtain ⟨h, hy⟩ := List.append_inj h rfl
  obtain ⟨hid, hx⟩ := List.append_inj h rfl
  have hid := UInt16.toNat_inj.mp (Bytes.le16_inj a.resourceId.toNat_lt b.resourceId.toNat_lt hid)
  have hx := int16_inj hx
  have hy := int16_inj hy
  cases a
  cases b
  congr

theorem PlayerStartPoint.write_injective : Function.Injective PlayerStartPoint.write := by
  intro a b h
  obtain ⟨hx, hy⟩ := List.append_inj h rfl
  have hx := int16_inj hx
  have hy := int16_inj hy
  cases a
  cases b
  exact congrArg₂ PlayerStartPoint.mk hx hy

/-- Where a tile ends and a resource begins can be seen from the ids. -/
theorem tiles_eq {tiles tiles' : List TileInfo} (htiles : ∀ info ∈ tiles, 100 < info.tileId)
    (htiles' : ∀ info ∈ tiles', 100 < info.tileId) {id id' : UInt16} (hid : id < 2) (hid' : id' < 2)
    {rest rest' : List UInt8} (h : tiles.flatMap TileInfo.write ++ (Bytes.le16 id.toNat ++ rest)
      = tiles'.flatMap TileInfo.write ++ (Bytes.le16 id'.toNat ++ rest')) : tiles = tiles' := by
  -- an id that is below 2 and above 100
  have hapart : ∀ {id : UInt16} {info : TileInfo} {a b : List UInt8}, id < 2 → 100 < info.tileId →
      Bytes.le16 id.toNat ++ a ≠ info.write ++ b := by
    intro id info a b hlow hhigh heq
    have hword : Bytes.le16 id.toNat = Bytes.le16 info.tileId.toNat := by
      rw [TileInfo.write, List.append_assoc] at heq
      exact (List.append_inj heq rfl).1
    have hsame := Bytes.le16_inj id.toNat_lt info.tileId.toNat_lt hword
    have h2 : id.toNat < 2 := hlow
    have h100 : 100 < info.tileId.toNat := hhigh
    omega
  induction tiles generalizing tiles' with
  | nil =>
      cases tiles' with
      | nil => rfl
      | cons info tiles' =>
          rw [List.flatMap_nil, List.nil_append, List.flatMap_cons, List.append_assoc] at h
          exact absurd h (hapart hid (htiles' info List.mem_cons_self))
  | cons info tiles ih =>
      cases tiles' with
      | nil =>
          rw [List.flatMap_nil, List.nil_append, List.flatMap_cons, List.append_assoc] at h
          exact absurd h.symm (hapart hid' (htiles info List.mem_cons_self))
      | cons info' tiles' =>
          rw [List.flatMap_cons, List.flatMap_cons, List.append_assoc, List.append_assoc] at h
          obtain ⟨hhead, htail⟩ := List.append_inj h rfl
          rw [TileInfo.write_injective hhead]
          exact congrArg _ (ih (fun i hi => htiles i (List.mem_cons_of_mem _ hi))
            (fun i hi => htiles' i (List.mem_cons_of_mem _ hi)) htail)

/-! ## Maps -/

/-- What the editor writes into a file. -/
structure EditorMap where
  playerNum : UInt16
  scale : UInt16
  size : TileMapSize
  tiles : List TileInfo
  resources : List ResourceInfo
  points : List PlayerStartPoint

namespace EditorMap

def checksum (m : EditorMap) : List UInt8 :=
  makeChecksum (m.tiles.flatMap TileInfo.write) (m.resources.flatMap ResourceInfo.write) m.points

def hash (m : EditorMap) (sha : Sha256) : List UInt8 := sha.computeHash m.checksum

def file (m : EditorMap) (sha : Sha256) : List UInt8 :=
  fileOf sha m.playerNum m.scale m.size m.tiles m.resources m.points

/-- The maps have the same tiles, resources and starting places. -/
structure SameRecords (m m' : EditorMap) : Prop where
  tiles : m.tiles = m'.tiles
  resources : m.resources = m'.resources
  points : m.points = m'.points

/-! ## What the editor can write -/

/-- The records of two tile maps. -/
def ofTileMaps (playerNum : UInt16) (tileMap resourceTileMap : Tilemap) : EditorMap where
  playerNum := playerNum
  scale := 2
  size := (tileMapDatas tileMap).2
  tiles := tileMap.cells.filterMap (tileInfoAt tileMap)
  resources := (resourceInfos resourceTileMap).filter fun info => info.resourceId ≠ 10
  points := ((resourceInfos resourceTileMap).filter fun info => info.resourceId = 10).map fun info =>
    ⟨info.x, info.y⟩

/-- `Run` writes the map for some tile maps. -/
def Written (m : EditorMap) : Prop :=
  ∃ tileMap resourceTileMap, m = ofTileMaps m.playerNum tileMap resourceTileMap
    ∧ ∀ sha, run sha m.playerNum tileMap resourceTileMap = some (m.file sha)

/-- `Run` refuses maps without tiles or without resources. -/
theorem run_eq (sha : Sha256) (playerNum : UInt16) (tileMap resourceTileMap : Tilemap) :
    run sha playerNum tileMap resourceTileMap
      = if (ofTileMaps playerNum tileMap resourceTileMap).tiles = []
          ∨ (ofTileMaps playerNum tileMap resourceTileMap).resources = [] then none
        else some ((ofTileMaps playerNum tileMap resourceTileMap).file sha) := by
  have htiles := Bytes.flatMap_eq_nil_iff TileInfo.length_write (by decide)
    (tileMap.cells.filterMap (tileInfoAt tileMap))
  have hresources := Bytes.flatMap_eq_nil_iff ResourceInfo.length_write (by decide)
    ((resourceInfos resourceTileMap).filter fun info => info.resourceId ≠ 10)
  rw [← tileMapDatas_eq] at htiles
  have hfile := written_eq sha playerNum 2 tileMap resourceTileMap
  unfold run
  dsimp only
  by_cases hempty : (tileMapDatas tileMap).1 = []
  · rw [if_pos hempty]
    exact (if_pos (.inl (htiles.mp hempty))).symm
  · rw [if_neg hempty]
    by_cases hnone : (resourceTileMapDatas resourceTileMap).1 = []
    · rw [if_pos hnone]
      exact (if_pos (.inr (hresources.mp hnone))).symm
    · rw [if_neg hnone]
      refine (congrArg some hfile).trans (if_neg ?_).symm
      rintro (h | h)
      · exact hempty (htiles.mpr h)
      · exact hnone (hresources.mpr h)

theorem written_ofTileMaps {playerNum : UInt16} {tileMap resourceTileMap : Tilemap}
    (htiles : (ofTileMaps playerNum tileMap resourceTileMap).tiles ≠ [])
    (hresources : (ofTileMaps playerNum tileMap resourceTileMap).resources ≠ []) :
    (ofTileMaps playerNum tileMap resourceTileMap).Written := by
  refine ⟨tileMap, resourceTileMap, rfl, fun sha => (run_eq sha playerNum _ _).trans (if_neg ?_)⟩
  rintro (h | h)
  · exact htiles h
  · exact hresources h

/-- The ids the editor knows. -/
theorem Written.ids {m : EditorMap} (h : m.Written) :
    (∀ info ∈ m.tiles, 100 < info.tileId) ∧ (∀ info ∈ m.resources, info.resourceId < 2) := by
  obtain ⟨tileMap, resourceTileMap, hm, -⟩ := h
  rw [hm]
  constructor
  · intro info hinfo
    obtain ⟨pos, -, hpos⟩ := List.mem_filterMap.mp hinfo
    obtain ⟨tile, -, htile⟩ := Option.bind_eq_some_iff.mp hpos
    cases tile <;> cases htile <;> decide
  · intro info hinfo
    obtain ⟨hmem, hten⟩ := List.mem_filter.mp hinfo
    obtain ⟨p, -, hp⟩ := List.mem_filterMap.mp hmem
    obtain ⟨tile, k⟩ := p
    dsimp only at hp
    cases tile with
    | none => cases hp
    | some tile =>
        cases tile with
        | mineral => cases hp; exact (by decide : (0 : UInt16) < 2)
        | gas => cases hp; exact (by decide : (1 : UInt16) < 2)
        | playerStartPointer => cases hp; exact absurd rfl (of_decide_eq_true hten)
        | _ => cases hp

/-- There is a resource, with which the second part of the checksum begins. -/
theorem Written.resources_ne_nil {m : EditorMap} (h : m.Written) : m.resources ≠ [] := by
  obtain ⟨tileMap, resourceTileMap, hm, hrun⟩ := h
  intro hnil
  have hnone := (hrun zeroSha).symm.trans (run_eq zeroSha m.playerNum tileMap resourceTileMap)
  rw [← hm, if_pos (.inr hnil)] at hnone
  cases hnone

/-- Between maps that the editor writes, the checksum tells how many tiles there are. -/
theorem Written.tiles_eq {m m' : EditorMap} (hm : m.Written) (hm' : m'.Written)
    (h : m.checksum = m'.checksum) : m.tiles = m'.tiles := by
  obtain ⟨info, rest, hcons⟩ := List.exists_cons_of_ne_nil hm.resources_ne_nil
  obtain ⟨info', rest', hcons'⟩ := List.exists_cons_of_ne_nil hm'.resources_ne_nil
  unfold checksum makeChecksum at h
  rw [hcons, hcons', List.flatMap_cons, List.flatMap_cons, ResourceInfo.write, ResourceInfo.write] at h
  simp only [List.append_assoc] at h
  exact MapEditor.tiles_eq hm.ids.1 hm'.ids.1 (hm.ids.2 info (hcons ▸ List.mem_cons_self))
    (hm'.ids.2 info' (hcons' ▸ List.mem_cons_self)) h

/-- The checksum tells the records, given how many resources or starting places there are. -/
theorem sameRecords_of_checksum {m m' : EditorMap} (hm : m.Written) (hm' : m'.Written)
    (hcount : m.resources.length = m'.resources.length ∨ m.points.length = m'.points.length)
    (h : m.checksum = m'.checksum) : SameRecords m m' := by
  have htiles := hm.tiles_eq hm' h
  unfold checksum makeChecksum at h
  rw [htiles, List.append_assoc, List.append_assoc] at h
  have hrest := List.append_cancel_left h
  have hlen := congrArg List.length hrest
  rw [List.length_append, List.length_append, Bytes.length_flatMap ResourceInfo.length_write,
    Bytes.length_flatMap ResourceInfo.length_write, Bytes.length_flatMap PlayerStartPoint.length_write,
    Bytes.length_flatMap PlayerStartPoint.length_write] at hlen
  have hresources : (m.resources.flatMap ResourceInfo.write).length
      = (m'.resources.flatMap ResourceInfo.write).length := by
    rw [Bytes.length_flatMap ResourceInfo.length_write, Bytes.length_flatMap ResourceInfo.length_write]
    omega
  obtain ⟨hresources, hpoints⟩ := List.append_inj hrest hresources
  exact ⟨htiles,
    Bytes.flatMap_injective ResourceInfo.length_write (by decide) ResourceInfo.write_injective hresources,
    Bytes.flatMap_injective PlayerStartPoint.length_write (by decide) PlayerStartPoint.write_injective
      hpoints⟩

/-! ## What a hash names -/

/-- The two checksums have one hash only if they are the same. -/
def NoCollision (sha : Sha256) (m m' : EditorMap) : Prop :=
  sha.computeHash m.checksum = sha.computeHash m'.checksum → m.checksum = m'.checksum

/-- What the server has stored under a hash stays what it was, as far as the records go. -/
def Keeps (hashToMap hashToMap' : List UInt8 → Option LoadedMap) (hash : List UInt8) : Prop :=
  ∀ map, hashToMap hash = some map → ∃ map', hashToMap' hash = some map' ∧ map'.tiles = map.tiles
    ∧ map'.height = map.height ∧ map'.resources = map.resources ∧ map'.playerPos = map.playerPos

/-- A hash names one map: on the server, which stores a map under it, and between server and client. -/
structure HashNames (sha : Sha256) (behind : List UInt8 → List UInt8) (m m' : EditorMap) : Prop where
  records : m.checksum = m'.checksum → SameRecords m m'
  /-- The file of `m'` replaces the map that the file of `m` was loaded as by none but the same. -/
  server : NoCollision sha m m' → (m.file sha).length < 2147483648 → (m'.file sha).length < 2147483648 →
    ∀ hashToMap, Keeps (store hashToMap (setHashToMap behind (m.file sha)).value)
      (store (store hashToMap (setHashToMap behind (m.file sha)).value)
        (setHashToMap behind (m'.file sha)).value) (m.hash sha)
  /-- A client that finds the hash of `m` in its file of `m'` has the map. -/
  client : NoCollision sha m m' → GlobalUtils.extractionMapHash (some (m'.file sha)) =
    some (true, m.hash sha) →
    SameRecords m m'

theorem accepted_file (sha : Sha256) (behind : List UInt8 → List UInt8) {m : EditorMap}
    (hlen : (m.file sha).length < 2147483648) : (setHashToMap behind (m.file sha)).value
      = .accepted (m.hash sha) (mapOf m.playerNum m.scale m.size m.tiles m.resources m.points) :=
  setHashToMap_fileOf sha m.playerNum m.scale m.size m.tiles m.resources m.points behind hlen

theorem extractionMapHash_file (sha : Sha256) (m : EditorMap) :
    GlobalUtils.extractionMapHash (some (m.file sha)) = some (true, m.hash sha) :=
  GlobalUtils.extractionMapHash_eq (valid_hash sha m.tiles m.resources m.points) (fileOf_eq ..)

/-- A small tile map at the origin, row by row. -/
def block (sizeX sizeY : Fin 4) (tiles : List (Option TileBase)) : Tilemap where
  xMin := 0
  yMin := 0
  sizeX := sizeX
  sizeY := sizeY
  getTile x y :=
    if 0 ≤ x ∧ x < sizeX ∧ 0 ≤ y ∧ y < sizeY then tiles.getD (x.toNat + sizeX * y.toNat) none else none
  sizeX_lt := sizeX.isLt.trans (by decide)
  sizeY_lt := sizeY.isLt.trans (by decide)

/-- Ground and a hill next to each other, with one mineral. -/
def row : EditorMap :=
  ofTileMaps 1 (block 2 1 [some .ground, some .hill]) (oneMineral 0)

/-- The same, one above the other. -/
def column : EditorMap :=
  ofTileMaps 1 (block 1 2 [some .ground, some .hill]) (oneMineral 0)

/-- Two cells by three of ground, with these markers. -/
def marked (markers : List (Option TileBase)) : EditorMap :=
  ofTileMaps 4 (block 2 3 (List.replicate 6 (some .ground)))
    (block 2 3 markers)

theorem written_row : row.Written := written_ofTileMaps (by decide) (by decide)

theorem written_column : column.Written := written_ofTileMaps (by decide) (by decide)

end EditorMap

end StarCraftIocp.MapEditor
