import StarCraftIocp.Lib.Rows
import StarCraftIocp.Proof.MapRoundTrip

/-!
# Where markers end up

The tiles of a map are exported row by row from the corner of its bounds, markers
with the coordinates they have in the editor. A marker is stored on its own tile
when the corner is at the origin; what it takes in general is `Lands`.
-/

namespace StarCraftIocp.MapEditor

open MapMaker TileMapLeader

/-! ## Tiles -/

/-- A cell inside the bounds. -/
def Inside (t : Tilemap) (pos : Int × Int) : Prop :=
  t.xMin ≤ pos.1 ∧ pos.1 < t.xMin + t.sizeX ∧ t.yMin ≤ pos.2 ∧ pos.2 < t.yMin + t.sizeY

/-- The record of a cell. -/
def tileInfoAt (t : Tilemap) (pos : Int × Int) : Option TileInfo :=
  (t.getTile pos.1 pos.2).bind tileHandler

/-- Every cell inside the bounds has a tile that is registered. -/
def Filled (t : Tilemap) : Prop := ∀ pos, Inside t pos → (tileInfoAt t pos).isSome

theorem cells_eq (t : Tilemap) :
    t.cells = (rows t.sizeX t.sizeY).map fun c => (t.xMin + (c.1 : Int), t.yMin + (c.2 : Int)) := by
  unfold Tilemap.cells rows
  rw [List.map_flatMap]
  refine List.flatMap_congr fun j _ => ?_
  rw [List.map_map]
  rfl

theorem inside_of_mem_cells {t : Tilemap} {pos : Int × Int} (h : pos ∈ t.cells) : Inside t pos := by
  rw [cells_eq] at h
  obtain ⟨c, hc, rfl⟩ := List.mem_map.mp h
  obtain ⟨hi, hj⟩ := mem_rows.mp hc
  unfold Inside
  omega

/-- A row of tiles, as the stream has it. -/
theorem tileMapDatas_eq (t : Tilemap) :
    (tileMapDatas t).1 = (t.cells.filterMap (tileInfoAt t)).flatMap TileInfo.write := by
  unfold tileMapDatas
  dsimp only
  induction t.cells with
  | nil => rfl
  | cons pos cells ih =>
      rw [List.flatMap_cons, ih]
      cases htile : t.getTile pos.1 pos.2 with
      | none =>
          have hnone : tileInfoAt t pos = none := by rw [tileInfoAt, htile]; rfl
          rw [List.filterMap_cons_none hnone]
          rfl
      | some tile =>
          have hinfo : tileInfoAt t pos = tileHandler tile := by rw [tileInfoAt, htile]; rfl
          cases hhandler : tileHandler tile with
          | none =>
              rw [List.filterMap_cons_none (hinfo.trans hhandler)]
              simp only [hhandler, List.nil_append]
          | some info =>
              rw [List.filterMap_cons_some (hinfo.trans hhandler), List.flatMap_cons]
              simp only [hhandler]

/-- Where nothing is skipped, records stay at their places. -/
theorem getElem?_filterMap {α β : Type} {f : α → Option β} {l : List α} (h : ∀ a ∈ l, (f a).isSome)
    (k : Nat) : (l.filterMap f)[k]? = l[k]?.bind f := by
  induction l generalizing k with
  | nil => rfl
  | cons a l ih =>
      obtain ⟨hhead, htail⟩ := List.forall_mem_cons.mp h
      obtain ⟨b, hb⟩ := Option.isSome_iff_exists.mp hhead
      rw [List.filterMap_cons_some hb]
      cases k with
      | zero => exact hb.symm
      | succ k => exact ih htail k

/-- The record of a cell is in the row and column counted from the corner. -/
theorem getElem?_tiles {t : Tilemap} (h : Filled t) {i j : Nat} (hi : i < t.sizeX) (hj : j < t.sizeY) :
    (t.cells.filterMap (tileInfoAt t))[i + t.sizeX * j]? = tileInfoAt t (t.xMin + i, t.yMin + j) := by
  rw [getElem?_filterMap fun pos hpos => h pos (inside_of_mem_cells hpos), cells_eq, List.getElem?_map,
    getElem?_rows_index hi hj]
  rfl

/-! ## Markers -/

/-- The cells with a marker of some kind, in the order of the block. -/
def markers (t : Tilemap) (kind : TileBase → Bool) : List (Int × Int) :=
  t.cells.filter fun pos => (t.getTile pos.1 pos.2).any kind

def isResource (tile : TileBase) : Bool := tile = .mineral ∨ tile = .gas

def isStart (tile : TileBase) : Bool := tile = .playerStartPointer

/-- The record of a marker. -/
def resourceInfoAt (t : Tilemap) (pos : Int × Int) : Option ResourceInfo :=
  (t.getTile pos.1 pos.2).bind fun tile => resourceHandler tile pos.1 pos.2

/-- The flattened index finds the cell it was made from. -/
theorem cellOf_eq {t : Tilemap} {k : Nat} {pos : Int × Int} (h : t.cells[k]? = some pos) :
    cellOf t k = pos := by
  rw [cells_eq, List.getElem?_map] at h
  obtain ⟨c, hc, rfl⟩ := Option.map_eq_some_iff.mp h
  obtain ⟨hk, _⟩ := List.getElem?_eq_some_iff.mp hc
  rw [length_rows] at hk
  rw [getElem?_rows hk] at hc
  obtain rfl := Option.some.inj hc
  exact Prod.ext (Int.add_comm _ _) (Int.add_comm _ _)

theorem resourceInfos_eq (t : Tilemap) :
    resourceInfos t = t.cells.filterMap (resourceInfoAt t) := by
  have hblock : t.getTilesBlock.zipIdx
      = t.cells.zipIdx.map fun p => (t.getTile p.1.1 p.1.2, p.2) := List.zipIdx_map ..
  have hfst : t.cells.filterMap (resourceInfoAt t)
      = t.cells.zipIdx.filterMap fun p => resourceInfoAt t p.1 := by
    rw [← List.zipIdx_map_fst 0 t.cells, List.filterMap_map, List.zipIdx_map_fst]
    rfl
  unfold resourceInfos
  rw [hblock, List.filterMap_map, hfst]
  refine List.filterMap_congr fun p hp => ?_
  have hcell := cellOf_eq (List.mem_zipIdx_iff_getElem?.mp hp)
  rw [Function.comp_apply]
  dsimp only
  rw [hcell]
  unfold resourceInfoAt
  cases t.getTile p.1.1 p.1.2 with
  | none => rfl
  | some tile => rfl

/-- A marker's record has its coordinates, cast to a `short`. -/
def Records (pos : Int × Int) (info : ResourceInfo) : Prop :=
  info.x = Int16.ofInt pos.1 ∧ info.y = Int16.ofInt pos.2

theorem forall₂_resources (t : Tilemap) : List.Forall₂ Records (markers t isResource)
    ((resourceInfos t).filter fun info => info.resourceId ≠ 10) := by
  rw [resourceInfos_eq]
  unfold markers
  induction t.cells with
  | nil => exact .nil
  | cons pos cells ih =>
      rw [List.filter_cons, List.filterMap_cons]
      unfold resourceInfoAt
      cases t.getTile pos.1 pos.2 with
      | none => exact ih
      | some tile =>
          cases tile with
          | mineral => exact .cons ⟨rfl, rfl⟩ ih
          | gas => exact .cons ⟨rfl, rfl⟩ ih
          | _ => exact ih

theorem forall₂_points (t : Tilemap) : List.Forall₂ Records (markers t isStart)
    ((resourceInfos t).filter fun info => info.resourceId = 10) := by
  rw [resourceInfos_eq]
  unfold markers
  induction t.cells with
  | nil => exact .nil
  | cons pos cells ih =>
      rw [List.filter_cons, List.filterMap_cons]
      unfold resourceInfoAt
      cases t.getTile pos.1 pos.2 with
      | none => exact ih
      | some tile =>
          cases tile with
          | playerStartPointer => exact .cons ⟨rfl, rfl⟩ ih
          | _ => exact ih

/-! ## Main results -/

/-- What the editor writes for its two tile maps. -/
def written (sha : Sha256) (playerNum scale : UInt16) (tileMap resourceTileMap : Tilemap) : List UInt8 :=
  let (tileData, tileMapSize) := tileMapDatas tileMap
  let (resourceData, points) := resourceTileMapDatas resourceTileMap
  writeMapFile sha playerNum scale tileData tileMapSize resourceData points

/-- The coordinates name a cell of the map that is as high as the editor's tile at `pos`. -/
def Survives (t : Tilemap) (map : LoadedMap) (pos : Int × Int) (x y : Int) : Prop :=
  0 ≤ x ∧ x < map.mapWidth ∧ 0 ≤ y ∧ y < map.mapHeight ∧
    map.height[(x + map.mapWidth * y).toNat]?
      = (tileInfoAt t pos).map fun info => info.tileHeight.toNat

/--
The absolute coordinates, cast to `short` and counted from the corner of the bounds,
are those of a cell inside the bounds whose tile is as high as the one at `pos`.
-/
def Lands (t : Tilemap) (pos : Int × Int) : Prop :=
  let cell := (t.xMin + CInt.int16 pos.1, t.yMin + CInt.int16 pos.2)
  Inside t cell ∧ (tileInfoAt t cell).map TileInfo.tileHeight = (tileInfoAt t pos).map TileInfo.tileHeight

theorem survives_iff {t : Tilemap} (hfilled : Filled t) {map : LoadedMap} (hwidth : map.mapWidth = t.sizeX)
    (hheight : map.mapHeight = t.sizeY)
    (htable : map.height = (t.cells.filterMap (tileInfoAt t)).map fun info => info.tileHeight.toNat)
    (pos : Int × Int) :
    Survives t map pos (CInt.int16 pos.1) (CInt.int16 pos.2) ↔ Lands t pos := by
  unfold Survives Lands
  generalize CInt.int16 pos.1 = x
  generalize CInt.int16 pos.2 = y
  have hinside : Inside t (t.xMin + x, t.yMin + y)
      ↔ 0 ≤ x ∧ x < map.mapWidth ∧ 0 ≤ y ∧ y < map.mapHeight := by
    rw [hwidth, hheight]
    unfold Inside
    omega
  have hcell : Inside t (t.xMin + x, t.yMin + y) → map.height[(x + map.mapWidth * y).toNat]?
      = (tileInfoAt t (t.xMin + x, t.yMin + y)).map fun info => info.tileHeight.toNat := by
    intro h
    obtain ⟨hx, hxw, hy, hyh⟩ := hinside.mp h
    obtain ⟨i, rfl⟩ := Int.eq_ofNat_of_zero_le hx
    obtain ⟨j, rfl⟩ := Int.eq_ofNat_of_zero_le hy
    have hindex : ((i : Int) + map.mapWidth * (j : Int)).toNat = i + t.sizeX * j := by
      rw [hwidth]
      exact Int.toNat_natCast (i + t.sizeX * j)
    rw [hindex, htable, List.getElem?_map, getElem?_tiles hfilled (by omega) (by omega)]
  have hinj : Function.Injective (Option.map UInt16.toNat) :=
    Option.map_injective fun _ _ h => UInt16.toNat_inj.mp h
  have hmap : ∀ o : Option TileInfo, (o.map fun info => info.tileHeight.toNat)
      = (o.map TileInfo.tileHeight).map UInt16.toNat := by
    intro o
    rw [Option.map_map]
    rfl
  constructor
  · rintro ⟨hx, hxw, hy, hyh, hget⟩
    have h := hinside.mpr ⟨hx, hxw, hy, hyh⟩
    refine ⟨h, hinj ?_⟩
    rw [← hmap, ← hmap, ← hcell h, hget]
  · rintro ⟨h, hsame⟩
    obtain ⟨hx, hxw, hy, hyh⟩ := hinside.mp h
    exact ⟨hx, hxw, hy, hyh, by rw [hcell h, hmap, hmap, hsame]⟩

section

variable (behind : List UInt8 → List UInt8) (sha : Sha256) (playerNum scale : UInt16)

theorem written_eq (tileMap resourceTileMap : Tilemap) :
    written sha playerNum scale tileMap resourceTileMap
      = fileOf sha playerNum scale ⟨Int32.ofInt tileMap.sizeX, Int32.ofInt tileMap.sizeY⟩
        (tileMap.cells.filterMap (tileInfoAt tileMap))
        ((resourceInfos resourceTileMap).filter fun info => info.resourceId ≠ 10)
        (((resourceInfos resourceTileMap).filter fun info => info.resourceId = 10).map
          fun info => ⟨info.x, info.y⟩) := by
  unfold written
  dsimp only
  rw [tileMapDatas_eq]
  rfl

/--
On a completely filled map, every marker inside the bounds survives the export exactly
when it lands: the stored records are those of the markers, one by one and in order.
-/
theorem marker_survives_iff {tileMap resourceTileMap : Tilemap} (hfilled : Filled tileMap)
    (hlen : (written sha playerNum scale tileMap resourceTileMap).length < 2147483648) :
    ∃ hash map, (setHashToMap behind (written sha playerNum scale tileMap resourceTileMap)).value
        = .accepted hash map
      ∧ List.Forall₂ (fun pos entry => Inside tileMap pos →
          (Survives tileMap map pos entry.x entry.y ↔ Lands tileMap pos))
        (markers resourceTileMap isResource) map.resources
      ∧ List.Forall₂ (fun pos spos => Inside tileMap pos →
          (Survives tileMap map pos spos.x spos.y ↔ Lands tileMap pos))
        (markers resourceTileMap isStart) map.playerPos := by
  rw [written_eq] at hlen ⊢
  have hwidth : (Int32.ofInt tileMap.sizeX).toInt = tileMap.sizeX :=
    Int32.toInt_ofInt_of_le (le_trans (by decide) (Int.natCast_nonneg _))
      (Int.ofNat_lt.mpr tileMap.sizeX_lt)
  have hheight : (Int32.ofInt tileMap.sizeY).toInt = tileMap.sizeY :=
    Int32.toInt_ofInt_of_le (le_trans (by decide) (Int.natCast_nonneg _))
      (Int.ofNat_lt.mpr tileMap.sizeY_lt)
  refine ⟨_, _, setHashToMap_fileOf sha playerNum scale _ _ _ _ behind hlen, ?_, ?_⟩
  · refine List.forall₂_map_right_iff.mpr ((forall₂_resources resourceTileMap).imp ?_)
    rintro pos info ⟨hx, hy⟩ _
    unfold entry
    rw [hx, hy, CInt.toInt_ofInt, CInt.toInt_ofInt]
    exact survives_iff hfilled hwidth hheight rfl pos
  · have hpoints := forall₂_points resourceTileMap
    generalize ((resourceInfos resourceTileMap).filter fun info => info.resourceId = 10) = infos at hpoints ⊢
    refine List.forall₂_map_right_iff.mpr ?_
    rw [List.zipIdx_map]
    refine List.forall₂_map_right_iff.mpr ?_
    rw [← List.zipIdx_map_fst 0 infos] at hpoints
    refine (List.forall₂_map_right_iff.mp hpoints).imp ?_
    rintro pos p ⟨hx, hy⟩ _
    unfold startPos Prod.map
    dsimp only
    rw [hx, hy, CInt.toInt_ofInt, CInt.toInt_ofInt]
    exact survives_iff hfilled hwidth hheight rfl pos

end

/-- A hill, and ground to the right of it. -/
def hillAndGround (xMin : Int) : Tilemap where
  xMin := xMin
  yMin := 0
  sizeX := 2
  sizeY := 1
  getTile x _ := if x = xMin then some .hill else some .ground
  sizeX_lt := by decide
  sizeY_lt := by decide

theorem filled_hillAndGround (xMin : Int) : Filled (hillAndGround xMin) := by
  intro pos _
  unfold tileInfoAt hillAndGround
  dsimp only
  split <;> rfl

/-- A mineral and nothing else. -/
def oneMineral (x : Int) : Tilemap where
  xMin := x
  yMin := 0
  sizeX := 1
  sizeY := 1
  getTile _ _ := some .mineral
  sizeX_lt := by decide
  sizeY_lt := by decide

/-- A mineral on the ground of a map at the origin. -/
theorem marker_survives_iff_origin : ∃ hash map,
    (setHashToMap (fun _ => []) (written zeroSha 1 2 (hillAndGround 0) (oneMineral 1))).value
        = .accepted hash map
      ∧ ∃ entry, map.resources = [entry] ∧ Survives (hillAndGround 0) map (1, 0) entry.x entry.y := by
  have hlen : (written zeroSha 1 2 (hillAndGround 0) (oneMineral 1)).length < 2147483648 := by
    decide +kernel
  obtain ⟨hash, map, haccepted, hresources, _⟩ :=
    marker_survives_iff (fun _ => []) zeroSha 1 2 (filled_hillAndGround 0) hlen
  have hmarkers : markers (oneMineral 1) isResource = [(1, 0)] := by decide
  rw [hmarkers] at hresources
  obtain ⟨entry, rest, hentry, hrest, hall⟩ := List.forall₂_cons_left_iff.mp hresources
  obtain rfl := List.forall₂_nil_left_iff.mp hrest
  refine ⟨hash, map, haccepted, entry, hall, (hentry ?_).mpr ⟨?_, rfl⟩⟩
  · unfold Inside
    decide
  · unfold Inside
    decide

/-- A mineral on the hill of a map whose corner is to the left of the origin. -/
theorem not_marker_survives : ¬ ∀ tileMap resourceTileMap : Tilemap, Filled tileMap → ∃ hash map,
    (setHashToMap (fun _ => []) (written zeroSha 1 2 tileMap resourceTileMap)).value
        = .accepted hash map
      ∧ List.Forall₂ (fun pos entry => Inside tileMap pos → Survives tileMap map pos entry.x entry.y)
        (markers resourceTileMap isResource) map.resources := by
  intro h
  obtain ⟨hash, map, haccepted, hresources⟩ :=
    h (hillAndGround (-1)) (oneMineral (-1)) (filled_hillAndGround (-1))
  have hstored : map.resources = [⟨0, -1, 0⟩] := by
    have hrun : (match (setHashToMap (fun _ => [])
          (written zeroSha 1 2 (hillAndGround (-1)) (oneMineral (-1)))).value with
        | .accepted _ map => map.resources
        | _ => []) = [⟨0, -1, 0⟩] := by
      decide +kernel
    rw [haccepted] at hrun
    exact hrun
  have hmarkers : markers (oneMineral (-1)) isResource = [(-1, 0)] := by decide
  rw [hmarkers, hstored] at hresources
  obtain ⟨hentry, _⟩ := List.forall₂_cons.mp hresources
  have hinside : Inside (hillAndGround (-1)) (-1, 0) := by
    unfold Inside
    decide
  exact absurd (hentry hinside).1 (by decide)

end StarCraftIocp.MapEditor
