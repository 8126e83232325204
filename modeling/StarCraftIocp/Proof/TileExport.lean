import StarCraftIocp.Proof.Markers

/-!
# Where tiles end up

A reader of the tile records finds the tile of a cell by the row and the column, which
it counts from the number of records before. The export skips cells without a tile, and
cells whose tile it has no record for; after the first of them all tiles are in the
wrong place, and the last ones are missing.
-/

namespace StarCraftIocp.MapEditor

open TileMapLeader

variable {t : Tilemap}

/-- There is a record of four bytes for every cell, and the tile of each cell is in the record of its row and column. -/
def Positional (t : Tilemap) : Prop :=
  (tileMapDatas t).1.length = 4 * (t.sizeX * t.sizeY) ∧
    ∀ k < t.sizeX * t.sizeY, ∀ info, tileInfoAt t
      (t.xMin + (k % t.sizeX : Nat), t.yMin + (k / t.sizeX : Nat)) = some info →
      Bytes.readLe16 (tileMapDatas t).1 (4 * k) = info.tileId.toNat ∧
        Bytes.readLe16 (tileMapDatas t).1 (4 * k + 2) = info.tileHeight.toNat

theorem length_cells (t : Tilemap) : t.cells.length = t.sizeX * t.sizeY := by
  rw [cells_eq, List.length_map, length_rows]

theorem mem_cells_of_inside {pos : Int × Int} (h : Inside t pos) : pos ∈ t.cells := by
  obtain ⟨hx, hx', hy, hy'⟩ := h
  rw [cells_eq]
  refine List.mem_map.mpr ⟨((pos.1 - t.xMin).toNat, (pos.2 - t.yMin).toNat), mem_rows.mpr ?_, ?_⟩
  · dsimp only
    omega
  · refine Prod.ext ?_ ?_ <;> (dsimp only; omega)

/-- There are as many records as cells only if every cell has one. -/
theorem filled_of_length (h : (tileMapDatas t).1.length = 4 * (t.sizeX * t.sizeY)) : Filled t := by
  rw [tileMapDatas_eq, Bytes.length_flatMap TileInfo.length_write, ← length_cells] at h
  have hall := List.filterMap_length_eq_length.mp (Nat.eq_of_mul_eq_mul_left (by omega) h)
  intro pos hpos
  exact hall pos (mem_cells_of_inside hpos)

/-- The two fields of a record, at its place in the stream. -/
theorem readLe16_write {l : List TileInfo} {k : Nat} {info : TileInfo} (hk : l[k]? = some info) :
    Bytes.readLe16 (l.flatMap TileInfo.write) (4 * k) = info.tileId.toNat ∧
      Bytes.readLe16 (l.flatMap TileInfo.write) (4 * k + 2) = info.tileHeight.toNat := by
  have hid := Bytes.readLe16_flatMap TileInfo.length_write hk (show 0 + 2 ≤ 4 by omega)
  have hheight := Bytes.readLe16_flatMap TileInfo.length_write hk (show 2 + 2 ≤ 4 by omega)
  rw [Nat.add_zero] at hid
  rw [hid, hheight]
  constructor
  · exact Bytes.readLe16_le16 info.tileId.toNat_lt [] _
  · have := Bytes.readLe16_le16 info.tileHeight.toNat_lt (Bytes.le16 info.tileId.toNat) []
    rw [List.append_nil] at this
    exact this

/-! ## Main result -/

/--
**The export is positional if and only if every cell inside the bounds has a tile that
is registered**: then there are `w * h` records, and record `k` is the tile in column
`k mod w` of row `k div w`.
-/
theorem positional_iff (t : Tilemap) : Positional t ↔ Filled t := by
  constructor
  · intro h
    exact filled_of_length h.1
  · intro hfilled
    have hall : ∀ pos ∈ t.cells, (tileInfoAt t pos).isSome := fun pos hpos => hfilled pos
      (inside_of_mem_cells hpos)
    refine ⟨?_, ?_⟩
    · rw [tileMapDatas_eq, Bytes.length_flatMap TileInfo.length_write,
        List.filterMap_length_eq_length.mpr hall,
        length_cells]
    · intro k hk info hinfo
      rw [tileMapDatas_eq]
      refine readLe16_write ?_
      rw [getElem?_filterMap hall, cells_eq, List.getElem?_map, getElem?_rows hk]
      exact hinfo

/-- Ground, a hole, and a hill. -/
def groundHoleHill : Tilemap :=
  { hillAndGround (-1) with
    sizeX := 3
    getTile := fun x _ => if x = -1 then some .ground else if x = 1 then some .hill else none
    sizeX_lt := by decide }

/-- Two records are written for the three cells. -/
theorem not_positional : ¬ Positional groundHoleHill := by
  intro h
  have hlen : (tileMapDatas groundHoleHill).1.length = 8 := by decide
  have := h.1
  rw [hlen] at this
  exact absurd this (by decide)

end StarCraftIocp.MapEditor
