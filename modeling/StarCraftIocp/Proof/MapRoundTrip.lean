import StarCraftIocp.MapEditor.MapMaker
import StarCraftIocp.Proof.MapFile

/-!
# What the editor writes, the server reads

The editor's files are files of chunks, and the loader reads back the records that
were written. It does so with one `memcpy` that is too long: four bytes for the
two of `scale`.
-/

namespace StarCraftIocp.MapEditor

open MapMaker

/-! ## Records -/

/-- A field in the middle of a record. -/
theorem readLe16_field (a : List UInt8) (n : UInt16) (r : List UInt8) :
    Bytes.readLe16 (a ++ (Bytes.le16 n.toNat ++ r)) a.length = n.toNat := by
  rw [← List.append_assoc]
  exact Bytes.readLe16_le16 n.toNat_lt a r

/-- The server's view of a tile is its two fields. -/
theorem readLe16_tiles {tiles : List TileInfo} {i : Nat} {info : TileInfo} (hi : tiles[i]? = some info) :
    Bytes.readLe16 (tiles.flatMap TileInfo.write) (4 * i) = info.tileId.toNat ∧
      Bytes.readLe16 (tiles.flatMap TileInfo.write) (4 * i + 2) = info.tileHeight.toNat := by
  have hread := fun pos (hpos : pos + 2 ≤ 4) => Bytes.readLe16_flatMap TileInfo.length_write hi hpos
  have hid := readLe16_field [] info.tileId (Bytes.le16 info.tileHeight.toNat)
  have hheight := readLe16_field (Bytes.le16 info.tileId.toNat) info.tileHeight []
  rw [List.append_nil] at hheight
  exact ⟨(hread 0 (by omega)).trans hid, (hread 2 (by omega)).trans hheight⟩

theorem map_tiles (tiles : List TileInfo) :
    ((List.range ((tiles.flatMap TileInfo.write).length / 4)).map fun i =>
        Bytes.readLe16 (tiles.flatMap TileInfo.write) (4 * i)) = tiles.map (fun info => info.tileId.toNat) ∧
      ((List.range ((tiles.flatMap TileInfo.write).length / 4)).map fun i =>
        Bytes.readLe16 (tiles.flatMap TileInfo.write) (4 * i + 2))
          = tiles.map fun info => info.tileHeight.toNat :=
  ⟨Bytes.map_range_flatMap TileInfo.length_write (by decide) fun _ _ hi => (readLe16_tiles hi).1,
    Bytes.map_range_flatMap TileInfo.length_write (by decide) fun _ _ hi => (readLe16_tiles hi).2⟩

/-- The server's view of a resource. -/
def entry (info : ResourceInfo) : ResourceEntry where
  type := info.resourceId.toNat
  x := info.x.toInt
  y := info.y.toInt

theorem entryAt_resources {resources : List ResourceInfo} {i : Nat} {info : ResourceInfo}
    (hi : resources[i]? = some info) :
    entryAt (resources.flatMap ResourceInfo.write) (6 * i) = entry info := by
  have hread := fun pos (hpos : pos + 2 ≤ 6) =>
    Bytes.readLe16_flatMap ResourceInfo.length_write hi hpos
  have hid := readLe16_field [] info.resourceId
    (Bytes.le16 info.x.toUInt16.toNat ++ Bytes.le16 info.y.toUInt16.toNat)
  have hx := readLe16_field (Bytes.le16 info.resourceId.toNat) info.x.toUInt16
    (Bytes.le16 info.y.toUInt16.toNat)
  have hy := readLe16_field (Bytes.le16 info.resourceId.toNat ++ Bytes.le16 info.x.toUInt16.toNat)
    info.y.toUInt16 []
  rw [List.append_nil] at hy
  rw [← Nat.add_zero (6 * i)]
  unfold entryAt entry
  rw [(hread 0 (by omega)).trans hid, Nat.add_zero, (hread 2 (by omega)).trans hx,
    (hread 4 (by omega)).trans hy,
    CInt.int16_toUInt16, CInt.int16_toUInt16]

theorem entriesOf_resources (resources : List ResourceInfo) :
    entriesOf (resources.flatMap ResourceInfo.write) = resources.map entry :=
  Bytes.map_range_flatMap ResourceInfo.length_write (by decide) fun _ _ hi => entryAt_resources hi

/-- The server's view of a starting place, the `i`-th. -/
def startPos (point : PlayerStartPoint) (i : Nat) : PlayerStartPos where
  playerIndex := i
  x := point.x.toInt
  y := point.y.toInt

theorem startPosAt_points {points : List PlayerStartPoint} {i : Nat} {point : PlayerStartPoint}
    (hi : points[i]? = some point) (playerIndex : Nat) :
    startPosAt (points.flatMap PlayerStartPoint.write) playerIndex (4 * i)
      = startPos point playerIndex := by
  have hread := fun pos (hpos : pos + 2 ≤ 4) =>
    Bytes.readLe16_flatMap PlayerStartPoint.length_write hi hpos
  have hx := readLe16_field [] point.x.toUInt16 (Bytes.le16 point.y.toUInt16.toNat)
  have hy := readLe16_field (Bytes.le16 point.x.toUInt16.toNat) point.y.toUInt16 []
  rw [List.append_nil] at hy
  rw [← Nat.add_zero (4 * i)]
  unfold startPosAt startPos
  rw [(hread 0 (by omega)).trans hx, Nat.add_zero, (hread 2 (by omega)).trans hy, CInt.int16_toUInt16,
    CInt.int16_toUInt16]

theorem startPossOf_points (points : List PlayerStartPoint) :
    startPossOf (points.flatMap PlayerStartPoint.write)
      = points.zipIdx.map fun p => startPos p.1 (p.2 % 65536) := by
  have hread : ∀ i point, points[i]? = some point →
      startPosAt (points.flatMap PlayerStartPoint.write) (i % 65536) (4 * i)
        = (fun point i => startPos point (i % 65536)) point i := fun _ _ hi => startPosAt_points hi _
  exact Bytes.map_range_flatMap_zipIdx PlayerStartPoint.length_write (by decide) hread

/-! ## Files -/

section

variable (sha : Sha256) (playerNum scale : UInt16) (size : TileMapSize) (tiles : List TileInfo)
  (resources : List ResourceInfo) (points : List PlayerStartPoint)

/-- The hash of a map. -/
def hashOf : List UInt8 :=
  sha.computeHash (makeChecksum (tiles.flatMap TileInfo.write) (resources.flatMap ResourceInfo.write)
    points)

/-- The file of a map. -/
def fileOf : List UInt8 :=
  writeMapFile sha playerNum scale (tiles.flatMap TileInfo.write) size
    (resources.flatMap ResourceInfo.write) points

/-- What is in the section with the size. -/
def sizeBody : List UInt8 :=
  Bytes.le32 size.width.toUInt32.toNat ++ (Bytes.le32 size.height.toUInt32.toNat
    ++ Bytes.le16 scale.toNat)

theorem read_sizeBody : Bytes.readLe32 (sizeBody scale size) 0 = size.width.toUInt32.toNat ∧
    Bytes.readLe32 (sizeBody scale size) 4 = size.height.toUInt32.toNat ∧
    Bytes.readLe16 (sizeBody scale size) 8 = scale.toNat := by
  have hheight := Bytes.readLe32_append_right (Bytes.le32 size.width.toUInt32.toNat)
    (Bytes.le32 size.height.toUInt32.toNat ++ Bytes.le16 scale.toNat) 0
  have hscale := readLe16_field
    (Bytes.le32 size.width.toUInt32.toNat ++ Bytes.le32 size.height.toUInt32.toNat) scale []
  rw [List.append_nil, List.append_assoc] at hscale
  exact ⟨Bytes.readLe32_le32 size.width.toUInt32.toNat_lt _,
    hheight.trans (Bytes.readLe32_le32 size.height.toUInt32.toNat_lt _), hscale⟩

/-- The sections of a map behind the hash. -/
def sectionsOf : List Chunk :=
  [⟨MapSection.ownr, Bytes.le16 playerNum.toNat⟩, ⟨MapSection.size, sizeBody scale size⟩,
    ⟨MapSection.mtxm, tiles.flatMap TileInfo.write⟩,
    ⟨MapSection.reso, resources.flatMap ResourceInfo.write⟩,
    ⟨MapSection.spos, points.flatMap PlayerStartPoint.write⟩]

/-- The editor writes chunks; the lengths it computes are those of what it writes. -/
theorem fileOf_eq : fileOf sha playerNum scale size tiles resources points
    = (Chunk.mk MapSection.hash (hashOf sha tiles resources points)
      :: sectionsOf playerNum scale size tiles resources points).flatMap Chunk.encode := by
  have hpoints : points.length * 2 * 2 = (points.flatMap PlayerStartPoint.write).length := by
    rw [Bytes.length_flatMap PlayerStartPoint.length_write]
    omega
  have hownr : (Bytes.le16 playerNum.toNat).length = 2 := rfl
  have hsize : (sizeBody scale size).length = 2 * 4 + 2 := rfl
  unfold fileOf writeMapFile sectionsOf
  simp only [List.flatMap_cons, List.flatMap_nil, List.append_nil, Chunk.encode, hownr, hsize, hpoints]
  simp only [hashOf, sizeBody, List.append_assoc]

theorem valid_hash : (Chunk.mk MapSection.hash (hashOf sha tiles resources points)).Valid where
  code := Nat.le_of_ble_eq_true rfl
  length := by
    change (hashOf sha tiles resources points).length < _
    rw [hashOf, sha.length_computeHash]
    decide

/-- In a file that is not too long for an array of bytes, every section is well formed. -/
theorem valid_sections
    (hlen : (fileOf sha playerNum scale size tiles resources points).length < 2147483648) :
    ∀ c ∈ Chunk.mk MapSection.hash (hashOf sha tiles resources points)
      :: sectionsOf playerNum scale size tiles resources points, c.Valid := by
  have hcode : ∀ c ∈ Chunk.mk MapSection.hash (hashOf sha tiles resources points)
      :: sectionsOf playerNum scale size tiles resources points, c.code < 6 := by
    intro c hc
    simp only [sectionsOf, List.mem_cons, List.not_mem_nil, or_false] at hc
    rcases hc with rfl | rfl | rfl | rfl | rfl | rfl <;> exact Nat.le_of_ble_eq_true rfl
  intro c hc
  rw [fileOf_eq] at hlen
  exact ⟨lt_trans (hcode c hc) (by decide), lt_of_le_of_lt (Chunk.length_body_le hc) hlen⟩

/-- The map the server makes of the file. -/
def mapOf : LoadedMap where
  mapWidth := size.width.toInt
  mapHeight := size.height.toInt
  height := tiles.map fun info => info.tileHeight.toNat
  playerPos := points.zipIdx.map fun p => startPos p.1 (p.2 % 65536)
  sections := (sectionsOf playerNum scale size tiles resources points).foldl
    (fun sections c => sections.insert c.code c.body) ∅
  playerCount := playerNum.toNat
  tiles := tiles.map fun info => info.tileId.toNat
  scale := scale.toNat
  resources := resources.map entry

variable (behind : List UInt8 → List UInt8)

theorem foldl_parse_sections :
    (sectionsOf playerNum scale size tiles resources points).foldl (parse behind) LoadedMap.new
      = mapOf playerNum scale size tiles resources points := by
  have hownr : Bytes.readLe16 (Bytes.le16 playerNum.toNat) 0 = playerNum.toNat := by
    have := readLe16_field [] playerNum []
    rwa [List.append_nil] at this
  obtain ⟨hwidth, hheight, hscale⟩ := read_sizeBody scale size
  obtain ⟨htiles, hheights⟩ := map_tiles tiles
  unfold sectionsOf
  simp only [List.foldl_cons, List.foldl_nil]
  rw [parse_ownr behind _ (le_refl 2), parse_size behind _ (le_refl 10), parse_mtxm, parse_reso,
    parse_spos, entriesOf_resources, startPossOf_points]
  simp only [hownr, hwidth, hheight, hscale, htiles, hheights, CInt.int32_toUInt32]
  rfl

/-! ## Main results -/

/-- What a round trip is to give: the map, and no byte from or to a wrong place. -/
structure RoundTrips : Prop where
  accepted : ∃ map, (setHashToMap behind (fileOf sha playerNum scale size tiles resources points)).value
      = .accepted (hashOf sha tiles resources points) map
    ∧ map.playerCount = playerNum.toNat
    ∧ map.mapWidth = size.width.toInt ∧ map.mapHeight = size.height.toInt ∧ map.scale = scale.toNat
    ∧ map.tiles = (tiles.map fun info => info.tileId.toNat)
    ∧ map.height = (tiles.map fun info => info.tileHeight.toNat)
    ∧ map.resources = resources.map entry
    ∧ map.playerPos = points.zipIdx.map fun p => startPos p.1 p.2
  safe : ∀ m ∈ (setHashToMap behind (fileOf sha playerNum scale size tiles resources points)).trace, m.Safe

/-- A file that is not too long for an array of bytes comes back as the map that was written. -/
theorem setHashToMap_fileOf
    (hlen : (fileOf sha playerNum scale size tiles resources points).length < 2147483648) :
    (setHashToMap behind (fileOf sha playerNum scale size tiles resources points)).value
      = .accepted (hashOf sha tiles resources points)
        (mapOf playerNum scale size tiles resources points) := by
  rw [setHashToMap_chunks behind
    (valid_sections sha playerNum scale size tiles resources points hlen) (fileOf_eq ..) hlen,
    foldl_parse_sections]

/-- Of all that is copied on the way only `scale` is copied with a wrong length. -/
theorem safe_or_scaleCopy
    (hlen : (fileOf sha playerNum scale size tiles resources points).length < 2147483648) {m : Memcpy}
    (hm : m ∈ (setHashToMap behind (fileOf sha playerNum scale size tiles resources points)).trace) :
    m.Safe ∨ m = scaleCopy 10 := by
  have hvalid := valid_sections sha playerNum scale size tiles resources points hlen
  rcases trace_setHashToMap_chunks behind hvalid (fileOf_eq ..) hlen hm with hsafe | ⟨c, hc, out, hm⟩
  · exact .inl hsafe
  have hlong : (c.code = MapSection.ownr → 2 ≤ c.body.length)
      ∧ (c.code = MapSection.size → c.body.length = 10) := by
    simp only [sectionsOf, List.mem_cons, List.not_mem_nil, or_false] at hc
    rcases hc with rfl | rfl | rfl | rfl | rfl <;>
      simp [MapSection.ownr, MapSection.size, MapSection.mtxm, MapSection.reso, MapSection.spos, sizeBody]
  refine (safe_parsingMapData behind hlong.1 (fun h => by rw [hlong.2 h]; decide) out m hm).imp id ?_
  rintro ⟨hcode, rfl⟩
  rw [hlong.2 hcode]

/-- It is so copied from every file, however long: the size is the third section. -/
theorem scaleCopy_mem_fileOf : scaleCopy 10
    ∈ (setHashToMap behind (fileOf sha playerNum scale size tiles resources points)).trace := by
  have hfile := fileOf_eq sha playerNum scale size tiles resources points
  generalize hdata : fileOf sha playerNum scale size tiles resources points = data at hfile
  have hhash := valid_hash sha tiles resources points
  have hhashLength : (hashOf sha tiles resources points).length = 32 := sha.length_computeHash _
  generalize hashOf sha tiles resources points = hash at hfile hhash hhashLength
  simp only [sectionsOf, List.flatMap_cons] at hfile
  have hownr : (Chunk.mk MapSection.ownr (Bytes.le16 playerNum.toNat)).Valid :=
    ⟨Nat.le_of_ble_eq_true rfl, Nat.le_of_ble_eq_true rfl⟩
  have hsize : (Chunk.mk MapSection.size (sizeBody scale size)).Valid :=
    ⟨Nat.le_of_ble_eq_true rfl, Nat.le_of_ble_eq_true rfl⟩
  have hfirst : (Chunk.mk MapSection.hash hash).encode.length = 38 := by
    rw [Chunk.length_encode]
    exact congrArg (6 + ·) hhashLength
  have hsecond : (Chunk.mk MapSection.ownr (Bytes.le16 playerNum.toNat)).encode.length = 8 := rfl
  have hthird : (Chunk.mk MapSection.size (sizeBody scale size)).encode.length = 16 := rfl
  have hlong : 38 ≤ data.length := by
    rw [hfile, List.length_append, hfirst]
    exact Nat.le_add_right _ _
  obtain ⟨n, hn⟩ : ∃ n, data.length = n + 1 := ⟨data.length - 1, by omega⟩
  rw [setHashToMap_hash behind hhash hfile (by omega) rfl,
    sectionLoop_chunk behind hownr hfile (by rw [hfirst, hsecond]; decide) _ _ rfl, hn,
    sectionLoop_chunk behind hsize (hfile.trans (List.append_assoc ..).symm)
      (by rw [List.length_append, hfirst, hsecond, hthird]; decide) _ _ rfl]
  have hmem := scaleCopy_mem behind (sizeBody scale size)
  simp only [List.mem_append]
  exact .inr (.inr (.inr (.inl (.inr (.inr (.inr (.inr (.inr (.inr (.inr (.inl (hmem _))))))))))))

/-- No map makes the round trip: two bytes that follow the section in memory end up behind `scale`. -/
theorem not_fileRoundTrips : ¬ RoundTrips sha playerNum scale size tiles resources points behind := by
  intro h
  exact not_safe_scaleCopy 10 (h.safe _ (scaleCopy_mem_fileOf ..))

end

/-- A hash that is always zero. -/
def zeroSha : Sha256 where
  computeHash _ := List.replicate 32 0
  length_computeHash _ := List.length_replicate

/-- A map of one cell, with a mineral and a starting place. -/
theorem not_fileRoundTrips_oneCell :
    ¬ RoundTrips zeroSha 1 2 ⟨1, 1⟩ [⟨101, 1⟩] [⟨0, 0, 0⟩] [⟨0, 0⟩] fun _ => [] := by
  intro h
  have hcopied : (⟨8, 10, 4, 2⟩ : Memcpy) ∈ (setHashToMap (fun _ => [])
      (fileOf zeroSha 1 2 ⟨1, 1⟩ [⟨101, 1⟩] [⟨0, 0, 0⟩] [⟨0, 0⟩])).trace := by
    decide +kernel
  exact absurd (h.safe _ hcopied) (by decide)

end StarCraftIocp.MapEditor
