import StarCraftIocp.Client.MapManager
import StarCraftIocp.Lib.Table
import StarCraftIocp.Proof.MapFile

/-!
# One map, read twice

The client has a parser of its own for the files the server loads. On well-formed
files the two agree: on the hash, on the sections, on the tile of a cell and on the
resources, as far as the client's tile data has something to show for them. The first
thing it has nothing for ends the building of the scene with an exception.
-/

namespace StarCraftIocp.GlobalUtils

/-! ## Chunks -/

theorem toUInt16_eq {data : List UInt8} {index : Int} {i : Nat} (hi : index = i)
    (h : i + 2 ≤ data.length) : toUInt16 data index = some (Bytes.readLe16 data i) := by
  subst hi
  unfold toUInt16
  rw [if_pos ⟨Int.natCast_nonneg i, Int.ofNat_le.mpr h⟩, Int.toNat_natCast]

theorem toInt16_eq {data : List UInt8} {index : Int} {i : Nat} (hi : index = i)
    (h : i + 2 ≤ data.length) : toInt16 data index = some (CInt.int16 (Bytes.readLe16 data i)) := by
  subst hi
  unfold toInt16
  rw [if_pos ⟨Int.natCast_nonneg i, Int.ofNat_le.mpr h⟩, Int.toNat_natCast]

theorem toInt32_eq {data : List UInt8} {index : Int} {i : Nat} (hi : index = i)
    (h : i + 4 ≤ data.length) : toInt32 data index = some (CInt.int32 (Bytes.readLe32 data i)) := by
  subst hi
  unfold toInt32
  rw [if_pos ⟨Int.natCast_nonneg i, Int.ofNat_le.mpr h⟩, Int.toNat_natCast]

section

variable {c : Chunk} (hc : c.Valid) {pre rest data : List UInt8}
  (hdata : data = pre ++ (c.encode ++ rest))

include hc hdata

/-- What the client finds at the beginning of a chunk. -/
theorem read_chunk : toUInt16 data pre.length = some c.code ∧
    toInt32 data (pre.length + 2) = some (c.body.length : Int) ∧
    blockCopy data (pre.length + 6) c.body.length = some c.body := by
  have hlength : data.length = pre.length + 6 + c.body.length + rest.length := by
    rw [hdata, List.length_append, List.length_append, c.length_encode]
    omega
  have hfit := hc.length
  have h2 : (pre.length : Int) + 2 = ((pre.length + 2 : Nat) : Int) := by omega
  have h6 : (pre.length : Int) + 6 = ((pre.length + 6 : Nat) : Int) := by omega
  have hsize : CInt.int32 (c.body.length : Int) = c.body.length :=
    CInt.int32_of_range (by omega) (by omega)
  have hbody := Chunk.slice_encode (c := c) pre rest
  refine ⟨?_, ?_, ?_⟩
  · rw [toUInt16_eq rfl (by omega), hdata, Chunk.readLe16_encode hc pre rest]
  · rw [toInt32_eq h2 (by omega), hdata, Chunk.readLe32_encode hc pre rest, hsize]
  · unfold blockCopy
    rw [if_pos ⟨by omega, by omega, by omega⟩, h6, Int.toNat_natCast, Int.toNat_natCast, hdata, hbody]

end

/-- The loop takes a file of sections apart. -/
theorem sectionLoop_chunks {cs : List Chunk} (hcs : ∀ c ∈ cs, c.Valid) (pre : List UInt8)
    {data : List UInt8} (hdata : data = pre ++ cs.flatMap Chunk.encode) (hlen : data.length < 2147483648)
    {fuel : Nat} (hfuel : cs.length < fuel) (dictionary : Std.ExtTreeMap MapSection (List UInt8)) :
    sectionLoop data fuel pre.length dictionary
      = some (cs.foldl (fun dictionary c => dictionary.insert c.code c.body) dictionary) := by
  induction cs generalizing pre fuel dictionary with
  | nil =>
      obtain ⟨fuel, rfl⟩ := Nat.exists_eq_add_of_lt hfuel
      have hend : ¬ (pre.length : Int) < data.length := by
        rw [hdata, List.flatMap_nil, List.append_nil]
        omega
      unfold sectionLoop
      rw [if_neg hend]
      rfl
  | cons c cs ih =>
      obtain ⟨fuel, rfl⟩ : ∃ n, fuel = n + 1 := ⟨fuel - 1, by omega⟩
      have hsplit : data = pre ++ (c.encode ++ cs.flatMap Chunk.encode) := by
        rw [hdata, List.flatMap_cons]
      have hlength : data.length = pre.length + 6 + c.body.length
          + (cs.flatMap Chunk.encode).length := by
        rw [hsplit, List.length_append, List.length_append, c.length_encode]
        omega
      have hmore : (pre.length : Int) < data.length := by omega
      have hfits : ¬ CInt.int32 ((pre.length : Int) + 6 + c.body.length) > data.length := by
        rw [CInt.int32_of_range (by omega) (by omega)]
        omega
      have hend : (pre.length : Int) + 6 + c.body.length = (pre ++ c.encode).length := by
        rw [List.length_append, c.length_encode]
        omega
      obtain ⟨hcode, hsize, hbody⟩ := read_chunk (hcs c List.mem_cons_self) hsplit
      have hrest := ih (fun d hd => hcs d (List.mem_cons_of_mem c hd)) (pre ++ c.encode)
        (by rw [hsplit, List.append_assoc]) (Nat.lt_of_succ_lt_succ hfuel)
        (dictionary.insert c.code c.body)
      unfold sectionLoop
      rw [if_pos hmore, hcode, Option.bind_eq_bind, Option.bind_some, hsize, Option.bind_eq_bind,
        Option.bind_some]
      dsimp only
      rw [if_neg hfits, hbody, Option.bind_eq_bind, Option.bind_some, hend, hrest]
      rfl

/-- The hash is the first section. -/
theorem extractionMapHash_eq {hash rest data : List UInt8}
    (hc : (Chunk.mk MapSection.hash hash).Valid)
    (hdata : data = (Chunk.mk MapSection.hash hash).encode ++ rest) :
    extractionMapHash (some data) = some (true, hash) := by
  have hbegin : data = [] ++ ((Chunk.mk MapSection.hash hash).encode ++ rest) := hdata
  obtain ⟨hcode, hsize, hbody⟩ := read_chunk hc hbegin
  rw [List.length_nil] at hcode hsize hbody
  have hcode' : toUInt16 data 0 = some MapSection.hash := hcode
  have hsize' : toInt32 data 2 = some (hash.length : Int) := hsize
  have hbody' : blockCopy data 6 hash.length = some hash := hbody
  unfold extractionMapHash
  dsimp only
  rw [hcode', Option.bind_eq_bind, Option.bind_some, if_neg (not_not_intro rfl), hsize',
    Option.bind_eq_bind, Option.bind_some, hbody', Option.bind_eq_bind, Option.bind_some]
  rfl

end StarCraftIocp.GlobalUtils

namespace StarCraftIocp.MapManager

open MapMaker

/-! ## Loops over records -/

/-- A list up to the first element that is not `ok`, which is reached still. -/
def reached {α : Type} (ok : α → Bool) : List α → List α
  | [] => []
  | a :: l => if ok a then a :: reached ok l else [a]

theorem reached_cons_pos {α : Type} {ok : α → Bool} {a : α} (h : ok a = true) (l : List α) :
    reached ok (a :: l) = a :: reached ok l := if_pos h

theorem reached_cons_neg {α : Type} {ok : α → Bool} {a : α} (h : ¬ ok a = true) (l : List α) :
    reached ok (a :: l) = [a] := if_neg h

/-- A pass over a list that ends at the first element that is not `ok`, and whether it got to the end. -/
def walk {α : Type} (ok : α → Bool) (l : List α) : List α × Bool := (reached ok l, l.all ok)

theorem walk_cons_pos {α : Type} {ok : α → Bool} {a : α} (h : ok a = true) (l : List α) :
    walk ok (a :: l) = (a :: (walk ok l).1, (walk ok l).2) := by
  unfold walk
  rw [reached_cons_pos h, List.all_cons, h, Bool.true_and]

theorem walk_cons_neg {α : Type} {ok : α → Bool} {a : α} (h : ¬ ok a = true) (l : List α) :
    walk ok (a :: l) = ([a], false) := by
  unfold walk
  rw [reached_cons_neg h, List.all_cons, Bool.eq_false_iff.mpr h, Bool.false_and]

/-- A tile for every cell, read from where the cell comes. -/
theorem tileLoop_eq (known : Std.ExtTreeMap Int Nat) (mapData : List UInt8) (cells : List (Nat × Nat))
    (k : Nat) (hfits : 4 * (k + cells.length) ≤ mapData.length) :
    tileLoop known mapData cells (4 * k : Nat)
      = walk (fun read => (read.tileId : Int) ∈ known) ((cells.zipIdx k).map fun p =>
        ⟨p.1.1, p.1.2, Bytes.readLe16 mapData (4 * p.2)⟩) := by
  induction cells generalizing k with
  | nil => rfl
  | cons cell cells ih =>
      rw [List.length_cons] at hfits
      have hrest := ih (k + 1) (by omega)
      have hnext : ((4 * k : Nat) : Int) + 4 = ((4 * (k + 1) : Nat) : Int) := by omega
      unfold tileLoop
      rw [GlobalUtils.toUInt16_eq rfl (by omega), List.zipIdx_cons, List.map_cons, hnext]
      dsimp only
      by_cases hknown : (Bytes.readLe16 mapData (4 * k) : Int) ∈ known
      · rw [if_pos hknown]
        refine Eq.trans ?_ (walk_cons_pos (by exact decide_eq_true hknown) _).symm
        rw [hrest]
      · rw [if_neg hknown]
        exact (walk_cons_neg (by exact fun h => hknown (of_decide_eq_true h)) _).symm

/-- A resource for every six bytes. -/
theorem resourceLoop_eq (asset : TileDataScriptable) {data : List UInt8} (hdata : data.length % 6 = 0)
    {fuel k : Nat} (hfuel : data.length / 6 - k < fuel) :
    resourceLoop asset data fuel (6 * k : Nat)
      = walk (fun entry => entry.type < asset.resources.length)
        ((List.range' k (data.length / 6 - k)).map fun i => entryAt data (6 * i)) := by
  induction fuel generalizing k with
  | zero => exact absurd hfuel (Nat.not_lt_zero _)
  | succ fuel ih =>
      unfold resourceLoop
      by_cases hmore : 6 * k + 6 ≤ data.length
      · obtain ⟨n, hn⟩ : ∃ n, data.length / 6 - k = n + 1 := ⟨data.length / 6 - k - 1, by omega⟩
        have hrest := ih (k := k + 1) (by omega)
        rw [show data.length / 6 - (k + 1) = n by omega] at hrest
        have hnext : ((6 * k : Nat) : Int) + 6 = ((6 * (k + 1) : Nat) : Int) := by omega
        rw [if_pos (by omega), GlobalUtils.toUInt16_eq rfl (by omega),
          GlobalUtils.toInt16_eq (i := 6 * k + 2) (by omega) (by omega),
          GlobalUtils.toInt16_eq (i := 6 * k + 4) (by omega) (by omega), hn, List.range'_succ,
          List.map_cons, hnext]
        dsimp only
        by_cases hentry : Bytes.readLe16 data (6 * k) < asset.resources.length
        · rw [if_pos hentry]
          refine Eq.trans ?_ (walk_cons_pos (by exact decide_eq_true hentry) _).symm
          rw [← hrest]
          rfl
        · rw [if_neg hentry]
          exact (walk_cons_neg (by exact fun h => hentry (of_decide_eq_true h)) _).symm
      · have hzero : data.length / 6 - k = 0 := by omega
        rw [hzero, if_neg (by omega)]
        rfl

/-! ## What a map asks the client for -/

/-- The tile ids of the map, cell by cell. -/
def tileReads (map : LoadedMap) : List TileRead :=
  (rows map.mapWidth.toNat map.mapHeight.toNat).map fun c =>
    ⟨c.1, c.2, map.tiles.getD (c.1 + map.mapWidth.toNat * c.2) 0⟩

/-- The tile data has a tile for the id. -/
def hasTile (asset : TileDataScriptable) (read : TileRead) : Bool :=
  (read.tileId : Int) ∈ tileDictionary asset.tiles

/-- The tile data has an entry for the type. -/
def hasResource (asset : TileDataScriptable) (entry : ResourceEntry) : Bool :=
  entry.type < asset.resources.length

/-! ## Well-formed files -/

/-- A hash, and no other section twice; the ground fills the size, and there are resources. -/
structure WellFormed (hash : List UInt8) (cs : List Chunk) (size mtxm reso : List UInt8) : Prop where
  valid : ∀ c ∈ Chunk.mk MapSection.hash hash :: cs, c.Valid
  codes : ((Chunk.mk MapSection.hash hash :: cs).map Chunk.code).Nodup
  size_mem : Chunk.mk MapSection.size size ∈ cs
  size_length : 12 ≤ size.length
  width : 0 ≤ CInt.int32 (Bytes.readLe32 size 0)
  height : 0 ≤ CInt.int32 (Bytes.readLe32 size 4)
  mtxm_mem : Chunk.mk MapSection.mtxm mtxm ∈ cs
  mtxm_length : 4 * (CInt.int32 (Bytes.readLe32 size 0) * CInt.int32 (Bytes.readLe32 size 4))
    ≤ mtxm.length
  reso_mem : Chunk.mk MapSection.reso reso ∈ cs
  reso_length : reso.length % 6 = 0

namespace WellFormed

variable {hash size mtxm reso : List UInt8} {cs : List Chunk} (h : WellFormed hash cs size mtxm reso)
  (behind : List UInt8 → List UInt8)

/-- The server's map of the file. -/
def serverMap (cs : List Chunk) : LoadedMap := cs.foldl (parse behind) LoadedMap.new

/-- A dictionary with a chunk entered. -/
def enter (dictionary : Std.ExtTreeMap MapSection (List UInt8)) (c : Chunk) :
    Std.ExtTreeMap MapSection (List UInt8) := dictionary.insert c.code c.body

/-- The client's sections of the file. -/
def clientMap (hash : List UInt8) (cs : List Chunk) : Std.ExtTreeMap MapSection (List UInt8) :=
  (Chunk.mk MapSection.hash hash :: cs).foldl enter ∅

/-- What is under a code does not depend on chunks with other codes. -/
theorem enter_frame (code : MapSection) (dictionary : Std.ExtTreeMap MapSection (List UInt8)) (c : Chunk)
    (hne : c.code ≠ code) : (enter dictionary c)[code]? = dictionary[code]? := by
  unfold enter
  rw [Table.getElem?_insert, if_neg (Ne.symm hne)]

theorem enter_self (dictionary : Std.ExtTreeMap MapSection (List UInt8)) (c : Chunk) :
    (enter dictionary c)[c.code]? = some c.body := by
  unfold enter
  rw [Table.getElem?_insert, if_pos rfl]

theorem sections_serverMap (map : LoadedMap) (cs : List Chunk) :
    (cs.foldl (parse behind) map).sections = cs.foldl enter map.sections := by
  induction cs generalizing map with
  | nil => rfl
  | cons c cs ih => rw [List.foldl_cons, List.foldl_cons, ih, sections_parse, enter]

include h

theorem nodup : (cs.map Chunk.code).Nodup := (List.nodup_cons.mp h.codes).2

theorem getElem?_clientMap {code : MapSection} {body : List UInt8} (hmem : Chunk.mk code body ∈ cs) :
    (clientMap hash cs)[code]? = some body := by
  obtain ⟨s, _, hlast⟩ := Chunk.foldl_unique enter (fun dictionary => dictionary[code]?)
    (enter_frame code) h.codes (List.mem_cons_of_mem _ hmem) ∅
  exact hlast.trans (enter_self s ⟨code, body⟩)

/-- The two hold the same sections, but for the hash. -/
theorem getElem?_sections {code : MapSection} (hcode : code ≠ MapSection.hash) :
    (clientMap hash cs)[code]? = (serverMap behind cs).sections[code]? := by
  unfold serverMap
  rw [sections_serverMap]
  by_cases hmem : code ∈ cs.map Chunk.code
  · obtain ⟨c, hc, rfl⟩ := List.mem_map.mp hmem
    obtain ⟨s, _, hlast⟩ := Chunk.foldl_unique enter (fun dictionary => dictionary[c.code]?)
      (enter_frame c.code) h.nodup hc LoadedMap.new.sections
    rw [h.getElem?_clientMap hc]
    exact (hlast.trans (enter_self s c)).symm
  · have hclient := Chunk.foldl_frame enter (fun dictionary => dictionary[code]?) (enter_frame code) hmem
      (enter ∅ ⟨MapSection.hash, hash⟩)
    have hserver := Chunk.foldl_frame enter (fun dictionary => dictionary[code]?) (enter_frame code) hmem
      LoadedMap.new.sections
    exact hclient.trans ((enter_frame code ∅ _ (Ne.symm hcode)).trans hserver.symm)

theorem size_serverMap : (serverMap behind cs).mapWidth = CInt.int32 (Bytes.readLe32 size 0) ∧
    (serverMap behind cs).mapHeight = CInt.int32 (Bytes.readLe32 size 4) := by
  obtain ⟨s, _, hlast⟩ := Chunk.foldl_unique (parse behind) (fun map => (map.mapWidth, map.mapHeight))
    (size_parse behind) h.nodup h.size_mem LoadedMap.new
  have hlong : 10 ≤ size.length := le_trans (by decide) h.size_length
  rw [parse_size behind s hlong] at hlast
  exact Prod.mk.inj hlast

theorem tiles_serverMap : (serverMap behind cs).tiles
    = (List.range (mtxm.length / 4)).map fun i => Bytes.readLe16 mtxm (4 * i) := by
  obtain ⟨s, _, hlast⟩ := Chunk.foldl_unique (parse behind) LoadedMap.tiles (tiles_parse behind) h.nodup
    h.mtxm_mem LoadedMap.new
  rw [parse_mtxm behind s] at hlast
  exact hlast

theorem resources_serverMap : (serverMap behind cs).resources = entriesOf reso := by
  obtain ⟨s, hs, hlast⟩ := Chunk.foldl_unique (parse behind) LoadedMap.resources (resources_parse behind)
    h.nodup h.reso_mem LoadedMap.new
  rw [parse_reso behind s, hs] at hlast
  exact hlast

/-- There is a tile for every cell. -/
theorem cells_le : 4 * ((serverMap behind cs).mapWidth.toNat * (serverMap behind cs).mapHeight.toNat)
    ≤ mtxm.length := by
  obtain ⟨hwidth, hheight⟩ := h.size_serverMap behind
  rw [hwidth, hheight, ← Int.toNat_mul h.width h.height]
  have := h.mtxm_length
  omega

theorem buildTileMap_eq (asset : TileDataScriptable) : buildTileMap asset (clientMap hash cs)
    = walk (hasTile asset) (tileReads (serverMap behind cs)) := by
  obtain ⟨hwidth, hheight⟩ := h.size_serverMap behind
  have hcells := h.cells_le behind
  have hlong := h.size_length
  unfold tileReads
  generalize (serverMap behind cs).mapWidth = width at hwidth hcells
  generalize (serverMap behind cs).mapHeight = height at hheight hcells
  have hloop := tileLoop_eq (tileDictionary asset.tiles) mtxm (rows width.toNat height.toNat) 0
    (by rw [length_rows, Nat.zero_add]; exact hcells)
  have h0 : GlobalUtils.toInt32 size 0 = some width := by
    rw [hwidth]
    exact GlobalUtils.toInt32_eq rfl (by omega)
  have h4 : GlobalUtils.toInt32 size 4 = some height := by
    rw [hheight]
    exact GlobalUtils.toInt32_eq rfl (by omega)
  have h8 : GlobalUtils.toUInt16 size 8 = some _ :=
    GlobalUtils.toUInt16_eq (i := 8) rfl (by omega)
  unfold buildTileMap
  rw [h.getElem?_clientMap h.mtxm_mem, h.getElem?_clientMap h.size_mem]
  dsimp only
  rw [h0, h4, h8]
  refine hloop.trans (congrArg _ ?_)
  rw [zipIdx_rows, List.map_map]
  refine List.map_congr_left fun c hc => ?_
  have hindex : c.1 + width.toNat * c.2 < mtxm.length / 4 := by
    obtain ⟨hi, hj⟩ := mem_rows.mp hc
    have := index_lt hi hj
    omega
  rw [h.tiles_serverMap behind, List.getD_eq_getElem?_getD, List.getElem?_map, List.getElem?_range hindex]
  rfl

theorem buildResource_eq (asset : TileDataScriptable) : buildResource asset (clientMap hash cs)
    = walk (hasResource asset) (serverMap behind cs).resources := by
  have hfuel : reso.length / 6 - 0 < reso.length + 1 := by omega
  have hloop := resourceLoop_eq asset h.reso_length hfuel
  unfold buildResource
  rw [h.getElem?_clientMap h.reso_mem, h.resources_serverMap behind]
  refine hloop.trans (congrArg _ ?_)
  rw [Nat.sub_zero, ← List.range_eq_range']
  rfl

/-- The drawing comes first: resources are placed if it has got through all the cells. -/
theorem init_eq (asset : TileDataScriptable) {file : List UInt8}
    (hfile : GlobalUtils.extractionMapSection file = some (clientMap hash cs)) :
    init asset (some file)
      = { tiles := reached (hasTile asset) (tileReads (serverMap behind cs)),
          resources := if (tileReads (serverMap behind cs)).all (hasTile asset)
            then reached (hasResource asset) (serverMap behind cs).resources else [],
          complete := (tileReads (serverMap behind cs)).all (hasTile asset)
            && (serverMap behind cs).resources.all (hasResource asset) } := by
  have hdata : mapDataInit (some file) = some (some (clientMap hash cs)) := by
    unfold mapDataInit
    dsimp only
    rw [hfile, Option.map_some]
  unfold init
  rw [hdata]
  dsimp only
  rw [h.buildTileMap_eq behind, h.buildResource_eq behind]
  unfold walk
  dsimp only
  split <;> rename_i hdrawn
  · rw [hdrawn, Bool.true_and]
  · rw [Bool.eq_false_iff.mpr hdrawn, Bool.false_and]

end WellFormed

/-! ## Main results -/

/--
Client and server agree on a well-formed file. The client goes through the cells row
by row until its tile data lacks a tile, and then, if it has lacked none, through the
resources in order until it lacks one of these.
-/
theorem same_map (behind : List UInt8 → List UInt8) (asset : TileDataScriptable)
    {hash size mtxm reso : List UInt8} {cs : List Chunk} (h : WellFormed hash cs size mtxm reso)
    {file : List UInt8} (hfile : file = (Chunk.mk MapSection.hash hash :: cs).flatMap Chunk.encode)
    (hlen : file.length < 2147483648) :
    ∃ map dictionary, (setHashToMap behind file).value = .accepted hash map
      ∧ GlobalUtils.extractionMapHash (some file) = some (true, hash)
      ∧ GlobalUtils.extractionMapSection file = some dictionary
      ∧ (∀ code : MapSection, code ≠ MapSection.hash → dictionary[code]? = map.sections[code]?)
      ∧ map.mapWidth.toNat * map.mapHeight.toNat ≤ map.tiles.length
      ∧ (init asset (some file)).tiles = reached (hasTile asset) (tileReads map)
      ∧ (init asset (some file)).resources
        = (if (tileReads map).all (hasTile asset) then reached (hasResource asset) map.resources else [])
      ∧ (init asset (some file)).complete
        = ((tileReads map).all (hasTile asset) && map.resources.all (hasResource asset)) := by
  have hcount := Chunk.length_le_flatMap (Chunk.mk MapSection.hash hash :: cs)
  rw [← hfile] at hcount
  have hsections : GlobalUtils.extractionMapSection file = some (WellFormed.clientMap hash cs) :=
    GlobalUtils.sectionLoop_chunks h.valid [] hfile hlen (Nat.lt_succ_of_le hcount) ∅
  have hinit := h.init_eq behind asset hsections
  refine ⟨WellFormed.serverMap behind cs, WellFormed.clientMap hash cs,
    setHashToMap_chunks behind h.valid hfile hlen, ?_, hsections, fun _ => h.getElem?_sections behind, ?_,
    congrArg BuiltScene.tiles hinit, congrArg BuiltScene.resources hinit, congrArg BuiltScene.complete hinit⟩
  · exact GlobalUtils.extractionMapHash_eq (h.valid _ List.mem_cons_self)
      (hfile.trans List.flatMap_cons)
  · have hcells := h.cells_le behind
    rw [h.tiles_serverMap behind, List.length_map, List.length_range]
    omega

/-- The asset of the client, with its sprites numbered. -/
def tileData : TileDataScriptable where
  tiles := [⟨some 0, 101⟩, ⟨some 1, 201⟩, ⟨some 2, 301⟩, ⟨some 3, 302⟩, ⟨some 4, 303⟩, ⟨some 5, 304⟩,
    ⟨some 6, 401⟩, ⟨some 7, 501⟩, ⟨some 8, 601⟩]
  resources := [⟨some 9, 0⟩, ⟨some 10, 1⟩, ⟨some 11, 10⟩]

/-- A resource at the origin. -/
def resourceOf (type : Nat) : List UInt8 := Bytes.le16 type ++ Bytes.le16 0 ++ Bytes.le16 0

/-- Resources of these types, all in one place. -/
def resourcesOf (types : List Nat) : List UInt8 := types.flatMap resourceOf

theorem length_resourcesOf (types : List Nat) : (resourcesOf types).length = 6 * types.length := by
  have hresource : ∀ type, (resourceOf type).length = 6 := fun _ => rfl
  exact Bytes.length_flatMap hresource types

/-- One cell with this tile, and resources of these types. -/
def oneCell (tileId : Nat) (types : List Nat) : List Chunk :=
  [⟨MapSection.reso, resourcesOf types⟩, ⟨MapSection.size, Bytes.le32 1 ++ Bytes.le32 1 ++ Bytes.le32 2⟩,
    ⟨MapSection.mtxm, Bytes.le16 tileId ++ Bytes.le16 1⟩]

def oneCellFile (tileId : Nat) (types : List Nat) : List UInt8 :=
  (Chunk.mk MapSection.hash [7] :: oneCell tileId types).flatMap Chunk.encode

theorem wellFormed_oneCell (tileId : Nat) {types : List Nat} (htypes : types.length ≤ 2) :
    WellFormed [7] (oneCell tileId types) (Bytes.le32 1 ++ Bytes.le32 1 ++ Bytes.le32 2)
      (Bytes.le16 tileId ++ Bytes.le16 1) (resourcesOf types) where
  valid := by
    have hlength := length_resourcesOf types
    refine List.forall_mem_cons.mpr ⟨⟨by decide, by decide⟩, List.forall_mem_cons.mpr ⟨⟨?_, ?_⟩,
      List.forall_mem_cons.mpr ⟨⟨by decide, by decide⟩, List.forall_mem_cons.mpr ⟨⟨?_, ?_⟩,
        fun _ h => absurd h List.not_mem_nil⟩⟩⟩⟩
    · exact Nat.le_of_ble_eq_true rfl
    · change (resourcesOf types).length < _
      omega
    · exact Nat.le_of_ble_eq_true rfl
    · have hfour : (Bytes.le16 tileId ++ Bytes.le16 1).length = 4 := rfl
      dsimp only
      omega
  codes := by
    change [MapSection.hash, MapSection.reso, MapSection.size, MapSection.mtxm].Nodup
    decide
  size_mem := by simp [oneCell]
  size_length := by decide
  width := by decide
  height := by decide
  mtxm_mem := by simp [oneCell]
  mtxm_length := by
    change _ ≤ ((4 : Nat) : Int)
    decide
  reso_mem := by simp [oneCell]
  reso_length := by
    rw [length_resourcesOf]
    exact Nat.mul_mod_right 6 _

/-- The server's map of the cell. -/
theorem accepted_oneCell (tileId : Nat) {types : List Nat} (htypes : types.length ≤ 2)
    (hlen : (oneCellFile tileId types).length < 2147483648) :
    (setHashToMap (fun _ => []) (oneCellFile tileId types)).value
      = .accepted [7] (WellFormed.serverMap (fun _ => []) (oneCell tileId types)) :=
  setHashToMap_chunks (fun _ => []) (wellFormed_oneCell tileId htypes).valid rfl hlen

/-- A gas and a mineral on ground: the client has all of it, and builds what the server knows. -/
theorem same_map_oneCell : ∃ map, (setHashToMap (fun _ => []) (oneCellFile 101 [1, 0])).value = .accepted [7] map
    ∧ map.resources = [⟨1, 0, 0⟩, ⟨0, 0, 0⟩]
    ∧ (init tileData (some (oneCellFile 101 [1, 0]))).tiles = [⟨0, 0, 101⟩]
    ∧ (init tileData (some (oneCellFile 101 [1, 0]))).resources = map.resources
    ∧ (init tileData (some (oneCellFile 101 [1, 0]))).complete = true := by
  have hlen : (oneCellFile 101 [1, 0]).length < 2147483648 := by decide +kernel
  obtain ⟨map, dictionary, hmap, _, _, _, _, htiles, hresources, hcomplete⟩ :=
    same_map (fun _ => []) tileData (wellFormed_oneCell 101 (by decide)) rfl hlen
  obtain rfl := (MapLoad.accepted.inj ((accepted_oneCell 101 (by decide) hlen).symm.trans hmap)).2
  have hreads : tileReads (WellFormed.serverMap (fun _ => []) (oneCell 101 [1, 0])) = [⟨0, 0, 101⟩] := by
    decide +kernel
  have hentries : (WellFormed.serverMap (fun _ => []) (oneCell 101 [1, 0])).resources
      = [⟨1, 0, 0⟩, ⟨0, 0, 0⟩] := by decide +kernel
  rw [hreads] at htiles hresources hcomplete
  rw [hentries] at hresources hcomplete
  exact ⟨_, hmap, hentries, htiles.trans (by decide), hresources.trans ((by decide : _ = _).trans hentries.symm),
    hcomplete.trans (by decide)⟩

/--
The client places none of a map's resources after a tile it does not have, and of two
resources none after one it does not have.
-/
theorem not_same_map : ∃ map map',
    WellFormed [7] (oneCell 102 [0]) (Bytes.le32 1 ++ Bytes.le32 1 ++ Bytes.le32 2)
        (Bytes.le16 102 ++ Bytes.le16 1) (resourcesOf [0])
      ∧ (setHashToMap (fun _ => []) (oneCellFile 102 [0])).value = .accepted [7] map
      ∧ (init tileData (some (oneCellFile 102 [0]))).resources ≠ map.resources
      ∧ WellFormed [7] (oneCell 101 [3, 0]) (Bytes.le32 1 ++ Bytes.le32 1 ++ Bytes.le32 2)
        (Bytes.le16 101 ++ Bytes.le16 1) (resourcesOf [3, 0])
      ∧ (setHashToMap (fun _ => []) (oneCellFile 101 [3, 0])).value = .accepted [7] map'
      ∧ (init tileData (some (oneCellFile 101 [3, 0]))).resources ≠ map'.resources := by
  have hlen : (oneCellFile 102 [0]).length < 2147483648 := by decide +kernel
  have hlen' : (oneCellFile 101 [3, 0]).length < 2147483648 := by decide +kernel
  refine ⟨_, _, wellFormed_oneCell 102 (by decide), accepted_oneCell 102 (by decide) hlen, ?_,
    wellFormed_oneCell 101 (by decide), accepted_oneCell 101 (by decide) hlen', ?_⟩
  · decide +kernel
  · decide +kernel

end StarCraftIocp.MapManager
