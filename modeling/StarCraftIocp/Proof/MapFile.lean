import StarCraftIocp.GameServer.MapMaker
import StarCraftIocp.Lib.Chunks
import StarCraftIocp.Lib.Table

/-!
# What the map loader makes of a file

A map file is a file of chunks. The loader reads a well-formed one section by
section, whatever lies behind it in memory: one lemma for a section, and one for
a list of them.
-/

namespace StarCraftIocp.MapMaker

variable (behind : List UInt8 → List UInt8)

/-! ## Copies -/

theorem copy16_eq {data : List UInt8} {index : Int} {i : Nat} (hi : index = i)
    (h : i + 2 ≤ data.length) :
    copy16 behind data index = ⟨Bytes.readLe16 data i, [⟨index, data.length, 2, 2⟩]⟩ := by
  subst hi
  unfold copy16
  rw [Int.toNat_natCast, Bytes.readLe16_append h]

theorem copy32_eq {data : List UInt8} {index : Int} {i : Nat} (hi : index = i)
    (h : i + 4 ≤ data.length) :
    copy32 behind data index = ⟨CInt.int32 (Bytes.readLe32 data i), [⟨index, data.length, 4, 4⟩]⟩ := by
  subst hi
  unfold copy32
  rw [Int.toNat_natCast, Bytes.readLe32_append h]

theorem copyBytes_eq {data : List UInt8} {index : Int} {i size : Nat} (hi : index = i)
    (h : i + size ≤ data.length) :
    copyBytes behind data index size
      = ⟨Bytes.slice data i size, [⟨index, data.length, size, size⟩]⟩ := by
  subst hi
  unfold copyBytes
  congr 1
  refine List.ext_getElem ?_ ?_
  · rw [List.length_map, List.length_range, Bytes.length_slice h]
  · intro k hk hk'
    rw [Bytes.length_slice h] at hk'
    rw [List.getElem_map, List.getElem_range, Int.toNat_natCast, List.getD_eq_getElem?_getD,
      List.getElem?_append_left (by omega), List.getElem?_eq_getElem (by omega), Option.getD_some]
    simp only [Bytes.slice, List.getElem_take, List.getElem_drop]

theorem value_copy16 {data : List UInt8} {index : Int} {i : Nat} (hi : index = i)
    (h : i + 2 ≤ data.length) : (copy16 behind data index).value = Bytes.readLe16 data i :=
  congrArg Traced.value (copy16_eq behind hi h)

theorem value_copy32 {data : List UInt8} {index : Int} {i : Nat} (hi : index = i)
    (h : i + 4 ≤ data.length) :
    (copy32 behind data index).value = CInt.int32 (Bytes.readLe32 data i) := by
  rw [copy32_eq behind hi h]

/-! ## Loops over records -/

/-- The record of `RESO` that begins at an offset. -/
def entryAt (data : List UInt8) (i : Nat) : ResourceEntry where
  type := Bytes.readLe16 data i
  x := CInt.int16 (Bytes.readLe16 data (i + 2))
  y := CInt.int16 (Bytes.readLe16 data (i + 4))

/-- The record of `SPOS` that begins at an offset. -/
def startPosAt (data : List UInt8) (playerIndex i : Nat) : PlayerStartPos where
  playerIndex := playerIndex
  x := CInt.int16 (Bytes.readLe16 data i)
  y := CInt.int16 (Bytes.readLe16 data (i + 2))

/-- The loop reads a record for every six bytes. -/
theorem value_resourceLoop (data : List UInt8) (fuel k : Nat) (hfuel : data.length / 6 - k ≤ fuel) :
    (resourceLoop behind data fuel (6 * k)).value
      = (List.range' k (data.length / 6 - k)).map fun i => entryAt data (6 * i) := by
  induction fuel generalizing k with
  | zero =>
      rw [Nat.le_zero.mp hfuel]
      rfl
  | succ fuel ih =>
      unfold resourceLoop
      by_cases hmore : 6 * k + 6 ≤ data.length
      · rw [if_pos (by omega), if_neg (by omega)]
        obtain ⟨n, hn⟩ : ∃ n, data.length / 6 - k = n + 1 := ⟨data.length / 6 - k - 1, by omega⟩
        have hrest := ih (k + 1) (by omega)
        rw [show data.length / 6 - (k + 1) = n by omega] at hrest
        rw [hn, List.range'_succ, List.map_cons, ← hrest]
        simp only [Traced.value_bind, Traced.value_pure, entryAt]
        rw [value_copy16 behind rfl (by omega), value_copy16 behind (i := 6 * k + 2) (by omega) (by omega),
          value_copy16 behind (i := 6 * k + 4) (by omega) (by omega)]
        rfl
      · have hzero : data.length / 6 - k = 0 := by omega
        rw [hzero]
        split
        · rw [if_pos (by omega)]
          rfl
        · rfl

/-- The loop reads a record for every four bytes; its counter is a `uint16`. -/
theorem value_startPosLoop (data : List UInt8) (fuel k : Nat) (hfuel : data.length / 4 - k ≤ fuel) :
    (startPosLoop behind data fuel (4 * k) (k % 65536)).value
      = (List.range' k (data.length / 4 - k)).map fun i => startPosAt data (i % 65536) (4 * i) := by
  induction fuel generalizing k with
  | zero =>
      rw [Nat.le_zero.mp hfuel]
      rfl
  | succ fuel ih =>
      unfold startPosLoop
      by_cases hmore : 4 * k + 4 ≤ data.length
      · rw [if_pos (by omega), if_neg (by omega)]
        obtain ⟨n, hn⟩ : ∃ n, data.length / 4 - k = n + 1 := ⟨data.length / 4 - k - 1, by omega⟩
        have hrest := ih (k + 1) (by omega)
        rw [show data.length / 4 - (k + 1) = n by omega] at hrest
        rw [hn, List.range'_succ, List.map_cons, ← hrest]
        simp only [Traced.value_bind, Traced.value_pure, startPosAt, Nat.mod_add_mod]
        rw [value_copy16 behind rfl (by omega), value_copy16 behind (i := 4 * k + 2) (by omega) (by omega)]
        rfl
      · have hzero : data.length / 4 - k = 0 := by omega
        rw [hzero]
        split
        · rw [if_pos (by omega)]
          rfl
        · rfl

/-! ## Memory safety -/

theorem safe_of_fits {index : Int} {i source size : Nat} (hi : index = i) (h : i + size ≤ source) :
    Memcpy.Safe ⟨index, source, size, size⟩ := by
  subst hi
  exact ⟨Int.natCast_nonneg i, Int.ofNat_le.mpr h, le_refl size⟩

theorem safe_copy16 {data : List UInt8} {index : Int} {i : Nat} (hi : index = i)
    (h : i + 2 ≤ data.length) : ∀ m ∈ (copy16 behind data index).trace, m.Safe := by
  intro m hm
  obtain rfl := List.mem_singleton.mp hm
  exact safe_of_fits hi h

theorem safe_copy32 {data : List UInt8} {index : Int} {i : Nat} (hi : index = i)
    (h : i + 4 ≤ data.length) : ∀ m ∈ (copy32 behind data index).trace, m.Safe := by
  intro m hm
  obtain rfl := List.mem_singleton.mp hm
  exact safe_of_fits hi h

theorem safe_resourceLoop (data : List UInt8) (fuel index : Nat) :
    ∀ m ∈ (resourceLoop behind data fuel index).trace, m.Safe := by
  induction fuel generalizing index with
  | zero => exact fun m hm => absurd hm List.not_mem_nil
  | succ fuel ih =>
      unfold resourceLoop
      split
      · split
        · exact fun m hm => absurd hm List.not_mem_nil
        · next hfit =>
          have h0 : ∀ m ∈ (copy16 behind data index).trace, m.Safe := safe_copy16 behind rfl (by omega)
          have h2 : ∀ m ∈ (copy16 behind data (index + 2)).trace, m.Safe :=
            safe_copy16 behind (i := index + 2) (by omega) (by omega)
          have h4 : ∀ m ∈ (copy16 behind data (index + 4)).trace, m.Safe :=
            safe_copy16 behind (i := index + 4) (by omega) (by omega)
          simp only [Traced.trace_bind, Traced.trace_pure, List.append_nil, List.mem_append]
          rintro m (hm | hm | hm | hm)
          · exact h0 m hm
          · exact h2 m hm
          · exact h4 m hm
          · exact ih (index + 6) m hm
      · exact fun m hm => absurd hm List.not_mem_nil

theorem safe_startPosLoop (data : List UInt8) (fuel index playerCount : Nat) :
    ∀ m ∈ (startPosLoop behind data fuel index playerCount).trace, m.Safe := by
  induction fuel generalizing index playerCount with
  | zero => exact fun m hm => absurd hm List.not_mem_nil
  | succ fuel ih =>
      unfold startPosLoop
      split
      · split
        · exact fun m hm => absurd hm List.not_mem_nil
        · next hfit =>
          have h0 : ∀ m ∈ (copy16 behind data index).trace, m.Safe := safe_copy16 behind rfl (by omega)
          have h2 : ∀ m ∈ (copy16 behind data (index + 2)).trace, m.Safe :=
            safe_copy16 behind (i := index + 2) (by omega) (by omega)
          simp only [Traced.trace_bind, Traced.trace_pure, List.append_nil, List.mem_append]
          rintro m (hm | hm | hm)
          · exact h0 m hm
          · exact h2 m hm
          · exact ih (index + 4) _ m hm
      · exact fun m hm => absurd hm List.not_mem_nil

/-- `scale` is copied with the length of an `int32`. -/
def scaleCopy (source : Nat) : Memcpy := ⟨8, source, 4, 2⟩

/-- In a section that is not too short nothing but `scale` goes wrong. -/
theorem safe_parsingMapData {sectionCode : MapSection} {data : List UInt8}
    (hownr : sectionCode = MapSection.ownr → 2 ≤ data.length)
    (hsize : sectionCode = MapSection.size → 8 ≤ data.length) (out : LoadedMap) :
    ∀ m ∈ (parsingMapData behind sectionCode data out).trace,
      m.Safe ∨ sectionCode = MapSection.size ∧ m = scaleCopy data.length := by
  unfold parsingMapData
  split
  · next hcode =>
    intro m hm
    rw [Traced.trace_bind, Traced.trace_pure, List.append_nil] at hm
    exact .inl (safe_copy16 behind (i := 0) rfl (hownr hcode) m hm)
  split
  · next hcode =>
    have h0 : ∀ m ∈ (copy32 behind data 0).trace, m.Safe :=
      safe_copy32 behind (i := 0) rfl (by have := hsize hcode; omega)
    have h4 : ∀ m ∈ (copy32 behind data 4).trace, m.Safe :=
      safe_copy32 behind (i := 4) rfl (hsize hcode)
    simp only [Traced.trace_bind, Traced.trace_pure, List.append_nil, List.mem_append,
      List.mem_singleton]
    rintro m (hm | hm | hm)
    · exact .inl (h0 m hm)
    · exact .inl (h4 m hm)
    · exact .inr ⟨hcode, hm⟩
  split
  · intro m hm
    rw [Traced.trace_bind, Traced.trace_pure, List.append_nil, Traced.trace_mapM] at hm
    obtain ⟨i, hi, hm⟩ := List.mem_flatMap.mp hm
    rw [List.mem_range] at hi
    rw [Traced.trace_bind, Traced.trace_bind, Traced.trace_pure, List.append_nil] at hm
    refine .inl ((List.mem_append.mp hm).elim ?_ ?_)
    · exact safe_copy16 behind rfl (by omega) m
    · exact safe_copy16 behind rfl (by omega) m
  split
  · intro m hm
    rw [Traced.trace_bind, Traced.trace_pure, List.append_nil] at hm
    exact .inl (safe_resourceLoop behind data _ _ m hm)
  split
  · intro m hm
    rw [Traced.trace_bind, Traced.trace_pure, List.append_nil] at hm
    exact .inl (safe_startPosLoop behind data _ _ _ m hm)
  · exact fun m hm => absurd hm List.not_mem_nil

/-- `scale` is copied that way from every section with a size. -/
theorem scaleCopy_mem (data : List UInt8) (out : LoadedMap) :
    scaleCopy data.length ∈ (parsingMapData behind MapSection.size data out).trace := by
  unfold parsingMapData
  rw [if_neg (by decide), if_pos rfl]
  simp only [Traced.trace_bind, List.mem_append, List.mem_singleton]
  exact .inr (.inr (.inl rfl))

theorem not_safe_scaleCopy (source : Nat) : ¬ (scaleCopy source).Safe := by
  rintro ⟨_, _, hdest⟩
  change 4 ≤ 2 at hdest
  omega

/-! ## Sections -/

/-- One section, read. -/
def parse (map : LoadedMap) (c : Chunk) : LoadedMap :=
  let map := (parsingMapData behind c.code c.body map).value
  { map with sections := map.sections.insert c.code c.body }

/-- The records of `RESO`. -/
def entriesOf (data : List UInt8) : List ResourceEntry :=
  (List.range (data.length / 6)).map fun i => entryAt data (6 * i)

/-- The records of `SPOS`. -/
def startPossOf (data : List UInt8) : List PlayerStartPos :=
  (List.range (data.length / 4)).map fun i => startPosAt data (i % 65536) (4 * i)

theorem parse_ownr (map : LoadedMap) {data : List UInt8} (h : 2 ≤ data.length) :
    parse behind map ⟨MapSection.ownr, data⟩ = { map with
      playerCount := Bytes.readLe16 data 0
      sections := map.sections.insert MapSection.ownr data } := by
  have hvalue : (copy16 behind data 0).value = _ := value_copy16 behind rfl h
  unfold parse parsingMapData
  dsimp only
  rw [if_pos rfl]
  simp only [Traced.value_bind, Traced.value_pure, hvalue]

theorem parse_size (map : LoadedMap) {data : List UInt8} (h : 10 ≤ data.length) :
    parse behind map ⟨MapSection.size, data⟩ = { map with
      mapWidth := CInt.int32 (Bytes.readLe32 data 0)
      mapHeight := CInt.int32 (Bytes.readLe32 data 4)
      scale := Bytes.readLe16 data 8
      sections := map.sections.insert MapSection.size data } := by
  have hwidth : (copy32 behind data 0).value = _ := value_copy32 behind (i := 0) rfl (by omega)
  have hheight : (copy32 behind data 4).value = _ := value_copy32 behind (i := 4) rfl (by omega)
  have hscale : Bytes.readLe16 (data ++ behind data) 8 = _ := Bytes.readLe16_append h
  unfold parse parsingMapData
  dsimp only
  rw [if_neg (by decide), if_pos rfl]
  simp only [Traced.value_bind, Traced.value_pure, hwidth, hheight, hscale]

theorem parse_mtxm (map : LoadedMap) (data : List UInt8) :
    parse behind map ⟨MapSection.mtxm, data⟩ = { map with
      tiles := (List.range (data.length / 4)).map fun i => Bytes.readLe16 data (4 * i)
      height := (List.range (data.length / 4)).map fun i => Bytes.readLe16 data (4 * i + 2)
      sections := map.sections.insert MapSection.mtxm data } := by
  have hcount : data.length / 2 / 2 = data.length / 4 := by omega
  have hcells : ∀ i ∈ List.range (data.length / 4),
      ((copy16 behind data (4 * i : Nat)).value, (copy16 behind data (4 * i + 2 : Nat)).value)
        = (Bytes.readLe16 data (4 * i), Bytes.readLe16 data (4 * i + 2)) := by
    intro i hi
    rw [List.mem_range] at hi
    rw [value_copy16 behind rfl (by omega), value_copy16 behind rfl (by omega)]
  unfold parse parsingMapData
  dsimp only
  rw [if_neg (by decide), if_neg (by decide), if_pos rfl]
  simp only [Traced.value_bind, Traced.value_pure, Traced.value_mapM, hcount]
  rw [List.map_congr_left hcells, List.map_map, List.map_map]
  rfl

theorem parse_reso (map : LoadedMap) (data : List UInt8) :
    parse behind map ⟨MapSection.reso, data⟩ = { map with
      resources := map.resources ++ entriesOf data
      sections := map.sections.insert MapSection.reso data } := by
  have hentries := value_resourceLoop behind data data.length 0 (by omega)
  rw [Nat.sub_zero, ← List.range_eq_range', Nat.mul_zero] at hentries
  unfold parse parsingMapData
  dsimp only
  rw [if_neg (by decide), if_neg (by decide), if_neg (by decide), if_pos rfl]
  simp only [Traced.value_bind, Traced.value_pure, hentries, entriesOf]

theorem parse_spos (map : LoadedMap) (data : List UInt8) :
    parse behind map ⟨MapSection.spos, data⟩ = { map with
      playerPos := map.playerPos ++ startPossOf data
      sections := map.sections.insert MapSection.spos data } := by
  have hentries := value_startPosLoop behind data data.length 0 (by omega)
  rw [Nat.sub_zero, ← List.range_eq_range', Nat.mul_zero, Nat.zero_mod] at hentries
  unfold parse parsingMapData
  dsimp only
  rw [if_neg (by decide), if_neg (by decide), if_neg (by decide), if_neg (by decide), if_pos rfl]
  simp only [Traced.value_bind, Traced.value_pure, hentries, startPossOf]

theorem sections_parse (map : LoadedMap) (c : Chunk) :
    (parse behind map c).sections = map.sections.insert c.code c.body := by
  unfold parse parsingMapData
  dsimp only
  split_ifs <;> simp only [Traced.value_bind, Traced.value_pure]

/-- Only a section with the size says something about it. -/
theorem size_parse (map : LoadedMap) (c : Chunk) (h : c.code ≠ MapSection.size) :
    ((parse behind map c).mapWidth, (parse behind map c).mapHeight) = (map.mapWidth, map.mapHeight) := by
  unfold parse parsingMapData
  dsimp only
  split_ifs <;> simp only [Traced.value_bind, Traced.value_pure]

/-- Only a section with the ground says something about it. -/
theorem tiles_parse (map : LoadedMap) (c : Chunk) (h : c.code ≠ MapSection.mtxm) :
    (parse behind map c).tiles = map.tiles := by
  unfold parse parsingMapData
  dsimp only
  split_ifs <;> simp only [Traced.value_bind, Traced.value_pure]

/-- Only a section with resources says something about them. -/
theorem resources_parse (map : LoadedMap) (c : Chunk) (h : c.code ≠ MapSection.reso) :
    (parse behind map c).resources = map.resources := by
  unfold parse parsingMapData
  dsimp only
  split_ifs <;> simp only [Traced.value_bind, Traced.value_pure]

/-! ## Sections of a file -/

section

variable (data : List UInt8)

/-- The code of the section that begins at an offset. -/
def codeAt (i : Nat) : MapSection := Bytes.readLe16 data i

/-- Its length. -/
def sizeAt (i : Nat) : Int := CInt.int32 (Bytes.readLe32 data (i + 2))

/-- A section of `n` bytes begins at `i`, and is there in full. -/
structure SectionAt (i n : Nat) : Prop where
  size : sizeAt data i = n
  body : i + 6 + n ≤ data.length

end

variable {data : List UInt8}

theorem SectionAt.unique {i n m : Nat} (h : SectionAt data i n) (h' : SectionAt data i m) : n = m :=
  Int.ofNat_inj.mp (h.size.symm.trans h'.size)

theorem SectionAt.copy32_eq {i n : Nat} (h : SectionAt data i n) {index : Int} (hi : index = i + 2) :
    copy32 behind data index = ⟨n, [⟨index, data.length, 4, 4⟩]⟩ := by
  have hbody := h.body
  rw [MapMaker.copy32_eq behind (i := i + 2) hi (by omega), ← h.size]
  rfl

/-- A section that is there is read, and the loop goes on behind it. -/
theorem sectionLoop_section {i n : Nat} (h : SectionAt data i n) (hi : i + 6 < 2147483648) (fuel : Nat)
    (map : LoadedMap) {next : Traced Memcpy (Option LoadedMap)}
    (hnext : sectionLoop behind data fuel (CInt.int32 (i + 6 + n : Nat))
      (parse behind map ⟨codeAt data i, Bytes.slice data (i + 6) n⟩) = next) :
    sectionLoop behind data (fuel + 1) i map = ⟨next.value,
      [⟨i, data.length, 2, 2⟩] ++ ([⟨i + 2, data.length, 4, 4⟩] ++ ([⟨i + 6, data.length, n, n⟩]
        ++ ((parsingMapData behind (codeAt data i) (Bytes.slice data (i + 6) n) map).trace ++ next.trace)))⟩ := by
  have hbody := h.body
  have hmore : CInt.sizeT i < data.length := by
    rw [CInt.sizeT_of_range (by omega) (by omega)]
    omega
  have h2 : CInt.int32 ((i : Int) + 2) = i + 2 := CInt.int32_of_range (by omega) (by omega)
  have h6 : CInt.int32 ((i : Int) + 2 + 4) = i + 6 := by
    rw [CInt.int32_of_range (by omega) (by omega)]
    omega
  have hneg : ¬ (n : Int) < 0 := by omega
  unfold sectionLoop
  rw [if_pos hmore]
  refine Traced.bind_eq (copy16_eq behind rfl (by omega)) ?_
  rw [h2]
  refine Traced.bind_eq (h.copy32_eq behind rfl) ?_
  rw [h6, if_neg hneg, Int.toNat_natCast]
  exact Traced.bind_eq (copyBytes_eq behind (i := i + 6) (by omega) hbody) (Traced.bind_eq rfl hnext)

/-- What the result of the loop makes of the file. -/
def loadOf (hash : List UInt8) : Option LoadedMap → MapLoad
  | none => .refused
  | some mapData => .accepted hash mapData

/-- Behind the hash the loop takes over. -/
theorem setHashToMap_section {n : Nat} (hcode : codeAt data 0 = MapSection.hash) (h : SectionAt data 0 n)
    {next : Traced Memcpy (Option LoadedMap)}
    (hnext : sectionLoop behind data (data.length + 1) (CInt.int32 (6 + n : Nat)) LoadedMap.new = next) :
    setHashToMap behind data = ⟨loadOf (Bytes.slice data 6 n) next.value,
      [⟨0, data.length, 2, 2⟩] ++ ([⟨2, data.length, 4, 4⟩] ++ ([⟨6, data.length, n, n⟩] ++ (next.trace ++ [])))⟩ := by
  have hbody := h.body
  have hneg : ¬ (n : Int) < 0 := by omega
  unfold setHashToMap
  refine Traced.bind_eq (copy16_eq behind (i := 0) rfl (by omega)) ?_
  rw [if_neg (not_not_intro (show Bytes.readLe16 data 0 = MapSection.hash from hcode))]
  refine Traced.bind_eq (h.copy32_eq behind rfl) ?_
  rw [if_neg hneg, Int.toNat_natCast]
  refine Traced.bind_eq (copyBytes_eq behind (i := 6) rfl (by omega)) (Traced.bind_eq hnext ?_)
  cases next.value with
  | none => rfl
  | some mapData => rfl

/-! ## Files that are written section by section -/

section

variable {c : Chunk} (hc : c.Valid) {pre rest : List UInt8} (hdata : data = pre ++ (c.encode ++ rest))

include hc hdata

/-- A section is where it was written, with its code and its bytes. -/
theorem sectionAt_chunk : SectionAt data pre.length c.body.length ∧ codeAt data pre.length = c.code ∧
    Bytes.slice data (pre.length + 6) c.body.length = c.body := by
  have hfit := hc.length
  subst hdata
  refine ⟨⟨?_, ?_⟩, Chunk.readLe16_encode hc pre rest, Chunk.slice_encode pre rest⟩
  · unfold sizeAt
    rw [Chunk.readLe32_encode hc pre rest]
    exact CInt.int32_of_range (by omega) (by omega)
  · rw [List.length_append, List.length_append, c.length_encode]
    omega

/-- A section in the middle of a file is read, and the loop goes on behind it. -/
theorem sectionLoop_chunk (hlen : pre.length + c.encode.length < 2147483648) (fuel : Nat)
    (map : LoadedMap) {next : Traced Memcpy (Option LoadedMap)}
    (hnext : sectionLoop behind data fuel (pre ++ c.encode).length (parse behind map c) = next) :
    sectionLoop behind data (fuel + 1) pre.length map = ⟨next.value,
      [⟨pre.length, data.length, 2, 2⟩] ++ ([⟨pre.length + 2, data.length, 4, 4⟩]
        ++ ([⟨pre.length + 6, data.length, c.body.length, c.body.length⟩]
          ++ ((parsingMapData behind c.code c.body map).trace ++ next.trace)))⟩ := by
  rw [c.length_encode] at hlen
  obtain ⟨hsection, hcode, hbody⟩ := sectionAt_chunk hc hdata
  have hend : CInt.int32 (pre.length + 6 + c.body.length : Nat) = (pre ++ c.encode).length := by
    rw [CInt.int32_of_range (by omega) (by omega), List.length_append, c.length_encode]
    omega
  rw [sectionLoop_section behind hsection (by omega) fuel map rfl, hcode, hbody, hend, hnext]

end

/-- The loop ends behind the file. -/
theorem sectionLoop_done (hlen : data.length < 2147483648) (fuel : Nat) (map : LoadedMap) :
    sectionLoop behind data (fuel + 1) data.length map = ⟨some map, []⟩ := by
  have hend : ¬ CInt.sizeT data.length < data.length := by
    rw [CInt.sizeT_of_range (by omega) (by omega)]
    omega
  unfold sectionLoop
  rw [if_neg hend]
  rfl

/-- The loop reads a file of sections to its end, as long as offsets in it are `int`s. -/
theorem sectionLoop_chunks {cs : List Chunk} (hcs : ∀ c ∈ cs, c.Valid) (pre : List UInt8)
    (hdata : data = pre ++ cs.flatMap Chunk.encode) (hlen : data.length < 2147483648)
    {fuel : Nat} (hfuel : cs.length < fuel) (map : LoadedMap) :
    (sectionLoop behind data fuel pre.length map).value = some (cs.foldl (parse behind) map) := by
  induction cs generalizing pre fuel map with
  | nil =>
      obtain ⟨fuel, rfl⟩ := Nat.exists_eq_add_of_lt hfuel
      rw [List.flatMap_nil, List.append_nil] at hdata
      subst hdata
      rw [sectionLoop_done behind hlen]
      rfl
  | cons c cs ih =>
      obtain ⟨fuel, rfl⟩ : ∃ n, fuel = n + 1 := ⟨fuel - 1, by omega⟩
      have hsplit : data = pre ++ (c.encode ++ cs.flatMap Chunk.encode) := by
        rw [hdata, List.flatMap_cons]
      have hshort : pre.length + c.encode.length < 2147483648 := by
        rw [hsplit, List.length_append, List.length_append] at hlen
        omega
      rw [sectionLoop_chunk behind (hcs c List.mem_cons_self) hsplit hshort fuel map rfl]
      exact ih (fun d hd => hcs d (List.mem_cons_of_mem c hd)) (pre ++ c.encode)
        (by rw [hsplit, List.append_assoc]) (Nat.lt_of_succ_lt_succ hfuel) (parse behind map c)

/-- Every `memcpy` of the loop is safe, or belongs to a section. -/
theorem trace_sectionLoop_chunks {cs : List Chunk} (hcs : ∀ c ∈ cs, c.Valid) (pre : List UInt8)
    (hdata : data = pre ++ cs.flatMap Chunk.encode) (hlen : data.length < 2147483648)
    (fuel : Nat) (map : LoadedMap) {m : Memcpy}
    (hm : m ∈ (sectionLoop behind data fuel pre.length map).trace) :
    m.Safe ∨ ∃ c ∈ cs, ∃ out, m ∈ (parsingMapData behind c.code c.body out).trace := by
  induction cs generalizing pre fuel map with
  | nil =>
      rw [List.flatMap_nil, List.append_nil] at hdata
      subst hdata
      cases fuel with
      | zero => cases hm
      | succ fuel =>
          rw [sectionLoop_done behind hlen] at hm
          cases hm
  | cons c cs ih =>
      cases fuel with
      | zero => cases hm
      | succ fuel =>
          have hsplit : data = pre ++ (c.encode ++ cs.flatMap Chunk.encode) := by
            rw [hdata, List.flatMap_cons]
          have hlength : data.length = pre.length + (6 + c.body.length)
              + (cs.flatMap Chunk.encode).length := by
            rw [hsplit, List.length_append, List.length_append, c.length_encode]
            omega
          have hshort : pre.length + c.encode.length < 2147483648 := by
            rw [c.length_encode]
            omega
          rw [sectionLoop_chunk behind (hcs c List.mem_cons_self) hsplit hshort fuel map rfl] at hm
          simp only [List.mem_append, List.mem_singleton] at hm
          rcases hm with rfl | rfl | rfl | hm | hm
          · exact .inl (safe_of_fits rfl (by omega))
          · exact .inl (safe_of_fits (i := pre.length + 2) (by omega) (by omega))
          · exact .inl (safe_of_fits (i := pre.length + 6) (by omega) (by omega))
          · exact .inr ⟨c, List.mem_cons_self, map, hm⟩
          · have hrest := ih (fun d hd => hcs d (List.mem_cons_of_mem c hd)) (pre ++ c.encode)
              (by rw [hsplit, List.append_assoc]) fuel (parse behind map c) hm
            rcases hrest with hsafe | ⟨d, hd, out, hout⟩
            · exact .inl hsafe
            · exact .inr ⟨d, List.mem_cons_of_mem c hd, out, hout⟩

/-- A file that begins with its hash. -/
theorem setHashToMap_hash {hash : List UInt8} (hc : (Chunk.mk MapSection.hash hash).Valid) {rest : List UInt8}
    (hdata : data = (Chunk.mk MapSection.hash hash).encode ++ rest) (hlen : 6 + hash.length < 2147483648)
    {next : Traced Memcpy (Option LoadedMap)}
    (hnext : sectionLoop behind data (data.length + 1) (Chunk.mk MapSection.hash hash).encode.length
      LoadedMap.new = next) :
    setHashToMap behind data = ⟨loadOf hash next.value, [⟨0, data.length, 2, 2⟩] ++ ([⟨2, data.length, 4, 4⟩]
      ++ ([⟨6, data.length, hash.length, hash.length⟩] ++ (next.trace ++ [])))⟩ := by
  have hbegin : data = [] ++ ((Chunk.mk MapSection.hash hash).encode ++ rest) := hdata
  obtain ⟨hsection, hcode, hbody⟩ := sectionAt_chunk hc hbegin
  have hbody : Bytes.slice data 6 hash.length = hash := hbody
  have hend : CInt.int32 (6 + hash.length : Nat) = (Chunk.mk MapSection.hash hash).encode.length := by
    rw [CInt.int32_of_range (by omega) (by omega), Chunk.length_encode]
  rw [setHashToMap_section behind hcode hsection rfl, hbody, hend, hnext]

/-- A file that begins with its hash and goes on with sections is accepted. -/
theorem setHashToMap_chunks {hash : List UInt8} {cs : List Chunk}
    (hcs : ∀ c ∈ Chunk.mk MapSection.hash hash :: cs, c.Valid) {data : List UInt8}
    (hdata : data = (Chunk.mk MapSection.hash hash :: cs).flatMap Chunk.encode)
    (hlen : data.length < 2147483648) :
    (setHashToMap behind data).value = .accepted hash (cs.foldl (parse behind) LoadedMap.new) := by
  obtain ⟨hc, hcs⟩ := List.forall_mem_cons.mp hcs
  rw [List.flatMap_cons] at hdata
  have hcount : cs.length < data.length + 1 := by
    rw [hdata, List.length_append]
    have := Chunk.length_le_flatMap cs
    omega
  have hloop := sectionLoop_chunks behind hcs _ hdata hlen hcount LoadedMap.new
  have hshort : 6 + hash.length < 2147483648 := by
    rw [hdata, List.length_append, Chunk.length_encode] at hlen
    exact lt_of_le_of_lt (Nat.le_add_right _ _) hlen
  rw [setHashToMap_hash behind hc hdata hshort rfl, hloop]
  rfl

/-- Nothing of such a file is copied to where it does not belong but by a section. -/
theorem trace_setHashToMap_chunks {hash : List UInt8} {cs : List Chunk}
    (hcs : ∀ c ∈ Chunk.mk MapSection.hash hash :: cs, c.Valid) {data : List UInt8}
    (hdata : data = (Chunk.mk MapSection.hash hash :: cs).flatMap Chunk.encode)
    (hlen : data.length < 2147483648) {m : Memcpy} (hm : m ∈ (setHashToMap behind data).trace) :
    m.Safe ∨ ∃ c ∈ cs, ∃ out, m ∈ (parsingMapData behind c.code c.body out).trace := by
  obtain ⟨hc, hcs⟩ := List.forall_mem_cons.mp hcs
  rw [List.flatMap_cons] at hdata
  have hlength : data.length = 6 + hash.length + (cs.flatMap Chunk.encode).length := by
    rw [hdata, List.length_append, Chunk.length_encode]
  rw [setHashToMap_hash behind hc hdata (by omega) rfl] at hm
  simp only [List.mem_append, List.mem_singleton, List.not_mem_nil, or_false] at hm
  rcases hm with rfl | rfl | rfl | hm
  · exact .inl (safe_of_fits (i := 0) rfl (by omega))
  · exact .inl (safe_of_fits (i := 2) rfl (by omega))
  · exact .inl (safe_of_fits (i := 6) rfl (by omega))
  · exact trace_sectionLoop_chunks behind hcs _ hdata hlen _ _ hm

end StarCraftIocp.MapMaker
