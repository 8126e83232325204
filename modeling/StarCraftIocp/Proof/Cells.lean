import StarCraftIocp.GameServer.Grid
import StarCraftIocp.Lib.Table

/-!
# The cells of a grid, one by one

What the operations of `GridManager` do to the entry of one object in one cell,
and which pairs `FindAllColliders` reports, in terms of those entries.
-/

namespace StarCraftIocp.GridManager

variable {F : Type}

/-- `grids[y][x]->objects`. -/
def cell (g : GridManager F) (c : Int × Int) : Grid := (g.grids.getD c.2.toNat []).getD c.1.toNat ∅

/-- The cell is on the grid. -/
def InRange (g : GridManager F) (c : Int × Int) : Prop :=
  0 ≤ c.1 ∧ c.1 < g.gridCols ∧ 0 ≤ c.2 ∧ c.2 < g.gridRows

instance (g : GridManager F) (c : Int × Int) : Decidable (g.InRange c) :=
  inferInstanceAs (Decidable (_ ∧ _ ∧ _ ∧ _))

/-- All cells of the grid. -/
def cells (g : GridManager F) : List (Int × Int) :=
  (intRange 0 (g.gridRows - 1)).flatMap fun y => (intRange 0 (g.gridCols - 1)).map fun x => (x, y)

/-- The grid has as many rows and columns as it says. -/
structure Full (g : GridManager F) : Prop where
  rows : (g.grids.length : Int) = g.gridRows
  cols : ∀ row ∈ g.grids, (row.length : Int) = g.gridCols

theorem mem_intRange {a b i : Int} : i ∈ intRange a b ↔ a ≤ i ∧ i ≤ b := by
  unfold intRange
  simp only [List.mem_map, List.bind_eq_flatMap, List.pure_def, List.mem_flatMap, List.mem_range,
    List.mem_singleton]
  constructor
  · rintro ⟨k, ⟨n, hn, rfl⟩, rfl⟩
    omega
  · intro h
    exact ⟨i - a, ⟨(i - a).toNat, by omega, by omega⟩, by omega⟩

theorem mem_cells {g : GridManager F} {c : Int × Int} : c ∈ g.cells ↔ g.InRange c := by
  unfold cells InRange
  obtain ⟨x, y⟩ := c
  simp only [List.mem_flatMap, List.mem_map, mem_intRange, Prod.mk.injEq]
  constructor
  · rintro ⟨y', hy, x', hx, rfl, rfl⟩
    omega
  · intro h
    exact ⟨y, by omega, x, by omega, rfl, rfl⟩

theorem full_modify {g : GridManager F} (h : g.Full) (c : Int × Int) (f : Grid → Grid) :
    (g.modify c f).Full where
  rows := (congrArg Nat.cast (List.length_modify ..)).trans h.rows
  cols := by
    intro row hrow
    obtain ⟨i, hi⟩ := List.mem_iff_getElem?.mp hrow
    have hmap : (g.modify c f).grids[i]?
        = (fun row => if c.2.toNat = i then row.modify c.1.toNat f else row) <$> g.grids[i]? :=
      List.getElem?_modify ..
    rw [hmap] at hi
    obtain ⟨old, hold, rfl⟩ := Option.map_eq_some_iff.mp hi
    have hcols := h.cols old (List.mem_of_getElem? hold)
    split
    · rw [List.length_modify]
      exact hcols
    · exact hcols

/-- The places of a cell in the two vectors. -/
theorem exists_cell {g : GridManager F} (h : g.Full) {c : Int × Int} (hc : g.InRange c) :
    ∃ row, g.grids[c.2.toNat]? = some row ∧ row[c.1.toNat]? = some (g.cell c) := by
  obtain ⟨h1, h2, h3, h4⟩ := hc
  have hrows := h.rows
  have hy : c.2.toNat < g.grids.length := by omega
  have hcols := h.cols _ (List.getElem_mem hy)
  have hx : c.1.toNat < g.grids[c.2.toNat].length := by omega
  refine ⟨_, List.getElem?_eq_getElem hy, ?_⟩
  unfold cell
  rw [List.getD_eq_getElem?_getD, List.getD_eq_getElem?_getD, List.getElem?_eq_getElem hy,
    Option.getD_some, List.getElem?_eq_getElem hx, Option.getD_some]

/-- A change to one cell leaves the others alone. -/
theorem cell_modify {g : GridManager F} (h : g.Full) {c d : Int × Int} (hc : g.InRange c)
    (hd : g.InRange d) (f : Grid → Grid) :
    (g.modify c f).cell d = if d = c then f (g.cell d) else g.cell d := by
  obtain ⟨row, hrow, hgrid⟩ := exists_cell h hd
  have hsame : d = c ↔ c.2.toNat = d.2.toNat ∧ c.1.toNat = d.1.toNat := by
    obtain ⟨h1, _, h2, _⟩ := hc
    obtain ⟨h3, _, h4, _⟩ := hd
    rw [Prod.ext_iff]
    omega
  change ((g.grids.modify c.2.toNat fun row => row.modify c.1.toNat f).getD d.2.toNat []).getD
    d.1.toNat ∅ = _
  rw [List.getD_eq_getElem?_getD, List.getD_eq_getElem?_getD, List.getElem?_modify, hrow,
    Option.map_eq_map, Option.map_some, Option.getD_some]
  by_cases hy : c.2.toNat = d.2.toNat
  · rw [if_pos hy, List.getElem?_modify, hgrid, Option.map_eq_map, Option.map_some, Option.getD_some]
    by_cases hx : c.1.toNat = d.1.toNat
    · rw [if_pos hx, if_pos (hsame.mpr ⟨hy, hx⟩)]
    · rw [if_neg hx, if_neg fun heq => hx (hsame.mp heq).2]
  · rw [if_neg hy, if_neg fun heq => hy (hsame.mp heq).1, hgrid, Option.getD_some]

/-- The same cells, as many and as large. -/
structure SameShape (g g' : GridManager F) : Prop where
  gridWidth : g'.gridWidth = g.gridWidth
  gridHeight : g'.gridHeight = g.gridHeight
  gridCols : g'.gridCols = g.gridCols
  gridRows : g'.gridRows = g.gridRows
  full : g.Full → g'.Full

theorem SameShape.trans {g g' g'' : GridManager F} (h : SameShape g g') (h' : SameShape g' g'') :
    SameShape g g'' where
  gridWidth := h'.gridWidth.trans h.gridWidth
  gridHeight := h'.gridHeight.trans h.gridHeight
  gridCols := h'.gridCols.trans h.gridCols
  gridRows := h'.gridRows.trans h.gridRows
  full hg := h'.full (h.full hg)

theorem SameShape.inRange {g g' : GridManager F} (h : SameShape g g') {c : Int × Int} :
    g'.InRange c ↔ g.InRange c := by
  unfold InRange
  rw [h.gridCols, h.gridRows]

/-- A change to every cell of a list gets to each of them, and to no other. -/
theorem foldl_modify {g : GridManager F} (h : g.Full) {cells : List (Int × Int)}
    (hcells : ∀ c ∈ cells, g.InRange c) {f : Grid → Grid} (hf : ∀ grid, f (f grid) = f grid) :
    SameShape g (cells.foldl (fun g c => g.modify c f) g) ∧ ∀ d, g.InRange d →
      (cells.foldl (fun g c => g.modify c f) g).cell d = if d ∈ cells then f (g.cell d) else g.cell d := by
  induction cells generalizing g with
  | nil => exact ⟨⟨rfl, rfl, rfl, rfl, id⟩, fun d _ => (if_neg (List.not_mem_nil)).symm⟩
  | cons c cells ih =>
      have hc := hcells c List.mem_cons_self
      have hshape : SameShape g (g.modify c f) := ⟨rfl, rfl, rfl, rfl, fun hg => full_modify hg c f⟩
      obtain ⟨hrest, hcell⟩ := ih (full_modify h c f) fun d hd => hcells d (List.mem_cons_of_mem c hd)
      refine ⟨hshape.trans hrest, ?_⟩
      intro d hd
      rw [List.foldl_cons, hcell d hd, cell_modify h hc hd]
      by_cases hdc : d = c
      · subst hdc
        rw [if_pos rfl, if_pos List.mem_cons_self, hf, ite_self]
      · rw [if_neg hdc]
        simp [hdc]

variable [Scalar F]

/-- A cell that the bounds overlap. -/
theorem mem_getOverlappingCells {g : GridManager F} {bounds : AABB F} {c : Int × Int} :
    c ∈ g.getOverlappingCells bounds ↔ g.InRange c
      ∧ Scalar.toInt (bounds.minX / g.gridWidth) ≤ c.1 ∧ c.1 ≤ Scalar.toInt (bounds.maxX / g.gridWidth)
      ∧ Scalar.toInt (bounds.minY / g.gridHeight) ≤ c.2
      ∧ c.2 ≤ Scalar.toInt (bounds.maxY / g.gridHeight) := by
  unfold getOverlappingCells InRange
  obtain ⟨x, y⟩ := c
  simp only [List.mem_flatMap, List.mem_map, mem_intRange, Prod.mk.injEq]
  constructor
  · rintro ⟨y', hy, x', hx, rfl, rfl⟩
    omega
  · intro h
    exact ⟨y, by omega, x, by omega, rfl, rfl⟩

theorem SameShape.getOverlappingCells {g g' : GridManager F} (h : SameShape g g') (bounds : AABB F) :
    g'.getOverlappingCells bounds = g.getOverlappingCells bounds := by
  unfold GridManager.getOverlappingCells
  rw [h.gridWidth, h.gridHeight, h.gridCols, h.gridRows]

/-! ## The operations -/

theorem full_new (worldWidth worldHeight : F) (cols rows : Nat) :
    (GridManager.new worldWidth worldHeight cols rows).Full where
  rows := congrArg Nat.cast List.length_replicate
  cols := by
    intro row hrow
    rw [(List.mem_replicate.mp hrow).2]
    exact congrArg Nat.cast List.length_replicate

/-- A new grid is empty. -/
theorem cell_new (worldWidth worldHeight : F) (cols rows : Nat) {c : Int × Int}
    (hc : (GridManager.new worldWidth worldHeight cols rows).InRange c) :
    (GridManager.new worldWidth worldHeight cols rows).cell c = ∅ := by
  obtain ⟨row, hrow, hgrid⟩ := exists_cell (full_new worldWidth worldHeight cols rows) hc
  obtain rfl := (List.mem_replicate.mp (List.mem_of_getElem? hrow)).2
  exact (List.mem_replicate.mp (List.mem_of_getElem? hgrid)).2

section

variable {g : GridManager F} (h : g.Full) (obj : ObjRef) (id : Int) (bounds : AABB F)

include h

theorem addObject_spec : SameShape g (g.addObject obj id bounds) ∧ ∀ c, g.InRange c → ∀ k : Int,
    ((g.addObject obj id bounds).cell c)[k]?
      = if c ∈ g.getOverlappingCells bounds ∧ k = id then some obj else (g.cell c)[k]? := by
  obtain ⟨hshape, hcell⟩ := foldl_modify h (f := fun grid => grid.insert id obj)
    (fun c (hc : c ∈ g.getOverlappingCells bounds) => (mem_getOverlappingCells.mp hc).1) (by
      intro grid
      refine Std.ExtTreeMap.ext_getElem? fun k => ?_
      rw [Table.getElem?_insert, Table.getElem?_insert, ite_eq_right_iff]
      intro hk
      rw [if_pos hk])
  refine ⟨hshape, fun c hc k => ?_⟩
  unfold addObject
  rw [hcell c hc]
  by_cases hmem : c ∈ g.getOverlappingCells bounds
  · rw [if_pos hmem, Table.getElem?_insert]
    simp [hmem]
  · rw [if_neg hmem, if_neg fun hand => hmem hand.1]

theorem removeObject_spec : SameShape g (g.removeObject id bounds) ∧ ∀ c, g.InRange c → ∀ k : Int,
    ((g.removeObject id bounds).cell c)[k]?
      = if c ∈ g.getOverlappingCells bounds ∧ k = id then none else (g.cell c)[k]? := by
  obtain ⟨hshape, hcell⟩ := foldl_modify h (f := fun grid => grid.erase id)
    (fun c (hc : c ∈ g.getOverlappingCells bounds) => (mem_getOverlappingCells.mp hc).1) (by
      intro grid
      refine Std.ExtTreeMap.ext_getElem? fun k => ?_
      rw [Table.getElem?_erase, Table.getElem?_erase, ite_eq_right_iff]
      intro hk
      rw [if_pos hk])
  refine ⟨hshape, fun c hc k => ?_⟩
  unfold removeObject
  rw [hcell c hc]
  by_cases hmem : c ∈ g.getOverlappingCells bounds
  · rw [if_pos hmem, Table.getElem?_erase]
    simp [hmem]
  · rw [if_neg hmem, if_neg fun hand => hmem hand.1]

/-- An object that moves leaves the cells of its old bounds and is in those of the new ones. -/
theorem moveObject_spec (old : AABB F) : SameShape g (g.moveObject obj id old bounds) ∧
    ∀ c, g.InRange c → ∀ k : Int, ((g.moveObject obj id old bounds).cell c)[k]?
      = if k = id then
          if c ∈ g.getOverlappingCells bounds then some obj
          else if c ∈ g.getOverlappingCells old then none else (g.cell c)[k]?
        else (g.cell c)[k]? := by
  obtain ⟨hremove, hgone⟩ := removeObject_spec h id old
  obtain ⟨hadd, hnew⟩ := addObject_spec (hremove.full h) obj id bounds
  refine ⟨hremove.trans hadd, fun c hc k => ?_⟩
  unfold moveObject
  rw [hnew c (hremove.inRange.mpr hc) k, hgone c hc k, hremove.getOverlappingCells]
  by_cases hk : k = id
  · simp [hk]
  · simp [hk]

end

/-! ## Pairs -/

section

omit [Scalar F]

/-- The pairs of a cell are pairs of different entries. -/
theorem of_mem_cellPairs {l : List (Int × ObjRef)} (hl : l.Pairwise fun e e' => e.1 ≠ e'.1)
    {p : ObjRef × ObjRef} (h : p ∈ cellPairs (l.map Prod.snd)) :
    ∃ k k', k ≠ k' ∧ (k, p.1) ∈ l ∧ (k', p.2) ∈ l := by
  induction l with
  | nil => simp [cellPairs] at h
  | cons e l ih =>
      obtain ⟨hhead, htail⟩ := List.pairwise_cons.mp hl
      unfold cellPairs at h
      rcases List.mem_append.mp h with h | h
      · obtain ⟨b, hb, rfl⟩ := List.mem_map.mp h
        obtain ⟨e', he', rfl⟩ := List.mem_map.mp hb
        exact ⟨e.1, e'.1, hhead e' he', List.mem_cons_self, List.mem_cons_of_mem e he'⟩
      · obtain ⟨k, k', hne, hk, hk'⟩ := ih htail h
        exact ⟨k, k', hne, List.mem_cons_of_mem e hk, List.mem_cons_of_mem e hk'⟩

/-- Two different elements are a pair of the cell, one way round. -/
theorem mem_cellPairs {l : List ObjRef} {a b : ObjRef} (ha : a ∈ l) (hb : b ∈ l) (hne : a ≠ b) :
    (a, b) ∈ cellPairs l ∨ (b, a) ∈ cellPairs l := by
  induction l with
  | nil => cases ha
  | cons x l ih =>
      unfold cellPairs
      rcases List.mem_cons.mp ha with hax | hal
      · rcases List.mem_cons.mp hb with hbx | hbl
        · exact absurd (hax.trans hbx.symm) hne
        · exact .inl (List.mem_append_left _ (hax ▸ List.mem_map_of_mem hbl))
      · rcases List.mem_cons.mp hb with hbx | hbl
        · exact .inr (List.mem_append_left _ (hbx ▸ List.mem_map_of_mem hal))
        · exact (ih hal hbl).imp (List.mem_append_right _) (List.mem_append_right _)

/-- Looking at one pair after the other, and keeping what passes, once. -/
theorem foldl_collect {α : Type} [BEq α] [LawfulBEq α] (test : α → Bool) (norm : α → α) (l acc : List α)
    (hacc : acc.Nodup) :
    let out := l.foldl (fun acc q =>
      if test q then if acc.contains (norm q) then acc else acc ++ [norm q] else acc) acc
    out.Nodup ∧ ∀ p, p ∈ out ↔ p ∈ acc ∨ ∃ q ∈ l, test q = true ∧ p = norm q := by
  induction l generalizing acc with
  | nil => exact ⟨hacc, fun p => by simp⟩
  | cons q l ih =>
      dsimp only at ih ⊢
      rw [List.foldl_cons]
      by_cases htest : test q = true
      · rw [if_pos htest]
        by_cases hin : acc.contains (norm q) = true
        · rw [if_pos hin]
          obtain ⟨hnodup, hmem⟩ := ih acc hacc
          refine ⟨hnodup, fun p => (hmem p).trans ?_⟩
          have hq : norm q ∈ acc := List.contains_iff_mem.mp hin
          constructor
          · rintro (h | ⟨q', hq', h⟩)
            · exact .inl h
            · exact .inr ⟨q', List.mem_cons_of_mem q hq', h⟩
          · rintro (h | ⟨q', hq', ht, rfl⟩)
            · exact .inl h
            · rcases List.mem_cons.mp hq' with rfl | hq'
              · exact .inl hq
              · exact .inr ⟨q', hq', ht, rfl⟩
        · rw [if_neg hin]
          have hq : norm q ∉ acc := fun h => hin (List.contains_iff_mem.mpr h)
          obtain ⟨hnodup, hmem⟩ := ih (acc ++ [norm q]) (List.nodup_append.mpr
            ⟨hacc, List.nodup_singleton _, fun a ha b hb => by
              rw [List.mem_singleton.mp hb]
              exact fun heq => hq (heq ▸ ha)⟩)
          refine ⟨hnodup, fun p => (hmem p).trans ?_⟩
          rw [List.mem_append, List.mem_singleton]
          constructor
          · rintro ((h | rfl) | ⟨q', hq', h⟩)
            · exact .inl h
            · exact .inr ⟨q, List.mem_cons_self, htest, rfl⟩
            · exact .inr ⟨q', List.mem_cons_of_mem q hq', h⟩
          · rintro (h | ⟨q', hq', ht, rfl⟩)
            · exact .inl (.inl h)
            · rcases List.mem_cons.mp hq' with rfl | hq'
              · exact .inl (.inr rfl)
              · exact .inr ⟨q', hq', ht, rfl⟩
      · rw [if_neg htest]
        obtain ⟨hnodup, hmem⟩ := ih acc hacc
        refine ⟨hnodup, fun p => (hmem p).trans (or_congr_right ?_)⟩
        constructor
        · rintro ⟨q', hq', h⟩
          exact ⟨q', List.mem_cons_of_mem q hq', h⟩
        · rintro ⟨q', hq', ht, rfl⟩
          rcases List.mem_cons.mp hq' with rfl | hq'
          · exact absurd ht htest
          · exact ⟨q', hq', ht, rfl⟩

theorem mem_grids {g : GridManager F} (h : g.Full) {row : List Grid} (hrow : row ∈ g.grids) {grid : Grid}
    (hgrid : grid ∈ row) : ∃ c, g.InRange c ∧ g.cell c = grid := by
  obtain ⟨y, hy⟩ := List.mem_iff_getElem?.mp hrow
  obtain ⟨x, hx⟩ := List.mem_iff_getElem?.mp hgrid
  have hylen := (List.getElem?_eq_some_iff.mp hy).1
  have hxlen := (List.getElem?_eq_some_iff.mp hx).1
  have hrows := h.rows
  have hcols := h.cols row hrow
  refine ⟨((x : Int), (y : Int)), ⟨by omega, by omega, by omega, by omega⟩, ?_⟩
  unfold cell
  simp [List.getD_eq_getElem?_getD, hy, hx]

end

/-- The two overlap, and are of kinds that do something to each other. -/
def Meet (heap : ObjRef → GameObject F) (a b : ObjRef) : Prop :=
  (heap a).bounds.collider (heap b).bounds = true
    ∧ ¬ ((heap a).objectCode = .bullet ∧ (heap b).objectCode = .bullet)
    ∧ ¬ ((heap a).objectCode = .player ∧ (heap b).objectCode = .player)

instance (heap : ObjRef → GameObject F) (a b : ObjRef) : Decidable (Meet heap a b) :=
  inferInstanceAs (Decidable (_ ∧ ¬ _ ∧ ¬ _))

theorem meet_symm {heap : ObjRef → GameObject F} {a b : ObjRef} (h : Meet heap a b) : Meet heap b a := by
  obtain ⟨hcollider, hbullet, hplayer⟩ := h
  refine ⟨?_, fun hb => hbullet hb.symm, fun hp => hplayer hp.symm⟩
  rw [← hcollider]
  unfold AABB.collider
  congr 1
  ac_rfl

theorem findAllColliders_spec {g : GridManager F} (h : g.Full) (heap : ObjRef → GameObject F) :
    (g.findAllColliders heap).Nodup ∧ ∀ p, p ∈ g.findAllColliders heap ↔
      ∃ c, g.InRange c ∧ ∃ q ∈ cellPairs ((g.cell c).toList.map Prod.snd),
        Meet heap q.1 q.2 ∧ p = (min q.1 q.2, max q.1 q.2) := by
  obtain ⟨hnodup, hmem⟩ := foldl_collect (α := ObjRef × ObjRef)
    (fun p => (heap p.1).bounds.collider (heap p.2).bounds
      && !(((heap p.1).objectCode == .bullet && (heap p.2).objectCode == .bullet)
        || ((heap p.1).objectCode == .player && (heap p.2).objectCode == .player)))
    (fun p => (min p.1 p.2, max p.1 p.2))
    (g.grids.flatMap fun row => row.flatMap fun grid => cellPairs (grid.toList.map Prod.snd)) [] .nil
  refine ⟨hnodup, fun p => (hmem p).trans ?_⟩
  constructor
  · rintro (h0 | ⟨q, hq, htest, hp⟩)
    · cases h0
    · obtain ⟨row, hrow, hq⟩ := List.mem_flatMap.mp hq
      obtain ⟨grid, hgrid, hq⟩ := List.mem_flatMap.mp hq
      obtain ⟨c, hc, rfl⟩ := mem_grids h hrow hgrid
      refine ⟨c, hc, q, hq, ?_, hp⟩
      simpa [Meet, ← imp_iff_not_or] using htest
  · rintro ⟨c, hc, q, hq, hmeet, hp⟩
    obtain ⟨row, hrow, hgrid⟩ := exists_cell h hc
    refine .inr ⟨q, List.mem_flatMap.mpr ⟨row, List.mem_of_getElem? hrow,
      List.mem_flatMap.mpr ⟨g.cell c, List.mem_of_getElem? hgrid, hq⟩⟩, ?_, hp⟩
    simpa [Meet, ← imp_iff_not_or] using hmeet

/-- Two objects that are reported meet, and there is a cell with both. -/
theorem of_mem_findAllColliders {g : GridManager F} (h : g.Full) {heap : ObjRef → GameObject F}
    {p : ObjRef × ObjRef} (hp : p ∈ g.findAllColliders heap) :
    Meet heap p.1 p.2 ∧ p.1 ≤ p.2 ∧ ∃ c, g.InRange c ∧ ∃ k k' : Int, k ≠ k' ∧
      (g.cell c)[k]? = some p.1 ∧ (g.cell c)[k']? = some p.2 := by
  obtain ⟨c, hc, q, hq, hmeet, rfl⟩ := ((findAllColliders_spec h heap).2 p).mp hp
  obtain ⟨k, k', hne, hk, hk'⟩ := of_mem_cellPairs (Table.pairwise_toList (g.cell c)) hq
  have hk := Std.ExtTreeMap.mem_toList_iff_getElem?_eq_some.mp hk
  have hk' := Std.ExtTreeMap.mem_toList_iff_getElem?_eq_some.mp hk'
  rcases Nat.le_total q.1 q.2 with hle | hle
  · rw [Nat.min_eq_left hle, Nat.max_eq_right hle]
    exact ⟨hmeet, hle, c, hc, k, k', hne, hk, hk'⟩
  · rw [Nat.min_eq_right hle, Nat.max_eq_left hle]
    exact ⟨meet_symm hmeet, hle, c, hc, k', k, hne.symm, hk', hk⟩

/-- Two objects that meet are reported if there is a cell with both. -/
theorem mem_findAllColliders {g : GridManager F} (h : g.Full) {heap : ObjRef → GameObject F}
    {a b : ObjRef} (hlt : a < b) (hmeet : Meet heap a b) {c : Int × Int} (hc : g.InRange c) {k k' : Int}
    (hk : (g.cell c)[k]? = some a) (hk' : (g.cell c)[k']? = some b) :
    (a, b) ∈ g.findAllColliders heap := by
  have ha : a ∈ (g.cell c).toList.map Prod.snd :=
    List.mem_map.mpr ⟨(k, a), Std.ExtTreeMap.mem_toList_iff_getElem?_eq_some.mpr hk, rfl⟩
  have hb : b ∈ (g.cell c).toList.map Prod.snd :=
    List.mem_map.mpr ⟨(k', b), Std.ExtTreeMap.mem_toList_iff_getElem?_eq_some.mpr hk', rfl⟩
  refine ((findAllColliders_spec h heap).2 (a, b)).mpr ?_
  rcases mem_cellPairs ha hb (Nat.ne_of_lt hlt) with hq | hq
  · refine ⟨c, hc, (a, b), hq, hmeet, ?_⟩
    rw [Nat.min_eq_left (Nat.le_of_lt hlt), Nat.max_eq_right (Nat.le_of_lt hlt)]
  · refine ⟨c, hc, (b, a), hq, meet_symm hmeet, ?_⟩
    rw [Nat.min_eq_right (Nat.le_of_lt hlt), Nat.max_eq_left (Nat.le_of_lt hlt)]

end StarCraftIocp.GridManager
