import StarCraftIocp.Lib.ExactScalar
import StarCraftIocp.Lib.Intervals
import StarCraftIocp.Proof.Cells

/-!
# The grid finds what brute force finds

`FindAllColliders` compares objects that share a cell only. As long as the boxes
lie in the world, it finds what comparing all objects with each other would find:
every cell lists just the objects whose box overlaps it, and two boxes that
overlap have a cell in common. Numbers are exact here.
-/

namespace StarCraftIocp.Broadphase

open GridManager

/-- Two boxes overlap when they do in both directions. -/
theorem collider_iff {F : Type} [ExactScalar F] [LinearOrder F] [IsStrictOrderedRing F] [FloorRing F]
    [LawfulScalar F] (a b : AABB F) : a.collider b = true ↔
      (a.minX < b.maxX ∧ b.minX < a.maxX) ∧ a.minY < b.maxY ∧ b.minY < a.maxY := by
  have hle : ∀ x y : F, Scalar.le x y = false ↔ y < x := by
    intro x y
    rw [← not_le, ← LawfulScalar.le_iff, Bool.not_eq_true]
  unfold AABB.collider
  simp only [Bool.not_eq_true', Bool.or_eq_false_iff, hle]
  tauto

/-- A grid, the objects there are, and those of them that are on the grid at present. -/
structure Scene where
  grid : GridManager ℚ
  heap : ObjRef → GameObject ℚ
  added : Finset ObjRef

inductive GridOp where
  | addObject (obj : ObjRef)
  | removeObject (obj : ObjRef)
  | moveObject (obj : ObjRef) (bounds : AABB ℚ)

/-- The object of an operation. -/
def GridOp.obj : GridOp → ObjRef
  | .addObject obj => obj
  | .removeObject obj => obj
  | .moveObject obj _ => obj

namespace Scene

def new (worldWidth worldHeight : ℚ) (cols rows : Nat) (heap : ObjRef → GameObject ℚ) : Scene where
  grid := GridManager.new worldWidth worldHeight cols rows
  heap := heap
  added := ∅

/-- Bounds change in `MoveObject` only. -/
def exec (s : Scene) : GridOp → Scene
  | .addObject obj =>
      { s with
        grid := s.grid.addObject obj (s.heap obj).id (s.heap obj).bounds
        added := insert obj s.added }
  | .removeObject obj =>
      { s with
        grid := s.grid.removeObject (s.heap obj).id (s.heap obj).bounds
        added := s.added.erase obj }
  | .moveObject obj bounds =>
      { grid := s.grid.moveObject obj (s.heap obj).id (s.heap obj).bounds bounds
        heap := Function.update s.heap obj { s.heap obj with bounds := bounds }
        added := insert obj s.added }

end Scene

/-- A box in the world. -/
structure Inside (worldWidth worldHeight : ℚ) (bounds : AABB ℚ) : Prop where
  minX : 0 ≤ bounds.minX
  minY : 0 ≤ bounds.minY
  x : bounds.minX ≤ bounds.maxX
  y : bounds.minY ≤ bounds.maxY
  maxX : bounds.maxX ≤ worldWidth
  maxY : bounds.maxY ≤ worldHeight

/-- An operation that keeps the box of its object in the world. -/
def GridOp.Keeps (worldWidth worldHeight : ℚ) : GridOp → Prop
  | .moveObject _ bounds => Inside worldWidth worldHeight bounds
  | _ => True

/-- What holds of a scene at any time, for objects with these ids. -/
structure Inv (worldWidth worldHeight : ℚ) (cols rows : Nat) (objs : Set ObjRef) (ids : ObjRef → Int)
    (s : Scene) : Prop where
  shape : SameShape (GridManager.new worldWidth worldHeight cols rows) s.grid
  id : ∀ r, (s.heap r).id = ids r
  inside : ∀ r ∈ objs, Inside worldWidth worldHeight (s.heap r).bounds
  added : ∀ r ∈ s.added, r ∈ objs
  /-- A cell lists the objects that are added and overlap it. -/
  listed : ∀ c, s.grid.InRange c → ∀ (k : Int) r, (s.grid.cell c)[k]? = some r ↔
    r ∈ s.added ∧ k = ids r ∧ c ∈ s.grid.getOverlappingCells (s.heap r).bounds

section

variable {worldWidth worldHeight : ℚ} {cols rows : Nat} {objs : Set ObjRef} {ids : ObjRef → Int}
  {s : Scene}

theorem Inv.full (h : Inv worldWidth worldHeight cols rows objs ids s) : s.grid.Full :=
  h.shape.full (full_new ..)

theorem inv_new {heap : ObjRef → GameObject ℚ}
    (hinside : ∀ r ∈ objs, Inside worldWidth worldHeight (heap r).bounds) :
    Inv worldWidth worldHeight cols rows objs (fun r => (heap r).id)
      (Scene.new worldWidth worldHeight cols rows heap) where
  shape := ⟨rfl, rfl, rfl, rfl, id⟩
  id _ := rfl
  inside := hinside
  added := nofun
  listed := by
    intro c hc k r
    have hempty : (Scene.new worldWidth worldHeight cols rows heap).grid.cell c = ∅ :=
      cell_new _ _ _ _ hc
    rw [hempty]
    simp [Scene.new]

/-- Added objects with the same id are the same. -/
theorem Inv.eq_of_mem_insert (h : Inv worldWidth worldHeight cols rows objs ids s)
    (hids : Set.InjOn ids objs) {obj r : ObjRef} (hobj : obj ∈ objs) (hr : r ∈ insert obj s.added)
    (heq : ids r = ids obj) : r = obj := by
  rcases Finset.mem_insert.mp hr with hr | hr
  · exact hr
  · exact hids (h.added r hr) hobj heq

theorem inv_addObject (h : Inv worldWidth worldHeight cols rows objs ids s) (hids : Set.InjOn ids objs)
    {obj : ObjRef} (hobj : obj ∈ objs) :
    Inv worldWidth worldHeight cols rows objs ids (s.exec (.addObject obj)) := by
  obtain ⟨hshape, hcell⟩ := addObject_spec h.full obj (s.heap obj).id (s.heap obj).bounds
  refine ⟨h.shape.trans hshape, h.id, h.inside, ?_, ?_⟩
  · intro r hr
    rcases Finset.mem_insert.mp hr with rfl | hr
    · exact hobj
    · exact h.added r hr
  · intro c hc k r
    have hc := hshape.inRange.mp hc
    change ((s.grid.addObject _ _ _).cell c)[k]? = some r ↔
      r ∈ insert obj s.added ∧ k = ids r ∧ c ∈ (s.grid.addObject _ _ _).getOverlappingCells _
    rw [hcell c hc k, hshape.getOverlappingCells, h.id obj]
    by_cases hnew : c ∈ s.grid.getOverlappingCells (s.heap obj).bounds ∧ k = ids obj
    · rw [if_pos hnew]
      constructor
      · intro hr
        obtain rfl := Option.some.inj hr
        exact ⟨Finset.mem_insert_self _ _, hnew.2, hnew.1⟩
      · rintro ⟨hr, hk, _⟩
        rw [h.eq_of_mem_insert hids hobj hr (hk.symm.trans hnew.2)]
    · rw [if_neg hnew, h.listed c hc k r]
      constructor
      · rintro ⟨hr, hk, hover⟩
        exact ⟨Finset.mem_insert_of_mem hr, hk, hover⟩
      · rintro ⟨hr, hk, hover⟩
        rcases Finset.mem_insert.mp hr with rfl | hr
        · exact absurd ⟨hover, hk⟩ hnew
        · exact ⟨hr, hk, hover⟩

theorem inv_removeObject (h : Inv worldWidth worldHeight cols rows objs ids s)
    (hids : Set.InjOn ids objs) {obj : ObjRef} (hobj : obj ∈ objs) :
    Inv worldWidth worldHeight cols rows objs ids (s.exec (.removeObject obj)) := by
  obtain ⟨hshape, hcell⟩ := removeObject_spec h.full (s.heap obj).id (s.heap obj).bounds
  refine ⟨h.shape.trans hshape, h.id, h.inside, fun r hr => h.added r (Finset.mem_of_mem_erase hr), ?_⟩
  intro c hc k r
  have hc := hshape.inRange.mp hc
  change ((s.grid.removeObject _ _).cell c)[k]? = some r ↔
    r ∈ s.added.erase obj ∧ k = ids r ∧ c ∈ (s.grid.removeObject _ _).getOverlappingCells _
  rw [hcell c hc k, hshape.getOverlappingCells, h.id obj, Finset.mem_erase]
  by_cases hold : c ∈ s.grid.getOverlappingCells (s.heap obj).bounds ∧ k = ids obj
  · rw [if_pos hold]
    refine ⟨fun hr => (by cases hr), ?_⟩
    rintro ⟨⟨hne, hr⟩, hk, _⟩
    exact absurd (hids (h.added r hr) hobj (hk.symm.trans hold.2)) hne
  · rw [if_neg hold, h.listed c hc k r]
    constructor
    · rintro ⟨hr, hk, hover⟩
      refine ⟨⟨?_, hr⟩, hk, hover⟩
      rintro rfl
      exact hold ⟨hover, hk⟩
    · rintro ⟨⟨_, hr⟩, hk, hover⟩
      exact ⟨hr, hk, hover⟩

theorem inv_moveObject (h : Inv worldWidth worldHeight cols rows objs ids s) (hids : Set.InjOn ids objs)
    {obj : ObjRef} (hobj : obj ∈ objs) {bounds : AABB ℚ} (hbounds : Inside worldWidth worldHeight bounds) :
    Inv worldWidth worldHeight cols rows objs ids (s.exec (.moveObject obj bounds)) := by
  obtain ⟨hshape, hcell⟩ := moveObject_spec h.full obj (s.heap obj).id bounds (s.heap obj).bounds
  have hheap : ∀ r, (s.exec (.moveObject obj bounds)).heap r
      = if r = obj then { s.heap obj with bounds := bounds } else s.heap r :=
    fun r => Function.update_apply ..
  refine ⟨h.shape.trans hshape, ?_, ?_, ?_, ?_⟩
  · intro r
    rw [hheap]
    by_cases hr : r = obj
    · rw [if_pos hr, hr]
      exact h.id obj
    · rw [if_neg hr]
      exact h.id r
  · intro r hr
    rw [hheap]
    by_cases hro : r = obj
    · rw [if_pos hro]
      exact hbounds
    · rw [if_neg hro]
      exact h.inside r hr
  · intro r hr
    rcases Finset.mem_insert.mp hr with rfl | hr
    · exact hobj
    · exact h.added r hr
  · intro c hc k r
    have hc := hshape.inRange.mp hc
    change ((s.grid.moveObject _ _ _ _).cell c)[k]? = some r ↔
      r ∈ insert obj s.added ∧ k = ids r ∧ c ∈ (s.grid.moveObject _ _ _ _).getOverlappingCells _
    rw [hcell c hc k, hshape.getOverlappingCells, h.id obj, hheap]
    by_cases hk : k = ids obj
    · rw [if_pos hk]
      by_cases hnew : c ∈ s.grid.getOverlappingCells bounds
      · rw [if_pos hnew]
        constructor
        · intro hr
          obtain rfl := Option.some.inj hr
          rw [if_pos rfl]
          exact ⟨Finset.mem_insert_self _ _, hk, hnew⟩
        · rintro ⟨hr, hkr, _⟩
          rw [h.eq_of_mem_insert hids hobj hr (hkr.symm.trans hk)]
      · rw [if_neg hnew]
        constructor
        · intro hr
          by_cases hold : c ∈ s.grid.getOverlappingCells (s.heap obj).bounds
          · rw [if_pos hold] at hr
            cases hr
          · rw [if_neg hold, h.listed c hc k r] at hr
            obtain ⟨hr, hkr, hover⟩ := hr
            have hsame : r = obj := hids (h.added r hr) hobj (hkr.symm.trans hk)
            exact absurd (hsame ▸ hover) hold
        · rintro ⟨hr, hkr, hover⟩
          rw [if_pos (h.eq_of_mem_insert hids hobj hr (hkr.symm.trans hk))] at hover
          exact absurd hover hnew
    · rw [if_neg hk, h.listed c hc k r]
      have hne : k = ids r → r ≠ obj := fun hkr hr => hk (hr ▸ hkr)
      constructor
      · rintro ⟨hr, hkr, hover⟩
        rw [if_neg (hne hkr)]
        exact ⟨Finset.mem_insert_of_mem hr, hkr, hover⟩
      · rintro ⟨hr, hkr, hover⟩
        rw [if_neg (hne hkr)] at hover
        exact ⟨Finset.mem_of_mem_insert_of_ne hr (hne hkr), hkr, hover⟩

theorem inv_exec (h : Inv worldWidth worldHeight cols rows objs ids s) (hids : Set.InjOn ids objs)
    {op : GridOp} (hobj : op.obj ∈ objs) (hop : op.Keeps worldWidth worldHeight) :
    Inv worldWidth worldHeight cols rows objs ids (s.exec op) := by
  cases op with
  | addObject obj => exact inv_addObject h hids hobj
  | removeObject obj => exact inv_removeObject h hids hobj
  | moveObject obj bounds => exact inv_moveObject h hids hobj hop

/-- The cells of a box in the world, where the conversion to `int` rounds down. -/
theorem Inside.mem_getOverlappingCells {bounds : AABB ℚ} (h : Inside worldWidth worldHeight bounds)
    {g : GridManager ℚ} (hgw : 0 < g.gridWidth) (hgh : 0 < g.gridHeight) {c : Int × Int} :
    c ∈ g.getOverlappingCells bounds ↔ g.InRange c
      ∧ (⌊bounds.minX / g.gridWidth⌋ ≤ c.1 ∧ c.1 ≤ ⌊bounds.maxX / g.gridWidth⌋)
      ∧ ⌊bounds.minY / g.gridHeight⌋ ≤ c.2 ∧ c.2 ≤ ⌊bounds.maxY / g.gridHeight⌋ := by
  rw [GridManager.mem_getOverlappingCells, and_assoc,
    LawfulScalar.toInt_of_nonneg (div_nonneg h.minX hgw.le),
    LawfulScalar.toInt_of_nonneg (div_nonneg (h.minX.trans h.x) hgw.le),
    LawfulScalar.toInt_of_nonneg (div_nonneg h.minY hgh.le),
    LawfulScalar.toInt_of_nonneg (div_nonneg (h.minY.trans h.y) hgh.le)]

/-- Two boxes of the world that overlap have a cell in common. -/
theorem Inv.exists_cell (h : Inv worldWidth worldHeight cols rows objs ids s) (hw : 0 < worldWidth)
    (hh : 0 < worldHeight) (hcols : 0 < cols) (hrows : 0 < rows) {a b : ObjRef} (ha : a ∈ objs)
    (hb : b ∈ objs) (hcollider : (s.heap a).bounds.collider (s.heap b).bounds = true) :
    ∃ c, s.grid.InRange c ∧ c ∈ s.grid.getOverlappingCells (s.heap a).bounds
      ∧ c ∈ s.grid.getOverlappingCells (s.heap b).bounds := by
  obtain ⟨⟨hx, hx'⟩, hy, hy'⟩ := (collider_iff _ _).mp hcollider
  have hA := h.inside a ha
  have hB := h.inside b hb
  have hc : (0 : ℚ) < cols := by exact_mod_cast hcols
  have hr : (0 : ℚ) < rows := by exact_mod_cast hrows
  have hgw : s.grid.gridWidth = worldWidth / (cols : ℚ) :=
    h.shape.gridWidth.trans (congrArg (worldWidth / ·) (Int.cast_natCast cols))
  have hgh : s.grid.gridHeight = worldHeight / (rows : ℚ) :=
    h.shape.gridHeight.trans (congrArg (worldHeight / ·) (Int.cast_natCast rows))
  have hgw0 : 0 < s.grid.gridWidth := hgw ▸ div_pos hw hc
  have hgh0 : 0 < s.grid.gridHeight := hgh ▸ div_pos hh hr
  have hendX : worldWidth = ((cols : ℤ) : ℚ) * s.grid.gridWidth := by
    rw [hgw, Int.cast_natCast, mul_div_cancel₀ _ hc.ne']
  have hendY : worldHeight = ((rows : ℤ) : ℚ) * s.grid.gridHeight := by
    rw [hgh, Int.cast_natCast, mul_div_cancel₀ _ hr.ne']
  obtain ⟨x, hx0, hxn, hxa, hxb⟩ := Intervals.exists_common_cell hgw0 hA.minX hA.x hB.x
    (hA.maxX.trans_eq hendX) (hB.maxX.trans_eq hendX) hx hx'
  obtain ⟨y, hy0, hyn, hya, hyb⟩ := Intervals.exists_common_cell hgh0 hA.minY hA.y hB.y
    (hA.maxY.trans_eq hendY) (hB.maxY.trans_eq hendY) hy hy'
  have hrange : s.grid.InRange (x, y) := by
    refine ⟨hx0, ?_, hy0, ?_⟩
    · rw [h.shape.gridCols]
      exact hxn
    · rw [h.shape.gridRows]
      exact hyn
  exact ⟨(x, y), hrange, (hA.mem_getOverlappingCells hgw0 hgh0).mpr ⟨hrange, hxa, hya⟩,
    (hB.mem_getOverlappingCells hgw0 hgh0).mpr ⟨hrange, hxb, hyb⟩⟩

end

/-! ## Main results -/

/--
**The grid reports what brute force finds**, each pair once and the lower address
first: the pairs of added objects whose boxes overlap and that are not both
bullets or both players.
-/
theorem colliders_brute_force {worldWidth worldHeight : ℚ} (hw : 0 < worldWidth) (hh : 0 < worldHeight)
    {cols rows : Nat} (hcols : 0 < cols) (hrows : 0 < rows) (heap : ObjRef → GameObject ℚ)
    {objs : Set ObjRef} (hids : Set.InjOn (fun r => (heap r).id) objs)
    (hinside : ∀ r ∈ objs, Inside worldWidth worldHeight (heap r).bounds) {ops : List GridOp}
    (hops : ∀ op ∈ ops, op.obj ∈ objs ∧ op.Keeps worldWidth worldHeight) :
    let s := ops.foldl Scene.exec (Scene.new worldWidth worldHeight cols rows heap)
    (s.grid.findAllColliders s.heap).Nodup ∧ ∀ a b, (a, b) ∈ s.grid.findAllColliders s.heap ↔
      a < b ∧ a ∈ s.added ∧ b ∈ s.added ∧ Meet s.heap a b := by
  intro s
  have h : Inv worldWidth worldHeight cols rows objs (fun r => (heap r).id) s := by
    refine List.foldlRecOn ops Scene.exec (inv_new hinside) ?_
    intro s1 h1 op hop
    exact inv_exec h1 hids (hops op hop).1 (hops op hop).2
  refine ⟨(findAllColliders_spec h.full s.heap).1, fun a b => ⟨?_, ?_⟩⟩
  · intro hab
    obtain ⟨hmeet, hle, c, hc, k, k', hne, hk, hk'⟩ := of_mem_findAllColliders h.full hab
    obtain ⟨ha, hka, _⟩ := (h.listed c hc k a).mp hk
    obtain ⟨hb, hkb, _⟩ := (h.listed c hc k' b).mp hk'
    refine ⟨Nat.lt_of_le_of_ne hle ?_, ha, hb, hmeet⟩
    rintro rfl
    exact hne (hka.trans hkb.symm)
  · rintro ⟨hlt, ha, hb, hmeet⟩
    obtain ⟨c, hc, hover, hover'⟩ :=
      h.exists_cell hw hh hcols hrows (h.added a ha) (h.added b hb) hmeet.1
    exact mem_findAllColliders h.full hlt hmeet hc ((h.listed c hc _ a).mpr ⟨ha, rfl, hover⟩)
      ((h.listed c hc _ b).mpr ⟨hb, rfl, hover'⟩)

/-- A bullet and two players in a row, the second at the edge of the world. -/
def threeObjects (r : ObjRef) : GameObject ℚ :=
  match r with
  | 0 => { GameObject.bullet 0 Vector3.zero Vector3.zero none with bounds := ⟨19, 0, 21, 1⟩ }
  | 1 => { GameObject.player 1 Vector3.zero with bounds := ⟨40, 40, 41, 41⟩ }
  | r => { GameObject.player r Vector3.zero with bounds := ⟨59, 0, 60, 1⟩ }

theorem colliders_brute_force_threeObjects :
    let s := [GridOp.addObject 0, .addObject 1, .addObject 2, .moveObject 1 ⟨20, 0, 22, 60⟩].foldl Scene.exec
      (Scene.new 60 60 3 3 threeObjects)
    (0, 1) ∈ s.grid.findAllColliders s.heap := by
  have hids : Set.InjOn (fun r => (threeObjects r).id) {0, 1, 2} := by
    intro a ha b hb hab
    rcases ha with rfl | rfl | rfl <;> rcases hb with rfl | rfl | rfl <;> first | rfl | cases hab
  refine ((colliders_brute_force (by norm_num) (by norm_num) (by norm_num) (by norm_num) threeObjects
    hids ?_ ?_).2 0 1).mpr ?_
  · intro r hr
    rcases hr with rfl | rfl | rfl
    · constructor <;> decide +kernel
    · constructor <;> decide +kernel
    · constructor <;> decide +kernel
  · intro op hop
    simp only [List.mem_cons, List.not_mem_nil, or_false] at hop
    rcases hop with rfl | rfl | rfl | rfl
    · exact ⟨.inl rfl, trivial⟩
    · exact ⟨.inr (.inl rfl), trivial⟩
    · exact ⟨.inr (.inr rfl), trivial⟩
    · refine ⟨.inr (.inl rfl), ?_⟩
      constructor <;> decide +kernel
  · decide +kernel

end StarCraftIocp.Broadphase
