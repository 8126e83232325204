import StarCraftIocp.GameServer.GameObject

/-!
# The grid of a room

`GridManager` divides the world into cells, and keeps in each cell the objects
whose bounds overlap it. A cell is a map from object ids to objects; the cells'
own bounds are never read.
-/

namespace StarCraftIocp

/-- `Grid::objects`. -/
abbrev Grid : Type := Std.ExtTreeMap Int ObjRef

structure GridManager (F : Type) where
  gridWidth : F
  gridHeight : F
  gridCols : Int
  gridRows : Int
  /-- Row by row. -/
  grids : List (List Grid)

/-- The values a loop from `a` to `b` counts through. -/
def intRange (a b : Int) : List Int := (List.range (b + 1 - a).toNat).map fun i => a + (i : Int)

namespace GridManager

variable {F : Type} [Scalar F]

def new (worldWidth worldHeight : F) (cols rows : Nat) : GridManager F where
  gridWidth := worldWidth / Scalar.ofInt cols
  gridHeight := worldHeight / Scalar.ofInt rows
  gridCols := cols
  gridRows := rows
  grids := List.replicate rows (List.replicate cols ∅)

/-- `GetOverlappingCells`, as pairs `(x, y)`. -/
def getOverlappingCells (g : GridManager F) (bounds : AABB F) : List (Int × Int) :=
  let startX := max 0 (Scalar.toInt (bounds.minX / g.gridWidth))
  let endX := min (g.gridCols - 1) (Scalar.toInt (bounds.maxX / g.gridWidth))
  let startY := max 0 (Scalar.toInt (bounds.minY / g.gridHeight))
  let endY := min (g.gridRows - 1) (Scalar.toInt (bounds.maxY / g.gridHeight))
  (intRange startY endY).flatMap fun y => (intRange startX endX).map fun x => (x, y)

/-- `grids[y][x]`, changed. -/
def modify (g : GridManager F) (cell : Int × Int) (f : Grid → Grid) : GridManager F :=
  { g with grids := g.grids.modify cell.2.toNat fun row => row.modify cell.1.toNat f }

/-- `AddObject(obj)`, for an object with this id and these bounds. -/
def addObject (g : GridManager F) (obj : ObjRef) (id : Int) (bounds : AABB F) : GridManager F :=
  (g.getOverlappingCells bounds).foldl (fun g cell => g.modify cell fun grid => grid.insert id obj) g

/-- `RemoveObject(obj)`. -/
def removeObject (g : GridManager F) (id : Int) (bounds : AABB F) : GridManager F :=
  (g.getOverlappingCells bounds).foldl (fun g cell => g.modify cell fun grid => grid.erase id) g

/-- `MoveObject(obj, bounds)`; `old` is what the object's bounds were. -/
def moveObject (g : GridManager F) (obj : ObjRef) (id : Int) (old bounds : AABB F) : GridManager F :=
  (g.removeObject id old).addObject obj id bounds

/-- The pairs of one cell that `FindAllColliders` looks at. -/
def cellPairs : List ObjRef → List (ObjRef × ObjRef)
  | [] => []
  | a :: l => l.map (fun b => (a, b)) ++ cellPairs l

/-- `FindAllColliders`; `heap` is where the objects are. A pair is ordered by address. -/
def findAllColliders (g : GridManager F) (heap : ObjRef → GameObject F) : List (ObjRef × ObjRef) :=
  let pairs := g.grids.flatMap fun row => row.flatMap fun grid => cellPairs (grid.toList.map Prod.snd)
  pairs.foldl (fun collisions p =>
    let a := heap p.1
    let b := heap p.2
    if a.bounds.collider b.bounds
        && !((a.objectCode == .bullet && b.objectCode == .bullet)
          || (a.objectCode == .player && b.objectCode == .player)) then
      let p := (min p.1 p.2, max p.1 p.2)
      if collisions.contains p then collisions else collisions ++ [p]
    else collisions) []

end GridManager

end StarCraftIocp
