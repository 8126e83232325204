import StarCraftIocp.GameServer.GameObject
import StarCraftIocp.Lib.PriorityQueue
import StarCraftIocp.Lib.Traced

/-!
# The path search

`AStarMove` on a map's table of heights. Every access to the table is recorded by
its index, and `behind` is what an access outside the table finds. A node is known
by its cell, under which `closedList` and `cameFrom` have it; of its parent only the
cell is looked at. The priority queue is any with the order of `Compare`.
-/

namespace StarCraftIocp

structure Node (F : Type) where
  x : Int
  y : Int
  g : F
  h : F
  f : F
  /-- The cell of `parent`, when it is not null. -/
  parent : Option (Int × Int)

/-- What `aStar` has in its local variables. -/
structure Search (F : Type) where
  openList : List (Node F)
  closedList : Int × Int → Bool
  cameFrom : Int × Int → Option (Node F)

/-- What `aStar` comes to. -/
inductive SearchResult where
  /-- It returns true, with this in `out`. -/
  | found (out : List (Int × Int))
  /-- It returns false. -/
  | notFound
  /-- It has not returned yet. -/
  | running
  deriving Repr, DecidableEq

namespace AStarMove

/-! ## The map -/

/-- An index in `height`. -/
def Inside (map : MapSectionData) (index : Int) : Prop := 0 ≤ index ∧ index < map.height.length

instance (map : MapSectionData) (index : Int) : Decidable (Inside map index) :=
  inferInstanceAs (Decidable (_ ∧ _))

section

variable (behind : Int → Nat) (map : MapSectionData)

/-- `map[x + mapWidth * y]`. -/
def heightAt (x y : Int) : Traced Int Int where
  value := if Inside map (x + map.mapWidth * y)
    then map.height.getD (x + map.mapWidth * y).toNat 0 else behind (x + map.mapWidth * y)
  trace := [x + map.mapWidth * y]

/-- A corner of a diagonal step, seen from the height `h1`. -/
def cornerOk (h1 x y : Int) : Traced Int Bool := do
  let h ← heightAt behind map x y
  if h ≠ 0 then do
    let h ← heightAt behind map x y
    return decide (|h1 - h| ≤ 1)
  else return false

/-- `canMove`. -/
def canMove (x1 y1 x2 y2 : Int) : Traced Int Bool :=
  if x2 < 0 ∨ y2 < 0 ∨ x2 ≥ map.mapWidth ∨ y2 ≥ map.mapHeight then return false
  else do
    let h ← heightAt behind map x2 y2
    if h = 0 then return false
    else do
      let h1 ← heightAt behind map x1 y1
      let h2 ← heightAt behind map x2 y2
      if |h1 - h2| > 1 then return false
      else do
        let dx := x2 - x1
        let dy := y2 - y1
        if dx ≠ 0 ∧ dy ≠ 0 then do
          let hor_ok ← cornerOk behind map h1 (x1 + dx) y1
          let ver_ok ← cornerOk behind map h1 x1 (y1 + dy)
          return hor_ok && ver_ok
        else return true

end

/-- `dx`, `dy` and `moveCost`. -/
def directions : List (Int × Int × ℚ) :=
  [(-1, -1, 1.4), (-1, 0, 1), (-1, 1, 1.4), (0, -1, 1), (0, 1, 1), (1, -1, 1.4), (1, 0, 1), (1, 1, 1.4)]

/-! ## The search -/

section

variable {F : Type} [Scalar F]

/-- `heuristic`. -/
def heuristic (x1 y1 x2 y2 : Int) : F :=
  let dx := |x1 - x2|
  let dy := |y1 - y2|
  let diag := min dx dy
  let straight := dx + dy - 2 * diag
  Scalar.lit 1.4 * Scalar.ofInt diag + Scalar.lit 1 * Scalar.ofInt straight

/-- `abs`. -/
def abs (x : F) : F := if Scalar.lt x (Scalar.lit 0) then Scalar.lit 0 - x else x

/-- `Compare`: the first comes after the second. -/
def compare (a b : Node F) : Bool :=
  if Scalar.lt (abs (a.f - b.f)) (Scalar.lit 0.000001) then Scalar.lt b.h a.h else Scalar.lt b.f a.f

/-- The start of the search. -/
def start (startX startY endX endY : Int) : Search F :=
  let h : F := heuristic startX startY endX endY
  let node : Node F :=
    { x := startX, y := startY, g := Scalar.lit 0, h := h, f := Scalar.lit 0 + h, parent := none }
  { openList := [node]
    closedList := fun _ => false
    cameFrom := Function.update (fun _ => none) (startX, startY) (some node) }

/-- The walk from the end to the start; `none` when it does not get there. -/
def walkBack (cameFrom : Int × Int → Option (Node F)) : Nat → Int × Int → Option (List (Int × Int))
  | 0, _ => none
  | fuel + 1, node =>
      match cameFrom node with
      | none => none
      | some entry =>
          match entry.parent with
          | none => some [node]
          | some parent => (walkBack cameFrom fuel parent).map fun out => node :: out

/-- A neighbour is better reached from `current`. -/
def better (cameFrom : Int × Int → Option (Node F)) (nx ny : Int) (tentative_g : F) : Bool :=
  match cameFrom (nx, ny) with
  | none => true
  | some it => Scalar.lt tentative_g (it.g - Scalar.lit 0.000001)

variable (behind : Int → Nat) (map : MapSectionData) (endX endY : Int)

/-- The neighbour of `current` in one direction. -/
def visit (current : Node F) (s : Search F) (d : Int × Int × ℚ) : Traced Int (Search F) := do
  let nx := current.x + d.1
  let ny := current.y + d.2.1
  if ← canMove behind map current.x current.y nx ny then
    let tentative_g := current.g + Scalar.lit d.2.2
    if better s.cameFrom nx ny tentative_g then
      let h : F := heuristic nx ny endX endY
      let neighbor : Node F :=
        { x := nx, y := ny, g := tentative_g, h := h, f := tentative_g + h,
          parent := some (current.x, current.y) }
      return {
        openList := neighbor :: s.openList
        closedList := Function.update s.closedList (nx, ny) false
        cameFrom := Function.update s.cameFrom (nx, ny) (some neighbor) }
    else return s
  else return s

variable (queue : PriorityQueue (Node F) compare)

/-- The loop of `aStar`. -/
def searchLoop : Nat → Search F → Traced Int SearchResult
  | 0, _ => return .running
  | fuel + 1, s =>
      match queue.pop s.openList with
      | none => return .notFound
      | some (current, openList) =>
          if current.x = endX ∧ current.y = endY then
            return match walkBack s.cameFrom fuel (current.x, current.y) with
            | some out => .found out
            | none => .running
          else if s.closedList (current.x, current.y) then
            searchLoop fuel { s with openList := openList }
          else do
            let s ← directions.foldlM (visit behind map endX endY current)
              { s with
                openList := openList
                closedList := Function.update s.closedList (current.x, current.y) true }
            searchLoop fuel s

/-- `aStar`. -/
def aStar (fuel : Nat) (startX startY : Int) : Traced Int SearchResult :=
  searchLoop behind map endX endY queue fuel (start startX startY endX endY)

end

/-- The search as `SetMove` calls it. -/
def search {F : Type} [Scalar F] (behind : Int → Nat) (queue : PriorityQueue (Node F) compare) (fuel : Nat) :
    AStar :=
  fun map startX startY endX endY =>
    match (aStar behind map endX endY queue fuel startX startY).value with
    | .found out => some out
    | .notFound => none
    | .running => none

end AStarMove

/-- The indices into `height` that `SetMove` reads. -/
def GameObject.setMoveReads {F : Type} [Scalar F] (behind : Int → Nat)
    (queue : PriorityQueue (Node F) AStarMove.compare) (fuel : Nat) (map : Option MapSectionData)
    (state : GameObjectState) (position target : Vector3 F) : List Int :=
  let direction := position.sub target
  let lengthSq := direction.x * direction.x + direction.y * direction.y + direction.z * direction.z
  if state = .idle ∨ Scalar.le lengthSq (Scalar.lit 0.000001) = true then []
  else
    match map with
    | none => []
    | some map =>
        (AStarMove.aStar behind map (Scalar.toInt target.x) (Scalar.toInt target.y) queue fuel
          (Scalar.toInt position.x) (Scalar.toInt position.y)).trace

end StarCraftIocp
