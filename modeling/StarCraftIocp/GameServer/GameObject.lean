import StarCraftIocp.GameServer.ClientPacketHandler

/-!
# Game objects

`GameObject` with its subclasses `Player`, `Bullet`, `Unit`, `Mineral` and `Gas`.
What a subclass adds is in the field `kind`, and a virtual function cases on it.
Functions that reach into the room (`attack`, `TakeDamage`, the job a dead object
queues) are with the room, which owns the objects; here is what an object does to
itself.
-/

namespace StarCraftIocp

open Protocol

/-- A `GameObjectRef` that is not null: the object's place in its room's heap. -/
abbrev ObjRef : Type := Nat

inductive GameObjectState where
  | idle
  | move
  | attack
  | mining
  | dead
  | spawn
  deriving Repr, DecidableEq

/-- The cast to the protocol's enumeration, which has no `MINING`. -/
def GameObjectState.toInt : GameObjectState → Int
  | .idle => 0
  | .move => 1
  | .attack => 2
  | .mining => 3
  | .dead => 4
  | .spawn => 5

/-- An `enum class : INT32`, which a client's object type is cast to unchecked. -/
structure GameObjectCode where
  toInt : Int
  deriving Repr, DecidableEq

namespace GameObjectCode

def none : GameObjectCode := ⟨0⟩

def player : GameObjectCode := ⟨1⟩

def bullet : GameObjectCode := ⟨3⟩

def mineral : GameObjectCode := ⟨4⟩

def gas : GameObjectCode := ⟨5⟩

def probe : GameObjectCode := ⟨6⟩

end GameObjectCode

structure AABB (F : Type) where
  minX : F
  minY : F
  maxX : F
  maxY : F
  deriving Repr, DecidableEq

/-- What `ProtossProbe`, through `Unit`, adds to an object, as far as it is read. -/
structure UnitData (F : Type) where
  attackRange : F
  attackCooldown : F
  lastAttackTime : Int
  ad : F
  ranged : Bool
  directTarget : Option ObjRef

inductive GameObjectKind (F : Type) where
  | player
  | bullet (shooter : Option ObjRef) (lifeTick : Int)
  | unit (data : UnitData F)
  | mineral
  | gas

structure GameObject (F : Type) where
  id : Int
  position : Vector3 F
  direction : Vector3 F
  hp : F
  speed : F
  damage : F
  currentState : GameObjectState
  objectCode : GameObjectCode
  spawnTime : Int
  moveTarget : Vector3 F
  /-- The last element is the next waypoint. -/
  path : List (Int × Int)
  bounds : AABB F
  width : F
  height : F
  ownerId : Int
  kind : GameObjectKind F

structure PlayerStartPos where
  playerIndex : Int
  x : Int
  y : Int
  deriving Repr, DecidableEq

/-- `MapSectionData`, as far as a game reads it. -/
structure MapSectionData where
  mapWidth : Int
  mapHeight : Int
  height : List Nat
  playerPos : List PlayerStartPos
  deriving Repr, DecidableEq

/-- `AStarMove::aStar(startX, startY, endX, endY, out)` on a map: what it writes into an empty
`out` when it returns true. -/
abbrev AStar : Type := MapSectionData → Int → Int → Int → Int → Option (List (Int × Int))

section

variable {F : Type} [Scalar F]

namespace Vector3

def zero : Vector3 F := ⟨Scalar.lit 0, Scalar.lit 0, Scalar.lit 0⟩

def sub (a b : Vector3 F) : Vector3 F := ⟨a.x - b.x, a.y - b.y, a.z - b.z⟩

end Vector3

namespace AABB

def zero : AABB F := ⟨Scalar.lit 0, Scalar.lit 0, Scalar.lit 0, Scalar.lit 0⟩

/-- `AABB::Collider`. -/
def collider (a b : AABB F) : Bool :=
  !(Scalar.le a.maxX b.minX || Scalar.le b.maxX a.minX
    || Scalar.le a.maxY b.minY || Scalar.le b.maxY a.minY)

end AABB

namespace GameObject

/-- The constructor of `GameObject`. -/
def new (id : Int) (hp : F) (objectCode : GameObjectCode) (position direction : Vector3 F) (speed : F)
    (kind : GameObjectKind F) : GameObject F where
  id := id
  position := position
  direction := direction
  hp := hp
  speed := speed
  damage := Scalar.lit 0
  currentState := .idle
  objectCode := objectCode
  spawnTime := 0
  moveTarget := position
  path := []
  bounds := AABB.zero
  width := Scalar.lit 0
  height := Scalar.lit 0
  ownerId := -1
  kind := kind

/-- The default arguments `direction = Vector3(0, 0, 1)` and `speed = 0.1f`. -/
def player (id : Int) (position : Vector3 F) : GameObject F :=
  { new id (Scalar.lit 100) .player position ⟨Scalar.lit 0, Scalar.lit 0, Scalar.lit 1⟩
      (Scalar.lit 0.1) .player with
    width := Scalar.lit 1
    height := Scalar.lit 1 }

def bullet (id : Int) (position direction : Vector3 F) (shooter : Option ObjRef) : GameObject F :=
  { new id (Scalar.lit 1) .bullet position direction (Scalar.lit 0.3) (.bullet shooter 120) with
    currentState := .spawn
    width := Scalar.lit 0.1
    height := Scalar.lit 0.2
    damage := Scalar.lit 5 }

def mineral (id : Int) (pos : Vector3 F) : GameObject F :=
  { new id (Scalar.lit 1500) .mineral pos Vector3.zero (Scalar.lit 0) .mineral with
    width := Scalar.lit 0.64
    height := Scalar.lit 0.54 }

def gas (id : Int) (pos : Vector3 F) : GameObject F :=
  { new id (Scalar.lit 1500) .gas pos Vector3.zero (Scalar.lit 0) .gas with
    width := Scalar.lit 0.64
    height := Scalar.lit 0.32 }

/-- `Unit` sets no more of `uninit` than `lastAttackTime`; the rest is what the memory held. -/
def protossProbe (uninit : UnitData F) (id : Int) (pos : Vector3 F) : GameObject F :=
  new id (Scalar.lit 20) .probe pos Vector3.zero (Scalar.lit 2.3)
    (.unit { uninit with lastAttackTime := 0, directTarget := none })

def setDead (o : GameObject F) : GameObject F := { o with currentState := .dead }

def setAttack (o : GameObject F) : GameObject F := { o with currentState := .attack }

def updateBounds (o : GameObject F) : GameObject F :=
  { o with bounds :=
    ⟨o.position.x - o.width / Scalar.lit 2, o.position.y - o.height / Scalar.lit 2,
      o.position.x + o.width / Scalar.lit 2, o.position.y + o.height / Scalar.lit 2⟩ }

/-- What `SetMove` does when there is nowhere to go. -/
def stop (o : GameObject F) (position : Vector3 F) : GameObject F :=
  { o with currentState := .idle, direction := Vector3.zero, moveTarget := position }

/-- `SetMove`; `map` is the room's `mapSectionData`. -/
def setMove (o : GameObject F) (aStar : AStar) (map : Option MapSectionData)
    (state : GameObjectState) (position target : Vector3 F) : Except Crash (GameObject F) :=
  let o := { o with path := [], position := position }
  let direction := position.sub target
  let lengthSq := direction.x * direction.x + direction.y * direction.y + direction.z * direction.z
  if state = .idle ∨ Scalar.le lengthSq (Scalar.lit 0.000001) = true then .ok (o.stop position)
  else
    match map with
    | none => .error .nullMap
    | some map =>
        match aStar map (Scalar.toInt position.x) (Scalar.toInt position.y) (Scalar.toInt target.x)
            (Scalar.toInt target.y) with
        | none => .ok (o.stop position)
        -- the path ends with the cell the object stands on
        | some path => .ok { o with path := path.dropLast, currentState := state }

/-- `GameObject::move`. -/
def baseMove (o : GameObject F) : Except Crash (GameObject F × Option (ServerMessage F)) :=
  match o.path.getLast? with
  | none => .ok ({ o with currentState := .idle }, none)
  | some next => do
      let nextPosition : Vector3 F := ⟨Scalar.ofInt next.1, Scalar.ofInt next.2, Scalar.lit 0⟩
      let toTarget := nextPosition.sub o.position
      let distanceSq := toTarget.x * toTarget.x + toTarget.y * toTarget.y
      let dist := Scalar.sqrt distanceSq
      let o := if Scalar.le dist (o.speed * Scalar.lit 0.1)
        then { o with position := nextPosition, path := o.path.dropLast } else o
      -- the step is added also when the waypoint has just been reached
      let nx := toTarget.x / dist
      let ny := toTarget.y / dist
      let position : Vector3 F :=
        ⟨o.position.x + nx * o.speed * Scalar.lit 0.1, o.position.y + ny * o.speed * Scalar.lit 0.1,
          o.position.z⟩
      let o := updateBounds { o with position := position }
      let packet ← (ServerMessage.sMove (CInt.uint32 o.id) o.currentState.toInt o.position).frame
      return (o, some packet)

/-- `move`, which `Bullet` overrides. -/
def move (o : GameObject F) : Except Crash (GameObject F × Option (ServerMessage F)) := do
  let (o, sendBuffer) ← o.baseMove
  match o.kind with
  | .bullet shooter lifeTick =>
      let sendBuffer := if lifeTick.tmod 20 ≠ 0 then none else sendBuffer
      let o := { o with kind := .bullet shooter (lifeTick - 1) }
      return (if lifeTick - 1 ≤ 0 then o.setDead else o, sendBuffer)
  | _ => return (o, sendBuffer)

/-- `spawn`, at the time `now`. A bullet starts to fly first. -/
def spawn (o : GameObject F) (now : Int) : Except Crash (GameObject F × ServerMessage F) := do
  let o := match o.kind with
    | .bullet _ _ => { o with currentState := .move }
    | _ => o
  let o := { o with spawnTime := now }
  let packet ← (ServerMessage.sObjectSpawn
    { type := o.objectCode.toInt, objectId := CInt.uint32 o.id, playerId := o.ownerId,
      position := o.position, direction := o.direction, hp := o.hp } o.spawnTime).frame
  return (o, packet)

/-- `dead`, which sends the object's code in the place of its state. -/
def dead (o : GameObject F) : Except Crash (ServerMessage F) :=
  (ServerMessage.sObjectDead (CInt.uint32 o.id) o.objectCode.toInt).frame

/-- `Bullet::IsShooter`. -/
def isShooter (o : GameObject F) (other : ObjRef) : Bool :=
  match o.kind with
  | .bullet shooter _ => shooter == some other
  | _ => false

end GameObject

end

end StarCraftIocp
