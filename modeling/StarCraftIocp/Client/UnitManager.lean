import StarCraftIocp.GameServer.Protocol
import StarCraftIocp.Lib.Table

/-!
# The client's units

`PacketManager.Process`, as far as it has to do with units, the `spawnQueue` of
`ServerConnect`, and `UnitManager`. A spawn is put in the queue and carried out by the
next `Update`; everything else is done at once. An exception ends what is being done,
and the client goes on with the next frame.
-/

namespace StarCraftIocp

open Protocol

/-- The script of a prefab. -/
inductive UnitScript where
  | unit
  | playerUnit
  | bulletUnit
  deriving Repr, DecidableEq

/-- `Unit`, with `position` for that of its transform. -/
structure ClientUnit (F : Type) where
  script : UnitScript
  unitId : Int
  owerId : Int
  spawnPos : Vector3 F
  direction : Vector3 F
  health : F
  currentstate : Int
  spawnTime : Int
  position : Vector3 F

/-- A call of `SpawnUnit` in the queue. -/
structure SpawnCall (F : Type) where
  code : Int
  unitId : Int
  owner : Int
  position : Vector3 F
  spawnTime : Int

inductive ClientException where
  /-- `units[..]` has no such key. -/
  | keyNotFound
  /-- `units.Add` has the key already. -/
  | argument
  deriving Repr, DecidableEq

structure UnitManager (F : Type) where
  /-- The script of the prefab for a code, if there is one. -/
  prefabMap : Int → Option UnitScript
  units : Std.ExtTreeMap Int (ClientUnit F)
  spawnQueue : List (SpawnCall F)
  /-- What has been thrown so far. -/
  exceptions : List ClientException

/-- `Protocol.GameObjectState.Dead`. -/
def protocolDead : Int := 3

variable {F : Type} [Scalar F]

namespace ClientUnit

/-- `Instantiate`, then `Init`; a rotated zero vector is zero. -/
def init (script : UnitScript) (call : SpawnCall F) : ClientUnit F where
  script := script
  unitId := call.unitId
  owerId := call.owner
  spawnPos := call.position
  direction := ⟨Scalar.lit 0, Scalar.lit 0, Scalar.lit 0⟩
  health := Scalar.lit 0
  currentstate := 0
  spawnTime := call.spawnTime
  position := call.position

/-- `Vector3.Lerp(a, b, 0.3f)`. -/
def lerp (a b : Vector3 F) : Vector3 F :=
  ⟨a.x + (b.x - a.x) * Scalar.lit 0.3, a.y + (b.y - a.y) * Scalar.lit 0.3, a.z + (b.z - a.z) * Scalar.lit 0.3⟩

/-- `Move`, which `BulletUnit` overrides. -/
def move (u : ClientUnit F) (serverNow state : Int) (position : Vector3 F) : ClientUnit F :=
  let u := { u with position := lerp u.position position, currentstate := state }
  match u.script with
  | .bulletUnit => { u with spawnPos := position, spawnTime := serverNow }
  | _ => u

/-- `SetHp`, which `PlayerUnit` overrides. -/
def setHp (u : ClientUnit F) (hp : F) : ClientUnit F :=
  match u.script with
  | .playerUnit =>
      { u with health :=
        if Scalar.lt hp (Scalar.lit 0) then Scalar.lit 0
        else if Scalar.lt (Scalar.lit 100) hp then Scalar.lit 100
        else hp }
  | _ => { u with health := hp }

end ClientUnit

namespace UnitManager

def new (prefabMap : Int → Option UnitScript) : UnitManager F where
  prefabMap := prefabMap
  units := ∅
  spawnQueue := []
  exceptions := []

def throw (m : UnitManager F) (e : ClientException) : UnitManager F :=
  { m with exceptions := m.exceptions ++ [e] }

/-- `SpawnUnit`; without a prefab there is no unit. -/
def spawnUnit (m : UnitManager F) (call : SpawnCall F) : Except ClientException (UnitManager F) :=
  match m.prefabMap call.code with
  | none => .ok m
  | some script =>
      if call.unitId ∈ m.units then .error .argument
      else .ok { m with units := m.units.insert call.unitId (.init script call) }

/-- The loop of `Update` over the queue, which `calls` is. -/
def drain (m : UnitManager F) : List (SpawnCall F) → UnitManager F
  | [] => { m with spawnQueue := [] }
  | call :: calls =>
      match m.spawnUnit call with
      | .error e => { m with spawnQueue := calls }.throw e
      | .ok m => m.drain calls

/-- `Update`. -/
def update (m : UnitManager F) : UnitManager F := m.drain m.spawnQueue

/-- `RemoveUnit`. -/
def removeUnit (m : UnitManager F) (objectId : Int) : UnitManager F :=
  if objectId ∈ m.units then { m with units := m.units.erase objectId } else m.throw .keyNotFound

/-- `Process`, at the server time `serverNow`. -/
def process (m : UnitManager F) (serverNow : Int) : ServerMessage F → UnitManager F
  | .sMove objectId state position =>
      match m.units[objectId]? with
      | some u => { m with units := m.units.insert objectId (u.move serverNow state position) }
      | none => m
  | .sObjectSpawn data spawnTime =>
      { m with spawnQueue := m.spawnQueue ++
        [{ code := data.type, unitId := data.objectId, owner := data.playerId, position := data.position,
           spawnTime := spawnTime }] }
  | .sObjectDead objectId state => if state = protocolDead then m.removeUnit objectId else m
  | .sObjectDamage objectId hp =>
      match m.units[objectId]? with
      | some u => { m with units := m.units.insert objectId (u.setHp hp) }
      | none => m.throw .keyNotFound
  | _ => m

end UnitManager

end StarCraftIocp
