import StarCraftIocp.GameServer.Room

/-!
# A room as a system of its own

What can happen to a room's objects, one thing after the other: objects come and
go, the room gets its map, jobs are queued and run, the game starts and ticks. Who sends what over the
network is left out, and a crash ends the run.
-/

namespace StarCraftIocp

variable {F : Type} [Scalar F]

inductive RoomEvent (F : Type) where
  | objectAdd (objectCode : GameObjectCode) (position direction : Vector3 F) (shooter : Option ObjRef)
      (owner : Int) (broad : Bool)
  | addPlayer
  | objectRemove (object : ObjRef)
  | setMap (map : Option MapSectionData)
  | pushJob (job : Job F)
  | processJob
  | startGame
  | update

namespace Room

/-- `ObjectRemove` is called with objects the room has made. -/
def Enabled (room : Room F) : RoomEvent F → Prop
  | .objectRemove object => object < room.nextRef
  | _ => True

instance (room : Room F) : (e : RoomEvent F) → Decidable (room.Enabled e)
  | .objectRemove object => inferInstanceAs (Decidable (object < room.nextRef))
  | .objectAdd .. => inferInstanceAs (Decidable True)
  | .addPlayer => inferInstanceAs (Decidable True)
  | .setMap _ => inferInstanceAs (Decidable True)
  | .pushJob _ => inferInstanceAs (Decidable True)
  | .processJob => inferInstanceAs (Decidable True)
  | .startGame => inferInstanceAs (Decidable True)
  | .update => inferInstanceAs (Decidable True)

def exec (env : Env F) (room : Room F) : RoomEvent F → Except Crash (Room F)
  | .objectAdd objectCode position direction shooter owner broad =>
      Prod.snd <$> room.objectAdd env objectCode position direction shooter owner broad
  | .addPlayer => .ok room.addPlayer.2
  | .objectRemove object => room.objectRemove (some object)
  -- a handler sets the member
  | .setMap map => .ok { room with mapSectionData := map }
  | .pushJob job => .ok (room.pushJob job)
  | .processJob => room.processJob env
  | .startGame => room.startGame env
  | .update => room.update env

def next (room : Room F) (a : Env F × RoomEvent F) : Option (Room F) :=
  if room.Enabled a.2 then (room.exec a.1 a.2).toOption else none

end Room

/-- Exact numbers, and a path search that finds nothing: enough to run a room on. -/
def Env.still : Env ℚ where
  now := 0
  elapsed := 0
  aStar := fun _ _ _ _ _ => none
  shuffled := [0, 1, 2, 3]
  uninit :=
    { attackRange := 0, attackCooldown := 0, lastAttackTime := 0, ad := 0, ranged := false,
      directTarget := none }
  shuffled_perm := .refl _

/-- A flat map with four places to start from. -/
def MapSectionData.fourPlaces : MapSectionData where
  mapWidth := 60
  mapHeight := 60
  height := []
  playerPos := [⟨0, 10, 10⟩, ⟨1, 50, 10⟩, ⟨2, 10, 50⟩, ⟨3, 50, 50⟩]

end StarCraftIocp
