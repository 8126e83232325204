import StarCraftIocp.Client.UnitManager
import StarCraftIocp.GameServer.RoomRun

/-!
# A room and the client of one of its members

The room takes its steps, and the client receives what the room has sent to its session,
in order. Objects come by `ObjectAdd`, by a job or at the start of the game, and are
killed by `SetDead`.
-/

namespace StarCraftIocp

open Protocol

variable {F : Type} [Scalar F]

structure Replica (F : Type) where
  room : Room F
  /-- How many of the messages for its session the client has processed. -/
  received : Nat
  client : UnitManager F

inductive ReplicaEvent (F : Type) where
  | room (env : Env F) (event : RoomEvent F)
  | setDead (object : ObjRef)
  /-- The client processes the next message. -/
  | receive (serverNow : Int)
  /-- `UnitManager.Update`. -/
  | update

/-- The messages for a session. -/
def Room.heard (session : SessionRef) (room : Room F) : List (ServerMessage F) :=
  (room.sent.filter fun p => p.1 = session).map Prod.snd

/-- A kind that `g_spawners` has an entry for. -/
def GameObjectCode.HasSpawner (code : GameObjectCode) : Prop :=
  0 ≤ code.toInt ∧ ∃ spawner, gSpawners[code.toInt.toNat]? = some (some spawner)

instance (code : GameObjectCode) : Decidable code.HasSpawner :=
  decidable_of_iff (0 ≤ code.toInt ∧ (gSpawners[code.toInt.toNat]?.join).isSome = true) (by
    rw [Option.isSome_iff_exists]
    simp only [GameObjectCode.HasSpawner, Option.join_eq_some_iff])

/-- Jobs that are made: an order to an object, or a new object of a kind that has a spawner. -/
def Job.Made (job : Job F) : Prop :=
  if job.state = .spawn then job.objectId = -1 ∧ job.objectCode.HasSpawner else job.state ≠ .mining

/-- Objects of a kind that has a spawner are added, and broadcast; there are no players and no bullets. -/
def RoomEvent.Allowed : RoomEvent F → Prop
  | .objectAdd objectCode _ _ _ _ broad => objectCode.HasSpawner ∧ broad = true
  | .pushJob job => job.Made
  | .addPlayer | .objectRemove _ => False
  | .setMap _ | .processJob | .startGame | .update => True

instance (job : Job F) : Decidable job.Made := by
  unfold Job.Made
  infer_instance

instance : (event : RoomEvent F) → Decidable event.Allowed
  | .objectAdd .. => inferInstanceAs (Decidable (_ ∧ _))
  | .pushJob job => inferInstanceAs (Decidable job.Made)
  | .addPlayer | .objectRemove _ => inferInstanceAs (Decidable False)
  | .setMap _ | .processJob | .startGame | .update => inferInstanceAs (Decidable True)

/-- The `int` that counts ids does not overflow. -/
def Room.Counts (room : Room F) : RoomEvent F → Prop
  | .objectAdd .. | .addPlayer => room.idCount < CInt.intMax
  | .startGame => room.idCount + 4 * room.indexPlayers.ingamePlayerIndex.toList.length ≤ CInt.intMax
  | .processJob | .update => room.idCount + room.jobQueue.length ≤ CInt.intMax
  | .objectRemove _ | .setMap _ | .pushJob _ => True

instance (room : Room F) : (event : RoomEvent F) → Decidable (room.Counts event)
  | .objectAdd .. | .addPlayer => inferInstanceAs (Decidable (_ < _))
  | .startGame | .processJob | .update => inferInstanceAs (Decidable (_ ≤ _))
  | .objectRemove _ | .setMap _ | .pushJob _ => inferInstanceAs (Decidable True)

/-- The jobs that are run next. -/
def Room.dueJobs (room : Room F) : RoomEvent F → List (Job F)
  | .processJob | .update => room.jobQueue
  | _ => []

namespace Replica

def next (session : SessionRef) (s : Replica F) : ReplicaEvent F → Option (Replica F)
  | .room env event => (s.room.next (env, event)).map fun room => { s with room := room }
  | .setDead object =>
      if object < s.room.nextRef then
        some { s with room := s.room.setObject object (s.room.heap object).setDead }
      else none
  | .receive serverNow =>
      (s.room.heard session)[s.received]?.map fun msg =>
        { s with received := s.received + 1, client := s.client.process serverNow msg }
  | .update => some { s with client := s.client.update }

/-- The client has processed all messages, and emptied its queue. -/
def Settled (session : SessionRef) (s : Replica F) : Prop :=
  s.received = (s.room.heard session).length ∧ s.client.spawnQueue.isEmpty = true

instance (session : SessionRef) (s : Replica F) : Decidable (s.Settled session) :=
  inferInstanceAs (Decidable (_ ∧ _))

/-- Once all is done the units are those of the room, and no lookup has failed. -/
def Mirrors (session : SessionRef) (s : Replica F) : Prop :=
  (s.Settled session → ∀ id : Int, id ∈ s.client.units ↔ id ∈ s.room.objects) ∧
    ClientException.keyNotFound ∉ s.client.exceptions

/-- Objects come and die, and their ids do not run out. -/
def Played (s : Replica F) : ReplicaEvent F → Prop
  | .room _ event => event.Allowed ∧ s.room.Counts event
  | .setDead _ | .receive _ | .update => True

/-- Of the jobs that are made only orders are run, and no `DEAD` or `SPAWN` job. -/
def Kept (s : Replica F) (e : ReplicaEvent F) : Prop :=
  s.Played e ∧
    match e with
    | .room _ event => ∀ job ∈ s.room.dueJobs event, job.state = .idle ∨ job.state = .move ∨
      job.state = .attack
    | .setDead _ | .receive _ | .update => True

instance (s : Replica F) : (e : ReplicaEvent F) → Decidable (s.Played e)
  | .room _ _ => inferInstanceAs (Decidable (_ ∧ _))
  | .setDead _ | .receive _ | .update => inferInstanceAs (Decidable True)

instance (s : Replica F) : (e : ReplicaEvent F) → Decidable (s.Kept e)
  | .room env event =>
      inferInstanceAs (Decidable (s.Played (.room env event) ∧ ∀ job ∈ s.room.dueJobs event, _))
  | .setDead object => inferInstanceAs (Decidable (s.Played (.setDead object) ∧ True))
  | .receive serverNow => inferInstanceAs (Decidable (s.Played (.receive serverNow) ∧ True))
  | .update => inferInstanceAs (Decidable (s.Played .update ∧ True))

/-- A room that the session has just entered, and a client without units. -/
def init (roomId hostId : Int) (gameName gamePassWord mapHash : List UInt8) (session : SessionRef)
    (playerName : Int)
    (prefabMap : Int → Option UnitScript) : Replica F where
  room := (Room.new roomId hostId gameName gamePassWord mapHash).add session playerName
  received := 0
  client := .new prefabMap

end Replica

end StarCraftIocp
