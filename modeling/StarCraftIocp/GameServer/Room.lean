import StarCraftIocp.GameServer.Grid
import StarCraftIocp.Lib.Outcome

/-!
# Rooms

A room owns its objects: `heap` is where they are, `objects` the table of those
in the game. A null entry of that table is `none`, and `operator[]` leaves one
behind where there was no entry. What a room sends to sessions is logged in
`sent`.
-/

namespace StarCraftIocp

open Protocol

/-- A `GameSessionRef`. -/
abbrev SessionRef : Type := Nat

/-- What a step of the server reads from its environment. -/
structure Env (F : Type) where
  /-- The clock, in milliseconds. -/
  now : Int
  /-- What `GetNowMs() - startTime` gives at the end of `Room::Update`. -/
  elapsed : Int
  /-- The path search. -/
  aStar : AStar
  /-- `v` after `shuffle`. -/
  shuffled : List Nat
  /-- The members `Unit` leaves uninitialised. -/
  uninit : UnitData F
  shuffled_perm : shuffled.Perm [0, 1, 2, 3]

structure Job (F : Type) where
  objectId : Int
  position : Vector3 F
  direction : Vector3 F
  target : Vector3 F
  state : GameObjectState
  objectCode : GameObjectCode
  shooter : Option ObjRef

structure Room (F : Type) where
  roomId : Int
  hostId : Int
  gameName : List UInt8
  gamePassWord : List UInt8
  mapHash : List UInt8
  idCount : Int
  idList : Std.ExtTreeSet Int
  playerCount : Int
  currentRoomTime : Int
  sessions : Std.ExtTreeSet SessionRef
  sessionPlayers : Std.ExtTreeMap SessionRef Int
  ingamePlayerIndex : Std.ExtTreeMap SessionRef Int
  objects : Std.ExtTreeMap Int (Option ObjRef)
  jobQueue : List (Job F)
  grid : GridManager F
  mapSectionData : Option MapSectionData
  heap : ObjRef → GameObject F
  /-- The first free place in the heap. -/
  nextRef : ObjRef
  /-- Everything the room has sent so far. -/
  sent : List (SessionRef × ServerMessage F)

/-- The entries of `g_spawners` that are not empty. -/
inductive Spawner where
  | mineral
  | gas
  | protossProbe
  deriving Repr, DecidableEq

/-- `g_spawners`, indexed by `GameObjectCode`. -/
def gSpawners : List (Option Spawner) :=
  [none, none, none, none, some .mineral, some .gas, some .protossProbe] ++ List.replicate 30 none

/-- `idCount++` as long as `idCount` is taken. -/
def skipTaken (idList : Std.ExtTreeSet Int) : Nat → Int → Int
  | 0, idCount => idCount
  | fuel + 1, idCount => if idCount ∈ idList then skipTaken idList fuel (idCount + 1) else idCount

section

variable {F : Type} [Scalar F]

namespace Job

/-- `Job(objectId, position, target, state)`. -/
def ofObject (objectId : Int) (position target : Vector3 F) (state : GameObjectState) : Job F where
  objectId := objectId
  position := position
  direction := Vector3.zero
  target := target
  state := state
  objectCode := .none
  shooter := none

/-- `Job(objectCode, position, direction, shooter, state)`. -/
def ofShooter (objectCode : GameObjectCode) (position direction : Vector3 F) (shooter : ObjRef)
    (state : GameObjectState) : Job F where
  objectId := -1
  position := position
  direction := direction
  target := Vector3.zero
  state := state
  objectCode := objectCode
  shooter := some shooter

end Job

/-- Calls an entry of `g_spawners`. -/
def Spawner.spawn (env : Env F) (id : Int) (pos : Vector3 F) : Spawner → GameObject F
  | .mineral => GameObject.mineral id pos
  | .gas => GameObject.gas id pos
  | .protossProbe => GameObject.protossProbe env.uninit id pos

namespace Room

/-- The constructor. -/
def new (roomId hostId : Int) (gameName gamePassWord mapHash : List UInt8) : Room F where
  roomId := roomId
  hostId := hostId
  gameName := gameName
  gamePassWord := gamePassWord
  mapHash := mapHash
  idCount := 0
  idList := ∅
  playerCount := 0
  currentRoomTime := 0
  sessions := ∅
  sessionPlayers := ∅
  ingamePlayerIndex := ∅
  objects := ∅
  jobQueue := []
  grid := GridManager.new (Scalar.lit 60) (Scalar.lit 60) 3 3
  mapSectionData := none
  heap := fun _ => GameObject.mineral 0 Vector3.zero
  nextRef := 0
  sent := []

/-! ## Members -/

/-- `Add`; `playerName` is the session's, whose `currentRoom` the caller sets. -/
def add (room : Room F) (session : SessionRef) (playerName : Int) : Room F :=
  { room with
    sessions := room.sessions.insert session
    playerCount := room.playerCount + 1
    sessionPlayers := room.sessionPlayers.insert session playerName }

/-- `RemoveGameSession`. -/
def removeGameSession (room : Room F) (session : SessionRef) : Room F :=
  if session ∈ room.sessions then
    let room := { room with sessions := room.sessions.erase session }
    if session ∈ room.sessionPlayers then
      { room with
        sessionPlayers := room.sessionPlayers.erase session
        playerCount := room.playerCount - 1 }
    else room
  else room

/-- `deleteRoom`, once the session is out: nobody is left, or the host has gone. -/
def deleteRoom (room : Room F) (playerName : Int) : Bool :=
  room.playerCount == 0 || playerName == room.hostId

/-- The locked section of `Remove`, with `playersInfo` and `deleteRoom`. -/
def removeLocked (room : Room F) (session : SessionRef) (playerName : Int) :
    Room F × List SessionRef × Bool :=
  let room := room.removeGameSession session
  let playersInfo := room.sessions.toList
  if room.deleteRoom playerName then
    ({ room with sessions := ∅, sessionPlayers := ∅, playerCount := 0 }, playersInfo, true)
  else (room, playersInfo, false)

/-! ## Sending -/

def send (room : Room F) (session : SessionRef) (msg : ServerMessage F) : Room F :=
  { room with sent := room.sent ++ [(session, msg)] }

/-- `Broadcast`. -/
def broadcast (room : Room F) (msg : ServerMessage F) : Room F :=
  { room with sent := room.sent ++ room.sessions.toList.map fun session => (session, msg) }

/-! ## Objects -/

def setObject (room : Room F) (object : ObjRef) (o : GameObject F) : Room F :=
  { room with heap := Function.update room.heap object o }

/-- `objects[id]`. -/
def indexObject (room : Room F) (id : Int) : Option ObjRef × Room F :=
  (room.objects.getD id none,
    if id ∈ room.objects then room else { room with objects := room.objects.insert id none })

/-- A place in the heap for a new object. -/
def alloc (room : Room F) (o : GameObject F) : ObjRef × Room F :=
  (room.nextRef, { room.setObject room.nextRef o with nextRef := room.nextRef + 1 })

/-- `while (idList.find(idCount) != idList.end()) idCount++`. -/
def nextId (room : Room F) : Room F :=
  { room with idCount := skipTaken room.idList room.idList.size room.idCount }

/-- `grid->AddObject(object)`. -/
def gridAdd (room : Room F) (object : ObjRef) : Room F :=
  let o := room.heap object
  { room with grid := room.grid.addObject object o.id o.bounds }

/-- `grid->RemoveObject(object)`. -/
def gridRemove (room : Room F) (object : ObjRef) : Room F :=
  let o := room.heap object
  { room with grid := room.grid.removeObject o.id o.bounds }

/-- A new object, entered in the table under `idCount`. -/
def enter (room : Room F) (o : GameObject F) : ObjRef × Room F :=
  let (object, room) := room.alloc o
  (object, { room with
    objects := room.objects.insert room.idCount (some object)
    idList := room.idList.insert room.idCount })

/-- `AddPlayer`. -/
def addPlayer (room : Room F) : ObjRef × Room F :=
  let position : Vector3 F := ⟨Scalar.lit 30, Scalar.lit 30, Scalar.lit 0⟩
  let (object, room) := room.enter (GameObject.player room.idCount position).updateBounds
  (object, room.nextId.gridAdd object)

/-- `Broadcast(object->spawn())`. -/
def broadcastSpawn (env : Env F) (room : Room F) (object : ObjRef) : Except Crash (Room F) := do
  let (o, packet) ← (room.heap object).spawn env.now
  return (room.setObject object o).broadcast packet

/-- `ObjectAdd`. It does not look at `direction` and `shooter`. -/
def objectAdd (room : Room F) (env : Env F) (objectCode : GameObjectCode)
    (position _direction : Vector3 F) (_shooter : Option ObjRef) (owner : Int) (broad : Bool) :
    Except Crash (ObjRef × Room F) :=
  if objectCode.toInt < 0 then .error .spawnerIndex
  else
    match gSpawners[objectCode.toInt.toNat]? with
    | none => .error .spawnerIndex
    | some none => .error .emptySpawner
    | some (some spawner) =>
        let o := { spawner.spawn env room.idCount position with ownerId := owner }
        let (object, room) := room.enter o
        do
          let room ← (if broad then room.broadcastSpawn env object else .ok room)
          return (object, room.nextId)

/-- `ObjectRemove`. -/
def objectRemove (room : Room F) (object : Option ObjRef) : Except Crash (Room F) :=
  match object with
  | none => .error .nullObject
  | some object =>
      let objectId := (room.heap object).id
      let room := { room with
        idList := room.idList.erase objectId
        objects := room.objects.erase objectId }
      .ok (room.gridRemove object)

/-- The loop of `RoomManager::RemoveRoom` over `objectsToRemove`. -/
def removeObjects (room : Room F) : Except Crash (Room F) :=
  (room.objects.toList.map Prod.snd).foldlM objectRemove room

/-! ## Jobs -/

/-- `object->SetMove(job->GetState(), job->GetPosition(), job->GetTarget())`. -/
def jobSetMove (env : Env F) (room : Room F) (job : Job F) (object : Option ObjRef) :
    Except Crash (Room F) :=
  match object with
  | none => .error .nullObject
  | some object => do
      let o ← (room.heap object).setMove env.aStar room.mapSectionData job.state job.position
        job.target
      return room.setObject object o

/-- A pass through the loop of `ProcessJob`. -/
def runJob (env : Env F) (room : Room F) (job : Job F) : Except Crash (Room F) :=
  let (object, room) := room.indexObject job.objectId
  let object := if job.objectId = -1 then none else object
  match job.state with
  | .idle => room.jobSetMove env job object
  | .move => room.jobSetMove env job object
  | .attack =>
      match object with
      | none => .error .nullObject
      | some object => .ok (room.setObject object (room.heap object).setAttack)
  | .dead =>
      match object with
      | none => .error .nullObject
      | some object => (room.gridRemove object).objectRemove (some object)
  | .spawn => do
      let (object, room) ← room.objectAdd env job.objectCode job.position job.direction job.shooter
        (-1) true
      return room.gridAdd object
  | .mining => .ok room

/-- `ProcessJob`. No job queues another one, so that the loop ends with the queue it found. -/
def processJob (env : Env F) (room : Room F) : Except Crash (Room F) :=
  room.jobQueue.foldlM (runJob env) { room with jobQueue := [] }

def pushJob (room : Room F) (job : Job F) : Room F := { room with jobQueue := room.jobQueue ++ [job] }

/-! ## The tick -/

/-- `TakeDamage`. -/
def takeDamage (room : Room F) (object : ObjRef) (damage : F) : Except Crash (Room F) := do
  let o := room.heap object
  let o := { o with hp := o.hp - damage }
  let packet ← (ServerMessage.sObjectDamage (CInt.uint32 o.id) o.hp).frame
  return (room.setObject object o).broadcast packet

/-- `attack`, which only `Unit` overrides. -/
def attack (room : Room F) (object : ObjRef) : Except Crash (Room F) :=
  let o := room.heap object
  match o.kind with
  | .unit u =>
      if Scalar.le (Scalar.ofInt room.currentRoomTime) (Scalar.ofInt u.lastAttackTime + u.attackCooldown)
      then .ok room
      else
        match u.directTarget with
        | none => .error .nullObject
        | some target =>
            -- a ranged unit measures the distance, and does nothing with it
            if u.ranged then .ok room
            else if o.bounds.collider (room.heap target).bounds then
              let u := { u with lastAttackTime := room.currentRoomTime }
              (room.setObject object { o with kind := .unit u }).takeDamage target u.ad
            else .ok room
  | _ => .ok room

/-- `GameObject::Update`, with the packet it returns. -/
def updateObject (env : Env F) (room : Room F) (object : ObjRef) :
    Except Crash (Option (ServerMessage F) × Room F) :=
  let o := room.heap object
  match o.currentState with
  | .move => do
      let (o, packet) ← o.move
      return (packet, room.setObject object o)
  | .attack => do
      let room ← room.attack object
      return (none, room)
  | .dead => do
      let packet ← o.dead
      return (some packet, room.pushJob (Job.ofObject o.id Vector3.zero Vector3.zero .dead))
  | .spawn => do
      let (o, packet) ← o.spawn env.now
      return (some packet, room.setObject object o)
  | .idle => .ok (none, room)
  | .mining => .ok (none, room)

/-- `Update`, the loop over the objects: one entry of the table. -/
def updateEntry (env : Env F) (room : Room F) (entry : Int × Option ObjRef) :
    Except Crash (Room F) :=
  if entry.1 = -1 then .ok room
  else
    match entry.2 with
    | none => .error .nullObject
    | some object => do
        let (sendBuffer, room) ← room.updateObject env object
        -- `MoveObject(object, object->bounds)`: the old bounds are gone already
        let o := room.heap object
        let room := { room with grid := room.grid.moveObject object o.id o.bounds o.bounds }
        match sendBuffer with
        | some packet => return room.broadcast packet
        | none => return room

/-- The effect of a bullet on a player it overlaps. -/
def hit (room : Room F) (bullet player : ObjRef) : Except Crash (Room F) :=
  if (room.heap bullet).isShooter player then .ok room
  else do
    let room ← room.takeDamage player (room.heap bullet).damage
    return room.setObject bullet (room.heap bullet).setDead

/-- `HandleCollisions`: one pair. -/
def handleCollision (room : Room F) (pair : ObjRef × ObjRef) : Except Crash (Room F) :=
  let a := (room.heap pair.1).objectCode
  let b := (room.heap pair.2).objectCode
  if a = .bullet ∧ b = .player then room.hit pair.1 pair.2
  else if a = .player ∧ b = .bullet then room.hit pair.2 pair.1
  else .ok room

/-- `HandleCollisions`. -/
def handleCollisions (room : Room F) : Except Crash (Room F) :=
  (room.grid.findAllColliders room.heap).foldlM handleCollision room

/-- `Update`. -/
def update (env : Env F) (room : Room F) : Except Crash (Room F) := do
  let room ← room.processJob env
  let room ← room.objects.toList.foldlM (updateEntry env) room
  let room ← room.handleCollisions
  return { room with currentRoomTime := room.currentRoomTime + env.elapsed }

/-! ## The start of a game -/

/-- `StartGame`, the first block: every member gets an index. -/
def indexPlayers (room : Room F) : Room F :=
  let players := room.sessionPlayers.toList.zipIdx
  { room with
    ingamePlayerIndex :=
      players.foldl (fun ingame p => ingame.insert p.1.1 (p.2 : Int)) room.ingamePlayerIndex }

/-- `StartGame`, the second block: one player. -/
def placePlayer (env : Env F) (room : Room F) (p : SessionRef × Int) : Except Crash (Room F) :=
  match room.mapSectionData with
  | none => .error .nullMap
  | some map =>
      -- `v[p.second]`, then `playerPos[..]`; an index is never negative
      match env.shuffled[p.2.toNat]?.bind fun v => map.playerPos[v]? with
      | none => .error .vectorIndex
      | some spos => do
          let room ← ([-1, 0, 1, 2] : List Int).foldlM (fun room i => do
            let (_, room) ← room.objectAdd env .probe
              ⟨Scalar.ofInt spos.x + Scalar.ofInt i, Scalar.ofInt spos.y - Scalar.lit 2, Scalar.lit 0⟩
              Vector3.zero none p.2 true
            return room) room
          let packet ← (ServerMessage.sGameStart
            ⟨Scalar.ofInt spos.x, Scalar.ofInt spos.y, Scalar.lit 0⟩ p.2).frame
          return room.send p.1 packet

/-- `StartGame`. -/
def startGame (env : Env F) (room : Room F) : Except Crash (Room F) :=
  let room := room.indexPlayers
  room.ingamePlayerIndex.toList.foldlM (placePlayer env) room

end Room

end

end StarCraftIocp
