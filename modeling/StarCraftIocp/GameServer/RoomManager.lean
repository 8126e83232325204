import StarCraftIocp.GameServer.Room

/-!
# The room manager and the sessions

The state all threads share: the `RoomManager`, the rooms and the sessions its
references lead to, the maps that have been loaded. `Room::Add` and
`Room::Remove` are here, since they change sessions and the manager as well as
the room.
-/

namespace StarCraftIocp

open Protocol CInt

/-- A `RoomRef` that is not null. -/
abbrev RoomRef : Type := Nat

/-- `playerIdList` and `rooms` are hash tables and sets; the model keeps them in key order. -/
structure RoomManager where
  rooms : Std.ExtTreeMap Int (Option RoomRef)
  playerIdList : Std.ExtTreeSet Int
  roomIdCount : Int

structure GameSession where
  currentRoom : Int
  playerName : Int
  connected : Bool
  deriving Repr, DecidableEq

structure World (F : Type) where
  roomManager : RoomManager
  room : RoomRef → Room F
  /-- The number of rooms ever made. -/
  nextRoom : RoomRef
  session : SessionRef → GameSession
  /-- The number of sessions ever connected. -/
  nextSession : SessionRef
  /-- `GSessionManager`. -/
  gSessions : Std.ExtTreeSet SessionRef
  /-- `MapMaker::hashToMap`; an unknown hash has a null entry, or will have one once it is read. -/
  hashToMap : List UInt8 → Option MapSectionData
  /-- What handlers and `Room::Remove` have sent so far. -/
  sent : List (SessionRef × ServerMessage F)

namespace RoomManager

def init : RoomManager := { rooms := ∅, playerIdList := ∅, roomIdCount := 0 }

/-- `AddRoom`: the key is the counter's value now, whatever it was when the room was made. -/
def addRoom (m : RoomManager) (room : RoomRef) : RoomManager :=
  { m with
    rooms := m.rooms.insert m.roomIdCount (some room)
    roomIdCount := int32 (m.roomIdCount + 1) }

/-- `GetRoom`. -/
def getRoom (m : RoomManager) (id : Int) : Option RoomRef := m.rooms.getD id none

/-- `rooms[id]`. -/
def indexRoom (m : RoomManager) (id : Int) : Option RoomRef × RoomManager :=
  (m.rooms.getD id none,
    if id ∈ m.rooms then m else { m with rooms := m.rooms.insert id none })

end RoomManager

section

variable {F : Type} [Scalar F]

namespace World

def init (hashToMap : List UInt8 → Option MapSectionData) : World F where
  roomManager := RoomManager.init
  room := fun _ => Room.new 0 0 [] [] []
  nextRoom := 0
  session := fun _ => { currentRoom := intMax, playerName := 0, connected := false }
  nextSession := 0
  gSessions := ∅
  hashToMap := hashToMap
  sent := []

def getRoom (w : World F) (id : Int) : Option RoomRef := w.roomManager.getRoom id

def setRoom (w : World F) (r : RoomRef) (room : Room F) : World F :=
  { w with room := Function.update w.room r room }

def setSession (w : World F) (s : SessionRef) (session : GameSession) : World F :=
  { w with session := Function.update w.session s session }

/-- `SetRoomId`. -/
def setRoomId (w : World F) (s : SessionRef) (id : Int) : World F :=
  w.setSession s { w.session s with currentRoom := id }

/-- `MakeSendBuffer`, then `Send`. -/
def reply (w : World F) (s : SessionRef) (msg : ServerMessage F) : Except Crash (World F) := do
  let packet ← msg.frame
  return { w with sent := w.sent ++ [(s, packet)] }

/-- `MakeShared<Room>`. -/
def makeRoom (w : World F) (room : Room F) : RoomRef × World F :=
  (w.nextRoom, { w.setRoom w.nextRoom room with nextRoom := w.nextRoom + 1 })

/-- `AddRoom`. -/
def addRoom (w : World F) (r : RoomRef) : World F :=
  { w with roomManager := w.roomManager.addRoom r }

/-- `Room::Add`. -/
def roomAdd (w : World F) (r : RoomRef) (s : SessionRef) : World F :=
  (w.setRoom r ((w.room r).add s (w.session s).playerName)).setRoomId s (w.room r).roomId

/-- `RemoveRoom`. -/
def removeRoom (w : World F) (r : RoomRef) : Except Crash (World F) := do
  let room ← (w.room r).removeObjects
  let rooms := w.roomManager.rooms.erase room.roomId
  return { w.setRoom r room with roomManager := { w.roomManager with rooms := rooms } }

/-- The locked section of `Room::Remove`. -/
def removeLocked (w : World F) (r : RoomRef) (s : SessionRef) :
    List SessionRef × Bool × World F :=
  let (room, playersInfo, deleteRoom) := (w.room r).removeLocked s (w.session s).playerName
  (playersInfo, deleteRoom, w.setRoom r room)

/-- `Room::Remove`, the notification of one player of a room that is closed. -/
def notifyExit (w : World F) (packet : ServerMessage F) (player : SessionRef) : World F :=
  let w := w.setRoomId player intMax
  { w with sent := w.sent ++ [(player, packet)] }

/-- `Room::Remove`, the packet for the players of a room that stays. -/
def lobbyPlayerInfo (w : World F) (playersInfo : List SessionRef) : Except Crash (World F) := do
  let packet ← (ServerMessage.sLobbyPlayerInfo
    (playersInfo.map fun player => (w.session player).playerName)).frame
  return { w with sent := w.sent ++ playersInfo.map fun recver => (recver, packet) }

/-- `Room::Remove`. -/
def roomRemove (w : World F) (r : RoomRef) (s : SessionRef) : Except Crash (World F) := do
  let (playersInfo, deleteRoom, w) := w.removeLocked r s
  if deleteRoom then
    let packet ← (ServerMessage.sRoomExit .adminExit).frame
    removeRoom (playersInfo.foldl (fun w player => w.notifyExit packet player) w) r
  else w.lobbyPlayerInfo playersInfo

/-- `RoomManager::Update`: one room. -/
def updateRoom (env : Env F) (w : World F) (entry : Int × Option RoomRef) :
    Except Crash (World F) :=
  match entry.2 with
  | none => .error .nullRoom
  | some r => do
      let room ← (w.room r).update env
      return w.setRoom r room

/-- `RoomManager::Update`. -/
def update (env : Env F) (w : World F) : Except Crash (World F) :=
  w.roomManager.rooms.toList.foldlM (updateRoom env) w

/-- `GameSession::OnConnected`. `MakeShared` value-initialises the session, so its `playerName` is 0 until a login. -/
def onConnected (w : World F) : World F :=
  let s := w.nextSession
  let w := w.setSession s { currentRoom := intMax, playerName := 0, connected := true }
  { w with nextSession := s + 1, gSessions := w.gSessions.insert s }

/-- `GameSessionManager::Remove`. -/
def gSessionManagerRemove (w : World F) (s : SessionRef) : Except Crash (World F) :=
  let w := { w with gSessions := w.gSessions.erase s }
  if (w.session s).currentRoom = intMax then .ok w
  else
    match w.getRoom (w.session s).currentRoom with
    | none => .ok w
    | some r => w.roomRemove r s

/-- `GameSession::OnDisconnected`, the part about the room. -/
def leaveRoom (w : World F) (s : SessionRef) : Except Crash (World F) :=
  if (w.session s).currentRoom = intMax then .ok w
  else
    match w.getRoom (w.session s).currentRoom with
    | none => .ok (w.setRoomId s intMax)
    | some r => do
        let w ← w.roomRemove r s
        return w.setRoomId s intMax

/-- `playerIdList.erase(playerName)`. -/
def erasePlayerId (w : World F) (s : SessionRef) : World F :=
  let playerIdList := w.roomManager.playerIdList.erase (w.session s).playerName
  { w with roomManager := { w.roomManager with playerIdList := playerIdList } }

/-- `GameSession::OnDisconnected`. -/
def onDisconnected (w : World F) (s : SessionRef) : Except Crash (World F) := do
  let w ← (w.setSession s { w.session s with connected := false }).leaveRoom s
  (w.erasePlayerId s).gSessionManagerRemove s

end World

end

end StarCraftIocp
