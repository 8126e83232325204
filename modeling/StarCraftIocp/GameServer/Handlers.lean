import StarCraftIocp.GameServer.RoomManager

/-!
# The packet handlers, and the server as a serial system

The handlers of the ten client packets, run one after the other with the
connects, the disconnects and the ticks of the update loop. A crash ends the
run: it has no successor.
-/

namespace StarCraftIocp

open Protocol CInt

variable {F : Type} [Scalar F]

namespace World

/-- `Handle_C_LOGIN`. The set of names is a set of `int`, into which the 64-bit code is cut. -/
def handleCLogin (w : World F) (s : SessionRef) (loginCode : UInt64) : Except Crash (World F) :=
  let gameId : Int := loginCode.toNat
  let name := int32 loginCode.toNat
  if name ∈ w.roomManager.playerIdList then w.reply s (.sLogin gameId false)
  else
    let playerIdList := w.roomManager.playerIdList.insert name
    let w := { w with roomManager := { w.roomManager with playerIdList := playerIdList } }
    (w.setSession s { w.session s with playerName := name }).reply s (.sLogin gameId true)

/-- `Handle_C_MOVE`, the loop body: `room` is null when no room has the code. -/
def moveObject (room : Option RoomRef) (position : Vector3 F) (w : World F) (id : UInt32) :
    Except Crash (World F) :=
  match room with
  | none => .error .nullRoom
  | some r =>
      let id := int32 id.toNat
      let (object, room) := (w.room r).indexObject id
      match object with
      | none => .error .nullObject
      | some object =>
          let vec := (room.heap object).position
          let target : Vector3 F := ⟨position.x, position.y, Scalar.lit 0⟩
          .ok (w.setRoom r (room.pushJob (Job.ofObject id vec target .move)))

/-- `Handle_C_MOVE`. -/
def handleCMove (w : World F) (roomCode : Int32) (objectId : List UInt32) (position : Vector3 F) :
    Except Crash (World F) :=
  objectId.foldlM (moveObject (w.getRoom roomCode.toInt) position) w

/-- The reply of `Handle_C_ROOM_CREATE` and `Handle_C_ROOM_REQUEST`. -/
def roomLobby (room : Room F) (roomCode : Int) : ServerMessage F :=
  .sRoomLobby (uint64 room.hostId) room.gameName room.gamePassWord roomCode room.mapHash

/-- `Handle_C_ROOM_CREATE`. -/
def handleCRoomCreate (w : World F) (s : SessionRef) (gameId : UInt64)
    (gameName gamePassWord mapHash : List UInt8) : Except Crash (World F) :=
  let hostId := int32 gameId.toNat
  let (r, w) := w.makeRoom
    (Room.new w.roomManager.roomIdCount hostId gameName gamePassWord mapHash)
  let w := (w.addRoom r).roomAdd r s
  w.reply s (roomLobby (w.room r) (w.room r).roomId)

/-- `Handle_C_ROOM_DATA`: the entry of one room. -/
def roomDataOf (w : World F) (code : Int) (r : RoomRef) : RoomData :=
  let room := w.room r
  { roomCode := code, playerCount := uint32 room.playerCount, roomName := room.gameName,
    isPassWord := !room.gamePassWord.isEmpty, mapHash := room.mapHash }

/-- `Handle_C_ROOM_DATA`, the loop body. -/
def addRoomData (w : World F) (roomData : List RoomData) (entry : Int × Option RoomRef) :
    Except Crash (List RoomData) :=
  match entry.2 with
  | none => .error .nullRoom
  | some r => .ok (roomData ++ [w.roomDataOf entry.1 r])

/-- `Handle_C_ROOM_DATA`. -/
def handleCRoomData (w : World F) (s : SessionRef) : Except Crash (World F) := do
  let roomData ← w.roomManager.rooms.toList.foldlM (addRoomData w) []
  w.reply s (.sRoomData roomData)

/-- The password check of `Handle_C_ROOM_REQUEST`. -/
def admits (room : Room F) (passWord : List UInt8) : Bool :=
  room.gamePassWord.isEmpty || room.gamePassWord == passWord

/-- `Handle_C_ROOM_REQUEST`. -/
def handleCRoomRequest (w : World F) (s : SessionRef) (roomCode : Int32) (passWord : List UInt8) :
    Except Crash (World F) :=
  let (room, roomManager) := w.roomManager.indexRoom roomCode.toInt
  let w := { w with roomManager := roomManager }
  match room with
  | none => .error .nullRoom
  | some r =>
      if admits (w.room r) passWord then
        let w := w.roomAdd r s
        w.reply s (roomLobby (w.room r) roomCode.toInt)
      else w.reply s (.sRoomResponse false (w.room r).roomId)

/-- `Handle_C_ROOM_PLAYER_LIST_REQUEST`. -/
def handleCRoomPlayerListRequest (w : World F) (roomCode : Int32) : Except Crash (World F) :=
  match w.getRoom roomCode.toInt with
  | none => .error .nullRoom
  | some r => do
      let players := (w.room r).sessionPlayers.keys
      let packet ← (ServerMessage.sLobbyPlayerInfo
        (players.map fun player => (w.session player).playerName)).frame
      return w.setRoom r ((w.room r).broadcast packet)

/-- `Handle_C_START_GAME`. -/
def handleCStartGame (env : Env F) (w : World F) (roomCode : Int32) : Except Crash (World F) :=
  match w.getRoom roomCode.toInt with
  | none => .error .nullRoom
  | some r => do
      let room := { w.room r with mapSectionData := w.hashToMap (w.room r).mapHash }
      let room ← room.startGame env
      return w.setRoom r room

/-- `Handle_C_EXIT_GAME`. -/
def handleCExitGame (w : World F) (s : SessionRef) : Except Crash (World F) :=
  let roomId := (w.session s).currentRoom
  if roomId = intMax then .ok w
  else
    match w.getRoom roomId with
    | none => .error .nullRoom
    | some r => do
        let w ← w.roomRemove r s
        (w.setRoomId s intMax).reply s (.sRoomExit .exit)

/-- `Handle_C_ATTACK`. -/
def handleCAttack (w : World F) (roomCode : Int32) (objectId : UInt32) (objectType : Int32)
    (direction : Vector3 F) : Except Crash (World F) :=
  match w.getRoom roomCode.toInt with
  | none => .error .nullRoom
  | some r =>
      let (shooter, room) := (w.room r).indexObject (int32 objectId.toNat)
      match shooter with
      | none => .error .nullShooter
      | some shooter =>
          let pos := (room.heap shooter).position
          .ok (w.setRoom r (room.pushJob
            (Job.ofShooter ⟨objectType.toInt⟩ pos direction shooter .spawn)))

/-- `Handle_C_RTT_PING`. -/
def handleCRttPing (env : Env F) (w : World F) (s : SessionRef) (clientTime : Int64) :
    Except Crash (World F) :=
  w.reply s (.sRttPong clientTime.toInt env.now)

/-- The handler of a parsed packet. -/
def handle (env : Env F) (w : World F) (s : SessionRef) : ClientPacket F → Except Crash (World F)
  | .cLogin loginCode => w.handleCLogin s loginCode
  | .cMove roomCode objectId position => w.handleCMove roomCode objectId position
  | .cRoomCreate gameId gameName gamePassWord mapHash =>
      w.handleCRoomCreate s gameId gameName gamePassWord mapHash
  | .cRoomData => w.handleCRoomData s
  | .cRoomRequest roomCode gamePassWord => w.handleCRoomRequest s roomCode gamePassWord
  | .cRoomPlayerListRequest roomCode => w.handleCRoomPlayerListRequest roomCode
  | .cStartGame roomCode => w.handleCStartGame env roomCode
  | .cExitGame => w.handleCExitGame s
  | .cAttack roomCode objectId objectType direction =>
      w.handleCAttack roomCode objectId objectType direction
  | .cRttPing clientTime => w.handleCRttPing env s clientTime

end World

/-! ## The server -/

/-- What happens to the server, one thing after the other. -/
inductive Event (F : Type) where
  | connect
  | packet (s : SessionRef) (pkt : ClientPacket F)
  | disconnect (s : SessionRef)
  /-- A tick of the update loop. -/
  | update

namespace World

/-- Packets and the disconnect come from sessions that are connected. -/
def Enabled (w : World F) : Event F → Prop
  | .connect => True
  | .packet s _ => s < w.nextSession ∧ (w.session s).connected = true
  | .disconnect s => s < w.nextSession ∧ (w.session s).connected = true
  | .update => True

instance (w : World F) : (e : Event F) → Decidable (w.Enabled e)
  | .connect => inferInstanceAs (Decidable True)
  | .packet _ _ => inferInstanceAs (Decidable (_ ∧ _))
  | .disconnect _ => inferInstanceAs (Decidable (_ ∧ _))
  | .update => inferInstanceAs (Decidable True)

def exec (env : Env F) (w : World F) : Event F → Except Crash (World F)
  | .connect => .ok w.onConnected
  | .packet s pkt => w.handle env s pkt
  | .disconnect s => w.onDisconnected s
  | .update => w.update env

/-- One step of a serial run, which no crash is. -/
def next (w : World F) (a : Env F × Event F) : Option (World F) :=
  if w.Enabled a.2 then (w.exec a.1 a.2).toOption else none

end World

end StarCraftIocp
