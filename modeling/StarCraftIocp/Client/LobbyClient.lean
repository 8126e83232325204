import StarCraftIocp.Client.PacketReader
import StarCraftIocp.Client.PacketWriter

/-!
# The way into a room, on the client

`PacketManager.Process` for the messages of the lobby, with what a scene does when
it starts, and what a user can do in each scene. A scene that has been loaded
starts in the next frame, before the next message is processed. Windows are left
out, texts but the labels of the players in a lobby, and the units, which have a
model of their own.
-/

namespace StarCraftIocp

inductive Scene where
  | login
  /-- `MatchingScene`: the list of rooms. -/
  | matching
  | roomMaking
  /-- `MatchMakingScene`: the players of the room. -/
  | matchMaking
  | battle
  deriving Repr, DecidableEq

structure LobbyData where
  hostId : UInt64
  gameName : String
  gamePassWord : String
  mapHash : List UInt8
  deriving Repr, DecidableEq

structure LobbyClient where
  scene : Scene
  /-- `UserId`; `none` until a login is accepted, since the text it is set to at the start is too long. -/
  userId : Option UInt64
  currentRoomCode : Int32
  currentRoom : LobbyData
  currentDisconnectCode : Int32
  playerInfo : List Int64
  /-- The texts of `playersId` in the `MatchMakingUI`. -/
  playersId : List String
  /-- The entries under `Content` in the `MatchingScene`. -/
  rooms : List PacketReader.RoomData
  deriving Repr, DecidableEq

/-- What a user can do, and what the battle sends. -/
inductive UserAction where
  | tryLogin (value : UInt64)
  /-- `TakeRoomData`, by its button. -/
  | takeRoomData
  /-- `RoomManager.OnCreateRoom`, which only opens a scene. -/
  | openRoomMaking
  /-- `RoomMakeManager.OnCreateRoom`, for a map file with this hash. -/
  | createRoom (gameName passWord : String) (mapHash : List UInt8)
  /-- `OnAcceptButton` of an entry. -/
  | accept (entry : PacketReader.RoomData) (passWord : String)
  | clickStart
  | clickExit
  | play (m : PacketWriter.Message)

namespace LobbyClient

def idLength : Nat := 10

/-- `ServerConnect.Start`. -/
def init : LobbyClient where
  scene := .login
  userId := none
  currentRoomCode := -1
  currentRoom := { hostId := 0, gameName := "", gamePassWord := "", mapHash := [] }
  currentDisconnectCode := 0
  playerInfo := []
  playersId := []
  rooms := []

/-- `UserId = value.ToString()`: an id that is too long is not taken. -/
def setUserId (c : LobbyClient) (value : UInt64) : LobbyClient :=
  if idLength < (toString value.toNat).length then c else { c with userId := some value }

/-- `TakeRoomData`. -/
def takeRoomData (c : LobbyClient) : LobbyClient × List PacketWriter.Message := ({ c with rooms := [] }, [.cRoomData 0])

/-- The `MatchingScene` is loaded, and `RoomManager` starts. -/
def loadMatching (c : LobbyClient) : LobbyClient × List PacketWriter.Message :=
  { c with scene := .matching }.takeRoomData

/--
The `MatchMakingScene`, with its four labels, is loaded, and `MatchMakingUI` starts:
a map it does not know is an exception.
-/
def loadMatchMaking (knows : List UInt8 → Bool) (c : LobbyClient) : LobbyClient × List PacketWriter.Message :=
  ({ c with scene := .matchMaking, playersId := List.replicate 4 "OPEN" },
    if knows c.currentRoom.mapHash then [.cRoomPlayerListRequest c.currentRoomCode] else [])

/-- `hostId` of the `MatchMakingUI`, which is not set if the map is not known. -/
def hostId (knows : List UInt8 → Bool) (c : LobbyClient) : UInt64 :=
  if knows c.currentRoom.mapHash then c.currentRoom.hostId else 0

/-- The players are written into the labels in order. -/
def writeIds : List String → List Int64 → List String
  | texts, [] => texts
  | _ :: texts, player :: players => toString player.toInt :: writeIds texts players
  -- `playersId[index]` throws, when every label is written
  | [], _ :: _ => []

def playerListApply (c : LobbyClient) : LobbyClient :=
  { c with playersId := writeIds (c.playersId.map fun _ => "OPEN") c.playerInfo }

/-- `callback?.Invoke()`, with nothing after it: a window or null, unless a `MatchMakingUI` has started. -/
def callback (knows : List UInt8 → Bool) (c : LobbyClient) : LobbyClient :=
  if c.scene = .matchMaking ∧ knows c.currentRoom.mapHash = true then c.playerListApply else c

/-- `SaveLobbyData`, and the code. -/
def saveLobbyData (c : LobbyClient) (m : PacketReader.SRoomLobby) : LobbyClient :=
  { c with
    currentRoom := { hostId := m.hostId, gameName := m.gameName, gamePassWord := m.gamePassWord, mapHash := m.mapHash }
    currentRoomCode := m.roomCode }

/-- `Process`, with what the client sends because of it. -/
def process (knows : List UInt8 → Bool) (c : LobbyClient) :
    PacketReader.Message → LobbyClient × List PacketWriter.Message
  | .sLogin m => if m.loginAccept then (c.setUserId m.gameId).loadMatching else (c, [])
  | .sRoomLobby m => (c.saveLobbyData m).loadMatchMaking knows
  | .sLobbyPlayerInfo m =>
      ({ c with playerInfo := m.playerData.map PacketReader.PlayerInfo.playerId }.callback knows, [])
  | .sGameStart _ => ({ c with scene := .battle }, [])
  | .sRoomExit m => { c with currentDisconnectCode := m.diconnectCode }.loadMatching
  -- `showRoomInfoAction` is null in the other scenes
  | .sRoomData m => (if c.scene = .matching then { c with rooms := c.rooms ++ m.roomData } else c, [])
  | .sRoomResponse _ => (c.callback knows, [])
  | .sRttPong _ | .sMove _ | .sObjectSpawn _ | .sObjectDead _ | .sObjectDamage _ | .sTest _ => (c, [])

/-- What is sent in the battle; a ping goes out whenever there is a new `UnitManager`. -/
def Plays (c : LobbyClient) : PacketWriter.Message → Prop
  | .cMove .. | .cAttack .. => c.scene = .battle
  | .cRttPing _ => True
  | _ => False

instance (c : LobbyClient) : (m : PacketWriter.Message) → Decidable (c.Plays m)
  | .cMove .. | .cAttack .. => inferInstanceAs (Decidable (c.scene = .battle))
  | .cRttPing _ => inferInstanceAs (Decidable True)
  | .cLogin .. | .cRoomCreate .. | .cRoomData _ | .cRoomRequest .. | .cRoomPlayerListRequest _ | .cStartGame _
  | .cExitGame _ => inferInstanceAs (Decidable False)

/-- What a user does in a scene; `none` is not possible there, or does nothing. -/
def act (knows : List UInt8 → Bool) (c : LobbyClient) :
    UserAction → Option (LobbyClient × List PacketWriter.Message)
  | .tryLogin value => if c.scene = .login then some (c, [.cLogin value "test"]) else none
  | .takeRoomData => if c.scene = .matching then some c.takeRoomData else none
  | .openRoomMaking => if c.scene = .matching then some ({ c with scene := .roomMaking }, []) else none
  | .createRoom gameName passWord mapHash =>
      if c.scene = .roomMaking ∧ knows mapHash = true then
        -- `ulong.Parse` throws on anything but a number
        c.userId.map fun gameId => (c, [.cRoomCreate gameId gameName passWord mapHash])
      else none
  | .accept entry passWord =>
      if c.scene = .matching ∧ entry ∈ c.rooms ∧ knows entry.mapHash = true then
        some (c, [.cRoomRequest entry.roomCode passWord])
      else none
  | .clickStart =>
      if c.scene = .matchMaking ∧ c.userId = some (c.hostId knows) then
        some (c, [.cStartGame c.currentRoomCode])
      else none
  | .clickExit => if c.scene = .matchMaking then some (c, [.cExitGame 0]) else none
  | .play m => if c.Plays m then some (c, [m]) else none

end LobbyClient

end StarCraftIocp
