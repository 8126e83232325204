import StarCraftIocp.Lib.CInt
import StarCraftIocp.Lib.Scalar
import StarCraftIocp.Lib.Wire

/-!
# The messages of the protocol

The client messages as a successful parse gives them, and the server messages
with their serialization. Strings and byte fields are lists of bytes. A client
chooses the value of every field of its messages, within the field's type. An
enumeration of proto3 is open, and its fields hold any 32-bit value.
-/

namespace StarCraftIocp

/-- `Vector3`, of the protocol and of the game. -/
structure Vector3 (F : Type) where
  x : F
  y : F
  z : F
  deriving Repr, DecidableEq

namespace Protocol

/-- The ten client messages. Fields that no handler reads are left out. -/
inductive ClientPacket (F : Type) where
  | cLogin (loginCode : UInt64)
  | cMove (roomCode : Int32) (objectId : List UInt32) (position : Vector3 F)
  | cRoomCreate (gameId : UInt64) (gameName gamePassWord mapHash : List UInt8)
  | cRoomData
  | cRoomRequest (roomCode : Int32) (gamePassWord : List UInt8)
  | cRoomPlayerListRequest (roomCode : Int32)
  | cStartGame (roomCode : Int32)
  | cExitGame
  | cAttack (roomCode : Int32) (objectId : UInt32) (objectType : Int32) (direction : Vector3 F)
  | cRttPing (clientTime : Int64)

/-- An entry of `S_ROOM_DATA`. -/
structure RoomData where
  roomCode : Int
  playerCount : Int
  roomName : List UInt8
  isPassWord : Bool
  mapHash : List UInt8
  deriving Repr, DecidableEq

structure ObjectData (F : Type) where
  type : Int
  objectId : Int
  playerId : Int
  position : Vector3 F
  direction : Vector3 F
  hp : F
  deriving Repr, DecidableEq

/-- `DISCONNECT_NONE` and `RESIGN` are never sent. -/
inductive DisconnectCode where
  | exit
  | adminExit
  deriving Repr, DecidableEq

def DisconnectCode.toInt : DisconnectCode → Int
  | .exit => 1
  | .adminExit => 2

/-- The server messages. `S_GAME_START` is only ever sent without object data. -/
inductive ServerMessage (F : Type) where
  | sRttPong (clientTime serverTime : Int)
  | sLogin (gameId : Int) (loginAccept : Bool)
  | sRoomLobby (hostId : Int) (gameName gamePassWord : List UInt8) (roomCode : Int)
      (mapHash : List UInt8)
  | sLobbyPlayerInfo (playerData : List Int)
  | sGameStart (startPos : Vector3 F) (playerId : Int)
  | sRoomExit (diconnectCode : DisconnectCode)
  | sRoomData (roomData : List RoomData)
  | sRoomResponse (roomAccept : Bool) (roomCode : Int)
  | sMove (objectId state : Int) (position : Vector3 F)
  | sObjectSpawn (objectData : ObjectData F) (spawnTime : Int)
  | sObjectDead (objectId state : Int)
  | sObjectDamage (objectId : Int) (hp : F)
  | sTest (test : List UInt8)
  deriving Repr, DecidableEq

/-! ## Serialization -/

open Wire

/-- An integer field of any width: a negative value goes out as its 64-bit complement. -/
def intField (field : Nat) (n : Int) : List UInt8 := varintField field (CInt.uint64 n).toNat

def boolField (field : Nat) (b : Bool) : List UInt8 := varintField field b.toNat

def RoomData.serialize (d : RoomData) : List UInt8 :=
  intField 1 d.roomCode ++ intField 2 d.playerCount ++ bytesField 3 d.roomName
    ++ boolField 4 d.isPassWord ++ bytesField 5 d.mapHash

section

variable {F : Type} [Scalar F]

def floatField (field : Nat) (v : F) : List UInt8 := fixed32Field field (Scalar.bits v)

def vector3 (v : Vector3 F) : List UInt8 := floatField 1 v.x ++ floatField 2 v.y ++ floatField 3 v.z

def ObjectData.serialize (d : ObjectData F) : List UInt8 :=
  intField 1 d.type ++ intField 2 d.objectId ++ intField 3 d.playerId
    ++ lenField 4 (vector3 d.position) ++ lenField 5 (vector3 d.direction) ++ floatField 6 d.hp

/-- The bytes `SerializeToArray` writes. -/
def ServerMessage.serialize : ServerMessage F → List UInt8
  | .sRttPong clientTime serverTime => intField 1 clientTime ++ intField 2 serverTime
  | .sLogin gameId loginAccept => intField 1 gameId ++ boolField 2 loginAccept
  | .sRoomLobby hostId gameName gamePassWord roomCode mapHash =>
      intField 1 hostId ++ bytesField 2 gameName ++ bytesField 3 gamePassWord
        ++ intField 4 roomCode ++ bytesField 5 mapHash
  | .sLobbyPlayerInfo playerData => repeatedField 1 (playerData.map (intField 1))
  | .sGameStart startPos playerId => lenField 1 (vector3 startPos) ++ intField 3 playerId
  | .sRoomExit diconnectCode => intField 1 diconnectCode.toInt
  | .sRoomData roomData => repeatedField 1 (roomData.map RoomData.serialize)
  | .sRoomResponse roomAccept roomCode => boolField 1 roomAccept ++ intField 2 roomCode
  | .sMove objectId state position =>
      intField 1 objectId ++ intField 2 state ++ lenField 3 (vector3 position)
  | .sObjectSpawn objectData spawnTime =>
      lenField 1 objectData.serialize ++ intField 2 spawnTime
  | .sObjectDead objectId state => intField 1 objectId ++ intField 2 state
  | .sObjectDamage objectId hp => intField 1 objectId ++ floatField 2 hp
  | .sTest test => bytesField 1 test

/-- `ByteSizeLong`. -/
def ServerMessage.byteSizeLong (m : ServerMessage F) : Nat := m.serialize.length

end

/-- The id a message is sent under. -/
def ServerMessage.pktId {F : Type} : ServerMessage F → Nat
  | .sRttPong .. => 1010
  | .sLogin .. => 1011
  | .sRoomLobby .. => 1012
  | .sLobbyPlayerInfo .. => 1013
  | .sGameStart .. => 1014
  | .sRoomExit .. => 1015
  | .sRoomData .. => 1016
  | .sRoomResponse .. => 1017
  | .sMove .. => 1018
  | .sObjectSpawn .. => 1019
  | .sObjectDead .. => 1020
  | .sObjectDamage .. => 1021
  | .sTest .. => 1022

theorem ServerMessage.pktId_lt {F : Type} (m : ServerMessage F) : m.pktId < 65536 := by
  cases m <;> simp [pktId]

end Protocol

end StarCraftIocp
