import StarCraftIocp.Client.PacketManager
import StarCraftIocp.GameServer.Protocol
import StarCraftIocp.Lib.WireReader

/-!
# The client's side of the server messages

The thirteen messages of the server as the client has them, and `MergeFrom` of
each: a loop that reads a tag and then the field of that tag, until there is no
tag left. The calls into `CodedInputStream` are a parameter, since the runtime is
not part of the repository. `float`s are bit patterns.
-/

namespace StarCraftIocp.PacketReader

open Wire

/-- The calls of the generated code into the runtime; `none` is an exception. -/
structure CodedInputStream where
  /-- 0 is the end of the input. -/
  readTag : Reader Nat
  readInt32 : Reader Int32
  readInt64 : Reader Int64
  readUInt32 : Reader UInt32
  readUInt64 : Reader UInt64
  readBool : Reader Bool
  readEnum : Reader Int32
  readFloat : Reader UInt32
  readString : Reader String
  readBytes : Reader (List UInt8)
  /-- A message, given its `MergeFrom`. -/
  readMessage : {σ : Type} → (List UInt8 → Option σ) → Reader σ
  /-- `AddEntriesFrom`, with the codec for messages under a tag: what it adds. -/
  addEntriesFrom : {σ : Type} → Nat → (List UInt8 → Option σ) → Reader (List σ)
  /-- `UnknownFieldSet.MergeFieldFrom`, for the field of a tag. -/
  mergeFieldFrom : Nat → Reader Unit

structure PlayerInfo where
  playerId : Int64 := 0
  deriving Repr, DecidableEq

structure RoomData where
  roomCode : Int32 := 0
  playerCount : UInt32 := 0
  roomName : String := ""
  isPassWord : Bool := false
  mapHash : List UInt8 := []
  deriving Repr, DecidableEq

structure ObjectData where
  type : Int32 := 0
  objectId : UInt32 := 0
  playerId : Int32 := 0
  position : Option (Vector3 UInt32) := none
  direction : Option (Vector3 UInt32) := none
  hp : UInt32 := 0
  deriving Repr, DecidableEq

structure SRttPong where
  clientTime : Int64 := 0
  serverTime : Int64 := 0
  deriving Repr, DecidableEq

structure SLogin where
  gameId : UInt64 := 0
  loginAccept : Bool := false
  deriving Repr, DecidableEq

structure SRoomLobby where
  hostId : UInt64 := 0
  gameName : String := ""
  gamePassWord : String := ""
  roomCode : Int32 := 0
  mapHash : List UInt8 := []
  deriving Repr, DecidableEq

structure SLobbyPlayerInfo where
  playerData : List PlayerInfo := []
  deriving Repr, DecidableEq

structure SGameStart where
  startPos : Option (Vector3 UInt32) := none
  objectData : List ObjectData := []
  playerId : Int32 := 0
  deriving Repr, DecidableEq

structure SRoomExit where
  diconnectCode : Int32 := 0
  deriving Repr, DecidableEq

structure SRoomData where
  roomData : List RoomData := []
  deriving Repr, DecidableEq

structure SRoomResponse where
  roomAccept : Bool := false
  roomCode : Int32 := 0
  deriving Repr, DecidableEq

structure SMove where
  objectId : UInt32 := 0
  state : Int32 := 0
  position : Option (Vector3 UInt32) := none
  deriving Repr, DecidableEq

structure SObjectSpawn where
  objectData : Option ObjectData := none
  spawnTime : Int64 := 0
  deriving Repr, DecidableEq

structure SObjectDead where
  objectId : UInt32 := 0
  state : Int32 := 0
  deriving Repr, DecidableEq

structure SObjectDamage where
  objectId : UInt32 := 0
  hp : UInt32 := 0
  deriving Repr, DecidableEq

structure STest where
  test : List UInt8 := []
  deriving Repr, DecidableEq

/-- What `HandlePacket` gives to `Process`. -/
inductive Message where
  | sRttPong (m : SRttPong)
  | sLogin (m : SLogin)
  | sRoomLobby (m : SRoomLobby)
  | sLobbyPlayerInfo (m : SLobbyPlayerInfo)
  | sGameStart (m : SGameStart)
  | sRoomExit (m : SRoomExit)
  | sRoomData (m : SRoomData)
  | sRoomResponse (m : SRoomResponse)
  | sMove (m : SMove)
  | sObjectSpawn (m : SObjectSpawn)
  | sObjectDead (m : SObjectDead)
  | sObjectDamage (m : SObjectDamage)
  | sTest (m : STest)
  deriving Repr, DecidableEq

/-! ## `MergeFrom` -/

section

variable {σ α : Type} (input : CodedInputStream)

/-- `while ((tag = input.ReadTag()) != 0) switch (tag)`. -/
def mergeLoop (field : Nat → σ → Reader σ) : Nat → σ → List UInt8 → Option σ
  | 0, _, _ => none
  | fuel + 1, m, bs =>
      match input.readTag.run bs with
      | none => none
      | some (0, _) => some m
      | some (tag, rest) =>
          match (field tag m).run rest with
          | none => none
          | some (m, rest) => mergeLoop field fuel m rest

/-- `MergeFrom`: a pass takes a byte at least, the last one none. -/
def mergeFrom (field : Nat → σ → Reader σ) (m : σ) (bs : List UInt8) : Option σ :=
  mergeLoop input field (bs.length + 1) m bs

/-- `X = input.Read…()`. -/
def assign (read : Reader α) (set : α → σ) : Reader σ := do
  let a ← read
  return set a

/-- The default case of the switch. -/
def unknown (tag : Nat) (m : σ) : Reader σ := do
  input.mergeFieldFrom tag
  return m

end

variable (input : CodedInputStream)

def vector3Field (tag : Nat) (m : Vector3 UInt32) : Reader (Vector3 UInt32) :=
  match tag with
  | 13 => assign input.readFloat fun v => { m with x := v }
  | 21 => assign input.readFloat fun v => { m with y := v }
  | 29 => assign input.readFloat fun v => { m with z := v }
  | tag => unknown input tag m

/-- `if (position_ == null) Position = new Vector3()`, then `ReadMessage`. -/
def readVector3 (v : Option (Vector3 UInt32)) : Reader (Vector3 UInt32) :=
  input.readMessage (mergeFrom input (vector3Field input) (v.getD ⟨0, 0, 0⟩))

def PlayerInfo.field (tag : Nat) (m : PlayerInfo) : Reader PlayerInfo :=
  match tag with
  | 8 => assign input.readInt64 fun v => { m with playerId := v }
  | tag => unknown input tag m

def RoomData.field (tag : Nat) (m : RoomData) : Reader RoomData :=
  match tag with
  | 8 => assign input.readInt32 fun v => { m with roomCode := v }
  | 16 => assign input.readUInt32 fun v => { m with playerCount := v }
  | 26 => assign input.readString fun v => { m with roomName := v }
  | 32 => assign input.readBool fun v => { m with isPassWord := v }
  | 42 => assign input.readBytes fun v => { m with mapHash := v }
  | tag => unknown input tag m

def ObjectData.field (tag : Nat) (m : ObjectData) : Reader ObjectData :=
  match tag with
  | 8 => assign input.readEnum fun v => { m with type := v }
  | 16 => assign input.readUInt32 fun v => { m with objectId := v }
  | 24 => assign input.readInt32 fun v => { m with playerId := v }
  | 34 => assign (readVector3 input m.position) fun v => { m with position := some v }
  | 42 => assign (readVector3 input m.direction) fun v => { m with direction := some v }
  | 53 => assign input.readFloat fun v => { m with hp := v }
  | tag => unknown input tag m

def SRttPong.field (tag : Nat) (m : SRttPong) : Reader SRttPong :=
  match tag with
  | 8 => assign input.readInt64 fun v => { m with clientTime := v }
  | 16 => assign input.readInt64 fun v => { m with serverTime := v }
  | tag => unknown input tag m

def SLogin.field (tag : Nat) (m : SLogin) : Reader SLogin :=
  match tag with
  | 8 => assign input.readUInt64 fun v => { m with gameId := v }
  | 16 => assign input.readBool fun v => { m with loginAccept := v }
  | tag => unknown input tag m

def SRoomLobby.field (tag : Nat) (m : SRoomLobby) : Reader SRoomLobby :=
  match tag with
  | 8 => assign input.readUInt64 fun v => { m with hostId := v }
  | 18 => assign input.readString fun v => { m with gameName := v }
  | 26 => assign input.readString fun v => { m with gamePassWord := v }
  | 32 => assign input.readInt32 fun v => { m with roomCode := v }
  | 42 => assign input.readBytes fun v => { m with mapHash := v }
  | tag => unknown input tag m

def SLobbyPlayerInfo.field (tag : Nat) (m : SLobbyPlayerInfo) : Reader SLobbyPlayerInfo :=
  match tag with
  | 10 => assign (input.addEntriesFrom 10 (mergeFrom input (PlayerInfo.field input) {}))
      fun v => { m with playerData := m.playerData ++ v }
  | tag => unknown input tag m

def SGameStart.field (tag : Nat) (m : SGameStart) : Reader SGameStart :=
  match tag with
  | 10 => assign (readVector3 input m.startPos) fun v => { m with startPos := some v }
  | 18 => assign (input.addEntriesFrom 18 (mergeFrom input (ObjectData.field input) {}))
      fun v => { m with objectData := m.objectData ++ v }
  | 24 => assign input.readInt32 fun v => { m with playerId := v }
  | tag => unknown input tag m

def SRoomExit.field (tag : Nat) (m : SRoomExit) : Reader SRoomExit :=
  match tag with
  | 8 => assign input.readEnum fun v => { m with diconnectCode := v }
  | tag => unknown input tag m

def SRoomData.field (tag : Nat) (m : SRoomData) : Reader SRoomData :=
  match tag with
  | 10 => assign (input.addEntriesFrom 10 (mergeFrom input (RoomData.field input) {}))
      fun v => { m with roomData := m.roomData ++ v }
  | tag => unknown input tag m

def SRoomResponse.field (tag : Nat) (m : SRoomResponse) : Reader SRoomResponse :=
  match tag with
  | 8 => assign input.readBool fun v => { m with roomAccept := v }
  | 16 => assign input.readInt32 fun v => { m with roomCode := v }
  | tag => unknown input tag m

def SMove.field (tag : Nat) (m : SMove) : Reader SMove :=
  match tag with
  | 8 => assign input.readUInt32 fun v => { m with objectId := v }
  | 16 => assign input.readEnum fun v => { m with state := v }
  | 26 => assign (readVector3 input m.position) fun v => { m with position := some v }
  | tag => unknown input tag m

def SObjectSpawn.field (tag : Nat) (m : SObjectSpawn) : Reader SObjectSpawn :=
  match tag with
  | 10 => assign (input.readMessage (mergeFrom input (ObjectData.field input) (m.objectData.getD {})))
      fun v => { m with objectData := some v }
  | 16 => assign input.readInt64 fun v => { m with spawnTime := v }
  | tag => unknown input tag m

def SObjectDead.field (tag : Nat) (m : SObjectDead) : Reader SObjectDead :=
  match tag with
  | 8 => assign input.readUInt32 fun v => { m with objectId := v }
  | 16 => assign input.readEnum fun v => { m with state := v }
  | tag => unknown input tag m

def SObjectDamage.field (tag : Nat) (m : SObjectDamage) : Reader SObjectDamage :=
  match tag with
  | 8 => assign input.readUInt32 fun v => { m with objectId := v }
  | 21 => assign input.readFloat fun v => { m with hp := v }
  | tag => unknown input tag m

def STest.field (tag : Nat) (m : STest) : Reader STest :=
  match tag with
  | 10 => assign input.readBytes fun v => { m with test := v }
  | tag => unknown input tag m

/-- The parsers of `Handlers`, by `PacketType`. -/
def parseFrom (type : Nat) (bs : List UInt8) : Option Message :=
  match type with
  | 1010 => (mergeFrom input (SRttPong.field input) {} bs).map .sRttPong
  | 1011 => (mergeFrom input (SLogin.field input) {} bs).map .sLogin
  | 1012 => (mergeFrom input (SRoomLobby.field input) {} bs).map .sRoomLobby
  | 1013 => (mergeFrom input (SLobbyPlayerInfo.field input) {} bs).map .sLobbyPlayerInfo
  | 1014 => (mergeFrom input (SGameStart.field input) {} bs).map .sGameStart
  | 1015 => (mergeFrom input (SRoomExit.field input) {} bs).map .sRoomExit
  | 1016 => (mergeFrom input (SRoomData.field input) {} bs).map .sRoomData
  | 1017 => (mergeFrom input (SRoomResponse.field input) {} bs).map .sRoomResponse
  | 1018 => (mergeFrom input (SMove.field input) {} bs).map .sMove
  | 1019 => (mergeFrom input (SObjectSpawn.field input) {} bs).map .sObjectSpawn
  | 1020 => (mergeFrom input (SObjectDead.field input) {} bs).map .sObjectDead
  | 1021 => (mergeFrom input (SObjectDamage.field input) {} bs).map .sObjectDamage
  | 1022 => (mergeFrom input (STest.field input) {} bs).map .sTest
  | _ => none

/-- `RecvPacket`, with what it hands to `Process`, if anything; `none` is an exception. -/
def recvPacket (message : List UInt8) : Option (Option Message) :=
  -- `BitConverter.ToUInt16(message, sizeof(ushort))` needs four bytes
  if message.length < 4 then none
  else
    let type := Bytes.readLe16 message 2
    -- no `PacketType`, or none that `Handlers` has as a key
    if type < 1010 ∨ 1022 < type then some none
    else do
      let payload ← PacketMaker.handlePacket message
      let packet ← parseFrom input type payload
      return some packet

end StarCraftIocp.PacketReader
