import StarCraftIocp.GameServer.ClientPacketHandler
import StarCraftIocp.Lib.WireMessage

/-!
# Parsing the client packets

The ten messages with all their fields, and the `_InternalParse` of each: a table
from tags to what is done with the field. A field given twice is overwritten, one
of a repeated field is added, a sub-message is merged. `float`s are kept as their
bit patterns until a packet reaches its handler. Where the source reads a field
past the end of a message and finds out afterwards, the model fails at once.
-/

namespace StarCraftIocp

open Wire

namespace Protocol

/-- `VerifyUTF8`. -/
def verifyUTF8 (bs : List UInt8) : Bool := (ByteArray.mk bs.toArray).validateUTF8

/-- The recursion limit of a `ParseContext`, and what is left of it in a sub-message. -/
def recursionLimit : Nat := 100

/-- The conversion of a varint to `int32` or to an enumeration. -/
def toInt32 (n : Nat) : Int32 := (UInt32.ofNat n).toInt32

def vector3Fields : Fields (Vector3 UInt32)
  | 13 => some (.fixed32 fun m n => { m with x := UInt32.ofNat n })
  | 21 => some (.fixed32 fun m n => { m with y := UInt32.ofNat n })
  | 29 => some (.fixed32 fun m n => { m with z := UInt32.ofNat n })
  | _ => none

/-- `ParseMessage`, of a field that is a `Vector3`. -/
def vector3Field {σ : Type} (get : σ → Vector3 UInt32) (set : σ → Vector3 UInt32 → σ) : FieldReader σ :=
  FieldReader.message vector3Fields (recursionLimit - 1) get set

structure CLogin where
  loginCode : UInt64 := 0
  test : List UInt8 := []
  deriving Repr, DecidableEq

def CLogin.fields : Fields CLogin
  | 8 => some (.varint fun m n => { m with loginCode := UInt64.ofNat n })
  | 18 => some (.string verifyUTF8 fun m bs => { m with test := bs })
  | _ => none

/-- A position that is not there reads as the default `Vector3`. -/
structure CMove where
  roomCode : Int32 := 0
  objectId : List UInt32 := []
  position : Vector3 UInt32 := ⟨0, 0, 0⟩
  deriving Repr, DecidableEq

def CMove.fields : Fields CMove
  | 8 => some (.varint fun m n => { m with roomCode := toInt32 n })
  | 18 => some (.packed fun m n => { m with objectId := m.objectId ++ [UInt32.ofNat n] })
  | 16 => some (.varint fun m n => { m with objectId := m.objectId ++ [UInt32.ofNat n] })
  | 26 => some (vector3Field CMove.position fun m v => { m with position := v })
  | _ => none

structure CRoomCreate where
  gameId : UInt64 := 0
  gameName : List UInt8 := []
  gamePassWord : List UInt8 := []
  mapHash : List UInt8 := []
  deriving Repr, DecidableEq

def CRoomCreate.fields : Fields CRoomCreate
  | 8 => some (.varint fun m n => { m with gameId := UInt64.ofNat n })
  | 18 => some (.string verifyUTF8 fun m bs => { m with gameName := bs })
  | 26 => some (.string verifyUTF8 fun m bs => { m with gamePassWord := bs })
  | 34 => some (.bytes fun m bs => { m with mapHash := bs })
  | _ => none

structure CRoomData where
  dummy : UInt32 := 0
  deriving Repr, DecidableEq

def CRoomData.fields : Fields CRoomData
  | 8 => some (.varint fun m n => { m with dummy := UInt32.ofNat n })
  | _ => none

structure CRoomRequest where
  roomCode : Int32 := 0
  gamePassWord : List UInt8 := []
  deriving Repr, DecidableEq

def CRoomRequest.fields : Fields CRoomRequest
  | 8 => some (.varint fun m n => { m with roomCode := toInt32 n })
  | 18 => some (.string verifyUTF8 fun m bs => { m with gamePassWord := bs })
  | _ => none

structure CRoomPlayerListRequest where
  roomCode : Int32 := 0
  deriving Repr, DecidableEq

def CRoomPlayerListRequest.fields : Fields CRoomPlayerListRequest
  | 8 => some (.varint fun m n => { m with roomCode := toInt32 n })
  | _ => none

structure CStartGame where
  roomCode : Int32 := 0
  deriving Repr, DecidableEq

def CStartGame.fields : Fields CStartGame
  | 8 => some (.varint fun m n => { m with roomCode := toInt32 n })
  | _ => none

structure CExitGame where
  dummy : UInt32 := 0
  deriving Repr, DecidableEq

def CExitGame.fields : Fields CExitGame
  | 8 => some (.varint fun m n => { m with dummy := UInt32.ofNat n })
  | _ => none

structure CAttack where
  roomCode : Int32 := 0
  objectId : UInt32 := 0
  objectType : Int32 := 0
  direction : Vector3 UInt32 := ⟨0, 0, 0⟩
  deriving Repr, DecidableEq

def CAttack.fields : Fields CAttack
  | 8 => some (.varint fun m n => { m with roomCode := toInt32 n })
  | 16 => some (.varint fun m n => { m with objectId := UInt32.ofNat n })
  | 24 => some (.varint fun m n => { m with objectType := toInt32 n })
  | 34 => some (vector3Field CAttack.direction fun m v => { m with direction := v })
  | _ => none

structure CRttPing where
  clientTime : Int64 := 0
  deriving Repr, DecidableEq

def CRttPing.fields : Fields CRttPing
  | 8 => some (.varint fun m n => { m with clientTime := (UInt64.ofNat n).toInt64 })
  | _ => none

/-- `ParseFromArray`: the message is cleared first. -/
def parseFromArray {σ : Type} (fields : Fields σ) (cleared : σ) (bs : List UInt8) : Option σ :=
  parse fields recursionLimit cleared bs

end Protocol

open Protocol

variable {F : Type}

/-- `float`s from their bit patterns. -/
def Vector3.ofBits (ofBits : UInt32 → F) (v : Vector3 UInt32) : Vector3 F :=
  ⟨ofBits v.x, ofBits v.y, ofBits v.z⟩

/-- What an entry of `GPacketHandler` hands to its handler; nothing when `ParseFromArray` fails. -/
def PacketHandler.parse (ofBits : UInt32 → F) (bs : List UInt8) :
    PacketHandler → Option (ClientPacket F)
  | .invalid => none
  | .cLogin => do
      let m ← parseFromArray CLogin.fields {} bs
      return .cLogin m.loginCode
  | .cMove => do
      let m ← parseFromArray CMove.fields {} bs
      return .cMove m.roomCode m.objectId (m.position.ofBits ofBits)
  | .cRoomCreate => do
      let m ← parseFromArray CRoomCreate.fields {} bs
      return .cRoomCreate m.gameId m.gameName m.gamePassWord m.mapHash
  | .cRoomData => do
      let _ ← parseFromArray CRoomData.fields {} bs
      return .cRoomData
  | .cRoomRequest => do
      let m ← parseFromArray CRoomRequest.fields {} bs
      return .cRoomRequest m.roomCode m.gamePassWord
  | .cRoomPlayerListRequest => do
      let m ← parseFromArray CRoomPlayerListRequest.fields {} bs
      return .cRoomPlayerListRequest m.roomCode
  | .cStartGame => do
      let m ← parseFromArray CStartGame.fields {} bs
      return .cStartGame m.roomCode
  | .cExitGame => do
      let _ ← parseFromArray CExitGame.fields {} bs
      return .cExitGame
  | .cAttack => do
      let m ← parseFromArray CAttack.fields {} bs
      return .cAttack m.roomCode m.objectId m.objectType (m.direction.ofBits ofBits)
  | .cRttPing => do
      let m ← parseFromArray CRttPing.fields {} bs
      return .cRttPing m.clientTime

end StarCraftIocp
