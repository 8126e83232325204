import StarCraftIocp.GameServer.PacketParse

/-!
# The client's messages

The ten messages as the client fills them in, and `WriteTo` of each. What
`CodedOutputStream` writes for one value is a parameter: the runtime is not part
of the repository. `float`s are bit patterns, and strings have no unpaired
surrogates.
-/

namespace StarCraftIocp.PacketWriter

/-- The calls of the generated code into the runtime, and what each writes. -/
structure CodedOutputStream where
  writeRawTag : UInt8 → List UInt8
  writeInt32 : Int32 → List UInt8
  writeInt64 : Int64 → List UInt8
  writeUInt32 : UInt32 → List UInt8
  writeUInt64 : UInt64 → List UInt8
  writeEnum : Int32 → List UInt8
  /-- Of a `float`, given by its bit pattern. -/
  writeFloat : UInt32 → List UInt8
  writeString : String → List UInt8
  writeBytes : List UInt8 → List UInt8
  /-- Of a message, given by what its `WriteTo` writes. -/
  writeMessage : List UInt8 → List UInt8
  /-- `WriteTo` of a `RepeatedField` with the codec for `uint` under a tag. -/
  writeRepeated : UInt8 → List UInt32 → List UInt8

/-- The messages to the server. -/
inductive Message where
  | cLogin (loginCode : UInt64) (test : String)
  | cMove (roomCode : Int32) (objectId : List UInt32) (position : Option (Vector3 UInt32))
  | cRoomCreate (gameId : UInt64) (gameName gamePassWord : String) (mapHash : List UInt8)
  | cRoomData (dummy : UInt32)
  | cRoomRequest (roomCode : Int32) (gamePassWord : String)
  | cRoomPlayerListRequest (roomCode : Int32)
  | cStartGame (roomCode : Int32)
  | cExitGame (dummy : UInt32)
  | cAttack (roomCode : Int32) (objectId : UInt32) (objectType : Int32)
      (direction : Option (Vector3 UInt32))
  | cRttPing (clientTime : Int64)

/-- `v == 0F`, of the `float` with these bits: both zeros are. -/
def isZero (v : UInt32) : Prop := v = 0 ∨ v = 2147483648

instance (v : UInt32) : Decidable (isZero v) := inferInstanceAs (Decidable (_ ∨ _))

variable (output : CodedOutputStream)

/-- `if (X != 0F)`, the tag and the value. -/
def writeFloatField (tag : UInt8) (v : UInt32) : List UInt8 :=
  if isZero v then [] else output.writeRawTag tag ++ output.writeFloat v

/-- `WriteTo` of a `Vector3`. -/
def writeVector3 (v : Vector3 UInt32) : List UInt8 :=
  writeFloatField output 13 v.x ++ writeFloatField output 21 v.y ++ writeFloatField output 29 v.z

/-- `if (position_ != null)`, the tag and the message. -/
def writeVector3Field (tag : UInt8) : Option (Vector3 UInt32) → List UInt8
  | none => []
  | some v => output.writeRawTag tag ++ output.writeMessage (writeVector3 output v)

/-- `if (RoomCode != 0)`, the tag and the value; so it is for all scalar fields. -/
def writeField {α : Type} [DecidableEq α] (write : α → List UInt8) (tag : UInt8) (default v : α) :
    List UInt8 :=
  if v = default then [] else output.writeRawTag tag ++ write v

/-- `WriteTo`. -/
def Message.writeTo : Message → List UInt8
  | .cLogin loginCode test =>
      writeField output output.writeUInt64 8 0 loginCode
        ++ writeField output output.writeString 18 "" test
  | .cMove roomCode objectId position =>
      writeField output output.writeInt32 8 0 roomCode ++ output.writeRepeated 18 objectId
        ++ writeVector3Field output 26 position
  | .cRoomCreate gameId gameName gamePassWord mapHash =>
      writeField output output.writeUInt64 8 0 gameId
        ++ writeField output output.writeString 18 "" gameName
        ++ writeField output output.writeString 26 "" gamePassWord
        ++ writeField output output.writeBytes 34 [] mapHash
  | .cRoomData dummy => writeField output output.writeUInt32 8 0 dummy
  | .cRoomRequest roomCode gamePassWord =>
      writeField output output.writeInt32 8 0 roomCode
        ++ writeField output output.writeString 18 "" gamePassWord
  | .cRoomPlayerListRequest roomCode => writeField output output.writeInt32 8 0 roomCode
  | .cStartGame roomCode => writeField output output.writeInt32 8 0 roomCode
  | .cExitGame dummy => writeField output output.writeUInt32 8 0 dummy
  | .cAttack roomCode objectId objectType direction =>
      writeField output output.writeInt32 8 0 roomCode
        ++ writeField output output.writeUInt32 16 0 objectId
        ++ writeField output output.writeEnum 24 0 objectType
        ++ writeVector3Field output 34 direction
  | .cRttPing clientTime => writeField output output.writeInt64 8 0 clientTime

/-- `PacketType`. -/
def Message.pktId : Message → Nat
  | .cLogin .. => 1000
  | .cMove .. => 1001
  | .cRoomCreate .. => 1002
  | .cRoomData .. => 1003
  | .cRoomRequest .. => 1004
  | .cRoomPlayerListRequest .. => 1005
  | .cStartGame .. => 1006
  | .cExitGame .. => 1007
  | .cAttack .. => 1008
  | .cRttPing .. => 1009

end StarCraftIocp.PacketWriter
