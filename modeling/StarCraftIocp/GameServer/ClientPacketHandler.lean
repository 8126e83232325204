import StarCraftIocp.GameServer.Protocol
import StarCraftIocp.ServerCore.PacketSession
import StarCraftIocp.ServerCore.SendBuffer

/-!
# `ClientPacketHandler`: the handler table, the dispatch of a packet, and replies

`GPacketHandler` is an array of `UINT16_MAX` entries, filled with
`Handle_INVALID` by `Init` and overwritten at the ids of the ten client packets.
`HandlePacket` indexes it with the id in the packet's header, and the entry
parses what is left of the packet behind the header. `MakeSendBuffer` goes the
other way: it frames the serialization of a server message.
-/

namespace StarCraftIocp

open CInt PacketSession

/-- The functions an entry of `GPacketHandler` ends up calling. -/
inductive PacketHandler where
  | invalid
  | cLogin
  | cMove
  | cRoomCreate
  | cRoomData
  | cRoomRequest
  | cRoomPlayerListRequest
  | cStartGame
  | cExitGame
  | cAttack
  | cRttPing
  deriving Repr, DecidableEq

namespace ClientPacketHandler

/-- `Init`: the assignments after the loop, with the loop's `Handle_INVALID` everywhere else. -/
def registered : Nat → PacketHandler
  | 1000 => .cLogin
  | 1001 => .cMove
  | 1002 => .cRoomCreate
  | 1003 => .cRoomData
  | 1004 => .cRoomRequest
  | 1005 => .cRoomPlayerListRequest
  | 1006 => .cStartGame
  | 1007 => .cExitGame
  | 1008 => .cAttack
  | 1009 => .cRttPing
  | _ => .invalid

/-- `GPacketHandler[i]`; `none` is a read behind the end of the array. -/
def gPacketHandler (i : Nat) : Option PacketHandler :=
  if i < uint16Max then some (registered i) else none

/-- What `HandlePacket` does with one packet. -/
structure Dispatch where
  /-- The table entry it calls; `none` when the index is out of range. -/
  handler : Option PacketHandler
  /-- Where `ParseFromArray` starts reading, relative to the buffer `OnRecv` was given. -/
  payloadPos : Int
  /-- The size `ParseFromArray` is given: the packet's length less a `size_t`, as an `int`. -/
  payloadLen : Int
  deriving Repr, DecidableEq

/-- `HandlePacket(session, &buffer[c.offset], c.len)`. -/
def handlePacket (buffer : List UInt8) (c : PacketCall) : Dispatch where
  handler := gPacketHandler (PacketHeader.read (buffer.drop c.offset.toNat)).id
  payloadPos := c.offset + sizeofPacketHeader
  payloadLen := int32 (sizeT (sizeT c.len - sizeofPacketHeader))

/--
`MakeSendBuffer<T>(pkt, pktId)`, for a message whose serialization is `data`. A
message enters only through `ByteSizeLong`, which is the length of `data`, and
`SerializeToArray`, which fails when given less room than that.
-/
def makeSendBuffer (data : List UInt8) (pktId : Nat) (m : SendBufferManager) :
    Except Crash (SendBuffer × SendBufferManager) := do
  let dataSize := (uint16 data.length).toNat
  let packetSize := (uint16 (dataSize + sizeofPacketHeader)).toNat
  let (sendBuffer, m) ← m.openBuffer packetSize
  match sendBuffer, m.lSendBufferChunk with
  | some sendBuffer, some c =>
      let c ← c.write sendBuffer.pos (PacketHeader.bytes { size := packetSize, id := pktId })
      if dataSize < data.length then .error .assertCrash
      else
        let c ← c.write (sendBuffer.pos + sizeofPacketHeader) data
        let (sendBuffer, c) ← sendBuffer.close c packetSize
        return (sendBuffer, { m with lSendBufferChunk := some c })
  | _, _ => .error .nullSendBuffer

end ClientPacketHandler

namespace Protocol.ServerMessage

variable {F : Type} [Scalar F]

/-- `MakeSendBuffer(pkt)`. -/
def makeSendBuffer (msg : ServerMessage F) (m : SendBufferManager) :
    Except Crash (SendBuffer × SendBufferManager) :=
  ClientPacketHandler.makeSendBuffer msg.serialize msg.pktId m

/--
`MakeSendBuffer(pkt)` where only the message matters and not where its frame
lies. Whether it crashes does not depend on the state of the thread's chunk, so
that of a thread that has sent nothing yet stands for them all.
-/
def frame (msg : ServerMessage F) : Except Crash (ServerMessage F) := do
  let _ ← msg.makeSendBuffer SendBufferManager.init
  return msg

end Protocol.ServerMessage

end StarCraftIocp
