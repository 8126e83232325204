import StarCraftIocp.Lib.Bytes
import StarCraftIocp.Lib.CInt

/-!
# The client's `PacketMaker`

The game client cuts the payload of a received packet out with the packet's own
size field. `none` stands for an exception. It puts a message to be sent behind a
header whose size field is the length cut down to 16 bits.
-/

namespace StarCraftIocp.PacketMaker

open CInt

/-- `MakeSendBuffer(pkt, type)`, for a message with this serialization: `sendQueue` afterwards. -/
def makeSendBuffer (payload : List UInt8) (type : Nat) (sendQueue : List (List UInt8)) :
    List (List UInt8) :=
  let packetId := (uint16 type).toNat
  let packetSize := (uint16 (2 + 2 + payload.length)).toNat
  sendQueue ++ [Bytes.le16 packetSize ++ Bytes.le16 packetId ++ payload]

/-- `HandlePacket(buffer, type)`: the bytes it hands to its parser. -/
def handlePacket (buffer : List UInt8) : Option (List UInt8) :=
  -- `BitConverter.ToUInt16(buffer, 0)` needs two bytes
  if buffer.length < 2 then none
  else
    let size := Bytes.readLe16 buffer 0
    -- `new byte[size - 4]` takes no negative length, `Array.Copy` none that the source lacks
    if size < 4 then none
    else if buffer.length < 4 + (size - 4) then none
    else some (Bytes.slice buffer 4 (size - 4))

end StarCraftIocp.PacketMaker
