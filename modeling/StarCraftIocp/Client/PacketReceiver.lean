import StarCraftIocp.Lib.Bytes
import StarCraftIocp.Lib.CInt

/-!
# The client's `PacketReceiver`

Received bytes go through a queue, off which whole packets are taken. The size of a
packet is read as a signed number, unlike on the server.
-/

namespace StarCraftIocp

open CInt

/-- `receiveQueue`, and what has been put in the `recvQueue` of `ServerConnect`. -/
structure PacketReceiver where
  receiveQueue : List UInt8
  recvQueue : List (List UInt8)
  deriving Repr, DecidableEq

namespace PacketReceiver

def init : PacketReceiver where
  receiveQueue := []
  recvQueue := []

/-- `OnReceiveCompleted` has not come to its end. -/
inductive Failure where
  /-- `new byte[packetSize]` with a negative size. -/
  | overflowException
  /-- The loop has not ended within the fuel. -/
  | running
  deriving Repr, DecidableEq

/-- The loop of `OnReceiveCompleted`. -/
def receiveLoop : Nat → PacketReceiver → Except Failure PacketReceiver
  | 0, _ => .error .running
  | fuel + 1, r =>
      if r.receiveQueue.length < 4 then .ok r
      else
        -- `BitConverter.ToInt16`
        let packetSize := int16 (Bytes.readLe16 r.receiveQueue 0)
        if r.receiveQueue.length < packetSize then .ok r
        else if packetSize < 0 then .error .overflowException
        else receiveLoop fuel {
          receiveQueue := r.receiveQueue.drop packetSize.toNat
          recvQueue := r.recvQueue ++ [r.receiveQueue.take packetSize.toNat] }

/-- `OnReceiveCompleted`, with the bytes that were transferred. -/
def onReceiveCompleted (fuel : Nat) (r : PacketReceiver) (received : List UInt8) :
    Except Failure PacketReceiver :=
  if received = [] then .ok r
  else receiveLoop fuel { r with receiveQueue := r.receiveQueue ++ received }

/-- Chunks are received one after another. -/
def receiveAll (fuel : Nat) (r : PacketReceiver) (chunks : List (List UInt8)) :
    Except Failure PacketReceiver :=
  chunks.foldlM (onReceiveCompleted fuel) r

end PacketReceiver

end StarCraftIocp
