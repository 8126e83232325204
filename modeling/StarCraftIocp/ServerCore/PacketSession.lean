import StarCraftIocp.Lib.Framing
import StarCraftIocp.ServerCore.RecvBuffer

/-!
# `Session::ProcessRecv` and `PacketSession::OnRecv`

The receive half of a session: a completed `WSARecv` hands a number of bytes to
`ProcessRecv`, which lets `OnRecv` cut packets off the readable part of the
receive buffer.

    [size(2)][id(2)][data....][size(2)][id(2)][data....]

`OnRecv` is a `while (true)` loop whose progress depends on what the client
wrote, so it is modelled one pass at a time (`onRecvBody`) and run with fuel:
`none` means that the loop has not returned yet.
-/

namespace StarCraftIocp

open CInt

/-- `PacketHeader`: two `uint16` fields, packed. -/
structure PacketHeader where
  size : Nat
  id : Nat
  deriving Repr, DecidableEq

/-- `sizeof(PacketHeader)`. -/
def sizeofPacketHeader : Nat := 4

/-- The header stored at the start of `bytes`. -/
def PacketHeader.read (bytes : List UInt8) : PacketHeader where
  size := Bytes.readLe16 bytes 0
  id := Bytes.readLe16 bytes 2

/-- The bytes of a header. -/
def PacketHeader.bytes (h : PacketHeader) : List UInt8 := Bytes.le16 h.size ++ Bytes.le16 h.id

theorem PacketHeader.read_append {a b : List UInt8} (h : sizeofPacketHeader ≤ a.length) :
    PacketHeader.read (a ++ b) = PacketHeader.read a := by
  unfold sizeofPacketHeader at h
  unfold PacketHeader.read
  rw [Bytes.readLe16_append (by omega), Bytes.readLe16_append (by omega)]

theorem PacketHeader.read_bytes {h : PacketHeader} (hs : h.size < 65536) (hi : h.id < 65536)
    (r : List UInt8) : PacketHeader.read (h.bytes ++ r) = h := by
  unfold PacketHeader.read PacketHeader.bytes
  have h0 := Bytes.readLe16_le16 hs [] (Bytes.le16 h.id ++ r)
  have h1 := Bytes.readLe16_le16 hi (Bytes.le16 h.size) r
  simp only [List.nil_append, List.length_nil, Bytes.length_le16] at h0 h1
  rw [List.append_assoc, h0, ← List.append_assoc, h1]

/-- The packet format as a frame format: the size field counts the whole packet. -/
def packetFraming : Framing UInt8 where
  header := sizeofPacketHeader
  size := fun bs => (PacketHeader.read bs).size
  header_pos := by decide
  size_append := fun a b h => by rw [PacketHeader.read_append h]

namespace PacketSession

/-- One call `OnRecvPacket(&buffer[offset], len)`. -/
structure PacketCall where
  offset : Int
  len : Int
  deriving Repr, DecidableEq

/-- The bytes a call hands over, out of the memory behind `buffer`. -/
def PacketCall.bytes (buffer : List UInt8) (c : PacketCall) : List UInt8 :=
  Bytes.slice buffer c.offset.toNat c.len.toNat

/--
One pass through the body of the `while (true)` loop of `OnRecv`. `none` is
`break`; a packet call is followed by `processLen += header.size`.
-/
def onRecvBody (buffer : List UInt8) (len processLen : Int) : Option PacketCall :=
  let dataSize := len - processLen
  -- `sizeof` is a `size_t`, so the comparison is unsigned
  if sizeT dataSize < sizeofPacketHeader then none
  else
    let header := PacketHeader.read (buffer.drop processLen.toNat)
    if dataSize < header.size then none
    else some { offset := processLen, len := header.size }

/-- The loop of `OnRecv`, entered with `processLen`: its calls in order and the value returned. -/
def onRecvLoop (buffer : List UInt8) (len : Int) : Nat → Int → Option (List PacketCall × Int)
  | 0, _ => none
  | fuel + 1, processLen =>
      match onRecvBody buffer len processLen with
      | none => some ([], processLen)
      | some c =>
          match onRecvLoop buffer len fuel (processLen + c.len) with
          | none => none
          | some (cs, p) => some (c :: cs, p)

/-- `PacketSession::OnRecv`. -/
def onRecv (fuel : Nat) (buffer : List UInt8) (len : Int) : Option (List PacketCall × Int) :=
  onRecvLoop buffer len fuel 0

/-- The values of `processLen` with which `OnRecv` enters a pass of its loop. -/
inductive Enters (buffer : List UInt8) (len : Int) : Int → Prop where
  | start : Enters buffer len 0
  | next {p : Int} {c : PacketCall} :
      Enters buffer len p → onRecvBody buffer len p = some c → Enters buffer len (p + c.len)

/-- The causes `ProcessRecv` disconnects with. -/
inductive DisconnectCause where
  | recv0
  | onWriteOverflow
  | onReadOverflow
  deriving Repr, DecidableEq

/-- The text `Disconnect` prints. -/
def DisconnectCause.text : DisconnectCause → String
  | .recv0 => "Recv 0"
  | .onWriteOverflow => "OnWrite Overflow"
  | .onReadOverflow => "OnRead Overflow"

end PacketSession

open PacketSession

/-- The part of a session that receiving reads and writes. -/
structure PacketSession where
  connected : Bool
  recvBuffer : RecvBuffer
  /-- The arguments `OnRecvPacket` has been called with, in order. -/
  delivered : List (List UInt8)
  /-- What `Disconnect` has printed. -/
  printed : List String

namespace PacketSession

/-- `BUFFER_SIZE`, 64KB. -/
def bufferSize : Int := 65536

/-- A session when its first `WSARecv` is posted. -/
def init : PacketSession where
  connected := true
  recvBuffer := RecvBuffer.new bufferSize
  delivered := []
  printed := []

/-- `Session::Disconnect`: only the first call has an effect. -/
def disconnect (s : PacketSession) (cause : DisconnectCause) : PacketSession :=
  if s.connected then { s with connected := false, printed := s.printed ++ [cause.text] } else s

/-- `Session::ProcessRecv`. `none`: `OnRecv` has not returned within the fuel. -/
def processRecv (fuel : Nat) (s : PacketSession) (numOfBytes : Int) : Option PacketSession :=
  if numOfBytes = 0 then some (s.disconnect .recv0)
  else
    match s.recvBuffer.onWrite numOfBytes with
    | none => some (s.disconnect .onWriteOverflow)
    | some b =>
        let buffer := b.buffer.drop b.readPos.toNat
        let dataSize := b.dataSize
        match onRecv fuel buffer dataSize with
        | none => none
        | some (calls, processLen) =>
            let s := { s with
              recvBuffer := b
              delivered := s.delivered ++ calls.map (PacketCall.bytes buffer) }
            if processLen < 0 ∨ dataSize < processLen then some (s.disconnect .onReadOverflow)
            else
              match b.onRead processLen with
              | none => some (s.disconnect .onReadOverflow)
              | some b => some { s with recvBuffer := b.clean.value }

/-- `WSARecv` completes with `chunk`: the bytes are in the buffer, and `ProcessRecv` runs. -/
def arrive (fuel : Nat) (s : PacketSession) (chunk : List UInt8) : Option PacketSession :=
  processRecv fuel { s with recvBuffer := s.recvBuffer.deposit chunk } chunk.length

/-- Chunks arriving one after another. -/
def arriveAll (fuel : Nat) : PacketSession → List (List UInt8) → Option PacketSession
  | s, [] => some s
  | s, c :: cs =>
      match arrive fuel s c with
      | none => none
      | some s' => arriveAll fuel s' cs

/--
What `WSARecv` guarantees of the chunks it hands over: none is empty, and each
fits the room that was free in the buffer when it arrived.
-/
def Deliverable (fuel : Nat) : PacketSession → List (List UInt8) → Prop
  | _, [] => True
  | s, c :: cs => c ≠ [] ∧ (c.length : Int) ≤ s.recvBuffer.freeSize
      ∧ ∀ s', arrive fuel s c = some s' → Deliverable fuel s' cs

end PacketSession

end StarCraftIocp
