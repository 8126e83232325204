import StarCraftIocp.GameServer.Handlers
import StarCraftIocp.GameServer.PacketParse

/-!
# The server on its sockets

The server as its clients reach it: bytes arrive for a session, `OnRecv` cuts
packets off them, and these are handled one after the other before the session
receives again. What other sessions do comes in between at any point. A step
that is undefined in the source, or that does not return, is no step here.
-/

namespace StarCraftIocp

open PacketSession Protocol

variable {F : Type} [Scalar F]

/-- `HandlePacket` on a packet: the outer `none` is undefined, the inner one does nothing. -/
def ClientPacketHandler.receive {F : Type} (ofBits : UInt32 → F) (packet : List UInt8) :
    Option (Option (ClientPacket F)) :=
  let dispatch := handlePacket packet ⟨0, packet.length⟩
  if packet.length < sizeofPacketHeader then none
  else dispatch.handler.map fun handler =>
    handler.parse ofBits (Bytes.slice packet dispatch.payloadPos.toNat dispatch.payloadLen.toNat)

/-- The world, the receiving half of every session, and the packets cut off but not yet handled. -/
structure SocketServer (F : Type) where
  world : World F
  recv : SessionRef → PacketSession
  pending : SessionRef → List (List UInt8)
  /-- History: the bytes that have arrived for each session. -/
  arrived : SessionRef → List UInt8
  /-- History: the steps of the world. -/
  log : List (Env F × Event F)

inductive SocketEvent where
  | connect
  /-- `WSARecv` completes with these bytes. -/
  | arrive (s : SessionRef) (chunk : List UInt8)
  /-- The next call of `OnRecvPacket`. -/
  | handle (s : SessionRef)
  | disconnect (s : SessionRef)
  | update

namespace SocketServer

def init (maps : List UInt8 → Option MapSectionData) : SocketServer F where
  world := World.init maps
  recv := fun _ => PacketSession.init
  pending := fun _ => []
  arrived := fun _ => []
  log := []

/-- A pass of `OnRecv` takes a byte at least, or it goes on for ever. -/
def recvFuel : Nat := 655362

/-- A step of the world. -/
def act (b : SocketServer F) (a : Env F × Event F) : Option (SocketServer F) := do
  let world ← b.world.next a
  return { b with world := world, log := b.log ++ [a] }

/-- What `WSARecv` guarantees, and that the session is not still busy with the last bytes. -/
def Receives (b : SocketServer F) (s : SessionRef) (chunk : List UInt8) : Prop :=
  s < b.world.nextSession ∧ (b.recv s).connected = true ∧ b.pending s = [] ∧ chunk ≠ [] ∧
    (chunk.length : Int) ≤ (b.recv s).recvBuffer.freeSize

instance (b : SocketServer F) (s : SessionRef) (chunk : List UInt8) : Decidable (b.Receives s chunk) :=
  inferInstanceAs (Decidable (_ ∧ _ ∧ _ ∧ _ ∧ _))

def arrive (b : SocketServer F) (s : SessionRef) (chunk : List UInt8) : Option (SocketServer F) :=
  if b.Receives s chunk then do
    let session ← (b.recv s).arrive recvFuel chunk
    return { b with
      recv := Function.update b.recv s session
      pending := Function.update b.pending s (session.delivered.drop (b.recv s).delivered.length)
      arrived := Function.update b.arrived s (b.arrived s ++ chunk) }
  else none

def handle (ofBits : UInt32 → F) (env : Env F) (b : SocketServer F) (s : SessionRef) :
    Option (SocketServer F) :=
  match b.pending s with
  | [] => none
  | packet :: rest => do
      let b := { b with pending := Function.update b.pending s rest }
      match ← ClientPacketHandler.receive ofBits packet with
      | none => some b
      | some pkt => b.act (env, .packet s pkt)

def next (ofBits : UInt32 → F) (b : SocketServer F) (a : Env F × SocketEvent) : Option (SocketServer F) :=
  match a.2 with
  | .connect => b.act (a.1, .connect)
  | .arrive s chunk => b.arrive s chunk
  | .handle s => b.handle ofBits a.1 s
  | .disconnect s => b.act (a.1, .disconnect s)
  | .update => b.act (a.1, .update)

end SocketServer

end StarCraftIocp
