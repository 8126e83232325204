import StarCraftIocp.GameServer.RoomRun
import StarCraftIocp.GameServer.SocketServer
import StarCraftIocp.Lib.Transition
import StarCraftIocp.Proof.ClientPackets
import StarCraftIocp.Proof.ClientStream
import StarCraftIocp.Proof.Membership

/-!
# From the clients' messages to the handlers

A run of the server on its sockets is a run of the packet handlers. For a client
that sends messages, however its bytes are cut up and whatever other clients send
in between, the packets handled for its session are its messages in their order:
none is lost, changed or handled twice.
-/

namespace StarCraftIocp

open PacketSession Protocol

variable {F : Type} [Scalar F]

namespace PacketSession

/-- Packets are delivered behind the earlier ones. -/
theorem delivered_arrive {fuel : Nat} {s s' : PacketSession} {chunk : List UInt8}
    (h : arrive fuel s chunk = some s') : s.delivered <+: s'.delivered := by
  have hsame : ∀ cause, s.delivered <+:
      (({ s with recvBuffer := s.recvBuffer.deposit chunk } : PacketSession).disconnect cause).delivered := by
    intro cause
    unfold disconnect
    split <;> exact List.prefix_rfl
  unfold arrive processRecv at h
  split at h
  · obtain rfl := Option.some.inj h
    exact hsame _
  split at h
  · obtain rfl := Option.some.inj h
    exact hsame _
  dsimp only at h
  split at h
  · cases h
  split at h
  · obtain rfl := Option.some.inj h
    unfold disconnect
    split <;> exact List.prefix_append _ _
  split at h
  · obtain rfl := Option.some.inj h
    unfold disconnect
    split <;> exact List.prefix_append _ _
  · obtain rfl := Option.some.inj h
    exact List.prefix_append _ _

end PacketSession

namespace SocketServer

/-- The packets of one session in a run of the world. -/
def packetsOf (s : SessionRef) (log : List (Env F × Event F)) : List (ClientPacket F) :=
  log.filterMap fun a =>
    match a.2 with
    | .packet t pkt => if t = s then some pkt else none
    | _ => none

/-- The packet a handler is called with, if one is. -/
def meant (ofBits : UInt32 → F) (packet : List UInt8) : Option (ClientPacket F) :=
  (ClientPacketHandler.receive ofBits packet).join

/-- What is handled has been cut off what has arrived. -/
structure Conveys (ofBits : UInt32 → F) (maps : List UInt8 → Option MapSectionData) (b : SocketServer F) :
    Prop where
  /-- The log leads to the world. -/
  runs : b.log.foldlM World.next (World.init maps) = some b.world
  /-- What is delivered has been handled or is pending. -/
  conveyed : ∀ s, ∃ done, (b.recv s).delivered = done ++ b.pending s ∧
    packetsOf s b.log = done.filterMap (meant ofBits)
  /-- What arrives of a stream of frames is cut at the frames. -/
  received : ∀ s (fs : List (List UInt8)), (∀ f ∈ fs, packetFraming.IsFrame f) → b.arrived s <+: fs.flatten →
    RecvInv (b.recv s) (b.arrived s)

namespace Conveys

variable {ofBits : UInt32 → F} {maps : List UInt8 → Option MapSectionData} {b b' : SocketServer F}

theorem init : Conveys ofBits maps (SocketServer.init maps) where
  runs := rfl
  conveyed _ := ⟨[], rfl, rfl⟩
  received _ _ _ _ := recvInv_init

/-- A step of the world that is no packet. -/
theorem act (h : Conveys ofBits maps b) {a : Env F × Event F} (hact : b.act a = some b')
    (hnot : ∀ s, packetsOf s [a] = []) : Conveys ofBits maps b' := by
  obtain ⟨world, hnext, hb⟩ := Option.bind_eq_some_iff.mp hact
  obtain rfl := Option.some.inj hb
  refine ⟨run_concat h.runs hnext, ?_, h.received⟩
  · intro s
    obtain ⟨done, hdone, hlog⟩ := h.conveyed s
    refine ⟨done, hdone, ?_⟩
    change packetsOf s (b.log ++ [a]) = _
    unfold packetsOf at hlog hnot ⊢
    rw [List.filterMap_append, hnot s, List.append_nil, hlog]

theorem arrive (h : Conveys ofBits maps b) {s : SessionRef} {chunk : List UInt8}
    (harrive : b.arrive s chunk = some b') : Conveys ofBits maps b' := by
  unfold SocketServer.arrive at harrive
  split at harrive
  · next hrecv =>
    obtain ⟨-, -, hidle, hne, hfit⟩ := hrecv
    obtain ⟨session, hsession, hb⟩ := Option.bind_eq_some_iff.mp harrive
    obtain rfl := Option.some.inj hb
    refine ⟨h.runs, ?_, ?_⟩
    · intro t
      obtain ⟨done, hdone, hlog⟩ := h.conveyed t
      refine ⟨done, ?_, hlog⟩
      dsimp only
      rcases eq_or_ne t s with rfl | hts
      · obtain ⟨new, hnew⟩ := delivered_arrive hsession
        rw [hidle, List.append_nil] at hdone
        rw [Function.update_self, Function.update_self, ← hnew, List.drop_left, hdone]
      · rw [Function.update_of_ne hts, Function.update_of_ne hts, hdone]
    · intro t fs hfs hpre
      dsimp only at hpre ⊢
      rcases eq_or_ne t s with rfl | hts
      · rw [Function.update_self] at hpre ⊢
        rw [Function.update_self]
        have hinv := h.received t fs hfs ((List.prefix_append _ _).trans hpre)
        obtain ⟨more, hmore⟩ := hpre
        have hstream : packetFraming.Splits ((b.arrived t ++ chunk) ++ more) fs [] := hmore ▸ Framing.splits_flatten hfs
        -- the unfinished rest and the chunk split where the stream does
        obtain ⟨new, -, hsplits⟩ := hinv.splits.resume hstream.of_append
        obtain ⟨session', h1, hinv', -⟩ := @arrive_spec _ _ _ _ _ recvFuel hinv hne hfit hsplits (by decide)
        obtain rfl := Option.some.inj (hsession.symm.trans h1)
        exact hinv'
      · rw [Function.update_of_ne hts] at hpre ⊢
        rw [Function.update_of_ne hts]
        exact h.received t fs hfs hpre
  · cases harrive

theorem handle (h : Conveys ofBits maps b) {env : Env F} {s : SessionRef}
    (hhandle : b.handle ofBits env s = some b') : Conveys ofBits maps b' := by
  unfold SocketServer.handle at hhandle
  split at hhandle
  · cases hhandle
  · next packet rest hpending =>
    obtain ⟨received, hreceive, hb⟩ := Option.bind_eq_some_iff.mp hhandle
    have hmeant : meant ofBits packet = received := by
      unfold meant
      rw [hreceive]
      rfl
    -- the packet moves from what is pending to what is done
    have hmoves : ∀ log, packetsOf s log = packetsOf s b.log ++ received.toList →
        (∀ t, t ≠ s → packetsOf t log = packetsOf t b.log) → ∀ t, ∃ done,
          (b.recv t).delivered = done ++ (Function.update b.pending s rest) t ∧
          packetsOf t log = done.filterMap (meant ofBits) := by
      intro log hs ht t
      obtain ⟨done, hdone, hlog⟩ := h.conveyed t
      rcases eq_or_ne t s with rfl | hts
      · refine ⟨done ++ [packet], ?_, ?_⟩
        · rw [hdone, hpending, Function.update_self, List.append_assoc, List.singleton_append]
        · rw [hs, hlog, List.filterMap_append, List.filterMap_cons, hmeant]
          cases received <;> rfl
      · refine ⟨done, ?_, (ht t hts).trans hlog⟩
        rw [hdone, Function.update_of_ne hts]
    cases received with
    | none =>
        obtain rfl := Option.some.inj hb
        exact ⟨h.runs, hmoves b.log (List.append_nil _).symm fun _ _ => rfl, h.received⟩
    | some pkt =>
        obtain ⟨world, hnext, hb⟩ := Option.bind_eq_some_iff.mp hb
        obtain rfl := Option.some.inj hb
        refine ⟨run_concat h.runs hnext, hmoves _ ?_ ?_, h.received⟩
        · unfold packetsOf
          rw [List.filterMap_append]
          simp
        · intro t hts
          unfold packetsOf
          rw [List.filterMap_append]
          simp [hts.symm]

theorem next (h : Conveys ofBits maps b) {a : Env F × SocketEvent}
    (hs : SocketServer.next ofBits b a = some b') : Conveys ofBits maps b' := by
  obtain ⟨env, e⟩ := a
  cases e with
  | connect => exact h.act hs fun _ => rfl
  | arrive s chunk => exact h.arrive hs
  | handle s => exact h.handle hs
  | disconnect s => exact h.act hs fun _ => rfl
  | update => exact h.act hs fun _ => rfl

theorem reachable (h : Reachable (Transition.ofFun (SocketServer.next ofBits)) (SocketServer.init maps) b) :
    Conveys ofBits maps b :=
  h.invariant init fun _ _ _ hb hs => hb.next hs

end Conveys

/-! ## Messages -/

end SocketServer

namespace PacketWriter

variable {output : CodedOutputStream}

/--
A message and what is sent for it: the bytes that this client writes, and between
its fields such that the server does not know.
-/
structure Payload (output : CodedOutputStream) where
  message : Message
  payload : List UInt8
  padded : message.Padded output payload
  length_le : payload.length ≤ 65531

/-- What this client sends. -/
def Message.plain (m : Message) (h : (m.writeTo output).length ≤ 65531) : Payload output where
  message := m
  payload := m.writeTo output
  padded := padded_writeTo output m
  length_le := h

/-- The message as `MakeSendBuffer` is given it. -/
def Payload.made (p : Payload output) : PacketMaker.Message where
  payload := p.payload
  type := p.message.pktId

theorem Message.pktId_lt (m : Message) : m.pktId < 65535 := by
  cases m <;> simp [pktId]

omit [Scalar F] in
/-- The server's handlers are called with what the client has sent. -/
theorem meant_frame (hw : output.Standard) (ofBits : UInt32 → F) (p : Payload output) :
    SocketServer.meant ofBits p.made.frame = some (p.message.packet ofBits) := by
  have hlen := p.length_le
  have hframe := PacketMaker.length_frame p.made
  have hid : (PacketHeader.read p.made.frame).id = p.message.pktId := by
    have hlt := p.message.pktId_lt
    have htype : (CInt.uint16 p.message.pktId).toNat = p.message.pktId := by
      unfold CInt.uint16; omega
    have hread := Bytes.readLe16_le16 (n := p.message.pktId) (by omega)
      (Bytes.le16 (CInt.uint16 (2 + 2 + p.payload.length)).toNat) p.payload
    change Bytes.readLe16 (_ ++ Bytes.le16 (CInt.uint16 p.message.pktId).toNat ++ _) 2 = _
    rw [htype]
    exact hread
  have hhandler : (ClientPacketHandler.handlePacket p.made.frame ⟨0, p.made.frame.length⟩).handler =
      some (ClientPacketHandler.registered p.message.pktId) := by
    change ClientPacketHandler.gPacketHandler (PacketHeader.read p.made.frame).id = _
    rw [hid]
    exact if_pos p.message.pktId_lt
  have hparsed := PacketMaker.parsed_frame (m := p.made) hlen
  have hwritten := length_writeTo_le p.padded
  have hparse := parse_of_padded hw ofBits (by omega) p.padded
  unfold SocketServer.meant ClientPacketHandler.receive
  dsimp only
  rw [if_neg (by rw [hframe]; unfold sizeofPacketHeader; omega), hhandler]
  change (ClientPacketHandler.registered p.message.pktId).parse ofBits (PacketMaker.parsed p.made.frame) = _
  rw [hparsed]
  exact hparse

end PacketWriter

namespace SocketServer

open PacketWriter

/-- What goes out on the socket of a client that sends these messages. -/
def stream {output : CodedOutputStream} (messages : List (Payload output)) : List UInt8 :=
  (PacketMaker.sendAll (messages.map Payload.made)).flatten

/-- A ping, with a field in front that the server does not know. -/
def ping : Payload wireOutput where
  message := .cRttPing 5
  payload := [24, 1] ++ [8, 5]
  padded := .unknown rfl (reads_rawTag (by decide)) (fun rest => by cases rest <;> rfl) (.piece .nil)
  length_le := by decide

def login : Payload wireOutput := Message.plain (.cLogin 2 "test") (by decide)

def roomData : Payload wireOutput := Message.plain (.cRoomData 0) (by decide)

/-- One client sends a ping and asks for the rooms, and another logs in; two of the cuts are inside a header. -/
def twoClients : List (Env ℚ × SocketEvent) :=
  [.connect, .connect, .arrive 0 [8, 0, 241], .arrive 1 [12, 0, 232, 3, 8, 2],
    .arrive 0 [3, 24, 1, 8, 5, 4, 0], .handle 0, .arrive 1 [18, 4, 116, 101, 115, 116],
    .arrive 0 [235, 3], .handle 1, .handle 0].map (Prod.mk Env.still)

/-- What has come in, and what is sent. -/
theorem run_twoClients : ∃ b : SocketServer ℚ,
    Reachable (Transition.ofFun (SocketServer.next fun _ => 0)) (SocketServer.init fun _ => none) b ∧
      (b.arrived 0 = [8, 0, 241, 3, 24, 1, 8, 5, 4, 0, 235, 3] ∧ b.pending 0 = []) ∧
        (b.arrived 1 = [12, 0, 232, 3, 8, 2, 18, 4, 116, 101, 115, 116] ∧ b.pending 1 = []) ∧
          b.world.sent = [(0, .sRttPong 5 0), (1, .sLogin 2 true), (0, .sRoomData [])] := by
  have hrun : (twoClients.foldlM (SocketServer.next fun _ => (0 : ℚ)) (SocketServer.init fun _ => none)).map
      (fun b => decide ((b.arrived 0 = [8, 0, 241, 3, 24, 1, 8, 5, 4, 0, 235, 3] ∧ b.pending 0 = []) ∧
        (b.arrived 1 = [12, 0, 232, 3, 8, 2, 18, 4, 116, 101, 115, 116] ∧ b.pending 1 = []) ∧
          b.world.sent = [(0, .sRttPong 5 0), (1, .sLogin 2 true), (0, .sRoomData [])])) = some true := by
    decide +kernel
  obtain ⟨b, hb, hobs⟩ := Option.map_eq_some_iff.mp hrun
  exact ⟨b, Reachable.of_run hb .refl, of_decide_eq_true hobs⟩

/--
**What a client sends is what is handled for its session**, in any run of the
server on its sockets: the run is one of the handlers, and in it the packets of a
session whose bytes are a client's messages are these messages in order, as far
as they have arrived and been handled; all of them once nothing is left to do.
-/
theorem conveys_reachable {output : CodedOutputStream} (hw : output.Standard) {ofBits : UInt32 → F}
    {maps : List UInt8 → Option MapSectionData} {b : SocketServer F}
    (h : Reachable (Transition.ofFun (SocketServer.next ofBits)) (SocketServer.init maps) b) :
    b.log.foldlM World.next (World.init maps) = some b.world ∧
      ∀ s (messages : List (Payload output)), b.arrived s <+: stream messages →
        packetsOf s b.log <+: messages.map (fun p => p.message.packet ofBits) ∧
          (b.arrived s = stream messages → b.pending s = [] →
            packetsOf s b.log = messages.map fun p => p.message.packet ofBits) := by
  have hinv := Conveys.reachable h
  refine ⟨hinv.runs, ?_⟩
  intro s messages hpre
  have hstream : stream messages = (messages.map fun p => p.made.frame).flatten := by
    unfold stream
    rw [PacketMaker.sendAll_eq, List.map_map]
    rfl
  have hframes : ∀ f ∈ messages.map fun p => p.made.frame, packetFraming.IsFrame f := by
    intro f hf
    obtain ⟨p, -, rfl⟩ := List.mem_map.mp hf
    exact PacketMaker.isFrame_frame p.length_le
  have hmeant : (messages.map fun p => p.made.frame).filterMap (meant ofBits) =
      messages.map fun p => p.message.packet ofBits := by
    rw [List.filterMap_map, ← List.filterMap_eq_map]
    exact List.filterMap_congr fun p _ => meant_frame hw ofBits p
  rw [hstream] at hpre
  have hrecv := hinv.received s _ hframes hpre
  obtain ⟨done, hdone, hlog⟩ := hinv.conveyed s
  refine ⟨?_, ?_⟩
  · have hprefix := hrecv.splits.isPrefix hframes hpre
    rw [hdone] at hprefix
    rw [hlog, ← hmeant]
    exact ((List.prefix_append _ _).trans hprefix).filterMap _
  · intro hall hidle
    rw [hall, hstream] at hrecv
    have hwhole := (Framing.splits_unique hrecv.splits (Framing.splits_flatten hframes)).1
    rw [hidle, List.append_nil] at hdone
    rw [hlog, ← hdone, hwhole]
    exact hmeant

theorem conveys_reachable_two : ∃ b : SocketServer ℚ,
    (b.arrived 0 = stream [ping, roomData] ∧ packetsOf 0 b.log = [.cRttPing 5, .cRoomData]) ∧
      b.arrived 1 = stream [login] ∧ packetsOf 1 b.log = [.cLogin 2] := by
  obtain ⟨b, h, ⟨harrived, hidle⟩, ⟨harrived', hidle'⟩, -⟩ := run_twoClients
  have hstream : b.arrived 0 = stream [ping, roomData] := harrived
  have hstream' : b.arrived 1 = stream [login] := harrived'
  have hconveys := (conveys_reachable standard_wireOutput h).2
  exact ⟨b, ⟨hstream, (hconveys 0 _ (hstream ▸ List.prefix_rfl)).2 hstream hidle⟩, hstream',
    (hconveys 1 _ (hstream' ▸ List.prefix_rfl)).2 hstream' hidle'⟩

end SocketServer

end StarCraftIocp
