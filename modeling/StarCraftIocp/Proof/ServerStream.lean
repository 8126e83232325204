import StarCraftIocp.Proof.SentMessages

/-!
# From the server's messages to the client

What the server sends to a session, in any run on its sockets, gets to `Process` of
the client as it was meant, in the same order, however the stream is cut up on the
way. Nothing that other clients send can make the client throw.
-/

namespace StarCraftIocp

open Protocol PacketReader CInt

variable {F : Type} [Scalar F]

namespace Protocol.ServerMessage

/-- `MakeSendBuffer` has written this for the message, on a thread that may have sent before. -/
def Written (msg : ServerMessage F) (frame : List UInt8) : Prop :=
  ∃ (m : SendBufferManager) (b : SendBuffer) (m' : SendBufferManager) (c : SendBufferChunk),
    m.WF ∧ msg.makeSendBuffer m = .ok (b, m') ∧ m'.lSendBufferChunk = some c ∧ b.frame c = frame

variable {msg : ServerMessage F} {frame : List UInt8}

/-- A frame is a header and the serialization. -/
theorem Written.eq (h : msg.Written frame) : msg.serialize.length ≤ 5996 ∧
    frame = PacketHeader.bytes { size := 4 + msg.serialize.length, id := msg.pktId } ++ msg.serialize := by
  obtain ⟨m, b, m', c, hwf, hmade, hchunk, rfl⟩ := h
  have hlen := ClientPacketHandler.length_le_of_makeSendBuffer hwf hmade
  obtain ⟨b1, m1, c1, hmade1, -, hchunk1, -, hframe⟩ := ClientPacketHandler.makeSendBuffer_ok hwf msg.pktId hlen
  obtain ⟨rfl, rfl⟩ := Prod.mk.inj (Except.ok.inj (hmade.symm.trans hmade1))
  obtain rfl := Option.some.inj (hchunk.symm.trans hchunk1)
  exact ⟨hlen, hframe⟩

theorem written_frame (h : msg.byteSizeLong ≤ 5996) :
    msg.Written (PacketHeader.bytes { size := 4 + msg.serialize.length, id := msg.pktId } ++ msg.serialize) := by
  obtain ⟨b, m', c, hmade, -, hchunk, -, hframe⟩ :=
    ClientPacketHandler.makeSendBuffer_ok SendBufferManager.wf_init msg.pktId h
  exact ⟨_, b, m', c, SendBufferManager.wf_init, hmade, hchunk, hframe⟩

theorem Written.length (h : msg.Written frame) : frame.length = 4 + msg.serialize.length := by
  obtain ⟨-, rfl⟩ := h.eq
  rw [List.length_append]
  rfl

theorem Written.read (h : msg.Written frame) :
    PacketHeader.read frame = { size := 4 + msg.serialize.length, id := msg.pktId } := by
  obtain ⟨hlen, rfl⟩ := h.eq
  exact PacketHeader.read_bytes (by dsimp only; omega) msg.pktId_lt _

theorem Written.isFrame (h : msg.Written frame) : packetFraming.IsFrame frame where
  header_le := by
    rw [h.length]
    exact Nat.le_add_right _ _
  size_eq := by
    rw [h.length]
    exact congrArg PacketHeader.size h.read

theorem Written.length_lt (h : msg.Written frame) : frame.length ≤ 32767 := by
  have hlen := h.eq.1
  rw [h.length]
  omega

omit [Scalar F] in
theorem pktId_mem (msg : ServerMessage F) : 1010 ≤ msg.pktId ∧ msg.pktId ≤ 1022 := by
  cases msg <;> exact ⟨by simp [pktId], by simp [pktId]⟩

/-- `HandlePacket` cuts the serialization out again. -/
theorem Written.handlePacket (h : msg.Written frame) : PacketMaker.handlePacket frame = some msg.serialize := by
  have hsize : Bytes.readLe16 frame 0 = 4 + msg.serialize.length := congrArg PacketHeader.size h.read
  have hlen := h.length
  unfold PacketMaker.handlePacket
  rw [if_neg (by omega)]
  dsimp only
  rw [hsize, if_neg (by omega), if_neg (by omega), Nat.add_sub_cancel_left, h.eq.2]
  simp [Bytes.slice, PacketHeader.bytes, Bytes.le16]

/-- **A frame that comes in is handed on as the message that was meant.** -/
theorem Written.recvPacket {input : CodedInputStream} (h : msg.Written frame) (hi : input.Standard)
    (hreadable : msg.Readable) : recvPacket input frame = some (some msg.received) := by
  have hid : Bytes.readLe16 frame 2 = msg.pktId := congrArg PacketHeader.id h.read
  have hlen := h.length
  have hmem := msg.pktId_mem
  have hshort : msg.byteSizeLong ≤ 5996 := h.eq.1
  unfold PacketReader.recvPacket
  rw [if_neg (by omega)]
  dsimp only
  rw [hid, if_neg (by omega), h.handlePacket]
  change (parseFrom input msg.pktId msg.serialize).bind _ = _
  rw [parseFrom_serialize hi hreadable (by omega)]
  rfl

end Protocol.ServerMessage

namespace SocketServer

open ServerMessage

/-- The frames of messages that can be read, received whole, are handed on one by one. -/
theorem map_recvPacket {input : CodedInputStream} (hi : input.Standard) {messages : List (ServerMessage F)}
    {frames : List (List UInt8)} (hframes : List.Forall₂ Written messages frames)
    (hreadable : ∀ msg ∈ messages, msg.Readable) :
    frames.map (recvPacket input) = messages.map fun msg => some (some msg.received) := by
  induction hframes with
  | nil => rfl
  | cons hframe _ ih =>
      rw [List.map_cons, List.map_cons, hframe.recvPacket hi (hreadable _ List.mem_cons_self),
        ih fun msg hmsg => hreadable msg (List.mem_cons_of_mem _ hmsg)]

/--
**What the server sends is what the client gets**, in any run of the server on its
sockets, whatever bytes come in from whom: messages sent to a session, in the
order in which the socket carries them, are handed to `Process` as they were
meant, as far as they have arrived; all of them once the stream is complete.
-/
theorem sent_reaches_client {input : CodedInputStream} (hi : input.Standard) {ofBits : UInt32 → F}
    {maps : List UInt8 → Option MapSectionData} {b : SocketServer F}
    (h : Reachable (Transition.ofFun (SocketServer.next ofBits)) (SocketServer.init maps) b) {s : SessionRef}
    {messages : List (ServerMessage F)} (hsent : ∀ msg ∈ messages, b.world.Sent s msg)
    {frames chunks : List (List UInt8)} (hframes : List.Forall₂ Written messages frames)
    (hcut : chunks.flatten <+: frames.flatten) {fuel : Nat} (hfuel : frames.flatten.length < fuel) :
    ∃ r, PacketReceiver.receiveAll fuel .init chunks = .ok r ∧
      r.recvQueue.map (recvPacket input) <+: messages.map (fun msg => some (some msg.received)) ∧
      (chunks.flatten = frames.flatten → r.receiveQueue = [] ∧
        r.recvQueue.map (recvPacket input) = messages.map fun msg => some (some msg.received)) := by
  have hreadable : ∀ msg ∈ messages, msg.Readable := fun msg hmsg =>
    (World.sendable_of_sent (world_reachable h) (hsent msg hmsg)).readable
  have hwritten : ∀ f ∈ frames, ∃ msg ∈ messages, Written msg f := by
    intro f hf
    obtain ⟨i, hi, rfl⟩ := List.getElem_of_mem hf
    have hlen := hframes.length_eq
    exact ⟨messages[i], List.getElem_mem _, hframes.get (by omega) hi⟩
  have hwhole : ∀ f ∈ frames, packetFraming.IsFrame f := by
    intro f hf
    obtain ⟨msg, -, hmsg⟩ := hwritten f hf
    exact hmsg.isFrame
  have hlen : ∀ f ∈ frames, f.length ≤ 32767 := by
    intro f hf
    obtain ⟨msg, -, hmsg⟩ := hwritten f hf
    exact hmsg.length_lt
  obtain ⟨later, hlater⟩ := hcut
  have hspec := @PacketReceiver.receiveAll_spec frames hwhole (fun f hf => by have := hlen f hf; omega) chunks .init []
    later fuel PacketReceiver.receiveInv_init (by rw [List.nil_append]; exact hlater) hfuel
  rcases hspec with ⟨r, hr, hinv⟩ | ⟨-, f, hf, hlong⟩
  · have hsplits := hinv.splits
    rw [List.nil_append] at hsplits
    refine ⟨r, hr, ?_, ?_⟩
    · rw [← map_recvPacket hi hframes hreadable]
      exact (hsplits.isPrefix hwhole ⟨later, hlater⟩).map _
    · intro hall
      rw [hall] at hsplits
      obtain ⟨hqueue, hrest⟩ := Framing.splits_unique hsplits (Framing.splits_flatten hwhole)
      rw [hqueue]
      exact ⟨hrest, map_recvPacket hi hframes hreadable⟩
  · exact absurd (hlen f hf) hlong

/-- Two clients get their answers, cut inside headers. -/
theorem sent_reaches_client_two : (∃ r,
    PacketReceiver.receiveAll 700000 .init [[6, 0], [242, 3, 8, 5, 4], [0, 248, 3]] = .ok r ∧
      r.recvQueue.map (recvPacket wireInput) =
        [some (some (.sRttPong { clientTime := 5, serverTime := 0 })), some (some (.sRoomData { roomData := [] }))]) ∧
      ∃ r, PacketReceiver.receiveAll 700000 .init [[8, 0, 243], [3, 8, 2, 16, 1]] = .ok r ∧
        r.recvQueue.map (recvPacket wireInput) = [some (some (.sLogin { loginAccept := true, gameId := 2 }))] := by
  obtain ⟨b, h, -, -, hsent⟩ := run_twoClients
  have hfirst : ∀ msg ∈ [(.sRttPong 5 0 : ServerMessage ℚ), .sRoomData []], b.world.Sent 0 msg := by
    intro msg hmsg
    refine .inl ?_
    rw [hsent]
    rcases List.mem_pair.mp hmsg with rfl | rfl <;> decide
  have hsecond : ∀ msg ∈ [(.sLogin 2 true : ServerMessage ℚ)], b.world.Sent 1 msg := by
    refine List.forall_mem_singleton.mpr (.inl ?_)
    rw [hsent]
    decide
  have hpong : (.sRttPong 5 0 : ServerMessage ℚ).Written [6, 0, 242, 3, 8, 5] := written_frame (by decide)
  have hrooms : (.sRoomData [] : ServerMessage ℚ).Written [4, 0, 248, 3] := written_frame (by decide)
  have hlogin : (.sLogin 2 true : ServerMessage ℚ).Written [8, 0, 243, 3, 8, 2, 16, 1] := written_frame (by decide)
  obtain ⟨r, hr, -, hwhole⟩ := @sent_reaches_client ℚ _ wireInput standard_wireInput _ _ b h 0 _ hfirst
    [[6, 0, 242, 3, 8, 5], [4, 0, 248, 3]] [[6, 0], [242, 3, 8, 5, 4], [0, 248, 3]] (.cons hpong (.cons hrooms .nil))
    List.prefix_rfl 700000 (by decide)
  obtain ⟨r', hr', -, hwhole'⟩ := @sent_reaches_client ℚ _ wireInput standard_wireInput _ _ b h 1 _ hsecond
    [[8, 0, 243, 3, 8, 2, 16, 1]] [[8, 0, 243], [3, 8, 2, 16, 1]] (.cons hlogin .nil) List.prefix_rfl 700000 (by decide)
  exact ⟨⟨r, hr, (hwhole rfl).2⟩, r', hr', (hwhole' rfl).2⟩

end SocketServer

end StarCraftIocp
