import StarCraftIocp.Client.PacketManager
import StarCraftIocp.GameServer.ClientPacketHandler
import StarCraftIocp.GameServer.Protocol
import StarCraftIocp.Lib.Outcome

/-!
# From `MakeSendBuffer` to the client's parser

A frame is a chunk's memory between the place `Open` reserved and what `Close`
declared used. The length of a message passes through two `uint16` conversions,
the chunk's 6000 bytes and the assertion on `SerializeToArray` on its way there.
Of these only the chunk matters in the end: everything that fits is encoded
whole, and everything that does not is a crash.
-/

namespace StarCraftIocp

open CInt Bytes Outcome Wire

/-- The payload that travels in a chunk behind a header. -/
def maxDataSize : Nat := sendBufferChunkSize - sizeofPacketHeader

/-- The memory of an opened and closed buffer: `WriteSize` bytes from `Buffer()` on. -/
def SendBuffer.frame (b : SendBuffer) (c : SendBufferChunk) : List UInt8 :=
  slice c.buffer b.pos b.writeSize

namespace ClientPacketHandler

/-- What fits in a chunk is framed, and the manager is ready for the next message. -/
theorem makeSendBuffer_ok {m : SendBufferManager} (h : m.WF) {data : List UInt8} (pktId : Nat)
    (hn : data.length ≤ maxDataSize) :
    ∃ b m' c, makeSendBuffer data pktId m = .ok (b, m') ∧ m'.WF ∧ m'.lSendBufferChunk = some c
      ∧ b.writeSize = 4 + data.length
      ∧ b.frame c = PacketHeader.bytes { size := 4 + data.length, id := pktId } ++ data := by
  unfold maxDataSize sendBufferChunkSize sizeofPacketHeader at hn
  have hds : (uint16 data.length).toNat = data.length := by unfold uint16; omega
  have hps : (uint16 ((uint16 data.length).toNat + sizeofPacketHeader)).toNat
      = 4 + data.length := by unfold uint16 sizeofPacketHeader; omega
  have hfits : 4 + data.length ≤ sendBufferChunkSize := by unfold sendBufferChunkSize; omega
  obtain ⟨b, c, m', hopen, hchunk, halloc, hopened, hused, hlen, hroom, hpool⟩ :=
    SendBufferManager.openBuffer_spec h hfits
  have hsize : sendBufferChunkSize = 6000 := rfl
  have hhdr : (PacketHeader.bytes { size := 4 + data.length, id := pktId }).length = 4 := rfl
  have hw1 : (write c.buffer b.pos
      (PacketHeader.bytes { size := 4 + data.length, id := pktId })).length = c.buffer.length :=
    length_write (by omega)
  unfold makeSendBuffer SendBufferChunk.write
  simp only [hps, hopen, hchunk, bind, Except.bind]
  rw [if_pos (by omega)]
  dsimp only
  rw [if_neg (by omega), if_pos (by unfold sizeofPacketHeader; omega)]
  dsimp only
  unfold SendBuffer.close SendBufferChunk.close
  rw [if_neg (by omega), if_pos hopened]
  refine ⟨_, _, _, rfl, ⟨?_, hpool⟩, rfl, rfl, ?_⟩
  · intro c' hc'
    obtain rfl := Option.some.inj hc'
    refine ⟨?_, rfl, ?_⟩
    · dsimp only
      rw [length_write (by unfold sizeofPacketHeader; omega), hw1, hlen]
    · dsimp only; omega
  · unfold SendBuffer.frame sizeofPacketHeader
    dsimp only
    have hempty : slice c.buffer b.pos 0 = [] := by simp [slice]
    have hroom4 : b.pos + 0 +
        (PacketHeader.bytes { size := 4 + data.length, id := pktId }).length ≤ c.buffer.length := by
      omega
    have hstep := slice_write hroom4
    rw [hempty, hhdr] at hstep
    rw [slice_write (by omega)]
    exact congrArg (· ++ data) hstep

/-- What is framed at all has been written into a chunk, behind its header. -/
theorem length_le_of_makeSendBuffer {m : SendBufferManager} (h : m.WF) {data : List UInt8}
    {pktId : Nat} {r : SendBuffer × SendBufferManager}
    (hr : makeSendBuffer data pktId m = .ok r) : data.length ≤ maxDataSize := by
  unfold makeSendBuffer at hr
  obtain ⟨⟨ob, m1⟩, hopen, hr⟩ := bind_eq_ok.mp hr
  obtain ⟨b, c, m', hspec, hchunk, -, -, -, hlen, -, -⟩ :=
    SendBufferManager.openBuffer_spec h (SendBufferManager.openBuffer_le hopen)
  rw [hopen] at hspec
  obtain ⟨rfl, rfl⟩ := Prod.mk.inj (Except.ok.inj hspec)
  simp only [hchunk] at hr
  obtain ⟨c1, hc1, hr⟩ := bind_eq_ok.mp hr
  split at hr
  · simp at hr
  · obtain ⟨c2, hc2, -⟩ := bind_eq_ok.mp hr
    have hlen1 : c1.buffer.length = c.buffer.length := by
      unfold SendBufferChunk.write at hc1
      split at hc1
      · obtain rfl := Except.ok.inj hc1
        exact length_write (by assumption)
      · simp at hc1
    unfold SendBufferChunk.write at hc2
    split at hc2
    · unfold maxDataSize; omega
    · simp at hc2

/-- Whether a message is framed does not depend on what the thread has sent before. -/
theorem makeSendBuffer_ok_iff {m : SendBufferManager} (h : m.WF) {data : List UInt8} {pktId : Nat} :
    (∃ r, makeSendBuffer data pktId m = .ok r) ↔ data.length ≤ maxDataSize := by
  constructor
  · rintro ⟨r, hr⟩
    exact length_le_of_makeSendBuffer h hr
  · intro hn
    obtain ⟨b, m', _, hok, _⟩ := makeSendBuffer_ok h pktId hn
    exact ⟨(b, m'), hok⟩

end ClientPacketHandler

open ClientPacketHandler

namespace Protocol.ServerMessage

variable {F : Type} [Scalar F]

/-- `frame` stands for `MakeSendBuffer` on any thread. -/
theorem frame_ok_iff {m : SendBufferManager} (h : m.WF) (msg : ServerMessage F) :
    msg.frame = .ok msg ↔ ∃ r, msg.makeSendBuffer m = .ok r := by
  have hinit := @makeSendBuffer_ok_iff _ SendBufferManager.wf_init msg.serialize msg.pktId
  have hm := @makeSendBuffer_ok_iff _ h msg.serialize msg.pktId
  refine Iff.trans ?_ (hinit.trans hm.symm)
  unfold frame makeSendBuffer
  constructor
  · intro hf
    obtain ⟨r, hr, -⟩ := bind_eq_ok.mp hf
    exact ⟨r, hr⟩
  · rintro ⟨r, hr⟩
    exact bind_eq_ok.mpr ⟨r, hr, rfl⟩

theorem frame_ok {msg : ServerMessage F} (h : msg.byteSizeLong ≤ 5996) : msg.frame = .ok msg :=
  (frame_ok_iff SendBufferManager.wf_init msg).mpr
    ((makeSendBuffer_ok_iff SendBufferManager.wf_init).mpr h)

theorem byteSizeLong_le_of_frame {msg packet : ServerMessage F} (h : msg.frame = .ok packet) :
    msg.byteSizeLong ≤ 5996 := by
  obtain ⟨r, hr, -⟩ := bind_eq_ok.mp h
  exact length_le_of_makeSendBuffer SendBufferManager.wf_init hr

/-- What it means for a message to get through to the client. -/
def RoundTrips (msg : ServerMessage F) (m : SendBufferManager) : Prop :=
  ∃ b m' c, msg.makeSendBuffer m = .ok (b, m') ∧ m'.lSendBufferChunk = some c
    ∧ b.writeSize = 4 + msg.byteSizeLong
    ∧ PacketHeader.read (b.frame c) = { size := 4 + msg.byteSizeLong, id := msg.pktId }
    ∧ (b.frame c).drop 4 = msg.serialize
    ∧ PacketMaker.handlePacket (b.frame c) = some msg.serialize

/--
**A message gets through exactly when its serialization fits in a chunk.** `m` is
any state of the sending thread's chunk and of the pool.
-/
theorem roundTrips_iff {m : SendBufferManager} (h : m.WF) (msg : ServerMessage F) :
    msg.RoundTrips m ↔ msg.byteSizeLong ≤ 5996 := by
  have hmax : maxDataSize = 5996 := rfl
  constructor
  · rintro ⟨b, m', c, hok, -⟩
    exact length_le_of_makeSendBuffer h hok
  · intro hn
    have hfits : msg.serialize.length ≤ maxDataSize := by rw [hmax]; exact hn
    obtain ⟨b, m', c, hok, -, hc, hw, hf⟩ := makeSendBuffer_ok h msg.pktId hfits
    have hid := msg.pktId_lt
    unfold RoundTrips byteSizeLong
    unfold byteSizeLong at hn
    have hread : PacketHeader.read (b.frame c) = { size := 4 + msg.serialize.length, id := msg.pktId } := by
      rw [hf]
      exact PacketHeader.read_bytes (by dsimp only; omega) hid _
    refine ⟨b, m', c, hok, hc, hw, hread, by rw [hf]; rfl, ?_⟩
    have hlen : (b.frame c).length = 4 + msg.serialize.length := by
      rw [hf, List.length_append]; rfl
    have hsz : readLe16 (b.frame c) 0 = 4 + msg.serialize.length :=
      congrArg PacketHeader.size hread
    unfold PacketMaker.handlePacket
    rw [if_neg (by omega)]
    dsimp only
    rw [hsz, if_neg (by omega), if_neg (by omega), Nat.add_sub_cancel_left]
    simp [hf, slice, PacketHeader.bytes, le16]

theorem roundTrips_login :
    (.sLogin 7 true : ServerMessage ℚ).RoundTrips SendBufferManager.init :=
  (roundTrips_iff SendBufferManager.wf_init _).mpr (by decide)

end Protocol.ServerMessage

/-!
## Messages that always fit

Most server messages have a fixed number of scalar fields. The exceptions carry
what clients choose: the lobby's strings, the list of rooms, the list of a room's
players.
-/

namespace Protocol

variable {F : Type} [Scalar F]

theorem length_intField (field : Nat) (n : Int) : (intField field n).length ≤ 20 :=
  length_varintField ..

theorem length_boolField (field : Nat) (b : Bool) : (boolField field b).length ≤ 20 :=
  length_varintField ..

theorem length_floatField (field : Nat) (v : F) : (floatField field v).length ≤ 14 :=
  length_fixed32Field ..

theorem length_vector3 (v : Vector3 F) : (vector3 v).length ≤ 42 := by
  have hx := length_floatField 1 v.x
  have hy := length_floatField 2 v.y
  have hz := length_floatField 3 v.z
  unfold vector3
  simp only [List.length_append]; omega

theorem length_vector3Field (field : Nat) (v : Vector3 F) :
    (lenField field (vector3 v)).length ≤ 62 := by
  have h1 := length_lenField field (vector3 v)
  have h2 := length_vector3 v
  omega

/-- The messages without strings and lists. -/
def ServerMessage.Scalars : ServerMessage F → Prop
  | .sRoomLobby .. => False
  | .sLobbyPlayerInfo .. => False
  | .sRoomData .. => False
  | .sTest .. => False
  | _ => True

theorem ServerMessage.Scalars.byteSizeLong_le {msg : ServerMessage F} (h : msg.Scalars) :
    msg.byteSizeLong ≤ 5996 := by
  unfold byteSizeLong
  cases msg with
  | sRttPong clientTime serverTime =>
      have h1 := length_intField 1 clientTime
      have h2 := length_intField 2 serverTime
      simp only [serialize, List.length_append]; omega
  | sLogin gameId loginAccept =>
      have h1 := length_intField 1 gameId
      have h2 := length_boolField 2 loginAccept
      simp only [serialize, List.length_append]; omega
  | sGameStart startPos playerId =>
      have h1 := length_vector3Field 1 startPos
      have h2 := length_intField 3 playerId
      simp only [serialize, List.length_append]; omega
  | sRoomExit code =>
      have h1 := length_intField 1 code.toInt
      simp only [serialize]; omega
  | sRoomResponse roomAccept roomCode =>
      have h1 := length_boolField 1 roomAccept
      have h2 := length_intField 2 roomCode
      simp only [serialize, List.length_append]; omega
  | sMove objectId state position =>
      have h1 := length_intField 1 objectId
      have h2 := length_intField 2 state
      have h3 := length_vector3Field 3 position
      simp only [serialize, List.length_append]; omega
  | sObjectSpawn d spawnTime =>
      have h1 := length_intField 1 d.type
      have h2 := length_intField 2 d.objectId
      have h3 := length_intField 3 d.playerId
      have h4 := length_vector3Field 4 d.position
      have h5 := length_vector3Field 5 d.direction
      have h6 := length_floatField 6 d.hp
      have h7 := length_lenField 1 d.serialize
      have h8 := length_intField 2 spawnTime
      have hd : d.serialize.length ≤ 198 := by
        unfold ObjectData.serialize
        simp only [List.length_append]; omega
      simp only [serialize, List.length_append]; omega
  | sObjectDead objectId state =>
      have h1 := length_intField 1 objectId
      have h2 := length_intField 2 state
      simp only [serialize, List.length_append]; omega
  | sObjectDamage objectId hp =>
      have h1 := length_intField 1 objectId
      have h2 := length_floatField 2 hp
      simp only [serialize, List.length_append]; omega
  | sRoomLobby => exact h.elim
  | sLobbyPlayerInfo => exact h.elim
  | sRoomData => exact h.elim
  | sTest => exact h.elim

theorem ServerMessage.Scalars.frame_ok {msg : ServerMessage F} (h : msg.Scalars) :
    msg.frame = .ok msg := ServerMessage.frame_ok h.byteSizeLong_le

/-- A lobby message is no shorter than the name of the game. -/
theorem le_byteSizeLong_sRoomLobby (hostId : Int) (gameName gamePassWord : List UInt8)
    (roomCode : Int) (mapHash : List UInt8) :
    gameName.length ≤
      (ServerMessage.sRoomLobby hostId gameName gamePassWord roomCode mapHash : ServerMessage F).byteSizeLong := by
  have h := le_length_bytesField 2 gameName
  unfold ServerMessage.byteSizeLong ServerMessage.serialize
  simp only [List.length_append]; omega

end Protocol

end StarCraftIocp
