import StarCraftIocp.Client.PacketManager
import StarCraftIocp.Client.PacketReceiver
import StarCraftIocp.GameServer.ClientPacketHandler
import StarCraftIocp.Lib.Outcome
import StarCraftIocp.Proof.Reassembly

/-!
# The stream between client and server

The format is the same in both directions. The client reads the size field as a
signed number, so that it agrees with the server on frames shorter than `2^15`
bytes; and it writes the low 16 bits of a length there, so that a frame is what the
server takes it for when the length has no more.
-/

namespace StarCraftIocp

open CInt Outcome

namespace PacketReceiver

/-! ## The client's parser -/

/-- Every size field of a split is positive as a signed number, that of the unfinished rest too. -/
structure Short (fs : List (List UInt8)) (rest : List UInt8) : Prop where
  frames : ∀ f ∈ fs, f.length ≤ 32767
  rest : 4 ≤ rest.length → (PacketHeader.read rest).size ≤ 32767

/-- The loop on an unfinished rest. -/
theorem receiveLoop_pending {fuel : Nat} {rest : List UInt8} (out : List (List UInt8))
    (hp : packetFraming.Pending rest) :
    receiveLoop (fuel + 1) ⟨rest, out⟩
      = if 4 ≤ rest.length → (PacketHeader.read rest).size ≤ 32767 then .ok ⟨rest, out⟩
        else .error .overflowException := by
  have hlt : Bytes.readLe16 rest 0 < 65536 := Bytes.readLe16_lt rest 0
  have hsize : (PacketHeader.read rest).size = Bytes.readLe16 rest 0 := rfl
  unfold receiveLoop
  dsimp only
  by_cases h4 : rest.length < 4
  · rw [if_pos h4, if_pos fun h => absurd h (by omega)]
  · have hlong : rest.length < Bytes.readLe16 rest 0 := hp.resolve_left h4
    rw [if_neg h4, hsize]
    unfold int16
    by_cases hs : Bytes.readLe16 rest 0 ≤ 32767
    · rw [if_pos (by omega), if_pos fun _ => hs]
    · rw [if_neg (by omega), if_pos (by omega), if_neg fun h => hs (h (by omega))]

/-- The loop takes the frames off one by one, and fails at a size that is negative as a signed number. -/
theorem receiveLoop_splits {rest : List UInt8} {fs : List (List UInt8)} {bs : List UInt8} {fuel : Nat}
    (h : packetFraming.Splits bs fs rest) (out : List (List UInt8)) (hlen : ∀ f ∈ fs, f.length < 65536)
    (hfuel : fs.length < fuel) :
    receiveLoop fuel ⟨bs, out⟩ = .ok ⟨rest, out ++ fs⟩ ∧ Short fs rest
      ∨ receiveLoop fuel ⟨bs, out⟩ = .error .overflowException ∧ ¬ Short fs rest := by
  induction fs generalizing bs out fuel with
  | nil =>
      obtain ⟨n, rfl⟩ : ∃ n, fuel = n + 1 := ⟨fuel - 1, by omega⟩
      obtain rfl : bs = rest := by simpa using h.eq
      rw [receiveLoop_pending out h.pending]
      by_cases hrest : 4 ≤ bs.length → (PacketHeader.read bs).size ≤ 32767
      · rw [if_pos hrest, List.append_nil]
        exact .inl ⟨rfl, fun f hf => absurd hf List.not_mem_nil, hrest⟩
      · rw [if_neg hrest]
        exact .inr ⟨rfl, fun hs => hrest hs.rest⟩
  | cons f fs ih =>
      obtain ⟨n, rfl⟩ : ∃ n, fuel = n + 1 := ⟨fuel - 1, by omega⟩
      have hf := h.frames f List.mem_cons_self
      have hbs : bs = f ++ (fs.flatten ++ rest) := by rw [h.eq, List.flatten_cons, List.append_assoc]
      have hheader : 4 ≤ f.length := hf.header_le
      have hsize : Bytes.readLe16 bs 0 = f.length := by
        rw [hbs]
        exact hf.size_append _
      have hlong : f.length ≤ bs.length := by rw [hbs, List.length_append]; omega
      have hflen := hlen f List.mem_cons_self
      unfold receiveLoop
      dsimp only
      rw [if_neg (by omega), hsize]
      -- a size of `2^15` or more is negative as an `Int16`, and `new byte[packetSize]` throws
      by_cases hshort : f.length ≤ 32767
      · have hint : int16 f.length = f.length := by unfold int16; omega
        have hrest : packetFraming.Splits (fs.flatten ++ rest) fs rest :=
          ⟨rfl, fun g hg => h.frames g (List.mem_cons_of_mem f hg), h.pending⟩
        rw [hint, if_neg (by omega), if_neg (by omega), Int.toNat_natCast, hbs, List.drop_left,
          List.take_left]
        have hn : fs.length < n := Nat.lt_of_succ_lt_succ hfuel
        rcases ih hrest (out ++ [f]) (fun g hg => hlen g (List.mem_cons_of_mem f hg)) hn with
          ⟨hok, hs⟩ | ⟨herror, hs⟩
        · rw [hok, List.append_assoc]
          exact .inl ⟨rfl, List.forall_mem_cons.mpr ⟨hshort, hs.frames⟩, hs.rest⟩
        · rw [herror]
          exact .inr ⟨rfl, fun hs' => hs ⟨(List.forall_mem_cons.mp hs'.frames).2, hs'.rest⟩⟩
      · have hint : int16 f.length = f.length - 65536 := by unfold int16; omega
        rw [hint, if_neg (by omega), if_pos (by omega)]
        exact .inr ⟨rfl, fun hs => hshort (hs.frames f List.mem_cons_self)⟩

/-! ## Any number of chunks -/

/-- What has been put in `recvQueue` and what is still in `receiveQueue` is a split of what was received. -/
structure ReceiveInv (r : PacketReceiver) (received : List UInt8) : Prop where
  splits : packetFraming.Splits received r.recvQueue r.receiveQueue
  short : Short r.recvQueue r.receiveQueue

theorem receiveInv_init : ReceiveInv init [] where
  splits := ⟨rfl, fun f hf => absurd hf List.not_mem_nil, Framing.pending_nil⟩
  short := ⟨fun f hf => absurd hf List.not_mem_nil, fun h => absurd h (by decide)⟩

section

variable {frames : List (List UInt8)} (hframes : ∀ f ∈ frames, packetFraming.IsFrame f)
  (hlen : ∀ f ∈ frames, f.length < 65536)

include hframes hlen

/-- One chunk: the invariant is kept, or the parser fails at a long frame. -/
theorem onReceiveCompleted_spec {r : PacketReceiver} {received chunk later : List UInt8} {fuel : Nat}
    (h : ReceiveInv r received) (hcut : received ++ chunk ++ later = frames.flatten)
    (hfuel : frames.flatten.length < fuel) :
    (∃ r', onReceiveCompleted fuel r chunk = .ok r' ∧ ReceiveInv r' (received ++ chunk))
      ∨ onReceiveCompleted fuel r chunk = .error .overflowException ∧ ∃ f ∈ frames, ¬ f.length ≤ 32767 := by
  unfold onReceiveCompleted
  by_cases hchunk : chunk = []
  · rw [if_pos hchunk, hchunk, List.append_nil]
    exact .inl ⟨r, rfl, h⟩
  rw [if_neg hchunk]
  have hprefix := Framing.Splits.of_append (hcut ▸ Framing.splits_flatten hframes)
  obtain ⟨fs, hfs, hsp⟩ := h.splits.resume hprefix
  have hmem : ∀ f ∈ fs, f ∈ frames := fun f hf =>
    Framing.mem_of_mem_arrived (hfs ▸ List.mem_append_right r.recvQueue hf)
  have hcount : fs.length < fuel := by
    have hle := PacketSession.Splits.length_le hsp
    have hfit : r.receiveQueue.length ≤ received.length := by
      rw [h.splits.eq, List.length_append]
      omega
    have htotal := congrArg List.length hcut
    rw [List.length_append, List.length_append] at htotal
    rw [List.length_append] at hle
    omega
  rcases receiveLoop_splits hsp r.recvQueue (fun f hf => hlen f (hmem f hf)) hcount with
    ⟨hok, hshort⟩ | ⟨herror, hlong⟩
  · refine .inl ⟨_, hok, h.splits.append hsp, ?_, hshort.rest⟩
    exact fun f hf => (List.mem_append.mp hf).elim (h.short.frames f) (hshort.frames f)
  · refine .inr ⟨herror, ?_⟩
    by_contra hall
    push Not at hall
    refine hlong ⟨fun f hf => hall f (hmem f hf), ?_⟩
    -- the size field of an unfinished rest is that of the next frame
    intro h4
    obtain ⟨next, hnext, hrest⟩ := hprefix.resume (hcut ▸ Framing.splits_flatten hframes)
    have hsize := packetFraming.size_append _ later h4
    rw [hrest.eq, List.append_nil] at hsize
    cases next with
    | nil =>
        have hnil := (List.append_eq_nil_iff.mp hrest.eq).1
        rw [hnil] at h4
        exact absurd h4 (by decide)
    | cons g next =>
        have hg : g ∈ frames := hnext ▸ List.mem_append_right _ List.mem_cons_self
        rw [List.flatten_cons, (hframes g hg).size_append] at hsize
        change packetFraming.size _ ≤ 32767
        rw [← hsize]
        exact hall g hg

/-- The parser gets to the end of the stream with all frames, or fails at a long one. -/
theorem receiveAll_spec {chunks : List (List UInt8)} {r : PacketReceiver} {received later : List UInt8}
    {fuel : Nat} (h : ReceiveInv r received) (hcut : received ++ chunks.flatten ++ later = frames.flatten)
    (hfuel : frames.flatten.length < fuel) :
    (∃ r', receiveAll fuel r chunks = .ok r' ∧ ReceiveInv r' (received ++ chunks.flatten))
      ∨ receiveAll fuel r chunks = .error .overflowException ∧ ∃ f ∈ frames, ¬ f.length ≤ 32767 := by
  induction chunks generalizing r received with
  | nil => exact .inl ⟨r, rfl, by rwa [List.flatten_nil, List.append_nil]⟩
  | cons chunk chunks ih =>
      rw [List.flatten_cons] at hcut ⊢
      rw [← List.append_assoc] at hcut ⊢
      have hhead : received ++ chunk ++ (chunks.flatten ++ later) = frames.flatten := by
        rw [← List.append_assoc]
        exact hcut
      unfold receiveAll
      rw [List.foldlM_cons]
      rcases onReceiveCompleted_spec hframes hlen h hhead hfuel with ⟨r', hr', hinv⟩ | ⟨herror, hlong⟩
      · rw [hr', ok_bind]
        exact ih hinv hcut
      · rw [herror, error_bind]
        exact .inr ⟨rfl, hlong⟩

end

/-! ## The two parsers -/

/-- The client gets through the stream, with the frames that the server delivers. -/
def Agrees (fuel : Nat) (frames chunks serverChunks : List (List UInt8)) : Prop :=
  ∃ r s, receiveAll fuel init chunks = .ok r ∧ PacketSession.arriveAll fuel .init serverChunks = some s
    ∧ r.recvQueue = s.delivered ∧ s.delivered = frames

/--
**The two parsers agree** exactly on streams of frames shorter than `2^15` bytes:
however the stream is cut into chunks on either side, the client puts the frames in
its queue that the server delivers, and throws nothing.
-/
theorem agrees_iff {frames chunks serverChunks : List (List UInt8)} {fuel : Nat}
    (hframes : ∀ f ∈ frames, 4 ≤ f.length ∧ f.length ≤ 65535 ∧ (PacketHeader.read f).size = f.length)
    (hcut : chunks.flatten = frames.flatten) (hserver : serverChunks.flatten = frames.flatten)
    (hd : PacketSession.Deliverable fuel .init serverChunks) (hfuel : 655360 < fuel)
    (hlong : frames.flatten.length < fuel) :
    Agrees fuel frames chunks serverChunks ↔ ∀ f ∈ frames, f.length ≤ 32767 := by
  have hwhole : ∀ f ∈ frames, packetFraming.IsFrame f :=
    fun f hf => ⟨(hframes f hf).1, (hframes f hf).2.2⟩
  have hlen : ∀ f ∈ frames, f.length < 65536 := fun f hf => Nat.lt_succ_of_le (hframes f hf).2.1
  have hclient := @receiveAll_spec frames hwhole hlen chunks init [] [] fuel receiveInv_init
    (by rw [List.nil_append, List.append_nil, hcut]) hlong
  have hend : ∀ r, ReceiveInv r ([] ++ chunks.flatten) → r.recvQueue = frames := by
    intro r hr
    rw [List.nil_append, hcut] at hr
    exact (Framing.splits_unique hr.splits (Framing.splits_flatten hwhole)).1
  refine ⟨?_, ?_⟩
  · intro hagree
    rcases hagree with ⟨r, s, hr, hs, -, -⟩
    -- the client that gets through has seen no long frame
    rcases hclient with ⟨r', hr', hinv⟩ | ⟨herror, -⟩
    · rw [← hend r' hinv]
      exact hinv.short.frames
    · rw [herror] at hr
      cases hr
  · intro hshort
    obtain ⟨s, hs, hdelivered⟩ := PacketSession.arriveAll_frames hwhole hserver hd hfuel
    rcases hclient with ⟨r, hr, hinv⟩ | ⟨-, f, hf, hnot⟩
    · exact ⟨r, s, hr, hs, (hend r hinv).trans hdelivered.symm, hdelivered⟩
    · exact absurd (hshort f hf) hnot

/-- Two packets, cut inside the header of the first by the client and not at all by the server. -/
theorem agrees_iff_twoPackets :
    Agrees 700000 [[6, 0, 1, 0, 8, 9], [5, 0, 2, 0, 7]] [[6, 0, 1], [0, 8, 9, 5, 0, 2, 0, 7]]
      [[6, 0, 1, 0, 8, 9, 5, 0, 2, 0, 7]] := by
  have hd : PacketSession.Deliverable 700000 .init [[6, 0, 1, 0, 8, 9, 5, 0, 2, 0, 7]] :=
    ⟨by decide, by decide, fun _ _ => trivial⟩
  exact (@agrees_iff [[6, 0, 1, 0, 8, 9], [5, 0, 2, 0, 7]] [[6, 0, 1], [0, 8, 9, 5, 0, 2, 0, 7]]
    [[6, 0, 1, 0, 8, 9, 5, 0, 2, 0, 7]] 700000 (by decide) rfl rfl hd (by decide) (by decide)).mpr (by decide)

/-- The shortest frame whose size is negative as a signed number. -/
def longFrame : List UInt8 := [0, 128, 232, 3] ++ List.replicate 32764 0

/-- The frame in chunks that the client may receive it in. -/
def longFrameChunks : List (List UInt8) :=
  [0, 128, 232, 3] :: (List.replicate 31 (List.replicate 1024 0) ++ [List.replicate 1020 0])

theorem not_agrees :
    (PacketHeader.read longFrame).size = longFrame.length ∧ longFrame.length ≤ 65535
      ∧ longFrameChunks.flatten = [longFrame].flatten ∧ (∀ c ∈ longFrameChunks, c ≠ [] ∧ c.length ≤ 1024)
      ∧ ∀ fuel serverChunks, ¬ Agrees fuel [longFrame] longFrameChunks serverChunks := by
  have hlength : longFrame.length = 32768 := by
    unfold longFrame
    rw [List.length_append, List.length_replicate]
    rfl
  have hread : (PacketHeader.read longFrame).size = 32768 := by
    unfold longFrame
    rw [PacketHeader.read_append (by decide)]
    rfl
  refine ⟨hread.trans hlength.symm, hlength ▸ by decide, ?_, ?_, ?_⟩
  · unfold longFrameChunks longFrame
    rw [List.flatten_cons, List.flatten_append, List.flatten_replicate_replicate, List.flatten_singleton,
      List.replicate_append_replicate, List.flatten_singleton]
  · intro c hc
    rcases List.mem_cons.mp hc with rfl | hc
    · exact ⟨by decide, by decide⟩
    rcases List.mem_append.mp hc with hc | hc
    · rw [List.eq_of_mem_replicate hc, List.length_replicate]
      exact ⟨List.ne_nil_of_length_pos (by rw [List.length_replicate]; decide), le_refl _⟩
    · rw [List.mem_singleton.mp hc, List.length_replicate]
      exact ⟨List.ne_nil_of_length_pos (by rw [List.length_replicate]; decide), by decide⟩
  · intro fuel serverChunks hserver
    rcases hserver with ⟨r, _, hr, -⟩
    -- the header alone is enough for the exception
    unfold receiveAll longFrameChunks at hr
    rw [List.foldlM_cons] at hr
    cases fuel with
    | zero => cases hr
    | succ fuel => cases hr

end PacketReceiver

/-! ## What the client sends -/

namespace PacketMaker

/-- A message: its serialization and its `PacketType`. -/
structure Message where
  payload : List UInt8
  type : Nat

/-- What is in `sendQueue` when the messages have been sent. -/
def sendAll (messages : List Message) : List (List UInt8) :=
  messages.foldl (fun sendQueue m => makeSendBuffer m.payload m.type sendQueue) []

/-- What the server's handlers hand to `ParseFromArray` of a packet. -/
def parsed (packet : List UInt8) : List UInt8 :=
  let dispatch := ClientPacketHandler.handlePacket packet ⟨0, packet.length⟩
  Bytes.slice packet dispatch.payloadPos.toNat dispatch.payloadLen.toNat

/-- What `MakeSendBuffer` puts in the queue. -/
def Message.frame (m : Message) : List UInt8 :=
  Bytes.le16 (uint16 (2 + 2 + m.payload.length)).toNat ++ Bytes.le16 (uint16 m.type).toNat ++ m.payload

theorem sendAll_eq (messages : List Message) : sendAll messages = messages.map Message.frame := by
  have hfold : ∀ sendQueue : List (List UInt8),
      messages.foldl (fun sendQueue m => makeSendBuffer m.payload m.type sendQueue) sendQueue
        = sendQueue ++ messages.map Message.frame := by
    induction messages with
    | nil => exact fun sendQueue => (List.append_nil sendQueue).symm
    | cons m messages ih =>
        intro sendQueue
        rw [List.foldl_cons, ih, List.map_cons]
        exact List.append_assoc sendQueue [m.frame] _
  exact hfold []

theorem length_frame (m : Message) : m.frame.length = 4 + m.payload.length := by
  unfold Message.frame
  rw [List.length_append, List.length_append, Bytes.length_le16, Bytes.length_le16]

/-- The size field counts the frame, when it can. -/
theorem isFrame_frame {m : Message} (h : m.payload.length ≤ 65531) : packetFraming.IsFrame m.frame where
  header_le := by
    rw [length_frame]
    exact Nat.le_add_right _ _
  size_eq := by
    have hread := Bytes.readLe16_le16 (n := 4 + m.payload.length) (by omega) []
      (Bytes.le16 (uint16 m.type).toNat ++ m.payload)
    have hsize : (uint16 (2 + 2 + m.payload.length)).toNat = 4 + m.payload.length := by
      unfold uint16
      omega
    rw [length_frame]
    unfold Message.frame
    rw [hsize, List.append_assoc]
    exact hread

/-- The handler sees the payload of a frame. -/
theorem parsed_frame {m : Message} (h : m.payload.length ≤ 65531) : parsed m.frame = m.payload := by
  have hlen : int32 (sizeT (sizeT m.frame.length - sizeofPacketHeader)) = m.payload.length := by
    rw [length_frame]
    unfold int32 sizeT uint64 sizeofPacketHeader
    omega
  have hdrop : m.frame.drop 4 = m.payload := rfl
  unfold parsed ClientPacketHandler.handlePacket Bytes.slice
  dsimp only
  rw [hlen]
  change (m.frame.drop 4).take m.payload.length = _
  rw [hdrop, List.take_length]

/-- The server delivers one packet for every message, and messages that are too long are refused. -/
structure Delivers (fuel : Nat) (messages : List Message) (chunks : List (List UInt8)) : Prop where
  delivered : ∃ s, PacketSession.arriveAll fuel .init chunks = some s
    ∧ s.delivered.map parsed = messages.map Message.payload
  refused : ∀ m ∈ messages, 65535 < 4 + m.payload.length →
    ∀ sendQueue, makeSendBuffer m.payload m.type sendQueue = sendQueue

/-- No message is refused. -/
theorem Delivers.length_le {fuel : Nat} {messages : List Message} {chunks : List (List UInt8)}
    (h : Delivers fuel messages chunks) {m : Message} (hm : m ∈ messages) : m.payload.length ≤ 65531 := by
  by_contra hlong
  have hqueue : [m.frame] = [] := h.refused m hm (by omega) []
  cases hqueue

/--
**What the client sends is what the server delivers** exactly when no message is
too long for the size field: such a message is not refused, it is sent with the low
16 bits of its length.
-/
theorem delivers_iff {messages : List Message} {chunks : List (List UInt8)} {fuel : Nat}
    (hcut : chunks.flatten = (sendAll messages).flatten)
    (hd : PacketSession.Deliverable fuel .init chunks) (hfuel : 655360 < fuel) :
    Delivers fuel messages chunks ↔ ∀ m ∈ messages, m.payload.length ≤ 65531 := by
  refine ⟨fun h m hm => h.length_le hm, ?_⟩
  intro hshort
  rw [sendAll_eq] at hcut
  have hframes : ∀ f ∈ messages.map Message.frame, packetFraming.IsFrame f := by
    intro f hf
    obtain ⟨m, hm, rfl⟩ := List.mem_map.mp hf
    exact isFrame_frame (hshort m hm)
  obtain ⟨s, hs, hdelivered⟩ := PacketSession.arriveAll_frames hframes hcut hd hfuel
  refine ⟨⟨s, hs, ?_⟩, fun m hm hlong => absurd (hshort m hm) (by omega)⟩
  rw [hdelivered, List.map_map]
  exact List.map_congr_left fun m hm => parsed_frame (hshort m hm)

/-- An order for the object 3, and a ping without a time. -/
theorem delivers_iff_orderAndPing :
    Delivers 700000 [⟨[16, 3], 1001⟩, ⟨[], 1009⟩] [[6, 0, 233, 3, 16, 3, 4, 0, 241, 3]] := by
  have hd : PacketSession.Deliverable 700000 .init [[6, 0, 233, 3, 16, 3, 4, 0, 241, 3]] :=
    ⟨by decide, by decide, fun _ _ => trivial⟩
  exact (@delivers_iff [⟨[16, 3], 1001⟩, ⟨[], 1009⟩] [[6, 0, 233, 3, 16, 3, 4, 0, 241, 3]] 700000
    rfl hd (by decide)).mpr (by decide)

/-- The payload of the shortest message that is too long. -/
def longPayload : List UInt8 := List.replicate 65532 0

/-- Its frame says that it has no bytes. -/
theorem not_delivers :
    (⟨longPayload, 1001⟩ : Message).frame = [0, 0, 233, 3] ++ longPayload
      ∧ ∀ fuel chunks, ¬ Delivers fuel [⟨longPayload, 1001⟩] chunks := by
  have hlength : longPayload.length = 65532 := List.length_replicate
  have hheader : Bytes.le16 (uint16 (2 + 2 + (65532 : Nat))).toNat ++ Bytes.le16 (uint16 (1001 : Nat)).toNat
      = [0, 0, 233, 3] := by decide
  refine ⟨?_, ?_⟩
  · unfold Message.frame
    rw [hlength, hheader]
  · intro fuel chunks h
    have hle := h.length_le List.mem_cons_self
    rw [hlength] at hle
    omega

end PacketMaker

end StarCraftIocp
