import StarCraftIocp.ServerCore.PacketSession

/-!
# Stream reassembly on the server

`OnRecv` takes off the readable bytes exactly the packets that are complete, and
`ProcessRecv` keeps the rest for the next chunk. The invariant that carries this
over a whole run joins three things: the cursors of the receive buffer, the bytes
between them, and the position of the parse. It is `RecvInv`: what has been
delivered so far, followed by what is readable, is a split of everything received.
-/

namespace StarCraftIocp.PacketSession

open CInt

/-! ## One pass of the loop -/

/-- Behind `pre`, `OnRecv` compares the length of the rest with the header and with its size field. -/
theorem onRecvBody_eq (junk : List UInt8) {pre rest : List UInt8}
    (hlen : (pre ++ rest).length < 2147483648) :
    onRecvBody (pre ++ rest ++ junk) (pre ++ rest).length pre.length
      = if rest.length < sizeofPacketHeader ∨ rest.length < (PacketHeader.read rest).size then none
        else some { offset := pre.length, len := (PacketHeader.read rest).size } := by
  rw [List.length_append] at hlen
  have hds : (((pre ++ rest).length : Nat) : Int) - pre.length = rest.length := by
    rw [List.length_append]; omega
  unfold onRecvBody
  simp only [hds]
  rw [sizeT_of_range (by omega) (by omega)]
  by_cases h4 : rest.length < sizeofPacketHeader
  · rw [if_pos (by exact_mod_cast h4), if_pos (Or.inl h4)]
  · have hread : PacketHeader.read ((pre ++ rest ++ junk).drop (Int.toNat pre.length))
        = PacketHeader.read rest := by
      rw [Int.toNat_natCast, List.append_assoc, List.drop_left,
        PacketHeader.read_append (by omega)]
    rw [if_neg (by exact_mod_cast h4), hread]
    by_cases hs : rest.length < (PacketHeader.read rest).size
    · rw [if_pos (by exact_mod_cast hs), if_pos (Or.inr hs)]
    · rw [if_neg (by exact_mod_cast hs), if_neg (not_or.mpr ⟨h4, hs⟩)]

/-- Nothing is taken off an unfinished rest. -/
theorem onRecvBody_pending (junk : List UInt8) {pre rest : List UInt8}
    (hlen : (pre ++ rest).length < 2147483648) (hr : packetFraming.Pending rest) :
    onRecvBody (pre ++ rest ++ junk) (pre ++ rest).length pre.length = none := by
  rw [onRecvBody_eq junk hlen]
  exact if_pos hr

/-- A complete header whose packet is all there is handed to `OnRecvPacket`. -/
theorem onRecvBody_ready (junk : List UInt8) {pre rest : List UInt8}
    (hlen : (pre ++ rest).length < 2147483648) (hr : ¬ packetFraming.Pending rest) :
    onRecvBody (pre ++ rest ++ junk) (pre ++ rest).length pre.length
      = some { offset := pre.length, len := (PacketHeader.read rest).size } := by
  rw [onRecvBody_eq junk hlen]
  exact if_neg hr

/-! ## The whole loop -/

/-- From any position, the loop delivers the complete frames ahead of it and returns behind them. -/
theorem onRecvLoop_splits (junk : List UInt8) {rest : List UInt8} :
    ∀ {fs : List (List UInt8)} (pre bs : List UInt8) {fuel : Nat},
    packetFraming.Splits bs fs rest →
    (pre ++ bs).length < 2147483648 → fs.length < fuel →
    ∃ calls : List PacketCall, onRecvLoop (pre ++ bs ++ junk) (pre ++ bs).length fuel pre.length
        = some (calls, (((pre ++ fs.flatten).length : Nat) : Int))
      ∧ calls.map (PacketCall.bytes (pre ++ bs ++ junk)) = fs := by
  intro fs
  induction fs with
  | nil =>
      intro pre bs fuel h hlen hfuel
      obtain ⟨n, rfl⟩ : ∃ n, fuel = n + 1 := ⟨fuel - 1, by simp at hfuel; omega⟩
      have hbs : bs = rest := by simpa using h.eq
      subst hbs
      refine ⟨[], ?_, rfl⟩
      rw [onRecvLoop, onRecvBody_pending junk hlen h.pending]
      simp
  | cons f fs ih =>
      intro pre bs fuel h hlen hfuel
      obtain ⟨n, rfl⟩ : ∃ n, fuel = n + 1 := ⟨fuel - 1, by simp at hfuel; omega⟩
      have hf := h.frames f (by simp)
      have hbs : bs = f ++ (fs.flatten ++ rest) := by rw [h.eq]; simp
      subst hbs
      have hsize : (PacketHeader.read (f ++ (fs.flatten ++ rest))).size = f.length :=
        hf.size_append _
      have hshift : pre ++ (f ++ (fs.flatten ++ rest)) = (pre ++ f) ++ (fs.flatten ++ rest) := by
        simp
      obtain ⟨calls, hcalls, hbytes⟩ := @ih (pre ++ f) (fs.flatten ++ rest) n
        ⟨rfl, fun x hx => h.frames x (by simp [hx]), h.pending⟩
        (by rw [← hshift]; exact hlen) (by simp at hfuel; omega)
      refine ⟨{ offset := pre.length, len := f.length } :: calls, ?_, ?_⟩
      · rw [onRecvLoop, onRecvBody_ready junk hlen (hf.not_pending _), hsize]
        dsimp only
        rw [← hshift] at hcalls
        rw [show (pre.length : Int) + f.length = ((pre ++ f).length : Nat) by
          rw [List.length_append]; omega, hcalls]
        simp
      · rw [List.map_cons]
        rw [← hshift] at hbytes
        rw [hbytes]
        refine congrArg (· :: fs) ?_
        simp [PacketCall.bytes, Bytes.slice]

/-- **`OnRecv` on a stream that splits** delivers its frames and returns their total length. -/
theorem onRecv_splits (junk : List UInt8) {bs rest : List UInt8} {fs : List (List UInt8)}
    {fuel : Nat} (h : packetFraming.Splits bs fs rest) (hlen : bs.length < 2147483648)
    (hfuel : fs.length < fuel) :
    ∃ calls : List PacketCall,
      onRecv fuel (bs ++ junk) bs.length = some (calls, ((fs.flatten.length : Nat) : Int))
      ∧ calls.map (PacketCall.bytes (bs ++ junk)) = fs := by
  have := onRecvLoop_splits junk [] bs h (by simpa using hlen) hfuel
  simpa [onRecv] using this

/-! ## One chunk -/

/-- What has been delivered, then what is readable, is a split of everything received. -/
structure RecvInv (s : PacketSession) (received : List UInt8) : Prop where
  /-- `ProcessRecv` has not disconnected. -/
  connected : s.connected = true
  /-- `Disconnect` has printed nothing. -/
  printed : s.printed = []
  /-- The cursors are in order. -/
  wf : s.recvBuffer.WF
  /-- The block has the size the constructor gave it. -/
  capacity : s.recvBuffer.capacity = 655360
  /-- The parse position. -/
  splits : packetFraming.Splits received s.delivered s.recvBuffer.readable

theorem recvInv_init : RecvInv init [] where
  connected := rfl
  printed := rfl
  wf := RecvBuffer.wf_new (by decide)
  capacity := rfl
  splits := by
    have : init.recvBuffer.readable = [] := RecvBuffer.readable_new _
    rw [this]
    exact ⟨by simp [init], by simp [init], Framing.pending_nil⟩

/-- The memory behind `ReadPos()` starts with the readable bytes. -/
theorem drop_readPos_eq {b : RecvBuffer} :
    ∃ junk, b.buffer.drop b.readPos.toNat = b.readable ++ junk :=
  ⟨(b.buffer.drop b.readPos.toNat).drop b.dataSize.toNat,
    (List.take_append_drop b.dataSize.toNat _).symm⟩

/-- A split has no more frames than elements. -/
theorem Splits.length_le {bs rest : List UInt8} {fs : List (List UInt8)}
    (h : packetFraming.Splits bs fs rest) : fs.length ≤ bs.length := by
  have hfl : fs.length ≤ fs.flatten.length := by
    have hpos : ∀ f ∈ fs, 1 ≤ f.length := fun f hf => (h.frames f hf).length_pos
    clear h
    induction fs with
    | nil => simp
    | cons f fs ih =>
        have h1 := hpos f (by simp)
        have h2 := ih (fun x hx => hpos x (by simp [hx]))
        simp only [List.length_cons, List.flatten_cons, List.length_append]; omega
  rw [h.eq, List.length_append]; omega

/-- What `OnRecv` is given once a chunk has been written behind the unfinished rest. -/
theorem RecvInv.onWrite {s : PacketSession} {received chunk : List UInt8} (hi : RecvInv s received)
    (hfit : (chunk.length : Int) ≤ s.recvBuffer.freeSize) :
    ∃ b junk, (s.recvBuffer.deposit chunk).onWrite chunk.length = some b ∧ b.WF
      ∧ b.capacity = 655360 ∧ b.readable = s.recvBuffer.readable ++ chunk
      ∧ b.buffer.drop b.readPos.toNat = s.recvBuffer.readable ++ chunk ++ junk
      ∧ b.dataSize = ((s.recvBuffer.readable ++ chunk).length : Nat)
      ∧ (s.recvBuffer.readable ++ chunk).length ≤ 655360 := by
  obtain ⟨b, hw, hwf, hread⟩ := RecvBuffer.onWrite_deposit hi.wf hfit
  have hcap : b.capacity = 655360 := by
    unfold RecvBuffer.onWrite at hw
    split at hw
    · cases hw
    · obtain rfl := Option.some.inj hw
      exact hi.capacity
  have hds : b.dataSize = ((s.recvBuffer.readable ++ chunk).length : Nat) := by
    rw [← hread]; exact (RecvBuffer.length_readable hwf).symm
  obtain ⟨junk, hjunk⟩ := drop_readPos_eq (b := b)
  rw [hread] at hjunk
  refine ⟨b, junk, hw, hwf, hcap, hread, hjunk, hds, ?_⟩
  have h1 := hwf.read_nonneg
  have h3 := hwf.write_le
  unfold RecvBuffer.dataSize at hds
  omega

/-- **One chunk.** If the unfinished rest and the chunk split, the invariant is kept. -/
theorem arrive_spec {s : PacketSession} {received chunk rest : List UInt8}
    {fs : List (List UInt8)} {fuel : Nat} (hi : RecvInv s received) (hne : chunk ≠ [])
    (hfit : (chunk.length : Int) ≤ s.recvBuffer.freeSize)
    (hsp : packetFraming.Splits (s.recvBuffer.readable ++ chunk) fs rest)
    (hfuel : 655360 < fuel) :
    ∃ s', arrive fuel s chunk = some s' ∧ RecvInv s' (received ++ chunk)
      ∧ s'.delivered = s.delivered ++ fs := by
  obtain ⟨b, junk, hw, hbwf, hcap, hread, hjunk, hds, hsmall⟩ := hi.onWrite hfit
  have hfs := Splits.length_le hsp
  obtain ⟨calls, honRecv, hcalls⟩ :=
    onRecv_splits junk hsp (by omega) (show fs.length < fuel by omega)
  have hflat : fs.flatten.length ≤ (s.recvBuffer.readable ++ chunk).length := by
    rw [hsp.eq, List.length_append]; omega
  obtain ⟨b', hr, hbwf', hread'⟩ := RecvBuffer.onRead_spec hbwf
    (n := (fs.flatten.length : Nat)) (by omega) (by rw [hds]; exact_mod_cast hflat)
  have hcap' : b'.capacity = 655360 := by
    unfold RecvBuffer.onRead at hr
    split at hr
    · cases hr
    · obtain rfl := Option.some.inj hr
      exact hcap
  refine ⟨{ s with recvBuffer := b'.clean.value, delivered := s.delivered ++ fs }, ?_, ?_, rfl⟩
  · unfold arrive processRecv
    have hpos := List.length_pos_iff.mpr hne
    rw [if_neg (by omega), hw]
    dsimp only
    rw [hjunk, hds, honRecv]
    dsimp only
    rw [if_neg (by omega), hr, hcalls]
  · have hclean := RecvBuffer.clean_spec hbwf'
    have hrest : b'.clean.value.readable = rest := by
      rw [hclean.2, hread', hread, hsp.eq, Int.toNat_natCast, List.drop_left]
    refine ⟨hi.connected, hi.printed, hclean.1, ?_, ?_⟩
    · show b'.clean.value.capacity = 655360
      rw [← hcap']; unfold RecvBuffer.clean; split <;> [rfl; (split <;> rfl)]
    · show packetFraming.Splits (received ++ chunk) (s.delivered ++ fs) b'.clean.value.readable
      rw [hrest]
      exact hi.splits.append hsp

/-! ## Any number of chunks -/

/-- The invariant survives every chunk of a stream of complete packets. -/
theorem arriveAll_recvInv {packets : List (List UInt8)}
    (hp : ∀ p ∈ packets, packetFraming.IsFrame p) {fuel : Nat} (hfuel : 655360 < fuel) :
    ∀ {chunks : List (List UInt8)} {s : PacketSession} {received rest : List UInt8},
      RecvInv s received → received ++ chunks.flatten ++ rest = packets.flatten →
      Deliverable fuel s chunks →
      ∃ s', arriveAll fuel s chunks = some s' ∧ RecvInv s' (received ++ chunks.flatten) := by
  intro chunks
  induction chunks with
  | nil =>
      intro s received rest hi _ _
      exact ⟨s, rfl, by simpa using hi⟩
  | cons c cs ih =>
      intro s received rest hi hcut hd
      obtain ⟨hne, hfit, hnext⟩ := hd
      have hcut' : (received ++ c) ++ (cs.flatten ++ rest) = packets.flatten := by
        rw [← hcut]; simp
      obtain ⟨fs, _, hsp⟩ := hi.splits.resume
        (Framing.Splits.of_append (hcut' ▸ Framing.splits_flatten hp))
      obtain ⟨s1, h1, hi1, _⟩ := arrive_spec hi hne hfit hsp hfuel
      obtain ⟨s', h2, hi2⟩ := @ih s1 (received ++ c) rest hi1
        (by rw [← hcut]; simp) (hnext s1 h1)
      refine ⟨s', ?_, by simpa using hi2⟩
      rw [arriveAll, h1]; exact h2

/-- A stream that has arrived whole has been delivered whole. -/
theorem arriveAll_frames {packets chunks : List (List UInt8)} (hp : ∀ p ∈ packets, packetFraming.IsFrame p)
    {fuel : Nat} (hcut : chunks.flatten = packets.flatten) (hd : Deliverable fuel init chunks)
    (hfuel : 655360 < fuel) :
    ∃ s, arriveAll fuel init chunks = some s ∧ s.delivered = packets := by
  have hcut' : [] ++ chunks.flatten ++ [] = packets.flatten := by rw [List.nil_append, List.append_nil, hcut]
  obtain ⟨s, hs, hi⟩ := arriveAll_recvInv hp hfuel recvInv_init hcut' hd
  rw [List.nil_append, hcut] at hi
  exact ⟨s, hs, (Framing.splits_unique hi.splits (Framing.splits_flatten hp)).1⟩

/--
**Reassembly.** Cut the concatenation of well-sized packets into non-empty
chunks that each fit the buffer when they arrive. However many chunks have been
processed, `OnRecvPacket` has been called with exactly the packets whose last
byte has arrived, in order, the readable bytes are exactly the rest of what was
received, and no branch that disconnects was taken.
-/
theorem arriveAll_reassembles {packets chunks : List (List UInt8)} {rest : List UInt8}
    {fuel : Nat} (hp : ∀ p ∈ packets, 4 ≤ p.length ∧ p.length ≤ 65535
      ∧ (PacketHeader.read p).size = p.length)
    (hcut : chunks.flatten ++ rest = packets.flatten)
    (hd : Deliverable fuel init chunks) (hfuel : 655360 < fuel) :
    ∃ s, arriveAll fuel init chunks = some s
      ∧ s.connected = true ∧ s.printed = []
      ∧ s.delivered = Framing.arrived packets chunks.flatten.length
      ∧ s.recvBuffer.readable = chunks.flatten.drop s.delivered.flatten.length := by
  have hp' : ∀ p ∈ packets, packetFraming.IsFrame p :=
    fun p h => ⟨(hp p h).1, (hp p h).2.2⟩
  obtain ⟨s, hs, hi⟩ := arriveAll_recvInv hp' hfuel recvInv_init
    (by simpa using hcut) hd
  rw [List.nil_append] at hi
  have huniq := Framing.splits_unique hi.splits
    (Framing.Splits.of_append (hcut ▸ Framing.splits_flatten hp'))
  exact ⟨s, hs, hi.connected, hi.printed, huniq.1, by rw [huniq.1]; exact huniq.2⟩

/-- A chunk that ends inside the second packet's header delivers the first packet only. -/
theorem arriveAll_reassembles_split_header :
    ∃ s, arriveAll 700000 init [[6, 0, 1, 0, 8, 9, 5]] = some s
      ∧ s.connected = true ∧ s.printed = []
      ∧ s.delivered = [[6, 0, 1, 0, 8, 9]]
      ∧ s.recvBuffer.readable = [[6, 0, 1, 0, 8, 9, 5]].flatten.drop s.delivered.flatten.length :=
  @arriveAll_reassembles [[6, 0, 1, 0, 8, 9], [5, 0, 2, 0, 7]] _ [0, 2, 0, 7] _
    (by decide) rfl ⟨by simp, by decide, fun _ _ => trivial⟩ (by decide)

end StarCraftIocp.PacketSession
