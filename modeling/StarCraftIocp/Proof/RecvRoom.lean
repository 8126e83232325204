import StarCraftIocp.Lib.Transition
import StarCraftIocp.Proof.Reassembly

/-!
# Room for the next receive

Whatever a client sends, `OnRecv` stops with less than one packet left, and a size
field has 16 bits. The buffer is ten times as large, and `Clean` moves what is left
when less than a tenth is free: by then the cursor is far from the beginning, and
the bytes are moved to where they were not.
-/

namespace StarCraftIocp

open CInt

namespace RecvBuffer

/-- What is read and what is written have no byte in common. -/
def Copy.Disjoint (c : Copy) : Prop := c.src + c.size ≤ c.dest ∨ c.dest + c.size ≤ c.src

/-- As the constructor has laid it out for a session, and with less than a packet in it. -/
structure Roomy (b : RecvBuffer) : Prop where
  wf : b.WF
  capacity : b.capacity = 655360
  bufferSize : b.bufferSize = PacketSession.bufferSize
  unread : b.dataSize ≤ 65534

theorem onRead_eq {b b' : RecvBuffer} {n : Int} (h : b.onRead n = some b') :
    n ≤ b.dataSize ∧ b' = { b with readPos := b.readPos + n } := by
  unfold onRead at h
  split at h
  · cases h
  · exact ⟨by omega, (Option.some.inj h).symm⟩

theorem onWrite_eq {b b' : RecvBuffer} {n : Int} (h : b.onWrite n = some b') :
    n ≤ b.freeSize ∧ b' = { b with writePos := b.writePos + n } := by
  unfold onWrite at h
  split at h
  · cases h
  · exact ⟨by omega, (Option.some.inj h).symm⟩

/-- What is left is less than a tenth of the buffer, and it is moved from the last two tenths. -/
theorem Roomy.disjoint {b : RecvBuffer} (h : b.Roomy) : ∀ copy ∈ b.clean.trace, copy.Disjoint := by
  have hunread := h.unread
  have hcapacity := h.capacity
  have hsize := h.bufferSize
  unfold PacketSession.bufferSize at hsize
  intro copy hcopy
  unfold RecvBuffer.clean at hcopy
  split at hcopy
  · cases hcopy
  · split at hcopy
    · next hfree =>
      obtain rfl := List.mem_singleton.mp hcopy
      unfold freeSize at hfree
      refine Or.inr ?_
      unfold dataSize at *
      dsimp only
      omega
    · cases hcopy

/-- Behind the write cursor there is room for a whole buffer. -/
theorem Roomy.clean {b : RecvBuffer} (h : b.Roomy) : b.clean.value.Roomy ∧
    PacketSession.bufferSize ≤ b.clean.value.freeSize := by
  have hunread := h.unread
  have hcapacity := h.capacity
  have hsize := h.bufferSize
  have hwf := (clean_spec h.wf).1
  unfold RecvBuffer.clean at hwf ⊢
  split at hwf
  · next hzero =>
    rw [if_pos hzero]
    refine ⟨⟨hwf, hcapacity, hsize, ?_⟩, ?_⟩
    · show (0 : Int) - 0 ≤ 65534
      omega
    · show _ ≤ b.capacity - 0
      unfold PacketSession.bufferSize
      omega
  · next hzero =>
    rw [if_neg hzero]
    split at hwf
    · next hfree =>
      rw [if_pos hfree]
      refine ⟨⟨hwf, hcapacity, hsize, ?_⟩, ?_⟩
      · show b.dataSize - 0 ≤ 65534
        omega
      · show _ ≤ b.capacity - b.dataSize
        unfold PacketSession.bufferSize
        omega
    · next hfree =>
      rw [if_neg hfree]
      exact ⟨h, hsize ▸ Int.not_lt.mp hfree⟩

end RecvBuffer

namespace PacketSession

open RecvBuffer

/-! ## What OnRecv leaves -/

/-- A pass of the loop goes on by a 16-bit size that is there, or leaves less than such a size. -/
theorem onRecvBody_range {buffer : List UInt8} {len p : Int} (h0 : 0 ≤ p) (hp : p ≤ len)
    (hlen : len < 2147483648) :
    match onRecvBody buffer len p with
    | none => len - p ≤ 65534
    | some c => 0 ≤ c.len ∧ p + c.len ≤ len := by
  have hsize : (PacketHeader.read (buffer.drop p.toNat)).size < 65536 := Bytes.readLe16_lt _ _
  unfold onRecvBody
  dsimp only
  rw [sizeT_of_range (by omega) (by omega)]
  split
  · next hnone =>
    split at hnone
    · next hheader =>
      unfold sizeofPacketHeader at hheader
      omega
    · split at hnone
      · omega
      · cases hnone
  · next c hsome =>
    split at hsome
    · cases hsome
    · split at hsome
      · cases hsome
      · obtain rfl := Option.some.inj hsome
        dsimp only
        omega

/-- Where the loop returns, less than a packet is left. -/
theorem onRecvLoop_range {buffer : List UInt8} {len : Int} (hlen : len < 2147483648) {fuel : Nat} {p q : Int}
    {calls : List PacketCall} (h0 : 0 ≤ p) (hp : p ≤ len)
    (h : onRecvLoop buffer len fuel p = some (calls, q)) :
    0 ≤ q ∧ q ≤ len ∧ len - q ≤ 65534 := by
  induction fuel generalizing p calls with
  | zero => cases h
  | succ fuel ih =>
      have hbody := @onRecvBody_range buffer len p h0 hp hlen
      rw [onRecvLoop] at h
      cases hc : onRecvBody buffer len p with
      | none =>
          rw [hc] at h hbody
          obtain ⟨-, rfl⟩ := Prod.mk.inj (Option.some.inj h)
          exact ⟨h0, hp, hbody⟩
      | some c =>
          rw [hc] at h hbody
          dsimp only at h hbody
          cases hrec : onRecvLoop buffer len fuel (p + c.len) with
          | none =>
              rw [hrec] at h
              cases h
          | some r =>
              obtain ⟨cs, q'⟩ := r
              rw [hrec] at h
              obtain ⟨-, rfl⟩ := Prod.mk.inj (Option.some.inj h)
              exact ih (by omega) (by omega) hrec

/-! ## One receive -/

/-- `ProcessRecv` gets as far as calling `Clean` on `b`. -/
def Cleans (fuel : Nat) (s : PacketSession) (numOfBytes : Int) (b : RecvBuffer) : Prop :=
  ∃ written calls processLen, numOfBytes ≠ 0 ∧ s.recvBuffer.onWrite numOfBytes = some written ∧
    onRecv fuel (written.buffer.drop written.readPos.toNat) written.dataSize = some (calls, processLen) ∧
    written.onRead processLen = some b

theorem connected_disconnect (s : PacketSession) (cause : DisconnectCause) :
    (s.disconnect cause).connected = false := by
  unfold disconnect
  split
  · rfl
  · next h => exact eq_false_of_ne_true h

/-- Where `ProcessRecv` does not disconnect, it has called `Clean`. -/
theorem processRecv_cleans {fuel : Nat} {s s' : PacketSession} {numOfBytes : Int}
    (h : processRecv fuel s numOfBytes = some s') (hconnected : s'.connected = true) :
    ∃ b, Cleans fuel s numOfBytes b ∧ s'.recvBuffer = b.clean.value := by
  have hno : ∀ (t : PacketSession) cause, some (t.disconnect cause) ≠ some s' := by
    intro t cause heq
    obtain rfl := Option.some.inj heq
    rw [connected_disconnect] at hconnected
    cases hconnected
  unfold processRecv at h
  split at h
  · exact absurd h (hno _ _)
  · next hbytes =>
    cases hwrite : s.recvBuffer.onWrite numOfBytes with
    | none =>
        rw [hwrite] at h
        exact absurd h (hno _ _)
    | some written =>
        rw [hwrite] at h
        dsimp only at h
        cases hrecv : onRecv fuel (written.buffer.drop written.readPos.toNat) written.dataSize with
        | none =>
            rw [hrecv] at h
            cases h
        | some r =>
            obtain ⟨calls, processLen⟩ := r
            rw [hrecv] at h
            dsimp only at h
            split at h
            · exact absurd h (hno _ _)
            · cases hread : written.onRead processLen with
              | none =>
                  rw [hread] at h
                  exact absurd h (hno _ _)
              | some b =>
                  rw [hread] at h
                  obtain rfl := Option.some.inj h
                  exact ⟨b, ⟨written, calls, processLen, hbytes, hwrite, hrecv, hread⟩, rfl⟩

/-- What `Clean` finds is less than a packet. -/
theorem cleans_roomy {fuel : Nat} {s : PacketSession} {chunk : List UInt8} {b : RecvBuffer}
    (h : s.recvBuffer.Roomy)
    (hfit : (chunk.length : Int) ≤ s.recvBuffer.freeSize)
    (hb : Cleans fuel { s with recvBuffer := s.recvBuffer.deposit chunk } chunk.length b) : b.Roomy := by
  obtain ⟨written, calls, processLen, -, hwrite, hrecv, hread⟩ := hb
  obtain ⟨written', hwrite', hwf, -⟩ := onWrite_deposit h.wf hfit
  obtain rfl := Option.some.inj (hwrite.symm.trans hwrite')
  have heq := (onWrite_eq hwrite).2
  have hcapacity : written.capacity = 655360 := by rw [heq]; exact h.capacity
  have hsize : written.bufferSize = PacketSession.bufferSize := by rw [heq]; exact h.bufferSize
  have hlow := hwf.read_nonneg
  have hhigh := hwf.write_le
  have hdata : written.dataSize < 2147483648 := by
    unfold dataSize
    omega
  have hdata0 : 0 ≤ written.dataSize := by
    have := hwf.read_le
    unfold dataSize
    omega
  obtain ⟨hq0, hq, hleft⟩ := onRecvLoop_range hdata (Int.le_refl 0) hdata0 hrecv
  obtain ⟨b', hread', hwf', -⟩ := onRead_spec hwf hq0 hq
  obtain rfl := Option.some.inj (hread.symm.trans hread')
  rw [(onRead_eq hread).2] at hwf' ⊢
  refine ⟨hwf', hcapacity, hsize, ?_⟩
  unfold dataSize at hleft ⊢
  dsimp only
  omega

/-! ## Runs -/

/-- A receive completes on a session that is connected: `WSARecv` was given the room there is, and `OnRecv` returns. -/
def Receives : Transition PacketSession (List UInt8) := fun s chunk s' =>
  s.connected = true ∧ (chunk.length : Int) ≤ s.recvBuffer.freeSize ∧ ∃ fuel, arrive fuel s chunk = some s'

theorem roomy_init : init.recvBuffer.Roomy where
  wf := wf_new (by decide)
  capacity := rfl
  bufferSize := rfl
  unread := by decide

/--
**There is always room for a whole buffer**: whatever has been received, the cursors
are in order, less than a packet is unread, and what `Clean` copies next it copies
to where it was not.
-/
theorem recv_room {s : PacketSession} (h : Reachable Receives init s) (hconnected : s.connected = true) :
    s.recvBuffer.Roomy ∧ bufferSize ≤ s.recvBuffer.freeSize ∧
      ∀ fuel (chunk : List UInt8) b, (chunk.length : Int) ≤ s.recvBuffer.freeSize →
        Cleans fuel { s with recvBuffer := s.recvBuffer.deposit chunk } chunk.length b →
        ∀ copy ∈ b.clean.trace, copy.Disjoint := by
  have hinv : s.connected = true → s.recvBuffer.Roomy ∧ bufferSize ≤ s.recvBuffer.freeSize := by
    refine h.invariant (I := fun s => s.connected = true → s.recvBuffer.Roomy ∧
      bufferSize ≤ s.recvBuffer.freeSize)
      (fun _ => ⟨roomy_init, by decide⟩) ?_
    intro s chunk s' hs hstep hconnected
    obtain ⟨hbefore, hfit, fuel, harrive⟩ := hstep
    obtain ⟨b, hb, hclean⟩ := processRecv_cleans harrive hconnected
    rw [hclean]
    exact (cleans_roomy (hs hbefore).1 hfit hb).clean
  obtain ⟨hroomy, hroom⟩ := hinv hconnected
  refine ⟨hroomy, hroom, ?_⟩
  exact fun fuel chunk b hfit hb => (cleans_roomy hroomy hfit hb).disjoint

/-- So many packets come in at once that what is left behind them is moved to the front. -/
def flood : List (List UInt8) := List.replicate 100000 [6, 0, 1, 0, 8, 9]

theorem recv_room_flood : ∃ (s : PacketSession) (b : RecvBuffer), s.delivered = flood ∧ s.recvBuffer = b.clean.value ∧
    b.clean.trace = [{ src := 600000, dest := 0, size := 1 }] ∧ (∀ copy ∈ b.clean.trace, copy.Disjoint) ∧
      s.recvBuffer.Roomy ∧ bufferSize ≤ s.recvBuffer.freeSize := by
  have hframes : ∀ f ∈ flood, packetFraming.IsFrame f := by
    intro f hf
    rw [List.eq_of_mem_replicate hf]
    exact ⟨by decide, by decide⟩
  have hlength : (flood.flatten ++ [5]).length = 600001 := by
    unfold flood
    rw [List.length_append, List.length_flatten, List.map_replicate, List.sum_replicate_nat]
    rfl
  have hsplits : packetFraming.Splits (init.recvBuffer.readable ++ (flood.flatten ++ [5])) flood [5] := by
    rw [show init.recvBuffer.readable = [] from readable_new _]
    exact ⟨rfl, hframes, Or.inl (by decide)⟩
  have hfit : ((flood.flatten ++ [5]).length : Int) ≤ init.recvBuffer.freeSize := by
    rw [hlength]
    decide
  obtain ⟨s, harrive, hi, hdelivered⟩ := arrive_spec recvInv_init (by simp) hfit hsplits
    (show 655360 < 700000 by decide)
  obtain ⟨b, hb, hclean⟩ := processRecv_cleans harrive hi.connected
  have hroomy := cleans_roomy roomy_init hfit hb
  -- one byte is left, behind all the others
  have hleft : b.readable = [5] := by
    rw [← (clean_spec hroomy.wf).2, ← hclean]
    exact (Framing.splits_unique hi.splits hsplits).2
  have hdata : b.dataSize = 1 := by
    rw [← length_readable hroomy.wf, hleft]
    rfl
  have hwrite : b.writePos = 600001 := by
    obtain ⟨written, _, _, -, hwritten, -, hread⟩ := hb
    rw [(onRead_eq hread).2, (onWrite_eq hwritten).2, hlength]
    rfl
  have hread : b.readPos = 600000 := by
    unfold dataSize at hdata
    omega
  have htrace : b.clean.trace = [{ src := 600000, dest := 0, size := 1 }] := by
    have hfree : b.freeSize < b.bufferSize := by
      rw [hroomy.bufferSize]
      unfold freeSize bufferSize
      rw [hroomy.capacity, hwrite]
      decide
    unfold clean
    rw [if_neg (by omega), if_pos hfree]
    change [({ src := b.readPos, dest := 0, size := b.dataSize } : Copy)] = _
    rw [hread, hdata]
  have hroom := recv_room (Reachable.refl.tail ⟨rfl, hfit, _, harrive⟩) hi.connected
  exact ⟨s, b, hdelivered, hclean, htrace, (recv_room .refl rfl).2.2 _ _ b hfit hb, hroom.1, hroom.2.1⟩

end PacketSession

end StarCraftIocp
