import StarCraftIocp.Proof.Reassembly

/-!
# When `OnRecv` returns

The loop of `OnRecv` goes on by the size field of the packet it has handed over. A
size field of zero is the only one that does not take it further: it is smaller than
any header, but nothing compares it with one. Sizes of one to three are no packets
either, and yet the loop ends on them.
-/

namespace StarCraftIocp.PacketSession

open CInt

/-- Where the size fields put the beginnings of packets, as far as the packets before are complete. -/
inductive Boundary (bs : List UInt8) : Nat → Prop
  | start : Boundary bs 0
  | next {p : Nat} (h : Boundary bs p) (hheader : p + sizeofPacketHeader ≤ bs.length)
      (hend : p + Bytes.readLe16 bs p ≤ bs.length) : Boundary bs (p + Bytes.readLe16 bs p)

/-- No packet has the size field 0. -/
def NoEmptyPacket (bs : List UInt8) : Prop :=
  ∀ p, Boundary bs p → p + sizeofPacketHeader ≤ bs.length → Bytes.readLe16 bs p ≠ 0

/-- `OnRecv` returns, and what it returns lies within the received bytes. -/
def Returns (buffer : List UInt8) (len : Int) : Prop :=
  ∃ fuel calls processLen, onRecv fuel buffer len = some (calls, processLen) ∧ 0 ≤ processLen ∧
    processLen ≤ len

section

variable {bs : List UInt8} (junk : List UInt8) {p : Nat}

theorem Boundary.le_length (h : Boundary bs p) : p ≤ bs.length := by
  cases h with
  | start => exact Nat.zero_le _
  | next _ _ hend => exact hend

theorem onRecvBody_at (hlen : bs.length < 2147483648) (hp : p ≤ bs.length) :
    onRecvBody (bs ++ junk) bs.length p =
      if bs.length < p + sizeofPacketHeader ∨ bs.length < p + Bytes.readLe16 bs p then none
      else some { offset := p, len := Bytes.readLe16 bs p } := by
  have hpre : (bs.take p).length = p := by
    rw [List.length_take]
    omega
  have hsize : (PacketHeader.read (bs.drop p)).size = Bytes.readLe16 bs p := by
    unfold PacketHeader.read
    rw [Bytes.readLe16_drop, Nat.add_zero]
  have heq := @onRecvBody_eq junk (bs.take p) (bs.drop p) (by rw [List.take_append_drop]; exact hlen)
  rw [List.take_append_drop, hpre, hsize, List.length_drop] at heq
  rw [heq]
  refine if_congr ?_ rfl rfl
  omega

/-- As long as every packet takes the loop further, it returns at the end of one of them. -/
theorem loop_returns (hlen : bs.length < 2147483648) (h : NoEmptyPacket bs) {n : Nat} (hp : Boundary bs p)
    (hn : bs.length - p < n) :
    ∃ calls q, onRecvLoop (bs ++ junk) bs.length n p = some (calls, ((q : Nat) : Int)) ∧ q ≤ bs.length := by
  induction n generalizing p with
  | zero => omega
  | succ n ih =>
      have hle := hp.le_length
      rw [onRecvLoop, onRecvBody_at junk hlen hle]
      by_cases hstop : bs.length < p + sizeofPacketHeader ∨ bs.length < p + Bytes.readLe16 bs p
      · rw [if_pos hstop]
        exact ⟨[], p, rfl, hle⟩
      · rw [if_neg hstop]
        rcases not_or.mp hstop with ⟨hheader, hend⟩
        have hpos := h p hp (by omega)
        -- the size is not zero, so that fewer bytes are left
        obtain ⟨calls, q, hloop, hq⟩ := ih (.next hp (by omega) (by omega)) (by omega)
        refine ⟨{ offset := p, len := Bytes.readLe16 bs p } :: calls, q, ?_, hq⟩
        dsimp only
        rw [← Int.natCast_add, hloop]

/-- At an empty packet the loop stays where it is. -/
theorem loop_stays (hlen : bs.length < 2147483648) (hheader : p + sizeofPacketHeader ≤ bs.length)
    (hzero : Bytes.readLe16 bs p = 0) (n : Nat) : onRecvLoop (bs ++ junk) bs.length n p = none := by
  induction n with
  | zero => rfl
  | succ n ih =>
      rw [onRecvLoop, onRecvBody_at junk hlen (by omega), if_neg (by omega)]
      dsimp only
      rw [hzero, Int.natCast_zero, Int.add_zero, ih]

/-- Where the loop gets to and does not return, it does not return from the start. -/
theorem loop_from_start (hlen : bs.length < 2147483648) (hp : Boundary bs p)
    (hloop : ∀ n, onRecvLoop (bs ++ junk) bs.length n p = none) (n : Nat) :
    onRecvLoop (bs ++ junk) bs.length n (0 : Nat) = none := by
  induction hp generalizing n with
  | start => exact hloop n
  | @next p hp hheader hend ih =>
      refine ih (fun m => ?_) n
      cases m with
      | zero => rfl
      | succ m =>
          rw [onRecvLoop, onRecvBody_at junk hlen hp.le_length, if_neg (by omega)]
          dsimp only
          rw [← Int.natCast_add, hloop m]

end

/--
**`OnRecv` returns, with `processLen` between 0 and `len`, if and only if none of the
packets that the size fields mark off has the size 0**: for all contents of the
receive buffer and any number of received bytes in it.
-/
theorem returns_iff (junk : List UInt8) {bs : List UInt8}
    (hlen : bs.length ≤ init.recvBuffer.capacity.toNat) :
    Returns (bs ++ junk) bs.length ↔ NoEmptyPacket bs := by
  have hcapacity : init.recvBuffer.capacity.toNat = 655360 := rfl
  have hsmall : bs.length < 2147483648 := by omega
  constructor
  · intro hreturns p hp hheader hzero
    obtain ⟨fuel, calls, processLen, heq, -, -⟩ := hreturns
    have hnone := loop_from_start junk hsmall hp (loop_stays junk hsmall hheader hzero) fuel
    unfold onRecv at heq
    rw [Int.natCast_zero] at hnone
    rw [hnone] at heq
    cases heq
  · intro h
    obtain ⟨calls, q, hloop, hq⟩ := loop_returns junk hsmall h .start (Nat.lt_succ_self _)
    rw [Int.natCast_zero] at hloop
    exact ⟨_, calls, q, hloop, by omega, by omega⟩

/-- A packet of two bytes and one of four, the first byte of another, and one more that is not received yet. -/
theorem returns_iff_short :
    Returns ([2, 0, 4, 0, 1, 0, 9] ++ [7]) 7 ↔ NoEmptyPacket [2, 0, 4, 0, 1, 0, 9] :=
  returns_iff [7] (by decide)

/-- Four zero bytes: the loop hands over packets of no bytes for ever. -/
theorem not_returns : ¬ Returns [0, 0, 0, 0] 4 := by
  intro hreturns
  obtain ⟨fuel, calls, processLen, heq, -, -⟩ := hreturns
  have hnone := @loop_stays [0, 0, 0, 0] [] 0 (by decide) (by decide) rfl fuel
  have heq' : onRecvLoop ([0, 0, 0, 0] ++ []) ([0, 0, 0, 0] : List UInt8).length fuel (0 : Nat)
      = some (calls, processLen) := heq
  rw [hnone] at heq'
  cases heq'

end StarCraftIocp.PacketSession
