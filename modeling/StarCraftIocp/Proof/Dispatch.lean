import StarCraftIocp.GameServer.ClientPacketHandler
import StarCraftIocp.Proof.Reassembly

/-!
# When dispatching a client's bytes is safe

`OnRecv` trusts the size field of the client: it hands over a packet of fewer
than four bytes as readily as any other, and the dispatch then subtracts the
header from it. The handler table is one entry short of the 16-bit ids.

Both are conditions on the bytes alone. `WellFramed` says it: the stream is
complete packets, none with the id 65535, and an unfinished rest. The theorem of
this module is that the dispatch of a stream is safe exactly when the stream is
well framed, whatever the chunks it arrives in.
-/

namespace StarCraftIocp.PacketSession

open CInt ClientPacketHandler

/-- What the dispatch of one call relies on, `len` being the number of received bytes. -/
structure SafeCall (buffer : List UInt8) (len : Int) (c : PacketCall) : Prop where
  /-- The packet has room for its header. -/
  header_le : 4 ≤ c.len
  /-- The packet starts inside the received bytes. -/
  offset_nonneg : 0 ≤ c.offset
  /-- It ends there too. -/
  end_le : c.offset + c.len ≤ len
  /-- `header->id` is read from received bytes. -/
  id_read : c.offset + sizeofPacketHeader ≤ len
  /-- The index into `GPacketHandler` is in range. -/
  in_table : (handlePacket buffer c).handler ≠ none
  /-- The payload length is not negative. -/
  payload_nonneg : 0 ≤ (handlePacket buffer c).payloadLen
  /-- The payload lies inside the received bytes. -/
  payload_end : (handlePacket buffer c).payloadPos + (handlePacket buffer c).payloadLen ≤ len

/-- Every call made on a pass that `OnRecv` reaches is safe, whether or not `OnRecv` returns. -/
def AllCallsSafe (buffer : List UInt8) (len : Int) : Prop :=
  ∀ p c, Enters buffer len p → onRecvBody buffer len p = some c → SafeCall buffer len c

/-- Every call made while `ProcessRecv` handles `chunk` is safe. -/
def ChunkSafe (s : PacketSession) (chunk : List UInt8) : Prop :=
  ∀ b, (s.recvBuffer.deposit chunk).onWrite chunk.length = some b →
    AllCallsSafe (b.buffer.drop b.readPos.toNat) b.dataSize

/-- Every call made while the chunks arrive one after another is safe. -/
def StreamSafe (fuel : Nat) (s : PacketSession) (chunks : List (List UInt8)) : Prop :=
  ∀ before chunk after s', chunks = before ++ chunk :: after →
    arriveAll fuel s before = some s' → ChunkSafe s' chunk

/-- Complete packets whose ids have a table entry, then an unfinished rest. -/
def WellFramed (bs : List UInt8) : Prop :=
  ∃ frames rest, packetFraming.Splits bs frames rest
    ∧ ∀ f ∈ frames, (PacketHeader.read f).id < uint16Max

/-! ## One call -/

/-- The call made for a complete packet at the head of what is left. -/
theorem safeCall_of_frame {pre f rest junk : List UInt8}
    (hlen : (pre ++ (f ++ rest)).length < 2147483648) (hf : packetFraming.IsFrame f)
    (hid : (PacketHeader.read f).id < uint16Max) :
    SafeCall (pre ++ (f ++ rest) ++ junk) (pre ++ (f ++ rest)).length
      { offset := pre.length, len := f.length } := by
  have h4 : 4 ≤ f.length := hf.header_le
  simp only [List.length_append] at hlen
  have hread : PacketHeader.read
      ((pre ++ (f ++ rest) ++ junk).drop (Int.toNat pre.length)) = PacketHeader.read f := by
    rw [Int.toNat_natCast, List.append_assoc, List.drop_left, List.append_assoc,
      PacketHeader.read_append h4]
  have hpl : int32 (sizeT (sizeT (f.length : Int) - sizeofPacketHeader)) = f.length - 4 :=
    int32_sizeT_sub (by unfold sizeofPacketHeader; omega) (by unfold sizeofPacketHeader; omega)
  refine ⟨by dsimp only; omega, by simp, ?_, ?_, ?_, ?_, ?_⟩
  · simp only [List.length_append]; omega
  · simp only [List.length_append, sizeofPacketHeader]; omega
  · simp only [handlePacket, hread, gPacketHandler]
    rw [if_pos hid]; simp
  · simp only [handlePacket, hpl]; omega
  · simp only [handlePacket, hpl]
    simp only [List.length_append, sizeofPacketHeader]; omega

/-- A safe call is a complete packet whose id has a table entry. -/
theorem SafeCall.frame {pre rest junk : List UInt8}
    (hr : ¬ packetFraming.Pending rest)
    (h : SafeCall (pre ++ rest ++ junk) (pre ++ rest).length
      { offset := pre.length, len := (PacketHeader.read rest).size }) :
    ∃ f rest', rest = f ++ rest' ∧ packetFraming.IsFrame f
      ∧ f.length = (PacketHeader.read rest).size ∧ (PacketHeader.read f).id < uint16Max := by
  have h4 : 4 ≤ (PacketHeader.read rest).size := by
    have := h.header_le; dsimp only at this; omega
  have hle : (PacketHeader.read rest).size ≤ rest.length := by
    rcases Nat.lt_or_ge rest.length (PacketHeader.read rest).size with hc | hc
    · exact absurd (Or.inr hc) hr
    · exact hc
  have hlen : (rest.take (PacketHeader.read rest).size).length = (PacketHeader.read rest).size := by
    rw [List.length_take]; omega
  have hsplit : rest = rest.take (PacketHeader.read rest).size
      ++ rest.drop (PacketHeader.read rest).size := (List.take_append_drop _ _).symm
  have hread : PacketHeader.read (rest.take (PacketHeader.read rest).size)
      = PacketHeader.read rest := by
    conv_rhs => rw [hsplit]
    rw [PacketHeader.read_append (by unfold sizeofPacketHeader; omega)]
  refine ⟨_, _, hsplit, ⟨?_, ?_⟩, hlen, ?_⟩
  · show 4 ≤ _
    rw [hlen]; exact h4
  · show (PacketHeader.read _).size = _
    rw [hread, hlen]
  · rw [hread]
    have := h.in_table
    simp only [handlePacket, gPacketHandler, Int.toNat_natCast] at this
    rw [List.append_assoc, List.drop_left, PacketHeader.read_append (by
      unfold sizeofPacketHeader; omega)] at this
    by_contra hc
    rw [if_neg hc] at this
    exact this rfl

/-! ## One `OnRecv` -/

/-- On a stream that splits, every pass is entered behind a number of whole packets. -/
theorem enters_boundary {bs junk rest : List UInt8} {fs : List (List UInt8)}
    (h : packetFraming.Splits bs fs rest) (hlen : bs.length < 2147483648) {p : Int}
    (hp : Enters (bs ++ junk) bs.length p) :
    ∃ fs1 fs2, fs = fs1 ++ fs2 ∧ p = (fs1.flatten.length : Nat) := by
  induction hp with
  | start => exact ⟨[], fs, rfl, rfl⟩
  | @next p c _ hc ih =>
      obtain ⟨fs1, fs2, hfs, rfl⟩ := ih
      have hbs : bs = fs1.flatten ++ (fs2.flatten ++ rest) := by rw [h.eq, hfs]; simp
      cases fs2 with
      | nil =>
          exfalso
          subst hbs
          rw [onRecvBody_pending _ hlen (by simpa using h.pending)] at hc
          exact absurd hc (by simp)
      | cons f fs2 =>
          have hf : packetFraming.IsFrame f := h.frames f (by rw [hfs]; simp)
          have hbs' : bs = fs1.flatten ++ (f ++ (fs2.flatten ++ rest)) := by rw [hbs]; simp
          subst hbs'
          rw [onRecvBody_ready _ hlen (hf.not_pending _)] at hc
          injection hc with hc
          refine ⟨fs1 ++ [f], fs2, by rw [hfs]; simp, ?_⟩
          have hsize : (PacketHeader.read (f ++ (fs2.flatten ++ rest))).size = f.length :=
            hf.size_append _
          rw [← hc, hsize]
          simp

theorem allCallsSafe_of_wellFramed {bs junk : List UInt8} (hlen : bs.length < 2147483648)
    (h : WellFramed bs) : AllCallsSafe (bs ++ junk) bs.length := by
  obtain ⟨fs, rest, hsp, hids⟩ := h
  intro p c hp hc
  obtain ⟨fs1, fs2, hfs, rfl⟩ := enters_boundary hsp hlen hp
  cases fs2 with
  | nil =>
      exfalso
      have hbs : bs = fs1.flatten ++ rest := by rw [hsp.eq, hfs]; simp
      subst hbs
      rw [onRecvBody_pending _ hlen hsp.pending] at hc
      exact absurd hc (by simp)
  | cons f fs2 =>
      have hf : packetFraming.IsFrame f := hsp.frames f (by rw [hfs]; simp)
      have hbs : bs = fs1.flatten ++ (f ++ (fs2.flatten ++ rest)) := by rw [hsp.eq, hfs]; simp
      subst hbs
      rw [onRecvBody_ready _ hlen (hf.not_pending _)] at hc
      injection hc with hc
      have hsize : (PacketHeader.read (f ++ (fs2.flatten ++ rest))).size = f.length :=
        hf.size_append _
      rw [← hc, hsize]
      exact safeCall_of_frame hlen hf (hids f (by rw [hfs]; simp))

/-- Safe calls cut the stream into packets, from any position the loop reaches. -/
theorem wellFramed_of_safe : ∀ (n : Nat) {pre rest junk : List UInt8}, rest.length ≤ n →
    (pre ++ rest).length < 2147483648 →
    AllCallsSafe (pre ++ rest ++ junk) (pre ++ rest).length →
    Enters (pre ++ rest ++ junk) (pre ++ rest).length pre.length → WellFramed rest := by
  intro n
  induction n with
  | zero =>
      intro pre rest junk hn _ _ _
      have : rest = [] := List.length_eq_zero_iff.mp (by omega)
      subst this
      exact ⟨[], [], ⟨rfl, by simp, Framing.pending_nil⟩, by simp⟩
  | succ n ih =>
      intro pre rest junk hn hlen hsafe hent
      by_cases hr : packetFraming.Pending rest
      · exact ⟨[], rest, ⟨rfl, by simp, hr⟩, by simp⟩
      · have hbody := onRecvBody_ready junk hlen hr
        obtain ⟨f, rest', rfl, hf, hflen, hid⟩ := (hsafe _ _ hent hbody).frame hr
        have hshift : pre ++ (f ++ rest') = (pre ++ f) ++ rest' := by simp
        have hnext := Enters.next hent hbody
        rw [← hflen, show (pre.length : Int) + f.length = ((pre ++ f).length : Nat) by
          rw [List.length_append]; omega] at hnext
        rw [hshift] at hnext hsafe hlen
        have hpos := hf.length_pos
        obtain ⟨fs, r, hsp, hids⟩ := @ih (pre ++ f) rest' junk
          (by rw [List.length_append] at hn; omega) hlen hsafe hnext
        refine ⟨f :: fs, r, ⟨by rw [hsp.eq]; simp, ?_, hsp.pending⟩, ?_⟩
        · intro x hx
          rcases List.mem_cons.mp hx with rfl | hx
          · exact hf
          · exact hsp.frames x hx
        · intro x hx
          rcases List.mem_cons.mp hx with rfl | hx
          · exact hid
          · exact hids x hx

/-- **One `OnRecv`.** Its calls are safe exactly when the received bytes are well framed. -/
theorem allCallsSafe_iff (junk : List UInt8) {bs : List UInt8} (hlen : bs.length < 2147483648) :
    AllCallsSafe (bs ++ junk) bs.length ↔ WellFramed bs := by
  constructor
  · intro h
    exact @wellFramed_of_safe bs.length [] bs junk (Nat.le_refl _)
      (by simpa using hlen) (by simpa using h) (by simpa using Enters.start)
  · exact allCallsSafe_of_wellFramed hlen

/-! ## A stream in chunks -/

/-- The calls for one chunk are about the unfinished rest and the chunk. -/
theorem chunkSafe_iff {s : PacketSession} {received chunk : List UInt8}
    (hi : RecvInv s received) (hfit : (chunk.length : Int) ≤ s.recvBuffer.freeSize) :
    ChunkSafe s chunk ↔ WellFramed (s.recvBuffer.readable ++ chunk) := by
  obtain ⟨b, junk, hw, -, -, -, hjunk, hds, hsmall⟩ := hi.onWrite hfit
  rw [← allCallsSafe_iff junk (by omega), ← hjunk, ← hds]
  constructor
  · intro h
    exact h b hw
  · intro h b' hb'
    rw [hw] at hb'
    obtain rfl := Option.some.inj hb'
    exact h

theorem WellFramed.of_append {bs cs : List UInt8} (h : WellFramed (bs ++ cs)) : WellFramed bs := by
  obtain ⟨fs, r, hsp, hids⟩ := h
  exact ⟨_, _, hsp.of_append, fun f hf => hids f (Framing.mem_of_mem_arrived hf)⟩

/-- A well-framed stream goes on being well framed from any split of a part of it. -/
theorem WellFramed.resume {bs cs rest : List UInt8} {fs : List (List UInt8)}
    (hsp : packetFraming.Splits bs fs rest) (h : WellFramed (bs ++ cs)) :
    WellFramed (rest ++ cs) := by
  obtain ⟨gs, r, hg, hids⟩ := h
  obtain ⟨hs, hgs, hh⟩ := hsp.resume hg
  exact ⟨hs, r, hh, fun f hf => hids f (by rw [hgs]; simp [hf])⟩

theorem streamSafe_nil {fuel : Nat} {s : PacketSession} : StreamSafe fuel s [] := by
  intro before chunk after s' h
  exact absurd h (by simp)

/-- The first chunk and the rest of the stream. -/
theorem streamSafe_cons {fuel : Nat} {s s1 : PacketSession} {c : List UInt8}
    {cs : List (List UInt8)} (h1 : arrive fuel s c = some s1) :
    StreamSafe fuel s (c :: cs) ↔ ChunkSafe s c ∧ StreamSafe fuel s1 cs := by
  constructor
  · intro h
    refine ⟨h [] c cs s rfl rfl, ?_⟩
    intro before chunk after s' heq hs'
    exact h (c :: before) chunk after s' (by rw [heq]; rfl) (by rw [arriveAll, h1]; exact hs')
  · rintro ⟨hc, hcs⟩ before chunk after s' heq hs'
    cases before with
    | nil =>
        injection heq with heq _
        injection hs' with hs'
        rw [← heq, ← hs']; exact hc
    | cons b before =>
        injection heq with hb heq
        rw [arriveAll, ← hb, h1] at hs'
        exact hcs before chunk after s' heq hs'

/-- The run lemma: from any point of a stream whose packets so far had table entries. -/
theorem streamSafe_iff_aux {fuel : Nat} (hfuel : 655360 < fuel) :
    ∀ {chunks : List (List UInt8)} {s : PacketSession} {received : List UInt8},
      RecvInv s received → (∀ f ∈ s.delivered, (PacketHeader.read f).id < uint16Max) →
      Deliverable fuel s chunks →
      (StreamSafe fuel s chunks ↔ WellFramed (received ++ chunks.flatten)) := by
  intro chunks
  induction chunks with
  | nil =>
      intro s received hi hids _
      refine ⟨?_, fun _ => streamSafe_nil⟩
      intro _
      exact ⟨_, _, by simpa using hi.splits, hids⟩
  | cons c cs ih =>
      intro s received hi hids hd
      obtain ⟨hne, hfit, hnext⟩ := hd
      have hchunk := chunkSafe_iff hi hfit
      -- what follows from the first chunk's calls being safe
      have hstep : WellFramed (s.recvBuffer.readable ++ c) →
          (StreamSafe fuel s (c :: cs) ↔ WellFramed (received ++ (c :: cs).flatten)) := by
        intro hw
        obtain ⟨fs, rest, hsp, hfids⟩ := id hw
        obtain ⟨s1, h1, hi1, hdel⟩ := arrive_spec hi hne hfit hsp hfuel
        have hids1 : ∀ f ∈ s1.delivered, (PacketHeader.read f).id < uint16Max := by
          intro f hf
          rw [hdel] at hf
          rcases List.mem_append.mp hf with hf | hf
          · exact hids f hf
          · exact hfids f hf
        rw [streamSafe_cons h1, ih hi1 hids1 (hnext s1 h1)]
        simp only [hchunk, hw, true_and, List.flatten_cons, List.append_assoc]
      constructor
      · intro h
        exact (hstep (hchunk.mp (h [] c cs s rfl rfl))).mp h
      · intro h
        have hpre : WellFramed (received ++ c) := by
          have : WellFramed ((received ++ c) ++ cs.flatten) := by simpa using h
          exact this.of_append
        exact (hstep (WellFramed.resume hi.splits hpre)).mpr h

/--
**Dispatch safety.** Let a client's bytes arrive in any chunks. Every call of
`OnRecvPacket` that `OnRecv` ever reaches has a header, lies in the received
bytes, indexes the handler table in range and passes on a payload inside the
received bytes, if and only if the bytes are complete packets with ids below
65535 followed by an unfinished packet.
-/
theorem streamSafe_iff {chunks : List (List UInt8)} {fuel : Nat}
    (hd : Deliverable fuel init chunks) (hfuel : 655360 < fuel) :
    StreamSafe fuel init chunks ↔ WellFramed chunks.flatten := by
  have := streamSafe_iff_aux hfuel recvInv_init (by simp [init]) hd
  simpa using this

/-- A well-formed ping, in one chunk. -/
theorem streamSafe_iff_ping :
    StreamSafe 700000 init [[4, 0, 0xf1, 3]] ↔ WellFramed [[4, 0, 0xf1, 3]].flatten :=
  streamSafe_iff ⟨by simp, by decide, fun _ _ => trivial⟩ (by decide)

/-- A header that announces no bytes at all, and one whose id is behind the end of the table. -/
theorem not_streamSafe :
    ¬ StreamSafe 700000 init [[0, 0, 0, 0]] ∧ ¬ StreamSafe 700000 init [[4, 0, 255, 255]] := by
  have hiff : ∀ bs : List UInt8, bs ≠ [] → (bs.length : Int) ≤ init.recvBuffer.freeSize →
      (StreamSafe 700000 init [bs] ↔ WellFramed bs) := by
    intro bs hne hfit
    have := @streamSafe_iff_aux 700000 (by decide) [bs] _ _ recvInv_init (by simp [init])
      ⟨hne, hfit, fun _ _ => trivial⟩
    simpa using this
  constructor
  · rw [hiff _ (by simp) (by decide)]
    rintro ⟨fs, rest, hsp, _⟩
    cases fs with
    | nil =>
        -- four bytes are a header, and zero announced bytes are there
        have hr : [0, 0, 0, 0] = rest := by simpa using hsp.eq
        have hp := hsp.pending
        rw [← hr] at hp
        exact absurd hp (by unfold Framing.Pending; decide)
    | cons f fs =>
        have hf := hsp.frames f (by simp)
        have hhead : [0, 0, 0, 0] = f ++ (fs.flatten ++ rest) := by simpa using hsp.eq
        have h0 : packetFraming.size [0, 0, 0, 0] = 0 := by decide
        rw [hhead, hf.size_append] at h0
        have := hf.length_pos
        omega
  · rw [hiff _ (by simp) (by decide)]
    rintro ⟨fs, rest, hsp, hids⟩
    have hframe : packetFraming.IsFrame [4, 0, 255, 255] := ⟨by decide, by decide⟩
    have hone : packetFraming.Splits [4, 0, 255, 255] [[4, 0, 255, 255]] [] :=
      ⟨rfl, by simpa using hframe, Framing.pending_nil⟩
    have hfs := (Framing.splits_unique hsp hone).1
    exact absurd (hids [4, 0, 255, 255] (by rw [hfs]; simp)) (by decide)

end StarCraftIocp.PacketSession
