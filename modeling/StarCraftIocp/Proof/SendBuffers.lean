import Mathlib.Order.Interval.Finset.Nat
import StarCraftIocp.Lib.Transition
import StarCraftIocp.Proof.ChunkOwners

/-!
# Send buffers never share bytes

The buffers cut off one chunk lie one after another: those that are closed below
`_usedSize`, the one that is open right at it. A chunk starts from the beginning only
when a thread has popped it, and then no buffer is left in it.
-/

namespace StarCraftIocp

namespace SendBufferPool

/-- Where the bytes of a buffer end: those written once it is closed, those allocated
while it is open. -/
def LiveBuffer.stop (b : LiveBuffer) : Nat :=
  b.buffer.pos + if b.closed then b.buffer.writeSize else b.buffer.allocSize

def LiveBuffer.bytes (b : LiveBuffer) : Finset Nat := Finset.Ico b.buffer.pos b.stop

/-- The place of a buffer in its chunk. -/
structure Cut (c : SendBufferChunk) (b : LiveBuffer) : Prop where
  closed : b.closed = true → b.stop ≤ c.usedSize
  opened : b.closed = false → b.buffer.pos = c.usedSize ∧ b.stop ≤ sendBufferChunkSize ∧ c.opened = true

def Apart (a b : LiveBuffer) : Prop :=
  a.owner = b.owner → (a.closed = true ∨ b.closed = true) ∧ (a.stop ≤ b.buffer.pos ∨ b.stop ≤ a.buffer.pos)

instance : Std.Symm Apart where
  symm _ _ h howner := ⟨(h howner.symm).1.symm, (h howner.symm).2.symm⟩

/-- The buffers lie in their chunks side by side. -/
structure Laid (chunk : Nat → SendBufferChunk) (buffers : List LiveBuffer) (n : Nat) : Prop where
  length : ∀ c, (chunk c).buffer.length = sendBufferChunkSize
  used : ∀ c, (chunk c).usedSize ≤ sendBufferChunkSize
  nodup : (buffers.map LiveBuffer.id).Nodup
  old : ∀ b ∈ buffers, b.id < n
  cut : ∀ b ∈ buffers, Cut (chunk b.owner) b
  apart : buffers.Pairwise Apart

namespace Laid

variable {chunk : Nat → SendBufferChunk} {buffers : List LiveBuffer} {n c writeSize : Nat}
  {k : SendBufferChunk} {b b' : LiveBuffer}

theorem setChunk (h : Laid chunk buffers n) (hlength : k.buffer.length = sendBufferChunkSize)
    (hused : k.usedSize ≤ sendBufferChunkSize) (hcut : ∀ b ∈ buffers, b.owner = c → Cut k b) :
    Laid (Function.update chunk c k) buffers n := by
  refine ⟨?_, ?_, h.nodup, h.old, ?_, h.apart⟩
  · intro d
    by_cases hd : d = c
    · rw [hd, Function.update_self]
      exact hlength
    · rw [Function.update_of_ne hd]
      exact h.length d
  · intro d
    by_cases hd : d = c
    · rw [hd, Function.update_self]
      exact hused
    · rw [Function.update_of_ne hd]
      exact h.used d
  · intro b hb
    by_cases hd : b.owner = c
    · rw [hd, Function.update_self]
      exact hcut b hb hd
    · rw [Function.update_of_ne hd]
      exact h.cut b hb

theorem id_lt_set (h : Laid chunk buffers n) (hb : b ∈ buffers) (hid : b'.id = b.id) :
    ∀ a ∈ Keyed.set LiveBuffer.id buffers b', a.id < n := by
  intro a ha
  rcases Keyed.mem_set ha with rfl | ⟨ha, -⟩
  · rw [hid]
    exact h.old b hb
  · exact h.old a ha

theorem apart_of_ne (h : Laid chunk buffers n) {a : LiveBuffer} (ha : a ∈ buffers) (hb : b ∈ buffers)
    (hne : a.id ≠ b.id) : Apart a b :=
  h.apart.forall ha hb fun heq => hne (congrArg _ heq)

/-- A buffer with other references lies where it did. -/
theorem setUseCount (h : Laid chunk buffers n) (hb : b ∈ buffers) (m : Nat) :
    Laid chunk (Keyed.set LiveBuffer.id buffers { b with useCount := m }) n := by
  refine ⟨h.length, h.used, ?_, h.id_lt_set hb rfl, ?_, Keyed.pairwise_set h.nodup h.apart ?_⟩
  · rw [Keyed.map_set]
    exact h.nodup
  · intro a ha
    rcases Keyed.mem_set ha with rfl | ⟨ha, -⟩
    · exact ⟨(h.cut b hb).closed, (h.cut b hb).opened⟩
    · exact h.cut a ha
  · intro a ha hne
    have hab : Apart a b := h.apart_of_ne ha hb hne
    have hba : Apart b a := h.apart_of_ne hb ha (Ne.symm hne)
    exact ⟨hab, hba⟩

theorem remove (h : Laid chunk buffers n) (id : Nat) :
    Laid chunk (Keyed.remove LiveBuffer.id buffers id) n := by
  refine ⟨h.length, h.used, ?_, ?_, ?_, h.apart.filter _⟩
  · exact h.nodup.sublist (List.filter_sublist.map LiveBuffer.id)
  · intro b hb
    exact h.old b (List.mem_of_mem_filter hb)
  · intro b hb
    exact h.cut b (List.mem_of_mem_filter hb)

/-- All buffers of a chunk that is not open are closed, and end where the next one begins. -/
theorem closed_of_not_opened (h : Laid chunk buffers n) (hopen : (chunk c).opened = false) (hb : b ∈ buffers)
    (howner : b.owner = c) : b.closed = true ∧ b.stop ≤ (chunk c).usedSize := by
  have hcut := h.cut b hb
  rw [howner] at hcut
  have hclosed : b.closed = true := by
    by_contra hne
    have htrue := (hcut.opened (by simpa using hne)).2.2
    rw [hopen] at htrue
    cases htrue
  exact ⟨hclosed, hcut.closed hclosed⟩

theorem openBuffer (h : Laid chunk buffers n) {size : Nat} (hopen : (chunk c).opened = false)
    (hsize : (chunk c).usedSize + size ≤ sendBufferChunkSize) :
    Laid (Function.update chunk c { chunk c with opened := true })
      ({ id := n
         owner := c
         buffer := { pos := (chunk c).usedSize, allocSize := size, writeSize := 0 }
         closed := false
         useCount := 1 } :: buffers) (n + 1) := by
  have hold := h.setChunk (c := c) (k := { chunk c with opened := true }) (h.length c) (h.used c) (by
    intro b hb howner
    obtain ⟨hclosed, hstop⟩ := h.closed_of_not_opened hopen hb howner
    exact ⟨fun _ => hstop, fun hne => absurd hclosed (by simp [hne])⟩)
  refine ⟨hold.length, hold.used, ?_, ?_, ?_, ?_⟩
  · refine List.nodup_cons.mpr ⟨?_, h.nodup⟩
    intro hmem
    obtain ⟨b, hb, hid⟩ := List.mem_map.mp hmem
    exact absurd (h.old b hb) (by rw [hid]; exact Nat.lt_irrefl n)
  · intro b hb
    rcases List.mem_cons.mp hb with rfl | hb
    · exact Nat.lt_succ_self n
    · exact Nat.lt_succ_of_lt (h.old b hb)
  · intro b hb
    rcases List.mem_cons.mp hb with rfl | hb
    · rw [Function.update_self]
      exact ⟨(fun hne => by cases hne), fun _ => ⟨rfl, hsize, rfl⟩⟩
    · exact hold.cut b hb
  · refine List.pairwise_cons.mpr ⟨?_, h.apart⟩
    intro b hb howner
    obtain ⟨hclosed, hstop⟩ := h.closed_of_not_opened hopen hb howner.symm
    exact ⟨Or.inr hclosed, Or.inr hstop⟩

/-- The open buffer of a chunk is closed: it keeps what was written, and the next one begins there. -/
theorem close (h : Laid chunk buffers n) (hb : b ∈ buffers) (hopen : b.closed = false)
    (hsize : writeSize ≤ b.buffer.allocSize) :
    Laid (Function.update chunk b.owner { chunk b.owner with
        opened := false
        usedSize := (chunk b.owner).usedSize + writeSize })
      (Keyed.set LiveBuffer.id buffers { b with
        buffer := { b.buffer with writeSize := writeSize }
        closed := true }) n := by
  obtain ⟨hpos, hstop, -⟩ := (h.cut b hb).opened hopen
  have hend : b.stop = b.buffer.pos + b.buffer.allocSize := by
    unfold LiveBuffer.stop
    rw [hopen]
    rfl
  -- the other buffers of the chunk are closed, and lie before it
  have hothers : ∀ a ∈ buffers, a.id ≠ b.id → a.owner = b.owner →
      a.closed = true ∧ a.stop ≤ (chunk b.owner).usedSize := by
    intro a ha hne howner
    rcases (h.apart_of_ne ha hb hne howner).1 with hclosed | hclosed
    · have hcut := (h.cut a ha).closed hclosed
      rw [howner] at hcut
      exact ⟨hclosed, hcut⟩
    · rw [hopen] at hclosed
      cases hclosed
  have hrest := (h.remove b.id).setChunk (c := b.owner)
    (k := { chunk b.owner with opened := false, usedSize := (chunk b.owner).usedSize + writeSize })
    (h.length b.owner) (by dsimp only; omega) (by
      intro a ha howner
      obtain ⟨hmem, hne⟩ := List.mem_filter.mp ha
      obtain ⟨hclosed, hle⟩ := hothers a hmem (of_decide_eq_true hne) howner
      exact ⟨fun _ => Nat.le_add_right_of_le hle, fun hfalse => absurd hclosed (by simp [hfalse])⟩)
  refine ⟨hrest.length, hrest.used, ?_, h.id_lt_set hb rfl, ?_, Keyed.pairwise_set h.nodup h.apart ?_⟩
  · rw [Keyed.map_set]
    exact h.nodup
  · intro a ha
    rcases Keyed.mem_set ha with rfl | ⟨ha, hne⟩
    · rw [Function.update_self]
      refine ⟨fun _ => ?_, fun hfalse => by cases hfalse⟩
      show b.buffer.pos + writeSize ≤ (chunk b.owner).usedSize + writeSize
      omega
    · exact hrest.cut a (List.mem_filter.mpr ⟨ha, decide_eq_true hne⟩)
  · intro a ha hne
    refine ⟨?_, ?_⟩
    · intro howner
      obtain ⟨hclosed, hle⟩ := hothers a ha hne howner
      exact ⟨Or.inl hclosed, Or.inl (by rw [hpos]; exact hle)⟩
    · intro howner
      obtain ⟨hclosed, hle⟩ := hothers a ha hne howner.symm
      exact ⟨Or.inr hclosed, Or.inr (by rw [hpos]; exact hle)⟩

end Laid

/-! ## What a thread knows -/

/-- A call of `Open` is under way, and what is left of it is more than its return. -/
def Rest.InOpen : Rest → Prop
  | .return => False
  | .checkOpen _ | .openChunk _ => True

def Pc.InOpen : Pc → Prop
  | .rest r | .pushGlobal _ r => r.InOpen
  | .nullCheck _ | .pop _ | .assign _ _ => True
  | .destroy _ => False

/-- `LSendBufferChunk` is used without another check. -/
def Pc.UsesChunk : Pc → Prop
  | .rest r | .pushGlobal _ r => r.InOpen
  | .nullCheck _ | .pop _ | .assign _ _ | .destroy _ => False

/-- The size that `Open` was called with. -/
def Rest.size : Rest → Nat
  | .return => 0
  | .checkOpen size | .openChunk size => size

def Pc.size : Pc → Nat
  | .rest r | .pushGlobal _ r | .pop r | .assign _ r => r.size
  | .nullCheck size => size
  | .destroy _ => 0

/-- The buffer a thread has opened is cut off the chunk it has, which is open for no other reason. -/
structure Own (chunk : Nat → SendBufferChunk) (buffers : List LiveBuffer) (n : Nat)
    (current opening : Option Nat) (pc : Pc) : Prop where
  id_lt : ∀ id, opening = some id → id < n
  cut : ∀ b ∈ buffers, opening = some b.id → b.closed = false ∧ current = some b.owner
  opened : ∀ c, current = some c → (chunk c).opened = true → opening ≠ none
  inOpen : pc.InOpen → opening = none
  usesChunk : pc.UsesChunk → current ≠ none
  size : pc.size ≤ sendBufferChunkSize

namespace Own

variable {chunk : Nat → SendBufferChunk} {buffers : List LiveBuffer} {n c : Nat}
  {current opening : Option Nat} {pc : Pc} {k : SendBufferChunk}

theorem goto (h : Own chunk buffers n current opening pc) (pc' : Pc) (hin : pc'.InOpen → opening = none)
    (huses : pc'.UsesChunk → current ≠ none) (hsize : pc'.size ≤ sendBufferChunkSize) :
    Own chunk buffers n current opening pc' :=
  ⟨h.id_lt, h.cut, h.opened, hin, huses, hsize⟩

theorem setChunk (h : Own chunk buffers n current opening pc)
    (hopened : current = some c → k.opened = true → opening ≠ none) :
    Own (Function.update chunk c k) buffers n current opening pc := by
  refine ⟨h.id_lt, h.cut, ?_, h.inOpen, h.usesChunk, h.size⟩
  intro d hd htrue
  by_cases heq : d = c
  · subst heq
    rw [Function.update_self] at htrue
    exact hopened hd htrue
  · rw [Function.update_of_ne heq] at htrue
    exact h.opened d hd htrue

/-- Buffers are destroyed, or referred to by others. -/
theorem setBuffers (h : Own chunk buffers n current opening pc) (buffers' : List LiveBuffer)
    (hbuffers : ∀ b ∈ buffers', opening = some b.id →
      ∃ b' ∈ buffers, b'.id = b.id ∧ b'.owner = b.owner ∧ b'.closed = b.closed) :
    Own chunk buffers' n current opening pc := by
  refine ⟨h.id_lt, ?_, h.opened, h.inOpen, h.usesChunk, h.size⟩
  intro b hb hopening
  obtain ⟨b', hb', hid, howner, hclosed⟩ := hbuffers b hb hopening
  rw [← hclosed, ← howner]
  exact h.cut b' hb' (by rw [hid]; exact hopening)

/-- Another thread opens a buffer. -/
theorem cons (h : Own chunk buffers n current opening pc) {b : LiveBuffer} (hid : b.id = n) :
    Own chunk (b :: buffers) (n + 1) current opening pc := by
  refine ⟨fun id hopening => Nat.lt_succ_of_lt (h.id_lt id hopening), ?_, h.opened, h.inOpen,
    h.usesChunk, h.size⟩
  intro b' hb' hopening
  rcases List.mem_cons.mp hb' with rfl | hb'
  · exact absurd (h.id_lt _ hopening) (by rw [hid]; exact Nat.lt_irrefl n)
  · exact h.cut b' hb' hopening

/-- The thread opens a buffer itself. -/
theorem opens (hc : current = some c) (hids : ∀ b ∈ buffers, b.id ≠ n) {b : LiveBuffer} (howner : b.owner = c)
    (hopen : b.closed = false) :
    Own (Function.update chunk c k) (b :: buffers) (n + 1) current (some n) (.rest .return) := by
  refine ⟨?_, ?_, fun _ _ _ => Option.some_ne_none n, False.elim, False.elim, Nat.zero_le _⟩
  · intro id hopening
    obtain rfl := Option.some.inj hopening
    exact Nat.lt_succ_self n
  · intro b' hb' hopening
    rcases List.mem_cons.mp hb' with rfl | hb'
    · rw [howner]
      exact ⟨hopen, hc⟩
    · exact absurd (Option.some.inj hopening).symm (hids b' hb')

/-- The thread closes the buffer it has opened. -/
theorem closes (hc : current = some c) (hopened : k.opened = false) :
    Own (Function.update chunk c k) buffers n current none (.rest .return) := by
  refine ⟨(fun _ hnone => by cases hnone), (fun _ _ hnone => by cases hnone), ?_, False.elim, False.elim,
    Nat.zero_le _⟩
  intro d hd htrue
  obtain rfl := Option.some.inj (hc.symm.trans hd)
  rw [Function.update_self, hopened] at htrue
  cases htrue

end Own

/-! ## Every reachable state -/

variable {T : Type} [Fintype T]

structure Inv (s : SendBufferPool T) : Prop where
  failure : s.failure = none
  counted : s.Counted
  laid : Laid s.chunk s.buffers s.bufferCount
  own : ∀ t, Own s.chunk s.buffers s.bufferCount (s.current t) (s.opening t) (s.pc t)

namespace Inv

variable {s : SendBufferPool T} {t u : T} {c : Nat}

/-- Two threads never have the same chunk. -/
theorem current_inj (h : s.Inv) (ht : s.current t = some c) (hu : s.current u = some c) : t = u := by
  by_contra hne
  have htwo : holding c (s.current t) + holding c (s.current u) ≤ tally s.current (holding c) := by
    classical exact tally.le_two hne
  have hone := (h.counted c).one
  simp only [ht, hu, holding, if_true] at htwo
  simp only [refs] at hone
  omega

/-- A chunk that is in the pool, or on its way from or to it, has no buffers. -/
theorem no_buffer (h : s.Inv) (hc : 0 < (s.refs c).pooled + (s.refs c).popped + (s.refs c).returning) :
    ∀ b ∈ s.buffers, b.owner ≠ c := by
  intro b hb howner
  have hzero : s.buffers.countP (fun b => b.owner = c) = 0 := (h.counted c).bare hc
  exact List.countP_eq_zero.mp hzero b hb (decide_eq_true howner)

theorem no_buffer_new (h : s.Inv) (hc : s.chunkCount ≤ c) : ∀ b ∈ s.buffers, b.owner ≠ c := by
  intro b hb howner
  have hcount := (h.counted c).count
  have hzero := ((h.counted c).new (Nat.not_lt.mpr hc)).1
  have hlive : (s.refs c).live = 0 := by omega
  exact List.countP_eq_zero.mp hlive b hb (decide_eq_true howner)

variable [DecidableEq T] {pc : Pc} {rest : Rest} {b : LiveBuffer} {size writeSize offset : Nat} {bytes : List UInt8}

omit [Fintype T] in
theorem own_goto {chunk : Nat → SendBufferChunk} {buffers : List LiveBuffer} {n : Nat}
    (h : ∀ u, Own chunk buffers n (s.current u) (s.opening u) (s.pc u))
    (ht : Own chunk buffers n (s.current t) (s.opening t) pc) :
    ∀ u, Own chunk buffers n (s.current u) (s.opening u) (Function.update s.pc t pc u) :=
  (Function.forall_update_iff s.pc fun u pc => Own chunk buffers n (s.current u) (s.opening u) pc).mpr
    ⟨ht, fun u _ => h u⟩

/-- A move of a thread that has to do with no chunk. -/
theorem goto (h : s.Inv) (hfree : (s.pc t).Free) (hfree' : pc.Free)
    (ht : Own s.chunk s.buffers s.bufferCount (s.current t) (s.opening t) pc) : (s.goto t pc).Inv :=
  ⟨h.failure, (RefTurns.same fun _ => refs_goto_of_free hfree hfree').counted h.counted, h.laid,
    own_goto h.own ht⟩

theorem pop (h : s.Inv) (hpc : s.pc t = .pop rest) : (s.pop t rest).Inv := by
  have hown := h.own t
  rw [hpc] at hown
  have hturns := (RefTurns.pop hpc).counted h.counted
  revert hturns
  unfold SendBufferPool.pop
  cases hl : s.sendBufferChunks.getLast? with
  | some c =>
      intro hturns
      have ht := hown.goto (.assign c rest) hown.inOpen False.elim hown.size
      exact ⟨h.failure, hturns, h.laid, own_goto h.own ht⟩
  | none =>
      intro hturns
      have hlaid := h.laid.setChunk (c := s.chunkCount) (k := .new) List.length_replicate (Nat.zero_le _)
        (fun b hb howner => absurd howner (h.no_buffer_new (Nat.le_refl _) b hb))
      have hall := fun u => (h.own u).setChunk (c := s.chunkCount) (k := .new)
        (fun _ hfalse => by cases hfalse)
      have ht := hown.goto (.assign s.chunkCount rest) hown.inOpen False.elim hown.size
      exact ⟨h.failure, hturns, hlaid, own_goto hall (ht.setChunk fun _ hfalse => by cases hfalse)⟩

theorem pushGlobal (h : s.Inv) (hpc : s.pc t = .pushGlobal c rest) : (s.pushGlobal t c rest).Inv := by
  have hown := h.own t
  rw [hpc] at hown
  have ht := hown.goto (.rest rest) hown.inOpen hown.usesChunk hown.size
  exact ⟨h.failure, (RefTurns.pushGlobal hpc).counted h.counted, h.laid, own_goto h.own ht⟩

theorem assign (h : s.Inv) (hpc : s.pc t = .assign c rest) : (s.assign t c rest).Inv := by
  have hown := h.own t
  rw [hpc] at hown
  have hopening : s.opening t = none := hown.inOpen trivial
  -- nothing is left in the chunk, so that it can start from the beginning
  have hpopped := popped_pos hpc
  have hbare := h.no_buffer (c := c) (by omega)
  have hlaid := h.laid.setChunk (c := c) (k := (s.chunk c).reset) (h.laid.length c) (Nat.zero_le _)
    (fun b hb howner => absurd howner (hbare b hb))
  have hothers := fun u => (h.own u).setChunk (c := c) (k := (s.chunk c).reset)
    (fun _ hfalse => by cases hfalse)
  have ht : ∀ pc : Pc, pc.size = rest.size → Own (Function.update s.chunk c (s.chunk c).reset) s.buffers
      s.bufferCount (some c) (s.opening t) pc := by
    intro pc hsize
    refine ⟨hown.id_lt, ?_, ?_, fun _ => hopening, fun _ => Option.some_ne_none c,
      by rw [hsize]; exact hown.size⟩
    · intro b hb hid
      rw [hopening] at hid
      cases hid
    · intro d hd htrue
      obtain rfl := Option.some.inj hd
      rw [Function.update_self] at htrue
      cases htrue
  have hcurrent : ∀ pc : Pc, pc.size = rest.size → ∀ u, Own
    (Function.update s.chunk c (s.chunk c).reset) s.buffers
      s.bufferCount (Function.update s.current t (some c) u) (s.opening u) (Function.update s.pc t pc u) := by
    intro pc hsize u
    by_cases hu : u = t
    · rw [hu, Function.update_self, Function.update_self]
      exact ht pc hsize
    · rw [Function.update_of_ne hu, Function.update_of_ne hu]
      exact hothers u
  have hcounted := (RefTurns.assign h.counted hpc).counted h.counted
  revert hcounted
  unfold SendBufferPool.assign
  cases s.current t with
  | none =>
      intro hcounted
      exact ⟨h.failure, hcounted, hlaid, hcurrent _ rfl⟩
  | some old =>
      intro hcounted
      refine ⟨h.failure, hcounted, hlaid, hcurrent _ ?_⟩
      split <;> rfl

omit [DecidableEq T] in
/-- Where `Open` uses the chunk, it is there and not open. -/
theorem chunk_of_inOpen (h : s.Inv) (hin : (s.pc t).InOpen) (huses : (s.pc t).UsesChunk) :
    ∃ c, s.current t = some c ∧ (s.chunk c).opened = false := by
  obtain ⟨c, hc⟩ := Option.ne_none_iff_exists'.mp ((h.own t).usesChunk huses)
  refine ⟨c, hc, ?_⟩
  by_contra hopened
  exact (h.own t).opened c hc (by simpa using hopened) ((h.own t).inOpen hin)

theorem checkOpen (h : s.Inv) (hpc : s.pc t = .rest (.checkOpen size)) : (s.checkOpen t size).Inv := by
  have hown := h.own t
  obtain ⟨c, hc, hopened⟩ := h.chunk_of_inOpen (t := t) (by rw [hpc]; trivial) (by rw [hpc]; trivial)
  rw [hpc] at hown
  simp only [SendBufferPool.checkOpen, hc, hopened, Bool.false_eq_true, if_false]
  split
  · refine h.goto (by rw [hpc]; trivial) trivial ?_
    exact hown.goto _ hown.inOpen False.elim hown.size
  · refine h.goto (by rw [hpc]; trivial) trivial ?_
    exact hown.goto _ hown.inOpen hown.usesChunk hown.size

theorem openChunk (h : s.Inv) (hpc : s.pc t = .rest (.openChunk size)) : (s.openChunk t size).Inv := by
  have hown := h.own t
  obtain ⟨c, hc, hopened⟩ := h.chunk_of_inOpen (t := t) (by rw [hpc]; trivial) (by rw [hpc]; trivial)
  rw [hpc] at hown
  have hsize : size ≤ sendBufferChunkSize := hown.size
  have hfree : (s.pc t).Free := by
    rw [hpc]
    trivial
  by_cases hfull : (s.chunk c).freeSize < size
  · have hnull : (s.chunk c).openBuffer size = .ok (none, s.chunk c) := by
      simp [SendBufferChunk.openBuffer, hopened, Nat.not_lt.mpr hsize, hfull]
    simp only [SendBufferPool.openChunk, hc, hnull]
    -- there is not enough room, and `Open` gives no buffer
    refine h.goto (by rw [hpc]; trivial) trivial ?_
    exact hown.goto _ False.elim False.elim (Nat.zero_le _)
  · have hbuffer : (s.chunk c).openBuffer size = .ok
      (some { pos := (s.chunk c).usedSize, allocSize := size, writeSize := 0 },
        { s.chunk c with opened := true }) := by
      simp [SendBufferChunk.openBuffer, hopened, Nat.not_lt.mpr hsize, hfull]
    have hroom : (s.chunk c).usedSize + size ≤ sendBufferChunkSize := by
      have hlen := h.laid.length c
      have hused := h.laid.used c
      unfold SendBufferChunk.freeSize at hfull
      omega
    simp only [SendBufferPool.openChunk, hc, hbuffer]
    refine ⟨h.failure, ?_, h.laid.openBuffer hopened hroom, ?_⟩
    · refine (RefTurns.cut hc rfl rfl ?_).counted h.counted
      intro d
      refine (refs_goto_of_free ?_ ?_).trans ?_
      · exact hfree
      · trivial
      · rw [refs_setUseCount]
        rfl
    · intro u
      by_cases hu : u = t
      · rw [hu]
        simp only [SendBufferPool.goto, setUseCount, setChunk, Function.update_self]
        exact Own.opens hc (fun b hb => Nat.ne_of_lt (h.laid.old b hb)) rfl rfl
      · simp only [SendBufferPool.goto, setUseCount, setChunk, Function.update_of_ne hu]
        refine ((h.own u).cons rfl).setChunk ?_
        -- no other thread has the chunk
        intro hcu
        exact absurd (h.current_inj hcu hc) hu

omit [Fintype T] [DecidableEq T] in
theorem mem_of_find {id : Nat} (h : s.find id = some b) : b ∈ s.buffers ∧ b.id = id :=
  ⟨List.mem_of_find?_eq_some h, of_decide_eq_true (List.find?_some (p := fun b : LiveBuffer => b.id = id) h)⟩

omit [DecidableEq T] in
theorem write (h : s.Inv) (hb : b ∈ s.buffers) (hopening : s.opening t = some b.id)
    (hsize : offset + bytes.length ≤ b.buffer.allocSize) : (s.write b offset bytes).Inv := by
  obtain ⟨hopen, hcurrent⟩ := (h.own t).cut b hb hopening
  obtain ⟨hpos, hstop, hopened⟩ := (h.laid.cut b hb).opened hopen
  have hend : b.stop = b.buffer.pos + b.buffer.allocSize := by
    unfold LiveBuffer.stop
    rw [hopen]
    rfl
  have hlen := h.laid.length b.owner
  have hfits : b.buffer.pos + offset + bytes.length ≤ (s.chunk b.owner).buffer.length := by omega
  have hwrite : (s.chunk b.owner).write (b.buffer.pos + offset) bytes = .ok { s.chunk b.owner with
      buffer := Bytes.write (s.chunk b.owner).buffer (b.buffer.pos + offset) bytes } := if_pos hfits
  simp only [SendBufferPool.write, hwrite]
  refine ⟨h.failure, h.counted, ?_, ?_⟩
  · refine h.laid.setChunk ?_ (h.laid.used b.owner) ?_
    · rw [← hlen]
      exact Bytes.length_write hfits
    · intro a ha howner
      have hcut := h.laid.cut a ha
      rw [howner] at hcut
      exact ⟨hcut.closed, hcut.opened⟩
  · intro u
    exact (h.own u).setChunk fun hc htrue => (h.own u).opened _ hc htrue

theorem close (h : s.Inv) (hpc : s.pc t = .rest .return) (hb : b ∈ s.buffers)
    (hopening : s.opening t = some b.id)
    (hsize : writeSize ≤ b.buffer.allocSize) : (s.close t b writeSize).Inv := by
  obtain ⟨hopen, hcurrent⟩ := (h.own t).cut b hb hopening
  obtain ⟨-, -, hopened⟩ := (h.laid.cut b hb).opened hopen
  have hclose : b.buffer.close (s.chunk b.owner) writeSize = .ok ({ b.buffer with writeSize := writeSize },
      { s.chunk b.owner with opened := false, usedSize := (s.chunk b.owner).usedSize + writeSize }) := by
    simp [SendBuffer.close, SendBufferChunk.close, hopened, Nat.not_lt.mpr hsize]
  have hrefs : ∀ c,
      (s.setBuffer { b with buffer := { b.buffer with writeSize := writeSize }, closed := true }).refs c
        = s.refs c := fun c => refs_setBuffer h.laid.nodup hb rfl rfl
  simp only [SendBufferPool.close, hclose]
  refine ⟨h.failure, (RefTurns.same hrefs).counted h.counted, h.laid.close hb hopen hsize, ?_⟩
  intro u
  by_cases hu : u = t
  · rw [hu]
    show Own _ _ _ (s.current t) (Function.update s.opening t none t) (s.pc t)
    rw [Function.update_self, hpc]
    exact Own.closes hcurrent rfl
  · show Own _ _ _ (s.current u) (Function.update s.opening t none u) (s.pc u)
    rw [Function.update_of_ne hu]
    refine ((h.own u).setBuffers _ ?_).setChunk (fun _ hfalse => by cases hfalse)
    intro a ha hid
    rcases Keyed.mem_set ha with rfl | ⟨ha, -⟩
    · -- the buffer is not one that another thread has opened
      exact absurd (h.current_inj ((h.own u).cut b hb hid).2 hcurrent) hu
    · exact ⟨a, ha, rfl, rfl, rfl⟩

omit [DecidableEq T] in
theorem setUseCount (h : s.Inv) (hb : b ∈ s.buffers) (n : Nat) :
    (s.setBuffer { b with useCount := n }).Inv := by
  have hrefs : ∀ c, (s.setBuffer { b with useCount := n }).refs c = s.refs c :=
    fun c => refs_setBuffer h.laid.nodup hb rfl rfl
  refine ⟨h.failure, (RefTurns.same hrefs).counted h.counted, h.laid.setUseCount hb n, ?_⟩
  intro u
  refine (h.own u).setBuffers _ ?_
  intro a ha _
  rcases Keyed.mem_set ha with rfl | ⟨ha, -⟩
  · exact ⟨b, hb, rfl, rfl, rfl⟩
  · exact ⟨a, ha, rfl, rfl, rfl⟩

theorem release (h : s.Inv) (hpc : s.pc t = .rest .return) (hb : b ∈ s.buffers) : (s.release t b).Inv := by
  have hset := h.setUseCount hb (b.useCount - 1)
  have hpc' : (s.setBuffer { b with useCount := b.useCount - 1 }).pc t = .rest .return := hpc
  unfold SendBufferPool.release
  split
  · refine hset.goto (by rw [hpc']; trivial) trivial ?_
    exact (hset.own t).goto _ False.elim False.elim (Nat.zero_le _)
  · refine hset.goto (by rw [hpc']; trivial) trivial ?_
    exact (hset.own t).goto _ False.elim False.elim (Nat.zero_le _)

theorem destroy {id : Nat} (h : s.Inv) (hpc : s.pc t = .destroy id) (hb : b ∈ s.buffers) :
    (s.destroy t b).Inv := by
  have hfree : (s.pc t).Free := by
    rw [hpc]
    trivial
  have hothers := fun u => (h.own u).setBuffers (Keyed.remove LiveBuffer.id s.buffers b.id)
    fun a ha _ => ⟨a, List.mem_of_mem_filter ha, rfl, rfl, rfl⟩
  refine ⟨h.failure, (RefTurns.destroy h.laid.nodup hb hfree).counted h.counted, h.laid.remove b.id, ?_⟩
  refine own_goto hothers ((hothers t).goto _ ?_ ?_ ?_) <;> split
  all_goals first | exact False.elim | exact Nat.zero_le _

omit [DecidableEq T] in
theorem init : (SendBufferPool.init : SendBufferPool T).Inv := by
  refine ⟨rfl, ?_, ?_, ?_⟩
  · intro c
    have hheld : tally (SendBufferPool.init : SendBufferPool T).current (holding c) = 0 :=
      tally.eq_zero fun _ => rfl
    have hpopped : tally (SendBufferPool.init : SendBufferPool T).pc (popping c) = 0 :=
      tally.eq_zero fun _ => rfl
    have hreturning : tally (SendBufferPool.init : SendBufferPool T).pc (returning c) = 0 :=
      tally.eq_zero fun _ => rfl
    have hrefs : (SendBufferPool.init : SendBufferPool T).refs c = ⟨False, 0, 0, 0, 0, 0, 0⟩ := by
      simp only [refs, hheld, hpopped, hreturning]
      simp [SendBufferPool.init]
    rw [hrefs]
    exact ⟨rfl, Nat.zero_le 1, fun _ => rfl, fun _ => ⟨rfl, rfl⟩⟩
  · exact ⟨fun _ => List.length_replicate, fun _ => Nat.zero_le _, List.nodup_nil, (fun _ h => by cases h),
      (fun _ h => by cases h), List.Pairwise.nil⟩
  · intro t
    exact ⟨(fun _ h => by cases h), (fun _ h => by cases h), (fun _ h => by cases h), False.elim, False.elim,
      Nat.zero_le _⟩

theorem idle {s' : SendBufferPool T} {action : Action} (h : s.Inv) (hpc : s.pc t = .rest .return)
    (hidle : s.idle t action = some s') : s'.Inv := by
  cases action with
  | openBuffer size =>
      simp only [SendBufferPool.idle, Option.ite_none_right_eq_some, Option.some.injEq] at hidle
      obtain ⟨⟨hsize, hopening⟩, rfl⟩ := hidle
      refine h.goto (by rw [hpc]; trivial) trivial ?_
      exact (h.own t).goto _ (fun _ => hopening) False.elim hsize
  | write offset bytes =>
      simp only [SendBufferPool.idle, Option.bind_eq_bind, Option.bind_eq_some_iff,
        Option.ite_none_right_eq_some,
        Option.some.injEq] at hidle
      obtain ⟨id, hopening, b, hfind, ⟨-, hsize⟩, rfl⟩ := hidle
      obtain ⟨hb, rfl⟩ := mem_of_find hfind
      exact h.write hb hopening hsize
  | close writeSize =>
      simp only [SendBufferPool.idle, Option.bind_eq_bind, Option.bind_eq_some_iff,
        Option.ite_none_right_eq_some,
        Option.some.injEq] at hidle
      obtain ⟨id, hopening, b, hfind, ⟨-, hsize⟩, rfl⟩ := hidle
      obtain ⟨hb, rfl⟩ := mem_of_find hfind
      exact h.close hpc hb hopening hsize
  | share id =>
      simp only [SendBufferPool.idle, Option.bind_eq_bind, Option.bind_eq_some_iff,
        Option.ite_none_right_eq_some,
        Option.some.injEq] at hidle
      obtain ⟨b, hfind, -, rfl⟩ := hidle
      exact h.setUseCount (mem_of_find hfind).1 _
  | release id =>
      simp only [SendBufferPool.idle, Option.bind_eq_bind, Option.bind_eq_some_iff,
        Option.ite_none_right_eq_some,
        Option.some.injEq] at hidle
      obtain ⟨b, hfind, -, rfl⟩ := hidle
      exact h.release hpc (mem_of_find hfind).1
  | next => cases hidle

theorem next {s' : SendBufferPool T} {a : T × Action} (h : s.Inv) (hnext : s.next a = some s') : s'.Inv := by
  obtain ⟨t, action⟩ := a
  have hown := h.own t
  unfold SendBufferPool.next at hnext
  rw [h.failure] at hnext
  simp only [Option.isSome_none, Bool.false_eq_true, if_false] at hnext
  split at hnext
  · next hpc => exact h.idle hpc hnext
  · next hpc =>
      obtain rfl := Option.some.inj hnext
      exact h.checkOpen hpc
  · next hpc =>
      obtain rfl := Option.some.inj hnext
      exact h.openChunk hpc
  · next size hpc =>
      rw [hpc] at hown
      cases hc : s.current t with
      | none =>
          rw [hc] at hnext
          obtain rfl := Option.some.inj hnext
          exact h.goto (by rw [hpc]; trivial) trivial
            (hown.goto _ hown.inOpen False.elim hown.size)
      | some c =>
          rw [hc] at hnext
          obtain rfl := Option.some.inj hnext
          refine h.goto (by rw [hpc]; trivial) trivial
            (hown.goto _ hown.inOpen (fun _ => ?_) hown.size)
          rw [hc]
          exact Option.some_ne_none c
  · next hpc =>
      obtain rfl := Option.some.inj hnext
      exact h.pop hpc
  · next hpc =>
      obtain rfl := Option.some.inj hnext
      exact h.assign hpc
  · next hpc =>
      obtain rfl := Option.some.inj hnext
      exact h.pushGlobal hpc
  · next hpc =>
      obtain ⟨b, hfind, rfl⟩ := Option.map_eq_some_iff.mp hnext
      exact h.destroy hpc (mem_of_find hfind).1
  · cases hnext

omit [DecidableEq T] in
theorem bytes_subset (h : s.Inv) (hb : b ∈ s.buffers) : b.bytes ⊆ Finset.range sendBufferChunkSize := by
  have hstop : b.stop ≤ sendBufferChunkSize := by
    -- a closed buffer ends below `_usedSize`, the open one where its allocation does
    cases hclosed : b.closed with
    | true => exact Nat.le_trans ((h.laid.cut b hb).closed hclosed) (h.laid.used b.owner)
    | false => exact ((h.laid.cut b hb).opened hclosed).2.1
  intro i hi
  exact Finset.mem_range.mpr (Nat.lt_of_lt_of_le (Finset.mem_Ico.mp hi).2 hstop)

omit [DecidableEq T] in
theorem pooled (h : s.Inv) (hc : c ∈ s.sendBufferChunks) :
    (∀ b ∈ s.buffers, b.owner ≠ c) ∧ ∀ t, s.current t ≠ some c := by
  have hpos : 0 < s.sendBufferChunks.count c := List.count_pos_iff.mpr hc
  refine ⟨h.no_buffer (by simp only [refs]; omega), ?_⟩
  intro t ht
  have hheld := held_pos ht
  have hone := (h.counted c).one
  have hpooled : (s.refs c).pooled = s.sendBufferChunks.count c := rfl
  omega

end Inv

/-- No buffer has bytes of another one, or of a chunk that is in the pool, and nothing fails. -/
structure Separate (s : SendBufferPool T) : Prop where
  failure : s.failure = none
  inside : ∀ b ∈ s.buffers, b.bytes ⊆ Finset.range sendBufferChunkSize
  disjoint : s.buffers.Pairwise fun a b => a.owner = b.owner → Disjoint a.bytes b.bytes
  pooled : ∀ c ∈ s.sendBufferChunks, (∀ b ∈ s.buffers, b.owner ≠ c) ∧ ∀ t, s.current t ≠ some c

theorem LiveBuffer.disjoint_of_apart {a b : LiveBuffer} (h : Apart a b) (howner : a.owner = b.owner) :
    Disjoint a.bytes b.bytes := by
  refine Finset.disjoint_left.mpr ?_
  intro i ha hb
  obtain ⟨hal, har⟩ := Finset.mem_Ico.mp ha
  obtain ⟨hbl, hbr⟩ := Finset.mem_Ico.mp hb
  rcases (h howner).2 with hle | hle <;> omega

theorem Inv.separate {s : SendBufferPool T} (h : s.Inv) : s.Separate :=
  ⟨h.failure, fun _ hb => h.bytes_subset hb, h.laid.apart.imp LiveBuffer.disjoint_of_apart,
    fun _ hc => h.pooled hc⟩

theorem separate_reachable [DecidableEq T] {s : SendBufferPool T}
    (h : Reachable (.ofFun next) init s) : s.Separate :=
  (h.invariant (I := Inv) Inv.init fun _ _ _ hs hnext => hs.next hnext).separate

/-- A buffer leaves no room for the next one; another thread then gives its chunk back. -/
theorem separate_reachable_reuse : ∃ s : SendBufferPool (Fin 2), Reachable (.ofFun next) init s
    ∧ s.sendBufferChunks = [0] ∧ s.buffers.map (fun b => (b.id, b.owner, b.buffer.pos, b.closed)) =
      [(2, 1, 2000, false), (1, 1, 0, true)] ∧ s.Separate := by
  have hrun : (([(0, .openBuffer 5000), (0, .next), (0, .next), (0, .next), (0, .next), (0, .next),
      (0, .close 5000), (0, .share 0), (1, .release 0), (0, .openBuffer 2000), (0, .next), (0, .next),
        (0, .next),
      (0, .next), (0, .next), (1, .release 0), (1, .next), (1, .next), (0, .close 2000),
        (0, .openBuffer 4000),
      (0, .next), (0, .next), (0, .next)] : List (Fin 2 × Action)).foldlM next init).map (fun s =>
        (s.sendBufferChunks, s.buffers.map fun b => (b.id, b.owner, b.buffer.pos, b.closed))) =
      some ([0], [(2, 1, 2000, false), (1, 1, 0, true)]) := by
    decide +kernel
  obtain ⟨s, hs, heq⟩ := Option.map_eq_some_iff.mp hrun
  have hreach : Reachable (.ofFun next) init s := Reachable.of_run hs Reachable.refl
  obtain ⟨hpool, hbuffers⟩ := Prod.mk.inj heq
  exact ⟨s, hreach, hpool, hbuffers, separate_reachable hreach⟩

end SendBufferPool

end StarCraftIocp
