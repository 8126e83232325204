import Mathlib.Data.List.Nodup
import StarCraftIocp.Lib.Outcome
import StarCraftIocp.Lib.Transition
import StarCraftIocp.ServerCore.Memory

/-!
# What the pool allocator promises

Three loops lay out the size classes, each going on where the one before stopped.
The last size they come to is 3872, and the entries of the table above it are never
stored. For all other sizes the allocator does what it should: a block comes from
the pool of its size class, and goes back there.
-/

namespace StarCraftIocp

open CInt Outcome

namespace PoolLayout

/-! ## The size classes -/

/-- The entries stored so far name pools whose blocks are large enough. -/
structure Filled (l : PoolLayout) : Prop where
  below : ∀ i < l.tableIndex, ∃ pool size, l.poolTable i = some pool ∧ l.pools[pool]? = some size ∧ i ≤ size
  above : ∀ i, l.tableIndex ≤ i → l.poolTable i = none

theorem filled_fillTable {pool size : Nat} (fuel : Nat) {l : PoolLayout} (h : l.Filled)
    (hpool : l.pools[pool]? = some size) : (fillTable pool size fuel l).Filled := by
  induction fuel generalizing l with
  | zero => exact h
  | succ fuel ih =>
      unfold fillTable
      split
      · next hle =>
        refine ih ⟨?_, ?_⟩ hpool
        · intro i hi
          dsimp only at hi ⊢
          by_cases hlast : i = l.tableIndex
          · rw [hlast, Function.update_self]
            exact ⟨pool, size, rfl, hpool, hle⟩
          · rw [Function.update_of_ne hlast]
            exact h.below i (by omega)
        · intro i hi
          dsimp only at hi ⊢
          rw [Function.update_of_ne (by omega)]
          exact h.above i (by omega)
      · exact h

theorem filled_addPool {l : PoolLayout} (h : l.Filled) (size : Nat) : (l.addPool size).Filled := by
  have hnew : (l.pools ++ [size])[l.pools.length]? = some size := List.getElem?_concat_length
  refine filled_fillTable (size + 1) ⟨?_, h.above⟩ hnew
  intro i hi
  obtain ⟨pool, size', htable, hpool, hle⟩ := h.below i hi
  refine ⟨pool, size', htable, ?_, hle⟩
  rw [List.getElem?_append_left (List.getElem?_eq_some_iff.mp hpool).1]
  exact hpool

theorem filled_poolLoop (limit step fuel : Nat) {s : Nat × PoolLayout} (h : s.2.Filled) :
    (poolLoop limit step fuel s).2.Filled := by
  induction fuel generalizing s with
  | zero => exact h
  | succ fuel ih =>
      unfold poolLoop
      split
      · exact ih (filled_addPool h _)
      · exact h

theorem filled_constructed : constructed.Filled := by
  have hinit : init.Filled := ⟨fun i hi => absurd hi (Nat.not_lt_zero i), fun _ _ => rfl⟩
  exact filled_poolLoop _ _ _ (filled_poolLoop _ _ _ (filled_poolLoop _ _ _ hinit))

/-- The last entry stored is that of 3872. -/
theorem tableIndex_constructed : constructed.tableIndex = 3873 := by decide +kernel

/-- Up to 3872 every entry names a pool, and its blocks are large enough. -/
theorem constructed_below {i : Nat} (h : i ≤ 3872) : ∃ pool size, constructed.poolTable i = some pool ∧
    constructed.pools[pool]? = some size ∧ i ≤ size := by
  refine filled_constructed.below i ?_
  rw [tableIndex_constructed]
  omega

theorem constructed_above {i : Nat} (h : 3872 < i) : constructed.poolTable i = none := by
  refine filled_constructed.above i ?_
  rw [tableIndex_constructed]
  omega

end PoolLayout

/-! ## Blocks in use, blocks in a pool -/

namespace Heap

variable {sizeofMemoryHeader : Nat} {h : Heap}

/-- The block has the room that was asked for, and its header and its origin tell where it belongs. -/
structure LoanSound (sizeofMemoryHeader : Nat) (m : Memory) (loan : Loan) : Prop where
  nonneg : 0 ≤ loan.size
  header : m.allocSize loan.block = loan.size + sizeofMemoryHeader
  room : ∃ capacity, m.system loan.block = some capacity ∧ loan.size + sizeofMemoryHeader ≤ capacity
  origin : loan.origin = originOf sizeofMemoryHeader m loan.size
  pool : ∀ pool, loan.origin = some pool → m.system loan.block = m.pools[pool]?
  small : loan.origin = none → loan.size + sizeofMemoryHeader > maxAllocSize

/-- Every block the system has handed out is in use, in one pool, or loose. -/
structure Sound (sizeofMemoryHeader : Nat) (h : Heap) : Prop where
  pools : h.memory.pools = PoolLayout.constructed.pools
  table : h.memory.poolTable = PoolLayout.constructed.poolTable
  loan : ∀ loan ∈ h.loans, LoanSound sizeofMemoryHeader h.memory loan
  distinct : (h.loans.map Loan.block).Nodup
  pooled : ∀ pool, ∀ b ∈ h.memory.freeList pool, h.memory.allocSize b = 0 ∧
    ∃ size, h.memory.pools[pool]? = some size ∧ h.memory.system b = some size
  unused : ∀ pool, ∀ b ∈ h.memory.freeList pool, ∀ loan ∈ h.loans, loan.block ≠ b
  once : ∀ pool, (h.memory.freeList pool).Nodup
  apart : ∀ pool pool' b, b ∈ h.memory.freeList pool → b ∈ h.memory.freeList pool' → pool = pool'

/-- Neither in use nor in a pool. -/
structure Loose (h : Heap) (b : Block) : Prop where
  unused : ∀ loan ∈ h.loans, loan.block ≠ b
  unpooled : ∀ pool, b ∉ h.memory.freeList pool

theorem sound_init : Sound sizeofMemoryHeader init where
  pools := by simp only [init, Memory.new]
  table := by simp only [init, Memory.new]
  loan _ hmem := absurd hmem List.not_mem_nil
  distinct := List.nodup_nil
  pooled _ _ hmem := absurd hmem List.not_mem_nil
  unused _ _ hmem := absurd hmem List.not_mem_nil
  once _ := List.nodup_nil
  apart _ _ _ hmem := absurd hmem List.not_mem_nil

theorem LoanSound.of_eq {m m' : Memory} {loan : Loan} (h : LoanSound sizeofMemoryHeader m loan)
    (hpools : m'.pools = m.pools) (htable : m'.poolTable = m.poolTable)
    (hheader : m'.allocSize loan.block = m.allocSize loan.block)
    (hsystem : m'.system loan.block = m.system loan.block) : LoanSound sizeofMemoryHeader m' loan := by
  have horigin : originOf sizeofMemoryHeader m' loan.size = originOf sizeofMemoryHeader m loan.size := by
    simp only [originOf, Memory.tableEntry, htable]
  refine ⟨h.nonneg, ?_, ?_, ?_, ?_, h.small⟩
  · rw [hheader]; exact h.header
  · rw [hsystem]; exact h.room
  · rw [horigin]; exact h.origin
  · rw [hsystem, hpools]; exact h.pool

/-- What the system is about to hand out is loose. -/
theorem loose_fresh (hs : Sound sizeofMemoryHeader h) {fresh : Block}
    (hfresh : h.memory.system fresh = none) : h.Loose fresh := by
  constructor
  · intro loan hmem heq
    obtain ⟨capacity, hcapacity, -⟩ := (hs.loan loan hmem).room
    rw [heq, hfresh] at hcapacity
    cases hcapacity
  · intro pool hmem
    obtain ⟨-, size, -, hsize⟩ := hs.pooled pool fresh hmem
    rw [hfresh] at hsize
    cases hsize

/-- Nothing depends on what is known of a loose block. -/
theorem sound_of_loose (hs : Sound sizeofMemoryHeader h) {b : Block} (hb : h.Loose b) {m : Memory}
    (hpools : m.pools = h.memory.pools) (htable : m.poolTable = h.memory.poolTable)
    (hfree : m.freeList = h.memory.freeList)
    (hheader : ∀ c, c ≠ b → m.allocSize c = h.memory.allocSize c)
    (hsystem : ∀ c, c ≠ b → m.system c = h.memory.system c) :
    Sound sizeofMemoryHeader { h with memory := m } where
  pools := by rw [hpools]; exact hs.pools
  table := by rw [htable]; exact hs.table
  loan := by
    intro loan hmem
    have hne : loan.block ≠ b := hb.unused loan hmem
    exact (hs.loan loan hmem).of_eq hpools htable (hheader _ hne) (hsystem _ hne)
  distinct := hs.distinct
  pooled := by
    intro pool c hc
    dsimp only at hc ⊢
    rw [hfree] at hc
    have hne : c ≠ b := by
      intro heq
      subst heq
      exact hb.unpooled pool hc
    rw [hheader c hne, hsystem c hne, hpools]
    exact hs.pooled pool c hc
  unused := by
    dsimp only
    rw [hfree]
    exact hs.unused
  once := by
    dsimp only
    rw [hfree]
    exact hs.once
  apart := by
    dsimp only
    rw [hfree]
    exact hs.apart

/-! ## The contract -/

/-- What holds of the blocks in use and of the free lists. -/
structure Contract (sizeofMemoryHeader : Nat) (h : Heap) : Prop where
  capacity : ∀ loan ∈ h.loans, ∃ capacity, h.memory.system loan.block = some capacity ∧
    loan.size + sizeofMemoryHeader ≤ capacity
  distinct : (h.loans.map Loan.block).Nodup
  pooled : ∀ pool, ∀ b ∈ h.memory.freeList pool, h.memory.allocSize b = 0 ∧
    ∃ size, h.memory.pools[pool]? = some size ∧ h.memory.system b = some size
  once : ∀ pool, (h.memory.freeList pool).Nodup

/-- Where a block on loan was taken from. -/
def Taken (m m' : Memory) (fresh : Block) (loan : Loan) : Prop :=
  match loan.origin with
  | none => loan.block = fresh
  | some pool => m.freeList pool = loan.block :: m'.freeList pool ∨
      m.freeList pool = [] ∧ loan.block = fresh

/-- A block goes back to where it was taken from. -/
def Returned (m m' : Memory) (loan : Loan) : Prop :=
  match loan.origin with
  | none => m'.system loan.block = none
  | some pool => m'.freeList pool = loan.block :: m.freeList pool

/-- What the allocator owes its caller. -/
def Fulfils (sizeofMemoryHeader : Nat) (h : Heap) (e : HeapEvent) : Prop :=
  Yields (h.exec sizeofMemoryHeader e) fun h' => Contract sizeofMemoryHeader h' ∧
    match e with
    | .allocate size fresh => ∃ loan : Loan, h'.loans = loan :: h.loans ∧ loan.size = size ∧
        Taken h.memory h'.memory fresh loan
    | .release block => ∀ loan ∈ h.loans, loan.block = block → Returned h.memory h'.memory loan

/-- The sizes that have a pool, and those that the system serves. -/
def Served (sizeofMemoryHeader : Nat) : HeapEvent → Prop
  | .allocate size _ => size + sizeofMemoryHeader ≤ 3872 ∨ size + sizeofMemoryHeader > maxAllocSize
  | .release _ => True

instance (z : Nat) : (e : HeapEvent) → Decidable (Served z e)
  | .allocate _ _ => inferInstanceAs (Decidable (_ ∨ _))
  | .release _ => inferInstanceAs (Decidable True)

theorem Sound.contract (hs : Sound sizeofMemoryHeader h) : Contract sizeofMemoryHeader h where
  capacity loan hmem := (hs.loan loan hmem).room
  distinct := hs.distinct
  pooled := hs.pooled
  once := hs.once

/-! ## Allocate -/

/-- A block that the system hands out is loose. -/
theorem malloc_spec (hs : Sound sizeofMemoryHeader h) {fresh : Block} (hfresh : h.memory.system fresh = none)
    (size : Nat) : Sound sizeofMemoryHeader { h with memory := h.memory.alignedMalloc size fresh } ∧
      Loose { h with memory := h.memory.alignedMalloc size fresh } fresh := by
  have hloose : h.Loose fresh := loose_fresh hs hfresh
  refine ⟨sound_of_loose hs hloose rfl rfl rfl (fun _ _ => rfl) ?_, hloose.unused, hloose.unpooled⟩
  intro c hc
  exact Function.update_of_ne hc _ _

/-- A loose block may be given a size. -/
theorem attach_spec (hs : Sound sizeofMemoryHeader h) {b : Block} (hb : h.Loose b) (size : Int) :
    Sound sizeofMemoryHeader { h with memory := h.memory.attachHeader b size } ∧
      Loose { h with memory := h.memory.attachHeader b size } b := by
  refine ⟨sound_of_loose hs hb rfl rfl rfl ?_ fun _ _ => rfl, hb.unused, hb.unpooled⟩
  intro c hc
  exact Function.update_of_ne hc _ _

/-- The first block of a free list is loose once it is off the list. -/
theorem unlink_spec (hs : Sound sizeofMemoryHeader h) {pool : Nat} {memory : Block} {rest : List Block}
    (hfree : h.memory.freeList pool = memory :: rest) {m : Memory}
    (hm : m = { h.memory with freeList := Function.update h.memory.freeList pool rest }) :
    Sound sizeofMemoryHeader { h with memory := m } ∧ Loose { h with memory := m } memory := by
  subst hm
  have hmem : memory ∈ h.memory.freeList pool := by
    rw [hfree]
    exact List.mem_cons_self
  obtain ⟨hnotin, hrest⟩ := List.nodup_cons.mp (hfree ▸ hs.once pool)
  -- every list is as it was, or has lost its first block
  have hsub : ∀ p c, c ∈ Function.update h.memory.freeList pool rest p → c ∈ h.memory.freeList p := by
    intro p c hc
    by_cases hp : p = pool
    · subst hp
      rw [Function.update_self] at hc
      rw [hfree]
      exact List.mem_cons_of_mem memory hc
    · rwa [Function.update_of_ne hp] at hc
  refine ⟨⟨hs.pools, hs.table, ?_, hs.distinct, ?_, ?_, ?_, ?_⟩, ?_, ?_⟩
  · intro loan hloan
    exact (hs.loan loan hloan).of_eq rfl rfl rfl rfl
  · intro p c hc
    exact hs.pooled p c (hsub p c hc)
  · intro p c hc
    exact hs.unused p c (hsub p c hc)
  · intro p
    dsimp only
    by_cases hp : p = pool
    · subst hp
      rw [Function.update_self]
      exact hrest
    · rw [Function.update_of_ne hp]
      exact hs.once p
  · intro p q c hc hc'
    exact hs.apart p q c (hsub p c hc) (hsub q c hc')
  · exact hs.unused pool memory hmem
  · intro p hc
    dsimp only at hc
    by_cases hp : p = pool
    · subst hp
      rw [Function.update_self] at hc
      exact hnotin hc
    · exact hp (hs.apart p pool memory (hsub p memory hc) hmem)

/-- A block taken from a pool has the size of the pool, and is loose. -/
theorem pop_spec (hs : Sound sizeofMemoryHeader h) {pool size : Nat}
    (hpool : h.memory.pools[pool]? = some size)
    {fresh : Block} (hfresh : h.memory.system fresh = none) :
    Yields (h.memory.pop pool fresh) fun r => Sound sizeofMemoryHeader { h with memory := r.2 } ∧
      Loose { h with memory := r.2 } r.1 ∧ r.2.system r.1 = some size ∧
      (h.memory.freeList pool = r.1 :: r.2.freeList pool ∨ h.memory.freeList pool = [] ∧ r.1 = fresh) := by
  unfold Memory.pop
  cases hfree : h.memory.freeList pool with
  | nil =>
      obtain ⟨hsound, hloose⟩ := malloc_spec hs hfresh (h.memory.pools.getD pool 0)
      have hsize : h.memory.pools.getD pool 0 = size := by
        rw [List.getD_eq_getElem?_getD, hpool, Option.getD_some]
      refine Yields.ok ⟨hsound, hloose, ?_, Or.inr ⟨rfl, rfl⟩⟩
      dsimp only [Memory.alignedMalloc]
      rw [Function.update_self, hsize]
  | cons memory rest =>
      have hmem : memory ∈ h.memory.freeList pool := by
        rw [hfree]
        exact List.mem_cons_self
      obtain ⟨hzero, size', hsize', hsystem⟩ := hs.pooled pool memory hmem
      obtain rfl : size' = size := Option.some.inj (hsize'.symm.trans hpool)
      obtain ⟨hsound, hloose⟩ := unlink_spec hs hfree rfl
      dsimp only
      rw [if_pos hzero]
      refine Yields.ok ⟨hsound, hloose, hsystem, Or.inl ?_⟩
      dsimp only
      rw [Function.update_self]

/-- A loose block can be lent. -/
theorem sound_lend (hs : Sound sizeofMemoryHeader h) {loan : Loan} (hb : h.Loose loan.block)
    (hloan : LoanSound sizeofMemoryHeader h.memory loan) :
    Sound sizeofMemoryHeader { h with loans := loan :: h.loans } where
  pools := hs.pools
  table := hs.table
  loan := by
    intro loan' hmem
    rcases List.mem_cons.mp hmem with rfl | hmem
    · exact hloan
    · exact hs.loan loan' hmem
  distinct := by
    rw [List.map_cons, List.nodup_cons]
    refine ⟨?_, hs.distinct⟩
    intro hmem
    obtain ⟨loan', hmem', heq⟩ := List.mem_map.mp hmem
    exact hb.unused loan' hmem' heq
  pooled := hs.pooled
  unused := by
    intro pool b hmem loan' hloan'
    rcases List.mem_cons.mp hloan' with rfl | hloan'
    · intro heq₁
      subst heq₁
      exact hb.unpooled pool hmem
    · exact hs.unused pool b hmem loan' hloan'
  once := hs.once
  apart := hs.apart

theorem allocSize_eq {size : Int} (h0 : 0 ≤ size) (h1 : size + sizeofMemoryHeader ≤ intMax) :
    int32 (sizeT (sizeT size + sizeofMemoryHeader)) = size + sizeofMemoryHeader := by
  unfold intMax at h1
  rw [sizeT_of_range h0 (by omega), sizeT_of_range (by omega) (by omega),
    int32_of_range (by omega) (by omega)]

theorem tableEntry_eq (hs : Sound sizeofMemoryHeader h) {n : Int} (h0 : 0 ≤ n) :
    h.memory.tableEntry n = PoolLayout.constructed.poolTable n.toNat := by
  unfold Memory.tableEntry
  rw [if_pos h0, hs.table]

theorem allocate_spec (hs : Sound sizeofMemoryHeader h) {size : Int} {fresh : Block} (h0 : 0 ≤ size)
    (h1 : size + sizeofMemoryHeader ≤ intMax) (hfresh : h.memory.system fresh = none)
    (hserved : Served sizeofMemoryHeader (.allocate size fresh)) :
    Yields (h.memory.allocate sizeofMemoryHeader size fresh) fun r =>
      ∃ loan : Loan, loan = { block := r.1, size := size, origin := originOf sizeofMemoryHeader h.memory size } ∧
        Sound sizeofMemoryHeader { memory := r.2, loans := loan :: h.loans } ∧
        Taken h.memory r.2 fresh loan := by
  unfold Memory.allocate
  rw [allocSize_eq h0 h1]
  dsimp only
  by_cases hlarge : size + sizeofMemoryHeader > maxAllocSize
  · have horigin : originOf sizeofMemoryHeader h.memory size = none := if_pos hlarge
    obtain ⟨hmalloc, hloose⟩ := malloc_spec hs hfresh (size + sizeofMemoryHeader).toNat
    obtain ⟨hattach, hloose⟩ := attach_spec hmalloc hloose (size + sizeofMemoryHeader)
    rw [if_pos hlarge, horigin]
    refine Yields.ok ⟨_, rfl, ?_, rfl⟩
    refine sound_lend hattach hloose ?_
    refine ⟨h0, Function.update_self _ _ _, ?_, ?_, nofun, fun _ => hlarge⟩
    · refine ⟨(size + sizeofMemoryHeader).toNat, Function.update_self _ _ _, ?_⟩
      dsimp only
      omega
    · exact horigin.symm
  · have hsmall : (size + sizeofMemoryHeader).toNat ≤ 3872 := by
      unfold Served at hserved
      omega
    obtain ⟨pool, capacity, htable, hpool, hroom⟩ := PoolLayout.constructed_below hsmall
    have hentry : h.memory.tableEntry (size + sizeofMemoryHeader) = some pool := by
      rw [tableEntry_eq hs (by omega), htable]
    have horigin : originOf sizeofMemoryHeader h.memory size = some pool := by
      unfold originOf
      rw [if_neg hlarge, hentry]
    rw [if_neg hlarge, hentry, horigin]
    rw [← hs.pools] at hpool
    refine Yields.bind (pop_spec hs hpool hfresh) ?_
    intro popped hspec
    rcases popped with ⟨header, m⟩
    rcases hspec with ⟨hpopped, hloose, hsystem, htaken⟩
    obtain ⟨hattach, hloose⟩ := attach_spec hpopped hloose (size + sizeofMemoryHeader)
    have hpools : m.pools[pool]? = some capacity := by
      rw [hpopped.pools, ← hs.pools]
      exact hpool
    refine Yields.ok ⟨_, rfl, ?_, htaken⟩
    refine sound_lend hattach hloose ?_
    refine ⟨h0, Function.update_self _ _ _, ?_, ?_, ?_, nofun⟩
    · refine ⟨capacity, hsystem, ?_⟩
      dsimp only
      omega
    · unfold originOf
      dsimp only
      rw [if_neg hlarge, tableEntry_eq hattach (by omega), htable]
    · intro pool' heq
      obtain rfl := Option.some.inj heq
      exact hsystem.trans hpools.symm

/-! ## Release -/

/-- A block that is taken out of use is loose. -/
theorem retire_spec (hs : Sound sizeofMemoryHeader h) {loan : Loan} (hmem : loan ∈ h.loans) :
    Sound sizeofMemoryHeader { h with loans := h.loans.filter fun l => l.block ≠ loan.block } ∧
      Loose { h with loans := h.loans.filter fun l => l.block ≠ loan.block } loan.block := by
  have hsub : ∀ l, l ∈ h.loans.filter (fun l => l.block ≠ loan.block) → l ∈ h.loans := by
    intro l hl
    exact (List.mem_filter.mp hl).1
  refine ⟨⟨hs.pools, hs.table, ?_, ?_, hs.pooled, ?_, hs.once, hs.apart⟩, ?_, ?_⟩
  · intro l hl
    exact hs.loan l (hsub l hl)
  · exact hs.distinct.sublist (List.filter_sublist.map Loan.block)
  · intro pool b hb l hl
    exact hs.unused pool b hb l (hsub l hl)
  · intro l hl
    exact of_decide_eq_true (List.mem_filter.mp hl).2
  · intro pool hb
    exact hs.unused pool loan.block hb loan hmem rfl

/-- A loose block can be put into the pool of its size. -/
theorem sound_push (hs : Sound sizeofMemoryHeader h) {b : Block} (hb : h.Loose b) {pool size : Nat}
    (hpool : h.memory.pools[pool]? = some size) (hsystem : h.memory.system b = some size) :
    Sound sizeofMemoryHeader { h with memory := h.memory.push pool b } := by
  have hlist : ∀ p c, c ∈ (h.memory.push pool b).freeList p → c = b ∧ p = pool ∨ c ∈ h.memory.freeList p := by
    intro p c hc
    dsimp only [Memory.push] at hc
    by_cases hp : p = pool
    · subst hp
      rw [Function.update_self] at hc
      rcases List.mem_cons.mp hc with rfl | hc
      · exact Or.inl ⟨rfl, rfl⟩
      · exact Or.inr hc
    · rw [Function.update_of_ne hp] at hc
      exact Or.inr hc
  have hheader : ∀ c, c ≠ b → (h.memory.push pool b).allocSize c = h.memory.allocSize c := by
    intro c hc
    exact Function.update_of_ne hc _ _
  refine ⟨hs.pools, hs.table, ?_, hs.distinct, ?_, ?_, ?_, ?_⟩
  · intro loan hloan
    exact (hs.loan loan hloan).of_eq rfl rfl (hheader _ (hb.unused loan hloan)) rfl
  · intro p c hc
    rcases hlist p c hc with ⟨rfl, rfl⟩ | hin
    · exact ⟨Function.update_self _ _ _, size, hpool, hsystem⟩
    · have hne : c ≠ b := by
        intro heq
        subst heq
        exact hb.unpooled p hin
      obtain ⟨hzero, hsize⟩ := hs.pooled p c hin
      exact ⟨(hheader c hne).trans hzero, hsize⟩
  · intro p c hc
    rcases hlist p c hc with ⟨rfl, rfl⟩ | hin
    · exact hb.unused
    · exact hs.unused p c hin
  · intro p
    dsimp only [Memory.push]
    by_cases hp : p = pool
    · subst hp
      rw [Function.update_self, List.nodup_cons]
      exact ⟨hb.unpooled p, hs.once p⟩
    · rw [Function.update_of_ne hp]
      exact hs.once p
  · intro p q c hc hc'
    rcases hlist p c hc with ⟨rfl, rfl⟩ | hin
    · rcases hlist q c hc' with ⟨-, rfl⟩ | hin'
      · rfl
      · exact absurd hin' (hb.unpooled q)
    · rcases hlist q c hc' with ⟨rfl, -⟩ | hin'
      · exact absurd hin (hb.unpooled p)
      · exact hs.apart p q c hin hin'

theorem release_spec (hz : 0 < sizeofMemoryHeader) (hs : Sound sizeofMemoryHeader h) {loan : Loan}
    (hmem : loan ∈ h.loans) :
    Yields (h.memory.release loan.block) fun m =>
      Sound sizeofMemoryHeader { memory := m, loans := h.loans.filter fun l => l.block ≠ loan.block } ∧
        Returned h.memory m loan := by
  have hloan : LoanSound sizeofMemoryHeader h.memory loan := hs.loan loan hmem
  obtain ⟨hrest, hloose⟩ := retire_spec hs hmem
  have hnonneg := hloan.nonneg
  unfold Memory.release Returned
  rw [hloan.header, hloan.origin]
  dsimp only
  rw [if_pos (by omega)]
  by_cases hlarge : loan.size + sizeofMemoryHeader > maxAllocSize
  · have horigin : originOf sizeofMemoryHeader h.memory loan.size = none := if_pos hlarge
    rw [if_pos hlarge, horigin]
    refine Yields.ok ⟨?_, Function.update_self _ _ _⟩
    refine sound_of_loose hrest hloose rfl rfl rfl (fun _ _ => rfl) ?_
    intro c hc
    exact Function.update_of_ne hc _ _
  · have horigin : originOf sizeofMemoryHeader h.memory loan.size =
        h.memory.tableEntry (loan.size + sizeofMemoryHeader) := if_neg hlarge
    rw [if_neg hlarge, horigin]
    cases hentry : h.memory.tableEntry (loan.size + sizeofMemoryHeader) with
    | none =>
        have hnone : loan.origin = none := by rw [hloan.origin, horigin, hentry]
        exact absurd (hloan.small hnone) hlarge
    | some pool =>
        have hsome : loan.origin = some pool := by rw [hloan.origin, horigin, hentry]
        obtain ⟨capacity, hcapacity, -⟩ := hloan.room
        have hpool : h.memory.pools[pool]? = some capacity := by
          rw [← hloan.pool pool hsome, hcapacity]
        refine Yields.ok ⟨sound_push hrest hloose hpool hcapacity, ?_⟩
        exact Function.update_self _ _ _

/-! ## Runs -/

/-- An event that is served goes as it should. -/
theorem exec_spec (hz : 0 < sizeofMemoryHeader) (hs : Sound sizeofMemoryHeader h) {e : HeapEvent}
    (he : h.Enabled sizeofMemoryHeader e) (hserved : Served sizeofMemoryHeader e) :
    Fulfils sizeofMemoryHeader h e ∧ Yields (h.exec sizeofMemoryHeader e) (Sound sizeofMemoryHeader) := by
  cases e with
  | allocate size fresh =>
      obtain ⟨h0, h1, hfresh⟩ := he
      obtain ⟨⟨block, memory⟩, heq, loan, hloan, hsound, htaken⟩ := allocate_spec hs h0 h1 hfresh hserved
      have hexec : h.exec sizeofMemoryHeader (.allocate size fresh) =
          .ok { memory := memory, loans := loan :: h.loans } := by
        simp only [exec, heq, ok_bind, pure_eq, hloan]
      have hsize : loan.size = size := by rw [hloan]
      exact ⟨⟨_, hexec, hsound.contract, loan, rfl, hsize, htaken⟩, _, hexec, hsound⟩
  | release block =>
      obtain ⟨loan, hmem, rfl⟩ := he
      obtain ⟨memory, heq, hsound, hreturned⟩ := release_spec hz hs hmem
      have hexec : h.exec sizeofMemoryHeader (.release loan.block) =
          .ok { memory := memory, loans := h.loans.filter fun l => l.block ≠ loan.block } := by
        simp only [exec, heq, ok_bind, pure_eq]
      refine ⟨⟨_, hexec, hsound.contract, ?_⟩, _, hexec, hsound⟩
      intro loan' hmem' hblock
      obtain rfl : loan' = loan := List.inj_on_of_nodup_map hs.distinct hmem' hmem hblock
      exact hreturned

/-- For every other size the entry of the table is one that was never stored. -/
theorem exec_unserved (hs : Sound sizeofMemoryHeader h) {e : HeapEvent}
    (he : h.Enabled sizeofMemoryHeader e) (hserved : ¬ Served sizeofMemoryHeader e) :
    h.exec sizeofMemoryHeader e = .error .uninitialisedEntry := by
  cases e with
  | release block => exact absurd trivial hserved
  | allocate size fresh =>
      obtain ⟨h0, h1, -⟩ := he
      obtain ⟨hlow, hhigh⟩ := not_or.mp hserved
      have hentry : h.memory.tableEntry (size + sizeofMemoryHeader) = none := by
        rw [tableEntry_eq hs (by omega), PoolLayout.constructed_above (by omega)]
      have hallocate : h.memory.allocate sizeofMemoryHeader size fresh = .error .uninitialisedEntry := by
        unfold Memory.allocate
        rw [allocSize_eq h0 h1]
        dsimp only
        rw [if_neg hhigh, hentry]
      simp only [exec, hallocate, error_bind]

theorem sound_reachable (hz : 0 < sizeofMemoryHeader)
    (hr : Reachable (Transition.ofFun (next sizeofMemoryHeader)) init h) : Sound sizeofMemoryHeader h := by
  refine hr.invariant sound_init ?_
  intro s e s' hs hstep
  unfold Transition.ofFun next at hstep
  split at hstep
  · next he =>
    by_cases hserved : Served sizeofMemoryHeader e
    · obtain ⟨-, t, hexec, hsound⟩ := exec_spec hz hs he hserved
      rw [hexec] at hstep
      obtain rfl := Option.some.inj hstep
      exact hsound
    · rw [exec_unserved hs he hserved] at hstep
      cases hstep
  · cases hstep

/-- The contract holds in every run; it is kept by every event except an `Allocate` that falls into the gap. -/
theorem fulfils_iff (hz : 0 < sizeofMemoryHeader)
    (hr : Reachable (Transition.ofFun (next sizeofMemoryHeader)) init h) {e : HeapEvent}
    (he : h.Enabled sizeofMemoryHeader e) :
    Contract sizeofMemoryHeader h ∧ (Fulfils sizeofMemoryHeader h e ↔ Served sizeofMemoryHeader e) := by
  have hs : Sound sizeofMemoryHeader h := sound_reachable hz hr
  refine ⟨hs.contract, ?_, ?_⟩
  · intro hfulfils
    by_contra hserved
    obtain ⟨h', hexec, -⟩ := hfulfils
    rw [exec_unserved hs he hserved] at hexec
    cases hexec
  · intro hserved
    exact (exec_spec hz hs he hserved).1

/-- A block that has been used once and is about to be used again. -/
theorem fulfils_iff_reuse : ∃ h : Heap, Reachable (Transition.ofFun (next 32)) init h ∧
    h.memory.freeList 4 = [7] ∧ h.Enabled 32 (.allocate 120 8) ∧ Contract 32 h ∧
    (Fulfils 32 h (.allocate 120 8) ↔ Served 32 (.allocate 120 8)) := by
  have hrun : ([HeapEvent.allocate 100 7, .release 7].foldlM (next 32) init).map
      (fun h => (h.memory.freeList 4, h.memory.system 8)) = some ([7], none) := by decide +kernel
  obtain ⟨h, hrun, hview⟩ := Option.map_eq_some_iff.mp hrun
  obtain ⟨hfree, hfresh⟩ := Prod.mk.inj hview
  have hr : Reachable (Transition.ofFun (next 32)) init h := Reachable.of_run hrun Reachable.refl
  have he : h.Enabled 32 (.allocate 120 8) := ⟨by decide, by decide, hfresh⟩
  exact ⟨h, hr, hfree, he, fulfils_iff (by decide) hr he⟩

/-- A caller that asks for 3841 bytes gets what an entry says in which nothing was stored. -/
theorem not_fulfils : ¬ ∀ h, Reachable (Transition.ofFun (next 32)) init h → ∀ e, h.Enabled 32 e →
    Fulfils 32 h e := by
  intro hall
  have he : init.Enabled 32 (.allocate 3841 0) := ⟨by decide, by decide, rfl⟩
  obtain ⟨h', hexec, -⟩ := hall init Reachable.refl _ he
  rw [exec_unserved sound_init he (by decide)] at hexec
  cases hexec

end Heap

end StarCraftIocp
