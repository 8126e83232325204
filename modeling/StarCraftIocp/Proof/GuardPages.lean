import Mathlib.Algebra.Order.Ring.Int
import Mathlib.Data.List.Pairwise
import StarCraftIocp.Lib.Outcome
import StarCraftIocp.ServerCore.StompAllocator

/-!
# Blocks that end where their pages end

The allocator keeps no table of base addresses. What it returns is counted from the
end of the pages, and the base address is found again by rounding the address of the
header down, which is right because the header begins in the first page.
-/

namespace StarCraftIocp

open CInt Outcome

namespace StompAllocator

/-! ## Pages -/

theorem pageCount_eq {size : Int} (h : 1 ≤ size) : pageCount size = (size + 4095) / 4096 := by
  unfold pageCount pageSize
  rw [Int.tdiv_eq_ediv_of_nonneg (by omega)]
  congr 1
  omega

/-- Less than a page is left over, and it is left over at the beginning. -/
theorem dataOffset_range {size : Int} (h : 1 ≤ size) : 0 ≤ dataOffset size ∧ dataOffset size < 4096 := by
  unfold dataOffset
  rw [pageCount_eq h]
  unfold pageSize
  omega

theorem alloc_add_size (size : Int) (base : Int) : alloc size base + size = base + reservation size := by
  unfold alloc dataOffset reservation
  omega

/-- An address in the first page is rounded down to the base address. -/
theorem baseAddress_eq {base off : Int} (hpage : pageSize ∣ base) (hbase : 0 ≤ base)
    (hoff : 0 ≤ off ∧ off < 4096)
    (hupper : base + off < 9223372036854775808) : baseAddress (base + off) = base := by
  have haddress : int64 (base + off) = base + off := int64_of_range (by omega) hupper
  have hrem : (base + off).tmod pageSize = off := by
    unfold pageSize at hpage ⊢
    rw [Int.tmod_eq_emod_of_nonneg (by omega)]
    omega
  unfold baseAddress
  dsimp only
  rw [haddress, hrem, uint64_of_range (by omega) (by omega)]
  omega

theorem baseAddress_alloc {size base : Int} (hsize : 1 ≤ size) (h : UserPages base (reservation size)) :
    baseAddress (alloc size base) = base := by
  have hoff := dataOffset_range hsize
  have hend := alloc_add_size size base
  have hupper := h.upper
  refine baseAddress_eq h.page h.lower hoff ?_
  unfold alloc at hend
  omega

/-- What divides the page and the size divides every address that is that much before the end of a page. -/
theorem dvd_end {k : Int} {size total base : Int} (hk : k ∣ pageSize) (hsize : k ∣ size)
    (hpage : pageSize ∣ base) :
    k ∣ base + reservation total - size := by
  have hreservation : k ∣ reservation total := hk.mul_left _
  exact Int.dvd_sub (Int.dvd_add (Int.dvd_trans hk hpage) hreservation) hsize

theorem two_pow_dvd_pageSize {k : Nat} (h : k ≤ 12) : (2 : Int) ^ k ∣ pageSize := by
  have hpage : pageSize = (2 : Int) ^ 12 := rfl
  rw [hpage]
  exact pow_dvd_pow 2 h

end StompAllocator

open StompAllocator

namespace StompMemory

variable {sizeofMemoryHeader : Nat} {m : StompMemory} {size base : Int}

/-! ## Allocate and Release -/

/-- Where the user's block begins. -/
def userPtr (sizeofMemoryHeader : Nat) (size base : Int) : Int :=
  base + reservation (size + sizeofMemoryHeader) - size

/-- What a call of `Allocate` does. -/
theorem allocate_eq (hsize : 1 ≤ size) (hmax : size + sizeofMemoryHeader + 4095 < 2147483648) :
    m.allocate sizeofMemoryHeader size base = (userPtr sizeofMemoryHeader size base,
      { reserved := Function.update m.reserved base (some (reservation (size + sizeofMemoryHeader)))
        allocSize := Function.update m.allocSize (userPtr sizeofMemoryHeader size base - sizeofMemoryHeader)
          (size + sizeofMemoryHeader) }) := by
  have hint : int32 (sizeT (sizeT size + sizeofMemoryHeader)) = size + sizeofMemoryHeader :=
    int32_sizeT_add (by omega) (by omega)
  have hend := alloc_add_size (size + sizeofMemoryHeader) base
  have hptr : alloc (size + sizeofMemoryHeader) base + sizeofMemoryHeader = userPtr sizeofMemoryHeader size base := by
    unfold userPtr
    omega
  have hheader :
      alloc (size + sizeofMemoryHeader) base = userPtr sizeofMemoryHeader size base - sizeofMemoryHeader := by
    omega
  unfold allocate attachHeader virtualAlloc
  dsimp only
  rw [hint, hptr, ← hheader]

/-- The header begins where the pages begin, or less than a page behind. -/
theorem header_range (hsize : 1 ≤ size) : base ≤ userPtr sizeofMemoryHeader size base - sizeofMemoryHeader ∧
    userPtr sizeofMemoryHeader size base - sizeofMemoryHeader < base + 4096 := by
  have hoff := dataOffset_range (show 1 ≤ size + sizeofMemoryHeader by omega)
  have hend := alloc_add_size (size + sizeofMemoryHeader) base
  unfold alloc at hend
  unfold userPtr
  omega

/-- `Release` reads `allocSize` and gives back the pages that the block was allocated in. -/
theorem release_userPtr (hsize : 1 ≤ size) (hpages : UserPages base (reservation (size + sizeofMemoryHeader)))
    (hheader : m.allocSize (userPtr sizeofMemoryHeader size base - sizeofMemoryHeader) = size + sizeofMemoryHeader) :
    m.release sizeofMemoryHeader (userPtr sizeofMemoryHeader size base) = .ok (m.virtualFree base) := by
  have hend := alloc_add_size (size + sizeofMemoryHeader) base
  have hdetach : detachHeader sizeofMemoryHeader (userPtr sizeofMemoryHeader size base)
      = alloc (size + sizeofMemoryHeader) base := by
    unfold detachHeader userPtr
    omega
  unfold detachHeader at hdetach
  unfold release detachHeader
  dsimp only
  rw [if_pos (by rw [hheader]; omega), hdetach, baseAddress_alloc (by omega) hpages]

end StompMemory

namespace StompHeap

variable {sizeofMemoryHeader : Nat} {h h' : StompHeap}

/-! ## A block in use -/

/-- Header and block lie in the pages reserved at `base`, the block at their end, and `Release` gives them back. -/
structure Guarded (sizeofMemoryHeader : Nat) (m : StompMemory) (loan : StompLoan) : Prop where
  header : loan.base ≤ loan.ptr - sizeofMemoryHeader
  reserved : ∃ bytes, m.reserved loan.base = some bytes ∧ loan.ptr + loan.size = loan.base + bytes
  aligned : ∀ k ≤ 12, (2 : Int) ^ k ∣ loan.size → (2 : Int) ^ k ∣ loan.ptr
  /-- As long as nobody stores into the header. -/
  back : ∀ later : StompMemory,
    later.allocSize (loan.ptr - sizeofMemoryHeader) = m.allocSize (loan.ptr - sizeofMemoryHeader) →
    later.release sizeofMemoryHeader loan.ptr = .ok (later.virtualFree loan.base)

/-- The pages of a block in use. -/
def span (sizeofMemoryHeader : Nat) (loan : StompLoan) : Int := reservation (loan.size + sizeofMemoryHeader)

/-- The block stands where `Allocate` has put it, and its header says so. -/
structure LoanSound (sizeofMemoryHeader : Nat) (m : StompMemory) (loan : StompLoan) : Prop where
  size : 1 ≤ loan.size
  ptr : loan.ptr = StompMemory.userPtr sizeofMemoryHeader loan.size loan.base
  pages : UserPages loan.base (span sizeofMemoryHeader loan)
  reserved : m.reserved loan.base = some (span sizeofMemoryHeader loan)
  header : m.allocSize (loan.ptr - sizeofMemoryHeader) = loan.size + sizeofMemoryHeader

/-- Header and block lie inside the pages, and the block ends where they end. -/
theorem LoanSound.range {m : StompMemory} {loan : StompLoan} (h : LoanSound sizeofMemoryHeader m loan) :
    loan.base ≤ loan.ptr - sizeofMemoryHeader ∧
      loan.ptr + loan.size = loan.base + span sizeofMemoryHeader loan := by
  rw [h.ptr]
  refine ⟨(StompMemory.header_range h.size).1, ?_⟩
  unfold StompMemory.userPtr span
  omega

theorem LoanSound.of_eq {m m' : StompMemory} {loan : StompLoan} (h : LoanSound sizeofMemoryHeader m loan)
    (hreserved : m'.reserved loan.base = m.reserved loan.base)
    (hheader : m'.allocSize (loan.ptr - sizeofMemoryHeader) = m.allocSize (loan.ptr - sizeofMemoryHeader)) :
    LoanSound sizeofMemoryHeader m' loan :=
  ⟨h.size, h.ptr, h.pages, hreserved.trans h.reserved, hheader.trans h.header⟩

/-- `Release` looks at the header only, and gives back the pages of the block. -/
theorem LoanSound.release {m later : StompMemory} {loan : StompLoan} (h : LoanSound sizeofMemoryHeader m loan)
    (hlater : later.allocSize (loan.ptr - sizeofMemoryHeader) = m.allocSize (loan.ptr - sizeofMemoryHeader)) :
    later.release sizeofMemoryHeader loan.ptr = .ok (later.virtualFree loan.base) := by
  have hheader := hlater.trans h.header
  rw [h.ptr] at hheader ⊢
  exact StompMemory.release_userPtr h.size h.pages hheader

theorem LoanSound.guarded {m : StompMemory} {loan : StompLoan} (h : LoanSound sizeofMemoryHeader m loan) :
    Guarded sizeofMemoryHeader m loan where
  header := h.range.1
  reserved := ⟨_, h.reserved, h.range.2⟩
  aligned := by
    intro k hk hdvd
    rw [h.ptr]
    exact dvd_end (two_pow_dvd_pageSize hk) hdvd h.pages.page
  back _ hlater := h.release hlater

/-- The block that a call of `Allocate` puts into use. -/
def loanOf (sizeofMemoryHeader : Nat) (m : StompMemory) (size base : Int) : StompLoan :=
  ⟨(m.allocate sizeofMemoryHeader size base).1, size, base⟩

theorem loanSound_allocate (m : StompMemory) {size base : Int} (hsize : 1 ≤ size)
    (hmax : size + sizeofMemoryHeader + 4095 < 2147483648)
    (hpages : UserPages base (reservation (size + sizeofMemoryHeader))) :
    LoanSound sizeofMemoryHeader (m.allocate sizeofMemoryHeader size base).2
      (loanOf sizeofMemoryHeader m size base) := by
  unfold loanOf
  rw [StompMemory.allocate_eq hsize hmax]
  exact ⟨hsize, rfl, hpages, Function.update_self _ _ m.reserved, Function.update_self _ _ m.allocSize⟩

/-- A block ends where its pages end, and is given back with them. -/
theorem guarded_allocate (m : StompMemory) {size base : Int} (hsize : 1 ≤ size)
    (hmax : size + sizeofMemoryHeader + 4095 < 2147483648)
    (hpages : UserPages base (reservation (size + sizeofMemoryHeader))) :
    Guarded sizeofMemoryHeader (m.allocate sizeofMemoryHeader size base).2
      ⟨(m.allocate sizeofMemoryHeader size base).1, size, base⟩ :=
  (loanSound_allocate m hsize hmax hpages).guarded

theorem guarded_allocate_page :
    (1 : Int) ≤ 4064 ∧ (4064 : Int) + (32 : Nat) + 4095 < 2147483648 ∧
      UserPages 65536 (reservation (4064 + (32 : Nat))) ∧
      Guarded 32 (init.memory.allocate 32 4064 65536).2 ⟨(init.memory.allocate 32 4064 65536).1, 4064, 65536⟩ := by
  have hsize : (1 : Int) ≤ 4064 := by decide
  have hmax : (4064 : Int) + (32 : Nat) + 4095 < 2147483648 := by decide
  have hpages : UserPages 65536 (reservation (4064 + (32 : Nat))) := ⟨by decide, by decide, by decide⟩
  exact ⟨hsize, hmax, hpages, guarded_allocate _ hsize hmax hpages⟩

/-! ## Any number of blocks -/

/-- No page belongs to two blocks. -/
def Apart (sizeofMemoryHeader : Nat) (l l' : StompLoan) : Prop :=
  l.base + span sizeofMemoryHeader l ≤ l'.base ∨ l'.base + span sizeofMemoryHeader l' ≤ l.base

instance : Std.Symm (Apart sizeofMemoryHeader) := ⟨fun _ _ hapart => hapart.symm⟩

structure Sound (sizeofMemoryHeader : Nat) (h : StompHeap) : Prop where
  loan : ∀ loan ∈ h.loans, LoanSound sizeofMemoryHeader h.memory loan
  apart : h.loans.Pairwise (Apart sizeofMemoryHeader)

theorem sound_init : Sound sizeofMemoryHeader init where
  loan _ hmem := absurd hmem List.not_mem_nil
  apart := List.Pairwise.nil

/-- Blocks whose pages are apart have different base addresses, and their headers stand apart from the other's block. -/
theorem LoanSound.apart {m m' : StompMemory} {l l' : StompLoan} (hl : LoanSound sizeofMemoryHeader m l)
    (hl' : LoanSound sizeofMemoryHeader m' l') (h : Apart sizeofMemoryHeader l l') :
    l'.base ≠ l.base ∧ l'.ptr - sizeofMemoryHeader ≠ l.ptr - sizeofMemoryHeader ∧
      (l'.ptr ≤ l.ptr ∨ l.ptr + l.size ≤ l'.ptr - sizeofMemoryHeader) := by
  have hrange := hl.range
  have hrange' := hl'.range
  have hsize := hl.size
  have hsize' := hl'.size
  rcases h with hle | hle
  · refine ⟨by omega, by omega, Or.inr (by omega)⟩
  · refine ⟨by omega, by omega, Or.inl (by omega)⟩

theorem sound_allocate (hs : Sound sizeofMemoryHeader h) {size base : Int} (hsize : 1 ≤ size)
    (hmax : size + sizeofMemoryHeader + 4095 < 2147483648)
    (hpages : UserPages base (reservation (size + sizeofMemoryHeader)))
    (hfree : ∀ base' size', h.memory.reserved base' = some size' →
      base + reservation (size + sizeofMemoryHeader) ≤ base' ∨ base' + size' ≤ base) :
    Sound sizeofMemoryHeader { memory := (h.memory.allocate sizeofMemoryHeader size base).2
                               loans := loanOf sizeofMemoryHeader h.memory size base :: h.loans } := by
  have hnew := loanSound_allocate h.memory hsize hmax hpages
  -- the pages of every other block are apart from the new ones
  have hapart : ∀ loan ∈ h.loans, Apart sizeofMemoryHeader
    (loanOf sizeofMemoryHeader h.memory size base) loan :=
    fun loan hmem => hfree _ _ (hs.loan loan hmem).reserved
  refine ⟨?_, List.pairwise_cons.mpr ⟨hapart, hs.apart⟩⟩
  intro loan hmem
  rcases List.mem_cons.mp hmem with rfl | hmem
  · exact hnew
  · have hloan := hs.loan loan hmem
    obtain ⟨hbase, hheader, -⟩ := hnew.apart hloan (hapart loan hmem)
    unfold loanOf at hbase hheader
    dsimp only
    rw [StompMemory.allocate_eq hsize hmax] at hheader ⊢
    exact hloan.of_eq (Function.update_of_ne hbase _ _) (Function.update_of_ne hheader _ _)

/-- What is stored inside a block reaches no header. -/
theorem sound_write (hs : Sound sizeofMemoryHeader h) {loan : StompLoan} (hmem : loan ∈ h.loans)
    {allocSize : Int → Int}
    (hframe : ∀ a, a + sizeofMemoryHeader ≤ loan.ptr ∨ loan.ptr + loan.size ≤ a →
      allocSize a = h.memory.allocSize a) :
    Sound sizeofMemoryHeader { h with memory := { h.memory with allocSize := allocSize } } where
  loan := by
    intro other hother
    have hsound := hs.loan other hother
    refine hsound.of_eq rfl (hframe _ ?_)
    rcases eq_or_ne loan other with rfl | hne
    · exact Or.inl (by omega)
    · have hapart : Apart sizeofMemoryHeader loan other := hs.apart.forall hmem hother hne
      rcases ((hs.loan loan hmem).apart hsound hapart).2.2 with hle | hle
      · exact Or.inl (by omega)
      · exact Or.inr hle
  apart := hs.apart

theorem sound_release (hs : Sound sizeofMemoryHeader h) {loan : StompLoan} (hmem : loan ∈ h.loans) :
    Sound sizeofMemoryHeader { memory := h.memory.virtualFree loan.base
                               loans := h.loans.filter fun other => other.ptr ≠ loan.ptr } where
  loan := by
    intro other hother
    obtain ⟨hother, hptr⟩ := List.mem_filter.mp hother
    have hne : loan ≠ other := by
      intro heq
      subst heq
      simp at hptr
    have hapart : Apart sizeofMemoryHeader loan other := hs.apart.forall hmem hother hne
    obtain ⟨hbase, -, -⟩ := (hs.loan loan hmem).apart (hs.loan other hother) hapart
    exact (hs.loan other hother).of_eq (Function.update_of_ne hbase _ _) rfl
  apart := hs.apart.filter _

theorem sound_step {e : StompEvent} (hs : Sound sizeofMemoryHeader h)
    (hstep : Step sizeofMemoryHeader h e h') :
    Sound sizeofMemoryHeader h' := by
  cases hstep with
  | allocate hsize hmax hpages hfree => exact sound_allocate hs hsize hmax hpages hfree
  | write hmem hframe => exact sound_write hs hmem hframe
  | release hmem hrelease =>
      rw [(hs.loan _ hmem).release rfl] at hrelease
      obtain rfl := Except.ok.inj hrelease
      exact sound_release hs hmem

/-- In every run a block in use has pages of its own, and is given back with them. -/
theorem guarded_reachable (hr : Reachable (Step sizeofMemoryHeader) init h) {loan : StompLoan}
    (hmem : loan ∈ h.loans) :
    Guarded sizeofMemoryHeader h.memory loan := by
  have hs : Sound sizeofMemoryHeader h := Reachable.invariant sound_init (fun _ _ _ => sound_step) hr
  exact (hs.loan loan hmem).guarded

end StompHeap

end StarCraftIocp
