import StarCraftIocp.Lib.Tokens
import StarCraftIocp.Lib.Transition
import StarCraftIocp.ServerCore.Lock

/-!
# What the lock excludes

The flag is the id of the owner above the number of read holds. A thread that reads its
own id there is the owner, however old the load: nobody else can put it there or take
it away. All other ways into the lock go through an exchange that fails while there
is an owner.
-/

namespace StarCraftIocp

/-! ## The two halves of the flag -/

theorem toNat_lockThreadId (x : BitVec 32) : (lockThreadId x).toNat = x.toNat / 65536 := by
  have hmask : (0xFFFF0000 : Nat) >>> 16 = 2 ^ 16 - 1 := rfl
  have hlt := x.isLt
  unfold lockThreadId writeThreadMask
  rw [BitVec.toNat_ushiftRight, BitVec.toNat_and]
  show (x.toNat &&& 0xFFFF0000) >>> 16 = x.toNat / 65536
  rw [Nat.shiftRight_and_distrib, hmask, Nat.and_two_pow_sub_one_eq_mod, Nat.shiftRight_eq_div_pow]
  omega

theorem toNat_readCount (x : BitVec 32) : (x &&& readCountMask).toNat = x.toNat % 65536 := by
  unfold readCountMask
  rw [BitVec.toNat_and]
  exact Nat.and_two_pow_sub_one_eq_mod x.toNat 16

theorem toNat_desired {id : BitVec 32} (h : id.toNat < 65536) :
    ((id <<< 16) &&& writeThreadMask).toNat = id.toNat * 65536 := by
  have hmask : (0xFFFF0000 : Nat) = (2 ^ 16 - 1) <<< 16 := rfl
  unfold writeThreadMask
  rw [BitVec.toNat_and, BitVec.toNat_shiftLeft]
  show (id.toNat <<< 16 % 2 ^ 32) &&& 0xFFFF0000 = id.toNat * 65536
  rw [Nat.mod_eq_of_lt (by rw [Nat.shiftLeft_eq]; omega), hmask, ← Nat.shiftLeft_and_distrib,
    Nat.and_two_pow_sub_one_eq_mod, Nat.mod_eq_of_lt h, Nat.shiftLeft_eq]

namespace LockState

variable {T : Type} [Fintype T] {threadId : T → BitVec 32} {s s' : LockState T} {o : Option T} {t : T}

/-- How many read holds there are. -/
def readHolds (s : LockState T) : Nat := ∑ t, s.reads t

/-- The upper half of the flag. -/
def ownerId (threadId : T → BitVec 32) : Option T → Nat
  | none => 0
  | some t => (threadId t).toNat

/-! ## What each thread relies on -/

/-- What a thread knows at its place in the code, `o` being the owner. -/
def Knows (s : LockState T) (o : Option T) (t : T) : Prop :=
  match s.pc t with
  | .idle | .writeLock | .writeExchange | .readLock | .readExpect => o = some t →
    s.writeCount.toNat = s.writes t
  | .readExchange expected => expected.toNat < 65536 ∧ (o = some t → s.writeCount.toNat = s.writes t)
  | .readUnlock => 0 < s.reads t ∧ (o = some t → s.writeCount.toNat = s.writes t)
  | .writeAgain | .readAgain | .writeUnlock => o = some t ∧ s.writeCount.toNat = s.writes t
  | .writeFirst => o = some t ∧ s.writeCount.toNat = 0 ∧ s.writes t = 1
  | .writeDecrement => o = some t ∧ s.writeCount.toNat = s.writes t ∧ s.reads t = 0
  | .writeStore => o = some t ∧ s.writeCount.toNat = 0 ∧ s.writes t = 1 ∧ s.reads t = 0

omit [Fintype T] in
/-- What the other threads do is none of its concern. -/
theorem Knows.frame {o' : Option T} (h : s.Knows o t) (hpc : s'.pc t = s.pc t)
    (hwrites : s'.writes t = s.writes t) (hreads : s'.reads t = s.reads t) (howner : o' = some t ↔ o = some t)
    (hcount : o = some t → s'.writeCount = s.writeCount) : s'.Knows o' t := by
  unfold Knows at h ⊢
  rw [hpc, hwrites, hreads]
  by_cases ho : o = some t
  · rw [hcount ho, howner.mpr ho]
    rw [ho] at h
    exact h
  · have ho' : o' ≠ some t := fun heq => ho (howner.mp heq)
    split <;> simp_all

structure Sound (threadId : T → BitVec 32) (s : LockState T) (o : Option T) : Prop where
  flag : s.lockFlag.toNat = ownerId threadId o * 65536 + s.readHolds
  bound : s.readHolds < 65535
  owner : ∀ t, 0 < s.writes t ↔ o = some t
  nested : ∀ t, s.writes t < 65536
  alone : ∀ w, o = some w → ∀ t, t ≠ w → s.reads t = 0
  free : o = none → s.writeCount.toNat = 0
  knows : ∀ t, s.Knows o t

/-- Ids fit into the upper half of the flag, and none of them is that of an empty flag. -/
structure Ids (threadId : T → BitVec 32) : Prop where
  pos : ∀ t, 0 < (threadId t).toNat
  lt : ∀ t, (threadId t).toNat < 65536
  inj : Function.Injective threadId

omit [Fintype T] in
theorem ownerId_eq_zero (hid : Ids threadId) : ownerId threadId o = 0 ↔ o = none := by
  cases o with
  | none => exact ⟨fun _ => rfl, fun _ => rfl⟩
  | some w =>
      have hpos := hid.pos w
      refine ⟨fun h => ?_, nofun⟩
      simp only [ownerId] at h
      omega

/-- One more read hold. -/
theorem readHolds_addRead [DecidableEq T] (s : LockState T) (t : T) (lockFlag : BitVec 32) (pc : LockPc) :
    (({ s with lockFlag := lockFlag }.setReads t (s.reads t + 1)).goto t pc).readHolds = s.readHolds + 1 := by
  have hsum := sum_update_add s.reads t (s.reads t + 1)
  show ∑ u, Function.update s.reads t (s.reads t + 1) u = (∑ u, s.reads u) + 1
  omega

namespace Sound

theorem lower (h : s.Sound threadId o) : (s.lockFlag &&& readCountMask).toNat = s.readHolds := by
  have hflag := h.flag
  have hbound := h.bound
  rw [toNat_readCount]
  omega

theorem upper (h : s.Sound threadId o) : (lockThreadId s.lockFlag).toNat = ownerId threadId o := by
  have hflag := h.flag
  have hbound := h.bound
  rw [toNat_lockThreadId]
  omega

/-- A thread reads its own id in the flag if and only if it is the owner. -/
theorem eq_lockThreadId (hid : Ids threadId) (h : s.Sound threadId o) :
    threadId t = lockThreadId s.lockFlag ↔ o = some t := by
  have hupper := h.upper
  constructor
  · intro heq
    rw [← heq] at hupper
    cases o with
    | none =>
        have hpos := hid.pos t
        simp only [ownerId] at hupper
        omega
    | some w =>
        have hsame : threadId t = threadId w := BitVec.eq_of_toNat_eq hupper
        rw [hid.inj hsame]
  · intro howner
    subst howner
    exact BitVec.eq_of_toNat_eq hupper.symm

/-- A flag that fits into the lower half has no owner. -/
theorem owner_none (hid : Ids threadId) (h : s.Sound threadId o) (hflag : s.lockFlag.toNat < 65536) :
    o = none := by
  have hupper := h.flag
  have hzero : ownerId threadId o = 0 := by omega
  exact (ownerId_eq_zero hid).mp hzero

theorem reads_le (s : LockState T) (t : T) : s.reads t ≤ s.readHolds :=
  Finset.single_le_sum_of_canonicallyOrdered (Finset.mem_univ t)

/-- What has to be checked after a step of `t`. -/
theorem of_step {o' : Option T} (h : s.Sound threadId o) (hpc : ∀ u, u ≠ t → s'.pc u = s.pc u)
    (hwrites : ∀ u, u ≠ t → s'.writes u = s.writes u) (hreads : ∀ u, u ≠ t → s'.reads u = s.reads u)
    (howner : ∀ u, u ≠ t → (o' = some u ↔ o = some u))
    (hcount : ∀ u, u ≠ t → o = some u → s'.writeCount = s.writeCount)
    (hflag : s'.lockFlag.toNat = ownerId threadId o' * 65536 + s'.readHolds)
    (hbound : s'.readHolds < 65535) (hnested : s'.writes t < 65536) (hown : 0 < s'.writes t ↔ o' = some t)
    (halone : ∀ w, o' = some w → ∀ u, u ≠ w → s'.reads u = 0) (hfree : o' = none → s'.writeCount.toNat = 0)
    (hknows : s'.Knows o' t) : s'.Sound threadId o' := by
  refine ⟨hflag, hbound, ?_, ?_, halone, hfree, ?_⟩
  · intro u
    by_cases hu : u = t
    · subst hu
      exact hown
    · rw [hwrites u hu, howner u hu]
      exact h.owner u
  · intro u
    by_cases hu : u = t
    · subst hu
      exact hnested
    · rw [hwrites u hu]
      exact h.nested u
  · intro u
    by_cases hu : u = t
    · subst hu
      exact hknows
    · exact (h.knows u).frame (hpc u hu) (hwrites u hu) (hreads u hu) (howner u hu) (hcount u hu)

/-- A step of the owner that leaves the flag alone, after which it is still the owner. -/
theorem of_owner_step (h : s.Sound threadId (some t)) (hpc : ∀ u, u ≠ t → s'.pc u = s.pc u)
    (hwrites : ∀ u, u ≠ t → s'.writes u = s.writes u) (hreads : s'.reads = s.reads)
    (hflag : s'.lockFlag = s.lockFlag) (hpos : 0 < s'.writes t) (hnested : s'.writes t < 65536)
    (hknows : s'.Knows (some t) t) : s'.Sound threadId (some t) := by
  have hholds : s'.readHolds = s.readHolds := by
    unfold readHolds
    rw [hreads]
  refine of_step h hpc hwrites (fun u _ => congrFun hreads u)
    (fun _ _ => Iff.rfl) ?_ ?_ ?_ hnested ?_ ?_ nofun hknows
  · intro u hu heq
    exact absurd (Option.some.inj heq).symm hu
  · rw [hflag, hholds]
    exact h.flag
  · rw [hholds]
    exact h.bound
  · exact ⟨fun _ => rfl, fun _ => hpos⟩
  · rw [hreads]
    exact h.alone

variable [DecidableEq T]

/-- A thread goes on, and changes nothing else. -/
theorem goto (h : s.Sound threadId o) {pc : LockPc} (hknows : (s.goto t pc).Knows o t) :
    (s.goto t pc).Sound threadId o := by
  refine of_step h ?_ (fun _ _ => rfl) (fun _ _ => rfl) (fun _ _ => Iff.rfl) (fun _ _ _ => rfl) h.flag h.bound
    (h.nested t) (h.owner t) h.alone h.free hknows
  intro u hu
  exact Function.update_of_ne hu _ _

/-! ## The steps of a writer -/

theorem writeAgain (h : s.Sound threadId o) (hpc : s.pc t = .writeAgain) (hnested : s.writes t + 1 < 65536) :
    (({ s with writeCount := s.writeCount + 1 }.setWrites t (s.writes t + 1)).goto t .idle).Sound threadId o := by
  have hknows := h.knows t
  unfold Knows at hknows
  rw [hpc] at hknows
  obtain ⟨rfl, hcount⟩ := hknows
  refine of_owner_step h (fun u hu => Function.update_of_ne hu _ _) (fun u hu => Function.update_of_ne hu _ _)
    rfl rfl ?_ ?_ ?_
  · simp only [LockState.goto, setWrites, Function.update_self, Nat.succ_pos]
  · simpa only [LockState.goto, setWrites, Function.update_self] using hnested
  · simp only [Knows, LockState.goto, setWrites, Function.update_self, BitVec.toNat_add]
    intro _
    have hone : (1 : BitVec 16).toNat = 1 := rfl
    rw [hone, hcount]
    omega

/-- The exchange that takes the lock. -/
theorem writeExchange (hid : Ids threadId) (h : s.Sound threadId o) (hempty : s.lockFlag = emptyFlag) :
    (({ s with lockFlag := (threadId t <<< 16) &&& writeThreadMask }.setWrites t (s.writes t + 1)).goto t
      .writeFirst).Sound threadId (some t) := by
  have hzero : s.lockFlag.toNat = 0 := by rw [hempty]; rfl
  obtain rfl : o = none := owner_none hid h (by omega)
  have hholds : s.readHolds = 0 := by
    have hflag := h.flag
    omega
  have hwrites : s.writes t = 0 := by
    have := h.owner t
    simp only [reduceCtorEq, iff_false] at this
    omega
  refine of_step h (fun u hu => Function.update_of_ne hu _ _) (fun u hu => Function.update_of_ne hu _ _)
    (fun _ _ => rfl) ?_ nofun ?_ h.bound ?_ ?_ ?_ nofun ?_
  · intro u hu
    simp only [Option.some.injEq, reduceCtorEq, iff_false]
    exact fun heq => hu heq.symm
  · refine (toNat_desired (hid.lt t)).trans ?_
    show _ = (threadId t).toNat * 65536 + s.readHolds
    rw [hholds, Nat.add_zero]
  · simp only [LockState.goto, setWrites, Function.update_self, hwrites]
    omega
  · simp only [LockState.goto, setWrites, Function.update_self, Nat.succ_pos]
  · intro w _ u _
    have hle := reads_le s u
    show s.reads u = 0
    omega
  · simp only [Knows, LockState.goto, setWrites, Function.update_self, hwrites]
    exact ⟨trivial, h.free rfl, trivial⟩

theorem writeFirst (h : s.Sound threadId o) (hpc : s.pc t = .writeFirst) :
    ({ s with writeCount := s.writeCount + 1 }.goto t .idle).Sound threadId o := by
  have hknows := h.knows t
  unfold Knows at hknows
  rw [hpc] at hknows
  obtain ⟨rfl, hcount, hwrites⟩ := hknows
  refine of_owner_step h (fun u hu => Function.update_of_ne hu _ _) (fun _ _ => rfl) rfl rfl
    ((h.owner t).mpr rfl)
    (h.nested t) ?_
  simp only [Knows, LockState.goto, Function.update_self, BitVec.toNat_add, hcount, hwrites]
  exact fun _ => rfl

theorem writeDecrement (h : s.Sound threadId o) (hpc : s.pc t = .writeDecrement)
    (hlast : s.writeCount - 1 ≠ 0) :
    (({ s with writeCount := s.writeCount - 1 }.setWrites t (s.writes t - 1)).goto t .idle).Sound threadId o := by
  have hknows := h.knows t
  unfold Knows at hknows
  rw [hpc] at hknows
  obtain ⟨rfl, hcount, hreads⟩ := hknows
  have hpos : 0 < s.writes t := (h.owner t).mpr rfl
  have hnested := h.nested t
  have hminus : (s.writeCount - 1).toNat = s.writes t - 1 := by bv_omega
  have htwo : s.writes t - 1 ≠ 0 := by
    intro hone
    exact hlast (BitVec.eq_of_toNat_eq (hminus.trans hone))
  refine of_owner_step h (fun u hu => Function.update_of_ne hu _ _) (fun u hu => Function.update_of_ne hu _ _)
    rfl rfl ?_ ?_ ?_
  · simp only [LockState.goto, setWrites, Function.update_self]
    omega
  · simp only [LockState.goto, setWrites, Function.update_self]
    omega
  · simp only [Knows, LockState.goto, setWrites, Function.update_self, hminus]
    exact fun _ => trivial

theorem writeLast (h : s.Sound threadId o) (hpc : s.pc t = .writeDecrement) (hlast : s.writeCount - 1 = 0) :
    ({ s with writeCount := s.writeCount - 1 }.goto t .writeStore).Sound threadId o := by
  have hknows := h.knows t
  unfold Knows at hknows
  rw [hpc] at hknows
  obtain ⟨rfl, hcount, hreads⟩ := hknows
  have hpos : 0 < s.writes t := (h.owner t).mpr rfl
  have hnested := h.nested t
  have hminus : (s.writeCount - 1).toNat = s.writes t - 1 := by bv_omega
  have hzero : (s.writeCount - 1).toNat = 0 := by rw [hlast]; rfl
  refine of_owner_step h (fun u hu => Function.update_of_ne hu _ _) (fun _ _ => rfl) rfl rfl hpos hnested ?_
  simp only [Knows, LockState.goto, Function.update_self]
  exact ⟨trivial, hzero, by omega, hreads⟩

theorem writeStore (h : s.Sound threadId o) (hpc : s.pc t = .writeStore) :
    (({ s with lockFlag := emptyFlag }.setWrites t (s.writes t - 1)).goto t .idle).Sound threadId none := by
  have hknows := h.knows t
  unfold Knows at hknows
  rw [hpc] at hknows
  obtain ⟨rfl, hcount, hwrites, hreads⟩ := hknows
  have hholds : s.readHolds = 0 := by
    refine Finset.sum_eq_zero ?_
    intro u _
    by_cases hu : u = t
    · rw [hu]
      exact hreads
    · exact h.alone t rfl u hu
  refine of_step h (fun u hu => Function.update_of_ne hu _ _) (fun u hu => Function.update_of_ne hu _ _)
    (fun _ _ => rfl) ?_ ?_ ?_ h.bound ?_ ?_ nofun (fun _ => hcount) ?_
  · intro u hu
    simp only [reduceCtorEq, Option.some.injEq, false_iff]
    exact fun heq => hu heq.symm
  · intro u hu heq
    exact absurd (Option.some.inj heq).symm hu
  · show 0 = 0 * 65536 + s.readHolds
    rw [hholds]
  · simp only [LockState.goto, setWrites, Function.update_self]
    omega
  · simp only [LockState.goto, setWrites, Function.update_self, hwrites]
    exact ⟨fun hlt => absurd hlt (by decide), nofun⟩
  · simp only [Knows, LockState.goto, Function.update_self]
    exact nofun

/-! ## The steps of a reader -/

/-- One more read hold, by the owner or while there is none. -/
theorem addRead (h : s.Sound threadId o) (hidle : o = some t → s.writeCount.toNat = s.writes t)
    (halone : ∀ w, o = some w → w = t) (hbound : s.readHolds + 1 < 65535) {lockFlag : BitVec 32}
    (hflag : lockFlag.toNat = s.lockFlag.toNat + 1) :
    (({ s with lockFlag := lockFlag }.setReads t (s.reads t + 1)).goto t .idle).Sound threadId o := by
  have hholds := readHolds_addRead s t lockFlag .idle
  refine of_step h (fun u hu => Function.update_of_ne hu _ _) (fun _ _ => rfl)
    (fun u hu => Function.update_of_ne hu _ _) (fun _ _ => Iff.rfl) (fun _ _ _ => rfl) ?_ ?_ (h.nested t)
    (h.owner t) ?_ h.free ?_
  · have := h.flag
    rw [hholds]
    show lockFlag.toNat = _
    omega
  · rw [hholds]
    exact hbound
  · intro w hw u hu
    have hut : u ≠ t := by
      rw [halone w hw] at hu
      exact hu
    exact (Function.update_of_ne hut _ _).trans (h.alone w hw u hu)
  · simp only [Knows, LockState.goto, Function.update_self]
    exact hidle

theorem readAgain (hid : Ids threadId) (h : s.Sound threadId o) (hpc : s.pc t = .readAgain)
    (hbound : s.readHolds + 1 < 65535) :
    (({ s with lockFlag := s.lockFlag + 1 }.setReads t (s.reads t + 1)).goto t .idle).Sound threadId o := by
  have hknows := h.knows t
  unfold Knows at hknows
  rw [hpc] at hknows
  obtain ⟨rfl, hcount⟩ := hknows
  refine addRead h (fun _ => hcount) ?_ hbound ?_
  · intro w hw
    exact (Option.some.inj hw).symm
  · have hflag := h.flag
    have hlt := hid.lt t
    simp only [ownerId] at hflag
    have hone : (1 : BitVec 32).toNat = 1 := rfl
    rw [BitVec.toNat_add, hone]
    omega

/-- The exchange that adds a reader. -/
theorem readExchange (hid : Ids threadId) (h : s.Sound threadId o) {expected : BitVec 32}
    (hpc : s.pc t = .readExchange expected) (hflag : s.lockFlag = expected)
    (hbound : s.readHolds + 1 < 65535) :
    (({ s with lockFlag := expected + 1 }.setReads t (s.reads t + 1)).goto t .idle).Sound threadId o := by
  have hknows := h.knows t
  unfold Knows at hknows
  rw [hpc] at hknows
  obtain ⟨hlow, hcount⟩ := hknows
  obtain rfl : o = none := owner_none hid h (by rw [hflag]; exact hlow)
  refine addRead h hcount nofun hbound ?_
  have hone : (1 : BitVec 32).toNat = 1 := rfl
  rw [hflag, BitVec.toNat_add, hone]
  omega

theorem readUnlock (h : s.Sound threadId o) (hpc : s.pc t = .readUnlock) :
    (({ s with lockFlag := s.lockFlag - 1 }.setReads t (s.reads t - 1)).goto t .idle).Sound threadId o ∧
      s.lockFlag &&& readCountMask ≠ 0 := by
  have hknows := h.knows t
  unfold Knows at hknows
  rw [hpc] at hknows
  obtain ⟨hpos, hcount⟩ := hknows
  have hle := reads_le s t
  have hflag := h.flag
  have hlt := h.bound
  constructor
  · have hholds : (({ s with lockFlag := s.lockFlag - 1 }.setReads t
      (s.reads t - 1)).goto t .idle).readHolds =
        s.readHolds - 1 := by
      have hsum := sum_update_add s.reads t (s.reads t - 1)
      show ∑ u, Function.update s.reads t (s.reads t - 1) u = (∑ u, s.reads u) - 1
      have hle' : s.reads t ≤ ∑ u, s.reads u := hle
      omega
    have hminus : (s.lockFlag - 1).toNat = s.lockFlag.toNat - 1 := by bv_omega
    refine of_step h (fun u hu => Function.update_of_ne hu _ _) (fun _ _ => rfl)
      (fun u hu => Function.update_of_ne hu _ _) (fun _ _ => Iff.rfl) (fun _ _ _ => rfl) ?_ ?_ (h.nested t)
      (h.owner t) ?_ h.free ?_
    · rw [hholds]
      show (s.lockFlag - 1).toNat = _
      omega
    · rw [hholds]
      omega
    · intro w hw u hu
      have hzero := h.alone w hw u hu
      by_cases hut : u = t
      · rw [hut] at hzero
        omega
      · exact (Function.update_of_ne hut _ _).trans hzero
    · simp only [Knows, LockState.goto, Function.update_self]
      exact hcount
  · intro hzero
    have hlower := h.lower
    rw [hzero] at hlower
    have : (0 : BitVec 32).toNat = 0 := rfl
    omega

omit [DecidableEq T] in
theorem crashed (h : s.Sound threadId o) (crash : Option LockCrash) :
    ({ s with crash := crash } : LockState T).Sound threadId o :=
  ⟨h.flag, h.bound, h.owner, h.nested, h.alone, h.free, h.knows⟩

end Sound

variable [DecidableEq T]

/-- The holds that the flag and the counter have room for. -/
def Bounded (s : LockState T) : Prop := s.readHolds < 65535 ∧ ∀ t, s.writes t < 65536

/-- A thread goes on from one place to the next. -/
theorem sound_advance (hid : Ids threadId) (h : s.Sound threadId o)
    (hstep : s.advance t (threadId t) (s.pc t) = some s') (hbound : s'.Bounded) :
    ∃ o', s'.Sound threadId o' := by
  have hknows := h.knows t
  unfold Knows at hknows
  cases hpc : s.pc t <;> rw [hpc] at hstep hknows <;> simp only [advance] at hstep
  case idle => cases hstep
  case writeLock =>
    obtain rfl := Option.some.inj hstep
    refine ⟨o, ?_⟩
    split
    · next heq =>
      -- the thread has found its own id
      refine h.goto ?_
      have howner := (h.eq_lockThreadId hid).mp heq
      simp only [Knows, goto, Function.update_self]
      exact ⟨howner, hknows howner⟩
    · refine h.goto ?_
      simp only [Knows, goto, Function.update_self]
      exact hknows
  case writeAgain =>
    obtain rfl := Option.some.inj hstep
    refine ⟨o, h.writeAgain hpc ?_⟩
    have hnested := hbound.2 t
    simpa only [goto, setWrites, Function.update_self] using hnested
  case writeExchange =>
    split at hstep
    · next hempty =>
      obtain rfl := Option.some.inj hstep
      exact ⟨some t, h.writeExchange hid hempty⟩
    · obtain rfl := Option.some.inj hstep
      exact ⟨o, h⟩
  case writeFirst =>
    obtain rfl := Option.some.inj hstep
    exact ⟨o, h.writeFirst hpc⟩
  case writeUnlock =>
    split at hstep
    · obtain rfl := Option.some.inj hstep
      exact ⟨o, h.crashed _⟩
    · next hread =>
      obtain rfl := Option.some.inj hstep
      refine ⟨o, h.goto ?_⟩
      have hlower := h.lower
      rw [not_not.mp hread] at hlower
      have hle := Sound.reads_le s t
      have hzero : (0 : BitVec 32).toNat = 0 := rfl
      simp only [Knows, goto, Function.update_self]
      exact ⟨hknows.1, hknows.2, by omega⟩
  case writeDecrement =>
    split at hstep
    · next hlast =>
      obtain rfl := Option.some.inj hstep
      exact ⟨o, h.writeLast hpc hlast⟩
    · next hlast =>
      obtain rfl := Option.some.inj hstep
      exact ⟨o, h.writeDecrement hpc hlast⟩
  case writeStore =>
    obtain rfl := Option.some.inj hstep
    exact ⟨none, h.writeStore hpc⟩
  case readLock =>
    obtain rfl := Option.some.inj hstep
    refine ⟨o, ?_⟩
    split
    · next heq =>
      -- the thread has found its own id
      refine h.goto ?_
      have howner := (h.eq_lockThreadId hid).mp heq
      simp only [Knows, goto, Function.update_self]
      exact ⟨howner, hknows howner⟩
    · refine h.goto ?_
      simp only [Knows, goto, Function.update_self]
      exact hknows
  case readAgain =>
    obtain rfl := Option.some.inj hstep
    refine ⟨o, h.readAgain hid hpc ?_⟩
    rw [← readHolds_addRead s t _ .idle]
    exact hbound.1
  case readExpect =>
    obtain rfl := Option.some.inj hstep
    refine ⟨o, h.goto ?_⟩
    have hlower := h.lower
    have hlt := h.bound
    simp only [Knows, goto, Function.update_self]
    exact ⟨by omega, hknows⟩
  case readExchange expected =>
    split at hstep
    · next hflag =>
      obtain rfl := Option.some.inj hstep
      refine ⟨o, h.readExchange hid hpc hflag ?_⟩
      rw [← readHolds_addRead s t _ .idle]
      exact hbound.1
    · -- the exchange has failed, and the loop begins again
      obtain rfl := Option.some.inj hstep
      refine ⟨o, h.goto ?_⟩
      simp only [Knows, goto, Function.update_self]
      exact hknows.2
  case readUnlock =>
    split at hstep
    · next hzero => exact absurd hzero (h.readUnlock hpc).2
    · obtain rfl := Option.some.inj hstep
      exact ⟨o, (h.readUnlock hpc).1⟩

/-! ## Runs -/

/-- A step within the bounds of the flag and of the counter. -/
def Within (threadId : T → BitVec 32) (s : LockState T) (a : T × LockAction) : Prop :=
  match s.next threadId a with
  | none => True
  | some s' => s'.Bounded

instance (threadId : T → BitVec 32) (s : LockState T) (a : T × LockAction) :
    Decidable (s.Within threadId a) :=
  match h : s.next threadId a with
  | none => isTrue (by simp [Within, h])
  | some s' => decidable_of_iff (s'.readHolds < 65535 ∧ ∀ t, s'.writes t < 65536)
    (by simp [Within, h, Bounded])

/-- No thread releases a write hold while it has a read hold. -/
def InOrder (s : LockState T) (a : T × LockAction) : Prop := a.2 = .writeUnlock → s.reads a.1 = 0

instance (s : LockState T) (a : T × LockAction) : Decidable (s.InOrder a) :=
  inferInstanceAs (Decidable (_ → _))

omit [DecidableEq T] in
theorem sound_init : (init : LockState T).Sound threadId none where
  flag := by
    show 0 = 0 * 65536 + ∑ _ : T, 0
    rw [Finset.sum_const_zero]
    rfl
  bound := by
    show ∑ _ : T, 0 < 65535
    rw [Finset.sum_const_zero]
    decide
  owner t := ⟨fun h => absurd h (Nat.lt_irrefl 0), nofun⟩
  nested _ := Nat.succ_pos _
  alone := nofun
  free _ := rfl
  knows _ := nofun

omit [Fintype T] in
/-- A call, or a step in one. -/
theorem next_cases {a : T × LockAction} (h : s.next threadId a = some s') :
    s.crash = none ∧
      ((a.2 = .next ∧ s.advance a.1 (threadId a.1) (s.pc a.1) = some s') ∨
        (s.pc a.1 = .idle ∧ (s' = s.goto a.1 .writeLock ∨ s' = s.goto a.1 .readLock ∨
          (a.2 = .writeUnlock ∧ 0 < s.writes a.1 ∧ s' = s.goto a.1 .writeUnlock) ∨
          (0 < s.reads a.1 ∧ s' = s.goto a.1 .readUnlock)))) := by
  unfold next at h
  split at h
  · cases h
  · next hcrash =>
    refine ⟨by simpa using hcrash, ?_⟩
    split at h
    · next haction hpc =>
      obtain rfl := Option.some.inj h
      exact Or.inr ⟨hpc, Or.inl rfl⟩
    · next haction hpc =>
      split at h
      · next hwrites =>
        obtain rfl := Option.some.inj h
        exact Or.inr ⟨hpc, Or.inr (Or.inr (Or.inl ⟨haction, hwrites, rfl⟩))⟩
      · cases h
    · next haction hpc =>
      obtain rfl := Option.some.inj h
      exact Or.inr ⟨hpc, Or.inr (Or.inl rfl)⟩
    · next haction hpc =>
      split at h
      · next hreads =>
        obtain rfl := Option.some.inj h
        exact Or.inr ⟨hpc, Or.inr (Or.inr (Or.inr ⟨hreads, rfl⟩))⟩
      · cases h
    · next haction => exact Or.inl ⟨haction, h⟩
    · cases h

theorem sound_next (hid : Ids threadId) (h : s.Sound threadId o) {a : T × LockAction}
    (hnext : s.next threadId a = some s') (hbound : s'.Bounded) : ∃ o', s'.Sound threadId o' := by
  obtain ⟨-, ⟨-, hstep⟩ | ⟨hpc, hcall⟩⟩ := next_cases hnext
  · exact sound_advance hid h hstep hbound
  · have hknows := h.knows a.1
    unfold Knows at hknows
    rw [hpc] at hknows
    refine ⟨o, ?_⟩
    rcases hcall with rfl | rfl | ⟨-, hwrites, rfl⟩ | ⟨hreads, rfl⟩
    · refine h.goto ?_
      simp only [Knows, goto, Function.update_self]
      exact hknows
    · refine h.goto ?_
      simp only [Knows, goto, Function.update_self]
      exact hknows
    · have howner := (h.owner a.1).mp hwrites
      refine h.goto ?_
      simp only [Knows, goto, Function.update_self]
      exact ⟨howner, hknows howner⟩
    · refine h.goto ?_
      simp only [Knows, goto, Function.update_self]
      exact ⟨hreads, hknows⟩

/-- What the lock promises. -/
structure Exclusive (threadId : T → BitVec 32) (s : LockState T) : Prop where
  alone : ∀ t, 0 < s.writes t → ∀ u, u ≠ t → s.writes u = 0 ∧ s.reads u = 0
  owner : ∀ t, 0 < s.writes t → lockThreadId s.lockFlag = threadId t
  empty : (∀ t, s.writes t = 0) → lockThreadId s.lockFlag = 0
  readers : (s.lockFlag &&& readCountMask).toNat = s.readHolds
  count : ∀ t, 0 < s.writes t → s.pc t = .idle → s.writeCount.toNat = s.writes t

omit [DecidableEq T] in
theorem Sound.exclusive (hid : Ids threadId) (h : s.Sound threadId o) : s.Exclusive threadId := by
  refine ⟨?_, ?_, ?_, h.lower, ?_⟩
  · intro t ht u hu
    have howner := (h.owner t).mp ht
    refine ⟨?_, h.alone t howner u hu⟩
    by_contra hpos
    have howner' := (h.owner u).mp (Nat.pos_of_ne_zero hpos)
    rw [howner] at howner'
    exact hu (Option.some.inj howner').symm
  · intro t ht
    exact ((h.eq_lockThreadId hid).mpr ((h.owner t).mp ht)).symm
  · intro hzero
    cases o with
    | none => exact BitVec.eq_of_toNat_eq h.upper
    | some w =>
        have hpos := (h.owner w).mpr rfl
        rw [hzero w] at hpos
        exact absurd hpos (Nat.lt_irrefl 0)
  · intro t ht hpc
    have hknows := h.knows t
    unfold Knows at hknows
    rw [hpc] at hknows
    exact hknows ((h.owner t).mp ht)

/-! ## The order of releases -/

omit [Fintype T] in
theorem advance_other {id : BitVec 32} {pc : LockPc} (h : s.advance t id pc = some s') {u : T} (hu : u ≠ t) :
    s'.pc u = s.pc u ∧ s'.reads u = s.reads u := by
  cases pc <;> simp only [advance] at h <;> repeat' split at h
  all_goals cases h
  all_goals simp only [goto, setWrites, setReads, Function.update_of_ne hu, and_self]

omit [Fintype T] in
/-- A crash comes from one of the two tests. -/
theorem advance_crash {id : BitVec 32} {pc : LockPc} (h : s.advance t id pc = some s')
    (hcrash : s.crash = none) :
    (s'.crash = none ∧ s'.pc t ≠ .writeUnlock ∨ s' = s ∧ pc = .writeExchange) ∨
      (pc = .writeUnlock ∧ s.lockFlag &&& readCountMask ≠ 0) ∨
      (pc = .readUnlock ∧ s.lockFlag &&& readCountMask = 0) := by
  cases pc <;> simp only [advance] at h <;> repeat' split at h
  all_goals cases h
  all_goals simp_all [goto, setWrites, setReads]

/-- While no thread breaks the order, there is no crash. -/
theorem order_next (h : s.Sound threadId o)
    (horder : ∀ t, s.pc t = .writeUnlock → s.reads t = 0) {a : T × LockAction}
    (hnext : s.next threadId a = some s') (ha : s.InOrder a) :
    s'.crash = none ∧ ∀ t, s'.pc t = .writeUnlock → s'.reads t = 0 := by
  obtain ⟨hcrash, ⟨-, hstep⟩ | ⟨hpc, hcall⟩⟩ := next_cases hnext
  · have hother := fun u hu => advance_other (u := u) hstep hu
    rcases advance_crash hstep hcrash with (⟨hcrash', hpc'⟩ | ⟨rfl, hpc'⟩) | ⟨hpc, hread⟩ | ⟨hpc, hread⟩
    · refine ⟨hcrash', ?_⟩
      intro u hu
      by_cases hut : u = a.1
      · rw [hut] at hu
        exact absurd hu hpc'
      · rw [(hother u hut).1] at hu
        rw [(hother u hut).2]
        exact horder u hu
    · exact ⟨hcrash, horder⟩
    · -- `WriteUnlock` found a reader, and the owner is the only one there could be
      have hknows := h.knows a.1
      unfold Knows at hknows
      rw [hpc] at hknows
      have hzero : s.readHolds = 0 := by
        refine Finset.sum_eq_zero ?_
        intro u _
        by_cases hut : u = a.1
        · rw [hut]
          exact horder a.1 hpc
        · exact h.alone a.1 hknows.1 u hut
      have hlower := h.lower
      rw [hzero] at hlower
      exact absurd (BitVec.eq_of_toNat_eq hlower) hread
    · -- `ReadUnlock` found none, but the thread has a read hold itself
      exact absurd hread (h.readUnlock hpc).2
  · rcases hcall with rfl | rfl | ⟨haction, -, rfl⟩ | ⟨-, rfl⟩
    all_goals
      refine ⟨hcrash, ?_⟩
      intro u hu
      by_cases hut : u = a.1
      · subst hut
        simp only [goto, Function.update_self, reduceCtorEq] at hu
        try exact ha haction
      · simp only [goto, Function.update_of_ne hut] at hu
        exact horder u hu

/-- Exclusion in every run, and no crash in those that keep the order. -/
theorem exclusive_reachable (hid : Ids threadId) :
    (∀ s, Reachable ((Transition.ofFun (next threadId)).guarded (Within threadId)) init s →
      s.Exclusive threadId) ∧
    ∀ s, Reachable ((Transition.ofFun (next threadId)).guarded fun s a => s.Within threadId a ∧
      s.InOrder a) init s →
      s.crash = none := by
  constructor
  · intro s hr
    have hsound : ∃ o, s.Sound threadId o := by
      refine hr.invariant (I := fun s => ∃ o, s.Sound threadId o) ⟨none, sound_init⟩ ?_
      intro s a s' hs hstep
      obtain ⟨o, hs⟩ := hs
      obtain ⟨hwithin, hstep⟩ := hstep
      unfold Within at hwithin
      rw [hstep] at hwithin
      exact sound_next hid hs hstep hwithin
    obtain ⟨o, hs⟩ := hsound
    exact hs.exclusive hid
  · intro s hr
    have hinv : (∃ o, s.Sound threadId o) ∧ s.crash = none ∧ ∀ t, s.pc t = .writeUnlock → s.reads t = 0 := by
      refine hr.invariant (I := fun s => (∃ o, s.Sound threadId o) ∧ s.crash = none ∧
        ∀ t, s.pc t = .writeUnlock → s.reads t = 0) ⟨⟨none, sound_init⟩, rfl, nofun⟩ ?_
      intro s a s' hinv hstep
      obtain ⟨⟨o, hs⟩, -, horder⟩ := hinv
      obtain ⟨⟨hwithin, hinorder⟩, hstep⟩ := hstep
      unfold Within at hwithin
      rw [hstep] at hwithin
      exact ⟨sound_next hid hs hstep hwithin, order_next hs horder hstep hinorder⟩
    exact hinv.2.1

/-- The owner reads and writes once more, while another thread tries to read. -/
theorem exclusive_reachable_nested : ∃ s : LockState (Fin 2),
    s.writes 0 = 2 ∧ s.pc 1 = .readExchange 1#32 ∧ s.Exclusive (fun t => BitVec.ofNat 32 (t.val + 1)) ∧
      s.crash = none := by
  have hid : Ids fun t : Fin 2 => BitVec.ofNat 32 (t.val + 1) := ⟨by decide, by decide, by decide⟩
  have hrun : ([(0, .writeLock), (0, .next), (0, .next), (0, .next), (1, .readLock), (1, .next),
    (0, .readLock),
      (0, .next), (0, .next), (1, .next), (0, .writeLock), (0, .next), (0, .next)].foldlM
      (guardedFun (next fun t : Fin 2 => BitVec.ofNat 32 (t.val + 1)) fun s a =>
        s.Within (fun t : Fin 2 => BitVec.ofNat 32 (t.val + 1)) a ∧ s.InOrder a) init).map
      (fun s => (s.writes 0, s.pc 1)) = some (2, .readExchange 1#32) := by decide +kernel
  obtain ⟨s, hrun, hview⟩ := Option.map_eq_some_iff.mp hrun
  obtain ⟨hwrites, hpc⟩ := Prod.mk.inj hview
  have hr := Reachable.of_run_guarded hrun Reachable.refl
  exact ⟨s, hwrites, hpc, (exclusive_reachable hid).1 s (hr.guarded_mono fun _ _ h => h.1),
    (exclusive_reachable hid).2 s hr⟩

end LockState

end StarCraftIocp
