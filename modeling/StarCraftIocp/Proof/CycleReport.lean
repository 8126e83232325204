import StarCraftIocp.Proof.DeadLock
import StarCraftIocp.ServerCore.CycleReport

/-!
# The cycle that the deadlock profiler prints

The locks whose search is under way are a path: each has been reached from its parent by
an edge. So when an edge leads back to one of them, the parents lead there from where
the edge begins, and the report that follows them comes back to where it began. The
search itself is that of `DeadLockProfiler`, whose marks do not depend on the parents.
-/

namespace StarCraftIocp.CycleReport

open DeadLockProfiler Outcome Relation

variable {E : Nat → List Nat} {lockCount : Nat} {s : Search} {here there : Nat} {path : List Nat}

/-! ## The report -/

/-- Line by line the report walks along edges, against their direction, from `now` to `stop`. -/
def WalksBack (E : Nat → List Nat) (stop : Nat) : Nat → List (Nat × Nat) → Prop
  | now, [] => now = stop
  | now, line :: lines => line.2 = now ∧ now ∈ E line.1 ∧ WalksBack E stop line.1 lines

/-- The printed lines are the edges of a cycle. -/
def IsCycle (E : Nat → List Nat) (printed : List (Nat × Nat)) : Prop :=
  printed ≠ [] ∧ ∃ there, WalksBack E there there printed

/-- A search that does not return runs out of fuel or prints a cycle. -/
def Reported (E : Nat → List Nat) (e : Stop) : Prop :=
  e = .outOfFuel ∨ ∃ printed, e = .deadlockDetected printed ∧ IsCycle E printed

theorem WalksBack.leads {stop now : Nat} {lines : List (Nat × Nat)} (h : WalksBack E stop now lines) :
    ReflTransGen (fun v w => w ∈ E v) stop now := by
  induction lines generalizing now with
  | nil =>
      obtain rfl : now = stop := h
      exact ReflTransGen.refl
  | cons line lines ih =>
      obtain ⟨-, hedge, hrest⟩ := h
      exact (ih hrest).tail hedge

theorem IsCycle.not_acyclic {printed : List (Nat × Nat)} (h : IsCycle E printed) :
    ¬ Acyclic fun v w => w ∈ E v := by
  obtain ⟨hne, there, hwalk⟩ := h
  intro hacyclic
  cases printed with
  | nil => exact hne rfl
  | cons line lines =>
      obtain ⟨-, hedge, hrest⟩ := hwalk
      exact hacyclic there (TransGen.tail' hrest.leads hedge)

/-- The parents lead down the path, so that the report comes to any lock on it. -/
theorem reportLoop_spec {parent : Nat → Int} {now fuel : Nat}
    (hchain : (now :: path).IsChain fun a b => parent a = b ∧ a ∈ E b) (hmem : there ∈ path)
    (hfuel : path.length ≤ fuel) :
    ∃ lines, reportLoop parent there fuel now = .ok lines ∧ WalksBack E there now lines := by
  induction path generalizing now fuel with
  | nil => cases hmem
  | cons next path ih =>
      obtain ⟨⟨hparent, hedge⟩, hrest⟩ := List.isChain_cons_cons.mp hchain
      cases fuel with
      | zero => simp at hfuel
      | succ fuel =>
          unfold reportLoop
          rw [hparent, if_neg (by omega)]
          dsimp only
          rw [Int.toNat_natCast]
          by_cases hstop : next = there
          · rw [if_pos hstop]
            exact ⟨_, rfl, rfl, hedge, hstop⟩
          · rw [if_neg hstop]
            have hin : there ∈ path := (List.mem_cons.mp hmem).resolve_left (Ne.symm hstop)
            obtain ⟨lines, hlines, hwalk⟩ := ih hrest hin (by simpa using hfuel)
            rw [hlines]
            exact ⟨_, rfl, rfl, hedge, hwalk⟩

theorem reportLoop_ne_outOfFuel (parent : Nat → Int) (there fuel now : Nat) :
    reportLoop parent there fuel now ≠ .error .outOfFuel := by
  induction fuel generalizing now with
  | zero => nofun
  | succ fuel ih =>
      unfold reportLoop
      split
      · nofun
      · dsimp only
        split
        · nofun
        · cases hrest : reportLoop parent there fuel (parent now).toNat with
          | error e =>
              rw [error_bind]
              intro heq
              exact ih _ (hrest.trans (congrArg Except.error (Except.error.inj heq)))
          | ok lines => nofun

theorem crash_report (lockCount : Nat) (s : Search) (here there : Nat) :
    (report lockCount s here there).crash = .deadlockDetected := by
  unfold report
  cases hloop : reportLoop s.parent there lockCount here with
  | ok lines => rfl
  | error e =>
      cases e with
      | outOfFuel => exact absurd hloop (reportLoop_ne_outOfFuel _ _ _ _)
      | deadlockDetected _ => rfl
      | parentOfRoot => rfl
      | endlessReport => rfl

/-! ## The search without the report -/

/-- The marks are those of the search that keeps no parents. -/
theorem seen_dfs (fuel : Nat) : ∀ (here : Nat) (s : Search),
    seen Stop.crash Search.toMarks (dfs E lockCount fuel here s) = DeadLockProfiler.dfs E fuel here s.toMarks := by
  induction fuel with
  | zero => exact fun _ _ => rfl
  | succ fuel ih =>
      intro here s
      unfold dfs DeadLockProfiler.dfs
      split
      · rfl
      · refine (seen_bind Search.toMarks (fun m => .ok (m.finish here)) fun s => rfl).trans
          (congrArg (fun x => x >>= fun m : Marks => Except.ok (m.finish here)) (seen_foldlM ?_))
        intro s there
        split
        · exact ih there (s.setParent there here)
        · split
          · rfl
          · split
            · exact congrArg Except.error (crash_report lockCount s here there)
            · rfl

theorem seen_checkCycle (E : Nat → List Nat) (lockCount : Nat) :
    seen Stop.crash id (checkCycle E lockCount) = DeadLockProfiler.checkCycle E lockCount := by
  unfold checkCycle DeadLockProfiler.checkCycle
  exact (seen_bind Search.toMarks (fun _ => .ok ()) fun s => rfl).trans
    (congrArg (fun x => x >>= fun _ : Marks => Except.ok ())
    (seen_foldlM fun s lockId => seen_dfs (lockCount + 1) lockId s))

/-! ## The path under way -/

/-- The locks whose search is under way, the last one first, each reached from the next. -/
structure Tracked (E : Nat → List Nat) (lockCount : Nat) (path : List Nat) (s : Search) : Prop where
  gray : ∀ v, v ∈ path ↔ s.discoveredOrder v ≠ -1 ∧ s.finished v = false
  found : ∀ v, s.finished v = true → s.discoveredOrder v ≠ -1
  nonneg : 0 ≤ s.discoveredCount
  chain : path.IsChain fun a b => s.parent a = b ∧ a ∈ E b
  nodup : path.Nodup
  known : ∀ v ∈ path, v < lockCount

namespace Tracked

theorem new : Tracked E lockCount [] Search.new :=
  ⟨fun _ => ⟨nofun, fun h => absurd rfl h.1⟩, nofun, le_refl 0, .nil, .nil, nofun⟩

/-- A lock that has not been found gets a parent. -/
theorem setParent (h : Tracked E lockCount path s) (hnew : s.discoveredOrder there = -1) :
    Tracked E lockCount path (s.setParent there here) := by
  refine ⟨h.gray, h.found, h.nonneg, ?_, h.nodup, h.known⟩
  refine h.chain.imp_of_mem_imp ?_
  intro a b ha _ hab
  -- the locks on the path have been found
  have hne : a ≠ there := by
    intro heq
    subst heq
    exact ((h.gray a).mp ha).1 hnew
  simp only [Search.setParent, Function.update_of_ne hne]
  exact hab

theorem discover (h : Tracked E lockCount path s) (hhere : here < lockCount)
    (hnew : s.discoveredOrder here = -1)
    (hparent : ∀ b ∈ path.head?, s.parent here = b ∧ here ∈ E b) :
    Tracked E lockCount (here :: path) (s.discover here) := by
  have hnonneg := h.nonneg
  have hunfinished : s.finished here = false := by
    by_contra hfin
    exact h.found here (by simpa using hfin) hnew
  refine ⟨?_, ?_, ?_, ?_, ?_, ?_⟩
  · intro v
    rw [List.mem_cons]
    by_cases hv : v = here
    · subst hv
      simp only [Search.discover, Marks.discover, Function.update_self, true_or, true_iff]
      exact ⟨by omega, hunfinished⟩
    · simp only [Search.discover, Marks.discover, Function.update_of_ne hv, hv, false_or]
      exact h.gray v
  · intro v hv
    by_cases hvh : v = here
    · subst hvh
      exact absurd hnew (h.found v hv)
    · simp only [Search.discover, Marks.discover, Function.update_of_ne hvh]
      exact h.found v hv
  · simp only [Search.discover, Marks.discover]
    omega
  · exact List.isChain_cons.mpr ⟨hparent, h.chain⟩
  · refine List.nodup_cons.mpr ⟨?_, h.nodup⟩
    intro hin
    exact ((h.gray here).mp hin).1 hnew
  · intro v hv
    rcases List.mem_cons.mp hv with rfl | hv
    · exact hhere
    · exact h.known v hv

theorem finish (h : Tracked E lockCount (here :: path) s) : Tracked E lockCount path (s.finish here) := by
  obtain ⟨hout, hnodup⟩ := List.nodup_cons.mp h.nodup
  refine ⟨?_, ?_, h.nonneg, h.chain.tail, hnodup, fun v hv => h.known v (List.mem_cons_of_mem here hv)⟩
  · intro v
    by_cases hv : v = here
    · subst hv
      simp only [Search.finish, Marks.finish, Function.update_self, reduceCtorEq, and_false, iff_false]
      exact hout
    · have hgray := h.gray v
      rw [List.mem_cons, or_iff_right hv] at hgray
      simp only [Search.finish, Marks.finish, Function.update_of_ne hv]
      exact hgray
  · intro v hv
    by_cases hvh : v = here
    · subst hvh
      exact ((h.gray v).mp List.mem_cons_self).1
    · simp only [Search.finish, Marks.finish, Function.update_of_ne hvh] at hv
      exact h.found v hv

/-- An edge to a lock that is under way: the report prints the path between the two. -/
theorem report_cycle (h : Tracked E lockCount (here :: path) s) (hedge : there ∈ E here) (hne : there ≠ here)
    (hfound : s.discoveredOrder there ≠ -1) (hunfinished : s.finished there = false) :
    Reported E (report lockCount s here there) := by
  have hin : there ∈ path :=
    (List.mem_cons.mp ((h.gray there).mpr ⟨hfound, hunfinished⟩)).resolve_left hne
  -- the locks on the path are different, so that there are no more than there are locks
  have hsub : (here :: path).length ≤ (List.range lockCount).length :=
    (h.nodup.subperm fun v hv => List.mem_range.mpr (h.known v hv)).length_le
  rw [List.length_range, List.length_cons] at hsub
  obtain ⟨lines, hlines, hwalk⟩ := reportLoop_spec h.chain hin (by omega : path.length ≤ lockCount)
  unfold report
  rw [hlines]
  exact .inr ⟨_, rfl, List.cons_ne_nil _ _, there, rfl, hedge, hwalk⟩

end Tracked

/-- The search keeps the path, and what it reports is a cycle. -/
theorem dfs_reports (hE : ∀ v, v < lockCount → ∀ w ∈ E v, w < lockCount) (hloop : ∀ v, v ∉ E v) (fuel : Nat) :
    ∀ (path : List Nat) (here : Nat) (s : Search), Tracked E lockCount path s → here < lockCount →
      (∀ b ∈ path.head?, s.discoveredOrder here = -1 → s.parent here = b ∧ here ∈ E b) →
        Concludes (dfs E lockCount fuel here s) (Tracked E lockCount path) (Reported E) := by
  induction fuel with
  | zero => exact fun _ _ _ _ _ _ => .inl rfl
  | succ fuel ih =>
      intro path here s h hhere hparent
      unfold dfs
      by_cases hnew : s.discoveredOrder here = -1
      · rw [if_neg (not_not.mpr hnew)]
        refine Concludes.bind (P := Tracked E lockCount (here :: path)) ?_ fun s' h' => h'.finish
        refine Concludes.foldlM (h.discover hhere hnew fun b hb => hparent b hb hnew) ?_
        intro s' h' there hedge
        split
        · next hthere =>
          -- a new lock, whose parent is `here`
          refine ih (here :: path) there (s'.setParent there here) (h'.setParent hthere)
            (hE here hhere there hedge) ?_
          intro b hb _
          obtain rfl := Option.some.inj hb
          exact ⟨Function.update_self .., hedge⟩
        · next hthere =>
          split
          · exact h'
          · split
            · next hunfinished =>
              refine h'.report_cycle hedge ?_ hthere hunfinished
              intro heq
              subst heq
              exact hloop _ hedge
            · exact h'
      · rw [if_pos hnew]
        exact h

/-! ## Main result -/

/--
**The check for cycles is exact, and so is its report**: on any edges between the locks,
none from a lock to itself, the search comes to its end; it detects a deadlock if and
only if the edges have a cycle; and then the loop of the report stops without having
read the parent of a root, and the lines it has printed are the edges of a cycle.
-/
theorem checkCycle_exact {E : Nat → List Nat} {lockCount : Nat}
    (hE : ∀ v, ∀ w ∈ E v, v < lockCount ∧ w < lockCount)
    (hloop : ∀ v, v ∉ E v) :
    checkCycle E lockCount ≠ .error .outOfFuel ∧
      ((∃ printed, checkCycle E lockCount = .error (.deadlockDetected printed)) ↔
        ¬ Acyclic fun v w => w ∈ E v) ∧
        ∀ e, checkCycle E lockCount = .error e → ∃ printed, e = .deadlockDetected printed ∧
        IsCycle E printed := by
  have hseen := seen_checkCycle E lockCount
  have hfuel : checkCycle E lockCount ≠ .error .outOfFuel := by
    intro herror
    rw [herror] at hseen
    exact checkCycle_ne_outOfFuel (fun v _ w hw => (hE v w hw).2) hseen.symm
  have hreports : Concludes (checkCycle E lockCount) (fun _ => True) (Reported E) := by
    unfold checkCycle
    refine Concludes.bind (P := Tracked E lockCount []) ?_ fun _ _ => trivial
    refine Concludes.foldlM .new ?_
    intro s h lockId hid
    exact dfs_reports (fun v _ w hw => (hE v w hw).2) hloop _ [] lockId s h (List.mem_range.mp hid) nofun
  have hcycle : ∀ e, checkCycle E lockCount = .error e → ∃ printed, e = .deadlockDetected printed ∧
    IsCycle E printed := by
    intro e herror
    rw [herror] at hreports
    rcases hreports with rfl | hprinted
    · exact absurd herror hfuel
    · exact hprinted
  refine ⟨hfuel, ⟨?_, ?_⟩, hcycle⟩
  · intro hcrash
    obtain ⟨printed, hcrash⟩ := hcrash
    obtain ⟨printed', -, hprinted⟩ := hcycle _ hcrash
    exact hprinted.not_acyclic
  · intro hcyclic
    cases hcheck : checkCycle E lockCount with
    | error e =>
        obtain ⟨printed, rfl, -⟩ := hcycle e hcheck
        exact ⟨printed, rfl⟩
    | ok u =>
        -- when the check returns, every path comes to an end
        rw [hcheck] at hseen
        refine absurd (Acyclic.of_acc fun v => ?_) hcyclic
        by_cases hv : v < lockCount
        · exact checkCycle_spec hseen.symm v hv
        · exact Acc.intro v fun w hw => absurd (hE v w hw).1 hv

/-- Three locks in a ring, and one that leads into it. -/
def ring : Nat → List Nat
  | 0 => [1]
  | 1 => [2]
  | 2 => [3]
  | 3 => [1]
  | _ => []

theorem checkCycle_exact_ring : checkCycle ring 4 = .error (.deadlockDetected [(3, 1), (2, 3), (1, 2)])
    ∧ IsCycle ring [(3, 1), (2, 3), (1, 2)] := by
  have hcheck : checkCycle ring 4 = .error (.deadlockDetected [(3, 1), (2, 3), (1, 2)]) := by decide +kernel
  have hE : ∀ v, ∀ w ∈ ring v, v < 4 ∧ w < 4 := by
    intro v w hw
    match v with
    | 0 | 1 | 2 | 3 =>
        simp only [ring, List.mem_singleton] at hw
        omega
    | v + 4 => simp [ring] at hw
  have hloop : ∀ v, v ∉ ring v := by
    intro v hv
    match v with
    | 0 | 1 | 2 | 3 => simp [ring] at hv
    | v + 4 => simp [ring] at hv
  obtain ⟨printed, heq, hcycle⟩ := (checkCycle_exact hE hloop).2.2 _ hcheck
  obtain rfl := Stop.deadlockDetected.inj heq
  exact ⟨hcheck, hcycle⟩

end StarCraftIocp.CycleReport
