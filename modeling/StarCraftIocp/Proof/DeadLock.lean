import Mathlib.Data.Finset.Card
import StarCraftIocp.Lib.Acyclic
import StarCraftIocp.Lib.Outcome
import StarCraftIocp.Lib.Transition
import StarCraftIocp.ServerCore.DeadLockProfiler

/-!
# What the deadlock profiler finds

A lock whose search is finished leads to finished locks only, so that every path from
it ends. When `CheckCycle` returns, all of them are finished. An edge is drawn between
neighbours of a stack only, but that is enough to get from any lock to the ones above.
-/

namespace StarCraftIocp

open Relation Outcome

namespace DeadLockProfiler

variable {E : Nat → List Nat} {gray : Nat → Prop} {m m' : Marks} {here : Nat}

/-- Every path from the lock comes to an end. -/
def Ends (E : Nat → List Nat) (v : Nat) : Prop := Acc (fun w v => w ∈ E v) v

/-- The marks in the middle of a search, `gray` being the locks whose search is under way. -/
structure Marked (E : Nat → List Nat) (gray : Nat → Prop) (m : Marks) : Prop where
  gray : ∀ v, gray v ↔ m.discoveredOrder v ≠ -1 ∧ m.finished v = false
  ends : ∀ v, m.finished v = true → Ends E v
  found : ∀ v, m.finished v = true → m.discoveredOrder v ≠ -1
  lt : ∀ v, m.discoveredOrder v < m.discoveredCount
  nonneg : 0 ≤ m.discoveredCount

/-- Nothing is unmarked or renumbered. -/
structure Extends (m m' : Marks) : Prop where
  order : ∀ v, m.discoveredOrder v ≠ -1 → m'.discoveredOrder v = m.discoveredOrder v
  finished : ∀ v, m.finished v = true → m'.finished v = true

theorem Extends.refl (m : Marks) : Extends m m := ⟨fun _ _ => rfl, fun _ h => h⟩

theorem Extends.trans {m₁ m₂ m₃ : Marks} (h : Extends m₁ m₂) (h' : Extends m₂ m₃) : Extends m₁ m₃ := by
  refine ⟨?_, fun v hv => h'.finished v (h.finished v hv)⟩
  intro v hv
  have hv' := h.order v hv
  rw [← hv']
  refine h'.order v ?_
  rw [hv']
  exact hv

/-- What has been found and is not gray is finished. -/
theorem Marked.finished_of_found (h : Marked E gray m) {v : Nat} (hv : m.discoveredOrder v ≠ -1)
    (hgray : ¬ gray v) : m.finished v = true := by
  by_contra hfin
  exact hgray ((h.gray v).mpr ⟨hv, by simpa using hfin⟩)

theorem Marked.discover (h : Marked E gray m) (hnew : m.discoveredOrder here = -1) :
    Marked E (fun v => gray v ∨ v = here) (m.discover here) ∧ Extends m (m.discover here) := by
  have hnonneg := h.nonneg
  refine ⟨⟨?_, h.ends, ?_, ?_, ?_⟩, ⟨?_, fun _ h => h⟩⟩
  · intro v
    by_cases hv : v = here
    · subst hv
      have hfin : m.finished v = false := by
        by_contra hfin
        exact h.found v (by simpa using hfin) hnew
      simp only [Marks.discover, Function.update_self, or_true, true_iff]
      exact ⟨by omega, hfin⟩
    · simp only [Marks.discover, Function.update_of_ne hv, hv, or_false]
      exact h.gray v
  · intro v hv
    by_cases hvh : v = here
    · subst hvh
      exact absurd hnew (h.found v hv)
    · simp only [Marks.discover, Function.update_of_ne hvh]
      exact h.found v hv
  · intro v
    have hlt := h.lt v
    by_cases hv : v = here
    · simp only [Marks.discover, hv, Function.update_self]
      omega
    · simp only [Marks.discover, Function.update_of_ne hv]
      omega
  · simp only [Marks.discover]
    omega
  · intro v hv
    have hvh : v ≠ here := by
      intro heq
      subst heq
      exact hv hnew
    simp only [Marks.discover, Function.update_of_ne hvh]

/-- A lock whose successors are all finished can be finished. -/
theorem Marked.finish (h : Marked E (fun v => gray v ∨ v = here) m) (hgray : ¬ gray here)
    (hnext : ∀ there ∈ E here, m.finished there = true) :
    Marked E gray (m.finish here) ∧ Extends m (m.finish here) := by
  refine ⟨⟨?_, ?_, ?_, h.lt, h.nonneg⟩, ⟨fun _ _ => rfl, ?_⟩⟩
  · intro v
    by_cases hv : v = here
    · subst hv
      simp only [Marks.finish, Function.update_self, reduceCtorEq, and_false, iff_false]
      exact hgray
    · have := h.gray v
      simp only [hv, or_false] at this
      simp only [Marks.finish, Function.update_of_ne hv]
      exact this
  · intro v hv
    by_cases hvh : v = here
    · subst hvh
      refine Acc.intro v ?_
      intro w hw
      exact h.ends w (hnext w hw)
    · simp only [Marks.finish, Function.update_of_ne hvh] at hv
      exact h.ends v hv
  · intro v hv
    by_cases hvh : v = here
    · subst hvh
      exact ((h.gray v).mp (Or.inr rfl)).1
    · simp only [Marks.finish, Function.update_of_ne hvh] at hv
      exact h.found v hv
  · intro v hv
    by_cases hvh : v = here
    · simp only [Marks.finish, hvh, Function.update_self]
    · simp only [Marks.finish, Function.update_of_ne hvh]
      exact hv

/-- One edge of the loop: afterwards the lock it leads to is finished. -/
theorem edge_spec {fuel there : Nat} {m₀ : Marks}
    (ih : ∀ (gray : Nat → Prop) (there : Nat) (m : Marks), Marked E gray m →
      Ensures (dfs E fuel there m) fun m' => Marked E gray m' ∧ Extends m m' ∧ m'.discoveredOrder there ≠ -1)
    (h₀ : Marked E gray m₀) (hnew : m₀.discoveredOrder here = -1)
    (h : Marked E (fun v => gray v ∨ v = here) m) (hext : Extends (m₀.discover here) m) :
    Ensures (if m.discoveredOrder there = -1 then dfs E fuel there m
      else if m.discoveredOrder here < m.discoveredOrder there then .ok m
      else if m.finished there = false then .error .deadlockDetected
      else .ok m) fun m' => Marked E (fun v => gray v ∨ v = here) m' ∧ Extends m m' ∧
      m'.finished there = true := by
  refine Ensures.ite ?_ ?_
  · intro hthere
    refine (ih _ there m h).mono ?_
    intro m' hrest
    rcases hrest with ⟨hmarked, hext', hfound⟩
    refine ⟨hmarked, hext', hmarked.finished_of_found hfound ?_⟩
    intro hgray
    exact ((h.gray there).mp hgray).1 hthere
  · intro hthere
    refine Ensures.ite ?_ ?_
    · intro hlt
      refine Ensures.ok ⟨h, Extends.refl m, h.finished_of_found hthere ?_⟩
      -- a lock that was gray before `here` was found earlier
      intro hthere'
      rcases hthere' with hgray | rfl
      · have hold := (h₀.gray there).mp hgray
        have horder := (h₀.discover hnew).2.trans hext
        rw [horder.order there hold.1] at hlt
        have hhere : (m₀.discover here).discoveredOrder here = m₀.discoveredCount :=
          Function.update_self _ _ _
        have hnonneg := h₀.nonneg
        rw [hext.order here (by omega), hhere] at hlt
        have hcount := h₀.lt there
        omega
      · omega
    · intro hle
      refine Ensures.ite (fun _ => Ensures.error _) ?_
      intro hfin
      exact Ensures.ok ⟨h, Extends.refl m, by simpa using hfin⟩

/-- A search that returns leaves its lock found, and the others gray that were. -/
theorem dfs_spec (fuel : Nat) : ∀ (gray : Nat → Prop) (here : Nat) (m : Marks), Marked E gray m →
    Ensures (dfs E fuel here m) fun m' => Marked E gray m' ∧ Extends m m' ∧ m'.discoveredOrder here ≠ -1 := by
  induction fuel with
  | zero => exact fun _ _ _ _ => Ensures.error _
  | succ fuel ih =>
      intro gray here m h
      unfold dfs
      refine Ensures.ite (fun hfound => Ensures.ok ⟨h, Extends.refl m, hfound⟩) ?_
      intro hfound
      have hnew : m.discoveredOrder here = -1 := not_not.mp hfound
      obtain ⟨hmarked, hext⟩ := h.discover hnew
      have hgray : ¬ gray here := fun hg => ((h.gray here).mp hg).1 hnew
      refine Ensures.bind (P := fun m' => Marked E (fun v => gray v ∨ v = here) m' ∧
        Extends (m.discover here) m' ∧ ∀ there ∈ E here, m'.finished there = true) ?_ ?_
      · refine Ensures.foldlM_done (I := fun done m' => Marked E (fun v => gray v ∨ v = here) m' ∧
          Extends (m.discover here) m' ∧ ∀ there ∈ done, m'.finished there = true) (C := fun _ _ => True)
          ⟨hmarked, Extends.refl _, nofun⟩ (Meets.of_forall fun _ _ => trivial) ?_
        intro done m₁ hsofar there _ _
        rcases hsofar with ⟨hm₁, hext₁, hdone⟩
        refine (edge_spec ih h hnew hm₁ hext₁).mono ?_
        intro m₂ hedge
        rcases hedge with ⟨hm₂, hext₂, hthere⟩
        refine ⟨hm₂, hext₁.trans hext₂, ?_⟩
        intro v hv
        rcases List.mem_append.mp hv with hv | hv
        · exact hext₂.finished v (hdone v hv)
        · rw [List.mem_singleton.mp hv]
          exact hthere
      · intro m' hafter
        rcases hafter with ⟨hm', hext', hnext⟩
        obtain ⟨hfin, hextfin⟩ := hm'.finish hgray hnext
        refine Ensures.ok ⟨hfin, (hext.trans hext').trans hextfin, ?_⟩
        exact ((hm'.gray here).mp (Or.inr rfl)).1

theorem marked_new : Marked E (fun _ => False) Marks.new :=
  ⟨fun _ => ⟨False.elim, fun h => h.1 rfl⟩, nofun, nofun, fun _ => (by decide : (-1 : Int) < 0), le_refl 0⟩

/-- When the check returns, every path from a known lock comes to an end. -/
theorem checkCycle_spec {lockCount : Nat} (h : checkCycle E lockCount = .ok ()) (v : Nat)
    (hv : v < lockCount) :
    Ends E v := by
  obtain ⟨m, hloop, -⟩ := bind_eq_ok.mp h
  have hspec := Ensures.foldlM_done (I := fun done m => Marked E (fun _ => False) m ∧
    ∀ v ∈ done, m.finished v = true) (C := fun _ _ => True)
    (f := fun m lockId => dfs E (lockCount + 1) lockId m) (l := List.range lockCount)
    ⟨marked_new, nofun⟩ (Meets.of_forall fun _ _ => trivial) ?_
  · obtain ⟨hmarked, hall⟩ := hspec m hloop
    exact hmarked.ends v (hall v (List.mem_range.mpr hv))
  · intro done m₁ hsofar lockId _ _
    rcases hsofar with ⟨hm₁, hdone⟩
    refine (dfs_spec _ _ lockId m₁ hm₁).mono ?_
    intro m₂ hvisit
    rcases hvisit with ⟨hm₂, hext, hfound⟩
    refine ⟨hm₂, ?_⟩
    intro w hw
    rcases List.mem_append.mp hw with hw | hw
    · exact hext.finished w (hdone w hw)
    · rw [List.mem_singleton.mp hw]
      exact hm₂.finished_of_found hfound id

/-! ## The depth of the recursion -/

/-- How many of the first `n` locks have not been found. -/
def unfound (n : Nat) (m : Marks) : Nat := ((Finset.range n).filter fun v => m.discoveredOrder v = -1).card

/-- What is found stays found. -/
theorem unfound_subset {n : Nat} (h : Extends m m') :
    ((Finset.range n).filter fun v => m'.discoveredOrder v = -1) ⊆
    (Finset.range n).filter fun v => m.discoveredOrder v = -1 := by
  intro v hv
  obtain ⟨hmem, hnew⟩ := Finset.mem_filter.mp hv
  refine Finset.mem_filter.mpr ⟨hmem, ?_⟩
  by_contra hfound
  exact hfound ((h.order v hfound).symm.trans hnew)

theorem unfound_le {n : Nat} (h : Extends m m') : unfound n m' ≤ unfound n m :=
  Finset.card_le_card (unfound_subset h)

theorem unfound_discover {n : Nat} (hhere : here < n) (hnew : m.discoveredOrder here = -1)
    (hnonneg : 0 ≤ m.discoveredCount) (hext : Extends m (m.discover here)) :
    unfound n (m.discover here) < unfound n m := by
  refine Finset.card_lt_card ⟨unfound_subset hext, ?_⟩
  -- the lock itself was not found before
  intro hsub
  have hmem := hsub (Finset.mem_filter.mpr ⟨Finset.mem_range.mpr hhere, hnew⟩)
  have hfound := (Finset.mem_filter.mp hmem).2
  simp only [Marks.discover, Function.update_self] at hfound
  omega

/-- Each call in a call has found one lock more. -/
theorem dfs_ne_outOfFuel {n : Nat} (hE : ∀ v, v < n → ∀ w ∈ E v, w < n) (fuel : Nat) :
    ∀ (gray : Nat → Prop) (here : Nat) (m : Marks), Marked E gray m → here < n → unfound n m < fuel →
      dfs E fuel here m ≠ .error .outOfFuel := by
  induction fuel with
  | zero => exact fun _ _ m _ _ hlt => absurd hlt (Nat.not_lt_zero _)
  | succ fuel ih =>
      intro gray here m h hhere hfuel
      unfold dfs
      by_cases hfound : m.discoveredOrder here = -1
      · rw [if_neg (not_not.mpr hfound)]
        obtain ⟨hmarked, hext⟩ := h.discover hfound
        have hless := unfound_discover hhere hfound h.nonneg hext
        intro herror
        have hloop : (E here).foldlM (fun m there =>
            if m.discoveredOrder there = -1 then dfs E fuel there m
            else if m.discoveredOrder here < m.discoveredOrder there then .ok m
            else if m.finished there = false then .error .deadlockDetected
            else .ok m) (m.discover here) ≠ .error .outOfFuel := by
          refine Ensures.foldlM_ne_error (I := fun m' => Marked E (fun v => gray v ∨ v = here) m' ∧
            Extends (m.discover here) m') ⟨hmarked, Extends.refl _⟩ ?_
          intro m₁ hsofar there hthere
          rcases hsofar with ⟨hm₁, hext₁⟩
          constructor
          · refine (edge_spec (dfs_spec fuel) h hfound hm₁ hext₁).mono ?_
            intro m₂ hvisit
            rcases hvisit with ⟨hm₂, hext₂, -⟩
            exact ⟨hm₂, hext₁.trans hext₂⟩
          · split
            · have hle := unfound_le (n := n) hext₁
              exact ih _ there m₁ hm₁ (hE here hhere there hthere) (by omega)
            · split
              · nofun
              · split
                · nofun
                · nofun
        cases hresult : (E here).foldlM (fun m there =>
            if m.discoveredOrder there = -1 then dfs E fuel there m
            else if m.discoveredOrder here < m.discoveredOrder there then .ok m
            else if m.finished there = false then .error .deadlockDetected
            else .ok m) (m.discover here) with
        | error e =>
            rw [hresult] at herror hloop
            exact hloop herror
        | ok m' =>
            rw [hresult] at herror
            cases herror
      · rw [if_pos hfound]
        nofun

/-- The check returns or reports a cycle. -/
theorem checkCycle_ne_outOfFuel {lockCount : Nat} (hE : ∀ v, v < lockCount → ∀ w ∈ E v, w < lockCount) :
    checkCycle E lockCount ≠ .error .outOfFuel := by
  have hloop : (List.range lockCount).foldlM (fun m lockId => dfs E (lockCount + 1) lockId m) Marks.new ≠
      .error .outOfFuel := by
    refine Ensures.foldlM_ne_error (I := fun m => Marked E (fun _ => False) m) marked_new ?_
    intro m hm lockId hmem
    constructor
    · exact (dfs_spec _ _ lockId m hm).mono fun m' h => h.1
    · refine dfs_ne_outOfFuel hE _ _ lockId m hm (List.mem_range.mp hmem) ?_
      have hle : unfound lockCount m ≤ (Finset.range lockCount).card := Finset.card_filter_le _ _
      rw [Finset.card_range] at hle
      omega
  unfold checkCycle
  cases hresult : (List.range lockCount).foldlM
    (fun m lockId => dfs E (lockCount + 1) lockId m) Marks.new with
  | error e =>
      rw [hresult] at hloop
      rw [error_bind]
      intro herror
      exact hloop (congrArg Except.error (Except.error.inj herror))
  | ok m => nofun

end DeadLockProfiler

open DeadLockProfiler

namespace ProfilerState

variable {T N : Type} [DecidableEq N] {s s' : ProfilerState T N} {t : T} {name : N}

/-- `w` has been pushed right above `v`. -/
def Edge (s : ProfilerState T N) (v w : Nat) : Prop := w ∈ s.lockHistory v

/-- The names have different ids, the edges join known locks, and they explain every stack. -/
structure Sound (s : ProfilerState T N) : Prop where
  ids : ∀ name lockId, s.nameToId name = some lockId → lockId < s.lockCount
  inj : ∀ name name' lockId, s.nameToId name = some lockId → s.nameToId name' = some lockId → name = name'
  edges : ∀ v w, s.Edge v w → v < s.lockCount ∧ w < s.lockCount
  ends : ∀ v, Ends s.lockHistory v
  known : ∀ t, ∀ v ∈ s.lockStack t, v < s.lockCount
  chained : ∀ t, (s.lockStack t).IsChain fun a b => a = b ∨ s.Edge b a

omit [DecidableEq N] in
theorem sound_init : (init : ProfilerState T N).Sound :=
  ⟨nofun, nofun, nofun, fun v => Acc.intro v nofun, nofun, fun _ => List.isChain_nil⟩

/-- A name that is new gets an id that is. -/
theorem sound_findId (h : s.Sound) (name : N) : (s.findId name).2.Sound ∧
    (s.findId name).2.nameToId name = some (s.findId name).1 ∧ (s.findId name).2.lockStack = s.lockStack ∧
      (s.findId name).2.crash = s.crash := by
  unfold findId
  cases hname : s.nameToId name with
  | some lockId => exact ⟨h, hname, rfl, rfl⟩
  | none =>
      refine ⟨⟨?_, ?_, ?_, h.ends, ?_, h.chained⟩, Function.update_self _ _ _, rfl, rfl⟩
      · intro name' lockId hid
        by_cases heq : name' = name
        · simp only [heq, Function.update_self, Option.some.injEq] at hid
          dsimp only
          omega
        · simp only [Function.update_of_ne heq] at hid
          exact Nat.lt_succ_of_lt (h.ids name' lockId hid)
      · intro name₁ name₂ lockId hid₁ hid₂
        by_cases heq₁ : name₁ = name
        · by_cases heq₂ : name₂ = name
          · rw [heq₁, heq₂]
          · simp only [heq₁, Function.update_self, Option.some.injEq] at hid₁
            simp only [Function.update_of_ne heq₂] at hid₂
            have := h.ids name₂ lockId hid₂
            omega
        · by_cases heq₂ : name₂ = name
          · simp only [heq₂, Function.update_self, Option.some.injEq] at hid₂
            simp only [Function.update_of_ne heq₁] at hid₁
            have := h.ids name₁ lockId hid₁
            omega
          · simp only [Function.update_of_ne heq₁] at hid₁
            simp only [Function.update_of_ne heq₂] at hid₂
            exact h.inj name₁ name₂ lockId hid₁ hid₂
      · intro v w hedge
        obtain ⟨hv, hw⟩ := h.edges v w hedge
        exact ⟨Nat.lt_succ_of_lt hv, Nat.lt_succ_of_lt hw⟩
      · intro t v hv
        exact Nat.lt_succ_of_lt (h.known t v hv)

variable [DecidableEq T]

omit [DecidableEq N] in
/-- A lock can be pushed on a stack whose top it is, or is joined to. -/
theorem sound_push (h : s.Sound) {lockId : Nat} (hid : lockId < s.lockCount)
    (htop : ∀ prevId rest, s.lockStack t = prevId :: rest → lockId = prevId ∨ s.Edge prevId lockId) :
    (s.push t lockId).Sound := by
  refine ⟨h.ids, h.inj, h.edges, h.ends, ?_, ?_⟩
  · intro u v hv
    by_cases hu : u = t
    · subst hu
      simp only [push, Function.update_self] at hv
      rcases List.mem_cons.mp hv with rfl | hv
      · exact hid
      · exact h.known u v hv
    · simp only [push, Function.update_of_ne hu] at hv
      exact h.known u v hv
  · intro u
    by_cases hu : u = t
    · subst hu
      simp only [push, Function.update_self]
      cases hstack : s.lockStack u with
      | nil => exact List.isChain_singleton _
      | cons prevId rest =>
          have hchain := h.chained u
          rw [hstack] at hchain
          exact List.isChain_cons_cons.mpr ⟨htop prevId rest hstack, hchain⟩
    · simp only [push, Function.update_of_ne hu]
      exact h.chained u

omit [DecidableEq T] [DecidableEq N] in
theorem edge_insertEdge {prevId lockId v w : Nat} :
    (s.insertEdge prevId lockId).Edge v w ↔ (v = prevId ∧ w = lockId) ∨ s.Edge v w := by
  unfold Edge insertEdge
  by_cases hv : v = prevId
  · subst hv
    simp only [Function.update_self, List.mem_orderedInsert, true_and]
  · simp only [Function.update_of_ne hv, hv, false_and, false_or]

omit [DecidableEq T] [DecidableEq N] in
theorem sound_insertEdge (h : s.Sound) {prevId lockId : Nat} (hprev : prevId < s.lockCount)
    (hid : lockId < s.lockCount)
    (hcheck : checkCycle (s.insertEdge prevId lockId).lockHistory s.lockCount = .ok ()) :
    (s.insertEdge prevId lockId).Sound := by
  have hedges : ∀ v w, (s.insertEdge prevId lockId).Edge v w → v < s.lockCount ∧ w < s.lockCount := by
    intro v w hedge
    rcases edge_insertEdge.mp hedge with ⟨rfl, rfl⟩ | hedge
    · exact ⟨hprev, hid⟩
    · exact h.edges v w hedge
  refine ⟨h.ids, h.inj, hedges, ?_, h.known, ?_⟩
  · intro v
    by_cases hv : v < s.lockCount
    · exact checkCycle_spec hcheck v hv
    · refine Acc.intro v ?_
      intro w hw
      exact absurd (hedges v w hw).1 hv
  · intro t
    refine (h.chained t).imp ?_
    intro a b hab
    rcases hab with rfl | hedge
    · exact Or.inl rfl
    · exact Or.inr (edge_insertEdge.mpr (Or.inr hedge))

/-- A push that finds no cycle keeps everything; one that does not return is no fault of the search. -/
theorem sound_pushLock (h : s.Sound) (hcrash : s.crash = none) :
    (s.pushLock t name).crash ≠ some .outOfFuel ∧
    ((s.pushLock t name).crash = none → (s.pushLock t name).Sound) := by
  obtain ⟨hfind, hname, hstack, hcrash'⟩ := sound_findId h name
  unfold pushLock
  revert hfind hname hstack hcrash'
  rcases s.findId name with ⟨lockId, s₁⟩
  intro hfind hname hstack hcrash'
  dsimp only at hfind hname hstack hcrash' ⊢
  have hid : lockId < s₁.lockCount := hfind.ids name lockId hname
  have hnone : s₁.crash = none := hcrash'.trans hcrash
  cases hlist : s₁.lockStack t with
  | nil =>
      dsimp only
      refine ⟨?_, fun _ => sound_push hfind hid ?_⟩
      · simp only [push, hnone, ne_eq, reduceCtorEq, not_false_eq_true]
      · intro prevId rest heq
        rw [hlist] at heq
        cases heq
  | cons prevId rest =>
      have hprev : prevId < s₁.lockCount := hfind.known t prevId (by rw [hlist]; exact List.mem_cons_self)
      dsimp only
      split
      · next hnew =>
        split
        · next hcheck =>
          -- the new edge closes no cycle
          have hinsert := sound_insertEdge hfind hprev hid hcheck
          refine ⟨?_, fun _ => sound_push hinsert hid ?_⟩
          · simp only [push, insertEdge, hnone, ne_eq, reduceCtorEq, not_false_eq_true]
          · intro prevId' rest' heq
            have hcons : s₁.lockStack t = prevId' :: rest' := heq
            rw [hlist] at hcons
            obtain ⟨rfl, rfl⟩ := List.cons.inj hcons
            exact Or.inr (edge_insertEdge.mpr (Or.inl ⟨rfl, rfl⟩))
        · next crash hcheck =>
          refine ⟨?_, nofun⟩
          intro hfuel
          rw [Option.some.inj hfuel] at hcheck
          refine checkCycle_ne_outOfFuel ?_ hcheck
          intro v hv w hw
          rcases edge_insertEdge.mp hw with ⟨rfl, rfl⟩ | hedge
          · exact hid
          · exact (hfind.edges v w hedge).2
      · next hold =>
        -- the lock on top is the same one, or the edge is there already
        refine ⟨?_, fun _ => sound_push hfind hid ?_⟩
        · simp only [push, hnone, ne_eq, reduceCtorEq, not_false_eq_true]
        · intro prevId' rest' heq
          rw [hlist] at heq
          obtain ⟨rfl, rfl⟩ := List.cons.inj heq
          by_cases hsame : lockId = prevId
          · exact Or.inl hsame
          · by_contra hedge
            exact hold ⟨hsame, fun hmem => hedge (Or.inr hmem)⟩

/-- A pop of the name on top. -/
theorem sound_popLock (h : s.Sound) (hcrash : s.crash = none) (he : s.Enabled t (.popLock name)) :
    (s.popLock t name).Sound ∧ (s.popLock t name).crash = none := by
  obtain ⟨lockId, hname, htop⟩ := he
  unfold popLock
  cases hlist : s.lockStack t with
  | nil =>
      rw [hlist] at htop
      cases htop
  | cons top rest =>
      rw [hlist] at htop
      obtain rfl : top = lockId := Option.some.inj htop
      rw [hname]
      dsimp only
      rw [if_neg (not_not.mpr rfl)]
      refine ⟨⟨h.ids, h.inj, h.edges, h.ends, ?_, ?_⟩, hcrash⟩
      · intro u v hv
        by_cases hu : u = t
        · subst hu
          simp only [Function.update_self] at hv
          exact h.known u v (by rw [hlist]; exact List.mem_cons_of_mem top hv)
        · simp only [Function.update_of_ne hu] at hv
          exact h.known u v hv
      · intro u
        by_cases hu : u = t
        · subst hu
          have hchain := h.chained u
          rw [hlist] at hchain
          simp only [Function.update_self]
          exact hchain.tail
        · simp only [Function.update_of_ne hu]
          exact h.chained u

/-! ## Runs -/

/-- `i` lies below `j` on the stack. -/
def Below (l : List Nat) (i j : Nat) : Prop := ∃ above below, l = above ++ j :: below ∧ i ∈ below

/-- `t` waits for a lock that `u` holds while it waits for one of another name. -/
def WaitsFor (s : ProfilerState T N) (t u : T) : Prop :=
  ∃ i j held, (s.lockStack t).head? = some i ∧ s.lockStack u = j :: held ∧ i ∈ held ∧ i ≠ j

/-- What the profiler promises while there is no `CRASH`. -/
structure Guarantee (s : ProfilerState T N) : Prop where
  acyclic : Acyclic s.Edge
  path : ∀ t x y i j, s.nameToId x = some i → s.nameToId y = some j → x ≠ y → Below (s.lockStack t) i j →
    TransGen s.Edge i j
  noRing : Acyclic s.WaitsFor

omit [DecidableEq T] [DecidableEq N] in
/-- What lies below leads to what lies above. -/
theorem Sound.path_of_below (h : s.Sound) {i j : Nat} (hbelow : Below (s.lockStack t) i j) (hne : i ≠ j) :
    TransGen s.Edge i j := by
  obtain ⟨above, below, hlist, hmem⟩ := hbelow
  have hchain := h.chained t
  rw [hlist] at hchain
  have hpath := path_of_isChain (hchain.right_of_append) hmem
  rcases reflTransGen_iff_eq_or_transGen.mp hpath with heq | hpath
  · exact absurd heq.symm hne
  · exact hpath

omit [DecidableEq T] [DecidableEq N] in
theorem Sound.guarantee (h : s.Sound) : s.Guarantee := by
  have hacyclic : Acyclic s.Edge := Acyclic.of_acc h.ends
  refine ⟨hacyclic, ?_, ?_⟩
  · intro t x y i j hx hy hne hbelow
    refine h.path_of_below hbelow ?_
    intro heq
    subst heq
    exact hne (h.inj x y i hx hy)
  · refine hacyclic.no_ring (fun t => (s.lockStack t).headD 0) ?_
    intro t u hwaits
    rcases hwaits with ⟨i, j, held, htop, hlist, hmem, hne⟩
    have hi : (s.lockStack t).headD 0 = i := by
      rw [List.headD_eq_head?_getD, htop, Option.getD_some]
    have hj : (s.lockStack u).headD 0 = j := by rw [hlist, List.headD_cons]
    rw [hi, hj]
    exact h.path_of_below ⟨[], held, hlist, hmem⟩ hne

/-- In every run, whatever has been pushed and popped. -/
theorem guarantee_reachable (h : Reachable (Transition.ofFun next) init s) :
    s.crash ≠ some .outOfFuel ∧ (s.crash = none → s.Guarantee) := by
  have hinv : s.crash ≠ some .outOfFuel ∧ (s.crash = none → s.Sound) := by
    refine h.invariant (I := fun s => s.crash ≠ some .outOfFuel ∧ (s.crash = none → s.Sound))
      ⟨by simp only [init, ne_eq, reduceCtorEq, not_false_eq_true], fun _ => sound_init⟩ ?_
    intro s step s' hguard hstep
    rcases step with ⟨t, a⟩
    rcases hguard with ⟨-, hsound⟩
    unfold Transition.ofFun next at hstep
    split at hstep
    · next he =>
      obtain ⟨hcrash, henabled⟩ := he
      cases a with
      | pushLock name =>
          obtain rfl := Option.some.inj hstep
          exact sound_pushLock (hsound hcrash) hcrash
      | popLock name =>
          obtain rfl := Option.some.inj hstep
          obtain ⟨hpop, hnone⟩ := sound_popLock (hsound hcrash) hcrash henabled
          refine ⟨?_, fun _ => hpop⟩
          rw [hnone]
          nofun
    · cases hstep
  exact ⟨hinv.1, fun hcrash => (hinv.2 hcrash).guarantee⟩

/-- Two threads that nest three locks, one of them twice. -/
theorem guarantee_reachable_nested : ∃ s : ProfilerState (Fin 2) Nat,
    s.lockStack 0 = [1, 0, 0] ∧ s.lockStack 1 = [2] ∧ s.Guarantee := by
  have hrun : ([(0, .pushLock 10), (0, .pushLock 10), (0, .pushLock 20), (1, .pushLock 20), (1, .pushLock 30),
      (1, .popLock 30), (1, .popLock 20), (1, .pushLock 30)].foldlM (next (T := Fin 2) (N := Nat)) init).map
      (fun s => (s.lockStack 0, s.lockStack 1, s.crash)) = some ([1, 0, 0], [2], none) := by decide +kernel
  obtain ⟨s, hrun, hview⟩ := Option.map_eq_some_iff.mp hrun
  obtain ⟨h₀, hview⟩ := Prod.mk.inj hview
  obtain ⟨h₁, hcrash⟩ := Prod.mk.inj hview
  exact ⟨s, h₀, h₁, (guarantee_reachable (Reachable.of_run hrun Reachable.refl)).2 hcrash⟩

end ProfilerState

end StarCraftIocp
