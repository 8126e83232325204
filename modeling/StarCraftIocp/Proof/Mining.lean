import StarCraftIocp.GameServer.Mineral
import StarCraftIocp.Lib.RealScalar
import StarCraftIocp.Lib.Table
import StarCraftIocp.Lib.Transition

/-!
# Who mines, and who waits

`TryMining` puts a worker in one of two places and takes it out of neither;
`RemoveWorker` takes it out of one. A worker is in at most one place as long as it
does not ask again while it mines, and does not ask a free mineral while it waits.
-/

namespace StarCraftIocp

namespace Mineral

variable {F : Type}

def Occupies (m : Mineral) (worker : ObjRef) : Prop := m.occpied = some worker

def Waits (m : Mineral) (worker : ObjRef) : Prop := m.waitingWorker (some worker) ≠ none

structure Exclusive (m : Mineral) : Prop where
  one : ∀ worker worker', m.Occupies worker → m.Occupies worker' → worker = worker'
  apart : ∀ worker, ¬ (m.Occupies worker ∧ m.Waits worker)

/-- What a worker can count on after its call. -/
def Served (worker : ObjRef) (call : MiningCall F) (r : Option Bool × Mineral) : Prop :=
  r.2.Exclusive ∧
    match call with
    | .tryMining _ _ => r.1 = some true ↔ r.2.Occupies worker
    | .removeWorker _ _ => ¬ r.2.Occupies worker ∧ ¬ r.2.Waits worker

/-- The call returns, and the worker is served. -/
def Fulfils (m : Mineral) (worker : ObjRef) (call : MiningCall F) : Prop :=
  Yields (m.exec call) (Served worker call)

/--
A worker asks when it does not mine, and one that waits asks while another mines.
Only one that mines or waits is removed.
-/
def Orderly (m : Mineral) (call : MiningCall F) : Prop :=
  match call with
  | .tryMining _ _ => m.occpied ≠ call.worker ∧ (m.occpied = none → m.waitingWorker call.worker = none)
  | .removeWorker _ _ => m.occpied = call.worker ∨ m.waitingWorker call.worker ≠ none

instance (m : Mineral) : (call : MiningCall F) → Decidable (m.Orderly call)
  | .tryMining _ _ => inferInstanceAs (Decidable (_ ∧ _))
  | .removeWorker _ _ => inferInstanceAs (Decidable (_ ∨ _))

theorem exclusive_new : new.Exclusive where
  one _ _ h := by cases h
  apart _ h := by cases h.1

/-- One pointer names one worker. -/
theorem exclusive_of_apart {m : Mineral} (h : ∀ worker, ¬ (m.Occupies worker ∧ m.Waits worker)) :
    m.Exclusive where
  one _ _ hworker hworker' := Option.some.inj (hworker.symm.trans hworker')
  apart := h

/-! ## One call -/

theorem exec_tryMining (m : Mineral) (room : Room F) (workerId : Int) : m.exec (.tryMining room workerId) =
    if m.occpied ≠ none then .ok (some false,
      { m with waitingWorker := Function.update m.waitingWorker (room.indexObject workerId).1 (some workerId) })
    else .ok (some true, { m with occpied := (room.indexObject workerId).1 }) := by
  unfold exec tryMining
  dsimp only
  split <;> rfl

theorem exec_removeWorker (m : Mineral) (room : Room F) (workerId : Int) :
    m.exec (.removeWorker room workerId) =
    if m.occpied = (room.indexObject workerId).1 then .ok (none, { m with occpied := none })
    else if m.waitingWorker (room.indexObject workerId).1 = none then .error .eraseEnd
    else .ok (none,
      { m with waitingWorker := Function.update m.waitingWorker (room.indexObject workerId).1 none }) := by
  unfold exec removeWorker
  dsimp only
  split
  · rfl
  · cases m.waitingWorker (room.indexObject workerId).1 with
    | none => rfl
    | some _ => rfl

theorem fulfils_ok {m : Mineral} {worker : ObjRef} {call : MiningCall F} {r : Option Bool × Mineral}
    (h : m.exec call = .ok r) : m.Fulfils worker call ↔ Served worker call r := by
  unfold Fulfils
  rw [h]
  constructor
  · intro hyields
    obtain ⟨r', hr, hserved⟩ := hyields
    obtain rfl := Except.ok.inj hr
    exact hserved
  · exact Yields.ok

/-- Asking for a mineral. -/
theorem orderly_tryMining {m : Mineral} (h : m.Exclusive) {worker : ObjRef} {room : Room F} {workerId : Int}
    (hworker : (room.indexObject workerId).1 = some worker) :
    m.Orderly (.tryMining room workerId) ↔ m.Fulfils worker (.tryMining room workerId) := by
  have hexec := exec_tryMining m room workerId
  unfold Orderly MiningCall.worker
  dsimp only
  rw [hworker] at hexec ⊢
  cases hocc : m.occpied with
  | none =>
      rw [hocc, if_neg (fun hne => hne rfl)] at hexec
      rw [fulfils_ok hexec]
      unfold Served
      dsimp only
      constructor
      · rintro ⟨-, hwaits⟩
        refine ⟨exclusive_of_apart ?_, iff_of_true rfl rfl⟩
        rintro other ⟨hother, hwaits'⟩
        obtain rfl := Option.some.inj hother
        exact hwaits' (hwaits rfl)
      · rintro ⟨hex, -⟩
        refine ⟨nofun, fun _ => ?_⟩
        by_contra hwaits
        exact hex.apart worker ⟨rfl, hwaits⟩
  | some occupant =>
      rw [hocc, if_pos nofun] at hexec
      rw [fulfils_ok hexec]
      unfold Served
      dsimp only
      constructor
      · rintro ⟨hne, -⟩
        refine ⟨exclusive_of_apart ?_, iff_of_false nofun hne⟩
        rintro other ⟨hother, hwaits⟩
        obtain rfl := Option.some.inj hother
        refine h.apart occupant ⟨hocc, ?_⟩
        unfold Waits at hwaits
        dsimp only at hwaits
        rwa [Function.update_of_ne hne] at hwaits
      · rintro ⟨-, hreturned⟩
        refine ⟨?_, nofun⟩
        intro heq
        exact absurd (hreturned.mpr heq) nofun

/-- Taking a worker out. -/
theorem orderly_removeWorker {m : Mineral} (h : m.Exclusive) {worker : ObjRef} {room : Room F}
    {workerId : Int}
    (hworker : (room.indexObject workerId).1 = some worker) :
    m.Orderly (.removeWorker room workerId) ↔ m.Fulfils worker (.removeWorker room workerId) := by
  have hexec := exec_removeWorker m room workerId
  unfold Orderly MiningCall.worker
  dsimp only
  rw [hworker] at hexec ⊢
  by_cases hocc : m.occpied = some worker
  · rw [if_pos hocc] at hexec
    rw [fulfils_ok hexec]
    unfold Served
    dsimp only
    refine iff_of_true (Or.inl hocc) ⟨exclusive_of_apart nofun, nofun, ?_⟩
    exact fun hwaits => h.apart worker ⟨hocc, hwaits⟩
  · rw [if_neg hocc] at hexec
    by_cases hwaits : m.waitingWorker (some worker) = none
    · -- `find` gives `end()`
      rw [if_pos hwaits] at hexec
      refine iff_of_false (not_or.mpr ⟨hocc, not_not.mpr hwaits⟩) ?_
      rintro ⟨r, hr, -⟩
      rw [hexec] at hr
      cases hr
    · rw [if_neg hwaits] at hexec
      rw [fulfils_ok hexec]
      unfold Served
      dsimp only
      refine iff_of_true (Or.inr hwaits) ⟨exclusive_of_apart ?_, hocc, ?_⟩
      · rintro other ⟨hother, hwaits'⟩
        have hne : some other ≠ some worker := fun heq => hocc (hother.trans heq)
        unfold Waits at hwaits'
        dsimp only at hwaits'
        rw [Function.update_of_ne hne] at hwaits'
        exact h.apart other ⟨hother, hwaits'⟩
      · unfold Waits
        dsimp only
        rw [Function.update_self]
        exact not_not.mpr rfl

/-- A call serves the worker exactly when it is in order. -/
theorem orderly_iff_fulfils {m : Mineral} (h : m.Exclusive) {worker : ObjRef} {call : MiningCall F}
    (hworker : call.worker = some worker) : m.Orderly call ↔ m.Fulfils worker call := by
  cases call with
  | tryMining room workerId => exact orderly_tryMining h hworker
  | removeWorker room workerId => exact orderly_removeWorker h hworker

/-! ## Runs -/

theorem exclusive_next {m m' : Mineral} {call : MiningCall F} (h : m.Exclusive) (horderly : m.Orderly call)
    (hnext : m.next call = some m') : m'.Exclusive := by
  unfold next at hnext
  split at hnext
  · next hpresent =>
    obtain ⟨worker, hworker⟩ := Option.ne_none_iff_exists'.mp hpresent
    obtain ⟨r, hr, hserved⟩ := (orderly_iff_fulfils h hworker).mp horderly
    rw [hr] at hnext
    obtain rfl := Option.some.inj hnext
    exact hserved.1
  · cases hnext

/--
**In a run of orderly calls no worker is in two places**, and the calls that serve
their workers are again the orderly ones.
-/
theorem mining_orderly {m : Mineral}
    (h : Reachable (Transition.guarded (Transition.ofFun (next (F := F))) Orderly) new m) :
    m.Exclusive ∧ ∀ worker (call : MiningCall F), call.worker = some worker →
      (m.Orderly call ↔ m.Fulfils worker call) := by
  have hex : m.Exclusive := h.invariant exclusive_new fun _ _ _ hm hs => exclusive_next hm hs.1 hs.2
  exact ⟨hex, fun _ _ hworker => orderly_iff_fulfils hex hworker⟩

/-- A room with two workers. -/
def twoWorkers : Room ℚ :=
  { Room.new 0 0 [] [] [] with
    objects := ((∅ : Std.ExtTreeMap Int (Option ObjRef)).insert 1 (some 10)).insert 2 (some 20) }

/-- One mines, the other waits until it has gone, withdraws, and mines. -/
theorem mining_orderly_turns : ∃ m : Mineral, m.Occupies 20 ∧ m.Exclusive ∧
    m.Fulfils 20 (.removeWorker twoWorkers 2) := by
  have hrun : ([.tryMining twoWorkers 1, .tryMining twoWorkers 2, .removeWorker twoWorkers 1,
      .removeWorker twoWorkers 2, .tryMining twoWorkers 2].foldlM (guardedFun next Orderly) new).map
        (fun m => m.occpied) = some (some 20) := by
    decide +kernel
  obtain ⟨m, hm, hoccupies⟩ := Option.map_eq_some_iff.mp hrun
  obtain ⟨hex, hcalls⟩ := mining_orderly (Reachable.of_run_guarded hm .refl)
  have hworker : (MiningCall.removeWorker twoWorkers 2).worker = some 20 := by decide +kernel
  exact ⟨m, hoccupies, hex, (hcalls 20 _ hworker).mp (Or.inl (hoccupies.trans hworker.symm))⟩

/-- The one that waits asks again when the mineral is free: it mines, and waits. -/
theorem not_exclusive : ∃ m : Mineral, Reachable (Transition.ofFun (next (F := ℚ))) new m ∧
    ¬ m.Exclusive := by
  have hrun : ([.tryMining twoWorkers 1, .tryMining twoWorkers 2, .removeWorker twoWorkers 1,
      .tryMining twoWorkers 2].foldlM next new).map (fun m => (m.occpied, m.waitingWorker (some 20)))
        = some (some 20, some 2) := by
    decide +kernel
  obtain ⟨m, hm, hobs⟩ := Option.map_eq_some_iff.mp hrun
  obtain ⟨hoccupies, hwaits⟩ := Prod.mk.inj hobs
  refine ⟨m, Reachable.of_run hm .refl, ?_⟩
  intro hex
  exact hex.apart 20 ⟨hoccupies, by unfold Waits; rw [hwaits]; nofun⟩

end Mineral

end StarCraftIocp
