import StarCraftIocp.Proof.RoomSteps

/-!
# Running a queue of orders

Jobs are queued in one tick and run in the next. When a job's turn comes, the
jobs before it may have removed its object; `ProcessJob` then calls a method on
the null that `operator[]` returns. So a queue of orders gets through exactly when
no job comes after the removal of its object, and everybody who travels has a map.

A run is compared with `drain`, which leaves the jobs out whose object is gone.
-/

namespace StarCraftIocp.JobQueue

open Outcome Room

variable {F : Type} [Scalar F]

/-- An order to an object: to move, to stop or to go. -/
def IsOrder (job : Job F) : Prop := job.state = .move ∨ job.state = .idle ∨ job.state = .dead

instance (job : Job F) : Decidable (IsOrder job) := inferInstanceAs (Decidable (_ ∨ _ ∨ _))

/-- An order to move, and not onto the spot. -/
def Travels (job : Job F) : Prop :=
  let direction := job.position.sub job.target
  job.state = .move ∧ Scalar.le
    (direction.x * direction.x + direction.y * direction.y + direction.z * direction.z)
    (Scalar.lit 0.000001) = false

/-- The queue as it should be run: a job whose object is gone has no effect. -/
def drain (env : Env F) (room : Room F) : Except Crash (Room F) :=
  room.jobQueue.foldlM (fun room job => if room.Live job.objectId then room.runJob env job else .ok room)
    { room with jobQueue := [] }

/-- `ProcessJob` gets through the whole queue, and jobs whose object is gone have no effect. -/
def Robust (env : Env F) (room : Room F) : Prop :=
  ∃ room', room.processJob env = .ok room' ∧ drain env room = .ok room' ∧ room'.jobQueue = []

/--
Nothing is in the way of the jobs: none is for the id -1, which counts as no
object; none comes after one that removes its object; and there is a map if
anybody travels.
-/
structure Orderly (room : Room F) (jobs : List (Job F)) : Prop where
  id : ∀ job ∈ jobs, job.objectId ≠ -1
  order : jobs.Pairwise fun job later => job.state = .dead →
    ∀ object, room.Holds job.objectId object → later.objectId ≠ (room.heap object).id
  map : room.mapSectionData = none → ∀ job ∈ jobs, ¬ Travels job

/-! ## One job -/

/-- A job can be run: its object is there, and the map if it is needed. -/
structure Ready (room : Room F) (job : Job F) : Prop where
  id : job.objectId ≠ -1
  live : room.Live job.objectId
  map : room.mapSectionData = none → ¬ Travels job

/-- What an order leaves of a room. -/
structure After (room : Room F) (job : Job F) (room' : Room F) : Prop where
  ids : ∀ r, (room'.heap r).id = (room.heap r).id
  holds : ∀ k r, room'.Holds k r ↔ room.Holds k r ∧
    (job.state = .dead → ∀ object, room.Holds job.objectId object → k ≠ (room.heap object).id)
  jobQueue : room'.jobQueue = room.jobQueue
  mapSectionData : room'.mapSectionData = room.mapSectionData

theorem setMove_ok_iff (o : GameObject F) (aStar : AStar) (map : Option MapSectionData) (job : Job F)
    (hstate : job.state = .idle ∨ job.state = .move) :
    (∃ o', o.setMove aStar map job.state job.position job.target = .ok o')
      ↔ (map = none → ¬ Travels job) := by
  unfold GameObject.setMove Travels
  dsimp only
  split
  · rename_i hstop
    refine ⟨fun _ _ htravel => ?_, fun _ => ⟨_, rfl⟩⟩
    rcases hstop with hidle | hnear
    · rw [hidle] at htravel
      cases htravel.1
    · rw [hnear] at htravel
      cases htravel.2
  · rename_i hfar
    cases map with
    | none =>
        refine ⟨fun h => ?_, fun h => ?_⟩
        · obtain ⟨o', ho'⟩ := h
          cases ho'
        · refine absurd ⟨hstate.resolve_left fun hidle => hfar (.inl hidle), ?_⟩ (h rfl)
          exact Bool.eq_false_iff.mpr fun hnear => hfar (.inr hnear)
    | some m =>
        refine ⟨fun _ hnone => (by cases hnone), fun _ => ?_⟩
        dsimp only
        split
        · exact ⟨_, rfl⟩
        · exact ⟨_, rfl⟩

theorem runJob_ok_iff (env : Env F) {room : Room F} {job : Job F} (horder : IsOrder job) :
    (∃ room', room.runJob env job = .ok room') ↔ Ready room job := by
  constructor
  · rintro ⟨room', hok⟩
    cases runs_runJob env room job room' hok with
    | moves hid hobject hstate h =>
        exact ⟨hid, ⟨_, hobject⟩, (setMove_ok_iff _ env.aStar _ job hstate).mp ⟨_, h⟩⟩
    | attacks _ _ hstate => simp [IsOrder, hstate] at horder
    | removes hid hobject hstate =>
        refine ⟨hid, ⟨_, hobject⟩, fun _ htravel => ?_⟩
        have hdead : GameObjectState.dead = .move := hstate.symm.trans htravel.1
        cases hdead
    | spawns hstate _ => simp [IsOrder, hstate] at horder
    | mines hstate => simp [IsOrder, hstate] at horder
  · intro h
    obtain ⟨object, hobject⟩ := h.live
    have hindex := indexObject_holds hobject
    have hmove : job.state = .idle ∨ job.state = .move →
        ∃ room', room.jobSetMove env job (some object) = .ok room' := by
      intro hstate
      obtain ⟨o, ho⟩ := (setMove_ok_iff (room.heap object) env.aStar _ job hstate).mpr h.map
      exact ⟨_, bind_eq_ok.mpr ⟨o, ho, rfl⟩⟩
    unfold runJob
    rw [hindex]
    dsimp only
    rw [if_neg h.id]
    rcases horder with hstate | hstate | hstate
    · rw [hstate]
      exact hmove (.inr hstate)
    · rw [hstate]
      exact hmove (.inl hstate)
    · rw [hstate]
      exact ⟨_, rfl⟩

theorem after_runs {env : Env F} {room room' : Room F} {job : Job F} (horder : IsOrder job)
    (h : Runs env room job room') : After room job room' := by
  cases h with
  | @moves object o hid hobject hstate h =>
      have ho : o.id = (room.heap object).id := by
        cases GameObject.setsMove_setMove _ _ _ _ _ _ _ h with
        | stops => rfl
        | walks _ _ => rfl
      refine ⟨?_, fun k r => ⟨fun hr => ⟨hr, fun hdead => ?_⟩, fun hr => hr.1⟩, rfl, rfl⟩
      · intro r
        rw [heap_setObject]
        by_cases hr : r = object
        · rw [if_pos hr, ho, hr]
        · rw [if_neg hr]
      · rw [hdead] at hstate
        simp at hstate
  | attacks _ _ hstate => simp [IsOrder, hstate] at horder
  | @removes object hid hobject hstate =>
      refine ⟨fun _ => rfl, ?_, rfl, rfl⟩
      intro k r
      unfold Holds at hobject ⊢
      change (room.objects.erase (room.heap object).id)[k]? = _ ↔ _
      rw [Table.getElem?_erase]
      by_cases hk : k = (room.heap object).id
      · rw [if_pos hk]
        exact ⟨fun hr => (by cases hr), fun hr => absurd hk (hr.2 hstate object hobject)⟩
      · rw [if_neg hk]
        refine ⟨fun hr => ⟨hr, fun _ object' hobject' => ?_⟩, fun hr => hr.1⟩
        have hsame : object' = object := by simpa using hobject'.symm.trans hobject
        exact hsame ▸ hk
  | spawns hstate _ => simp [IsOrder, hstate] at horder
  | mines hstate => simp [IsOrder, hstate] at horder

/-! ## The queue -/

/-- All objects are there, and nothing is in the way. -/
structure Clear (room : Room F) (jobs : List (Job F)) : Prop extends Orderly room jobs where
  live : ∀ job ∈ jobs, room.Live job.objectId

/-- Before a job, the queue with it is clear just when the rest is clear after it. -/
theorem clear_cons_iff {room room' : Room F} {job : Job F} {jobs : List (Job F)}
    (hready : Ready room job) (hafter : After room job room') :
    Clear room (job :: jobs) ↔ Clear room' jobs := by
  constructor
  · intro h
    have hhead := (List.pairwise_cons.mp h.order).1
    refine ⟨⟨fun later hl => h.id later (List.mem_cons_of_mem job hl), ?_, ?_⟩, ?_⟩
    · refine (List.pairwise_cons.mp h.order).2.imp ?_
      intro first later hlater hdead object hobject
      rw [hafter.ids]
      exact hlater hdead object ((hafter.holds _ _).mp hobject).1
    · intro hmap later hl
      exact h.map (hafter.mapSectionData.symm.trans hmap) later (List.mem_cons_of_mem job hl)
    · intro later hl
      obtain ⟨r, hr⟩ := h.live later (List.mem_cons_of_mem job hl)
      exact ⟨r, (hafter.holds _ _).mpr ⟨hr, hhead later hl⟩⟩
  · intro h
    have hback : ∀ later ∈ jobs, ∀ r, room.Holds later.objectId r → room'.Holds later.objectId r := by
      intro later hl r hr
      obtain ⟨q, hq⟩ := h.live later hl
      have hsame : r = q := by simpa using hr.symm.trans ((hafter.holds _ _).mp hq).1
      exact hsame ▸ hq
    refine ⟨⟨?_, List.pairwise_cons.mpr ⟨?_, ?_⟩, ?_⟩, ?_⟩
    · exact List.forall_mem_cons.mpr ⟨hready.id, h.id⟩
    · intro later hl
      obtain ⟨r, hr⟩ := h.live later hl
      exact ((hafter.holds _ _).mp hr).2
    · refine h.order.imp_of_mem ?_
      intro first later hfirst _ hlater hdead object hobject
      rw [← hafter.ids]
      exact hlater hdead object (hback first hfirst object hobject)
    · intro hmap
      exact List.forall_mem_cons.mpr ⟨hready.map hmap, h.map (hafter.mapSectionData.trans hmap)⟩
    · refine List.forall_mem_cons.mpr ⟨hready.live, ?_⟩
      intro later hl
      obtain ⟨r, hr⟩ := h.live later hl
      exact ⟨r, ((hafter.holds _ _).mp hr).1⟩

/-- A queue gets through just when it is clear. -/
theorem jobs_ok_iff (env : Env F) {room : Room F} {jobs : List (Job F)}
    (horders : ∀ job ∈ jobs, IsOrder job) :
    (∃ room', jobs.foldlM (runJob env) room = .ok room') ↔ Clear room jobs := by
  induction jobs generalizing room with
  | nil => exact ⟨fun _ => ⟨⟨nofun, .nil, nofun⟩, nofun⟩, fun _ => ⟨room, rfl⟩⟩
  | cons job jobs ih =>
      have horder := horders job List.mem_cons_self
      rw [List.foldlM_cons]
      constructor
      · rintro ⟨room', hok⟩
        obtain ⟨room1, hrun, hrest⟩ := bind_eq_ok.mp hok
        have hafter := after_runs horder (runs_runJob env room job room1 hrun)
        refine (clear_cons_iff ((runJob_ok_iff env horder).mp ⟨room1, hrun⟩) hafter).mpr ?_
        exact (ih fun later hl => horders later (List.mem_cons_of_mem job hl)).mp ⟨room', hrest⟩
      · intro h
        have hready : Ready room job := ⟨h.id job List.mem_cons_self, h.live job List.mem_cons_self,
          fun hmap => h.map hmap job List.mem_cons_self⟩
        obtain ⟨room1, hrun⟩ := (runJob_ok_iff env horder).mpr hready
        have hafter := after_runs horder (runs_runJob env room job room1 hrun)
        obtain ⟨room', hrest⟩ := (ih fun later hl => horders later (List.mem_cons_of_mem job hl)).mpr
          ((clear_cons_iff hready hafter).mp h)
        exact ⟨room', bind_eq_ok.mpr ⟨room1, hrun, hrest⟩⟩

/-- A queue that gets through has not met a job whose object is gone. -/
theorem drain_eq (env : Env F) {room room' : Room F} {jobs : List (Job F)}
    (horders : ∀ job ∈ jobs, IsOrder job) (hok : jobs.foldlM (runJob env) room = .ok room') :
    jobs.foldlM (fun room job => if room.Live job.objectId then room.runJob env job else .ok room) room
      = .ok room' ∧ room'.jobQueue = room.jobQueue := by
  induction jobs generalizing room with
  | nil =>
      obtain rfl := Except.ok.inj hok
      exact ⟨rfl, rfl⟩
  | cons job jobs ih =>
      have horder := horders job List.mem_cons_self
      rw [List.foldlM_cons] at hok ⊢
      obtain ⟨room1, hrun, hrest⟩ := bind_eq_ok.mp hok
      have hready := (runJob_ok_iff env horder).mp ⟨room1, hrun⟩
      have hafter := after_runs horder (runs_runJob env room job room1 hrun)
      obtain ⟨hrest, hqueue⟩ := ih (fun later hl => horders later (List.mem_cons_of_mem job hl)) hrest
      rw [if_pos hready.live]
      exact ⟨bind_eq_ok.mpr ⟨room1, hrun, hrest⟩, hqueue.trans hafter.jobQueue⟩

/-! ## Main results -/

/--
**A queue of orders to objects that are there gets through just when it is
orderly**: then no job is run after its object is gone, and otherwise one crashes.
-/
theorem robust_iff (env : Env F) {room : Room F} (horders : ∀ job ∈ room.jobQueue, IsOrder job)
    (hlive : ∀ job ∈ room.jobQueue, room.Live job.objectId) :
    Robust env room ↔ Orderly room room.jobQueue := by
  have hclear : (∃ room', room.processJob env = .ok room')
      ↔ Clear { room with jobQueue := [] } room.jobQueue := jobs_ok_iff env horders
  constructor
  · rintro ⟨room', hok, _, _⟩
    have h := hclear.mp ⟨room', hok⟩
    exact ⟨h.id, h.order, h.map⟩
  · intro h
    obtain ⟨room', hok⟩ := hclear.mpr ⟨⟨h.id, h.order, h.map⟩, hlive⟩
    obtain ⟨hdrain, hqueue⟩ := drain_eq env horders hok
    exact ⟨room', hok, hdrain, hqueue⟩

/-- A room with one player, and a queue of orders for it. -/
def playerRoom (states : List GameObjectState) : Room ℚ :=
  { (Room.new 0 0 [] [] []).addPlayer.2 with
    jobQueue := states.map (Job.ofObject 0 Vector3.zero Vector3.zero) }

/-- The player is told to stop, and removed. -/
theorem robust_iff_stop_remove : Robust Env.still (playerRoom [.idle, .dead]) := by
  refine (robust_iff Env.still ?_ ?_).mpr ⟨?_, ?_, ?_⟩
  · decide
  · decide +kernel
  · decide
  · refine List.pairwise_cons.mpr ⟨?_, List.pairwise_singleton _ _⟩
    intro later _ hdead
    cases hdead
  · intro _ job hjob htravel
    have hstate : ∀ job ∈ (playerRoom [.idle, .dead]).jobQueue, job.state ≠ .move := by decide
    exact hstate job hjob htravel.1

/-- The player is removed, and told to stop. -/
theorem not_robust :
    (∀ job ∈ (playerRoom [.dead, .idle]).jobQueue, IsOrder job)
      ∧ (∀ job ∈ (playerRoom [.dead, .idle]).jobQueue, (playerRoom [.dead, .idle]).Live job.objectId)
      ∧ (playerRoom [.dead, .idle]).processJob Env.still = .error .nullObject
      ∧ ¬ Robust Env.still (playerRoom [.dead, .idle]) := by
  have hcrash : (playerRoom [.dead, .idle]).processJob Env.still = .error .nullObject := by
    rfl
  refine ⟨by decide, by decide +kernel, hcrash, ?_⟩
  rintro ⟨room', hok, _⟩
  rw [hcrash] at hok
  cases hok

end StarCraftIocp.JobQueue
