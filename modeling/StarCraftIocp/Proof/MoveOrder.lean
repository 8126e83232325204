import Mathlib.Analysis.Convex.Segment
import StarCraftIocp.GameServer.AStarMove
import StarCraftIocp.Lib.RealScalar
import StarCraftIocp.Proof.RoomSteps

/-!
# A move order, tick by tick

When `move` reaches a waypoint it puts the object on it, and then adds a whole step in
the direction it came from: the object passes every waypoint it comes to, or divides
zero by zero when it stands on one. So an order is carried out as it should be only
when there is no way to go.
-/

namespace StarCraftIocp

open Outcome

namespace MoveOrder

/-! ## What is asked of a tick -/

def place (o : GameObject ℝ) : ℝ × ℝ := (o.position.x, o.position.y)

def waypoint (n : Int × Int) : ℝ × ℝ := (n.1, n.2)

noncomputable def distance (p q : ℝ × ℝ) : ℝ := √((q.1 - p.1) * (q.1 - p.1) + (q.2 - p.2) * (q.2 - p.2))

/-- A tick takes `o` to `o'`, on its way to the waypoint `next`. -/
structure Straight (o o' : GameObject ℝ) (next : Int × Int) : Prop where
  /-- The distance that is divided by. -/
  apart : distance (place o) (waypoint next) ≠ 0
  /-- In a straight line, and not past the waypoint. -/
  towards : place o' ∈ segment ℝ (place o) (waypoint next)
  step : distance (place o) (place o') ≤ 0.1 * o.speed
  popped : o'.path = if place o' = waypoint next then o.path.dropLast else o.path

/-- An object that has nowhere to go stays where it is. -/
def Proper (o o' : GameObject ℝ) : Prop :=
  match o.currentState, o.path.getLast? with
  | .move, some next => Straight o o' next
  | _, _ => place o' = place o

variable (env : Nat → Env ℝ) (object : ObjRef)

/-- The room after `n` calls of the object's `Update`, with no command in between. -/
noncomputable def after (room : Room ℝ) : Nat → Except Crash (Room ℝ)
  | 0 => .ok room
  | n + 1 => do
      let room ← after room n
      let (_, room) ← room.updateObject (env n) object
      return room

/-- The order is carried out: every tick is proper, and in the end the object is idle on the
target cell. -/
def CarriedOut (target : Vector3 ℝ) (room : Room ℝ) : Prop :=
  (∀ n, ∃ r r', after env object room n = .ok r ∧ after env object room (n + 1) = .ok r' ∧
    Proper (r.heap object) (r'.heap object)) ∧
  ∃ n r, after env object room n = .ok r ∧ (r.heap object).currentState = .idle ∧
    place (r.heap object) = waypoint (Scalar.toInt target.x, Scalar.toInt target.y)

/-- The order begins where it ends: exactly on the target's cell. -/
def OnTarget (position target : Vector3 ℝ) : Prop :=
  (position.x, position.y) = waypoint (Scalar.toInt target.x, Scalar.toInt target.y)

/-- A bullet that the next tick kills. -/
def LastTick (o : GameObject ℝ) : Prop := ∃ shooter lifeTick, o.kind = .bullet shooter lifeTick ∧ lifeTick ≤ 1

/-! ## One tick -/

variable {o o' : GameObject ℝ} {next : Int × Int} {room room' : Room ℝ}

/-- How far it is to the waypoint. -/
noncomputable def way (o : GameObject ℝ) (next : Int × Int) : ℝ := distance (place o) (waypoint next)

theorem baseMove_spec (hnext : o.path.getLast? = some next) : Ensures o.baseMove fun r =>
    r.1.currentState = o.currentState ∧ r.1.kind = o.kind ∧ r.1.speed = o.speed ∧
    if way o next ≤ o.speed * 0.1 then
      r.1.path = o.path.dropLast ∧ place r.1 = waypoint next +
        (o.speed * 0.1 / way o next) • (waypoint next - place o)
    else r.1.path = o.path := by
  intro r hr
  unfold GameObject.baseMove at hr
  rw [hnext] at hr
  dsimp only at hr
  obtain ⟨packet, -, hok⟩ := bind_eq_ok.mp hr
  obtain rfl := Except.ok.inj hok
  have hdist : Scalar.sqrt (((Vector3.sub ⟨Scalar.ofInt next.1, Scalar.ofInt next.2, Scalar.lit 0⟩ o.position).x *
      (Vector3.sub ⟨Scalar.ofInt next.1, Scalar.ofInt next.2, Scalar.lit 0⟩ o.position).x : ℝ) +
      (Vector3.sub ⟨Scalar.ofInt next.1, Scalar.ofInt next.2, Scalar.lit 0⟩ o.position).y *
      (Vector3.sub ⟨Scalar.ofInt next.1, Scalar.ofInt next.2, Scalar.lit 0⟩ o.position).y) = way o next := rfl
  have htenth : (Scalar.lit 0.1 : ℝ) = 0.1 := by
    rw [LawfulScalar.lit_eq]
    norm_num
  dsimp only
  rw [hdist, htenth]
  by_cases hle : way o next ≤ o.speed * 0.1
  · have hle' : Scalar.le (way o next) (o.speed * 0.1 : ℝ) = true := (LawfulScalar.le_iff _ _).mpr hle
    rw [if_pos hle', if_pos hle]
    refine ⟨rfl, rfl, rfl, rfl, ?_⟩
    refine Prod.ext ?_ ?_
    · show (next.1 : ℝ) + (next.1 - o.position.x) / way o next * o.speed * 0.1 =
        next.1 + o.speed * 0.1 / way o next * (next.1 - o.position.x)
      ring
    · show (next.2 : ℝ) + (next.2 - o.position.y) / way o next * o.speed * 0.1 =
        next.2 + o.speed * 0.1 / way o next * (next.2 - o.position.y)
      ring
  · have hle' : ¬ Scalar.le (way o next) (o.speed * 0.1 : ℝ) = true := fun h => hle
      ((LawfulScalar.le_iff _ _).mp h)
    rw [if_neg hle', if_neg hle]
    exact ⟨rfl, rfl, rfl, rfl⟩

/-- A tick that reaches the waypoint goes past it. -/
theorem Straight.not_reached (h : Straight o o' next) (hspeed : 0 < o.speed) (c : ℝ)
    (hc : c = o.speed * 0.1 / way o next)
    (hplace : place o' = waypoint next + c • (waypoint next - place o)) : False := by
  have hway : 0 < way o next := lt_of_le_of_ne (Real.sqrt_nonneg _) (Ne.symm h.apart)
  have hpos : 0 < c := by
    rw [hc]
    positivity
  obtain ⟨a, b, ha, hb, hab, hseg⟩ := h.towards
  -- what is left of the way, counted from the waypoint, is no more than nothing
  have hzero : (a + c) • (waypoint next - place o) = 0 := by
    rw [hplace] at hseg
    have hb' : b = 1 - a := by linarith
    rw [hb'] at hseg
    have heq : waypoint next + c • (waypoint next - place o) - (a • place o + (1 - a) • waypoint next) =
        (a + c) • (waypoint next - place o) := by module
    rw [← heq, ← hseg, sub_self]
  have hsame : waypoint next - place o = 0 := (smul_eq_zero.mp hzero).resolve_left (by positivity)
  refine h.apart ?_
  rw [sub_eq_zero.mp hsame]
  simp [distance]

/-- `Bullet` counts its life down on top of that, and may end it. -/
theorem move_spec {packet : Option (Protocol.ServerMessage ℝ)} (h : o.move = .ok (o', packet)) :
    ∃ o₁ packet₁, o.baseMove = .ok (o₁, packet₁) ∧ place o' = place o₁ ∧ o'.path = o₁.path ∧
    o'.speed = o₁.speed ∧
      (o'.currentState = o₁.currentState ∨ o'.currentState = .dead) := by
  unfold GameObject.move at h
  obtain ⟨⟨o₁, packet₁⟩, hbase, hrest⟩ := bind_eq_ok.mp h
  refine ⟨o₁, packet₁, hbase, ?_⟩
  dsimp only at hrest
  split at hrest
  · obtain ⟨rfl, -⟩ := Prod.mk.inj (Except.ok.inj hrest)
    split
    · exact ⟨rfl, rfl, rfl, Or.inr rfl⟩
    · exact ⟨rfl, rfl, rfl, Or.inl rfl⟩
  · obtain ⟨rfl, -⟩ := Prod.mk.inj (Except.ok.inj hrest)
    exact ⟨rfl, rfl, rfl, Or.inl rfl⟩

/-- A proper tick on the way stops before the waypoint. -/
theorem move_on_the_way {packet : Option (Protocol.ServerMessage ℝ)} (hspeed : 0 < o.speed)
    (hnext : o.path.getLast? = some next) (h : o.move = .ok (o', packet)) (hstraight : Straight o o' next) :
    o'.path = o.path ∧ o'.speed = o.speed ∧ (o'.currentState = o.currentState ∨ o'.currentState = .dead) := by
  obtain ⟨o₁, packet₁, hbase, hplace, hpath, hspeed', hstate⟩ := move_spec h
  obtain ⟨hstate₁, -, hspeed₁, hreach⟩ := baseMove_spec hnext _ hbase
  by_cases hle : way o next ≤ o.speed * 0.1
  · rw [if_pos hle] at hreach
    exact (hstraight.not_reached hspeed _ rfl (hplace.trans hreach.2)).elim
  · rw [if_neg hle] at hreach
    rw [hpath, hspeed', hreach, hspeed₁]
    rw [hstate₁] at hstate
    exact ⟨rfl, rfl, hstate⟩

/-- Without a way the object becomes idle, unless its life is over. -/
theorem move_nowhere (hpath : o.path = []) : ∃ o' packet, o.move = .ok (o', packet) ∧ place o' = place o ∧
    (LastTick o → o'.currentState = .dead) ∧ (¬ LastTick o → o'.currentState = .idle) := by
  have hbase : o.baseMove = .ok ({ o with currentState := .idle }, none) := by
    unfold GameObject.baseMove
    rw [hpath]
    rfl
  unfold GameObject.move
  rw [hbase, ok_bind]
  dsimp only
  cases hkind : o.kind with
  | bullet shooter lifeTick =>
      refine ⟨_, _, rfl, ?_, ?_, ?_⟩
      · split <;> rfl
      · intro hends
        rcases hends with ⟨_, _, heq, hle⟩
        obtain ⟨rfl, rfl⟩ := GameObjectKind.bullet.inj (hkind.symm.trans heq)
        rw [if_pos (by omega)]
        rfl
      · intro hlast
        have hgt : ¬ lifeTick - 1 ≤ 0 := fun hle => hlast ⟨shooter, lifeTick, hkind, by omega⟩
        rw [if_neg hgt]
  | player | unit _ | mineral | gas =>
      refine ⟨_, _, rfl, rfl, ?_, fun _ => rfl⟩
      intro hends
      rcases hends with ⟨_, _, heq, -⟩
      rw [hkind] at heq
      cases heq

/-! ## All ticks -/

theorem heap_updateObject {env : Env ℝ} {object : ObjRef} {packet : Option (Protocol.ServerMessage ℝ)}
    (h : room.updateObject env object = .ok (packet, room')) :
    ((room.heap object).currentState = .move → (room.heap object).move = .ok (room'.heap object, packet)) ∧
    ((room.heap object).currentState = .idle ∨ (room.heap object).currentState = .dead →
      room'.heap object = room.heap object) := by
  unfold Room.updateObject at h
  dsimp only at h
  refine ⟨?_, ?_⟩
  · intro hstate
    rw [hstate] at h
    obtain ⟨⟨o', packet'⟩, hmove, hok⟩ := bind_eq_ok.mp h
    obtain ⟨rfl, rfl⟩ := Prod.mk.inj (Except.ok.inj hok)
    rw [Room.heap_setObject, if_pos rfl]
    exact hmove
  · intro hstate
    rcases hstate with hstate | hstate
    · rw [hstate] at h
      obtain ⟨-, rfl⟩ := Prod.mk.inj (Except.ok.inj h)
      rfl
    · rw [hstate] at h
      obtain ⟨packet', -, hok⟩ := bind_eq_ok.mp h
      obtain ⟨-, rfl⟩ := Prod.mk.inj (Except.ok.inj hok)
      rfl

variable {env : Nat → Env ℝ} {object : ObjRef} {n : Nat}

theorem after_succ (h : after env object room (n + 1) = .ok room') :
    ∃ r packet, after env object room n = .ok r ∧ r.updateObject (env n) object = .ok (packet, room') := by
  obtain ⟨r, hr, hrest⟩ := bind_eq_ok.mp h
  obtain ⟨⟨packet, r'⟩, hupdate, hok⟩ := bind_eq_ok.mp hrest
  obtain rfl := Except.ok.inj hok
  exact ⟨r, packet, hr, hupdate⟩

/-- As long as every tick is proper, an object that has a way to go keeps it. -/
theorem on_the_way (hproper : ∀ n, ∃ r r', after env object room n = .ok r ∧
    after env object room (n + 1) = .ok r' ∧
    Proper (r.heap object) (r'.heap object)) (hspeed : 0 < (room.heap object).speed)
    (hstate : (room.heap object).currentState = .move) (hpath : (room.heap object).path ≠ []) {r : Room ℝ}
    (hr : after env object room n = .ok r) : 0 < (r.heap object).speed ∧ (r.heap object).path ≠ [] ∧
      ((r.heap object).currentState = .move ∨ (r.heap object).currentState = .dead) := by
  induction n generalizing r with
  | zero =>
      obtain rfl := Except.ok.inj hr
      exact ⟨hspeed, hpath, Or.inl hstate⟩
  | succ n ih =>
      obtain ⟨r₀, packet, hr₀, hupdate⟩ := after_succ hr
      obtain ⟨hspeed₀, hpath₀, hstate₀⟩ := ih hr₀
      obtain ⟨r₁, r₂, hr₁, hr₂, htick⟩ := hproper n
      obtain rfl := Except.ok.inj (hr₀.symm.trans hr₁)
      obtain rfl := Except.ok.inj (hr.symm.trans hr₂)
      rcases hstate₀ with hmove | hdead
      · have hok := (heap_updateObject hupdate).1 hmove
        cases hnext : (r₀.heap object).path.getLast? with
        | none => exact absurd (List.getLast?_eq_none_iff.mp hnext) hpath₀
        | some next =>
            unfold Proper at htick
            rw [hmove, hnext] at htick
            obtain ⟨hpath₁, hspeed₁, hstate₁⟩ := move_on_the_way hspeed₀ hnext hok htick
            rw [hpath₁, hspeed₁]
            rw [hmove] at hstate₁
            exact ⟨hspeed₀, hpath₀, hstate₁⟩
      · -- a bullet whose life is over stays where it is, with its way before it
        rw [(heap_updateObject hupdate).2 (Or.inr hdead)]
        exact ⟨hspeed₀, hpath₀, Or.inr hdead⟩

/-- So it never comes to rest. -/
theorem not_carriedOut_of_path {target : Vector3 ℝ} (hspeed : 0 < (room.heap object).speed)
    (hstate : (room.heap object).currentState = .move) (hpath : (room.heap object).path ≠ []) :
    ¬ CarriedOut env object target room := by
  intro hdone
  rcases hdone with ⟨hproper, n, r, hr, hidle, -⟩
  rcases (on_the_way hproper hspeed hstate hpath hr).2.2 with hmove | hdead
  · rw [hmove] at hidle
    cases hidle
  · rw [hdead] at hidle
    cases hidle

/-- An object that is idle or dead stays what it is. -/
theorem after_settled {r₁ : Room ℝ} (h₁ : after env object room 1 = .ok r₁)
    (hstate : (r₁.heap object).currentState = .idle ∨ (r₁.heap object).currentState = .dead) {r : Room ℝ}
    (hr : after env object room (n + 1) = .ok r) : r.heap object = r₁.heap object := by
  induction n generalizing r with
  | zero =>
      obtain rfl := Except.ok.inj (h₁.symm.trans hr)
      rfl
  | succ n ih =>
      obtain ⟨r₀, packet, hr₀, hupdate⟩ := after_succ hr
      have hsame := ih hr₀
      rw [← hsame] at hstate
      rw [(heap_updateObject hupdate).2 hstate, hsame]

/-- Without a way, the order is carried out when the object stands on the target cell, and lives on. -/
theorem carriedOut_nowhere {target : Vector3 ℝ} (hstate : (room.heap object).currentState = .move)
    (hpath : (room.heap object).path = []) : CarriedOut env object target room ↔
      place (room.heap object) = waypoint (Scalar.toInt target.x, Scalar.toInt target.y) ∧
        ¬ LastTick (room.heap object) := by
  obtain ⟨o', packet, hmove, hplace, hlast, hidle⟩ := move_nowhere hpath
  have h₁ : after env object room 1 = .ok (room.setObject object o') := by
    unfold after after
    rw [ok_bind]
    unfold Room.updateObject
    dsimp only
    rw [hstate]
    dsimp only
    rw [hmove]
    rfl
  have hheap : (room.setObject object o').heap object = o' := (Room.heap_setObject ..).trans (if_pos rfl)
  refine ⟨?_, ?_⟩
  · intro hdone
    rcases hdone with ⟨-, n, r, hr, hrest, hthere⟩
    cases n with
    | zero =>
        obtain rfl := Except.ok.inj hr
        rw [hstate] at hrest
        cases hrest
    | succ n =>
        -- after the first tick nothing changes any more
        by_cases hl : LastTick (room.heap object)
        · have hdead := hlast hl
          rw [after_settled h₁ (Or.inr (by rw [hheap]; exact hdead)) hr, hheap, hdead] at hrest
          cases hrest
        · rw [after_settled h₁ (Or.inl (by rw [hheap]; exact hidle hl)) hr, hheap, hplace] at hthere
          exact ⟨hthere, hl⟩
  · intro hdone
    rcases hdone with ⟨hthere, hl⟩
    have hrest : ((room.setObject object o').heap object).currentState = .idle := by
      rw [hheap]
      exact hidle hl
    have hall : ∀ n, after env object room (n + 1) = .ok (room.setObject object o') := by
      intro n
      induction n with
      | zero => exact h₁
      | succ n ih =>
          unfold after
          rw [ih, ok_bind]
          unfold Room.updateObject
          dsimp only
          rw [hrest]
          rfl
    refine ⟨?_, 1, _, h₁, hrest, by rw [hheap, hplace]; exact hthere⟩
    intro n
    cases n with
    | zero =>
        refine ⟨room, _, rfl, h₁, ?_⟩
        unfold Proper
        rw [hstate, hpath, hheap]
        exact hplace
    | succ n =>
        refine ⟨_, _, hall n, hall (n + 1), ?_⟩
        unfold Proper
        rw [hrest]

/-! ## Orders -/

/-- From a cell to itself there is nothing but the cell. -/
theorem search_self {behind : Int → Nat} {queue : PriorityQueue (Node ℝ) AStarMove.compare} {fuel : Nat}
    {map : MapSectionData} {x y : Int} {out : List (Int × Int)}
    (h : AStarMove.search behind queue fuel map x y x y = some out) : out = [(x, y)] := by
  unfold AStarMove.search AStarMove.aStar at h
  cases fuel with
  | zero => cases h
  | succ fuel =>
      unfold AStarMove.searchLoop AStarMove.start at h
      rw [queue.pop_singleton] at h
      dsimp only at h
      rw [if_pos ⟨rfl, rfl⟩] at h
      cases fuel with
      | zero => cases h
      | succ fuel =>
          simp only [AStarMove.walkBack, Function.update_self, Traced.value_pure] at h
          exact (Option.some.inj h).symm

/-- What an order that found a path makes of an object. -/
theorem setMove_found {aStar : AStar} {map : Option MapSectionData} {position target : Vector3 ℝ}
    (hset : o.setMove aStar map .move position target = .ok o') (hfound : o'.currentState = .move) :
    ∃ m path, aStar m (Scalar.toInt position.x) (Scalar.toInt position.y) (Scalar.toInt target.x)
      (Scalar.toInt target.y) = some path ∧ o'.path = path.dropLast ∧ o'.position = position ∧
      o'.speed = o.speed ∧
        o'.kind = o.kind := by
  cases GameObject.setsMove_setMove _ _ _ _ _ _ _ hset with
  | stops => cases hfound
  | walks hmap hpath => exact ⟨_, _, hpath, rfl, rfl, rfl, rfl⟩

/--
**A move order is carried out only when there is nothing to do**: an order that found a
path is carried out, tick by tick, if and only if the object stands exactly on the
target's cell already, and is no bullet in its last tick.
-/
theorem carriedOut_iff {behind : Int → Nat} {queue : PriorityQueue (Node ℝ) AStarMove.compare} {fuel : Nat}
    {map : Option MapSectionData} {position target : Vector3 ℝ} (hspeed : 0 < o.speed)
    (hset : o.setMove (AStarMove.search behind queue fuel) map .move position target = .ok o')
    (hfound : o'.currentState = .move) (env : Nat → Env ℝ) (hobject : room.heap object = o') :
    CarriedOut env object target room ↔ OnTarget position target ∧ ¬ LastTick o := by
  obtain ⟨m, path, hpath, hway, hposition, hspeed', hkind⟩ := setMove_found hset hfound
  have hplace : place o' = (position.x, position.y) := by
    unfold place
    rw [hposition]
  have hlast : LastTick o' ↔ LastTick o := by
    unfold LastTick
    rw [hkind]
  subst hobject
  by_cases hnone : (room.heap object).path = []
  · rw [carriedOut_nowhere hfound hnone, hplace, hlast]
    rfl
  · refine ⟨fun h => absurd h (not_carriedOut_of_path (by rw [hspeed']; exact hspeed) hfound hnone), ?_⟩
    intro hdone
    rcases hdone with ⟨htarget, -⟩
    -- then the search begins and ends on one cell
    obtain ⟨hx, hy⟩ := Prod.mk.inj htarget
    have hx' : Scalar.toInt position.x = Scalar.toInt target.x := by rw [hx, LawfulScalar.toInt_intCast]
    have hy' : Scalar.toInt position.y = Scalar.toInt target.y := by rw [hy, LawfulScalar.toInt_intCast]
    rw [hx', hy'] at hpath
    rw [search_self hpath] at hway
    exact absurd hway hnone

/-! ### On a map of two cells -/

noncomputable def still : Env ℝ where
  now := 0
  elapsed := 0
  aStar := fun _ _ _ _ _ => none
  shuffled := Env.still.shuffled
  uninit :=
    { attackRange := 0, attackCooldown := 0, lastAttackTime := 0, ad := 0, ranged := false,
      directTarget := none }
  shuffled_perm := Env.still.shuffled_perm

def twoCells : MapSectionData := { mapWidth := 2, mapHeight := 1, height := [1, 1], playerPos := [] }

/-- A player on the first of two cells. -/
noncomputable def somebody : GameObject ℝ := GameObject.player 0 ⟨0, 0, 0⟩

theorem somebody_speed : 0 < somebody.speed := by
  show (0 : ℝ) < ((0.1 : ℚ) : ℝ)
  norm_num

/-- The search, on exact numbers. -/
noncomputable def searching : AStar := AStarMove.search (F := ℝ) (fun _ => 0) (.scan _) 4

theorem toInt_zero : Scalar.toInt (0 : ℝ) = 0 := by exact_mod_cast LawfulScalar.toInt_intCast 0

/-- The order to move on the first row, beyond the first cell or not. -/
theorem setMove_somebody {x : ℝ} (hx : 0.01 < x) {n : Int} (hn : Scalar.toInt x = n) (path : List (Int × Int))
    (hpath : searching twoCells 0 0 n 0 = some path) :
    somebody.setMove searching (some twoCells) .move ⟨0, 0, 0⟩ ⟨x, 0, 0⟩ =
      .ok { somebody with position := ⟨0, 0, 0⟩, path := path.dropLast, currentState := .move } := by
  have hfar : ¬ Scalar.le ((0 - x) * (0 - x) + (0 - 0) * (0 - 0) + (0 - 0) * (0 - 0) : ℝ)
    (Scalar.lit 0.000001) = true := by
    rw [LawfulScalar.le_iff, LawfulScalar.lit_eq]
    push_cast
    nlinarith
  have hcond : ¬ (GameObjectState.move = .idle ∨
      Scalar.le ((0 - x) * (0 - x) + (0 - 0) * (0 - 0) + (0 - 0) * (0 - 0) : ℝ)
        (Scalar.lit 0.000001) = true) :=
    not_or.mpr ⟨by decide, hfar⟩
  unfold GameObject.setMove
  dsimp only
  refine (if_neg hcond).trans ?_
  rw [toInt_zero, hn, hpath]

/-- Half a cell further the object stands where it is to go. -/
theorem carriedOut_iff_halfCell : ∃ o', somebody.setMove searching (some twoCells) .move ⟨0, 0, 0⟩ ⟨0.5, 0, 0⟩ = .ok o'
    ∧ o'.currentState = .move
    ∧ CarriedOut (fun _ => still) 0 ⟨0.5, 0, 0⟩ ((Room.new 0 0 [] [] []).setObject 0 o') := by
  have hfloor : Scalar.toInt (0.5 : ℝ) = 0 := by
    show (if (0 : ℝ) ≤ 0.5 then ⌊(0.5 : ℝ)⌋ else ⌈(0.5 : ℝ)⌉) = 0
    norm_num
  have hset := setMove_somebody (by norm_num) hfloor [(0, 0)] rfl
  refine ⟨_, hset, rfl, (carriedOut_iff somebody_speed hset rfl _
    ((Room.heap_setObject ..).trans (if_pos rfl))).mpr ?_⟩
  refine ⟨?_, ?_⟩
  · show ((0 : ℝ), (0 : ℝ)) = ((Scalar.toInt (0.5 : ℝ) : ℝ), (Scalar.toInt (0 : ℝ) : ℝ))
    rw [hfloor, toInt_zero, Int.cast_zero]
  · intro hends
    rcases hends with ⟨_, _, heq, -⟩
    cases heq

/-- On the way to the other cell the object steps over it. -/
theorem not_carriedOut : ∃ o', somebody.setMove searching (some twoCells) .move ⟨0, 0, 0⟩ ⟨1, 0, 0⟩ = .ok o'
    ∧ o'.currentState = .move
    ∧ ¬ CarriedOut (fun _ => still) 0 ⟨1, 0, 0⟩ ((Room.new 0 0 [] [] []).setObject 0 o') := by
  have hone : Scalar.toInt (1 : ℝ) = 1 := by exact_mod_cast LawfulScalar.toInt_intCast 1
  have hset := setMove_somebody (by norm_num) hone [(1, 0), (0, 0)] rfl
  refine ⟨_, hset, rfl, ?_⟩
  refine not_carriedOut_of_path ?_ ?_ ?_
  · rw [Room.heap_setObject, if_pos rfl]
    exact somebody_speed
  · rw [Room.heap_setObject, if_pos rfl]
  · rw [Room.heap_setObject, if_pos rfl]
    exact List.cons_ne_nil _ _

end MoveOrder

end StarCraftIocp
