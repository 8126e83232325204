import StarCraftIocp.Proof.PathCost

/-!
# The path search finds a shortest path

The labels of the search are the nodes of `cameFrom`. A cell that is not closed has
its node in the open list; that of a closed cell has been looked at from. So the first
cell of a shortest path that is not closed waits with a node as good as the path, and
the end does not come out of the queue before it unless it is reached as cheaply. Each
turn of the loop makes a label better or the open list shorter, so there are finitely
many.
-/

namespace StarCraftIocp.AStarMove

variable {behind : Int → Nat} {map : MapSectionData} {root goal : Int × Int}

/-! ## The labels -/

/-- What `cameFrom` says of a cell: what the best path so far costs, and the cell before. -/
def entries (s : Search ℚ) (c : Int × Int) : Option (ℚ × Option (Int × Int)) :=
  (s.cameFrom c).map fun e => (e.g, e.parent)

theorem entries_eq_some {s : Search ℚ} {c : Int × Int} {e : Node ℚ} (h : s.cameFrom c = some e) :
    entries s c = some (e.g, e.parent) := by
  unfold entries
  rw [h]
  rfl

theorem cameFrom_of_entries {s : Search ℚ} {c : Int × Int} {g : ℚ} {p : Option (Int × Int)}
    (h : entries s c = some (g, p)) : ∃ e, s.cameFrom c = some e ∧ e.g = g ∧ e.parent = p := by
  obtain ⟨e, he, heq⟩ := Option.map_eq_some_iff.mp h
  obtain ⟨rfl, rfl⟩ := Prod.mk.inj heq
  exact ⟨e, he, rfl, rfl⟩

theorem walkBack_eq (s : Search ℚ) (fuel : ℕ) (c : Int × Int) :
    walkBack s.cameFrom fuel c = traceBack (entries s) fuel c := by
  induction fuel generalizing c with
  | zero => rfl
  | succ fuel ih =>
      unfold walkBack traceBack
      cases he : s.cameFrom c with
      | none =>
          rw [show entries s c = none from Option.map_eq_none_iff.mpr he]
      | some e =>
          rw [entries_eq_some he]
          dsimp only
          cases e.parent with
          | none => rfl
          | some p =>
              dsimp only
              rw [ih]

/--
What holds of the search at the head of its loop; while a cell is looked at from,
`waived` are the steps not yet taken.
-/
structure Searched (behind : Int → Nat) (map : MapSectionData) (root goal : Int × Int)
    (waived : Int × Int → Int × Int → Prop) (s : Search ℚ) : Prop where
  linked : Linked (Steps behind map) stepCost root (entries s)
  relaxed : Relaxed (Steps behind map) stepCost waived (fun c => s.closedList c = true) (entries s)
  node : ∀ c e, s.cameFrom c = some e → (e.x, e.y) = c ∧ Exact goal e
  waits : ∀ n ∈ s.openList, Exact goal n ∧ ∃ e, s.cameFrom (n.x, n.y) = some e ∧ e.g ≤ n.g
  waiting : ∀ c e, s.cameFrom c = some e → s.closedList c = false → e ∈ s.openList
  goal : s.closedList goal = false

/-- The node that the search makes for a neighbour. -/
def neighborNode (goal : Int × Int) (current : Node ℚ) (d : Int × Int × ℚ) : Node ℚ where
  x := current.x + d.1
  y := current.y + d.2.1
  g := current.g + d.2.2
  h := heuristic (current.x + d.1) (current.y + d.2.1) goal.1 goal.2
  f := current.g + d.2.2 + heuristic (current.x + d.1) (current.y + d.2.1) goal.1 goal.2
  parent := some (current.x, current.y)

/-- A node is put in place of the one before it. -/
def put (n : Node ℚ) (s : Search ℚ) : Search ℚ where
  openList := n :: s.openList
  closedList := Function.update s.closedList (n.x, n.y) false
  cameFrom := Function.update s.cameFrom (n.x, n.y) (some n)

theorem value_visit (current : Node ℚ) (s : Search ℚ) (d : Int × Int × ℚ) :
    (visit behind map goal.1 goal.2 current s d).value =
      if (canMove behind map current.x current.y (current.x + d.1) (current.y + d.2.1)).value = true then
        if better s.cameFrom (current.x + d.1) (current.y + d.2.1) (current.g + d.2.2) = true then
          put (neighborNode goal current d) s
        else s
      else s := by
  unfold visit
  rw [Traced.value_bind]
  by_cases hmove : (canMove behind map current.x current.y (current.x + d.1) (current.y + d.2.1)).value = true
  · rw [if_pos hmove, if_pos hmove]
    by_cases hbetter : better s.cameFrom (current.x + d.1) (current.y + d.2.1) (current.g + d.2.2) = true
    · rw [if_pos hbetter]
      exact congrArg Traced.value (if_pos hbetter)
    · rw [if_neg hbetter]
      exact congrArg Traced.value (if_neg hbetter)
  · rw [if_neg hmove, if_neg hmove]
    rfl

theorem cameFrom_put (s : Search ℚ) (n : Node ℚ) : (put n s).cameFrom (n.x, n.y) = some n :=
  Function.update_self ..

theorem cameFrom_put_of_ne (s : Search ℚ) {n : Node ℚ} {c : Int × Int} (hc : c ≠ (n.x, n.y)) :
    (put n s).cameFrom c = s.cameFrom c := Function.update_of_ne hc ..

theorem entries_put (s : Search ℚ) (n : Node ℚ) :
    entries (put n s) = Function.update (entries s) (n.x, n.y) (some (n.g, n.parent)) := by
  funext c
  by_cases hc : c = (n.x, n.y)
  · subst hc
    rw [Function.update_self, entries_eq_some (cameFrom_put s n)]
  · rw [Function.update_of_ne hc]
    exact congrArg (Option.map _) (cameFrom_put_of_ne s hc)

/-- Among exact numbers the tolerance makes no difference. -/
theorem better_iff {s : Search ℚ} {c : Int × Int} {g : ℚ} (hg : Fifths g)
    (hentry : ∀ e, s.cameFrom c = some e → Fifths e.g) :
    better s.cameFrom c.1 c.2 g = true ↔ ∀ e, s.cameFrom c = some e → g < e.g := by
  unfold better
  rw [Prod.mk.eta]
  cases he : s.cameFrom c with
  | none => exact ⟨fun _ _ h => (nomatch h), fun _ => rfl⟩
  | some e =>
      change decide (g < e.g - 0.000001) = true ↔ _
      rw [decide_eq_true_iff]
      constructor
      · intro hlt e' he'
        obtain rfl := Option.some.inj he'
        linarith
      · intro hall
        have := ((hentry e he).sub hg).lt_of_pos (sub_pos.mpr (hall e rfl))
        linarith

/-! ## The labels of a search -/

namespace Searched

variable {waived : Int × Int → Int × Int → Prop} {s : Search ℚ}

/-- A better node for a cell next to one with a label. -/
theorem put (h : Searched behind map root goal waived s) {n : Node ℚ} (hexact : Exact goal n) {a : Int × Int}
    (hparent : n.parent = some a) (hstep : Steps behind map a (n.x, n.y)) {e : Node ℚ}
    (ha : s.cameFrom a = some e)
    (hle : e.g + stepCost a (n.x, n.y) ≤ n.g) (hbetter : ∀ e, s.cameFrom (n.x, n.y) = some e → n.g < e.g) :
    Searched behind map root goal waived (put n s) := by
  have hlabel : ∀ g p, entries s (n.x, n.y) = some (g, p) → n.g < g := by
    intro g p hentry
    obtain ⟨e, he, rfl, _⟩ := cameFrom_of_entries hentry
    exact hbetter e he
  have hold : ∀ {c e}, c ≠ (n.x, n.y) → (AStarMove.put n s).cameFrom c = some e → s.cameFrom c = some e := by
    intro c e hc he
    exact (cameFrom_put_of_ne s hc).symm.trans he
  have hnew : ∀ {e}, (AStarMove.put n s).cameFrom (n.x, n.y) = some e → e = n := by
    intro e he
    exact Option.some.inj (he.symm.trans (cameFrom_put s n))
  refine ⟨?_, ?_, ?_, ?_, ?_, ?_⟩
  · rw [entries_put, hparent]
    exact h.linked.relax (fun a b _ => zero_lt_one.trans_le (one_le_stepCost a b)) hstep
      (entries_eq_some ha) hle
      hlabel
  · have hclosed : (fun c => (AStarMove.put n s).closedList c = true)
        = fun c => c ≠ (n.x, n.y) ∧ s.closedList c = true := by
      funext c
      by_cases hc : c = (n.x, n.y)
      · subst hc
        simp [AStarMove.put]
      · simp [AStarMove.put, hc]
    rw [entries_put, hclosed]
    exact h.relaxed.relax hlabel
  · intro c e he
    by_cases hc : c = (n.x, n.y)
    · subst hc
      obtain rfl := hnew he
      exact ⟨rfl, hexact⟩
    · exact h.node c e (hold hc he)
  · intro m hm
    rcases List.mem_cons.mp hm with rfl | hm
    · exact ⟨hexact, m, cameFrom_put s m, le_refl _⟩
    · obtain ⟨hm, e, he, hle⟩ := h.waits m hm
      refine ⟨hm, ?_⟩
      by_cases hc : (m.x, m.y) = (n.x, n.y)
      · rw [hc] at he ⊢
        exact ⟨n, cameFrom_put s n, (hbetter e he).le.trans hle⟩
      · exact ⟨e, (cameFrom_put_of_ne s hc).trans he, hle⟩
  · intro c e he hclosed
    by_cases hc : c = (n.x, n.y)
    · subst hc
      obtain rfl := hnew he
      exact List.mem_cons_self
    · exact List.mem_cons_of_mem n (h.waiting c e (hold hc he)
        ((Function.update_of_ne hc ..).symm.trans hclosed))
  · by_cases hc : goal = (n.x, n.y)
    · rw [hc]
      exact Function.update_self ..
    · exact (Function.update_of_ne hc ..).trans h.goal

end Searched

/-- The cells that can get a label. -/
noncomputable def cells (map : MapSectionData) (root : Int × Int) : Finset (Int × Int) :=
  insert root (Finset.Ico 0 map.mapWidth ×ˢ Finset.Ico 0 map.mapHeight)

/-- What is left to find out about them. -/
noncomputable def left (map : MapSectionData) (root : Int × Int) (s : Search ℚ) : ℕ ×ₗ ℕ :=
  remaining (cells map root) fun c => (s.cameFrom c).map fun e => ⌊5 * e.g⌋.toNat

theorem mem_cells_of_steps {a c : Int × Int} (h : Steps behind map a c) : c ∈ cells map root := by
  obtain ⟨_, _, _, hmove⟩ := h
  obtain ⟨hx, hy, hw, hh⟩ := inBounds_of_canMove behind map hmove
  exact Finset.mem_insert_of_mem (Finset.mem_product.mpr
    ⟨Finset.mem_Ico.mpr ⟨hx, hw⟩, Finset.mem_Ico.mpr ⟨hy, hh⟩⟩)

namespace Searched

variable {waived : Int × Int → Int × Int → Prop} {s : Search ℚ}

theorem left_put (h : Searched behind map root goal waived s) {n : Node ℚ} (hexact : Exact goal n)
    (hpos : 0 ≤ n.g)
    (hcell : (n.x, n.y) ∈ cells map root) (hbetter : ∀ e, s.cameFrom (n.x, n.y) = some e → n.g < e.g) :
    left map root (AStarMove.put n s) < left map root s := by
  have hdist : (fun c => ((AStarMove.put n s).cameFrom c).map fun e => ⌊5 * e.g⌋.toNat)
      = Function.update (fun c => (s.cameFrom c).map fun e => ⌊5 * e.g⌋.toNat) (n.x, n.y)
        (some ⌊5 * n.g⌋.toNat) := by
    funext c
    by_cases hc : c = (n.x, n.y)
    · subst hc
      rw [Function.update_self]
      exact congrArg (Option.map _) (cameFrom_put s n)
    · rw [Function.update_of_ne hc]
      exact congrArg (Option.map _) (cameFrom_put_of_ne s hc)
  unfold left
  rw [hdist]
  refine remaining_update_lt hcell ?_
  intro m hm
  obtain ⟨e, he, rfl⟩ := Option.map_eq_some_iff.mp hm
  exact hexact.g.floor_lt_floor (h.node _ e he).2.g hpos (hbetter e he)

/-- An edge that was still to be relaxed is, or is none. -/
theorem settle (h : Searched behind map root goal waived s) {waived' : Int × Int → Int × Int → Prop}
    {a b : Int × Int}
    {e : Node ℚ} (he : s.cameFrom a = some e)
    (hwaived : ∀ a' b', waived a' b' → ¬ waived' a' b' → a' = a ∧ b' = b)
    (hedge : Steps behind map a b → ∃ e', s.cameFrom b = some e' ∧ e'.g ≤ e.g + stepCost a b) :
    Searched behind map root goal waived' s := by
  refine { h with relaxed := h.relaxed.discharge ?_ }
  intro a' b' g p hab hnot ha hstep
  obtain ⟨rfl, rfl⟩ := hwaived a' b' hab hnot
  rw [entries_eq_some he] at ha
  obtain ⟨rfl, -⟩ := Prod.mk.inj (Option.some.inj ha)
  obtain ⟨e', he', hle⟩ := hedge hstep
  exact ⟨_, _, entries_eq_some he', hle⟩

/-- One direction is looked at from a closed cell. -/
theorem visit (h : Searched behind map root goal waived s) {current : Node ℚ} (hexact : Exact goal current)
    {e : Node ℚ} (he : s.cameFrom (current.x, current.y) = some e) (heg : e.g = current.g) {d : Int × Int × ℚ}
    (hd : d ∈ directions) (waived' : Int × Int → Int × Int → Prop)
    (hwaived : ∀ a b, waived a b → ¬ waived' a b →
      a = (current.x, current.y) ∧ b = (current.x + d.1, current.y + d.2.1)) :
    Searched behind map root goal waived' (visit behind map goal.1 goal.2 current s d).value ∧
      (visit behind map goal.1 goal.2 current s d).value.cameFrom (current.x, current.y) = some e ∧
      ((visit behind map goal.1 goal.2 current s d).value = s ∨
        left map root (visit behind map goal.1 goal.2 current s d).value < left map root s) := by
  have hcost : stepCost (current.x, current.y) (current.x + d.1, current.y + d.2.1) = d.2.2 :=
    stepCost_direction hd (current.x, current.y)
  have hg : Fifths (current.g + d.2.2) := hexact.g.add (.of_mem_directions hd)
  have hbetter := better_iff (s := s) (c := (current.x + d.1, current.y + d.2.1)) hg
    fun e he => (h.node _ e he).2.g
  have hpos : 0 ≤ current.g := heg ▸ h.linked.nonneg (entries_eq_some he)
  rw [value_visit]
  split
  · next hmove =>
    have hstep : Steps behind map (current.x, current.y) (current.x + d.1, current.y + d.2.1) :=
      ⟨d, hd, rfl, hmove⟩
    split
    · next hput =>
      have hput := hbetter.mp hput
      have hnode : Exact goal (neighborNode goal current d) := ⟨hg, rfl, rfl⟩
      have hnext := h.put hnode rfl hstep he (heg ▸ (congrArg (current.g + ·) hcost).le) hput
      have hne : (current.x, current.y) ≠ (current.x + d.1, current.y + d.2.1) := by
        intro heq
        have hlt := hput e (heq ▸ he)
        have := one_le_stepCost (current.x, current.y) (current.x + d.1, current.y + d.2.1)
        linarith
      have hcame : (AStarMove.put (neighborNode goal current d) s).cameFrom (current.x, current.y) = some e :=
        (cameFrom_put_of_ne s hne).trans he
      refine ⟨hnext.settle hcame hwaived ?_, hcame, .inr ?_⟩
      · intro _
        refine ⟨_, cameFrom_put s (neighborNode goal current d), ?_⟩
        rw [heg, hcost]
        exact le_refl _
      · refine h.left_put hnode (add_nonneg hpos ?_) (mem_cells_of_steps hstep) hput
        rw [← hcost]
        exact zero_le_one.trans (one_le_stepCost ..)
    · -- the neighbour is labelled as low as that already
      next hput =>
      refine ⟨h.settle he hwaived ?_, he, .inl rfl⟩
      intro _
      rw [hbetter] at hput
      push Not at hput
      rw [heg, hcost]
      exact hput
  · next hmove =>
    refine ⟨h.settle he hwaived ?_, he, .inl rfl⟩
    intro hstep
    obtain ⟨_, _, _, hallowed⟩ := hstep
    exact absurd hallowed hmove

/-- All directions are looked at. -/
theorem foldlM_visit {current : Node ℚ} (hexact : Exact goal current) {e : Node ℚ} (heg : e.g = current.g)
    {ds : List (Int × Int × ℚ)} (hds : ∀ d ∈ ds, d ∈ directions) (h : Searched behind map root goal
      (fun a b => a = (current.x, current.y) ∧ ∃ d ∈ ds, b = (current.x + d.1, current.y + d.2.1)) s)
    (he : s.cameFrom (current.x, current.y) = some e) :
    Searched behind map root goal (fun _ _ => False)
        (ds.foldlM (AStarMove.visit behind map goal.1 goal.2 current) s).value ∧
      ((ds.foldlM (AStarMove.visit behind map goal.1 goal.2 current) s).value = s ∨
        left map root (ds.foldlM (AStarMove.visit behind map goal.1 goal.2 current) s).value < left map root s) := by
  induction ds generalizing s with
  | nil =>
      refine ⟨{ h with relaxed := h.relaxed.discharge ?_ }, .inl rfl⟩
      intro a b g p hab
      obtain ⟨_, d, hd, _⟩ := hab
      cases hd
  | cons d ds ih =>
      obtain ⟨hnext, he', hleft⟩ := h.visit hexact he heg (hds d List.mem_cons_self)
        (fun a b => a = (current.x, current.y) ∧ ∃ d ∈ ds, b = (current.x + d.1, current.y + d.2.1)) (by
          intro a b hab hnot
          obtain ⟨rfl, d', hd', rfl⟩ := hab
          rcases List.mem_cons.mp hd' with rfl | hd'
          · exact ⟨rfl, rfl⟩
          · exact absurd ⟨rfl, d', hd', rfl⟩ hnot)
      obtain ⟨hlast, hleft'⟩ := ih (fun d' hd' => hds d' (List.mem_cons_of_mem d hd')) hnext he'
      rw [List.foldlM_cons, Traced.value_bind]
      refine ⟨hlast, ?_⟩
      rcases hleft' with heq | hlt
      · rw [heq]
        exact hleft
      · rcases hleft with heq | hlt'
        · rw [heq] at hlt
          rw [heq]
          exact .inr hlt
        · exact .inr (hlt.trans hlt')

end Searched

/-! ## The loop -/

variable (queue : PriorityQueue (Node ℚ) compare)

/-- What one turn of the loop leaves, of a node that is not at the end. -/
def turn (behind : Int → Nat) (map : MapSectionData) (goal : Int × Int) (current : Node ℚ)
    (openList : List (Node ℚ)) (s : Search ℚ) : Search ℚ :=
  if s.closedList (current.x, current.y) = true then { s with openList := openList }
  else
    (directions.foldlM (visit behind map goal.1 goal.2 current)
      { s with
        openList := openList
        closedList := Function.update s.closedList (current.x, current.y) true }).value

theorem value_searchLoop (fuel : ℕ) (s : Search ℚ) :
    (searchLoop behind map goal.1 goal.2 queue (fuel + 1) s).value =
      match queue.pop s.openList with
      | none => .notFound
      | some (current, openList) =>
          if current.x = goal.1 ∧ current.y = goal.2 then
            match walkBack s.cameFrom fuel (current.x, current.y) with
            | some out => .found out
            | none => .running
          else (searchLoop behind map goal.1 goal.2 queue fuel
            (turn behind map goal current openList s)).value := by
  rw [searchLoop]
  cases queue.pop s.openList with
  | none => rfl
  | some popped =>
      obtain ⟨current, openList⟩ := popped
      dsimp only
      by_cases hgoal : current.x = goal.1 ∧ current.y = goal.2
      · rw [if_pos hgoal, if_pos hgoal]
        rfl
      · rw [if_neg hgoal, if_neg hgoal]
        unfold turn
        by_cases hclosed : s.closedList (current.x, current.y) = true
        · rw [if_pos hclosed, if_pos hclosed]
        · rw [if_neg hclosed, if_neg hclosed, Traced.value_bind]

/-- With more steps, the search does not return anything else. -/
theorem searchLoop_succ {fuel : ℕ} {s : Search ℚ} {r : SearchResult} (hr : r ≠ .running)
    (h : (searchLoop behind map goal.1 goal.2 queue fuel s).value = r) :
    (searchLoop behind map goal.1 goal.2 queue (fuel + 1) s).value = r := by
  induction fuel generalizing s with
  | zero => exact absurd h.symm hr
  | succ fuel ih =>
      rw [value_searchLoop] at h ⊢
      cases hpop : queue.pop s.openList with
      | none =>
          rw [hpop] at h
          exact h
      | some popped =>
          obtain ⟨current, openList⟩ := popped
          rw [hpop] at h
          dsimp only at h ⊢
          split
          · next hgoal =>
            rw [if_pos hgoal] at h
            cases hback : walkBack s.cameFrom fuel (current.x, current.y) with
            | none =>
                rw [hback] at h
                exact absurd h.symm hr
            | some out =>
                rw [hback] at h
                rw [walkBack_eq] at hback ⊢
                rw [traceBack_succ hback]
                exact h
          · next hgoal =>
            rw [if_neg hgoal] at h
            exact ih h

theorem searchLoop_of_le {fuel fuel' : ℕ} (hle : fuel ≤ fuel') {s : Search ℚ} {r : SearchResult}
    (hr : r ≠ .running)
    (h : (searchLoop behind map goal.1 goal.2 queue fuel s).value = r) :
    (searchLoop behind map goal.1 goal.2 queue fuel' s).value = r := by
  induction hle with
  | refl => exact h
  | step _ ih => exact searchLoop_succ queue hr ih

/-- The node of the start. -/
def startNode (root goal : Int × Int) : Node ℚ where
  x := root.1
  y := root.2
  g := 0
  h := heuristic root.1 root.2 goal.1 goal.2
  f := 0 + heuristic root.1 root.2 goal.1 goal.2
  parent := none

theorem start_eq (root goal : Int × Int) : start root.1 root.2 goal.1 goal.2 =
    { openList := [startNode root goal]
      closedList := fun _ => false
      cameFrom := Function.update (fun _ => none) root (some (startNode root goal)) } := rfl

namespace Searched

theorem start (behind : Int → Nat) (map : MapSectionData) (root goal : Int × Int) :
    Searched behind map root goal (fun _ _ => False) (start root.1 root.2 goal.1 goal.2) := by
  have hexact : Exact goal (startNode root goal) := ⟨.zero, rfl, rfl⟩
  have hcell : ∀ c e, Function.update (fun _ => none) root (some (startNode root goal)) c = some e →
      c = root ∧ e = startNode root goal := by
    intro c e he
    by_cases hc : c = root
    · subst hc
      rw [Function.update_self] at he
      exact ⟨rfl, (Option.some.inj he).symm⟩
    · rw [Function.update_of_ne hc] at he
      cases he
  have hroot : Function.update (fun _ => none) root (some (startNode root goal)) root
      = some (startNode root goal) := Function.update_self ..
  rw [start_eq]
  refine ⟨?_, ?_, ?_, ?_, ?_, rfl⟩
  · have hentries : entries ⟨[startNode root goal], fun _ => false,
        Function.update (fun _ => none) root (some (startNode root goal))⟩
        = Function.update (fun _ => none) root (some (0, none)) := by
      funext c
      unfold entries
      dsimp only
      by_cases hc : c = root
      · subst hc
        rw [Function.update_self, Function.update_self]
        rfl
      · rw [Function.update_of_ne hc, Function.update_of_ne hc]
        rfl
    rw [hentries]
    exact .of_root root
  · intro a b g p hclosed
    cases hclosed
  · intro c e he
    obtain ⟨rfl, rfl⟩ := hcell c e he
    exact ⟨rfl, hexact⟩
  · intro n hn
    obtain rfl := List.mem_singleton.mp hn
    exact ⟨hexact, startNode root goal, hroot, le_refl _⟩
  · intro c e he _
    exact List.mem_singleton.mpr (hcell c e he).2

variable {queue} {s : Search ℚ} {current : Node ℚ} {openList : List (Node ℚ)}

/-- What waits on the first open cell of a walk to the end is as good as the walk. -/
theorem exists_waiting (h : Searched behind map root goal (fun _ _ => False) s) {l : List (Int × Int)}
    (hl : Walk (Steps behind map) root goal l) :
    ∃ n ∈ s.openList, n.f ≤ walkCost stepCost l + heuristic goal.1 goal.2 goal.1 goal.2 := by
  have hopen : ¬ s.closedList goal = true := by
    rw [h.goal]
    exact Bool.false_ne_true
  obtain ⟨b, gb, pb, l', hopen, hb, hl', hsum⟩ := h.relaxed.exists_frontier hl hopen h.linked.atRoot
  obtain ⟨e, he, rfl, _⟩ := cameFrom_of_entries hb
  obtain ⟨hcell, hexact⟩ := h.node b e he
  subst hcell
  refine ⟨e, h.waiting _ e he (eq_false_of_ne_true hopen), ?_⟩
  have hbound := (consistent_heuristic behind map goal).le_walkCost hl'
  dsimp only at hbound
  rw [hexact.f, hexact.h]
  linarith

/-- What stays in the queue when a node comes out. -/
theorem waiting_of_pop (h : Searched behind map root goal (fun _ _ => False) s)
    (hpop : queue.pop s.openList = some (current, openList)) {c : Int × Int} {e : Node ℚ}
    (he : s.cameFrom c = some e) (hclosed : s.closedList c = false) (hne : c ≠ (current.x, current.y)) :
    e ∈ openList := by
  have hmem := (queue.pop_perm hpop).symm.subset (h.waiting c e he hclosed)
  rcases List.mem_cons.mp hmem with rfl | hmem
  · exact absurd (h.node c e he).1.symm hne
  · exact hmem

/-- A node comes out whose cell is closed. -/
theorem skip (h : Searched behind map root goal (fun _ _ => False) s)
    (hpop : queue.pop s.openList = some (current, openList))
    (hclosed : s.closedList (current.x, current.y) = true) :
    Searched behind map root goal (fun _ _ => False) { s with openList := openList } := by
  refine ⟨h.linked, h.relaxed, h.node, ?_, ?_, h.goal⟩
  · exact fun n hn => h.waits n (queue.mem_of_pop hpop (.inr hn))
  · intro c e he hopen
    refine h.waiting_of_pop hpop he hopen ?_
    intro heq
    subst heq
    exact absurd (hopen.symm.trans hclosed) Bool.false_ne_true

/-- A cell is closed, and the search looks at its neighbours from there. -/
theorem close (h : Searched behind map root goal (fun _ _ => False) s)
    (hpop : queue.pop s.openList = some (current, openList))
    (hgoal : ¬ (current.x = goal.1 ∧ current.y = goal.2)) :
    Searched behind map root goal
      (fun a b => a = (current.x, current.y) ∧ ∃ d ∈ directions, b = (current.x + d.1, current.y + d.2.1))
      { s with
        openList := openList
        closedList := Function.update s.closedList (current.x, current.y) true } := by
  have hopen : ∀ {c}, Function.update s.closedList (current.x, current.y) true c = false →
      c ≠ (current.x, current.y) ∧ s.closedList c = false := by
    intro c hc
    by_cases heq : c = (current.x, current.y)
    · subst heq
      rw [Function.update_self] at hc
      cases hc
    · rw [Function.update_of_ne heq] at hc
      exact ⟨heq, hc⟩
  have hclosed : (fun c => Function.update s.closedList (current.x, current.y) true c = true)
      = fun c => c = (current.x, current.y) ∨ s.closedList c = true := by
    funext c
    by_cases hc : c = (current.x, current.y)
    · simp [hc]
    · simp [hc]
  refine ⟨h.linked, ?_, h.node, ?_, ?_, ?_⟩
  · rw [hclosed]
    refine h.relaxed.close ?_
    intro b hstep
    obtain ⟨d, hd, rfl, _⟩ := hstep
    exact ⟨rfl, d, hd, rfl⟩
  · exact fun n hn => h.waits n (queue.mem_of_pop hpop (.inr hn))
  · intro c e he hc
    obtain ⟨hne, hc⟩ := hopen hc
    exact h.waiting_of_pop hpop he hc hne
  · refine (Function.update_of_ne ?_ ..).trans h.goal
    intro heq
    subst heq
    exact hgoal ⟨rfl, rfl⟩

/-- The node of an open cell that comes out has the label of the cell. -/
theorem label_of_pop (h : Searched behind map root goal (fun _ _ => False) s)
    (hpop : queue.pop s.openList = some (current, openList))
    (hopen : s.closedList (current.x, current.y) = false) :
    ∃ e, s.cameFrom (current.x, current.y) = some e ∧ e.g = current.g := by
  obtain ⟨hexact, e, he, hle⟩ := h.waits current (queue.mem_of_pop hpop (.inl rfl))
  obtain ⟨hcell, hexact'⟩ := h.node _ e he
  have hf := f_le_of_pop queue (fun n hn => (h.waits n hn).1) hpop (h.waiting _ e he hopen)
  obtain ⟨hx, hy⟩ := Prod.mk.inj hcell
  rw [hexact.f, hexact.h, hexact'.f, hexact'.h, hx, hy] at hf
  refine ⟨e, he, le_antisymm hle ?_⟩
  linarith

/-- Every turn keeps what holds of the search, and leaves less to do. -/
theorem turn (h : Searched behind map root goal (fun _ _ => False) s)
    (hpop : queue.pop s.openList = some (current, openList))
    (hgoal : ¬ (current.x = goal.1 ∧ current.y = goal.2)) :
    Searched behind map root goal (fun _ _ => False) (turn behind map goal current openList s) ∧
      toLex (left map root (AStarMove.turn behind map goal current openList s),
        (AStarMove.turn behind map goal current openList s).openList.length)
      < toLex (left map root s, s.openList.length) := by
  have hlength : openList.length < s.openList.length := by
    rw [← (queue.pop_perm hpop).length_eq]
    exact Nat.lt_succ_self _
  unfold AStarMove.turn
  split
  · next hclosed =>
    exact ⟨h.skip hpop hclosed, Prod.Lex.toLex_lt_toLex.mpr (.inr ⟨rfl, hlength⟩)⟩
  · next hopen =>
    obtain ⟨e, he, heg⟩ := h.label_of_pop hpop (eq_false_of_ne_true hopen)
    have hexact := (h.waits current (queue.mem_of_pop hpop (.inl rfl))).1
    obtain ⟨hnext, hleft⟩ := (h.close hpop hgoal).foldlM_visit hexact heg (fun _ hd => hd) he
    refine ⟨hnext, Prod.Lex.toLex_lt_toLex.mpr ?_⟩
    rcases hleft with heq | hlt
    · refine .inr ⟨?_, ?_⟩
      · rw [heq]
        rfl
      · rw [heq]
        exact hlength
    · exact .inl hlt

/-- The way back from the end, and the walk it is. -/
theorem found (h : Searched behind map root goal (fun _ _ => False) s)
    (hpop : queue.pop s.openList = some (current, openList)) (hgoal : current.x = goal.1 ∧ current.y = goal.2)
    {fuel : ℕ} {out : List (Int × Int)} (hout : walkBack s.cameFrom fuel (current.x, current.y) = some out) :
    Walk (Steps behind map) root goal out.reverse ∧ out.Nodup ∧
    walkCost stepCost out.reverse ≤ current.g := by
  obtain ⟨_, e, he, hle⟩ := h.waits current (queue.mem_of_pop hpop (.inl rfl))
  have hcell : (current.x, current.y) = goal := Prod.ext hgoal.1 hgoal.2
  rw [hcell] at he hout
  rw [walkBack_eq] at hout
  obtain ⟨hwalk, hcost, hnodup, _⟩ := h.linked.walk_traceBack
    (fun a b _ => zero_lt_one.trans_le (one_le_stepCost a b)) hout (entries_eq_some he)
  exact ⟨hwalk, hnodup, hcost.trans hle⟩

end Searched

/-- What a result says of the walks from one cell to the other. -/
def Answers (behind : Int → Nat) (map : MapSectionData) (root goal : Int × Int) : SearchResult → Prop
  | .found out => Walk (Steps behind map) root goal out.reverse ∧ out.Nodup ∧
      ∀ l, Walk (Steps behind map) root goal l → walkCost stepCost out.reverse ≤ walkCost stepCost l
  | .notFound => ∀ l, ¬ Walk (Steps behind map) root goal l
  | .running => True

theorem answers_searchLoop (fuel : ℕ) {s : Search ℚ}
    (h : Searched behind map root goal (fun _ _ => False) s) :
    Answers behind map root goal (searchLoop behind map goal.1 goal.2 queue fuel s).value := by
  induction fuel generalizing s with
  | zero => trivial
  | succ fuel ih =>
      rw [value_searchLoop]
      cases hpop : queue.pop s.openList with
      | none =>
          intro l hl
          obtain ⟨n, hn, _⟩ := h.exists_waiting hl
          rw [queue.pop_eq_none hpop] at hn
          cases hn
      | some popped =>
          obtain ⟨current, openList⟩ := popped
          dsimp only
          split
          · next hgoal =>
            cases hout : walkBack s.cameFrom fuel (current.x, current.y) with
            | none => trivial
            | some out =>
                obtain ⟨hwalk, hnodup, hcost⟩ := h.found hpop hgoal hout
                refine ⟨hwalk, hnodup, ?_⟩
                intro l hl
                -- what waits for this walk is not before the end in the queue
                obtain ⟨n, hn, hle⟩ := h.exists_waiting hl
                have hfirst := f_le_of_pop queue (fun n hn => (h.waits n hn).1) hpop hn
                obtain ⟨hexact, _⟩ := h.waits current (queue.mem_of_pop hpop (.inl rfl))
                rw [hexact.f, hexact.h, hgoal.1, hgoal.2] at hfirst
                linarith
          · next hgoal => exact ih (h.turn hpop hgoal).1

theorem searchLoop_returns {s : Search ℚ} (h : Searched behind map root goal (fun _ _ => False) s) :
    ∃ fuel, (searchLoop behind map goal.1 goal.2 queue fuel s).value ≠ .running := by
  induction hm : toLex (left map root s, s.openList.length) using WellFoundedLT.induction generalizing s with
  | ind m ih =>
      subst hm
      cases hpop : queue.pop s.openList with
      | none =>
          refine ⟨1, ?_⟩
          rw [value_searchLoop, hpop]
          exact nofun
      | some popped =>
          obtain ⟨current, openList⟩ := popped
          by_cases hgoal : current.x = goal.1 ∧ current.y = goal.2
          · obtain ⟨_, e, he, _⟩ := h.waits current (queue.mem_of_pop hpop (.inl rfl))
            obtain ⟨fuel, hfuel⟩ := exists_nat_gt e.g
            have hback := h.linked.isSome_traceBack (fun a b _ => one_le_stepCost a b)
              (entries_eq_some he) hfuel
            obtain ⟨out, hout⟩ := Option.isSome_iff_exists.mp hback
            refine ⟨fuel + 1, ?_⟩
            rw [value_searchLoop, hpop]
            dsimp only
            rw [if_pos hgoal, walkBack_eq, hout]
            exact nofun
          · obtain ⟨hnext, hless⟩ := h.turn hpop hgoal
            obtain ⟨fuel, hfuel⟩ := ih _ hless hnext rfl
            refine ⟨fuel + 1, ?_⟩
            rw [value_searchLoop, hpop]
            dsimp only
            rw [if_neg hgoal]
            exact hfuel

/-! ## Main results -/

/-- The search returns this, and with more steps nothing else. -/
def Returns (behind : Int → Nat) (map : MapSectionData) (queue : PriorityQueue (Node ℚ) compare)
    (root goal : Int × Int) (r : SearchResult) : Prop :=
  r ≠ .running ∧ ∃ n, ∀ fuel ≥ n, (aStar behind map goal.1 goal.2 queue fuel root.1 root.2).value = r

/-- What `out` holds when the search returns true. -/
structure PathBack (behind : Int → Nat) (map : MapSectionData) (root goal : Int × Int)
    (out : List (Int × Int)) :
    Prop where
  head : out.head? = some goal
  last : out.getLast? = some root
  nodup : out.Nodup
  steps : out.IsChain fun n c => Steps behind map c n

/--
**The search returns, and it is right**: it returns true if and only if the end can be
walked to, and then `out` is a way back from the end to the start on which no cell is
twice.
-/
theorem aStar_returns (behind : Int → Nat) (map : MapSectionData) (queue : PriorityQueue (Node ℚ) compare)
    (root goal : Int × Int) :
    ∃ r, Returns behind map queue root goal r ∧ ((∃ out, r = .found out) ↔ Walks behind map root goal) ∧
      ∀ out, r = .found out → PathBack behind map root goal out := by
  have hstart := Searched.start behind map root goal
  obtain ⟨fuel, hfuel⟩ := searchLoop_returns queue hstart
  have hanswers := answers_searchLoop queue fuel hstart
  refine ⟨_, ⟨hfuel, fuel, fun fuel' hle => searchLoop_of_le queue hle hfuel rfl⟩, ?_, ?_⟩
  · unfold Walks
    rw [← exists_walk_iff]
    constructor
    · intro hfound
      obtain ⟨out, hout⟩ := hfound
      rw [hout] at hanswers
      exact ⟨_, hanswers.1⟩
    · intro hwalk
      obtain ⟨l, hl⟩ := hwalk
      cases hr : (searchLoop behind map goal.1 goal.2 queue fuel
          (AStarMove.start root.1 root.2 goal.1 goal.2)).value with
      | found out => exact ⟨out, rfl⟩
      | notFound =>
          rw [hr] at hanswers
          exact absurd hl (hanswers l)
      | running => exact absurd hr hfuel
  · intro out hout
    rw [hout] at hanswers
    obtain ⟨hwalk, hnodup, _⟩ := hanswers
    refine ⟨?_, ?_, hnodup, ?_⟩
    · rw [← List.getLast?_reverse]
      exact hwalk.getLast?_eq
    · rw [← List.head?_reverse]
      exact hwalk.head?_eq
    · have hchain := List.isChain_reverse.mp hwalk.isChain
      exact hchain

/--
**The path is a shortest one**: whenever the search returns true, no other walk from the
start to the end costs less.
-/
theorem aStar_shortest {behind : Int → Nat} {map : MapSectionData} {queue : PriorityQueue (Node ℚ) compare}
    {root goal : Int × Int} {fuel : ℕ} {out : List (Int × Int)}
    (h : (aStar behind map goal.1 goal.2 queue fuel root.1 root.2).value = .found out) :
    Walk (Steps behind map) root goal out.reverse ∧
      ∀ l, Walk (Steps behind map) root goal l → walkCost stepCost out.reverse ≤ walkCost stepCost l := by
  have hanswers := answers_searchLoop queue fuel (Searched.start behind map root goal)
  change Answers behind map root goal (aStar behind map goal.1 goal.2 queue fuel root.1 root.2).value at hanswers
  rw [h] at hanswers
  exact ⟨hanswers.1, hanswers.2.2⟩

/-- Three by two cells; the one in the middle above cannot be walked on. -/
def gap : MapSectionData where
  mapWidth := 3
  mapHeight := 2
  height := [1, 0, 1, 1, 1, 1]
  playerPos := []

/-- There is no shorter way than around the corners of the gap. -/
theorem aStar_shortest_gap : walkCost stepCost [(0, 0), (0, 1), (1, 1), (2, 1), (2, 0)] = 4 ∧
    ∀ l, Walk (Steps (fun _ => 0) gap) (0, 0) (2, 0) l → 4 ≤ walkCost stepCost l := by
  have hfound : (aStar (fun _ => 0) gap 2 0 (.scan (compare (F := ℚ))) 20 0 0).value
      = .found [(2, 0), (2, 1), (1, 1), (0, 1), (0, 0)] := by decide +kernel
  have hcost : walkCost stepCost [(0, 0), (0, 1), (1, 1), (2, 1), (2, 0)] = 4 := by decide +kernel
  refine ⟨hcost, ?_⟩
  intro l hl
  rw [← hcost]
  exact (@aStar_shortest (fun _ => 0) gap (.scan compare) (0, 0) (2, 0) 20 _ hfound).2 l hl

end StarCraftIocp.AStarMove
