import StarCraftIocp.GameServer.AStarMove

/-!
# Where the path search looks

The bounds are only tested for the cell a step leads to. What is read besides are the
cell the step begins on and the two corners, so that the search stays inside the
table as long as it begins inside the map, and the table has an entry for every cell
at or next to one that can be walked to.
-/

namespace StarCraftIocp.AStarMove

/-- A cell of the map. -/
def InBounds (map : MapSectionData) (c : Int × Int) : Prop :=
  0 ≤ c.1 ∧ 0 ≤ c.2 ∧ c.1 < map.mapWidth ∧ c.2 < map.mapHeight

instance (map : MapSectionData) (c : Int × Int) : Decidable (InBounds map c) :=
  inferInstanceAs (Decidable (_ ∧ _ ∧ _ ∧ _))

/-- The cell, or one of its eight neighbours. -/
def Near (c n : Int × Int) : Prop := |n.1 - c.1| ≤ 1 ∧ |n.2 - c.2| ≤ 1

/-- The index of a cell. -/
def indexOf (map : MapSectionData) (c : Int × Int) : Int := c.1 + map.mapWidth * c.2

section

variable (behind : Int → Nat) (map : MapSectionData)

/-- One of the eight steps, which `canMove` allows. -/
def Steps (c n : Int × Int) : Prop :=
  ∃ d ∈ directions, n = (c.1 + d.1, c.2 + d.2.1) ∧ (canMove behind map c.1 c.2 n.1 n.2).value = true

/-- The second cell can be walked to from the first. -/
def Walks : Int × Int → Int × Int → Prop := Relation.ReflTransGen (Steps behind map)

/-- An object on this cell can walk around without the search leaving the table. -/
structure Roams (c : Int × Int) : Prop where
  /-- Every cell of the map at or next to one that can be walked to has an entry. -/
  table : ∀ m, Walks behind map c m → ∀ n, Near m n → InBounds map n → Inside map (indexOf map n)
  /-- The first steps lead from a cell of the map, or look at entries all the same. -/
  first : InBounds map c ∨ ∀ d ∈ directions,
    ∀ i ∈ (canMove behind map c.1 c.2 (c.1 + d.1) (c.2 + d.2.1)).trace, Inside map i

theorem near_of_mem_directions {d : Int × Int × ℚ} (hd : d ∈ directions) (c : Int × Int) :
    Near c (c.1 + d.1, c.2 + d.2.1) := by
  have hall : ∀ d ∈ directions, |d.1| ≤ 1 ∧ |d.2.1| ≤ 1 := by decide
  unfold Near
  rw [add_sub_cancel_left, add_sub_cancel_left]
  exact hall d hd

/-- A table of as many entries as the map has cells has an entry for every cell. -/
theorem inside_of_inBounds {map : MapSectionData} (hfull : map.mapWidth * map.mapHeight ≤ map.height.length)
    {c : Int × Int} (hc : InBounds map c) : Inside map (indexOf map c) := by
  obtain ⟨hx, hy, hw, hh⟩ := hc
  have hwidth : 0 ≤ map.mapWidth := hx.trans hw.le
  unfold Inside indexOf
  refine ⟨add_nonneg hx (mul_nonneg hwidth hy), ?_⟩
  calc c.1 + map.mapWidth * c.2 < map.mapWidth + map.mapWidth * c.2 := Int.add_lt_add_right hw _
    _ = map.mapWidth * (c.2 + 1) := by ring
    _ ≤ map.mapWidth * map.mapHeight := mul_le_mul_of_nonneg_left (Int.add_one_le_of_lt hh) hwidth
    _ ≤ map.height.length := hfull

/-! ## `canMove` -/

theorem trace_heightAt (x y : Int) : (heightAt behind map x y).trace = [indexOf map (x, y)] := rfl

/-- A corner is looked at once or twice. -/
theorem trace_cornerOk {h1 x y i : Int} (hi : i ∈ (cornerOk behind map h1 x y).trace) :
    i = indexOf map (x, y) := by
  unfold cornerOk at hi
  rw [Traced.trace_bind, List.mem_append] at hi
  rcases hi with hi | hi
  · exact List.mem_singleton.mp hi
  · split at hi
    · rw [Traced.trace_bind, Traced.trace_pure, List.append_nil] at hi
      exact List.mem_singleton.mp hi
    · cases hi

/-- Nothing is read for a step out of the map; else the cells of the step and its corners. -/
theorem trace_canMove {c n : Int × Int} {i : Int} (hi : i ∈ (canMove behind map c.1 c.2 n.1 n.2).trace) :
    InBounds map n ∧ (i = indexOf map n ∨ i = indexOf map c ∨ i = indexOf map (n.1, c.2)
      ∨ i = indexOf map (c.1, n.2)) := by
  unfold canMove at hi
  split at hi
  · cases hi
  · next hin =>
    refine ⟨by unfold InBounds; omega, ?_⟩
    rw [Traced.trace_bind, trace_heightAt, List.mem_append, List.mem_singleton] at hi
    rcases hi with rfl | hi
    · exact .inl rfl
    split at hi
    · cases hi
    rw [Traced.trace_bind, trace_heightAt, List.mem_append, List.mem_singleton] at hi
    rcases hi with rfl | hi
    · exact .inr (.inl rfl)
    rw [Traced.trace_bind, trace_heightAt, List.mem_append, List.mem_singleton] at hi
    rcases hi with rfl | hi
    · exact .inl rfl
    split at hi
    · cases hi
    dsimp only at hi
    split at hi
    · rw [Traced.trace_bind, Traced.trace_bind, Traced.trace_pure, List.append_nil, List.mem_append] at hi
      rcases hi with hi | hi
      · have := trace_cornerOk behind map hi
        rw [add_sub_cancel] at this
        exact .inr (.inr (.inl this))
      · have := trace_cornerOk behind map hi
        rw [add_sub_cancel] at this
        exact .inr (.inr (.inr this))
    · cases hi

/-- A step leads into the map. -/
theorem inBounds_of_canMove {c n : Int × Int} (h : (canMove behind map c.1 c.2 n.1 n.2).value = true) :
    InBounds map n := by
  unfold canMove at h
  split at h
  · cases h
  · next hin =>
    unfold InBounds
    omega

variable {behind map}

namespace Roams

/-- What the steps from a cell that can be walked to look at is in the table. -/
theorem inside {c m : Int × Int} (h : Roams behind map c) (hm : Walks behind map c m) {d : Int × Int × ℚ}
    (hd : d ∈ directions) {i : Int}
    (hi : i ∈ (canMove behind map m.1 m.2 (m.1 + d.1) (m.2 + d.2.1)).trace) : Inside map i := by
  have hfrom : InBounds map m → Inside map i := by
    intro hin
    obtain ⟨hn, hi⟩ := trace_canMove behind map (c := m) (n := (m.1 + d.1, m.2 + d.2.1)) hi
    have hnear := near_of_mem_directions hd m
    have hzero : ∀ k : Int, |k - k| ≤ 1 := fun k => by rw [sub_self, abs_zero]; decide
    rcases hi with rfl | rfl | rfl | rfl
    · exact h.table m hm _ hnear hn
    · exact h.table m hm m ⟨hzero _, hzero _⟩ hin
    · exact h.table m hm _ ⟨hnear.1, hzero _⟩ ⟨hn.1, hin.2.1, hn.2.2.1, hin.2.2.2⟩
    · exact h.table m hm _ ⟨hzero _, hnear.2⟩ ⟨hin.1, hn.2.1, hin.2.2.1, hn.2.2.2⟩
  rcases Relation.ReflTransGen.cases_tail hm with heq | ⟨k, _, e, _, _, hstep⟩
  · subst heq
    rcases h.first with hin | hfirst
    · exact hfrom hin
    · exact hfirst d hd i hi
  · exact hfrom (inBounds_of_canMove behind map hstep)

/-- A table with an entry for every cell of the map will do, from any cell of the map. -/
theorem of_full {c : Int × Int} (hc : InBounds map c)
    (hfull : ∀ n, InBounds map n → Inside map (indexOf map n)) : Roams behind map c :=
  ⟨fun _ _ n _ hn => hfull n hn, .inl hc⟩

end Roams

/-! ## The search -/

variable {F : Type} [Scalar F] (endX endY : Int)

/-- The nodes that wait are on cells that can be walked to. -/
def Walked (behind : Int → Nat) (map : MapSectionData) (c : Int × Int) (s : Search F) : Prop :=
  ∀ n ∈ s.openList, Walks behind map c (n.x, n.y)

theorem walked_visit {c : Int × Int} (h : Roams behind map c) {current : Node F} {s : Search F}
    (hs : Walked behind map c s) (hcurrent : Walks behind map c (current.x, current.y)) {d : Int × Int × ℚ}
    (hd : d ∈ directions) : Walked behind map c (visit behind map endX endY current s d).value ∧
      ∀ i ∈ (visit behind map endX endY current s d).trace, Inside map i := by
  have hreads := fun i => h.inside hcurrent hd (i := i)
  unfold visit
  rw [Traced.value_bind, Traced.trace_bind]
  refine ⟨?_, ?_⟩
  · split
    · next hmove =>
      dsimp only
      split
      · refine List.forall_mem_cons.mpr ⟨hcurrent.tail ⟨d, hd, rfl, hmove⟩, hs⟩
      · exact hs
    · exact hs
  · intro i hi
    refine hreads i ((List.mem_append.mp hi).resolve_right ?_)
    split
    · dsimp only
      split <;> exact List.not_mem_nil
    · exact List.not_mem_nil

variable (queue : PriorityQueue (Node F) compare)

theorem inside_searchLoop {c : Int × Int} (h : Roams behind map c) (fuel : Nat) {s : Search F}
    (hs : Walked behind map c s) :
    ∀ i ∈ (searchLoop behind map endX endY queue fuel s).trace, Inside map i := by
  induction fuel generalizing s with
  | zero => exact fun _ hi => absurd hi List.not_mem_nil
  | succ fuel ih =>
      unfold searchLoop
      split
      · exact fun _ hi => absurd hi List.not_mem_nil
      · next current openList hpop =>
        have hcurrent := hs current (queue.mem_of_pop hpop (.inl rfl))
        have hopen : Walked behind map c { s with openList := openList } :=
          fun n hn => hs n (queue.mem_of_pop hpop (.inr hn))
        split
        · exact fun _ hi => absurd hi List.not_mem_nil
        split
        · exact ih hopen
        obtain ⟨hwalked, hreads⟩ := Traced.foldlM_keeps (I := Walked behind map c)
          (P := Inside map) (f := visit behind map endX endY current) (l := directions)
          (b := { s with
            openList := openList
            closedList := Function.update s.closedList (current.x, current.y) true })
          (fun n hn => hopen n hn) fun s' hs' d hd => walked_visit endX endY h hs' hcurrent hd
        rw [Traced.trace_bind]
        exact fun i hi => (List.mem_append.mp hi).elim (hreads i) (ih hwalked i)

/-- The whole search stays inside the table. -/
theorem inside_aStar {startX startY : Int} (h : Roams behind map (startX, startY)) (fuel : Nat) :
    ∀ i ∈ (aStar behind map endX endY queue fuel startX startY).trace, Inside map i := by
  refine inside_searchLoop endX endY queue h fuel ?_
  intro n hn
  obtain rfl := List.mem_singleton.mp hn
  exact Relation.ReflTransGen.refl

/-- On the cell it is to go to, nothing is read. -/
theorem trace_aStar_self (startX startY : Int) (fuel : Nat) :
    (aStar behind map startX startY queue fuel startX startY).trace = [] := by
  unfold aStar
  cases fuel with
  | zero => rfl
  | succ fuel =>
      unfold searchLoop
      rw [start, queue.pop_singleton]
      dsimp only
      rw [if_pos ⟨rfl, rfl⟩]
      rfl

end

end StarCraftIocp.AStarMove
