import StarCraftIocp.Proof.MapFile

/-!
# The map loader on any file

The loader trusts the lengths it finds. It stays inside the file as long as every
section it comes to is there in full, up to the end of the file or to a section with a
negative length; and of the fields of a section it takes for granted that they are
there, where a section with a size needs two bytes more than its fields have.
-/

namespace StarCraftIocp.MapMaker

/-- It reads inside the buffer. -/
def Inside (c : Memcpy) : Prop := 0 ≤ c.offset ∧ c.offset + c.size ≤ c.source

instance (c : Memcpy) : Decidable (Inside c) := inferInstanceAs (Decidable (_ ∧ _))

section

variable (data : List UInt8)

/-- The bytes of the fields of a section; of a size, `scale` has so many. -/
def fields (scale : Nat) (sectionCode : MapSection) : Nat :=
  if sectionCode = MapSection.ownr then 2 else if sectionCode = MapSection.size then 8 + scale else 0

/-- From here on the file is sections up to its end, long enough for their fields. -/
inductive Filled : Nat → Prop
  | done : Filled data.length
  | next {i n : Nat} : SectionAt data i n → fields 2 (codeAt data i) ≤ n → Filled (i + 6 + n) → Filled i

/-- The file is a section with a hash, and other sections. -/
inductive WellFormed : Prop
  | intro {n : Nat} : codeAt data 0 = MapSection.hash → SectionAt data 0 n → Filled data (6 + n) → WellFormed

/--
From here on the file is sections that can be read, up to its end or to a negative
length. From 2 ^ 31 on, where `index` overflows, the rest is not looked at.
-/
inductive Readable : Nat → Prop
  | done : Readable data.length
  | beyond {i : Nat} : 2147483648 ≤ i → Filled data i → Readable i
  | negative {i : Nat} : i + 2 < 2147483648 → i + 6 ≤ data.length → sizeAt data i < 0 → Readable i
  | next {i n : Nat} : i + 6 < 2147483648 → SectionAt data i n → fields 4 (codeAt data i) ≤ n →
      Readable (i + 6 + n) → Readable i

/-- What begins like a file with a hash can be read. -/
inductive Loadable : Prop
  | other : 2 ≤ data.length → codeAt data 0 ≠ MapSection.hash → Loadable
  | hash {n : Nat} : codeAt data 0 = MapSection.hash → SectionAt data 0 n → Readable data (6 + n) → Loadable

end

variable (behind : List UInt8 → List UInt8) {data : List UInt8}

/-! ## One section -/

theorem inside_of_fits {index : Int} {i source size dest : Nat} (hi : index = i) (h : i + size ≤ source) :
    Inside ⟨index, source, size, dest⟩ := by
  subst hi
  exact ⟨Int.natCast_nonneg i, Int.ofNat_le.mpr h⟩

theorem sizeAt_lt (data : List UInt8) (i : Nat) : sizeAt data i < 2147483648 := by
  unfold sizeAt CInt.int32
  omega

/-- A section is read without leaving it exactly if it is long enough for what is copied from it. -/
theorem parsingMapData_inside (sectionCode : MapSection) (body : List UInt8) (out : LoadedMap) :
    (∀ m ∈ (parsingMapData behind sectionCode body out).trace, Inside m)
      ↔ fields 4 sectionCode ≤ body.length := by
  by_cases hownr : sectionCode = MapSection.ownr
  · subst hownr
    have htrace : (parsingMapData behind MapSection.ownr body out).trace = [⟨0, body.length, 2, 2⟩] := rfl
    rw [htrace, List.forall_mem_singleton]
    unfold Inside fields
    rw [if_pos rfl]
    dsimp only
    omega
  by_cases hsize : sectionCode = MapSection.size
  · subst hsize
    have htrace : (parsingMapData behind MapSection.size body out).trace
        = [⟨0, body.length, 4, 4⟩, ⟨4, body.length, 4, 4⟩, ⟨8, body.length, 4, 2⟩] := rfl
    rw [htrace, List.forall_mem_cons, List.forall_mem_cons, List.forall_mem_singleton]
    unfold Inside fields
    rw [if_neg hownr, if_pos rfl]
    dsimp only
    omega
  · have hsafe : ∀ m ∈ (parsingMapData behind sectionCode body out).trace,
        m.Safe ∨ sectionCode = MapSection.size ∧ m = scaleCopy body.length :=
      safe_parsingMapData behind (fun h => absurd h hownr) (fun h => absurd h hsize) out
    unfold fields
    rw [if_neg hownr, if_neg hsize]
    refine ⟨fun _ => Nat.zero_le _, fun _ m hm => ?_⟩
    rcases hsafe m hm with hm | ⟨h, _⟩
    · exact ⟨hm.1, hm.2.1⟩
    · exact absurd h hsize

/-- A negative length ends the loop, and the file is refused. -/
theorem sectionLoop_negative {i : Nat} (hi : i + 2 < 2147483648) (hheader : i + 6 ≤ data.length)
    (hsize : sizeAt data i < 0) (fuel : Nat) (map : LoadedMap) : sectionLoop behind data (fuel + 1) i map
      = ⟨none, [⟨i, data.length, 2, 2⟩] ++ ([⟨i + 2, data.length, 4, 4⟩] ++ [])⟩ := by
  have hmore : CInt.sizeT i < data.length := by
    rw [CInt.sizeT_of_range (by omega) (by omega)]
    omega
  have h2 : CInt.int32 ((i : Int) + 2) = i + 2 := CInt.int32_of_range (by omega) (by omega)
  unfold sectionLoop
  rw [if_pos hmore]
  refine Traced.bind_eq (copy16_eq behind rfl (by omega)) ?_
  rw [h2]
  refine Traced.bind_eq (copy32_eq behind (i := i + 2) (by omega) (by omega)) ?_
  exact if_pos hsize

/-- The loop ends behind the file, and where `index` has overflown: as a `size_t` it is huge. -/
theorem sectionLoop_end (hmax : data.length < 9223372036854775808) {i : Nat} (hi : i < 4294967296)
    (hend : data.length ≤ i ∨ 2147483648 ≤ i) (fuel : Nat) (map : LoadedMap) :
    sectionLoop behind data (fuel + 1) (CInt.int32 i) map = ⟨some map, []⟩ := by
  have hmore : ¬ CInt.sizeT (CInt.int32 i) < data.length := by
    unfold CInt.sizeT CInt.uint64 CInt.int32
    omega
  unfold sectionLoop
  rw [if_neg hmore]
  rfl

/-! ## The loop -/

theorem Filled.le {i : Nat} (h : Filled data i) : i ≤ data.length := by
  induction h with
  | done => exact le_refl _
  | next hsection _ _ _ =>
      have := hsection.body
      omega

/-- What is there of a file that is filled. -/
theorem Filled.of_section {i n : Nat} (h : Filled data i) (hsection : SectionAt data i n) :
    Filled data (i + 6 + n) := by
  cases h with
  | done =>
      have := hsection.body
      omega
  | next hsection' _ hrest =>
      obtain rfl := hsection.unique hsection'
      exact hrest

/-- Where a turn ends the loop, it does not matter how many more there could be. -/
theorem sectionLoop_stops {index : Int} {map : LoadedMap} {r : Traced Memcpy (Option LoadedMap)}
    (h : ∀ fuel, sectionLoop behind data (fuel + 1) index map = r) (fuel : Nat) (hfuel : 0 < fuel) :
    sectionLoop behind data fuel index map = r := by
  obtain ⟨fuel, rfl⟩ := Nat.exists_eq_add_one_of_ne_zero (Nat.ne_of_gt hfuel)
  exact h fuel

/-- What the loop does with a file that can be read, however many turns it is given. -/
theorem sectionLoop_readable (hmax : data.length < 9223372036854775808) {i : Nat} (h : Readable data i)
    (hi : i < 4294967296) {fuel : Nat} (hfuel : data.length - i < fuel) (map : LoadedMap) :
    (∀ m ∈ (sectionLoop behind data fuel (CInt.int32 i) map).trace, Inside m) ∧
      ((∃ map', (sectionLoop behind data fuel (CInt.int32 i) map).value = some map') ↔ Filled data i) ∧
      ∀ fuel' ≥ fuel, sectionLoop behind data fuel' (CInt.int32 i) map
        = sectionLoop behind data fuel (CInt.int32 i) map := by
  induction h generalizing fuel map with
  | done =>
      have hstop := sectionLoop_stops behind fun fuel => sectionLoop_end behind hmax hi
        (.inl (le_refl _)) fuel map
      rw [hstop fuel (by omega)]
      exact ⟨fun _ hm => absurd hm List.not_mem_nil, ⟨fun _ => .done, fun _ => ⟨map, rfl⟩⟩,
        fun fuel' hle => hstop fuel' (by omega)⟩
  | beyond hbeyond hfilled =>
      have hstop := sectionLoop_stops behind fun fuel => sectionLoop_end behind hmax hi
        (.inr hbeyond) fuel map
      rw [hstop fuel (by omega)]
      exact ⟨fun _ hm => absurd hm List.not_mem_nil, ⟨fun _ => hfilled, fun _ => ⟨map, rfl⟩⟩,
        fun fuel' hle => hstop fuel' (by omega)⟩
  | @negative i hi2 hheader hsize =>
      have hstop := sectionLoop_stops behind fun fuel =>
        sectionLoop_negative behind hi2 hheader hsize fuel map
      rw [CInt.int32_of_range (by omega) (by omega), hstop fuel (by omega)]
      refine ⟨?_, ⟨?_, ?_⟩, fun fuel' hle => hstop fuel' (by omega)⟩
      · intro m hm
        simp only [List.append_nil, List.cons_append, List.nil_append, List.mem_cons,
          List.not_mem_nil, or_false] at hm
        rcases hm with rfl | rfl
        · exact inside_of_fits rfl (by omega)
        · exact inside_of_fits (i := i + 2) rfl (by omega)
      · intro h
        obtain ⟨_, h⟩ := h
        cases h
      · -- a file that is filled has no negative lengths
        intro hfilled
        cases hfilled with
        | done => omega
        | next hsection _ _ =>
            have := hsection.size
            omega
  | @next i n hi6 hsection hfields hrest ih =>
      obtain ⟨fuel, rfl⟩ : ∃ k, fuel = k + 1 := ⟨fuel - 1, by omega⟩
      have hbody := hsection.body
      have hsize := sizeAt_lt data i
      rw [hsection.size] at hsize
      have hfuel' : data.length - (i + 6 + n) < fuel := by omega
      obtain ⟨hinside, haccepted, hends⟩ := ih (by omega) hfuel'
        (parse behind map ⟨codeAt data i, Bytes.slice data (i + 6) n⟩)
      rw [CInt.int32_of_range (n := i) (by omega) (by omega),
        sectionLoop_section behind hsection hi6 fuel map rfl]
      refine ⟨?_, ⟨?_, ?_⟩, ?_⟩
      · intro m hm
        simp only [List.mem_append, List.mem_singleton] at hm
        rcases hm with rfl | rfl | rfl | hm | hm
        · exact inside_of_fits rfl (by omega)
        · exact inside_of_fits (i := i + 2) rfl (by omega)
        · exact inside_of_fits (i := i + 6) rfl hbody
        · refine (parsingMapData_inside behind _ _ map).mpr ?_ m hm
          rw [Bytes.length_slice hbody]
          exact hfields
        · exact hinside m hm
      · intro h
        refine .next hsection ?_ (haccepted.mp h)
        unfold fields at hfields ⊢
        split_ifs at hfields ⊢ <;> omega
      · intro hfilled
        exact haccepted.mpr (hfilled.of_section hsection)
      · intro fuel' hle
        obtain ⟨fuel', rfl⟩ : ∃ k, fuel' = k + 1 := ⟨fuel' - 1, by omega⟩
        rw [sectionLoop_section behind hsection hi6 fuel' map rfl, hends fuel' (by omega)]

/-- A turn of the loop that does not leave the file has found a header, and what it announces. -/
theorem of_inside {i fuel : Nat} {map : LoadedMap} (hlt : i < data.length) (hi : i < 2147483648)
    (hinside : ∀ m ∈ (sectionLoop behind data (fuel + 1) i map).trace, Inside m) :
    i + 2 < 2147483648 ∧ i + 6 ≤ data.length ∧
      ∀ n : Nat, sizeAt data i = n → i + 6 < 2147483648 ∧ SectionAt data i n := by
  have hmore : CInt.sizeT i < data.length := by
    rw [CInt.sizeT_of_range (by omega) (by omega)]
    omega
  unfold sectionLoop at hinside
  rw [if_pos hmore, Traced.forall_trace_bind, Traced.forall_trace_bind] at hinside
  obtain ⟨_, hsize, hrest⟩ := hinside
  -- the length is read behind the code, so `index` has not overflown there
  obtain ⟨hlow, hhigh⟩ := hsize _ List.mem_cons_self
  dsimp only at hlow hhigh
  have hi2 : i + 2 < 2147483648 := by
    unfold CInt.int32 at hlow
    omega
  have h2 : CInt.int32 ((i : Int) + 2) = i + 2 := CInt.int32_of_range (by omega) (by omega)
  rw [h2] at hhigh hrest
  have hheader : i + 6 ≤ data.length := by omega
  refine ⟨hi2, hheader, ?_⟩
  intro n hn
  have hvalue : (copy32 behind data ((i : Int) + 2)).value = n :=
    (value_copy32 behind (i := i + 2) (by omega) (by omega)).trans hn
  have hneg : ¬ (n : Int) < 0 := by omega
  rw [hvalue, if_neg hneg, Traced.forall_trace_bind] at hrest
  obtain ⟨hlow, hhigh⟩ := hrest.1 _ List.mem_cons_self
  dsimp only at hlow hhigh
  have hi6 : i + 6 < 2147483648 := by
    unfold CInt.int32 at hlow
    omega
  have h6 : CInt.int32 ((i : Int) + 2 + 4) = i + 6 := by
    rw [CInt.int32_of_range (by omega) (by omega)]
    omega
  rw [h6, Int.toNat_natCast] at hhigh
  exact ⟨hi6, hn, by omega⟩

/-- Where the loop does not leave the file, and accepts it only if it is filled, the file can be read. -/
theorem readable_of_inside (hmax : data.length < 9223372036854775808) {i : Nat} (hle : i ≤ data.length)
    (hi : i < 4294967296) {fuel : Nat} (hfuel : data.length - i < fuel) (map : LoadedMap)
    (hinside : ∀ m ∈ (sectionLoop behind data fuel (CInt.int32 i) map).trace, Inside m)
    (haccepted : (∃ map', (sectionLoop behind data fuel (CInt.int32 i) map).value = some map') →
      Filled data i) :
    Readable data i := by
  induction fuel generalizing i map with
  | zero => omega
  | succ fuel ih =>
      by_cases hend : data.length ≤ i ∨ 2147483648 ≤ i
      · rw [sectionLoop_end behind hmax hi hend fuel map] at haccepted
        rcases hend with hend | hend
        · obtain rfl := le_antisymm hle hend
          exact .done
        · exact .beyond hend (haccepted ⟨map, rfl⟩)
      rw [not_or] at hend
      rw [CInt.int32_of_range (n := i) (by omega) (by omega)] at hinside haccepted
      obtain ⟨hi2, hheader, hsection⟩ := of_inside behind (by omega) (by omega) hinside
      by_cases hneg : sizeAt data i < 0
      · exact .negative hi2 hheader hneg
      obtain ⟨n, hn⟩ : ∃ n : Nat, sizeAt data i = n := ⟨(sizeAt data i).toNat, by omega⟩
      obtain ⟨hi6, hsection⟩ := hsection n hn
      have hbody := hsection.body
      rw [sectionLoop_section behind hsection hi6 fuel map rfl] at hinside haccepted
      have hparsed : fields 4 (codeAt data i) ≤ n := by
        have hfields := (parsingMapData_inside behind (codeAt data i)
          (Bytes.slice data (i + 6) n) map).mp fun m hm =>
          hinside m (by simp only [List.mem_append, hm, true_or, or_true])
        rwa [Bytes.length_slice hbody] at hfields
      have hlt := sizeAt_lt data i
      have hrest : ∀ m ∈ (sectionLoop behind data fuel (CInt.int32 (i + 6 + n : Nat))
          (parse behind map ⟨codeAt data i, Bytes.slice data (i + 6) n⟩)).trace, Inside m :=
        fun m hm => hinside m (by simp only [List.mem_append, hm, or_true])
      refine .next hi6 hsection hparsed (ih hbody (by omega) (by omega) _ hrest ?_)
      exact fun hvalue => (haccepted hvalue).of_section hsection

/-- The loop over resources ends before its turns run out. -/
theorem resourceLoop_ends (body : List UInt8) {fuel fuel' index : Nat} (h : body.length - index ≤ fuel)
    (h' : body.length - index ≤ fuel') :
    resourceLoop behind body fuel index = resourceLoop behind body fuel' index := by
  induction fuel generalizing fuel' index with
  | zero =>
      cases fuel' with
      | zero => rfl
      | succ fuel' =>
          unfold resourceLoop
          rw [if_neg (by omega)]
  | succ fuel ih =>
      cases fuel' with
      | zero =>
          unfold resourceLoop
          rw [if_neg (by omega)]
      | succ fuel' =>
          unfold resourceLoop
          have hrest : resourceLoop behind body fuel (index + 6) = resourceLoop behind body fuel'
            (index + 6) :=
            ih (by omega) (by omega)
          rw [hrest]

/-- So does the loop over starting places. -/
theorem startPosLoop_ends (body : List UInt8) {fuel fuel' index : Nat} (h : body.length - index ≤ fuel)
    (h' : body.length - index ≤ fuel') (playerCount : Nat) :
    startPosLoop behind body fuel index playerCount = startPosLoop behind body fuel' index playerCount := by
  induction fuel generalizing fuel' index playerCount with
  | zero =>
      cases fuel' with
      | zero => rfl
      | succ fuel' =>
          unfold startPosLoop
          rw [if_neg (by omega)]
  | succ fuel ih =>
      cases fuel' with
      | zero =>
          unfold startPosLoop
          rw [if_neg (by omega)]
      | succ fuel' =>
          unfold startPosLoop
          have hrest : ∀ playerCount, startPosLoop behind body fuel (index + 4) playerCount
              = startPosLoop behind body fuel' (index + 4) playerCount :=
            fun playerCount => ih (by omega) (by omega) playerCount
          rw [hrest]

/-! ## The file -/

theorem loadOf_ne_lengthError (hash : List UInt8) (mapData : Option LoadedMap) :
    loadOf hash mapData ≠ .lengthError := by
  cases mapData <;> exact nofun

theorem exists_loadOf_eq_accepted {hash : List UInt8} {mapData : Option LoadedMap} :
    (∃ hash' map, loadOf hash mapData = .accepted hash' map) ↔ ∃ map, mapData = some map := by
  cases mapData with
  | none =>
      constructor
      · intro h
        obtain ⟨_, _, h⟩ := h
        cases h
      · intro h
        obtain ⟨_, h⟩ := h
        cases h
  | some map => exact ⟨fun _ => ⟨map, rfl⟩, fun _ => ⟨hash, map, rfl⟩⟩

section

variable {n : Nat} (hcode : codeAt data 0 = MapSection.hash) (h : SectionAt data 0 n)

include hcode h

theorem getHashData_section : getHashData behind data = ⟨.found (Bytes.slice data 6 n),
    [⟨0, data.length, 2, 2⟩] ++ ([⟨2, data.length, 4, 4⟩] ++ ([⟨6, data.length, n, n⟩] ++ []))⟩ := by
  have hbody := h.body
  have hneg : ¬ (n : Int) < 0 := by omega
  unfold getHashData
  refine Traced.bind_eq (copy16_eq behind (i := 0) rfl (by omega)) ?_
  rw [if_neg (not_not_intro (show Bytes.readLe16 data 0 = MapSection.hash from hcode))]
  refine Traced.bind_eq (h.copy32_eq behind rfl) ?_
  rw [if_neg hneg, Int.toNat_natCast]
  exact Traced.bind_eq (copyBytes_eq behind (i := 6) rfl (by omega)) rfl

end

/-! ## Main result -/

/-- What the loader should do with any file. -/
structure Loads (behind : List UInt8 → List UInt8) (data : List UInt8) : Prop where
  inside : ∀ m ∈ (getHashData behind data).trace ++ (setHashToMap behind data).trace, Inside m
  /-- No vector or string is made with a negative size. -/
  sized : (getHashData behind data).value ≠ .lengthError ∧ (setHashToMap behind data).value ≠ .lengthError
  /-- The loop over the sections ends: turns that it does not take change nothing. -/
  ends : codeAt data 0 = MapSection.hash → ∀ fuel > data.length,
    sectionLoop behind data fuel (CInt.int32 (6 + sizeAt data 0)) LoadedMap.new
      = sectionLoop behind data (data.length + 1) (CInt.int32 (6 + sizeAt data 0)) LoadedMap.new
  /-- So do the loops inside a section. -/
  sectionEnds : ∀ body : List UInt8, ∀ fuel ≥ body.length,
    resourceLoop behind body fuel 0 = resourceLoop behind body body.length 0 ∧
      startPosLoop behind body fuel 0 0 = startPosLoop behind body body.length 0 0
  accepted : (∃ hash map, (setHashToMap behind data).value = .accepted hash map) ↔ WellFormed data
  unchanged : ∀ hashToMap, (setHashToMap behind data).value = .refused →
    store hashToMap (setHashToMap behind data).value = hashToMap

theorem sectionEnds (body : List UInt8) {fuel : Nat} (hfuel : body.length ≤ fuel) :
    resourceLoop behind body fuel 0 = resourceLoop behind body body.length 0 ∧
      startPosLoop behind body fuel 0 0 = startPosLoop behind body body.length 0 0 :=
  ⟨resourceLoop_ends behind body (by omega) (by omega), startPosLoop_ends behind body (by omega) (by omega) 0⟩

theorem store_refused (hashToMap : List UInt8 → Option LoadedMap) {r : MapLoad} (h : r = .refused) :
    store hashToMap r = hashToMap := by
  subst h
  rfl

/-- A file that does not begin with the code of a hash is refused at once. -/
theorem loads_other (hlen : 2 ≤ data.length) (hcode : codeAt data 0 ≠ MapSection.hash) :
    Loads behind data := by
  have hget : getHashData behind data = ⟨.notFound, [⟨0, data.length, 2, 2⟩]⟩ := by
    unfold getHashData
    refine Traced.bind_eq (copy16_eq behind (i := 0) rfl (by omega)) ?_
    exact if_pos hcode
  have hset : setHashToMap behind data = ⟨.refused, [⟨0, data.length, 2, 2⟩]⟩ := by
    unfold setHashToMap
    refine Traced.bind_eq (copy16_eq behind (i := 0) rfl (by omega)) ?_
    exact if_pos hcode
  refine ⟨?_, ?_, fun h => absurd h hcode, fun body _ => sectionEnds behind body, ?_,
    fun _ => store_refused _⟩
  · intro m hm
    rw [hget, hset] at hm
    obtain rfl : m = ⟨0, data.length, 2, 2⟩ := by simpa using hm
    exact inside_of_fits (i := 0) rfl (by omega)
  · rw [hget, hset]
    exact ⟨nofun, nofun⟩
  · rw [hset]
    constructor
    · intro h
      obtain ⟨_, _, h⟩ := h
      cases h
    · intro h
      obtain ⟨h, _, _⟩ := h
      exact absurd h hcode

theorem loads_hash (hmax : data.length < 9223372036854775808) {n : Nat}
    (hcode : codeAt data 0 = MapSection.hash)
    (h : SectionAt data 0 n) (hread : Readable data (6 + n)) : Loads behind data := by
  have hbody := h.body
  have hlt := sizeAt_lt data 0
  rw [h.size] at hlt
  have hfuel : data.length - (6 + n) < data.length + 1 := by omega
  obtain ⟨hinside, haccepted, hends⟩ := sectionLoop_readable behind hmax hread (by omega) hfuel LoadedMap.new
  generalize hnext : sectionLoop behind data (data.length + 1) (CInt.int32 (6 + n : Nat)) LoadedMap.new = next
    at hinside haccepted hends
  have hget := getHashData_section behind hcode h
  have hset := setHashToMap_section behind hcode h hnext
  refine ⟨?_, ?_, ?_, fun body _ => sectionEnds behind body, ?_, fun _ => store_refused _⟩
  · intro m hm
    rw [hget, hset] at hm
    simp only [List.mem_append, List.mem_singleton, List.not_mem_nil, or_false] at hm
    have hcopies : ∀ m : Memcpy, m = ⟨0, data.length, 2, 2⟩ ∨ m = ⟨2, data.length, 4, 4⟩ ∨
      m = ⟨6, data.length, n, n⟩ →
        Inside m := by
      intro m hm
      rcases hm with rfl | rfl | rfl
      · exact inside_of_fits (i := 0) rfl (by omega)
      · exact inside_of_fits (i := 2) rfl (by omega)
      · exact inside_of_fits (i := 6) rfl (by omega)
    rcases hm with hm | hm | hm | hm | hm
    · exact hcopies m hm
    · exact hcopies m (.inl hm)
    · exact hcopies m (.inr (.inl hm))
    · exact hcopies m (.inr (.inr hm))
    · exact hinside m hm
  · rw [hget, hset]
    exact ⟨nofun, loadOf_ne_lengthError (Bytes.slice data 6 n) next.value⟩
  · intro _ fuel hfuel
    rw [h.size, show (6 : Int) + (n : Int) = (6 + n : Nat) by omega, hnext]
    exact hends fuel hfuel
  · rw [hset]
    dsimp only
    rw [exists_loadOf_eq_accepted, haccepted]
    constructor
    · exact fun hfilled => .intro hcode h hfilled
    · intro hwell
      obtain ⟨_, h', hfilled⟩ := hwell
      obtain rfl := h.unique h'
      exact hfilled

/-- `GetHashData` from the length on. -/
def hashOfSize (behind : List UInt8 → List UInt8) (data : List UInt8) (size : Int) : Traced Memcpy HashLoad :=
  if size < 0 then return .lengthError
  else do
    let mapHash ← copyBytes behind data 6 size.toNat
    return .found mapHash

/-- `GetHashData` from the code on. -/
def hashOfCode (behind : List UInt8 → List UInt8) (data : List UInt8) (sectionCode : Nat) :
    Traced Memcpy HashLoad :=
  if sectionCode ≠ MapSection.hash then return .notFound
  else copy32 behind data 2 >>= hashOfSize behind data

theorem getHashData_eq : getHashData behind data = copy16 behind data 0 >>= hashOfCode behind data := by
  unfold getHashData
  refine congrArg _ (funext fun sectionCode => ?_)
  unfold hashOfCode
  split
  · rfl
  · exact congrArg _ (funext fun size => rfl)

/-- What is there of a file whose hash is read without leaving it. -/
theorem of_getHashData (hinside : ∀ m ∈ (getHashData behind data).trace, Inside m)
    (hsized : (getHashData behind data).value ≠ .lengthError) :
    2 ≤ data.length ∧ (codeAt data 0 = MapSection.hash → ∃ n, SectionAt data 0 n) := by
  rw [getHashData_eq, Traced.forall_trace_bind] at hinside
  rw [getHashData_eq, Traced.value_bind] at hsized
  obtain ⟨hcopy, hinside⟩ := hinside
  obtain ⟨_, hlen⟩ := hcopy _ List.mem_cons_self
  dsimp only at hlen
  refine ⟨by omega, ?_⟩
  intro hcode
  have hvalue : (copy16 behind data 0).value = MapSection.hash :=
    (value_copy16 behind (i := 0) rfl (by omega)).trans hcode
  have hsection : hashOfCode behind data MapSection.hash = copy32 behind data 2 >>= hashOfSize behind data :=
    if_neg (not_not_intro rfl)
  rw [hvalue, hsection, Traced.value_bind] at hsized
  rw [hvalue, hsection, Traced.forall_trace_bind] at hinside
  obtain ⟨hcopy, hinside⟩ := hinside
  obtain ⟨_, hheader⟩ := hcopy _ List.mem_cons_self
  dsimp only at hheader
  have hsize : (copy32 behind data 2).value = sizeAt data 0 := value_copy32 behind (i := 2) rfl (by omega)
  rw [hsize] at hsized hinside
  unfold hashOfSize at hsized hinside
  by_cases hneg : sizeAt data 0 < 0
  · rw [if_pos hneg] at hsized
    exact absurd rfl hsized
  obtain ⟨n, hn⟩ : ∃ n : Nat, sizeAt data 0 = n := ⟨(sizeAt data 0).toNat, by omega⟩
  rw [if_neg hneg, Traced.forall_trace_bind] at hinside
  obtain ⟨_, hbody⟩ := hinside.1 _ List.mem_cons_self
  dsimp only at hbody
  rw [hn, Int.toNat_natCast] at hbody
  exact ⟨n, hn, by omega⟩

/--
**The loader does what it should exactly with the files it can read**: those that do
not begin with the code of a hash, and those where a hash and sections follow that are
there in full, with all bytes that are copied from them, up to the end or to a
negative length.
-/
theorem loads_iff (behind : List UInt8 → List UInt8) {data : List UInt8}
    (hmax : data.length < 9223372036854775808) :
    Loads behind data ↔ Loadable data := by
  constructor
  · intro h
    have hinside := h.inside
    rw [List.forall_mem_append] at hinside
    obtain ⟨hlen, hsection⟩ := of_getHashData behind hinside.1 h.sized.1
    by_cases hcode : codeAt data 0 = MapSection.hash
    swap
    · exact .other hlen hcode
    obtain ⟨n, hsection⟩ := hsection hcode
    have hbody := hsection.body
    have hlt := sizeAt_lt data 0
    rw [hsection.size] at hlt
    have haccepted := h.accepted
    have hfuel : data.length - (6 + n) < data.length + 1 := by omega
    have hloop := readable_of_inside behind hmax (by omega) (by omega) hfuel LoadedMap.new
    generalize hnext : sectionLoop behind data (data.length + 1)
      (CInt.int32 (6 + n : Nat)) LoadedMap.new = next
      at hloop
    rw [setHashToMap_section behind hcode hsection hnext] at hinside haccepted
    dsimp only at haccepted
    rw [exists_loadOf_eq_accepted] at haccepted
    refine .hash hcode hsection (hloop ?_ ?_)
    · exact fun m hm => hinside.2 m (by simp only [List.mem_append, hm, true_or, or_true])
    · intro hvalue
      obtain ⟨_, hsection', hfilled⟩ := haccepted.mp hvalue
      obtain rfl := hsection.unique hsection'
      exact hfilled
  · intro h
    rcases h with ⟨hlen, hcode⟩ | ⟨hcode, hsection, hread⟩
    · exact loads_other behind hlen hcode
    · exact loads_hash behind hmax hcode hsection hread

/-- An empty hash, and a section with the number of players. -/
def shortFile : List UInt8 := [0, 0, 0, 0, 0, 0, 1, 0, 2, 0, 0, 0, 4, 0]

theorem loads_iff_shortFile : Loads (fun _ => []) shortFile := by
  refine (loads_iff (fun _ => []) (by decide)).mpr (.hash (n := 0) (by decide) ⟨by decide, by decide⟩ ?_)
  exact .next (n := 2) (by decide) ⟨by decide, by decide⟩ (by decide) .done

/-- A file that was cut off behind the length of its hash. -/
def cutFile : List UInt8 := [0, 0, 32, 0, 0, 0]

/-- The hash is read from behind the file. -/
theorem not_loads : ¬ Loads (fun _ => []) cutFile := by
  intro h
  have hread : (⟨6, 6, 32, 32⟩ : Memcpy) ∈ (getHashData (fun _ => []) cutFile).trace
      ++ (setHashToMap (fun _ => []) cutFile).trace := by decide +kernel
  exact absurd (h.inside _ hread) (by decide)

end StarCraftIocp.MapMaker
