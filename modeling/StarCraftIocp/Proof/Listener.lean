import StarCraftIocp.Proof.SessionRuns

/-!
# The listener does not run out of accepts

`StartAccept` registers an accept for each session that the service is meant for, and
whenever one is used up, or fails, another is registered in its place. Whatever the
threads do, and whatever fails, there are always as many accepts in flight, or about
to be posted, as there were at the start: the server goes on listening, and
`_maxSessionCount` is no bound on the sessions that it has.
-/

namespace StarCraftIocp

namespace Service

/-- A call of `RegisterAccept` is under way. -/
def registering {S : Type} : Frame S → Nat
  | .registerAccept => 1
  | _ => 0

end Service

open Service

namespace ServiceState

/-! ## What the other calls leave alone -/

section

variable {T S : Type} [DecidableEq T] [DecidableEq S] {st st' : ServiceState T S} {t : T} {f : Frame S}
  {a : ServiceAction S} {calls : List (Frame S)} {s : S}

/-- No accept is posted, comes in or is asked for. -/
structure Aside (st st' : ServiceState T S) (calls : List (Frame S)) : Prop where
  accepting : ∀ s, (st'.session s).accepting = (st.session s).accepting
  calls : .registerAccept ∉ calls

omit [DecidableEq T] [DecidableEq S] in
theorem Aside.same (h : .registerAccept ∉ calls) : Aside st st calls := ⟨fun _ => rfl, h⟩

omit [DecidableEq T] in
theorem accepting_set {σ : SessionState T} (h : σ.accepting = (st.session s).accepting) (u : S) :
    ((st.set s σ).session u).accepting = (st.session u).accepting := by
  unfold ServiceState.set
  dsimp only
  rcases eq_or_ne u s with rfl | hu
  · rw [Function.update_self, h]
  · rw [Function.update_of_ne hu]

omit [DecidableEq T] in
theorem Aside.set {σ : SessionState T} (h : σ.accepting = (st.session s).accepting)
    (hcalls : .registerAccept ∉ calls) : Aside st (st.set s σ) calls := ⟨accepting_set h, hcalls⟩

omit [DecidableEq T] [DecidableEq S] in
theorem handleError_aside (s : S) (errorCode : Option Nat) : .registerAccept ∉ handleError s errorCode := by
  rcases handleError_cases s errorCode with h | h
  · rw [h]; simp
  · rw [h]; simp

omit [DecidableEq T] [DecidableEq S] in
theorem callback_aside {r : Int → ServiceState T S × List (Frame S)} (hf : f ≠ .registerAccept)
    (hr : ∀ n, Aside st (r n).1 (r n).2) (h : st.callback f r a = some (st', calls)) : Aside st st' calls := by
  rcases callback_cases h with ⟨c, s', hc, rfl, rfl⟩ | ⟨n, hn⟩
  · refine .same fun hmem => ?_
    rcases List.mem_pair.mp hmem with heq | heq
    · rcases hc with rfl | rfl <;> cases heq
    · exact hf heq.symm
  · have hn' := hr n
    rw [hn] at hn'
    exact hn'

omit [DecidableEq T] in
theorem releaseSession_aside : Aside st (st.releaseSession s) [] := by
  unfold releaseSession
  split
  · exact ⟨accepting_set rfl, by simp⟩
  · exact ⟨fun _ => rfl, by simp⟩

theorem call_aside (hf : f ≠ .registerAccept) (h : st.call t f a = some (st', calls)) : Aside st st' calls := by
  unfold call at h
  split at h
  case h_1 => exact absurd rfl hf
  case h_3 =>
    -- `AddSession`, which writes `_sessions` as well
    obtain ⟨rfl, rfl⟩ := Prod.mk.inj (Option.some.inj h)
    exact ⟨accepting_set rfl, by simp⟩
  case h_4 | h_14 | h_19 => exact callback_aside hf (fun _ => .same (by simp)) h
  case h_7 s' =>
    refine callback_aside hf (fun n => ?_) h
    have hret : st.recvReturned s' n = ((st.recvReturned s' n).1, (st.recvReturned s' n).2) := rfl
    rcases recvReturned_cases hret with ⟨hst, hcalls⟩ | ⟨recvBuffer, hst, hcalls⟩
    · rw [hst, hcalls]
      exact .same (by simp)
    · rw [hst, hcalls]
      exact .set rfl (by simp)
  case h_6 | h_12 =>
    split at h
    · obtain ⟨rfl, rfl⟩ := Prod.mk.inj (Option.some.inj h)
      exact .set rfl (by simp)
    · obtain ⟨rfl, rfl⟩ := Prod.mk.inj (Option.some.inj h)
      exact .same (by simp [handleError_aside])
  case h_20 =>
    obtain ⟨rfl, rfl⟩ := Prod.mk.inj (Option.some.inj h)
    exact releaseSession_aside
  case h_21 => cases h
  case h_2 | h_13 | h_16 =>
    obtain ⟨rfl, rfl⟩ := Prod.mk.inj (Option.some.inj h)
    exact .set rfl (by simp)
  case h_5 | h_8 | h_10 =>
    obtain ⟨rfl, rfl⟩ := Prod.mk.inj (Option.some.inj h)
    refine .same ?_
    split <;> simp
  case h_9 =>
    obtain ⟨-, h⟩ := Option.ite_none_right_eq_some.mp h
    obtain ⟨rfl, rfl⟩ := Prod.mk.inj (Option.some.inj h)
    refine .set rfl ?_
    split <;> simp
  case h_11 =>
    obtain ⟨-, h⟩ := Option.ite_none_right_eq_some.mp h
    obtain ⟨rfl, rfl⟩ := Prod.mk.inj (Option.some.inj h)
    exact .set rfl (by simp)
  case h_15 =>
    obtain ⟨-, h⟩ := Option.ite_none_right_eq_some.mp h
    split at h
    · obtain ⟨rfl, rfl⟩ := Prod.mk.inj (Option.some.inj h)
      exact .set rfl (by simp)
    · obtain ⟨rfl, rfl⟩ := Prod.mk.inj (Option.some.inj h)
      exact .set rfl (by simp)
  case h_17 | h_18 =>
    split at h
    · obtain ⟨rfl, rfl⟩ := Prod.mk.inj (Option.some.inj h)
      exact .set rfl (by simp)
    · obtain ⟨rfl, rfl⟩ := Prod.mk.inj (Option.some.inj h)
      exact .same (by simp)

omit [DecidableEq T] in
theorem idle_aside (ha : ∀ s ok, a ≠ .completeAccept s ok) (h : st.idle a = some (st', calls)) :
    Aside st st' calls := by
  unfold idle at h
  split at h
  case h_1 s ok => exact absurd rfl (ha s ok)
  case h_2 s chunk =>
    obtain ⟨-, h⟩ := Option.ite_none_right_eq_some.mp h
    obtain ⟨recvBuffer, rfl, hcalls⟩ := processRecv_cases (Option.some.inj h)
    refine .set rfl ?_
    rcases hcalls with rfl | rfl <;> simp
  case h_3 =>
    obtain ⟨-, h⟩ := Option.ite_none_right_eq_some.mp h
    split at h
    · obtain ⟨rfl, rfl⟩ := Prod.mk.inj (Option.some.inj h)
      exact .set rfl (by simp)
    · obtain ⟨rfl, rfl⟩ := Prod.mk.inj (Option.some.inj h)
      exact .set rfl (by simp)
  case h_4 =>
    obtain ⟨-, h⟩ := Option.ite_none_right_eq_some.mp h
    obtain ⟨rfl, rfl⟩ := Prod.mk.inj (Option.some.inj h)
    exact .set rfl (by simp)
  case h_5 | h_6 =>
    obtain ⟨-, h⟩ := Option.ite_none_right_eq_some.mp h
    obtain ⟨rfl, rfl⟩ := Prod.mk.inj (Option.some.inj h)
    exact .same (by simp)
  case h_7 => cases h

end

/-! ## The accepts -/

section

variable {T S : Type} [Fintype T] [DecidableEq T] [DecidableEq S] {st st' : ServiceState T S} {t : T}
  {gone rest calls : List (Frame S)} {s : S} {acceptCount : Nat}

/-- So many accepts are in flight, or about to be posted. -/
def Slots (acceptCount : Nat) (st : ServiceState T S) : Prop :=
  ∃ waiting : Finset S, (∀ s, s ∈ waiting ↔ (st.session s).accepting = true) ∧
    waiting.card + weigh st.stack registering = acceptCount

omit [Fintype T] [DecidableEq T] [DecidableEq S] in
theorem registering_eq_zero (h : .registerAccept ∉ calls) : (calls.map registering).sum = 0 := by
  refine List.sum_eq_zero fun n hn => ?_
  obtain ⟨f, hf, rfl⟩ := List.mem_map.mp hn
  cases f with
  | registerAccept => exact absurd hf h
  | _ => rfl

omit [DecidableEq S] in
theorem Slots.aside (h : st.Slots acceptCount) (haside : Aside st st' calls) (hstack : st'.stack = st.stack)
    (hgone : .registerAccept ∉ gone) (ht : st.stack t = gone ++ rest) :
    (st'.goto t (calls ++ rest)).Slots acceptCount := by
  obtain ⟨waiting, hwaiting, hcard⟩ := h
  refine ⟨waiting, fun s => ?_, ?_⟩
  · rw [hwaiting, ← haside.accepting s]
    rfl
  · unfold goto
    dsimp only
    rw [hstack, weigh.exchange ht, registering_eq_zero haside.calls, registering_eq_zero hgone]
    exact hcard

omit [Fintype T] in
theorem call_stack {f : Frame S} {a : ServiceAction S} (h : st.call t f a = some (st', calls)) :
    st'.stack = st.stack := by
  rcases call_writes h with rfl | ⟨s, σ, rfl⟩ | ⟨s, σ, -, rfl⟩ | ⟨s, -, rfl, -⟩
  · rfl
  · rfl
  · rfl
  · unfold releaseSession
    split <;> rfl

/-- `RegisterAccept`: an accept is posted for a session that is new, or is asked for again. -/
theorem Slots.registerAccept {a : ServiceAction S} (h : st.Slots acceptCount) (hordered : ∀ s, (st.view s).Ordered)
    (hstack : st.stack t = .registerAccept :: rest) (hcall : st.call t .registerAccept a = some (st', calls)) :
    (st'.goto t (calls ++ rest)).Slots acceptCount := by
  obtain ⟨waiting, hwaiting, hcard⟩ := h
  have hgone : st.stack t = [.registerAccept] ++ rest := hstack
  have hone : 1 ≤ weigh st.stack registering := weigh.pos_head hstack Nat.one_pos
  have hweigh := @weigh.exchange _ _ _ _ _ registering _ _ _ hgone
  cases a with
  | acceptEx s errorCode =>
      obtain ⟨hnew, hcall⟩ := Option.ite_none_left_eq_some.mp hcall
      have hfresh : (st.session s).accepting = false := ((hordered s).uncreated (Bool.eq_false_iff.mpr hnew)).1
      split at hcall
      · obtain ⟨rfl, rfl⟩ := Prod.mk.inj (Option.some.inj hcall)
        have hnot : s ∉ waiting := by
          rw [hwaiting, hfresh]
          nofun
        refine ⟨insert s waiting, fun u => ?_, ?_⟩
        · rw [Finset.mem_insert, hwaiting]
          unfold goto set
          dsimp only
          rcases eq_or_ne u s with rfl | hu
          · rw [Function.update_self]
            exact iff_of_true (.inl rfl) rfl
          · rw [Function.update_of_ne hu]
            exact or_iff_right hu
        · have hposted : weigh (Function.update st.stack t ([] ++ rest)) registering =
              weigh st.stack registering - 1 := hweigh []
          rw [Finset.card_insert_of_notMem hnot]
          unfold goto set
          dsimp only
          omega
      · obtain ⟨rfl, rfl⟩ := Prod.mk.inj (Option.some.inj hcall)
        refine ⟨waiting, fun u => ?_, ?_⟩
        · have hsame : ((st.set s { st.session s with created := true }).session u).accepting =
              (st.session u).accepting := @accepting_set T S _ st s { st.session s with created := true } rfl u
          rw [hwaiting, ← hsame]
          rfl
        · have hagain : weigh (Function.update st.stack t ([.registerAccept] ++ rest)) registering =
              weigh st.stack registering + 1 - 1 := hweigh [.registerAccept]
          unfold goto set
          dsimp only
          omega
  | _ => cases hcall

/-- `ProcessAccept`: the accept is used up, and another is registered. -/
theorem Slots.completeAccept {ok : Bool} (h : st.Slots acceptCount) (hstack : st.stack t = [])
    (hidle : st.idle (.completeAccept s ok) = some (st', calls)) : (st'.goto t calls).Slots acceptCount := by
  obtain ⟨waiting, hwaiting, hcard⟩ := h
  obtain ⟨haccepting, hidle⟩ := Option.ite_none_right_eq_some.mp hidle
  have hmem := (hwaiting s).mpr haccepting
  have hcalls : st' = st.set s { st.session s with accepting := false } ∧ (calls.map registering).sum = 1 := by
    split at hidle
    · obtain ⟨rfl, rfl⟩ := Prod.mk.inj (Option.some.inj hidle)
      exact ⟨rfl, rfl⟩
    · obtain ⟨rfl, rfl⟩ := Prod.mk.inj (Option.some.inj hidle)
      exact ⟨rfl, rfl⟩
  obtain ⟨rfl, hsum⟩ := hcalls
  refine ⟨waiting.erase s, fun u => ?_, ?_⟩
  · rw [Finset.mem_erase, hwaiting]
    unfold goto set
    dsimp only
    rcases eq_or_ne u s with rfl | hu
    · rw [Function.update_self]
      exact iff_of_false (fun h => h.1 rfl) nofun
    · rw [Function.update_of_ne hu]
      exact and_iff_right hu
  · have hgone : st.stack t = [] ++ [] := hstack
    have hweigh := @weigh.exchange _ _ _ _ _ registering _ _ _ hgone calls
    rw [List.append_nil, hsum] at hweigh
    rw [Finset.card_erase_of_mem hmem]
    have hpos := Finset.card_pos.mpr ⟨s, hmem⟩
    unfold goto set
    dsimp only
    rw [hweigh]
    simp only [List.map_nil, List.sum_nil, Nat.sub_zero]
    omega

omit [DecidableEq S] in
theorem slots_init (main : T) (acceptCount : Nat) : (init main acceptCount : ServiceState T S).Slots acceptCount := by
  refine ⟨∅, fun s => iff_of_false (Finset.notMem_empty s) nofun, ?_⟩
  unfold weigh init tally
  dsimp only
  rw [Finset.card_empty, Nat.zero_add, Finset.sum_eq_single main]
  · rw [Function.update_self]
    simp [registering]
  · intro t _ ht
    rw [Function.update_of_ne ht]
    rfl
  · exact fun h => absurd (Finset.mem_univ main) h

theorem slots_next {a : T × ServiceAction S} (hordered : ∀ s, (st.view s).Ordered) (h : st.Slots acceptCount)
    (hnext : st.next a = some st') : st'.Slots acceptCount := by
  obtain ⟨t, a⟩ := a
  obtain ⟨-, hnext⟩ := Option.ite_none_left_eq_some.mp hnext
  split at hnext
  · next hstack =>
    have hempty : st.stack t = [] ++ [] := hstack
    obtain ⟨⟨st₁, calls⟩, hidle, rfl⟩ := Option.map_eq_some_iff.mp hnext
    cases a with
    | completeAccept s ok => exact h.completeAccept hstack hidle
    | _ =>
        have haside := idle_aside nofun hidle
        have hsame : st₁.stack = st.stack := by
          rcases idle_writes hidle with rfl | ⟨s, σ, rfl⟩ <;> rfl
        have hslots := h.aside haside hsame (by simp) hempty
        rw [List.append_nil] at hslots
        exact hslots
  · next f rest hstack =>
    obtain ⟨⟨st₁, calls⟩, hcall, rfl⟩ := Option.map_eq_some_iff.mp hnext
    have hgone : st.stack t = [f] ++ rest := hstack
    by_cases hf : f = .registerAccept
    · subst hf
      exact h.registerAccept hordered hstack hcall
    · exact h.aside (call_aside hf hcall) (call_stack hcall) (fun hmem => hf (List.mem_singleton.mp hmem).symm) hgone

/-- A session that waits in an accept is new: it is in no list, and nobody is connected to it. -/
def Fresh (st : ServiceState T S) (s : S) : Prop :=
  s ∉ st.sessions ∧ (st.session s).connected = false ∧ (st.session s).added = 0

omit [DecidableEq T] in
theorem fresh_of_ordered (h : (st.view s).Ordered) (haccepting : (st.session s).accepting = true) : st.Fresh s := by
  have honce := h.once
  have hview : (st.view s).accepting.toNat = 1 := by
    change (st.session s).accepting.toNat = 1
    rw [haccepting]
    rfl
  have hadded : (st.view s).added = 0 := by omega
  refine ⟨fun hmem => ?_, Bool.eq_false_iff.mpr fun hconn => ?_, hadded⟩
  · have := (h.listed.mp hmem).1
    omega
  · have := (h.connected hconn).1
    omega

/-- What holds along every run; only the last step of a run can crash. -/
structure Listening (acceptCount : Nat) (st : ServiceState T S) : Prop where
  ordered : st.crashed = false → ∀ s, (st.view s).Ordered
  slots : st.Slots acceptCount
  fresh : ∀ s, (st.session s).accepting = true → st.Fresh s

theorem listening_next {a : T × ServiceAction S} (h : st.Listening acceptCount) (hnext : st.next a = some st') :
    st'.Listening acceptCount := by
  have halive : st.crashed = false := Bool.eq_false_iff.mpr (Option.ite_none_left_eq_some.mp hnext).1
  have hslots := slots_next (h.ordered halive) h.slots hnext
  cases hcrash : st'.crashed with
  | false =>
      have hordered := ordered_next (h.ordered halive) hnext hcrash
      exact ⟨fun _ => hordered, hslots, fun s haccepting => fresh_of_ordered (hordered s) haccepting⟩
  | true =>
      refine ⟨fun hfalse => absurd (hcrash.symm.trans hfalse) nofun, hslots, ?_⟩
      obtain ⟨s, rest, -, -, rfl⟩ := next_crashed hnext hcrash
      exact h.fresh

theorem listening_init (main : T) (acceptCount : Nat) :
    (init main acceptCount : ServiceState T S).Listening acceptCount :=
  ⟨fun _ => ordered_init main acceptCount, slots_init main acceptCount, nofun⟩

end

end ServiceState

end StarCraftIocp
