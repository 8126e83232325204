import StarCraftIocp.Proof.SessionLife

/-!
# Runs of a server

What the turns of a session add up to. The order of the two steps in `ProcessConnect`
leaves a gap: a session is connected before it is one of `_sessions`. A `Disconnect`
that falls into the gap can bring its end before its beginning. And a session is left
alone with an error of `WSARecv` that `HandleError` does not know.
-/

namespace StarCraftIocp

open Service

namespace ServiceState

section

variable {T S : Type} [DecidableEq S] {st st' : ServiceState T S} {t : T} {a : ServiceAction S} {f : Frame S}
  {calls : List (Frame S)}

/-! ## What a step writes -/

theorem idle_writes (h : st.idle a = some (st', calls)) : st' = st ∨ ∃ s σ, st' = st.set s σ := by
  unfold idle at h
  split at h
  case h_2 s chunk =>
    split at h
    · obtain ⟨recvBuffer, rfl, -⟩ := processRecv_cases (Option.some.inj h)
      exact Or.inr ⟨_, _, rfl⟩
    · cases h
  all_goals
    repeat' (first | split at h | dsimp only at h)
    all_goals cases h
    all_goals first
      | exact Or.inl rfl
      | exact Or.inr ⟨_, _, rfl⟩

/-- Besides the one session, only `AddSession` and `ReleaseSession` write anything. -/
theorem call_writes [DecidableEq T] (h : st.call t f a = some (st', calls)) :
    st' = st ∨ (∃ s σ, st' = st.set s σ) ∨
      (∃ s σ, f = .addSession s ∧ st' = { st.set s σ with
        sessions := insert s st.sessions
        sessionCount := st.sessionCount + 1 }) ∨
      ∃ s, f = .releaseSession s ∧ st' = st.releaseSession s ∧ calls = [] := by
  unfold call at h
  split at h
  case h_3 s =>
    cases h
    exact Or.inr (Or.inr (Or.inl ⟨s, _, rfl, rfl⟩))
  case h_20 s =>
    cases h
    exact Or.inr (Or.inr (Or.inr ⟨s, rfl, rfl, rfl⟩))
  case h_7 s =>
    rcases callback_cases h with ⟨c, s', hc, rfl, rfl⟩ | ⟨processLen, hret⟩
    · exact Or.inl rfl
    · rcases recvReturned_cases hret with ⟨rfl, rfl⟩ | ⟨recvBuffer, rfl, rfl⟩
      · exact Or.inl rfl
      · exact Or.inr (Or.inl ⟨s, _, rfl⟩)
  case h_4 | h_14 | h_19 =>
    rcases callback_cases h with ⟨c, s', hc, rfl, rfl⟩ | ⟨processLen, hret⟩
    · exact Or.inl rfl
    · cases hret
      exact Or.inl rfl
  all_goals
    repeat' (first | split at h | dsimp only at h)
    all_goals cases h
    all_goals first
      | exact Or.inl rfl
      | exact Or.inr (Or.inl ⟨_, _, rfl⟩)

end

variable {T S : Type} [Fintype T] [DecidableEq T] [DecidableEq S] {st st' : ServiceState T S}
  {a : T × ServiceAction S} {f : Frame S} {rest : List (Frame S)} {s : S}

/-! ## The tokens in every state -/

theorem view_init (main : T) (acceptCount : Nat) (s : S) : (init main acceptCount : ServiceState T S).view s =
    { created := false, accepting := false, connected := false, listed := False, entering := 0, adding := 0
      added := 0, recvs := 0, hearing := 0, disconnects := 0, closing := 0, ending := 0, disconnected := 0
      released := 0 } := by
  have hzero : ∀ w : Frame S → Nat, w .registerAccept = 0 →
      weigh (init main acceptCount : ServiceState T S).stack w = 0 := by
    intro w hw
    refine weigh.eq_zero ?_
    intro t f hf
    by_cases ht : t = main
    · subst ht
      simp only [init, Function.update_self] at hf
      rw [List.eq_of_mem_replicate hf]
      exact hw
    · simp only [init, Function.update_of_ne ht, List.not_mem_nil] at hf
  simp only [view, hzero (entering s) rfl, hzero (adding s) rfl, hzero (hearing s) rfl,
    hzero (closing s) rfl, hzero (ending s) rfl]
  simp only [init, SessionState.new, Finset.notMem_empty]

theorem ordered_init (main : T) (acceptCount : Nat) (s : S) :
    ((init main acceptCount : ServiceState T S).view s).Ordered := by
  rw [view_init]
  exact ⟨by decide, fun _ => ⟨rfl, rfl, rfl, rfl⟩, nofun, by decide, rfl, by decide, by decide⟩

theorem ordered_next (hordered : ∀ s, (st.view s).Ordered) (hnext : st.next a = some st')
    (hcrash : st'.crashed = false) : ∀ s, (st'.view s).Ordered := by
  intro s
  obtain ⟨turn, hcan, -, hview⟩ := next_turns hnext hcrash s
  rw [hview]
  exact (hordered s).apply hcan

omit [Fintype T] in
/-- An assertion fails only in `ReleaseSession`. -/
theorem next_crashed (h : st.next a = some st') (hcrash : st'.crashed = true) :
    ∃ s rest, st.stack a.1 = .releaseSession s :: rest ∧ s ∉ st.sessions ∧
      st' = { st with crashed := true }.goto a.1 rest := by
  unfold next at h
  split at h
  · cases h
  · next halive =>
    split at h
    · next hstack =>
      obtain ⟨⟨st₁, calls⟩, hidle, rfl⟩ := Option.map_eq_some_iff.mp h
      rcases idle_writes hidle with rfl | ⟨s, σ, rfl⟩
      · exact absurd hcrash halive
      · exact absurd hcrash halive
    · next f rest hstack =>
      obtain ⟨⟨st₁, calls⟩, hcall, rfl⟩ := Option.map_eq_some_iff.mp h
      rcases call_writes hcall with rfl | ⟨s, σ, rfl⟩ | ⟨s, σ, rfl, rfl⟩ | ⟨s, rfl, rfl, rfl⟩
      · exact absurd hcrash halive
      · exact absurd hcrash halive
      · exact absurd hcrash halive
      · have hlisted : s ∉ st.sessions := by
          intro hlisted
          simp only [goto, releaseSession, if_pos hlisted] at hcrash
          exact halive hcrash
        refine ⟨s, rest, hstack, hlisted, ?_⟩
        simp only [releaseSession, if_neg hlisted, List.nil_append]

omit [DecidableEq T] in
theorem adding_eq_zero (h : ∀ t, .addSession s ∉ st.stack t) : (st.view s).adding = 0 := by
  refine weigh.eq_zero ?_
  intro t f hf
  cases f with
  | addSession s' =>
      refine if_neg ?_
      intro heq
      subst heq
      exact h t hf
  | _ => rfl

omit [DecidableEq T] in
theorem ending_le_closing : (st.view s).ending ≤ (st.view s).closing := by
  refine weigh.mono ?_
  intro f
  cases f <;> simp only [ending, closing, Nat.le_refl, Nat.zero_le]

omit [DecidableEq T] in
theorem closing_pos {t : T} (hstack : st.stack t = .releaseSession s :: rest) : 0 < (st.view s).closing :=
  weigh.pos_head hstack (by simp only [closing, if_true, Nat.one_pos])

/-! ## Beginning and end -/

/-- A `Disconnect` finds the session connected before its `AddSession`. -/
def Early (st : ServiceState T S) (a : T × ServiceAction S) : Prop :=
  match (st.stack a.1).head? with
  | some (.disconnect s) => (st.session s).connected = true ∧ ∃ t, .addSession s ∈ st.stack t
  | _ => False

instance (st : ServiceState T S) (a : T × ServiceAction S) : Decidable (st.Early a) := by
  unfold Early
  split <;> infer_instance

/-- Sessions begin once, end once, and end after they began. -/
structure Orderly (st : ServiceState T S) : Prop where
  added : ∀ s, (st.session s).added ≤ 1
  disconnected : ∀ s, (st.session s).disconnected ≤ 1
  released : ∀ s, (st.session s).released ≤ 1
  disconnected_added : ∀ s, 0 < (st.session s).disconnected → (st.session s).added = 1
  released_added : ∀ s, 0 < (st.session s).released → (st.session s).added = 1
  alive : st.crashed = false
  count : st.sessionCount = st.sessions.card

structure Sound (st : ServiceState T S) : Prop where
  ordered : ∀ s, (st.view s).Ordered
  settled : ∀ s, (st.view s).Settled
  alive : st.crashed = false
  count : st.sessionCount = st.sessions.card

omit [DecidableEq T] in
theorem Sound.orderly (h : st.Sound) : st.Orderly := by
  have hone : ∀ s, (st.session s).added ≤ 1 ∧ (st.session s).disconnected ≤ 1 ∧ (st.session s).released ≤ 1 ∧
      (0 < (st.session s).disconnected → (st.session s).added = 1) ∧
      (0 < (st.session s).released → (st.session s).added = 1) := by
    intro s
    have honce := (h.ordered s).once
    have hclosed := (h.ordered s).closed
    have hended := (h.ordered s).ended
    have hending := @ending_le_closing T S _ _ st s
    have hsettled := h.settled s
    unfold View.Settled at hsettled
    dsimp only [view] at honce hclosed hended hending hsettled
    omega
  exact ⟨fun s => (hone s).1, fun s => (hone s).2.1, fun s => (hone s).2.2.1, fun s => (hone s).2.2.2.1,
    fun s => (hone s).2.2.2.2, h.alive, h.count⟩

omit [DecidableEq T] in
/-- A session whose end has come is one of `_sessions`. -/
theorem Sound.listed (h : st.Sound) {t : T} (hstack : st.stack t = .releaseSession s :: rest) :
    s ∈ st.sessions := by
  have hclosing := closing_pos hstack
  have hadded := h.settled s (by omega)
  have hclosed := (h.ordered s).closed
  have honce := (h.ordered s).once
  exact (h.ordered s).listed.mpr ⟨hadded, by omega⟩

/-- `_sessionCount` goes with `_sessions`: what is added was not there, what is released was. -/
theorem count_next (h : st.Sound) (hnext : st.next a = some st') : st'.sessionCount = st'.sessions.card := by
  unfold next at hnext
  split at hnext
  · cases hnext
  · split at hnext
    · obtain ⟨⟨st₁, calls⟩, hidle, rfl⟩ := Option.map_eq_some_iff.mp hnext
      rcases idle_writes hidle with rfl | ⟨s, σ, rfl⟩
      · exact h.count
      · exact h.count
    · next f rest hstack =>
      obtain ⟨⟨st₁, calls⟩, hcall, rfl⟩ := Option.map_eq_some_iff.mp hnext
      rcases call_writes hcall with rfl | ⟨s, σ, rfl⟩ | ⟨s, σ, rfl, rfl⟩ | ⟨s, rfl, rfl, -⟩
      · exact h.count
      · exact h.count
      · -- a session whose `AddSession` is still to come has not been added
        have hadding : 0 < (st.view s).adding :=
          weigh.pos_head hstack (by simp only [adding, if_true, Nat.one_pos])
        have hnot : s ∉ st.sessions := by
          intro hmem
          have hadded := ((h.ordered s).listed.mp hmem).1
          have honce := (h.ordered s).once
          omega
        show st.sessionCount + 1 = ((insert s st.sessions).card : Int)
        rw [Finset.card_insert_of_notMem hnot, h.count]
        rfl
      · have hmem := h.listed hstack
        have hpos : 0 < st.sessions.card := Finset.card_pos.mpr ⟨s, hmem⟩
        simp only [releaseSession, if_pos hmem, goto]
        rw [Finset.card_erase_of_mem hmem, h.count]
        omega

theorem sound_next (h : st.Sound) (ha : ¬ st.Early a) (hnext : st.next a = some st') : st'.Sound := by
  have hcrash : st'.crashed = false := by
    by_contra hcrash
    obtain ⟨s, rest, hstack, hlisted, -⟩ := next_crashed hnext (by simpa using hcrash)
    exact hlisted (h.listed hstack)
  refine ⟨ordered_next h.ordered hnext hcrash, ?_, hcrash, count_next h hnext⟩
  intro s
  obtain ⟨turn, hcan, hcause, hview⟩ := next_turns hnext hcrash s
  rw [hview]
  refine (h.settled s).apply (h.ordered s) hcan ?_
  intro heq
  subst heq
  refine adding_eq_zero ?_
  intro t hmem
  -- this is the `Disconnect` in the gap
  apply ha
  unfold Early
  rw [hcause]
  exact ⟨hcan.1, t, hmem⟩

theorem sound_init (main : T) (acceptCount : Nat) : (init main acceptCount : ServiceState T S).Sound := by
  refine ⟨ordered_init main acceptCount, ?_, rfl, rfl⟩
  intro s
  rw [view_init]
  nofun

/-- In every run in which no `Disconnect` comes before the `AddSession` of a session. -/
theorem orderly_reachable (main : T) (acceptCount : Nat)
    (h : Reachable ((Transition.ofFun next).guarded fun st a => ¬ st.Early a) (init main acceptCount) st) :
    st.Orderly := by
  refine Sound.orderly (h.invariant (sound_init main acceptCount) ?_)
  intro s a s' hs hstep
  exact sound_next hs hstep.1 hstep.2

/-- A client that is served, and is then disconnected by another thread. -/
theorem orderly_reachable_disconnect : ∃ st : ServiceState (Fin 3) Nat,
    (st.session 7).released = 1 ∧ st.Orderly := by
  have hrun : ([(0, .acceptEx 7 none), (1, .completeAccept 7 true), (1, .next), (1, .next), (1, .ret 0),
      (0, .disconnect 7), (1, .next), (0, .next), (1, .winsock none), (0, .winsock none),
      (2, .completeDisconnect 7), (2, .ret 0), (2, .next)].foldlM
      (guardedFun (next (T := Fin 3) (S := Nat)) fun st a => ¬ st.Early a) (init 0 1)).map
      (fun st => (st.session 7).released) = some 1 := by decide +kernel
  obtain ⟨st, hrun, hreleased⟩ := Option.map_eq_some_iff.mp hrun
  exact ⟨st, hreleased, orderly_reachable 0 1 (Reachable.of_run_guarded hrun Reachable.refl)⟩

/-- A thread that has got the session from the factory disconnects it before it is added. -/
theorem not_orderly_reachable : ¬ ∀ st : ServiceState (Fin 3) Nat,
    Reachable (Transition.ofFun next) (init 0 1) st → st.Orderly := by
  intro hall
  have hrun : ([(0, .acceptEx 7 none), (1, .completeAccept 7 true), (1, .next), (0, .disconnect 7),
    (0, .next),
      (0, .winsock none), (2, .completeDisconnect 7), (2, .ret 0), (2, .next)].foldlM
      (next (T := Fin 3) (S := Nat)) (init 0 1)).map (fun st => st.crashed) = some true := by decide +kernel
  obtain ⟨st, hrun, hcrashed⟩ := Option.map_eq_some_iff.mp hrun
  have horderly := hall st (Reachable.of_run hrun Reachable.refl)
  rw [horderly.alive] at hcrashed
  cases hcrashed

/-! ## Nobody is left alone -/

/-- No thread is in a function of the session. -/
def Quiet (st : ServiceState T S) (s : S) : Prop := ∀ t, ∀ f ∈ st.stack t, f.session ≠ some s

instance (st : ServiceState T S) (s : S) : Decidable (st.Quiet s) :=
  inferInstanceAs (Decidable (∀ t, ∀ f ∈ st.stack t, f.session ≠ some s))

/-- The system will report on the session, or it has ended. -/
def Attended (st : ServiceState T S) (s : S) : Prop :=
  ((st.session s).connected = true ∧ 0 < (st.session s).recvs) ∨
    ((st.session s).connected = false ∧ 0 < (st.session s).disconnects) ∨
    ((st.session s).connected = false ∧ 0 < (st.session s).released ∧ s ∉ st.sessions)

instance (st : ServiceState T S) (s : S) : Decidable (st.Attended s) :=
  inferInstanceAs (Decidable (_ ∨ _))

/-- An error of `WSARecv` or `DisconnectEx` is one that the code has an answer to. -/
def Handled (st : ServiceState T S) (a : T × ServiceAction S) : Prop :=
  match (st.stack a.1).head?, a.2 with
  | some (.wsaRecv s), .winsock errorCode => posted errorCode = false → (st.session s).connected = true →
      errorCode = some wsaEConnReset ∨ errorCode = some wsaEConnAborted
  | some (.disconnectEx _), .winsock errorCode => posted errorCode = true
  | _, _ => True

instance (st : ServiceState T S) (a : T × ServiceAction S) : Decidable (st.Handled a) := by
  unfold Handled
  split <;> infer_instance

theorem heard_next (hordered : ∀ s, (st.view s).Ordered) (hheard : ∀ s, (st.view s).Heard) (ha : st.Handled a)
    (hnext : st.next a = some st') (hcrash : st'.crashed = false) :
    (∀ s, (st'.view s).Ordered) ∧ ∀ s, (st'.view s).Heard := by
  refine ⟨ordered_next hordered hnext hcrash, ?_⟩
  intro s
  obtain ⟨turn, hcan, hcause, hview⟩ := next_turns hnext hcrash s
  rw [hview]
  refine (hheard s).apply (hordered s) hcan ?_ ?_
  · -- a session is lost only to an error that the guard excludes
    intro heq
    subst heq
    by_contra hclosed
    have hconn : (st.session s).connected = true := by simpa [view] using hclosed
    obtain ⟨errorCode, hhead, haction, hposted, hcalls⟩ := hcause hconn
    unfold Handled at ha
    rw [hhead, haction] at ha
    rcases ha hposted hconn with rfl | rfl
    · cases hcalls
    · cases hcalls
  · intro heq
    subst heq
    obtain ⟨errorCode, hhead, haction, hposted⟩ := hcause
    unfold Handled at ha
    rw [hhead, haction] at ha
    exact absurd ha (by simp [hposted])

theorem heard_init (main : T) (acceptCount : Nat) (s : S) :
    ((init main acceptCount : ServiceState T S).view s).Heard := by
  rw [view_init]
  exact ⟨nofun, nofun⟩

/-- The assertion fails for a session that has not been added; the others are what they were. -/
theorem view_crashed (hordered : ∀ s, (st.view s).Ordered) (hnext : st.next a = some st')
    (hcrash : st'.crashed = true)
    (hadded : 0 < (st'.session s).added) : st'.view s = st.view s := by
  obtain ⟨s', rest, hstack, hlisted, rfl⟩ := next_crashed hnext hcrash
  have hclosing := closing_pos hstack
  have hne : s' ≠ s := by
    intro heq
    subst heq
    have hadded' : 0 < (st.view s').added := hadded
    have honce := (hordered s').once
    have hclosed := (hordered s').closed
    exact hlisted ((hordered s').listed.mpr ⟨by omega, by omega⟩)
  have hview : ({ st with crashed := true }.goto a.1 ([] ++ rest)).view s =
      (st.view s).exchange s [.releaseSession s'] [] := view_goto hstack
  refine hview.trans (View.exchange_foreign ?_ nofun)
  intro f hf
  rw [List.mem_singleton.mp hf]
  exact fun heq => hne (Option.some.inj heq)

omit [DecidableEq T] in
/-- With no call of the session under way, what is heard of it is heard from the system. -/
theorem attended_of_heard (hordered : (st.view s).Ordered) (hheard : (st.view s).Heard)
    (hadded : 0 < (st.session s).added) (hquiet : st.Quiet s) : st.Attended s := by
  obtain ⟨honce, -, -, hclosed, -, hreleased, hlisted⟩ := hordered
  obtain ⟨hopen, hend⟩ := hheard
  -- no call is under way, so none carries a token
  have hhearing : (st.view s).hearing = 0 :=
    weigh.eq_zero fun t f hf => (foreign_tokens (hquiet t f hf)).2.2.1
  have hclosing : (st.view s).closing = 0 :=
    weigh.eq_zero fun t f hf => (foreign_tokens (hquiet t f hf)).2.2.2.1
  rw [hhearing] at hopen
  rw [hclosing] at hend
  dsimp only [view] at hopen hend hlisted honce hreleased
  cases hconn : (st.session s).connected with
  | true => exact Or.inl ⟨hconn, hopen hconn⟩
  | false =>
      have := hend hconn (by omega)
      by_cases hdisconnects : 0 < (st.session s).disconnects
      · exact Or.inr (Or.inl ⟨hconn, hdisconnects⟩)
      · refine Or.inr (Or.inr ⟨hconn, by omega, ?_⟩)
        intro hmem
        have := (hlisted.mp hmem).2
        omega

/-- In every run in which every error of `WSARecv` and `DisconnectEx` is one that the code has an answer to. -/
theorem attended_reachable (main : T) (acceptCount : Nat)
    (h : Reachable ((Transition.ofFun next).guarded Handled) (init main acceptCount) st)
    {s : S} (hadded : 0 < (st.session s).added) (hquiet : st.Quiet s) : st.Attended s := by
  have hinv : ∀ s, st.crashed = false ∨ 0 < (st.session s).added → (st.view s).Ordered ∧
    (st.view s).Heard := by
    refine h.invariant (I := fun st => ∀ s, st.crashed = false ∨ 0 < (st.session s).added →
      (st.view s).Ordered ∧ (st.view s).Heard)
      (fun s _ => ⟨ordered_init main acceptCount s, heard_init main acceptCount s⟩) ?_
    intro st₀ a st₁ hs hstep s halive
    obtain ⟨hhandled, hnext⟩ := hstep
    have hbefore : st₀.crashed = false := by
      unfold Transition.ofFun next at hnext
      split at hnext
      · cases hnext
      · next hnot => simpa using hnot
    have hordered := fun s => (hs s (Or.inl hbefore)).1
    have hheard := fun s => (hs s (Or.inl hbefore)).2
    cases hcrash : st₁.crashed with
    | false =>
        obtain ⟨hordered', hheard'⟩ := heard_next hordered hheard hhandled hnext hcrash
        exact ⟨hordered' s, hheard' s⟩
    | true =>
        rw [view_crashed hordered hnext hcrash (halive.resolve_left (by simp [hcrash]))]
        exact ⟨hordered s, hheard s⟩
  obtain ⟨hordered, hheard⟩ := hinv s (Or.inr hadded)
  exact attended_of_heard hordered hheard hadded hquiet

/-- A client that sends something, and is listened to again. -/
theorem attended_reachable_recv : ∃ st : ServiceState (Fin 2) Nat,
    (st.session 7).connected = true ∧ st.Attended 7 := by
  have hrun : ([(0, .acceptEx 7 none), (1, .completeAccept 7 true), (1, .next), (1, .next),
    (1, .ret 0), (1, .next),
      (1, .winsock (some wsaIoPending)), (0, .completeRecv 7 [1, 2]), (0, .ret 2), (0, .next),
      (0, .winsock none)].foldlM
      (guardedFun (next (T := Fin 2) (S := Nat)) Handled) (init 0 1)).map
      (fun st => (decide (0 < (st.session 7).added ∧ st.Quiet 7), (st.session 7).connected)) =
      some (true, true) := by decide +kernel
  obtain ⟨st, hrun, hview⟩ := Option.map_eq_some_iff.mp hrun
  obtain ⟨hstate, hconn⟩ := Prod.mk.inj hview
  obtain ⟨hadded, hquiet⟩ := of_decide_eq_true hstate
  exact ⟨st, hconn, attended_reachable 0 1 (Reachable.of_run_guarded hrun Reachable.refl) hadded hquiet⟩

/-- The first `WSARecv` fails with `WSAENOBUFS`. -/
theorem not_attended_reachable : ¬ ∀ st : ServiceState (Fin 2) Nat,
    Reachable (Transition.ofFun next) (init 0 1) st → ∀ s, 0 < (st.session s).added → st.Quiet s →
    st.Attended s := by
  intro hall
  have hrun : ([(0, .acceptEx 7 none), (1, .completeAccept 7 true), (1, .next), (1, .next),
    (1, .ret 0), (1, .next),
      (1, .winsock (some 10055))].foldlM (next (T := Fin 2) (S := Nat)) (init 0 1)).map
      (fun st => (decide (0 < (st.session 7).added ∧ st.Quiet 7), decide (st.Attended 7))) =
      some (true, false) := by decide +kernel
  obtain ⟨st, hrun, hview⟩ := Option.map_eq_some_iff.mp hrun
  obtain ⟨hstate, hattended⟩ := Prod.mk.inj hview
  obtain ⟨hadded, hquiet⟩ := of_decide_eq_true hstate
  exact of_decide_eq_false hattended (hall st (Reachable.of_run hrun Reachable.refl) 7 hadded hquiet)

end ServiceState

end StarCraftIocp
