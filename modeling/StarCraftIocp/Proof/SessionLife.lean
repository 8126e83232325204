import StarCraftIocp.Lib.Transition
import StarCraftIocp.Proof.SessionTurns

/-!
# Sessions begin once and end once

Every step of the threads is a turn of each session, for most of them the one in which
nothing happens.
-/

namespace StarCraftIocp

namespace Service

variable {S : Type} [DecidableEq S]

/-! ## The tokens of a session -/

def entering (s : S) : Frame S → Nat
  | .processConnect s' => if s' = s then 1 else 0
  | _ => 0

def adding (s : S) : Frame S → Nat
  | .addSession s' => if s' = s then 1 else 0
  | _ => 0

def hearing (s : S) : Frame S → Nat
  | .addSession s' | .onConnected s' | .registerRecv s' | .wsaRecv s' | .onRecv s' | .disconnect s' =>
      if s' = s then 1 else 0
  | _ => 0

def closing (s : S) : Frame S → Nat
  | .disconnectEx s' | .onDisconnected s' | .releaseSession s' => if s' = s then 1 else 0
  | _ => 0

def ending (s : S) : Frame S → Nat
  | .onDisconnected s' | .releaseSession s' => if s' = s then 1 else 0
  | _ => 0

end Service

open Service

namespace ServiceState

variable {T S : Type} [Fintype T] [DecidableEq T] [DecidableEq S]

def view (st : ServiceState T S) (s : S) : View where
  created := (st.session s).created
  accepting := (st.session s).accepting
  connected := (st.session s).connected
  listed := s ∈ st.sessions
  entering := weigh st.stack (entering s)
  adding := weigh st.stack (adding s)
  added := (st.session s).added
  recvs := (st.session s).recvs
  hearing := weigh st.stack (hearing s)
  disconnects := (st.session s).disconnects
  closing := weigh st.stack (closing s)
  ending := weigh st.stack (ending s)
  disconnected := (st.session s).disconnected
  released := (st.session s).released

/-- What brings about the turns that matter. -/
def Cause (st : ServiceState T S) (a : T × ServiceAction S) (s : S) : Turn → Prop
  | .disconnect => (st.stack a.1).head? = some (.disconnect s)
  | .lose => (st.session s).connected = true →
      ∃ errorCode, (st.stack a.1).head? = some (.wsaRecv s) ∧ a.2 = .winsock errorCode ∧
        posted errorCode = false ∧ handleError s errorCode = []
  | .failDisconnect => ∃ errorCode, (st.stack a.1).head? = some (.disconnectEx s) ∧
      a.2 = .winsock errorCode ∧ posted errorCode = false
  | _ => True

/-- The step from `st` to `st'` is a turn of the session. -/
def Turns (st : ServiceState T S) (a : T × ServiceAction S) (s : S) (st' : ServiceState T S) : Prop :=
  ∃ turn, (st.view s).Can turn ∧ st.Cause a s turn ∧ st'.view s = (st.view s).apply turn

end ServiceState

/-! ## What calls come to -/

namespace ServiceState

variable {T S : Type} [DecidableEq S] {st st' : ServiceState T S} {a : ServiceAction S} {f : Frame S}
  {calls : List (Frame S)} {s : S}

omit [DecidableEq S] in
theorem handleError_cases (s : S) (errorCode : Option Nat) :
    handleError s errorCode = [.disconnect s] ∨ handleError s errorCode = [] := by
  unfold handleError
  split
  · exact Or.inr rfl
  · split
    · exact Or.inl rfl
    · exact Or.inr rfl

/-- After `OnRecv` either the session is disconnected, or the buffer is cleaned and the next receive comes. -/
theorem recvReturned_cases {processLen : Int} (h : st.recvReturned s processLen = (st', calls)) :
    (st' = st ∧ calls = [.disconnect s]) ∨
      ∃ recvBuffer, st' = st.set s { st.session s with recvBuffer := recvBuffer } ∧
      calls = [.registerRecv s] := by
  unfold recvReturned at h
  dsimp only at h
  split at h
  · obtain ⟨rfl, rfl⟩ := Prod.mk.inj h
    exact Or.inl ⟨rfl, rfl⟩
  · split at h
    · obtain ⟨rfl, rfl⟩ := Prod.mk.inj h
      exact Or.inl ⟨rfl, rfl⟩
    · obtain ⟨rfl, rfl⟩ := Prod.mk.inj h
      exact Or.inr ⟨_, rfl, rfl⟩

theorem processRecv_cases {chunk : List UInt8} (h : st.processRecv s chunk = (st', calls)) :
    ∃ recvBuffer, st' = st.set s
        { st.session s with recvs := (st.session s).recvs - 1, recvBuffer := recvBuffer } ∧
      (calls = [.disconnect s] ∨ calls = [.onRecv s]) := by
  unfold processRecv at h
  dsimp only at h
  split at h
  · obtain ⟨rfl, rfl⟩ := Prod.mk.inj h
    exact ⟨_, rfl, Or.inl rfl⟩
  · split at h
    · obtain ⟨rfl, rfl⟩ := Prod.mk.inj h
      exact ⟨_, rfl, Or.inl rfl⟩
    · obtain ⟨rfl, rfl⟩ := Prod.mk.inj h
      exact ⟨_, rfl, Or.inr rfl⟩

omit [DecidableEq S] in
theorem callback_cases {r : Int → ServiceState T S × List (Frame S)}
    (h : st.callback f r a = some (st', calls)) :
    (∃ c s', (c = .send s' ∨ c = .disconnect s') ∧ st' = st ∧ calls = [c, f]) ∨
      ∃ processLen, r processLen = (st', calls) := by
  unfold callback at h
  split at h
  · next s' =>
    split at h
    · obtain ⟨rfl, rfl⟩ := Prod.mk.inj (Option.some.inj h)
      exact Or.inl ⟨_, s', Or.inl rfl, rfl, rfl⟩
    · cases h
  · next s' =>
    split at h
    · obtain ⟨rfl, rfl⟩ := Prod.mk.inj (Option.some.inj h)
      exact Or.inl ⟨_, s', Or.inr rfl, rfl, rfl⟩
    · cases h
  · next processLen => exact Or.inr ⟨processLen, Option.some.inj h⟩
  · cases h

end ServiceState

/-! ## Calls that take the place of others -/

namespace Service

variable {S : Type} [DecidableEq S]

/-- The tokens of the calls that are gone, and of those that have come. -/
def View.exchange (v : View) (s : S) (gone calls : List (Frame S)) : View :=
  { v with
    entering := v.entering + (calls.map (Service.entering s)).sum - (gone.map (Service.entering s)).sum
    adding := v.adding + (calls.map (Service.adding s)).sum - (gone.map (Service.adding s)).sum
    hearing := v.hearing + (calls.map (Service.hearing s)).sum - (gone.map (Service.hearing s)).sum
    closing := v.closing + (calls.map (Service.closing s)).sum - (gone.map (Service.closing s)).sum
    ending := v.ending + (calls.map (Service.ending s)).sum - (gone.map (Service.ending s)).sum }

/-- The call of another session carries no token of this one. -/
theorem foreign_tokens {s : S} {f : Frame S} (h : f.session ≠ some s) : Service.entering s f = 0 ∧
    Service.adding s f = 0 ∧ Service.hearing s f = 0 ∧ Service.closing s f = 0 ∧ Service.ending s f = 0 := by
  cases f <;> simp_all [Frame.session, Service.entering, Service.adding, Service.hearing, Service.closing,
    Service.ending]

theorem View.exchange_foreign {v : View} {s : S} {gone calls : List (Frame S)}
    (hgone : ∀ f ∈ gone, f.session ≠ some s) (hcalls : ∀ f ∈ calls, f.session ≠ some s) :
    v.exchange s gone calls = v := by
  have hsum : ∀ w : Frame S → Nat, (∀ f : Frame S, f.session ≠ some s → w f = 0) →
      (gone.map w).sum = 0 ∧ (calls.map w).sum = 0 := by
    intro w hw
    constructor
    · refine List.sum_eq_zero ?_
      intro n hn
      obtain ⟨f, hf, rfl⟩ := List.mem_map.mp hn
      exact hw f (hgone f hf)
    · refine List.sum_eq_zero ?_
      intro n hn
      obtain ⟨f, hf, rfl⟩ := List.mem_map.mp hn
      exact hw f (hcalls f hf)
  have hentering := hsum (Service.entering s) fun f hf => (foreign_tokens hf).1
  have hadding := hsum (Service.adding s) fun f hf => (foreign_tokens hf).2.1
  have hhearing := hsum (Service.hearing s) fun f hf => (foreign_tokens hf).2.2.1
  have hclosing := hsum (Service.closing s) fun f hf => (foreign_tokens hf).2.2.2.1
  have hending := hsum (Service.ending s) fun f hf => (foreign_tokens hf).2.2.2.2
  simp only [View.exchange, hentering, hadding, hhearing, hclosing, hending, Nat.add_zero, Nat.sub_zero]

end Service

namespace ServiceState

variable {T S : Type} [Fintype T] [DecidableEq T] [DecidableEq S] {st st' : ServiceState T S} {t : T}
  {a : ServiceAction S} {f : Frame S} {gone rest calls : List (Frame S)} {s : S}

omit [DecidableEq T] in
theorem view_set_ne {s' : S} (h : s' ≠ s) (σ : SessionState T) : (st.set s' σ).view s = st.view s := by
  simp only [view, set, Function.update_of_ne h.symm]

theorem view_goto (hstack : st.stack t = gone ++ rest) :
    (st.goto t (calls ++ rest)).view s = (st.view s).exchange s gone calls := by
  simp only [view, goto, View.exchange, weigh.exchange hstack]

theorem Turns.of (hstack : st'.stack t = gone ++ rest) (turn : Turn)
    (hcan : (st.view s).Can turn) (hcause : st.Cause (t, a) s turn)
    (hview : (st'.view s).exchange s gone calls = (st.view s).apply turn) :
    st.Turns (t, a) s (st'.goto t (calls ++ rest)) := by
  refine ⟨turn, hcan, hcause, ?_⟩
  rw [view_goto hstack]
  exact hview

/-- A step is about one session; nothing happens to the others. -/
theorem Turns.about (s' : S) (hstack : st'.stack t = gone ++ rest)
    (hgone : ∀ f ∈ gone, f.session = none ∨ f.session = some s')
    (hcalls : ∀ f ∈ calls, f.session = none ∨ f.session = some s')
    (hview : ∀ s, s' ≠ s → st'.view s = st.view s)
    (hturns : st.Turns (t, a) s' (st'.goto t (calls ++ rest))) :
    st.Turns (t, a) s (st'.goto t (calls ++ rest)) := by
  by_cases hs : s' = s
  · subst hs
    exact hturns
  · have hother : ∀ f : Frame S, f.session = none ∨ f.session = some s' → f.session ≠ some s := by
      intro f hf heq
      rw [heq] at hf
      rcases hf with hf | hf
      · cases hf
      · exact hs (Option.some.inj hf).symm
    refine Turns.of hstack .stay trivial trivial ?_
    rw [View.exchange_foreign (fun f hf => hother f (hgone f hf))
      (fun f hf => hother f (hcalls f hf)), hview s hs]
    rfl

/-- Code of the server calls `Send` or `Disconnect`. -/
theorem Turns.user (hstack : st.stack t = gone ++ rest) {c : Frame S} {s' : S}
    (hc : c = .send s' ∨ c = .disconnect s') :
    st.Turns (t, a) s (st.goto t ([c] ++ gone ++ rest)) := by
  have hkeep : (st.view s).exchange s gone ([c] ++ gone) = (st.view s).exchange s [] [c] := by
    simp only [View.exchange, List.map_append, List.sum_append, List.map_nil, List.sum_nil, Nat.sub_zero,
      ← Nat.add_assoc, Nat.add_sub_cancel]
  by_cases hs : s' = s
  · subst hs
    rcases hc with rfl | rfl
    · refine Turns.of hstack .stay trivial trivial ?_
      rw [hkeep]
      rfl
    · refine Turns.of hstack .ask trivial trivial ?_
      rw [hkeep]
      simp [View.exchange, View.apply, entering, adding, hearing, closing, ending]
  · refine Turns.of hstack .stay trivial trivial ?_
    rw [hkeep]
    refine View.exchange_foreign nofun ?_
    intro f hf
    obtain rfl := List.mem_singleton.mp hf
    rcases hc with rfl | rfl
    · exact fun h => hs (Option.some.inj h)
    · exact fun h => hs (Option.some.inj h)

/-- The calls change, and with them the session takes a turn. -/
theorem Turns.move (s' : S) (turn : Turn) (hstack : st.stack t = gone ++ rest)
    (hgone : ∀ f ∈ gone, f.session = none ∨ f.session = some s')
    (hcalls : ∀ f ∈ calls, f.session = none ∨ f.session = some s')
    (hcan : (st.view s').Can turn) (hcause : st.Cause (t, a) s' turn)
    (hview : (st.view s').exchange s' gone calls = (st.view s').apply turn) :
    st.Turns (t, a) s (st.goto t (calls ++ rest)) :=
  Turns.about s' hstack hgone hcalls (fun _ _ => rfl) (Turns.of hstack turn hcan hcause hview)

/-- The session is written to, and takes a turn. -/
theorem Turns.write {s' : S} {σ : SessionState T} (turn : Turn)
    (hstack : (st.set s' σ).stack t = gone ++ rest)
    (hgone : ∀ f ∈ gone, f.session = none ∨ f.session = some s')
    (hcalls : ∀ f ∈ calls, f.session = none ∨ f.session = some s')
    (hcan : (st.view s').Can turn) (hcause : st.Cause (t, a) s' turn)
    (hview : ((st.set s' σ).view s').exchange s' gone calls = (st.view s').apply turn) :
    st.Turns (t, a) s ((st.set s' σ).goto t (calls ++ rest)) :=
  Turns.about s' hstack hgone hcalls (fun _ hs => view_set_ne hs _) (Turns.of hstack turn hcan hcause hview)

/-- The calls change, and the session takes no turn. -/
theorem Turns.passes (s' : S) (hstack : st.stack t = gone ++ rest)
    (hgone : ∀ f ∈ gone, f.session = none ∨ f.session = some s')
    (hcalls : ∀ f ∈ calls, f.session = none ∨ f.session = some s')
    (hview : (st.view s').exchange s' gone calls = st.view s') :
    st.Turns (t, a) s (st.goto t (calls ++ rest)) :=
  Turns.move s' .stay hstack hgone hcalls trivial trivial hview

/-- The session is written to where no turn looks. -/
theorem Turns.rewrites {s' : S} {σ : SessionState T} (hstack : (st.set s' σ).stack t = gone ++ rest)
    (hgone : ∀ f ∈ gone, f.session = none ∨ f.session = some s')
    (hcalls : ∀ f ∈ calls, f.session = none ∨ f.session = some s')
    (hview : ((st.set s' σ).view s').exchange s' gone calls = st.view s') :
    st.Turns (t, a) s ((st.set s' σ).goto t (calls ++ rest)) :=
  Turns.write .stay hstack hgone hcalls trivial trivial hview

/-- Code of the server calls what it likes before it returns, and the call goes on. -/
theorem Turns.callback {g : Frame S} (hstack : st.stack t = [f] ++ rest)
    (h : st.callback f (fun _ => (st, [g])) a = some (st', calls))
    (hreturned : st.Turns (t, a) s (st.goto t ([g] ++ rest))) :
    st.Turns (t, a) s (st'.goto t (calls ++ rest)) := by
  rcases callback_cases h with ⟨c, s', hc, rfl, rfl⟩ | ⟨processLen, hret⟩
  · exact Turns.user hstack hc
  · obtain ⟨rfl, rfl⟩ := Prod.mk.inj hret
    exact hreturned

section

attribute [local simp] View.exchange View.apply entering adding hearing closing ending ServiceState.set
  Frame.session

/-! ## The calls -/

/-- `RegisterAccept`: the session is new. -/
theorem registerAccept_turns {s' : S} {errorCode : Option Nat}
    (hstack : st.stack t = [.registerAccept] ++ rest)
    (h : st.call t .registerAccept (.acceptEx s' errorCode) = some (st', calls)) (s : S) :
    st.Turns (t, .acceptEx s' errorCode) s (st'.goto t (calls ++ rest)) := by
  unfold call at h
  dsimp only at h
  split at h
  · cases h
  · next hcreated =>
    have hnew : (st.session s').created = false := by simpa using hcreated
    split at h
    · obtain ⟨rfl, rfl⟩ := Prod.mk.inj (Option.some.inj h)
      refine Turns.write (.create true) hstack (by simp) (by simp) hnew trivial ?_
      simp [view]
    · obtain ⟨rfl, rfl⟩ := Prod.mk.inj (Option.some.inj h)
      refine Turns.write (.create (st.session s').accepting) hstack (by simp) (by simp) hnew trivial ?_
      simp [view]

theorem addSession_turns {s' : S} (hstack : st.stack t = [.addSession s'] ++ rest)
    (h : st.call t (.addSession s') .next = some (st', calls)) (s : S) :
    st.Turns (t, .next) s (st'.goto t (calls ++ rest)) := by
  obtain ⟨rfl, rfl⟩ := Prod.mk.inj (Option.some.inj h)
  refine Turns.about s' hstack (by simp) (by simp) ?_ ?_
  · intro s hs
    ext <;> simp [view, set, Ne.symm hs]
  · refine Turns.of hstack .add ?_ trivial ?_
    · exact weigh.pos_head hstack (by simp)
    · simp [view]

/-- `WSARecv`: an error that `HandleError` does not know loses the session. -/
theorem wsaRecv_turns {s' : S} {errorCode : Option Nat} (hstack : st.stack t = [.wsaRecv s'] ++ rest)
    (h : st.call t (.wsaRecv s') (.winsock errorCode) = some (st', calls)) (s : S) :
    st.Turns (t, .winsock errorCode) s (st'.goto t (calls ++ rest)) := by
  unfold call at h
  dsimp only at h
  split at h
  · obtain ⟨rfl, rfl⟩ := Prod.mk.inj (Option.some.inj h)
    refine Turns.write .listen hstack (by simp) (by simp) ?_ trivial ?_
    · exact weigh.pos_head hstack (by simp)
    · simp [view]
  · next hposted =>
    obtain ⟨rfl, rfl⟩ := Prod.mk.inj (Option.some.inj h)
    rcases handleError_cases s' errorCode with hcalls | hcalls
    · rw [hcalls]
      exact Turns.passes s' hstack (by simp) (by simp) (by simp [view])
    · have hhead : (st.stack t).head? = some (.wsaRecv s') := by
        rw [hstack]
        rfl
      rw [hcalls]
      refine Turns.move s' .lose hstack (by simp) (by simp) ?_ ?_ ?_
      · exact weigh.pos_head hstack (by simp)
      · exact fun _ => ⟨errorCode, hhead, rfl, by simpa using hposted, hcalls⟩
      · simp [view]

/-- `WSASend`, whose error may ask for a `Disconnect`. -/
theorem wsaSend_turns {s' : S} {errorCode : Option Nat} (hstack : st.stack t = [.wsaSend s'] ++ rest)
    (h : st.call t (.wsaSend s') (.winsock errorCode) = some (st', calls)) (s : S) :
    st.Turns (t, .winsock errorCode) s (st'.goto t (calls ++ rest)) := by
  unfold call at h
  dsimp only at h
  split at h
  · obtain ⟨rfl, rfl⟩ := Prod.mk.inj (Option.some.inj h)
    exact Turns.rewrites hstack (by simp) (by simp) (by simp [view])
  · obtain ⟨rfl, rfl⟩ := Prod.mk.inj (Option.some.inj h)
    rcases handleError_cases s' errorCode with hcalls | hcalls
    · rw [hcalls]
      refine Turns.move s' .ask hstack (by simp) (by simp) trivial trivial ?_
      simp [view]
    · rw [hcalls]
      exact Turns.passes s' hstack (by simp) (by simp) (by simp [view])

/-- `Disconnect`: the first exchange closes, the others come to nothing. -/
theorem disconnect_turns {s' : S} (hstack : st.stack t = [.disconnect s'] ++ rest)
    (h : st.call t (.disconnect s') .next = some (st', calls)) (s : S) :
    st.Turns (t, .next) s (st'.goto t (calls ++ rest)) := by
  unfold call at h
  dsimp only at h
  split at h
  · next hconn =>
    obtain ⟨rfl, rfl⟩ := Prod.mk.inj (Option.some.inj h)
    refine Turns.write .disconnect hstack (by simp) (by simp) ⟨hconn, ?_⟩ ?_ ?_
    · exact weigh.pos_head hstack (by simp)
    · show (st.stack t).head? = _
      rw [hstack]
      rfl
    · simp [view]
  · next hconn =>
    obtain ⟨rfl, rfl⟩ := Prod.mk.inj (Option.some.inj h)
    refine Turns.move s' .lose hstack (by simp) (by simp) ?_ (fun h => absurd h hconn) ?_
    · exact weigh.pos_head hstack (by simp)
    · simp [view]

theorem disconnectEx_turns {s' : S} {errorCode : Option Nat}
    (hstack : st.stack t = [.disconnectEx s'] ++ rest)
    (h : st.call t (.disconnectEx s') (.winsock errorCode) = some (st', calls)) (s : S) :
    st.Turns (t, .winsock errorCode) s (st'.goto t (calls ++ rest)) := by
  unfold call at h
  dsimp only at h
  split at h
  · obtain ⟨rfl, rfl⟩ := Prod.mk.inj (Option.some.inj h)
    refine Turns.write .postDisconnect hstack (by simp) (by simp) ?_ trivial ?_
    · exact weigh.pos_head hstack (by simp)
    · simp [view]
  · next hposted =>
    obtain ⟨rfl, rfl⟩ := Prod.mk.inj (Option.some.inj h)
    have hhead : (st.stack t).head? = some (.disconnectEx s') := by
      rw [hstack]
      rfl
    refine Turns.move s' .failDisconnect hstack (by simp) (by simp) ?_ ?_ ?_
    · exact weigh.pos_head hstack (by simp)
    · exact ⟨errorCode, hhead, rfl, by simpa using hposted⟩
    · simp [view]

/-- `ReleaseSession`, which asserts that the session is listed. -/
theorem releaseSession_turns {s' : S} (hstack : st.stack t = [.releaseSession s'] ++ rest)
    (h : st.call t (.releaseSession s') .next = some (st', calls)) (hcrash : st'.crashed = false) (s : S) :
    st.Turns (t, .next) s (st'.goto t (calls ++ rest)) := by
  obtain ⟨rfl, rfl⟩ := Prod.mk.inj (Option.some.inj h)
  unfold releaseSession at hcrash ⊢
  by_cases hlisted : s' ∈ st.sessions
  · rw [if_pos hlisted]
    refine Turns.about s' hstack (by simp) (by simp) ?_ ?_
    · intro s hs
      ext <;> simp [view, Ne.symm hs]
    · refine Turns.of hstack .release ⟨?_, ?_, hlisted⟩ trivial ?_
      · exact weigh.pos_head hstack (by simp)
      · exact weigh.pos_head hstack (by simp)
      · simp [view]
  · rw [if_neg hlisted] at hcrash
    cases hcrash

theorem call_turns (hstack : st.stack t = f :: rest) (h : st.call t f a = some (st', calls))
    (hcrash : st'.crashed = false) (s : S) :
    st.Turns (t, a) s (st'.goto t (calls ++ rest)) := by
  have hgone : st.stack t = [f] ++ rest := hstack
  have hcall := h
  unfold call at h
  split at h
  · exact registerAccept_turns hgone hcall s
  · next s' =>
    -- the store to `_connected`; `AddSession` is still to come
    obtain ⟨rfl, rfl⟩ := Prod.mk.inj (Option.some.inj h)
    refine Turns.write .connect hgone (by simp) (by simp) ?_ trivial ?_
    · exact weigh.pos_head hstack (by simp)
    · simp [view]
  · exact addSession_turns hgone hcall s
  · next s' => exact Turns.callback hgone h (Turns.passes s' hgone (by simp) (by simp) (by simp [view]))
  · next s' =>
    -- `RegisterRecv` gives up when the session is not connected any more
    obtain ⟨rfl, rfl⟩ := Prod.mk.inj (Option.some.inj h)
    split
    · exact Turns.passes s' hgone (by simp) (by simp) (by simp [view])
    · next hconn =>
      refine Turns.move s' .lose hgone (by simp) (by simp) ?_ (fun h => absurd h hconn) ?_
      · exact weigh.pos_head hstack (by simp)
      · simp [view]
  · exact wsaRecv_turns hgone hcall s
  · next s' =>
    -- `OnRecv`
    rcases callback_cases h with ⟨c, s'', hc, rfl, rfl⟩ | ⟨processLen, hret⟩
    · exact Turns.user hgone hc
    · rcases recvReturned_cases hret with ⟨rfl, rfl⟩ | ⟨recvBuffer, rfl, rfl⟩
      · exact Turns.passes s' hgone (by simp) (by simp) (by simp [view])
      · exact Turns.rewrites hgone (by simp) (by simp) (by simp [view])
  · next s' =>
    -- `Send` and its locked section are no business of the turns
    obtain ⟨rfl, rfl⟩ := Prod.mk.inj (Option.some.inj h)
    split
    · exact Turns.passes s' hgone (by simp) (by simp) (by simp [view])
    · exact Turns.passes s' hgone (by simp) (by simp) (by simp [view])
  · next s' =>
    split at h
    · obtain ⟨rfl, rfl⟩ := Prod.mk.inj (Option.some.inj h)
      split
      · exact Turns.rewrites hgone (by simp) (by simp) (by simp [view])
      · exact Turns.rewrites hgone (by simp) (by simp) (by simp [view])
    · cases h
  · next s' =>
    -- the same for `RegisterSend`
    obtain ⟨rfl, rfl⟩ := Prod.mk.inj (Option.some.inj h)
    split
    · exact Turns.passes s' hgone (by simp) (by simp) (by simp [view])
    · exact Turns.passes s' hgone (by simp) (by simp) (by simp [view])
  · next s' =>
    split at h
    · obtain ⟨rfl, rfl⟩ := Prod.mk.inj (Option.some.inj h)
      exact Turns.rewrites hgone (by simp) (by simp) (by simp [view])
    · cases h
  · exact wsaSend_turns hgone hcall s
  · next s' =>
    obtain ⟨rfl, rfl⟩ := Prod.mk.inj (Option.some.inj h)
    exact Turns.rewrites hgone (by simp) (by simp) (by simp [view])
  · next s' => exact Turns.callback hgone h (Turns.passes s' hgone (by simp) (by simp) (by simp [view]))
  · next s' =>
    -- the rest of `ProcessSend`
    split at h
    · split at h
      · obtain ⟨rfl, rfl⟩ := Prod.mk.inj (Option.some.inj h)
        exact Turns.rewrites hgone (by simp) (by simp) (by simp [view])
      · obtain ⟨rfl, rfl⟩ := Prod.mk.inj (Option.some.inj h)
        exact Turns.rewrites hgone (by simp) (by simp) (by simp [view])
    · cases h
  · next s' =>
    obtain ⟨rfl, rfl⟩ := Prod.mk.inj (Option.some.inj h)
    exact Turns.rewrites hgone (by simp) (by simp) (by simp [view])
  · exact disconnect_turns hgone hcall s
  · exact disconnectEx_turns hgone hcall s
  · next s' => exact Turns.callback hgone h (Turns.passes s' hgone (by simp) (by simp) (by simp [view]))
  · exact releaseSession_turns hgone hcall hcrash s
  · cases h

theorem idle_turns (hstack : st.stack t = []) (h : st.idle a = some (st', calls)) (s : S) :
    st.Turns (t, a) s (st'.goto t calls) := by
  have hnone : st.stack t = [] ++ [] := hstack
  rw [← List.append_nil calls]
  unfold idle at h
  split at h
  · next s' ok =>
    -- `ProcessAccept`, and `ProcessConnect` when it went well
    split at h
    · next haccepting =>
      dsimp only at h
      split at h
      · obtain ⟨rfl, rfl⟩ := Prod.mk.inj (Option.some.inj h)
        refine Turns.write (.accept true) hnone (by simp) (by simp) haccepting trivial ?_
        simp [view]
      · obtain ⟨rfl, rfl⟩ := Prod.mk.inj (Option.some.inj h)
        refine Turns.write (.accept false) hnone (by simp) (by simp) haccepting trivial ?_
        simp [view]
    · cases h
  · next s' chunk =>
    -- a receive is complete
    split at h
    · next hrecvs =>
      obtain ⟨recvBuffer, rfl, hcalls⟩ := processRecv_cases (Option.some.inj h)
      rcases hcalls with rfl | rfl
      · refine Turns.write .hear hnone (by simp) (by simp) hrecvs trivial ?_
        simp [view]
      · refine Turns.write .hear hnone (by simp) (by simp) hrecvs trivial ?_
        simp [view]
    · cases h
  · next s' numOfBytes =>
    -- a send is complete; no bytes means a `Disconnect`
    split at h
    · dsimp only at h
      split at h
      · obtain ⟨rfl, rfl⟩ := Prod.mk.inj (Option.some.inj h)
        refine Turns.write .ask hnone (by simp) (by simp) trivial trivial ?_
        simp [view]
      · obtain ⟨rfl, rfl⟩ := Prod.mk.inj (Option.some.inj h)
        exact Turns.rewrites hnone (by simp) (by simp) (by simp [view])
    · cases h
  · next s' =>
    -- `ProcessDisconnect`
    split at h
    · next hdisconnects =>
      obtain ⟨rfl, rfl⟩ := Prod.mk.inj (Option.some.inj h)
      refine Turns.write .finish hnone (by simp) (by simp) hdisconnects trivial ?_
      simp [view]
    · cases h
  · next s' =>
    split at h
    · obtain ⟨rfl, rfl⟩ := Prod.mk.inj (Option.some.inj h)
      exact Turns.user hnone (Or.inl rfl)
    · cases h
  · next s' =>
    split at h
    · obtain ⟨rfl, rfl⟩ := Prod.mk.inj (Option.some.inj h)
      exact Turns.user hnone (Or.inr rfl)
    · cases h
  · cases h

end

/-- A step after which no assertion has failed is a turn of every session. -/
theorem next_turns {a : T × ServiceAction S} (h : st.next a = some st') (hcrash : st'.crashed = false)
    (s : S) :
    st.Turns a s st' := by
  unfold next at h
  split at h
  · cases h
  · split at h
    · next hstack =>
      obtain ⟨⟨st₁, calls⟩, hidle, rfl⟩ := Option.map_eq_some_iff.mp h
      exact idle_turns hstack hidle s
    · next f rest hstack =>
      obtain ⟨⟨st₁, calls⟩, hcall, rfl⟩ := Option.map_eq_some_iff.mp h
      exact call_turns hstack hcall hcrash s

end ServiceState

end StarCraftIocp
