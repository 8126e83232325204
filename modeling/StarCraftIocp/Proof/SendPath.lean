import StarCraftIocp.Lib.Transition
import StarCraftIocp.ServerCore.SendPath

/-!
# One `WSASend` at a time, and nothing lost

`_sendRegistered` works as a token. Whoever turns it from false to true holds
it, through `RegisterSend` and, by way of the `WSASend` in flight, through the
`ProcessSend` of its completion; only the holder touches `_sendEvent`. The
invariant says where the token is, and what the holder's place in the code tells
about the buffers on their way from the queue to the socket.
-/

namespace StarCraftIocp.Session

variable {T B : Type}

/-- The places in the code at which a thread holds the token. -/
def Pc.Token : Pc B → Prop
  | .registerSend _ _ => True
  | .processSend .unlock => False
  | .processSend _ => True
  | _ => False

/-- The places at which a thread holds the lock. -/
def Pc.Locking : Pc B → Prop
  | .registerSend _ nested => nested = true
  | .processSend .unlock => True
  | _ => False

/-- Where the token is. -/
inductive Phase (T : Type) where
  | free
  | held (t : T)
  /-- With a `WSASend` in flight. -/
  | flying
  /-- Given up after a disconnect, and never given back. -/
  | dead

namespace SendState

/-- The error codes that `HandleError` answers with a disconnect. -/
def Fatal (code : Nat) : Prop := code = wsaEConnReset ∨ code = wsaEConnAborted

instance (code : Nat) : Decidable (Fatal code) := inferInstanceAs (Decidable (_ ∨ _))

/-- Every buffer pushed has been handed over, is in the holder's hands, or is in the queue. -/
def Ledger (s : SendState T B) (taken : List B) : Prop :=
  s.handed.flatten ++ taken ++ s.sendQueue = s.pushed

/-- What the holder had in hand goes to `WSASend`. -/
theorem Ledger.hand {s : SendState T B} {wsaBufs : List B} (h : s.Ledger wsaBufs) :
    ({ s with handed := s.handed ++ [wsaBufs] } : SendState T B).Ledger [] := by
  unfold Ledger at h ⊢
  rw [List.flatten_append, List.flatten_singleton, List.append_nil]
  exact h

theorem Ledger.push {s : SendState T B} {taken : List B} (h : s.Ledger taken) {b : B} :
    ({ s with sendQueue := s.sendQueue ++ [b], pushed := s.pushed ++ [b] } : SendState T B).Ledger
      taken := by
  unfold Ledger at h ⊢
  dsimp only
  rw [← List.append_assoc, h]

/-- What the holder's place in the code says about `_sendEvent` and the buffers. -/
def StageOk (s : SendState T B) : Pc B → Prop
  | .registerSend .isConnected _ => s.sendBuffers = [] ∧ s.Ledger []
  | .registerSend .init _ => s.sendBuffers = [] ∧ s.Ledger []
  | .registerSend .drain _ => s.owner = true ∧ s.sendBuffers = [] ∧ s.Ledger []
  | .registerSend .gather _ => s.owner = true ∧ s.Ledger s.sendBuffers
  | .registerSend (.wsaSend wsaBufs) _ =>
      s.owner = true ∧ s.sendBuffers = wsaBufs ∧ s.Ledger wsaBufs
  | .registerSend .store _ => s.sendBuffers = [] ∧ s.Ledger []
  | .processSend (.zeroBytes _) => s.sendBuffers = [] ∧ s.Ledger []
  | .processSend .lock => s.sendBuffers = [] ∧ s.Ledger []
  | _ => s.Ledger []

/-- `StageOk` looks at nothing but `_sendEvent` and the ledger. -/
theorem StageOk.of_ledger {s s' : SendState T B} {p : Pc B} (h : s.StageOk p)
    (ho : s'.owner = s.owner) (hb : s'.sendBuffers = s.sendBuffers)
    (hl : ∀ taken, s.Ledger taken → s'.Ledger taken) : s'.StageOk p := by
  cases p with
  | idle => exact hl _ h
  | send b => exact hl _ h
  | registerSend stage nested =>
      cases stage with
      | isConnected => exact ⟨hb.trans h.1, hl _ h.2⟩
      | init => exact ⟨hb.trans h.1, hl _ h.2⟩
      | drain => exact ⟨ho.trans h.1, hb.trans h.2.1, hl _ h.2.2⟩
      | gather =>
          refine ⟨ho.trans h.1, ?_⟩
          rw [hb]
          exact hl _ h.2
      | wsaSend wsaBufs => exact ⟨ho.trans h.1, hb.trans h.2.1, hl _ h.2.2⟩
      | store => exact ⟨hb.trans h.1, hl _ h.2⟩
      | handleError code => exact hl _ h
      | releaseOwner => exact hl _ h
      | clear => exact hl _ h
  | processSend stage =>
      cases stage with
      | zeroBytes n => exact ⟨hb.trans h.1, hl _ h.2⟩
      | lock => exact ⟨hb.trans h.1, hl _ h.2⟩
      | releaseOwner n => exact hl _ h
      | clear n => exact hl _ h
      | unlock => exact hl _ h

/-- Nobody but `t` holds the token. -/
def Others (s : SendState T B) (t : T) : Prop := ∀ u, u ≠ t → ¬ (s.pc u).Token

/-- The state of the session while the token is where `ph` says. -/
def InPhase (s : SendState T B) : Phase T → Prop
  | .free => s.sendRegistered = false ∧ (∀ u, ¬ (s.pc u).Token) ∧ s.outstanding = []
      ∧ s.sendBuffers = [] ∧ s.Ledger []
  | .held t => s.sendRegistered = true ∧ (s.pc t).Token ∧ s.Others t ∧ s.outstanding = []
      ∧ s.StageOk (s.pc t)
  | .flying => s.sendRegistered = true ∧ (∀ u, ¬ (s.pc u).Token)
      ∧ s.outstanding = [s.sendBuffers] ∧ s.owner = true ∧ s.Ledger []
  | .dead => s.sendRegistered = true ∧ (∀ u, ¬ (s.pc u).Token) ∧ s.outstanding = []
      ∧ s.connected = false ∧ s.Ledger []

/-- The invariant of the send path. -/
structure Inv (s : SendState T B) : Prop where
  phase : ∃ ph, s.InPhase ph
  lock : ∀ t, s.lock = some t → (s.pc t).Locking

theorem inv_init : (init : SendState T B).Inv where
  phase := ⟨.free, rfl, fun _ h => h, rfl, rfl, rfl⟩
  lock := by intro t h; cases h

section

variable [DecidableEq T]

theorem goto_pc_self (s : SendState T B) (t : T) (p : Pc B) : (s.goto t p).pc t = p :=
  Function.update_self ..

theorem goto_self {s : SendState T B} {t : T} {p : Pc B} (h : s.pc t = p) : s.goto t p = s := by
  subst h
  unfold goto
  rw [Function.update_eq_self]

theorem goto_pc_ne {s : SendState T B} {t u : T} {p : Pc B} (h : u ≠ t) :
    (s.goto t p).pc u = s.pc u := Function.update_of_ne h ..

theorem not_token_returnTo (nested : Bool) : ¬ (returnTo nested : Pc B).Token := by
  cases nested <;> exact fun h => h

/-- Whoever is at a place that holds the token is the holder. -/
theorem InPhase.holder {s : SendState T B} {ph : Phase T} {t : T} (h : s.InPhase ph)
    (ht : (s.pc t).Token) : s.InPhase (.held t) := by
  cases ph with
  | free => exact absurd ht (h.2.1 t)
  | flying => exact absurd ht (h.2.1 t)
  | dead => exact absurd ht (h.2.1 t)
  | held u =>
      by_cases htu : t = u
      · subst htu; exact h
      · exact absurd ht (h.2.2.1 t htu)

/-- A thread that does not hold the token can go anywhere that does not. -/
theorem InPhase.goto {s : SendState T B} {ph : Phase T} {t : T} {p : Pc B} (h : s.InPhase ph)
    (ht : ¬ (s.pc t).Token) (hp : ¬ p.Token) : (s.goto t p).InPhase ph := by
  have hall : (∀ u, ¬ (s.pc u).Token) → ∀ u, ¬ ((s.goto t p).pc u).Token := by
    intro hs u
    by_cases hu : u = t
    · subst hu; rw [goto_pc_self]; exact hp
    · rw [goto_pc_ne hu]; exact hs u
  cases ph with
  | free => exact ⟨h.1, hall h.2.1, h.2.2⟩
  | flying => exact ⟨h.1, hall h.2.1, h.2.2⟩
  | dead => exact ⟨h.1, hall h.2.1, h.2.2⟩
  | held u =>
      obtain ⟨h1, h2, h3, h4, h5⟩ := h
      have hut : u ≠ t := by rintro rfl; exact ht h2
      have hpc : (s.goto t p).pc u = s.pc u := goto_pc_ne hut
      refine ⟨h1, by rw [hpc]; exact h2, ?_, h4, by rw [hpc]; exact h5⟩
      intro v hv
      by_cases hvt : v = t
      · subst hvt; rw [goto_pc_self]; exact hp
      · rw [goto_pc_ne hvt]; exact h3 v hv

/-- The holder `t` moves on and keeps the token. -/
theorem held_goto {s : SendState T B} {t : T} {p : Pc B} (hr : s.sendRegistered = true)
    (ho : s.Others t) (hout : s.outstanding = []) (hp : p.Token) (hs : s.StageOk p) :
    (s.goto t p).InPhase (.held t) := by
  refine ⟨hr, by rw [goto_pc_self]; exact hp, ?_, hout, by rw [goto_pc_self]; exact hs⟩
  intro u hu
  rw [goto_pc_ne hu]
  exact ho u hu

/-- The holder `t` moves on and gives the token away. -/
theorem not_token_goto {s : SendState T B} {t : T} {p : Pc B} (ho : s.Others t) (hp : ¬ p.Token)
    (u : T) : ¬ ((s.goto t p).pc u).Token := by
  by_cases hu : u = t
  · subst hu; rw [goto_pc_self]; exact hp
  · rw [goto_pc_ne hu]; exact ho u hu

omit [DecidableEq T] in
theorem inPhase_disconnect {s : SendState T B} {ph : Phase T} (h : s.InPhase ph) :
    ({ s with connected := false } : SendState T B).InPhase ph := by
  cases ph with
  | free => exact h
  | held t => exact h
  | flying => exact h
  | dead => exact ⟨h.1, h.2.1, h.2.2.1, rfl, h.2.2.2.2⟩

omit [DecidableEq T] in
theorem InPhase.flying_of_outstanding {s : SendState T B} {ph : Phase T} (h : s.InPhase ph)
    (ho : s.outstanding ≠ []) : s.InPhase .flying := by
  cases ph with
  | free => exact absurd h.2.2.1 ho
  | held t => exact absurd h.2.2.2.1 ho
  | flying => exact h
  | dead => exact absurd h.2.2.1 ho

/-! ## The steps, place by place -/

/--
Under `act` the thread `t` gets from one place to another, and leaves the session
as `s'`, the places of the threads apart.
-/
inductive Step (s : SendState T B) (t : T) : SendAction B → Pc B → Pc B → SendState T B → Prop
  | send {b : B} (hc : s.connected = true) : Step s t (.send b) .idle (.send b) s
  | refuse {b : B} (hc : s.connected = false) : Step s t (.send b) .idle .idle s
  | disconnect : Step s t .disconnect .idle .idle { s with connected := false }
  | complete {i n : Nat} (hi : i < s.outstanding.length) :
      Step s t (.complete i n) .idle (.processSend (.releaseOwner n))
        { s with outstanding := s.outstanding.eraseIdx i }
  | push {b : B} (hl : s.canLock t) (hr : s.sendRegistered = true) :
      Step s t .next (.send b) .idle
        { s with sendQueue := s.sendQueue ++ [b], pushed := s.pushed ++ [b] }
  | register {b : B} (hl : s.canLock t) (hr : s.sendRegistered = false) :
      Step s t .next (.send b) (.registerSend .isConnected false)
        { s with sendQueue := s.sendQueue ++ [b], pushed := s.pushed ++ [b], sendRegistered := true }
  | connected {nested : Bool} (hc : s.connected = true) :
      Step s t .next (.registerSend .isConnected nested) (.registerSend .init nested) s
  | closed {nested : Bool} (hc : s.connected = false) :
      Step s t .next (.registerSend .isConnected nested) (returnTo nested) s
  | init {nested : Bool} :
      Step s t .next (.registerSend .init nested) (.registerSend .drain nested) { s with owner := true }
  | drain {nested : Bool} (hl : s.canLock t) :
      Step s t .next (.registerSend .drain nested) (.registerSend .gather nested)
        { s with sendBuffers := s.sendBuffers ++ s.sendQueue, sendQueue := [] }
  | gather {nested : Bool} :
      Step s t .next (.registerSend .gather nested)
        (.registerSend (.wsaSend s.sendBuffers) nested) s
  | posted {nested : Bool} {wsaBufs : List B} {errorCode : Option Nat}
      (he : ∀ code, errorCode = some code → code = wsaIoPending) :
      Step s t (.wsaSend errorCode) (.registerSend (.wsaSend wsaBufs) nested) (returnTo nested)
        { s with
          handed := s.handed ++ [wsaBufs]
          outstanding := s.outstanding ++ [wsaBufs]
          posted := s.posted ++ [wsaBufs] }
  | failed {nested : Bool} {wsaBufs : List B} {code : Nat} (he : code ≠ wsaIoPending) :
      Step s t (.wsaSend (some code)) (.registerSend (.wsaSend wsaBufs) nested)
        (.registerSend (.handleError code) nested) { s with handed := s.handed ++ [wsaBufs] }
  | close {nested : Bool} {code : Nat} (hf : Fatal code) :
      Step s t .next (.registerSend (.handleError code) nested)
        (.registerSend .releaseOwner nested) { s with connected := false }
  | log {nested : Bool} {code : Nat} (hf : ¬ Fatal code) :
      Step s t .next (.registerSend (.handleError code) nested)
        (.registerSend .releaseOwner nested) s
  | releaseOwner {nested : Bool} :
      Step s t .next (.registerSend .releaseOwner nested) (.registerSend .clear nested)
        { s with owner := false }
  | clear {nested : Bool} :
      Step s t .next (.registerSend .clear nested) (.registerSend .store nested)
        { s with sendBuffers := [] }
  | store {nested : Bool} :
      Step s t .next (.registerSend .store nested) (returnTo nested) { s with sendRegistered := false }
  | completedOwner {n : Nat} :
      Step s t .next (.processSend (.releaseOwner n)) (.processSend (.clear n)) { s with owner := false }
  | completedClear {n : Nat} :
      Step s t .next (.processSend (.clear n)) (.processSend (.zeroBytes n)) { s with sendBuffers := [] }
  | zeroBytes : Step s t .next (.processSend (.zeroBytes 0)) .idle { s with connected := false }
  | someBytes {n : Nat} (hn : n ≠ 0) :
      Step s t .next (.processSend (.zeroBytes n)) (.processSend .lock) s
  | queueEmpty (hl : s.canLock t) (hq : s.sendQueue = []) :
      Step s t .next (.processSend .lock) .idle { s with sendRegistered := false }
  | sendAgain (hl : s.canLock t) (hq : s.sendQueue ≠ []) :
      Step s t .next (.processSend .lock) (.registerSend .isConnected true) { s with lock := some t }
  | unlock : Step s t .next (.processSend .unlock) .idle { s with lock := none }

theorem step_registerSend {s s' : SendState T B} {t : T} {nested : Bool} {stage : RegisterStage B}
    (hs : s.registerSend t nested stage = some s') :
    ∃ p' s₁, Step s t .next (.registerSend stage nested) p' s₁ ∧ s' = s₁.goto t p' := by
  cases stage with
  | isConnected =>
      rw [registerSend] at hs
      split at hs
      · rename_i hc
        exact ⟨_, _, .connected hc, (Option.some.inj hs).symm⟩
      · rename_i hc
        exact ⟨_, _, .closed (by simpa using hc), (Option.some.inj hs).symm⟩
  | init => exact ⟨_, _, .init, (Option.some.inj hs).symm⟩
  | drain =>
      rw [registerSend] at hs
      split at hs
      · rename_i hl
        exact ⟨_, _, .drain hl, (Option.some.inj hs).symm⟩
      · cases hs
  | gather => exact ⟨_, _, .gather, (Option.some.inj hs).symm⟩
  | wsaSend wsaBufs => cases hs
  | handleError code =>
      rw [registerSend] at hs
      obtain rfl := Option.some.inj hs
      split
      · rename_i hf
        exact ⟨_, _, .close hf, rfl⟩
      · rename_i hf
        exact ⟨_, _, .log hf, rfl⟩
  | releaseOwner => exact ⟨_, _, .releaseOwner, (Option.some.inj hs).symm⟩
  | clear => exact ⟨_, _, .clear, (Option.some.inj hs).symm⟩
  | store => exact ⟨_, _, .store, (Option.some.inj hs).symm⟩

theorem step_wsaSend (s : SendState T B) (t : T) (nested : Bool) (wsaBufs : List B)
    (errorCode : Option Nat) :
    ∃ p' s₁, Step s t (.wsaSend errorCode) (.registerSend (.wsaSend wsaBufs) nested) p' s₁
      ∧ s.wsaSend t nested wsaBufs errorCode = s₁.goto t p' := by
  unfold wsaSend
  cases errorCode with
  | none => exact ⟨_, _, .posted (by intro code h; cases h), rfl⟩
  | some code =>
      dsimp only
      split
      · rename_i he
        exact ⟨_, _, .posted (by intro c h; rw [← Option.some.inj h]; exact he), rfl⟩
      · rename_i he
        exact ⟨_, _, .failed he, rfl⟩

theorem step_processSend {s s' : SendState T B} {t : T} {stage : ProcessStage}
    (hs : s.processSend t stage = some s') :
    ∃ p' s₁, Step s t .next (.processSend stage) p' s₁ ∧ s' = s₁.goto t p' := by
  cases stage with
  | releaseOwner n => exact ⟨_, _, .completedOwner, (Option.some.inj hs).symm⟩
  | clear n => exact ⟨_, _, .completedClear, (Option.some.inj hs).symm⟩
  | zeroBytes n =>
      rw [processSend] at hs
      split at hs
      · rename_i hn
        subst hn
        exact ⟨_, _, .zeroBytes, (Option.some.inj hs).symm⟩
      · rename_i hn
        exact ⟨_, _, .someBytes hn, (Option.some.inj hs).symm⟩
  | lock =>
      rw [processSend] at hs
      split at hs
      · rename_i hl
        split at hs
        · rename_i hq
          exact ⟨_, _, .queueEmpty hl hq, (Option.some.inj hs).symm⟩
        · rename_i hq
          exact ⟨_, _, .sendAgain hl hq, (Option.some.inj hs).symm⟩
      · cases hs
  | unlock => exact ⟨_, _, .unlock, (Option.some.inj hs).symm⟩

theorem step_pushSection {s s' : SendState T B} {t : T} {b : B} (hs : s.pushSection t b = some s') :
    ∃ p' s₁, Step s t .next (.send b) p' s₁ ∧ s' = s₁.goto t p' := by
  unfold pushSection at hs
  split at hs
  · rename_i hl
    dsimp only at hs
    split at hs
    · rename_i hr
      exact ⟨_, _, .push hl hr, (Option.some.inj hs).symm⟩
    · rename_i hr
      exact ⟨_, _, .register hl (by simpa using hr), (Option.some.inj hs).symm⟩
  · cases hs

/-- **What a step can do.** Every property of the send path is derived from this. -/
theorem step_next {s s' : SendState T B} {a : T × SendAction B} (hs : s.next a = some s') :
    ∃ p' s₁, Step s a.1 a.2 (s.pc a.1) p' s₁ ∧ s' = s₁.goto a.1 p' := by
  obtain ⟨t, act⟩ := a
  unfold next at hs
  dsimp only at hs ⊢
  split at hs
  · rename_i b hpc
    obtain rfl := Option.some.inj hs
    rw [hpc]
    split
    · rename_i hc
      exact ⟨_, _, .send hc, rfl⟩
    · rename_i hc
      exact ⟨_, _, .refuse (by simpa using hc), (goto_self hpc).symm⟩
  · rename_i hpc
    obtain rfl := Option.some.inj hs
    rw [hpc]
    exact ⟨_, _, .disconnect, (goto_self (s := { s with connected := false }) hpc).symm⟩
  · rename_i i n hpc
    rw [hpc]
    split at hs
    · rename_i hi
      exact ⟨_, _, .complete hi, (Option.some.inj hs).symm⟩
    · cases hs
  · rename_i hpc
    obtain rfl := Option.some.inj hs
    rw [hpc]
    exact step_wsaSend s t _ _ _
  · rename_i hpc
    rw [hpc]
    exact step_pushSection hs
  · rename_i hpc
    rw [hpc]
    exact step_registerSend hs
  · rename_i hpc
    rw [hpc]
    exact step_processSend hs
  · cases hs

omit [DecidableEq T] in
theorem Step.pc_eq {s s₁ : SendState T B} {t : T} {act : SendAction B} {p p' : Pc B}
    (hs : Step s t act p p' s₁) : s₁.pc = s.pc := by
  cases hs <;> rfl

/-! ## The token -/

/-- A step of the holder. -/
theorem inPhase_step_holder {s s₁ : SendState T B} {t : T} {act : SendAction B} {p p' : Pc B}
    (h : s.InPhase (.held t)) (hpc : s.pc t = p) (hp : p.Token) (hs : Step s t act p p' s₁) :
    ∃ ph, (s₁.goto t p').InPhase ph := by
  obtain ⟨hr, -, ho, hout, hst⟩ := h
  rw [hpc] at hst
  cases hs with
  | connected hc => exact ⟨_, held_goto hr ho hout trivial hst⟩
  | @closed nested hc =>
      exact ⟨.dead, hr, not_token_goto ho (not_token_returnTo nested), hout, hc, hst.2⟩
  | init => exact ⟨_, held_goto hr ho hout trivial ⟨rfl, hst⟩⟩
  | drain hl =>
      refine ⟨_, held_goto hr ho hout trivial ⟨hst.1, ?_⟩⟩
      have hledger : s.handed.flatten ++ [] ++ s.sendQueue = s.pushed := hst.2.2
      unfold Ledger
      dsimp only
      rw [hst.2.1, List.nil_append, List.append_nil, ← hledger, List.append_nil]
  | gather => exact ⟨_, held_goto hr ho hout trivial ⟨hst.1, rfl, hst.2⟩⟩
  | @posted nested wsaBufs errorCode he =>
      -- the token goes with the call
      obtain ⟨hown, hbuf, hl⟩ := hst
      refine ⟨.flying, hr, not_token_goto ho (not_token_returnTo nested), ?_, hown, hl.hand⟩
      change s.outstanding ++ [wsaBufs] = [s.sendBuffers]
      rw [hout, hbuf, List.nil_append]
  | failed he => exact ⟨_, held_goto hr ho hout trivial hst.2.2.hand⟩
  | close hf => exact ⟨_, held_goto hr ho hout trivial hst⟩
  | log hf => exact ⟨_, held_goto hr ho hout trivial hst⟩
  | releaseOwner => exact ⟨_, held_goto hr ho hout trivial hst⟩
  | clear => exact ⟨_, held_goto hr ho hout trivial ⟨rfl, hst⟩⟩
  | @store nested => exact ⟨.free, rfl, not_token_goto ho (not_token_returnTo nested), hout, hst⟩
  | completedOwner => exact ⟨_, held_goto hr ho hout trivial hst⟩
  | completedClear => exact ⟨_, held_goto hr ho hout trivial ⟨rfl, hst⟩⟩
  | zeroBytes => exact ⟨.dead, hr, not_token_goto ho id, hout, rfl, hst.2⟩
  | someBytes hn => exact ⟨_, held_goto hr ho hout trivial hst⟩
  | queueEmpty hl hq => exact ⟨.free, rfl, not_token_goto ho id, hout, hst⟩
  | sendAgain hl hq => exact ⟨_, held_goto hr ho hout trivial hst⟩
  | _ => exact hp.elim

/-- A step of another thread. -/
theorem inPhase_step_other {s s₁ : SendState T B} {t : T} {act : SendAction B} {p p' : Pc B}
    {ph : Phase T} (h : s.InPhase ph) (hpc : s.pc t = p) (hp : ¬ p.Token)
    (hs : Step s t act p p' s₁) : ∃ ph, (s₁.goto t p').InPhase ph := by
  have ht : ¬ (s.pc t).Token := by rw [hpc]; exact hp
  cases hs with
  | send hc => exact ⟨ph, h.goto ht id⟩
  | refuse hc => exact ⟨ph, h.goto ht id⟩
  | disconnect => exact ⟨ph, (inPhase_disconnect h).goto ht id⟩
  | @complete i n hi =>
      have hne : s.outstanding ≠ [] := by intro h0; rw [h0] at hi; simp at hi
      -- the token passes from the call in flight to the thread that was given its completion
      obtain ⟨h1, h2, h3, h4, h5⟩ := h.flying_of_outstanding hne
      have hi0 : i = 0 := by rw [h3] at hi; simpa using hi
      refine ⟨_, held_goto h1 (fun u _ => h2 u) ?_ trivial h5⟩
      dsimp only
      rw [h3, hi0]; rfl
  | push hl hr =>
      -- somebody holds the token already, and will find the buffer in the queue
      refine ⟨ph, InPhase.goto ?_ ht id⟩
      cases ph with
      | free => exact absurd hr (by rw [h.1]; simp)
      | flying => exact ⟨h.1, h.2.1, h.2.2.1, h.2.2.2.1, h.2.2.2.2.push⟩
      | dead => exact ⟨h.1, h.2.1, h.2.2.1, h.2.2.2.1, h.2.2.2.2.push⟩
      | held u =>
          obtain ⟨h1, h2, h3, h4, h5⟩ := h
          exact ⟨h1, h2, h3, h4, h5.of_ledger rfl rfl fun _ hl => hl.push⟩
  | register hl hr =>
      cases ph with
      | free =>
          obtain ⟨-, h2, h3, h4, h5⟩ := h
          exact ⟨_, held_goto rfl (fun u _ => h2 u) h3 trivial ⟨h4, h5.push⟩⟩
      | flying => exact absurd h.1 (by rw [hr]; simp)
      | dead => exact absurd h.1 (by rw [hr]; simp)
      | held u => exact absurd h.1 (by rw [hr]; simp)
  | unlock =>
      have hl : ({ s with lock := none } : SendState T B).InPhase ph := by
        cases ph <;> exact h
      exact ⟨ph, hl.goto ht id⟩
  | _ => exact absurd trivial hp

theorem inPhase_step {s s₁ : SendState T B} {t : T} {act : SendAction B} {p' : Pc B} {ph : Phase T}
    (h : s.InPhase ph) (hs : Step s t act (s.pc t) p' s₁) : ∃ ph, (s₁.goto t p').InPhase ph := by
  by_cases hp : (s.pc t).Token
  · exact inPhase_step_holder (h.holder hp) rfl hp hs
  · exact inPhase_step_other h rfl hp hs

/-! ## The lock -/

theorem locking_returnTo {nested : Bool} (h : nested = true) :
    (returnTo nested : Pc B).Locking := by
  subst h; exact trivial

omit [DecidableEq T] in
/-- A thread takes the lock, or gives it back, or stays where it may have it. -/
theorem Step.lock {s s₁ : SendState T B} {t : T} {act : SendAction B} {p p' : Pc B}
    (hs : Step s t act p p' s₁) : s₁.lock = s.lock ∧ (p.Locking → p'.Locking)
      ∨ s₁.lock = none ∨ s₁.lock = some t ∧ p'.Locking := by
  cases hs with
  | sendAgain hl hq => exact .inr (.inr ⟨rfl, rfl⟩)
  | unlock => exact .inr (.inl rfl)
  | closed hc => exact .inl ⟨rfl, locking_returnTo⟩
  | posted he => exact .inl ⟨rfl, locking_returnTo⟩
  | store => exact .inl ⟨rfl, locking_returnTo⟩
  | connected | init | drain | gather | failed | close | log | releaseOwner | clear =>
      exact .inl ⟨rfl, id⟩
  | _ => exact .inl ⟨rfl, False.elim⟩

theorem lock_step {s s₁ : SendState T B} {t : T} {act : SendAction B} {p' : Pc B}
    (h : ∀ u, s.lock = some u → (s.pc u).Locking) (hs : Step s t act (s.pc t) p' s₁)
    (hpc : s₁.pc = s.pc) : ∀ u, (s₁.goto t p').lock = some u → ((s₁.goto t p').pc u).Locking := by
  intro u hu
  change s₁.lock = some u at hu
  rcases hs.lock with ⟨hl, hp⟩ | hl | ⟨hl, hp⟩
  · rw [hl] at hu
    by_cases hut : u = t
    · subst hut
      rw [goto_pc_self]
      exact hp (h u hu)
    · rw [goto_pc_ne hut, hpc]
      exact h u hu
  · rw [hl] at hu; cases hu
  · rw [hl] at hu
    obtain rfl := Option.some.inj hu
    rw [goto_pc_self]
    exact hp

theorem inv_next {s s' : SendState T B} {a : T × SendAction B} (h : Inv s)
    (hs : s.next a = some s') : Inv s' := by
  obtain ⟨p', s₁, hstep, rfl⟩ := step_next hs
  obtain ⟨ph, hph⟩ := h.phase
  exact ⟨inPhase_step hph hstep, lock_step h.lock hstep hstep.pc_eq⟩

theorem inv_reachable {s : SendState T B} (h : Reachable (Transition.ofFun next) init s) : Inv s :=
  h.invariant inv_init fun _ _ _ => inv_next

/-! ## Single flight and order -/

omit [DecidableEq T] in
/-- Only the holder of the token is at a place that changes `_sendEvent`. -/
theorem Step.sendEvent {s s₁ : SendState T B} {t : T} {act : SendAction B} {p p' : Pc B}
    (hs : Step s t act p p' s₁) (hp : ¬ p.Token) :
    s₁.owner = s.owner ∧ s₁.sendBuffers = s.sendBuffers := by
  cases hs with
  | send | refuse | disconnect | complete | push | register | unlock => exact ⟨rfl, rfl⟩
  | _ => exact absurd trivial hp

/-- While a `WSASend` is in flight nobody holds the token. -/
theorem sendEvent_next {s s' : SendState T B} {a : T × SendAction B} (h : s.InPhase .flying)
    (hs : s.next a = some s') : s'.owner = s.owner ∧ s'.sendBuffers = s.sendBuffers := by
  obtain ⟨p', s₁, hstep, rfl⟩ := step_next hs
  exact hstep.sendEvent (h.2.1 a.1)

omit [DecidableEq T] in
theorem StageOk.ledger {s : SendState T B} {p : Pc B} (h : s.StageOk p) :
    ∃ taken, s.Ledger taken := by
  cases p with
  | idle => exact ⟨_, h⟩
  | send b => exact ⟨_, h⟩
  | registerSend stage nested =>
      cases stage with
      | isConnected => exact ⟨_, h.2⟩
      | init => exact ⟨_, h.2⟩
      | drain => exact ⟨_, h.2.2⟩
      | gather => exact ⟨_, h.2⟩
      | wsaSend wsaBufs => exact ⟨_, h.2.2⟩
      | store => exact ⟨_, h.2⟩
      | handleError code => exact ⟨_, h⟩
      | releaseOwner => exact ⟨_, h⟩
      | clear => exact ⟨_, h⟩
  | processSend stage =>
      cases stage with
      | zeroBytes n => exact ⟨_, h.2⟩
      | lock => exact ⟨_, h.2⟩
      | releaseOwner n => exact ⟨_, h⟩
      | clear n => exact ⟨_, h⟩
      | unlock => exact ⟨_, h⟩

omit [DecidableEq T] in
/-- What has been handed over comes first in the order of the pushes. -/
theorem InPhase.handed_le_pushed {s : SendState T B} {ph : Phase T} (h : s.InPhase ph) :
    s.handed.flatten <+: s.pushed := by
  obtain ⟨taken, hl⟩ : ∃ taken, s.Ledger taken := by
    cases ph with
    | free => exact ⟨_, h.2.2.2.2⟩
    | held t => exact h.2.2.2.2.ledger
    | flying => exact ⟨_, h.2.2.2.2⟩
    | dead => exact ⟨_, h.2.2.2.2⟩
  exact ⟨taken ++ s.sendQueue, by rw [← List.append_assoc]; exact hl⟩

/--
**Single flight, in order.** In every reachable state at most one `WSASend` is in
flight, no step changes `_sendEvent` while one is, and what the calls of `WSASend`
were given so far is a prefix of what was pushed, no buffer twice.
-/
theorem single_flight {s : SendState T B} (h : Reachable (Transition.ofFun next) init s) :
    s.outstanding.length ≤ 1
    ∧ (∀ a s', s.next a = some s' → s.outstanding ≠ [] →
        s'.owner = s.owner ∧ s'.sendBuffers = s.sendBuffers)
    ∧ s.handed.flatten <+: s.pushed
    ∧ (s.pushed.Nodup → s.handed.flatten.Nodup) := by
  obtain ⟨ph, hph⟩ := (inv_reachable h).phase
  have hle := hph.handed_le_pushed
  refine ⟨?_, ?_, hle, fun hnd => hnd.sublist hle.sublist⟩
  · by_cases ho : s.outstanding = []
    · rw [ho]; exact Nat.zero_le 1
    · rw [(hph.flying_of_outstanding ho).2.2.1]; exact Nat.le_refl 1
  · intro a s' hs ho
    exact sendEvent_next (hph.flying_of_outstanding ho) hs

/-- Two threads send; the second finds the token taken and leaves its buffer in the queue. -/
def twoSends : List (Nat × SendAction Nat) :=
  [(0, .send 10), (1, .send 11), (0, .next), (0, .next), (0, .next), (0, .next), (0, .next),
    (1, .next), (0, .wsaSend none)]

theorem single_flight_twoSends :
    ∃ s, twoSends.foldlM next init = some s ∧ s.outstanding.length ≤ 1
      ∧ (∀ a s', s.next a = some s' → s.outstanding ≠ [] →
          s'.owner = s.owner ∧ s'.sendBuffers = s.sendBuffers)
      ∧ s.handed.flatten <+: s.pushed
      ∧ (s.pushed.Nodup → s.handed.flatten.Nodup) :=
  ⟨_, rfl, single_flight (Reachable.of_run (l := twoSends) rfl .refl)⟩

/-! ## Nothing is lost -/

/-- The actions with which a thread, left alone, takes a completion through `ProcessSend`. -/
def completion (t : T) (i numOfBytes : Nat) : List (T × SendAction B) :=
  (t, .complete i numOfBytes) :: List.replicate 8 (t, .next) ++ [(t, .wsaSend none)]

/-- A `WSASend` is in flight whose completion, given to any thread, sends `b`. -/
def WillSend (s : SendState T B) (b : B) : Prop :=
  ∃ i, i < s.outstanding.length ∧ ∀ t n, n ≠ 0 →
    ∃ s', (completion t i n).foldlM next s = some s' ∧ ∃ l ∈ s'.posted, b ∈ l

/--
With no thread on the send path and the session connected, every buffer pushed
has been given to a `WSASend` that did not fail, or is in the queue and will be.
-/
def NothingLost (s : SendState T B) : Prop :=
  (∀ t, s.pc t = .idle) → s.connected = true → ∀ b ∈ s.pushed,
    (∃ l ∈ s.posted, b ∈ l) ∨ (b ∈ s.sendQueue ∧ s.WillSend b)

/-- On a connected session `WSASend` fails with no error but those that close it. -/
def FailsFatally (s : SendState T B) (a : T × SendAction B) : Prop :=
  match a.2 with
  | .wsaSend (some code) => code ≠ wsaIoPending → s.connected = true → Fatal code
  | _ => True

instance (s : SendState T B) (a : T × SendAction B) : Decidable (s.FailsFatally a) :=
  match a with
  | (_, .wsaSend (some code)) =>
      inferInstanceAs (Decidable (code ≠ wsaIoPending → s.connected = true → Fatal code))
  | (_, .wsaSend none) => inferInstanceAs (Decidable True)
  | (_, .send _) => inferInstanceAs (Decidable True)
  | (_, .disconnect) => inferInstanceAs (Decidable True)
  | (_, .complete _ _) => inferInstanceAs (Decidable True)
  | (_, .next) => inferInstanceAs (Decidable True)

/-- The place behind a `WSASend` that failed, up to `HandleError`. -/
def Failing : Pc B → Prop
  | .registerSend (.handleError _) _ => True
  | _ => False

/-- What the place of a thread behind a failed `WSASend` says about the connection. -/
def FailureOk (connected : Bool) : Pc B → Prop
  | .registerSend (.handleError code) _ => connected = true → Fatal code
  | .registerSend .releaseOwner _ => connected = false
  | .registerSend .clear _ => connected = false
  | .registerSend .store _ => connected = false
  | _ => True

/-- What a run without other failures adds to the invariant. -/
structure Live (s : SendState T B) : Prop where
  posted : s.connected = true → (∀ t, ¬ Failing (s.pc t)) → s.posted = s.handed
  failure : ∀ t, FailureOk s.connected (s.pc t)
  queue : s.connected = true → s.sendRegistered = false → s.sendQueue = []

omit [DecidableEq T] in
theorem live_init : Live (init : SendState T B) :=
  ⟨fun _ _ => rfl, fun _ => trivial, fun _ _ => rfl⟩

theorem failureOk_goto {s : SendState T B} {t : T} {p : Pc B}
    (h : ∀ u, FailureOk s.connected (s.pc u)) (hp : FailureOk s.connected p) :
    ∀ u, FailureOk s.connected ((s.goto t p).pc u) := by
  intro u
  by_cases hu : u = t
  · subst hu; rw [goto_pc_self]; exact hp
  · rw [goto_pc_ne hu]; exact h u

theorem Live.goto {s : SendState T B} {t : T} {p : Pc B} (h : Live s)
    (ht : ¬ Failing (s.pc t) ∨ s.connected = false) (hp : FailureOk s.connected p) :
    Live (s.goto t p) where
  posted := by
    intro hc hall
    rcases ht with ht | ht
    · refine h.posted hc ?_
      intro u
      by_cases hu : u = t
      · subst hu; exact ht
      · have := hall u
        rwa [goto_pc_ne hu] at this
    · exact absurd hc (by change s.connected ≠ true; rw [ht]; simp)
  failure := failureOk_goto h.failure hp
  queue := h.queue

omit [DecidableEq T] in
theorem Live.disconnect {s : SendState T B} (h : Live s) : Live { s with connected := false } where
  posted := by intro hc; cases hc
  failure := by
    intro t
    have ht := h.failure t
    dsimp only
    cases hpc : s.pc t with
    | registerSend stage nested =>
        cases stage with
        | handleError code => intro hc; cases hc
        | releaseOwner => rfl
        | clear => rfl
        | store => rfl
        | _ => trivial
    | _ => trivial
  queue := by intro hc; cases hc

theorem live_step {s s₁ : SendState T B} {t : T} {act : SendAction B} {p p' : Pc B} (h : Live s)
    (hpc : s.pc t = p) (hg : s.FailsFatally (t, act)) (hs : Step s t act p p' s₁) :
    Live (s₁.goto t p') := by
  have hf := h.failure t
  rw [hpc] at hf
  have ht : ¬ Failing p → ¬ Failing (s.pc t) := by rw [hpc]; exact id
  have hret : ∀ c nested, FailureOk (B := B) c (returnTo nested) := by
    intro c nested; cases nested <;> exact trivial
  cases hs with
  | send hc => exact h.goto (.inl (ht id)) trivial
  | refuse hc => exact h.goto (.inl (ht id)) trivial
  | disconnect => exact h.disconnect.goto (.inr rfl) trivial
  | complete hi => exact Live.goto ⟨h.posted, h.failure, h.queue⟩ (.inl (ht id)) trivial
  | push hl hr =>
      refine Live.goto ⟨h.posted, h.failure, ?_⟩ (.inl (ht id)) trivial
      intro _ hr'
      dsimp only at hr'
      rw [hr] at hr'
      cases hr'
  | register hl hr =>
      refine Live.goto ⟨h.posted, h.failure, ?_⟩ (.inl (ht id)) trivial
      intro _ hr'
      cases hr'
  | connected hc => exact h.goto (.inl (ht id)) trivial
  | closed hc => exact h.goto (.inl (ht id)) (hret _ _)
  | init => exact Live.goto ⟨h.posted, h.failure, h.queue⟩ (.inl (ht id)) trivial
  | drain hl => exact Live.goto ⟨h.posted, h.failure, fun _ _ => rfl⟩ (.inl (ht id)) trivial
  | gather => exact h.goto (.inl (ht id)) trivial
  | @posted nested wsaBufs errorCode he =>
      refine Live.goto ⟨?_, h.failure, h.queue⟩ (.inl (ht id)) (hret _ _)
      intro hc hall
      exact congrArg (· ++ [wsaBufs]) (h.posted hc hall)
  | @failed nested wsaBufs code he =>
      refine ⟨?_, failureOk_goto h.failure (hg he), h.queue⟩
      intro _ hall
      have := hall t
      rw [goto_pc_self] at this
      exact absurd trivial this
  | close hf' => exact h.disconnect.goto (.inr rfl) rfl
  | log hf' =>
      -- the error was not fatal, so the session had been closed already
      have hc : s.connected = false := by
        by_contra hc
        exact hf' (hf (by simpa using hc))
      exact h.goto (.inr hc) hc
  | releaseOwner => exact Live.goto ⟨h.posted, h.failure, h.queue⟩ (.inr hf) hf
  | clear => exact Live.goto ⟨h.posted, h.failure, h.queue⟩ (.inr hf) hf
  | store =>
      have hc : s.connected = false := hf
      refine Live.goto ⟨h.posted, h.failure, ?_⟩ (.inr hc) (hret _ _)
      intro hc' _
      dsimp only at hc'
      rw [hc] at hc'
      cases hc'
  | completedOwner => exact Live.goto ⟨h.posted, h.failure, h.queue⟩ (.inl (ht id)) trivial
  | completedClear => exact Live.goto ⟨h.posted, h.failure, h.queue⟩ (.inl (ht id)) trivial
  | zeroBytes => exact h.disconnect.goto (.inr rfl) trivial
  | someBytes hn => exact h.goto (.inl (ht id)) trivial
  | queueEmpty hl hq => exact Live.goto ⟨h.posted, h.failure, fun _ _ => hq⟩ (.inl (ht id)) trivial
  | sendAgain hl hq => exact Live.goto ⟨h.posted, h.failure, h.queue⟩ (.inl (ht id)) trivial
  | unlock => exact Live.goto ⟨h.posted, h.failure, h.queue⟩ (.inl (ht id)) trivial

theorem live_next {s s' : SendState T B} {a : T × SendAction B} (h : Live s)
    (hg : s.FailsFatally a) (hs : s.next a = some s') : Live s' := by
  obtain ⟨p', s₁, hstep, rfl⟩ := step_next hs
  exact live_step h rfl hg hstep

/-- In a quiet state a completion finds the lock free and takes the whole queue. -/
theorem willSend {s : SendState T B} {b : B} (hinv : Inv s) (hidle : ∀ t, s.pc t = .idle)
    (hc : s.connected = true) (ho : s.outstanding = [s.sendBuffers]) (hb : b ∈ s.sendQueue) :
    s.WillSend b := by
  have hlock : s.lock = none := by
    cases hl : s.lock with
    | none => rfl
    | some t =>
        have := hinv.lock t hl
        rw [hidle t] at this
        exact this.elim
  have hq : s.sendQueue ≠ [] := by rintro h; rw [h] at hb; cases hb
  refine ⟨0, by rw [ho]; exact Nat.one_pos, ?_⟩
  intro t n hn
  refine ⟨_, by
    simp only [completion, List.replicate, List.cons_append, List.nil_append, List.foldlM_cons,
      List.foldlM_nil, next, hidle t, ho, List.length_singleton, Nat.one_pos, if_true,
      processSend, registerSend, goto, Option.bind_some, hn, if_false, canLock, hlock, hq,
      hc, Function.update_self, true_or, or_true, pure, bind]
    rfl, ?_⟩
  exact ⟨_, List.mem_append_right _ (List.mem_singleton_self _), hb⟩

/--
**Nothing is lost or stranded**, in every run in which `WSASend` fails on a
connected session with no error but those that `HandleError` closes it for.
-/
theorem nothing_lost {s : SendState T B}
    (h : Reachable ((Transition.ofFun next).guarded FailsFatally) init s) : s.NothingLost := by
  have hinv := inv_reachable h.of_guarded
  have hlive : Live s := h.invariant live_init fun _ _ _ hl hs => live_next hl hs.1 hs.2
  obtain ⟨ph, hph⟩ := hinv.phase
  intro hidle hc b hb
  have hposted : s.posted = s.handed := hlive.posted hc fun t => by rw [hidle t]; exact id
  cases ph with
  | free =>
      obtain ⟨hr, -, -, -, hl⟩ := hph
      unfold Ledger at hl
      rw [hlive.queue hc hr, List.append_nil, List.append_nil] at hl
      rw [← hl, ← hposted] at hb
      exact .inl (List.mem_flatten.mp hb)
  | held t =>
      have htok := hph.2.1
      rw [hidle t] at htok
      exact htok.elim
  | dead =>
      have hc' : s.connected = false := hph.2.2.2.1
      rw [hc'] at hc
      cases hc
  | flying =>
      obtain ⟨-, -, ho, -, hl⟩ := hph
      unfold Ledger at hl
      rw [← hl, ← hposted, List.append_nil] at hb
      rcases List.mem_append.mp hb with hb | hb
      · exact .inl (List.mem_flatten.mp hb)
      · exact .inr ⟨hb, willSend hinv hidle hc ho hb⟩

theorem nothing_lost_twoSends :
    ∃ s, twoSends.foldlM next init = some s ∧ s.sendQueue = [11] ∧ s.NothingLost :=
  ⟨_, rfl, rfl, nothing_lost (Reachable.of_run_guarded (l := twoSends) rfl .refl)⟩

/-- A single thread sends one buffer, and `WSASend` fails with `code`. -/
def failedSend (code : Nat) : List (Unit × SendAction Nat) :=
  ((), .send 10) :: List.replicate 5 ((), .next) ++ [((), .wsaSend (some code))]
    ++ List.replicate 4 ((), .next)

/-- `WSAENOBUFS` (10055): the buffer is gone, and the session is connected and quiet. -/
theorem not_nothing_lost :
    ∃ s : SendState Unit Nat, Reachable (Transition.ofFun next) init s ∧ ¬ s.NothingLost := by
  refine ⟨_, Reachable.of_run (l := failedSend 10055) rfl .refl, ?_⟩
  intro h
  rcases h (fun _ => rfl) rfl 10 (List.mem_singleton_self 10) with ⟨l, hl, -⟩ | ⟨hq, -⟩
  · cases hl
  · cases hq

end

end SendState

end StarCraftIocp.Session