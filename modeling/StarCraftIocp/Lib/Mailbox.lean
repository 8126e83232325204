import Mathlib.Logic.Function.Basic
import StarCraftIocp.Lib.Transition

/-!
# A server, its clients, and what is under way between them

One server and any number of clients, with a queue of messages each way. What a
client is due to be is what it will be once it has processed all that is under way
to it: the server and the client's user change that, reading does not. So what
the server and a client agree on is followed there, and holds of the client itself
as soon as nothing is under way.
-/

namespace StarCraftIocp

variable {S W C U D E I A : Type}

/-- What the two kinds of programs do. -/
structure Parties (S W C U D E I A : Type) where
  /-- The client is connected. -/
  live : W → S → Bool
  /-- The server handles a message of a client. -/
  handle : W → E → S → U → Option W
  /-- What the server does otherwise. -/
  internal : W → I → Option W
  /-- The messages for a client that go out on the way from one state of the server to another. -/
  news : W → W → S → List D
  /-- A client processes a message, and may send some itself. -/
  process : S → C → D → C × List U
  /-- What a client's user does. -/
  act : S → C → A → Option (C × List U)

structure Mailbox (S W C U D : Type) where
  server : W
  client : S → C
  up : S → List U
  down : S → List D

inductive MailboxEvent (S E I A : Type) where
  | serve (e : E) (s : S)
  | internal (i : I)
  | read (s : S)
  | user (s : S) (a : A)

namespace Parties

variable (p : Parties S W C U D E I A)

/-- What becomes of a client that processes these messages. -/
def reads (s : S) : C → List D → C := List.foldl fun c d => (p.process s c d).1

/-- The server goes on, and its messages are under way. -/
def advance (b : Mailbox S W C U D) (server : W) : Mailbox S W C U D :=
  { b with server := server, down := fun s => b.down s ++ p.news b.server server s }

variable [DecidableEq S]

/-- A client has become `c`, and sent `us`. -/
def become (b : Mailbox S W C U D) (s : S) (r : C × List U) : Mailbox S W C U D :=
  { b with client := Function.update b.client s r.1, up := Function.update b.up s (b.up s ++ r.2) }

/-- The server handles the next message of a client. -/
def serve (b : Mailbox S W C U D) (e : E) (s : S) : Option (Mailbox S W C U D) :=
  match b.up s with
  | [] => none
  | u :: rest => (p.handle b.server e s u).map fun server =>
      { p.advance b server with up := Function.update b.up s rest }

/-- A client processes the next message. -/
def read (b : Mailbox S W C U D) (s : S) : Option (Mailbox S W C U D) :=
  match b.down s with
  | [] => none
  | d :: rest => if p.live b.server s then
      some { become b s (p.process s (b.client s) d) with down := Function.update b.down s rest } else none

def next (b : Mailbox S W C U D) : MailboxEvent S E I A → Option (Mailbox S W C U D)
  | .serve e s => p.serve b e s
  | .internal i => (p.internal b.server i).map (p.advance b)
  | .read s => p.read b s
  | .user s a => if p.live b.server s then (p.act s (b.client s) a).map (become b s) else none

/-- What a client will be when it has processed all that is under way to it. -/
def due (b : Mailbox S W C U D) (s : S) : C := p.reads s (b.client s) (b.down s)

/-- Nothing is under way from or to a client that is connected. -/
def Idle (b : Mailbox S W C U D) : Prop := ∀ s, p.live b.server s = true → b.up s = [] ∧ b.down s = []

/-- **What a step can do.** -/
inductive Steps (b : Mailbox S W C U D) : MailboxEvent S E I A → Mailbox S W C U D → Prop
  | serve {e : E} {s : S} {u : U} {rest : List U} {server : W} (hup : b.up s = u :: rest)
      (h : p.handle b.server e s u = some server) :
      Steps b (.serve e s) { p.advance b server with up := Function.update b.up s rest }
  | internal {i : I} {server : W} (h : p.internal b.server i = some server) : Steps b (.internal i) (p.advance b server)
  | read {s : S} {d : D} {rest : List D} (hdown : b.down s = d :: rest) (hlive : p.live b.server s = true) :
      Steps b (.read s) { become b s (p.process s (b.client s) d) with down := Function.update b.down s rest }
  | user {s : S} {a : A} {r : C × List U} (hlive : p.live b.server s = true) (h : p.act s (b.client s) a = some r) :
      Steps b (.user s a) (become b s r)

variable {p} {b b' : Mailbox S W C U D}

theorem steps_of_next {e : MailboxEvent S E I A} (h : p.next b e = some b') : p.Steps b e b' := by
  cases e with
  | serve e s =>
      change p.serve b e s = _ at h
      unfold serve at h
      split at h
      · cases h
      · next hup =>
        obtain ⟨server, hserver, rfl⟩ := Option.map_eq_some_iff.mp h
        exact .serve hup hserver
  | internal i =>
      obtain ⟨server, hserver, rfl⟩ := Option.map_eq_some_iff.mp h
      exact .internal hserver
  | read s =>
      change p.read b s = _ at h
      unfold read at h
      split at h
      · cases h
      · next hdown =>
        obtain ⟨hlive, h⟩ := Option.ite_none_right_eq_some.mp h
        obtain rfl := Option.some.inj h
        exact .read hdown hlive
  | user s a =>
      obtain ⟨hlive, h⟩ := Option.ite_none_right_eq_some.mp h
      obtain ⟨r, hr, rfl⟩ := Option.map_eq_some_iff.mp h
      exact .user hlive hr

omit [DecidableEq S] in
theorem reads_append (s : S) (c : C) (ds ds' : List D) : p.reads s c (ds ++ ds') = p.reads s (p.reads s c ds) ds' :=
  List.foldl_append

omit [DecidableEq S] in
/-- The server adds to what is under way. -/
theorem due_advance (b : Mailbox S W C U D) (server : W) (s : S) :
    p.due (p.advance b server) s = p.reads s (p.due b s) (p.news b.server server s) :=
  reads_append ..

/-- Reading changes nothing of what a client is due to be. -/
theorem due_read {s : S} {d : D} {rest : List D} (hdown : b.down s = d :: rest) (t : S) :
    p.due { become b s (p.process s (b.client s) d) with down := Function.update b.down s rest } t = p.due b t := by
  unfold due become
  rcases eq_or_ne t s with rfl | hts
  · rw [hdown]
    dsimp only
    rw [Function.update_self, Function.update_self]
    rfl
  · dsimp only
    rw [Function.update_of_ne hts, Function.update_of_ne hts]

omit [DecidableEq S] in
/-- A client that has nothing under way to it is what it is due to be. -/
theorem due_of_idle (h : p.Idle b) {s : S} (hlive : p.live b.server s = true) : p.due b s = b.client s := by
  unfold due
  rw [(h s hlive).2]
  rfl

end Parties

/-! ## What a queue is checked for -/

section

variable {M P : Type} {check : P → M → Option P} {q : List M} {a b c : P}

/-- A queue that leads from one phase to another. -/
def Leads (check : P → M → Option P) (a : P) (q : List M) (b : P) : Prop := q.foldlM check a = some b

theorem Leads.nil (a : P) : Leads check a [] a := rfl

theorem Leads.eq (h : Leads check a [] b) : a = b := Option.some.inj h

theorem Leads.append {more : List M} (h : Leads check a q b) (hmore : Leads check b more c) :
    Leads check a (q ++ more) c := by
  unfold Leads at h hmore ⊢
  rw [List.foldlM_append, h]
  exact hmore

theorem Leads.push {m : M} (h : Leads check a q b) (hm : check b m = some c) : Leads check a (q ++ [m]) c := by
  refine h.append ?_
  change (check b m).bind some = _
  rw [hm]
  rfl

/-- The first message is taken off. -/
theorem Leads.pop {m : M} (h : Leads check a (m :: q) b) : ∃ a', check a m = some a' ∧ Leads check a' q b :=
  Option.bind_eq_some_iff.mp h

/-- Messages that keep a phase. -/
theorem Leads.of_keeps (hq : ∀ m ∈ q, check a m = some a) : Leads check a q a := by
  induction q with
  | nil => rfl
  | cons m q ih =>
      have hfirst := hq m List.mem_cons_self
      refine Option.bind_eq_some_iff.mpr ⟨a, hfirst, ih fun m' hm' => hq m' (List.mem_cons_of_mem _ hm')⟩

/-- What messages keep of a phase, the queue does. -/
theorem Leads.keeps {I : P → Prop} (h : Leads check a q b) (ha : I a)
    (hq : ∀ m ∈ q, ∀ x y, check x m = some y → I x → I y) : I b := by
  induction q generalizing a with
  | nil => exact h.eq ▸ ha
  | cons m q ih =>
      obtain ⟨a', ha', h'⟩ := h.pop
      exact ih h' (hq m List.mem_cons_self a a' ha' ha) fun m' hm' => hq m' (List.mem_cons_of_mem _ hm')

end

end StarCraftIocp
