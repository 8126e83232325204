import StarCraftIocp.Lib.FrameChannel
import StarCraftIocp.Proof.Lobby
import StarCraftIocp.Proof.ServerStream

/-!
# The whole system, down to the bytes

The server on its sockets and its clients, each with its receiver and its scene,
and nothing but bytes between them. What is under way is a queue of messages each
way, however the bytes are cut up, so that a run of the system is one of the server
and its clients with messages between them. The server handles one message at a
time, and no send of a session that is connected fails (what `RegisterSend` drops
when one does is not followed here).
-/

namespace StarCraftIocp

open CInt Protocol PacketWriter PacketReader

variable {F : Type} [Scalar F]

structure LobbyNet (F : Type) where
  server : SocketServer F
  client : SessionRef → LobbyClient
  receiver : SessionRef → PacketReceiver
  /-- The bytes on the way from a client, with those in its `sendQueue`. -/
  up : SessionRef → List UInt8
  /-- The bytes on the way to a client, with those that its session has still to send. -/
  down : SessionRef → List UInt8
  /-- History: what the client has sent and the server has not handled yet. -/
  asked : SessionRef → List PacketWriter.Message
  /-- History: what the server has sent and the client has not processed yet. -/
  told : SessionRef → List (ServerMessage F)

inductive NetEvent (F : Type) where
  | server (env : Env F) (e : SocketEvent)
  /-- `ReceiveAsync` of the client completes with these bytes. -/
  | arrive (s : SessionRef) (chunk : List UInt8)
  /-- `Update` of the client takes a packet off `recvQueue`. -/
  | read (s : SessionRef)
  | user (s : SessionRef) (a : UserAction)

/-- The packet of a message. -/
def Protocol.ServerMessage.bytes (msg : ServerMessage F) : List UInt8 :=
  PacketHeader.bytes { size := 4 + msg.serialize.length, id := msg.pktId } ++ msg.serialize

/-- The message as `PacketMaker` is given it. -/
def PacketWriter.Message.made (output : CodedOutputStream) (m : PacketWriter.Message) : PacketMaker.Message where
  payload := m.writeTo output
  type := m.pktId

namespace LobbyNet

def init (maps : List UInt8 → Option MapSectionData) : LobbyNet F where
  server := SocketServer.init maps
  client := fun _ => LobbyClient.init
  receiver := fun _ => PacketReceiver.init
  up := fun _ => []
  down := fun _ => []
  asked := fun _ => []
  told := fun _ => []

/-- The messages between the server and its clients. -/
def mail (n : LobbyNet F) : Lobby F where
  server := n.server.world
  client := n.client
  up := n.asked
  down := fun s => (n.told s).map ServerMessage.received

/-- The server goes on, and its messages go out. -/
def advance (n : LobbyNet F) (server : SocketServer F) : LobbyNet F :=
  { n with
    server := server
    down := fun s => n.down s ++ ((n.server.world.news server.world s).map ServerMessage.bytes).flatten
    told := fun s => n.told s ++ n.server.world.news server.world s }

section

variable (knows : SessionRef → List UInt8 → Bool) (ofBits : UInt32 → F) (input : CodedInputStream)
  (output : CodedOutputStream)

/-- A client has become `r.1`, and sends the rest. -/
def sends (n : LobbyNet F) (s : SessionRef) (r : LobbyClient × List PacketWriter.Message) : LobbyNet F :=
  { n with
    client := Function.update n.client s r.1
    up := Function.update n.up s (n.up s ++ (PacketMaker.sendAll (r.2.map (Message.made output))).flatten)
    asked := Function.update n.asked s (n.asked s ++ r.2) }

/-- What a client makes of a packet: one that cannot be parsed is gone. -/
def answer (n : LobbyNet F) (s : SessionRef) (packet : List UInt8) : LobbyClient × List PacketWriter.Message :=
  match (recvPacket input packet).join with
  | none => (n.client s, [])
  | some m => (n.client s).process (knows s) m

/-- The server receives what comes next. -/
def receive (n : LobbyNet F) (s : SessionRef) (chunk : List UInt8) : Option (LobbyNet F) :=
  if chunk <+: n.up s then
    (n.server.arrive s chunk).map fun server =>
      { n with server := server, up := Function.update n.up s ((n.up s).drop chunk.length) }
  else none

/-- A client receives what comes next, 1024 bytes at most. -/
def arrive (n : LobbyNet F) (s : SessionRef) (chunk : List UInt8) : Option (LobbyNet F) :=
  if chunk ≠ [] ∧ chunk.length ≤ 1024 ∧ chunk <+: n.down s then
    let fuel := ((n.receiver s).receiveQueue ++ chunk).length + 1
    ((n.receiver s).onReceiveCompleted fuel chunk).toOption.map fun receiver =>
      { n with
        receiver := Function.update n.receiver s receiver
        down := Function.update n.down s ((n.down s).drop chunk.length) }
  else none

def read (n : LobbyNet F) (s : SessionRef) : Option (LobbyNet F) :=
  match (n.receiver s).recvQueue with
  | [] => none
  | packet :: rest =>
      if (lobbyParties knows ofBits).live n.server.world s then
        some (sends output
          { n with
            receiver := Function.update n.receiver s { n.receiver s with recvQueue := rest }
            told := Function.update n.told s (n.told s).tail }
          s (answer knows input n s packet))
      else none

/-- A handler runs to its end before anything else happens, and what it sends goes on the way. -/
def next (n : LobbyNet F) : NetEvent F → Option (LobbyNet F)
  | .server _ (.arrive s chunk) => n.receive s chunk
  | .server env (.handle s) =>
      (SocketServer.next ofBits n.server (env, .handle s)).map fun server =>
        { n.advance server with asked := Function.update n.asked s (n.asked s).tail }
  | .server env .connect => (SocketServer.next ofBits n.server (env, .connect)).map n.advance
  | .server env (.disconnect s) => (SocketServer.next ofBits n.server (env, .disconnect s)).map n.advance
  | .server env .update => (SocketServer.next ofBits n.server (env, .update)).map n.advance
  | .arrive s chunk => n.arrive s chunk
  | .read s => n.read knows ofBits input output s
  | .user s a =>
      if (lobbyParties knows ofBits).live n.server.world s then
        ((n.client s).act (knows s) a).map (sends output n s)
      else none

/-- The messages that a step makes its client send are not too long. -/
def Fits (n : LobbyNet F) : NetEvent F → Prop
  | .read s => ∀ packet ∈ (n.receiver s).recvQueue.head?, ∀ m ∈ (answer knows input n s packet).2,
      (m.writeTo output).length ≤ 65531
  | .user s a => ∀ r ∈ (n.client s).act (knows s) a, ∀ m ∈ r.2, (m.writeTo output).length ≤ 65531
  | .server _ _ | .arrive _ _ => True

/-- Nobody asks for a room while an answer may be under way, and there are ids for rooms. -/
def Polite (n : LobbyNet F) : NetEvent F → Prop
  | .user s a => Lobby.Polite n.mail (.user s a)
  | .server env (.handle s) => Lobby.Polite n.mail (.serve env s)
  | .server _ _ | .arrive _ _ | .read _ => True

instance (n : LobbyNet F) : (e : NetEvent F) → Decidable (Polite n e ∧ Fits knows input output n e)
  | .read s => inferInstanceAs (Decidable (True ∧ ∀ packet ∈ (n.receiver s).recvQueue.head?, ∀ m ∈ _, _ ≤ 65531))
  | .user s a => inferInstanceAs (Decidable (Lobby.Polite n.mail (.user s a) ∧ ∀ r ∈ _, ∀ m ∈ Prod.snd r, _ ≤ 65531))
  | .server env (.handle s) => inferInstanceAs (Decidable (Lobby.Polite n.mail (.serve env s) ∧ True))
  | .server _ (.arrive _ _) | .server _ .connect | .server _ (.disconnect _) | .server _ .update
  | .arrive _ _ => inferInstanceAs (Decidable (True ∧ True))

end

/-! ## What the bytes are -/

/-- The bytes that have come from a client in part, and those under way, are its messages. -/
structure Upward (output : CodedOutputStream) (recv : PacketSession) (arrived up : List UInt8)
    (pending : List (List UInt8)) (asked : List PacketWriter.Message) : Prop where
  received : PacketSession.RecvInv recv arrived
  fits : ∀ m ∈ asked, (m.writeTo output).length ≤ 65531
  carries : ∃ later, packetFraming.Carries recv.recvBuffer.readable up later ∧
    asked.map (fun m => (m.made output).frame) = pending ++ later

/-- The same for what comes to a client. -/
structure Downward (receiver : PacketReceiver) (down : List UInt8) (told : List (ServerMessage F)) : Prop where
  sendable : ∀ msg ∈ told, msg.Sendable
  carries : ∃ later, packetFraming.Carries receiver.receiveQueue down later ∧
    told.map ServerMessage.bytes = receiver.recvQueue ++ later

section

variable {output : CodedOutputStream} {recv session : PacketSession} {arrived up chunk more packet : List UInt8}
  {pending rest : List (List UInt8)} {asked us : List PacketWriter.Message}

omit [Scalar F] in
/-- The server receives, and cuts off the messages that are whole now. -/
theorem Upward.arrive (h : Upward output recv arrived (chunk ++ more) [] asked) (hne : chunk ≠ [])
    (hfit : (chunk.length : Int) ≤ recv.recvBuffer.freeSize)
    (hsession : recv.arrive SocketServer.recvFuel chunk = some session) :
    Upward output session (arrived ++ chunk) more (session.delivered.drop recv.delivered.length) asked := by
  obtain ⟨later, hcarries, hasked⟩ := h.carries
  obtain ⟨new, later, rest, rfl, hsplits, hcarries⟩ := hcarries.arrive
  obtain ⟨session', hsession', hinv, hdelivered⟩ :=
    @PacketSession.arrive_spec _ _ _ _ _ SocketServer.recvFuel h.received hne hfit hsplits (by decide)
  obtain rfl := Option.some.inj (hsession.symm.trans hsession')
  refine ⟨hinv, h.fits, later, ?_, ?_⟩
  · -- what is left over of a stream is determined by the stream
    have hrest := (Framing.splits_unique hinv.splits (h.received.splits.append hsplits)).2
    rw [hrest]
    exact hcarries
  · rw [hasked, hdelivered, List.drop_left, List.nil_append]

omit [Scalar F] in
theorem Upward.send (h : Upward output recv arrived up pending asked)
    (hus : ∀ m ∈ us, (m.writeTo output).length ≤ 65531) :
    Upward output recv arrived (up ++ (PacketMaker.sendAll (us.map (Message.made output))).flatten) pending
      (asked ++ us) := by
  obtain ⟨later, hcarries, hasked⟩ := h.carries
  have hframes : ∀ f ∈ us.map fun m => (m.made output).frame, packetFraming.IsFrame f := by
    intro f hf
    obtain ⟨m, hm, rfl⟩ := List.mem_map.mp hf
    exact PacketMaker.isFrame_frame (hus m hm)
  refine ⟨h.received, fun m hm => (List.mem_append.mp hm).elim (h.fits m) (hus m),
    later ++ us.map fun m => (m.made output).frame, ?_, ?_⟩
  · have hsent := hcarries.sendAll hframes
    rw [PacketMaker.sendAll_eq, List.map_map]
    exact hsent
  · rw [List.map_append, hasked, List.append_assoc]

omit [Scalar F] in
/-- The server handles the first of them. -/
theorem Upward.handle (ofBits : UInt32 → F) (hw : output.Standard)
    (h : Upward output recv arrived up (packet :: rest) asked) :
    ∃ m later, asked = m :: later ∧ SocketServer.meant ofBits packet = some (m.packet ofBits) ∧
      Upward output recv arrived up rest later := by
  obtain ⟨later, hcarries, hasked⟩ := h.carries
  cases asked with
  | nil => cases hasked
  | cons m asked =>
      obtain ⟨rfl, hlater⟩ := List.cons.inj hasked
      have hfits := h.fits m List.mem_cons_self
      refine ⟨m, asked, rfl, meant_frame hw ofBits (m.plain hfits), h.received, ?_, later, hcarries, hlater⟩
      exact fun m' hm' => h.fits m' (List.mem_cons_of_mem _ hm')

end

section

variable {input : CodedInputStream} {receiver receiver' : PacketReceiver} {down chunk more packet : List UInt8}
  {rest : List (List UInt8)} {told news : List (ServerMessage F)}

/-- They are what `MakeSendBuffer` writes. -/
theorem written_bytes {msg : ServerMessage F} (h : msg.Sendable) : msg.Written msg.bytes :=
  ServerMessage.written_frame h.byteSizeLong_le

theorem Downward.send (h : Downward receiver down told) (hnews : ∀ msg ∈ news, msg.Sendable) :
    Downward receiver (down ++ (news.map ServerMessage.bytes).flatten) (told ++ news) := by
  obtain ⟨later, hcarries, htold⟩ := h.carries
  have hframes : ∀ f ∈ news.map ServerMessage.bytes, packetFraming.IsFrame f := by
    intro f hf
    obtain ⟨msg, hmsg, rfl⟩ := List.mem_map.mp hf
    exact (written_bytes (hnews msg hmsg)).isFrame
  refine ⟨fun msg hmsg => (List.mem_append.mp hmsg).elim (h.sendable msg) (hnews msg), _,
    hcarries.sendAll hframes, ?_⟩
  rw [List.map_append, htold, List.append_assoc]

/-- The client receives, and puts the messages that are whole now in its queue. -/
theorem Downward.arrive (h : Downward receiver (chunk ++ more) told) (hne : chunk ≠ [])
    (hr : receiver.onReceiveCompleted ((receiver.receiveQueue ++ chunk).length + 1) chunk = .ok receiver') :
    Downward receiver' more told := by
  obtain ⟨later, hcarries, htold⟩ := h.carries
  obtain ⟨new, later, rest, rfl, hsplits, hcarries⟩ := hcarries.arrive
  unfold PacketReceiver.onReceiveCompleted at hr
  rw [if_neg hne] at hr
  have hlen : ∀ f ∈ new, f.length < 65536 := by
    intro f hf
    have hsize := (hsplits.frames f hf).size_eq
    have hlt := Bytes.readLe16_lt f 0
    change Bytes.readLe16 f 0 = f.length at hsize
    omega
  have hcount := PacketSession.Splits.length_le hsplits
  have hloop := @PacketReceiver.receiveLoop_splits rest new (receiver.receiveQueue ++ chunk)
    ((receiver.receiveQueue ++ chunk).length + 1) hsplits receiver.recvQueue hlen (by omega)
  rcases hloop with ⟨hok, -⟩ | ⟨herror, -⟩
  · obtain rfl := Except.ok.inj (hr.symm.trans hok)
    refine ⟨h.sendable, later, hcarries, ?_⟩
    rw [htold, List.append_assoc]
  · rw [herror] at hr
    cases hr

/-- The client takes the first of them. -/
theorem Downward.read (hi : input.Standard) (h : Downward receiver down told)
    (hq : receiver.recvQueue = packet :: rest) :
    ∃ msg later, told = msg :: later ∧ recvPacket input packet = some (some msg.received) ∧
      Downward { receiver with recvQueue := rest } down later := by
  obtain ⟨later, hcarries, htold⟩ := h.carries
  rw [hq] at htold
  cases told with
  | nil => cases htold
  | cons msg told =>
      obtain ⟨rfl, hlater⟩ := List.cons.inj htold
      have hmsg := h.sendable msg List.mem_cons_self
      refine ⟨msg, told, rfl, ?_, fun m hm => h.sendable m (List.mem_cons_of_mem _ hm), later, hcarries, hlater⟩
      exact (written_bytes hmsg).recvPacket hi hmsg.readable

end

/-! ## The system -/

/-- The bytes between the server and each client are the messages under way. -/
structure Carried (ofBits : UInt32 → F) (output : CodedOutputStream) (maps : List UInt8 → Option MapSectionData)
    (n : LobbyNet F) : Prop where
  reach : Reachable (Transition.ofFun (SocketServer.next ofBits)) (SocketServer.init maps) n.server
  up : ∀ s, Upward output (n.server.recv s) (n.server.arrived s) (n.up s) (n.server.pending s) (n.asked s)
  down : ∀ s, Downward (n.receiver s) (n.down s) (n.told s)

variable {knows : SessionRef → List UInt8 → Bool} {ofBits : UInt32 → F} {input : CodedInputStream}
  {output : CodedOutputStream} {maps : List UInt8 → Option MapSectionData} {n n' : LobbyNet F} {s t : SessionRef}
  {chunk : List UInt8} {server : SocketServer F}

theorem carried_init : Carried ofBits output maps (LobbyNet.init maps : LobbyNet F) where
  reach := .refl
  up s := by
    refine ⟨PacketSession.recvInv_init, nofun, [], ?_, rfl⟩
    change packetFraming.Carries (RecvBuffer.new PacketSession.bufferSize).readable [] []
    rw [RecvBuffer.readable_new]
    exact .nil
  down s := ⟨nofun, [], .nil, rfl⟩

/-- What the server says in a step can be sent and read. -/
theorem sendable_news {w : World F}
    (h : Reachable (Transition.ofFun (SocketServer.next ofBits)) (SocketServer.init maps) server) :
    ∀ msg ∈ w.news server.world t, msg.Sendable := by
  intro msg hmsg
  refine World.sendable_of_sent (SocketServer.world_reachable h) (s := t) ?_
  rcases List.mem_append.mp hmsg with hmsg | hmsg
  · exact .inl (List.mem_of_mem_drop (mem_heardBy.mp hmsg))
  · obtain ⟨r, -, hmsg⟩ := List.mem_flatMap.mp hmsg
    exact .inr ⟨r, List.mem_of_mem_drop (mem_heardBy.mp hmsg)⟩

/-- Bytes that come to the server are no step of the messages. -/
theorem Carried.receive (env : Env F) (h : Carried ofBits output maps n) (hr : n.receive s chunk = some n') :
    Carried ofBits output maps n' ∧ n'.mail = n.mail := by
  obtain ⟨⟨more, hmore⟩, hr⟩ := Option.ite_none_right_eq_some.mp hr
  obtain ⟨server, hserver, rfl⟩ := Option.map_eq_some_iff.mp hr
  have hstep : SocketServer.next ofBits n.server (env, .arrive s chunk) = some server := hserver
  have hreach := h.reach.tail hstep
  obtain ⟨⟨-, -, hidle, hne, hfit⟩, hserver⟩ := Option.ite_none_right_eq_some.mp hserver
  obtain ⟨session, hsession, hserver⟩ := Option.bind_eq_some_iff.mp hserver
  obtain rfl := Option.some.inj hserver
  refine ⟨⟨hreach, fun t => ?_, h.down⟩, rfl⟩
  dsimp only
  rcases eq_or_ne t s with rfl | hts
  · have hup := h.up t
    rw [← hmore, hidle] at hup
    simp only [Function.update_self]
    rw [← hmore, List.drop_left]
    exact hup.arrive hne hfit hsession
  · simp only [Function.update_of_ne hts]
    exact h.up t

/-- Nor are bytes that come to a client. -/
theorem Carried.arrive (h : Carried ofBits output maps n) (hr : n.arrive s chunk = some n') :
    Carried ofBits output maps n' ∧ n'.mail = n.mail := by
  obtain ⟨⟨hne, -, more, hmore⟩, hr⟩ := Option.ite_none_right_eq_some.mp hr
  obtain ⟨receiver, hreceiver, rfl⟩ := Option.map_eq_some_iff.mp hr
  refine ⟨⟨h.reach, h.up, fun t => ?_⟩, rfl⟩
  dsimp only
  rcases eq_or_ne t s with rfl | hts
  · have hdown := h.down t
    rw [← hmore] at hdown
    simp only [Function.update_self]
    rw [← hmore, List.drop_left]
    exact hdown.arrive hne (Outcome.toOption_eq_some.mp hreceiver)
  · simp only [Function.update_of_ne hts]
    exact h.down t

/-- What the server says goes out. -/
theorem mail_advance (n : LobbyNet F) (server : SocketServer F) :
    (n.advance server).mail = (lobbyParties knows ofBits).advance n.mail server.world := by
  unfold mail advance Parties.advance
  dsimp only
  congr 1
  funext s
  exact List.map_append

theorem Carried.advance (h : Carried ofBits output maps n)
    (hreach : Reachable (Transition.ofFun (SocketServer.next ofBits)) (SocketServer.init maps) server)
    {asked : SessionRef → List PacketWriter.Message}
    (hup : ∀ t, Upward output (server.recv t) (server.arrived t) (n.up t) (server.pending t) (asked t)) :
    Carried ofBits output maps { n.advance server with asked := asked } :=
  ⟨hreach, hup, fun t => (h.down t).send (sendable_news hreach)⟩

/-- A step of the server that handles no packet. -/
theorem Carried.outside (h : Carried ofBits output maps n) {env : Env F} (e : SocketEvent) (a : Env F × Event F)
    (hact : SocketServer.next ofBits n.server (env, e) = n.server.act a)
    (hinternal : (lobbyParties knows ofBits).internal n.server.world a = n.server.world.next a)
    (hnext : (SocketServer.next ofBits n.server (env, e)).map n.advance = some n') :
    Carried ofBits output maps n' ∧ (n'.mail = n.mail ∨ ∃ e', Lobby.Polite n.mail e' ∧
      (lobbyParties knows ofBits).next n.mail e' = some n'.mail) := by
  obtain ⟨server, hstep, rfl⟩ := Option.map_eq_some_iff.mp hnext
  have hreach := h.reach.tail hstep
  rw [hact] at hstep
  obtain ⟨world, hnext, hserver⟩ := Option.bind_eq_some_iff.mp hstep
  have hserver := Option.some.inj hserver
  have hworld : server.world = world := by rw [← hserver]
  have hsame : ∀ t, Upward output (server.recv t) (server.arrived t) (n.up t) (server.pending t) (n.asked t) := by
    rw [← hserver]
    exact h.up
  refine ⟨h.advance hreach hsame, .inr ⟨.internal a, trivial, ?_⟩⟩
  have hinternal' : (lobbyParties knows ofBits).internal n.mail.server a = some server.world := by
    rw [hworld]
    exact hinternal.trans hnext
  change ((lobbyParties knows ofBits).internal n.mail.server a).map _ = _
  rw [hinternal']
  exact congrArg some (mail_advance n server).symm

/-- The server handles the next packet, which is the next message. -/
theorem Carried.handle (hw : output.Standard) {env : Env F} (h : Carried ofBits output maps n)
    (hstep : SocketServer.next ofBits n.server (env, .handle s) = some server) :
    Carried ofBits output maps { n.advance server with asked := Function.update n.asked s (n.asked s).tail } ∧
      (lobbyParties knows ofBits).next n.mail (.serve env s) =
        some ({ n.advance server with asked := Function.update n.asked s (n.asked s).tail } : LobbyNet F).mail := by
  have hreach := h.reach.tail hstep
  change n.server.handle ofBits env s = _ at hstep
  unfold SocketServer.handle at hstep
  split at hstep
  · cases hstep
  · next packet rest hpending =>
    obtain ⟨received, hreceive, hstep⟩ := Option.bind_eq_some_iff.mp hstep
    have hhead := h.up s
    rw [hpending] at hhead
    obtain ⟨m, later, hasked, hmeant, hlater⟩ := hhead.handle ofBits hw
    unfold SocketServer.meant at hmeant
    rw [hreceive] at hmeant
    obtain rfl : received = some (m.packet ofBits) := hmeant
    obtain ⟨world, hnext, hserver⟩ := Option.bind_eq_some_iff.mp hstep
    obtain rfl := Option.some.inj hserver
    refine ⟨h.advance hreach fun t => ?_, ?_⟩
    · dsimp only
      rcases eq_or_ne t s with rfl | hts
      · rw [Function.update_self, Function.update_self, hasked]
        exact hlater
      · rw [Function.update_of_ne hts, Function.update_of_ne hts]
        exact h.up t
    · have hmail : n.mail.up s = m :: later := hasked
      have hhandle : (lobbyParties knows ofBits).handle n.mail.server env s m = some world := hnext
      change (lobbyParties knows ofBits).serve n.mail env s = _
      unfold Parties.serve
      rw [hmail]
      dsimp only
      rw [hhandle, hasked]
      have hmailed := @mail_advance F _ knows ofBits n { n.server with
        world := world
        pending := Function.update n.server.pending s rest
        log := n.server.log ++ [(env, .packet s (m.packet ofBits))] }
      unfold mail LobbyNet.advance at hmailed ⊢
      dsimp only at hmailed ⊢
      rw [Option.map_some, ← hmailed]
      rfl

/-- A client does something, and what it sends goes out. -/
theorem Carried.sends {c : LobbyClient × List PacketWriter.Message} (h : Carried ofBits output maps n)
    (hfits : ∀ m ∈ c.2, (m.writeTo output).length ≤ 65531) : Carried ofBits output maps (n.sends output s c) := by
  refine ⟨h.reach, fun t => ?_, h.down⟩
  unfold LobbyNet.sends
  dsimp only
  rcases eq_or_ne t s with rfl | hts
  · rw [Function.update_self, Function.update_self]
    exact (h.up t).send hfits
  · rw [Function.update_of_ne hts, Function.update_of_ne hts]
    exact h.up t

/-- A client takes the next packet, which is the next message. -/
theorem Carried.read (hi : input.Standard) (h : Carried ofBits output maps n)
    (hfits : Fits knows input output n (.read s)) (hr : n.read knows ofBits input output s = some n') :
    Carried ofBits output maps n' ∧ (lobbyParties knows ofBits).next n.mail (.read s) = some n'.mail := by
  unfold LobbyNet.read at hr
  split at hr
  · cases hr
  · next packet rest hq =>
    obtain ⟨hlive, hr⟩ := Option.ite_none_right_eq_some.mp hr
    obtain rfl := Option.some.inj hr
    obtain ⟨msg, later, htold, hpacket, hlater⟩ := (h.down s).read hi hq
    have hanswer : answer knows input n s packet = (n.client s).process (knows s) msg.received := by
      unfold answer
      rw [hpacket]
      rfl
    have hsent : ∀ m ∈ (answer knows input n s packet).2, (m.writeTo output).length ≤ 65531 := by
      refine hfits packet ?_
      rw [hq]
      rfl
    refine ⟨Carried.sends ⟨h.reach, h.up, fun t => ?_⟩ hsent, ?_⟩
    · dsimp only
      rcases eq_or_ne t s with rfl | hts
      · rw [Function.update_self, Function.update_self, htold]
        exact hlater
      · rw [Function.update_of_ne hts, Function.update_of_ne hts]
        exact h.down t
    · have hmail : n.mail.down s = msg.received :: later.map ServerMessage.received := by
        change (n.told s).map ServerMessage.received = _
        rw [htold]
        rfl
      have hlive' : (lobbyParties knows ofBits).live n.mail.server s = true := hlive
      change (lobbyParties knows ofBits).read n.mail s = _
      unfold Parties.read
      rw [hmail]
      dsimp only
      rw [if_pos hlive', hanswer, htold]
      unfold mail LobbyNet.sends Parties.become
      dsimp only
      congr 2
      funext t
      rcases eq_or_ne t s with rfl | hts
      · rw [Function.update_self, Function.update_self]
        rfl
      · rw [Function.update_of_ne hts, Function.update_of_ne hts]

/-! ## Runs -/

/-- **Every step is one of the messages, or none.** -/
theorem Carried.next (hw : output.Standard) (hi : input.Standard) {e : NetEvent F} (h : Carried ofBits output maps n)
    (hpolite : Polite n e) (hfits : Fits knows input output n e)
    (hnext : n.next knows ofBits input output e = some n') :
    Carried ofBits output maps n' ∧ (n'.mail = n.mail ∨ ∃ e', Lobby.Polite n.mail e' ∧
      (lobbyParties knows ofBits).next n.mail e' = some n'.mail) := by
  cases e with
  | server env e =>
      cases e with
      | arrive s chunk =>
          obtain ⟨hcarried, hsame⟩ := h.receive env hnext
          exact ⟨hcarried, .inl hsame⟩
      | handle s =>
          obtain ⟨server, hstep, rfl⟩ := Option.map_eq_some_iff.mp hnext
          obtain ⟨hcarried, hserve⟩ := h.handle hw hstep
          exact ⟨hcarried, .inr ⟨.serve env s, hpolite, hserve⟩⟩
      | connect => exact h.outside .connect (env, .connect) rfl rfl hnext
      | disconnect s => exact h.outside (.disconnect s) (env, .disconnect s) rfl rfl hnext
      | update => exact h.outside .update (env, .update) rfl rfl hnext
  | arrive s chunk =>
      obtain ⟨hcarried, hsame⟩ := h.arrive hnext
      exact ⟨hcarried, .inl hsame⟩
  | read s =>
      obtain ⟨hcarried, hread⟩ := h.read hi hfits hnext
      exact ⟨hcarried, .inr ⟨.read s, trivial, hread⟩⟩
  | user s a =>
      obtain ⟨hlive, hnext⟩ := Option.ite_none_right_eq_some.mp hnext
      obtain ⟨c, hact, rfl⟩ := Option.map_eq_some_iff.mp hnext
      refine ⟨h.sends (hfits c hact), .inr ⟨.user s a, hpolite, ?_⟩⟩
      have hact' : (lobbyParties knows ofBits).act s (n.mail.client s) a = some c := hact
      have hlive' : (lobbyParties knows ofBits).live n.mail.server s = true := hlive
      unfold Parties.next
      dsimp only
      rw [if_pos hlive', hact']
      rfl

/-- No byte is under way to or from a client that is connected, nor has one come in that is not processed. -/
def Quiet (knows : SessionRef → List UInt8 → Bool) (ofBits : UInt32 → F) (n : LobbyNet F) : Prop :=
  ∀ s, (lobbyParties knows ofBits).live n.server.world s = true →
    (n.up s = [] ∧ (n.server.recv s).recvBuffer.readable = [] ∧ n.server.pending s = []) ∧
      n.down s = [] ∧ (n.receiver s).receiveQueue = [] ∧ (n.receiver s).recvQueue = []

/-- Then no message is. -/
theorem Carried.idle (h : Carried ofBits output maps n) (hquiet : Quiet knows ofBits n) :
    (lobbyParties knows ofBits).Idle n.mail := by
  intro s hlive
  obtain ⟨⟨hup, hreadable, hpending⟩, hdown, hreceive, hrecv⟩ := hquiet s hlive
  obtain ⟨later, hcarries, hasked⟩ := (h.up s).carries
  obtain ⟨later', hcarries', htold⟩ := (h.down s).carries
  rw [hup, hreadable] at hcarries
  rw [hdown, hreceive] at hcarries'
  rw [hpending, hcarries.eq_nil] at hasked
  rw [hrecv, hcarries'.eq_nil] at htold
  have hnone := List.map_eq_nil_iff.mp htold
  refine ⟨List.map_eq_nil_iff.mp hasked, ?_⟩
  change (n.told s).map ServerMessage.received = []
  rw [hnone]
  rfl

/--
**The system is one of messages**, however its bytes are cut up on the way: each of
its runs is a run of the server and its clients with messages between them; and
when there is nothing left to receive, every client shows the room it is in.
-/
theorem refines_lobby (hw : output.Standard) (hi : input.Standard)
    (h : Reachable ((Transition.ofFun (next knows ofBits input output)).guarded fun n e =>
      Polite n e ∧ Fits knows input output n e) (LobbyNet.init maps) n) :
    Reachable ((Transition.ofFun (lobbyParties knows ofBits).next).guarded Lobby.Polite) (Lobby.init maps) n.mail ∧
      (Quiet knows ofBits n → ∀ s, (lobbyParties knows ofBits).live n.server.world s = true →
        Lobby.Accord (n.client s) n.server.world s) := by
  have hboth : Carried ofBits output maps n ∧ Reachable
      ((Transition.ofFun (lobbyParties knows ofBits).next).guarded Lobby.Polite) (Lobby.init maps) n.mail :=
    h.simulates (I := Carried ofBits output maps) (f := mail) carried_init
      fun n e n' hn ⟨⟨hpolite, hfits⟩, hnext⟩ => hn.next hw hi hpolite hfits hnext
  obtain ⟨hcarried, hlobby⟩ := hboth
  refine ⟨hlobby, fun hquiet s hlive => ?_⟩
  exact (Lobby.sound_reachable hlobby).accord (hcarried.idle hquiet) hlive

/-- A client logs in and makes a room; some of what it sends, and of what it is sent, comes in two pieces. -/
def createdRun : List (NetEvent ℚ) :=
  [.server Env.still .connect, .user 0 (.tryLogin 1), .server Env.still (.arrive 0 [12, 0, 232]),
    .server Env.still (.arrive 0 [3, 8, 1, 18, 4, 116, 101, 115, 116]), .server Env.still (.handle 0),
    .arrive 0 [8, 0, 243, 3, 8, 1, 16, 1], .read 0, .server Env.still (.arrive 0 [4, 0, 235, 3]),
    .server Env.still (.handle 0), .arrive 0 [4, 0, 248, 3], .read 0,
    .user 0 .openRoomMaking, .user 0 (.createRoom "" "" []), .server Env.still (.arrive 0 [6, 0, 234, 3, 8, 1]),
    .server Env.still (.handle 0), .arrive 0 [6, 0, 244, 3, 8], .arrive 0 [1], .read 0,
    .server Env.still (.arrive 0 [4, 0, 237, 3]), .server Env.still (.handle 0),
    .arrive 0 [8, 0, 245, 3, 10, 2, 8, 1], .read 0]

/--
Another client finds the room on the list and comes in, and both are told who is there;
headers are cut again.
-/
def joinedNet : List (NetEvent ℚ) :=
  createdRun ++ [.server Env.still .connect, .user 1 (.tryLogin 2), .server Env.still (.arrive 1 [12]),
    .server Env.still (.arrive 1 [0, 232, 3, 8, 2, 18, 4, 116, 101, 115, 116]), .server Env.still (.handle 1),
    .arrive 1 [8, 0, 243, 3, 8, 2, 16, 1], .read 1, .server Env.still (.arrive 1 [4, 0, 235, 3]),
    .server Env.still (.handle 1), .arrive 1 [8, 0, 248], .arrive 1 [3, 10, 2, 16, 1], .read 1,
    .user 1 (.accept ⟨0, 1, "", false, []⟩ ""), .server Env.still (.arrive 1 [4, 0, 236, 3]),
    .server Env.still (.handle 1), .arrive 1 [6, 0, 244, 3, 8, 1], .read 1,
    .server Env.still (.arrive 1 [4, 0, 237, 3]), .server Env.still (.handle 1),
    .arrive 0 [12, 0, 245, 3, 10, 2, 8], .arrive 1 [12, 0],
    .arrive 1 [245, 3, 10, 2, 8, 1, 10, 2, 8, 2], .arrive 0 [1, 10, 2, 8, 2], .read 1, .read 0]

theorem refines_lobby_joinedNet : ∃ n : LobbyNet ℚ, Quiet (fun _ _ => true) (fun _ => 0) n ∧
    (0 ∈ (n.server.world.room 0).sessions ∧ 1 ∈ (n.server.world.room 0).sessions) ∧
      Lobby.Accord (n.client 0) n.server.world 0 ∧ Lobby.Accord (n.client 1) n.server.world 1 := by
  have hrun : (joinedNet.foldlM (guardedFun (next (fun _ _ => true) (fun _ => 0) wireInput wireOutput) fun n e =>
      Polite n e ∧ Fits (fun _ _ => true) wireInput wireOutput n e) (LobbyNet.init fun _ => none)).map
        (fun n => decide ((n.server.world.nextSession = 2 ∧
          0 ∈ (n.server.world.room 0).sessions ∧ 1 ∈ (n.server.world.room 0).sessions) ∧
            ∀ s : Nat, s < 2 → (n.server.world.session s).connected = true ∧ ((n.up s).length = 0 ∧
              (n.server.recv s).recvBuffer.readable.length = 0 ∧ (n.server.pending s).length = 0) ∧
                (n.down s).length = 0 ∧ (n.receiver s).receiveQueue.length = 0 ∧ (n.receiver s).recvQueue.length = 0))
      = some true := by decide +kernel
  obtain ⟨n, hn, hobs⟩ := Option.map_eq_some_iff.mp hrun
  obtain ⟨⟨hnext, hmem⟩, hall⟩ := of_decide_eq_true hobs
  have hquiet : Quiet (fun _ _ => true) (fun _ => 0) n := by
    intro s hlive
    have hlt : decide (s < n.server.world.nextSession) = true := (Bool.and_eq_true_iff.mp hlive).1
    obtain ⟨-, ⟨hup, hreadable, hpending⟩, hdown, hreceive, hrecv⟩ := hall s (hnext ▸ of_decide_eq_true hlt)
    exact ⟨⟨List.eq_nil_of_length_eq_zero hup, List.eq_nil_of_length_eq_zero hreadable,
      List.eq_nil_of_length_eq_zero hpending⟩, List.eq_nil_of_length_eq_zero hdown,
        List.eq_nil_of_length_eq_zero hreceive, List.eq_nil_of_length_eq_zero hrecv⟩
  have hlive : ∀ s : Nat, s < 2 → (lobbyParties (fun _ _ => true) fun _ => (0 : ℚ)).live n.server.world s = true :=
    fun s hs => Bool.and_eq_true_iff.mpr ⟨decide_eq_true (hnext.symm ▸ hs), (hall s hs).1⟩
  have haccord := (refines_lobby standard_wireOutput standard_wireInput (Reachable.of_run_guarded hn .refl)).2 hquiet
  exact ⟨n, hquiet, hmem, haccord 0 (hlive 0 (by decide)), haccord 1 (hlive 1 (by decide))⟩

end LobbyNet

end StarCraftIocp
