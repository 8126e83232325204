import Mathlib.Data.List.Nodup
import Mathlib.Data.List.Range
import StarCraftIocp.Lib.Outcome
import StarCraftIocp.Tools.ProtoParser

/-!
# Server and client number packets alike

Nobody sends the numbers of the packets to anybody: each side has them from its own run
of the generator. The two runs differ in the prefixes only. Since no name begins with
both, a line that one run takes for a received packet the other takes for a sent one,
and nothing else is different: the second run is the first one with the roles swapped.
-/

namespace StarCraftIocp.ProtoParser

open Outcome

variable {upper : List Char → List Char} {p p' : ProtoParser} {line : List Char} {lines : List (List Char)}

/-- The parser with its roles exchanged. -/
def swap (p : ProtoParser) : ProtoParser :=
  { p with
    recvPkt := p.sendPkt, sendPkt := p.recvPkt, recvPrefix := p.sendPrefix, sendPrefix := p.recvPrefix }

/-- No name begins with both prefixes. -/
def Disjoint (p : ProtoParser) : Prop :=
  ∀ name, p.recvPrefix.isPrefixOf name = true → p.sendPrefix.isPrefixOf name = false

/-- The name of the packet that a line of the file begins, if it is one of either prefix. -/
def packetName (upper : List Char → List Char) (p : ProtoParser) (line : List Char) : Option (List Char) :=
  if "message".toList.isPrefixOf line = false then none
  else ((PyStr.split line)[1]?.map upper).filter fun name =>
    p.recvPrefix.isPrefixOf name || p.sendPrefix.isPrefixOf name

/-! ## One line -/

/-- What a line comes to: nothing, or one more packet in its list and in the list of all. -/
inductive Parses (upper : List Char → List Char) (p : ProtoParser) (line : List Char) : ProtoParser → Prop
  | skips (hname : packetName upper p line = none) : Parses upper p line p
  | recv {name : List Char} (hname : packetName upper p line = some name)
      (hpre : p.recvPrefix.isPrefixOf name = true) :
      Parses upper p line (count name { p with recvPkt := p.recvPkt ++ [⟨name, p.id⟩] })
  | send {name : List Char} (hname : packetName upper p line = some name)
      (hrecv : p.recvPrefix.isPrefixOf name = false) (hpre : p.sendPrefix.isPrefixOf name = true) :
      Parses upper p line (count name { p with sendPkt := p.sendPkt ++ [⟨name, p.id⟩] })

theorem parses_parseLine : Ensures (parseLine upper p line) (Parses upper p line) := by
  unfold parseLine
  refine Ensures.ite ?_ ?_
  · intro hmessage
    exact .ok (.skips (if_pos hmessage))
  · intro hmessage
    have hname : packetName upper p line = ((PyStr.split line)[1]?.map upper).filter fun name =>
        p.recvPrefix.isPrefixOf name || p.sendPrefix.isPrefixOf name := if_neg hmessage
    cases hword : (PyStr.split line)[1]? with
    | none => exact .error _
    | some word =>
        rw [hword] at hname
        dsimp only
        cases hrecv : p.recvPrefix.isPrefixOf (upper word) with
        | true =>
            rw [if_pos rfl]
            exact .ok (.recv (by rw [hname]; simp [Option.filter, hrecv]) hrecv)
        | false =>
            rw [if_neg (by simp)]
            cases hsend : p.sendPrefix.isPrefixOf (upper word) with
            | true =>
                rw [if_pos rfl]
                exact .ok (.send (by rw [hname]; simp [Option.filter, hsend]) hrecv hsend)
            | false =>
                rw [if_neg (by simp)]
                exact .ok (.skips (by rw [hname]; simp [Option.filter, hrecv, hsend]))

theorem Parses.prefixes (h : Parses upper p line p') :
    p'.recvPrefix = p.recvPrefix ∧ p'.sendPrefix = p.sendPrefix ∧ p'.startId = p.startId := by
  cases h with
  | skips _ => exact ⟨rfl, rfl, rfl⟩
  | recv _ _ => exact ⟨rfl, rfl, rfl⟩
  | send _ _ _ => exact ⟨rfl, rfl, rfl⟩

/-- With the roles exchanged a line is parsed to the same parser with the roles exchanged. -/
theorem parseLine_swap (h : p.Disjoint) (upper : List Char → List Char) (line : List Char) :
    parseLine upper p.swap line = (parseLine upper p line).map swap := by
  unfold parseLine
  split
  · rfl
  · cases (PyStr.split line)[1]? with
    | none => rfl
    | some word =>
        cases hrecv : p.recvPrefix.isPrefixOf (upper word) with
        | true =>
            -- then the other prefix does not fit
            have hsend := h _ hrecv
            simp [swap, count, hrecv, hsend, Except.map]
        | false =>
            cases hsend : p.sendPrefix.isPrefixOf (upper word) with
            | true => simp [swap, count, hrecv, hsend, Except.map]
            | false => simp [swap, hrecv, hsend, Except.map]

/-! ## The whole file -/

theorem parseLines_swap (h : p.Disjoint) (upper : List Char → List Char) (lines : List (List Char)) :
    lines.foldlM (parseLine upper) p.swap = (lines.foldlM (parseLine upper) p).map swap := by
  induction lines generalizing p with
  | nil => rfl
  | cons line lines ih =>
      rw [List.foldlM_cons, List.foldlM_cons, parseLine_swap h]
      cases hline : parseLine upper p line with
      | error e => rfl
      | ok p1 =>
          have hprees := (parses_parseLine p1 hline).prefixes
          refine ih ?_
          unfold Disjoint
          rw [hprees.1, hprees.2.1]
          exact h

/-- The packets counted so far have the numbers from `startId` on, each in the list of its prefix. -/
structure Numbered (p : ProtoParser) : Prop where
  id : p.id = p.startId + p.totalPkt.length
  ids : p.totalPkt.map PacketId.id = (List.range p.totalPkt.length).map fun i : Nat => p.startId + i
  recv : p.recvPkt = p.totalPkt.filter fun pkt => p.recvPrefix.isPrefixOf pkt.name
  send : p.sendPkt = p.totalPkt.filter fun pkt => p.sendPrefix.isPrefixOf pkt.name

namespace Numbered

theorem new (startId : Int) (recvPrefix sendPrefix : List Char) :
    (new startId recvPrefix sendPrefix).Numbered :=
  ⟨(Int.add_zero _).symm, rfl, rfl, rfl⟩

/-- One more packet gets the next number. -/
theorem count (h : p.Numbered) (pkt : PacketId) (hid : pkt.id = p.id) : (p.totalPkt ++ [pkt]).map PacketId.id
    = (List.range (p.totalPkt ++ [pkt]).length).map fun i : Nat => p.startId + i := by
  rw [List.length_append, List.length_singleton, List.range_succ, List.map_append, List.map_append, h.ids,
    List.map_singleton, List.map_singleton, hid, h.id]

theorem parses (h : p.Numbered) (hdisjoint : p.Disjoint) (hparses : Parses upper p line p') :
    p'.Numbered := by
  have hnext : ∀ pkt : PacketId, p.id + 1 = p.startId + (p.totalPkt ++ [pkt]).length := by
    intro pkt
    rw [List.length_append, List.length_singleton, h.id]
    omega
  -- a packet is in the list of a prefix if it has the prefix
  have hlist : ∀ (pre : List Char) (pkt : PacketId),
      (p.totalPkt ++ [pkt]).filter (fun q => pre.isPrefixOf q.name) =
        p.totalPkt.filter (fun q => pre.isPrefixOf q.name) ++ bif pre.isPrefixOf pkt.name then [pkt] else [] := by
    intro pre pkt
    rw [List.filter_append, List.filter_singleton]
  cases hparses with
  | skips _ => exact h
  | @recv name _ hpre =>
      refine ⟨hnext ⟨name, p.id⟩, h.count ⟨name, p.id⟩ rfl, ?_, ?_⟩
      · refine Eq.trans ?_ (hlist p.recvPrefix ⟨name, p.id⟩).symm
        rw [← h.recv, hpre]
        rfl
      · refine Eq.trans ?_ (hlist p.sendPrefix ⟨name, p.id⟩).symm
        rw [← h.send, hdisjoint name hpre]
        exact (List.append_nil _).symm
  | @send name _ hrecv hpre =>
      refine ⟨hnext ⟨name, p.id⟩, h.count ⟨name, p.id⟩ rfl, ?_, ?_⟩
      · refine Eq.trans ?_ (hlist p.recvPrefix ⟨name, p.id⟩).symm
        rw [← h.recv, hrecv]
        exact (List.append_nil _).symm
      · refine Eq.trans ?_ (hlist p.sendPrefix ⟨name, p.id⟩).symm
        rw [← h.send, hpre]
        rfl

end Numbered

/-- What a run leaves: the numbers, and the names of the packets in the order of the file. -/
structure Parsed (upper : List Char → List Char) (p : ProtoParser) (lines : List (List Char))
    (p' : ProtoParser) : Prop where
  numbered : p'.Numbered
  startId : p'.startId = p.startId
  names : p'.totalPkt.map PacketId.name = p.totalPkt.map PacketId.name ++ lines.filterMap (packetName upper p)

theorem parsed_parseLines (h : p.Numbered) (hdisjoint : p.Disjoint) :
    Ensures (lines.foldlM (parseLine upper) p) (Parsed upper p lines) := by
  induction lines generalizing p with
  | nil => exact .ok ⟨h, rfl, (List.append_nil _).symm⟩
  | cons line lines ih =>
      rw [List.foldlM_cons]
      refine Ensures.bind parses_parseLine fun p1 hline => ?_
      obtain ⟨hrecv, hsend, hstart⟩ := hline.prefixes
      have hdisjoint1 : p1.Disjoint := by
        unfold Disjoint
        rw [hrecv, hsend]
        exact hdisjoint
      have hname : packetName upper p1 = packetName upper p := by
        funext l
        unfold packetName
        rw [hrecv, hsend]
      refine (ih (h.parses hdisjoint hline) hdisjoint1).mono fun p2 h2 => ?_
      refine ⟨h2.numbered, h2.startId.trans hstart, ?_⟩
      rw [h2.names, hname]
      cases hline with
      | skips hnone => rw [List.filterMap_cons_none hnone]
      | recv hsome _ => simp [count, List.filterMap_cons_some hsome]
      | send hsome _ _ => simp [count, List.filterMap_cons_some hsome]

/-! ## The handlers -/

/-- The assignments of a table leave what is assigned for another id. -/
theorem foldl_handle_of_not_mem {l : List PacketId} {table : Int → Option (List Char)} {id : Int}
    (h : id ∉ l.map PacketId.id) :
    l.foldl handle table id = table id := by
  induction l generalizing table with
  | nil => rfl
  | cons q l ih =>
      rw [List.map_cons, List.mem_cons, not_or] at h
      rw [List.foldl_cons, ih h.2, handle, Function.update_of_ne h.1]

theorem foldl_handle_of_mem {l : List PacketId} {table : Int → Option (List Char)}
    (hnodup : (l.map PacketId.id).Nodup)
    {pkt : PacketId} (h : pkt ∈ l) :
    l.foldl handle table pkt.id = some pkt.name := by
  induction l generalizing table with
  | nil => cases h
  | cons q l ih =>
      rw [List.map_cons, List.nodup_cons] at hnodup
      rw [List.foldl_cons]
      rcases List.mem_cons.mp h with rfl | hin
      · rw [foldl_handle_of_not_mem hnodup.1, handle, Function.update_self]
      · exact ih hnodup.2 hin

/-- Every received packet has its handler under its own number. -/
theorem Numbered.handlers (h : p.Numbered) {pkt : PacketId} (hpkt : pkt ∈ p.recvPkt) :
    p.handlers pkt.id = some pkt.name := by
  have hnodup : (p.totalPkt.map PacketId.id).Nodup := by
    rw [h.ids]
    refine List.Nodup.map ?_ List.nodup_range
    intro i j hij
    have : p.startId + (i : Int) = p.startId + (j : Int) := hij
    omega
  have hsub : p.recvPkt.Sublist p.totalPkt := by
    rw [h.recv]
    exact List.filter_sublist
  exact foldl_handle_of_mem (hnodup.sublist (hsub.map PacketId.id)) hpkt

/-! ## Main result -/

/-- Server and client agree: the numbering is one, the roles are exchanged, and what one sends the other handles. -/
structure Alike (upper : List Char → List Char) (startId : Int) (text : List Char)
    (server client : ProtoParser) : Prop where
  total : client.totalPkt = server.totalPkt
  recv : client.recvPkt = server.sendPkt
  send : client.sendPkt = server.recvPkt
  names : server.totalPkt.map PacketId.name =
    (PyStr.readlines text).filterMap (packetName upper (new startId "C_".toList "S_".toList))
  ids : server.totalPkt.map PacketId.id = (List.range server.totalPkt.length).map fun i : Nat => startId + i
  toClient : ∀ sent ∈ server.senders, client.handlers sent.2 = some sent.1
  toServer : ∀ sent ∈ client.senders, server.handlers sent.2 = some sent.1

/--
**Both generated halves number packets alike**: if one of the two runs gets through,
so does the other, the packets are numbered from `startId` on in the order of the
file, each side's received packets are those that the other sends, and under the id
of every packet that is sent the other side has the handler of that packet.
-/
theorem generated_alike (upper : List Char → List Char) (startId : Int) (text : List Char) :
    (∀ server, clientPacketHandler upper startId text = .ok server →
      ∃ client, packetManager upper startId text = .ok client ∧ Alike upper startId text server client) ∧
    ∀ client, packetManager upper startId text = .ok client →
      ∃ server, clientPacketHandler upper startId text = .ok server ∧
      Alike upper startId text server client := by
  let p : ProtoParser := new startId "C_".toList "S_".toList
  have hdisjoint : p.Disjoint := by
    intro name hrecv
    obtain ⟨rest, rfl⟩ := List.isPrefixOf_iff_prefix.mp hrecv
    rfl
  -- the client's run is the server's with the roles exchanged
  have hswap : packetManager upper startId text = (clientPacketHandler upper startId text).map swap :=
    parseLines_swap hdisjoint upper (PyStr.readlines text)
  have halike : ∀ server, clientPacketHandler upper startId text = .ok server →
      Alike upper startId text server server.swap := by
    intro server hserver
    have hparsed := parsed_parseLines (Numbered.new startId _ _) hdisjoint server hserver
    have hclient : server.swap.Numbered :=
      ⟨hparsed.numbered.id, hparsed.numbered.ids, hparsed.numbered.send, hparsed.numbered.recv⟩
    refine ⟨rfl, rfl, rfl, hparsed.names, ?_, ?_, ?_⟩
    · rw [hparsed.numbered.ids, hparsed.startId]
      rfl
    · intro sent hsent
      obtain ⟨pkt, hpkt, rfl⟩ := List.mem_map.mp hsent
      exact hclient.handlers hpkt
    · intro sent hsent
      obtain ⟨pkt, hpkt, rfl⟩ := List.mem_map.mp hsent
      exact hparsed.numbered.handlers hpkt
  constructor
  · intro server hserver
    refine ⟨server.swap, ?_, halike server hserver⟩
    rw [hswap, hserver]
    rfl
  · intro client hclient
    rw [hswap] at hclient
    cases hserver : clientPacketHandler upper startId text with
    | error e =>
        rw [hserver] at hclient
        cases hclient
    | ok server =>
        rw [hserver] at hclient
        obtain rfl := Except.ok.inj hclient
        exact ⟨server, rfl, halike server hserver⟩

/-- A file with a message of neither prefix between two packets. -/
def loginFile : List Char := "message C_LOGIN\r\nmessage Unit\n\nmessage S_Login".toList

theorem generated_alike_login : ∃ server client, clientPacketHandler (List.map Char.toUpper) 1000 loginFile = .ok server
    ∧ server.enumerators = [("C_LOGIN".toList, 1000), ("S_LOGIN".toList, 1001)]
    ∧ Alike (List.map Char.toUpper) 1000 loginFile server client := by
  have hrun : (clientPacketHandler (List.map Char.toUpper) 1000 loginFile).map enumerators
      = .ok [("C_LOGIN".toList, 1000), ("S_LOGIN".toList, 1001)] := by decide +kernel
  cases hserver : clientPacketHandler (List.map Char.toUpper) 1000 loginFile with
  | error e =>
      rw [hserver] at hrun
      cases hrun
  | ok server =>
      rw [hserver] at hrun
      obtain ⟨client, -, halike⟩ := (generated_alike (List.map Char.toUpper) 1000 loginFile).1 server hserver
      exact ⟨server, client, rfl, Except.ok.inj hrun, halike⟩

end StarCraftIocp.ProtoParser
