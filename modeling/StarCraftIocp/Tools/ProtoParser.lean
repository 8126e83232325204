import Mathlib.Tactic.Common
import Mathlib.Logic.Function.Basic

/-!
# `ProtoParser`

The generator reads the protocol file and gives every packet a number. It is run
twice, once for the server and once for the client, with the prefixes of received
and sent packets exchanged; the templates write an enumerator for every packet, a
handler for every received one and a send function for every sent one.

Texts are lists of characters, and `str.upper`, a table of Unicode, is a parameter.
-/

namespace StarCraftIocp

/-! ## Python's strings -/

namespace PyStr

/-- `str.isspace` of one character. -/
def isSpace (c : Char) : Bool :=
  let n := c.toNat
  (9 ≤ n && n ≤ 13) || (28 ≤ n && n ≤ 32) || n == 0x85 || n == 0xa0 || n == 0x1680
    || (0x2000 ≤ n && n ≤ 0x200a) || n == 0x2028 || n == 0x2029 || n == 0x202f || n == 0x205f || n == 0x3000

/-- `s.split()`: the words between runs of white space. -/
def split (s : List Char) : List (List Char) := (s.splitOnP isSpace).filter fun word => !word.isEmpty

/-- What a file opened as text reads for the ends of lines. -/
def universalNewlines : List Char → List Char
  | [] => []
  | '\r' :: '\n' :: s => '\n' :: universalNewlines s
  | '\r' :: s => '\n' :: universalNewlines s
  | c :: s => c :: universalNewlines s

/-- The lines of a text, each with its `\n` at the end, if it has one. -/
def keepLines : List Char → List (List Char)
  | [] => []
  | '\n' :: s => ['\n'] :: keepLines s
  | c :: s =>
      match keepLines s with
      | [] => [[c]]
      | line :: lines => (c :: line) :: lines

/-- `f.readlines()`. -/
def readlines (text : List Char) : List (List Char) := keepLines (universalNewlines text)

end PyStr

/-! ## The parser -/

/-- `Packet`. -/
structure PacketId where
  name : List Char
  id : Int
  deriving Repr, DecidableEq

structure ProtoParser where
  recvPkt : List PacketId
  sendPkt : List PacketId
  totalPkt : List PacketId
  startId : Int
  id : Int
  recvPrefix : List Char
  sendPrefix : List Char
  deriving Repr, DecidableEq

/-- `IndexError`, of a line that has nothing behind `message`. -/
inductive PyError where
  | indexError
  deriving Repr, DecidableEq

namespace ProtoParser

/-- The constructor. -/
def new (startId : Int) (recvPrefix sendPrefix : List Char) : ProtoParser where
  recvPkt := []
  sendPkt := []
  totalPkt := []
  startId := startId
  id := startId
  recvPrefix := recvPrefix
  sendPrefix := sendPrefix

/-- What is done with a packet of either prefix, once it is in its list. -/
def count (pktName : List Char) (p : ProtoParser) : ProtoParser :=
  { p with totalPkt := p.totalPkt ++ [⟨pktName, p.id⟩], id := p.id + 1 }

/-- A pass through the loop of `parse_proto`. -/
def parseLine (upper : List Char → List Char) (p : ProtoParser) (line : List Char) :
    Except PyError ProtoParser :=
  if "message".toList.isPrefixOf line = false then .ok p
  else
    match (PyStr.split line)[1]? with
    | none => .error .indexError
    | some word =>
        let pktName := upper word
        if p.recvPrefix.isPrefixOf pktName then
          .ok (count pktName { p with recvPkt := p.recvPkt ++ [⟨pktName, p.id⟩] })
        else if p.sendPrefix.isPrefixOf pktName then
          .ok (count pktName { p with sendPkt := p.sendPkt ++ [⟨pktName, p.id⟩] })
        else .ok p

/-- `parse_proto`, on the text of the file. -/
def parseProto (upper : List Char → List Char) (p : ProtoParser) (text : List Char) :
    Except PyError ProtoParser :=
  (PyStr.readlines text).foldlM (parseLine upper) p

/-! ## The templates -/

/-- The enumerators `PKT_x`, in both templates. -/
def enumerators (p : ProtoParser) : List (List Char × Int) := p.totalPkt.map fun pkt => (pkt.name, pkt.id)

/-- The line of a received packet in the table of the handlers. -/
def handle (table : Int → Option (List Char)) (pkt : PacketId) : Int → Option (List Char) :=
  Function.update table pkt.id (some pkt.name)

/-- `GPacketHandler` after `Init`, and `Handlers` of the client: the received packet that is handled under an id. -/
def handlers (p : ProtoParser) : Int → Option (List Char) := p.recvPkt.foldl handle fun _ => none

/-- `MakeSendBuffer` of the server, and `Send` of the client: the sent packets with the ids they are sent under. -/
def senders (p : ProtoParser) : List (List Char × Int) := p.sendPkt.map fun pkt => (pkt.name, pkt.id)

/-- `GenPackets.exe --output=ClientPacketHandler --recv=C_ --send=S_`. -/
def clientPacketHandler (upper : List Char → List Char) (startId : Int) (text : List Char) :
    Except PyError ProtoParser :=
  (new startId "C_".toList "S_".toList).parseProto upper text

/-- `GenPackets.exe --output=PacketManager --recv=S_ --send=C_`. -/
def packetManager (upper : List Char → List Char) (startId : Int) (text : List Char) :
    Except PyError ProtoParser :=
  (new startId "S_".toList "C_".toList).parseProto upper text

end ProtoParser

end StarCraftIocp
