import TcpCapture.Flow.Classification
import TcpCapture.Multipath.Subflow

/-!
# Connections

One TCP connection: its two flows, its handshake, its part in a multipath connection, and the record
of its segments.
-/

namespace TcpCapture

/-- What one segment looked like.  Sequence numbers are relative to the sending flow;
acknowledgments and SACK blocks to the receiving one. -/
structure SegmentRecord where
  frame : Nat
  direction : Direction
  timestamp : Nat
  seq : Seq
  nextSeq : Seq
  ack : Option Seq
  len : Nat
  window : BitVec 32
  flags : TcpFlags
  sack : SackBlocks
  findings : Findings
  segmentClass : SegmentClass
deriving DecidableEq

/-- A TCP connection. -/
structure Connection where
  /-- Number of the connection in its session. -/
  stream : Nat
  conversation : Conversation
  flows : Duplex Flow := .both {}
  /-- Direction of the SYN, once a handshake segment was seen. -/
  client : Option Direction := none
  tsFirst : Nat
  tsPrev : Nat
  /-- Time of the most recent SYN. -/
  tsSyn : Option Nat := none
  /-- Time from the SYN to the last segment of the handshake. -/
  firstRtt : Option Nat := none
  /-- Its part in a multipath connection; plain TCP has none. -/
  link : Option SubflowLink := none
  history : Array SegmentRecord := #[]
  /-- Ended by a reset or by both directions. -/
  closed : Bool := false
deriving DecidableEq

namespace Connection

/-- A connection that opens now. -/
def start (stream : Nat) (conversation : Conversation) (now : Nat) : Connection :=
  { stream, conversation, tsFirst := now, tsPrev := now }

/-- The flow of a direction. -/
def flow (c : Connection) (d : Direction) : Flow := c.flows.get d

/-- Replaces the flow of a direction. -/
def setFlow (c : Connection) (d : Direction) (f : Flow) : Connection :=
  { c with flows := c.flows.set d f }

/-- Replaces the flow of a direction and that of its peer. -/
def setFlows (c : Connection) (d : Direction) (sender peer : Flow) : Connection :=
  (c.setFlow d sender).setFlow d.opposite peer

/-- Port of the end that did not send the SYN. -/
def serverPort (c : Connection) : Option UInt16 :=
  c.client.map fun d => (c.conversation.sender d.opposite).port

/-- It takes part in a multipath connection. -/
def isMultipath (c : Connection) : Bool := c.link.isSome

/-- Both directions have ended. -/
def bothFinished (c : Connection) : Bool :=
  c.flows.forward.isFinished && c.flows.reverse.isFinished

/-- Follows the handshake: who opened, when the last SYN was sent, and how long it took until the
opening was acknowledged. -/
def noteHandshake (c : Connection) (d : Direction) (s : Segment) : Connection :=
  if s.flags.syn then
    { c with
      client := c.client.or (some (if s.flags.ack then d.opposite else d))
      tsSyn := if s.flags.ack then c.tsSyn else some s.timestamp }
  else if s.flags.ack then
    { c with firstRtt := c.firstRtt.or (c.tsSyn.map fun syn => s.timestamp - syn) }
  else c

/-- Settles window scaling.  Each SYN offers a shift, 14 at most; an answer without one, or to a SYN
without one, ends scaling in both directions. -/
def negotiateWindowScale (c : Connection) (d : Direction) (s : Segment) : Connection :=
  if !s.flags.syn then c
  else
    let offered : WindowScale :=
      match s.windowScale with
      | some shift => .shift (min shift TcpOptions.maxWindowShift).toNat
      | none => .notUsed
    let sender := { c.flow d with windowScale := offered }
    let peer := c.flow d.opposite
    if s.flags.ack && (sender.windowScale == .notUsed || peer.windowScale == .notUsed) then
      c.setFlows d { sender with windowScale := .notUsed } { peer with windowScale := .notUsed }
    else c.setFlow d sender

@[simp] theorem flow_setFlow_same (c : Connection) (d : Direction) (f : Flow) :
    (c.setFlow d f).flow d = f := by
  simp [flow, setFlow]

@[simp] theorem flow_setFlow_opposite (c : Connection) (d : Direction) (f : Flow) :
    (c.setFlow d f).flow d.opposite = c.flow d.opposite := by
  simp [flow, setFlow]

end Connection

end TcpCapture
