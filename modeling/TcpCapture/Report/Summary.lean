import TcpCapture.Connection.Basic
import TcpCapture.Multipath.Registry

/-!
# Summaries

What is left of a connection, plain or multipath, for reading: the state reports show, with sequence
numbers relative.
-/

namespace TcpCapture

/-- Summary of one direction. -/
structure FlowSummary where
  counters : FlowCounters
  baseSeq : Option Seq
  /-- The number after everything sent, relative. -/
  nextSeq : Option Seq
  windowScale : WindowScale
  finFrame : Option Nat
  /-- Segments never acknowledged. -/
  unacked : Nat
deriving DecidableEq

/-- The summary of a flow. -/
def Flow.summary (f : Flow) : FlowSummary where
  counters := f.counters
  baseSeq := f.baseSeq
  nextSeq := f.nextSeq.map f.relative
  windowScale := f.windowScale
  finFrame := f.finFrame
  unacked := f.unacked.length

/-- The part of a TCP connection in a multipath connection. -/
inductive SubflowRole where
  | initial (metaId : Option Nat)
  | joined (metaId : Option Nat) (addressId : Option UInt8)
deriving DecidableEq, Repr

/-- The role of a subflow. -/
def SubflowLink.role (l : SubflowLink) : SubflowRole :=
  if l.joined then .joined l.metaId l.addressId else .initial l.metaId

/-- Summary of one TCP connection. -/
structure StreamSummary where
  stream : Nat
  conversation : Conversation
  client : Option Direction
  serverPort : Option UInt16
  firstRtt : Option Nat
  tsFirst : Nat
  tsLast : Nat
  subflow : Option SubflowRole
  flows : Duplex FlowSummary
  segments : Array SegmentRecord
  closed : Bool
deriving DecidableEq

/-- The summary of a connection. -/
def Connection.summary (c : Connection) : StreamSummary where
  stream := c.stream
  conversation := c.conversation
  client := c.client
  serverPort := c.serverPort
  firstRtt := c.firstRtt
  tsFirst := c.tsFirst
  tsLast := c.tsPrev
  subflow := c.link.map SubflowLink.role
  flows := ⟨c.flows.forward.summary, c.flows.reverse.summary⟩
  segments := c.history
  closed := c.closed

namespace StreamSummary

/-- The segments of a direction. -/
def segmentsIn (s : StreamSummary) (d : Direction) : List SegmentRecord :=
  s.segments.toList.filter (·.direction == d)

/-- SACK blocks sent in a direction, with the frames that carried them. -/
def sackBlocks (s : StreamSummary) (d : Direction) : List (Nat × SackBlock) :=
  (s.segmentsIn d).flatMap fun r => r.sack.blocks.map (r.frame, ·)

/-- Time from the first segment to the last. -/
def duration (s : StreamSummary) : Nat := s.tsLast - s.tsFirst

end StreamSummary

/-- Summary of one side of a multipath connection. -/
structure MetaFlowSummary where
  token : Option Token
  /-- Data bytes mapped so far. -/
  mappedBytes : Option DataSeq
  /-- Highest data acknowledgment, relative. -/
  acked : Option DataSeq
  reinjections : Nat
  mappedSpans : Nat
  dataFinFrame : Option Nat
deriving DecidableEq

/-- The summary of a side. -/
def MetaFlow.summary (f : MetaFlow) : MetaFlowSummary where
  token := f.token
  mappedBytes := f.nextDsn.map f.relative
  acked := f.maxDsnAcked.map f.relative
  reinjections := f.reinjections
  mappedSpans := f.mappedSpans
  dataFinFrame := f.dataFinFrame

/-- Summary of one multipath connection. -/
structure MetaSummary where
  metaId : Nat
  state : HandshakeState
  hmac : Option HmacAlgorithm
  checksumRequired : Bool
  subflows : List Nat
  client : MetaFlowSummary
  server : MetaFlowSummary
  failFrame : Option Nat
  fastcloseFrame : Option Nat
deriving DecidableEq

/-- The summary of a multipath connection. -/
def MetaConnection.summary (m : MetaConnection) : MetaSummary where
  metaId := m.metaId
  state := m.state
  hmac := m.hmac
  checksumRequired := m.checksumRequired
  subflows := m.subflows
  client := m.client.summary
  server := m.server.summary
  failFrame := m.failFrame
  fastcloseFrame := m.fastcloseFrame

/-- The summaries of all multipath connections, in the order they opened. -/
def MetaRegistry.summaries (r : MetaRegistry) : List MetaSummary :=
  r.connections.map MetaConnection.summary

end TcpCapture
