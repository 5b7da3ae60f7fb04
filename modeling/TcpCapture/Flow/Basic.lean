import TcpCapture.Flow.Findings
import TcpCapture.Flow.Reorder
import TcpCapture.Segment.Basic

/-!
# Flows

The state of one direction of a connection: its numbering, its window, what its peer has not
acknowledged yet, and the payload on its way to becoming PDUs.

**Numbering.**  Sequence fields are absolute.  Relative numbers count from the base: the SYN's own
number, or one before the first segment seen, so that data starts at relative 1 either way.  The base
is set once.
-/

namespace TcpCapture

/-- A segment that waits for its acknowledgment. -/
structure UnackedSegment where
  frame : Nat
  seq : Seq
  nextSeq : Seq
  timestamp : Nat
deriving DecidableEq, Repr

/-- Window scaling as the handshake settled it. -/
inductive WindowScale where
  /-- The SYN was not captured. -/
  | unknown
  | notUsed
  | shift (n : Nat)
deriving DecidableEq, Repr

/-- An advertised window in bytes; bits shifted past the 32nd are lost. -/
def WindowScale.apply (scale : WindowScale) (window : UInt16) : BitVec 32 :=
  match scale with
  | shift n => BitVec.ofNat 32 window.toNat <<< n
  | unknown | notUsed => BitVec.ofNat 32 window.toNat

/-- What was seen in one direction. -/
structure FlowCounters where
  segments : Nat := 0
  payloadBytes : Nat := 0
  retransmissions : Nat := 0
  outOfOrder : Nat := 0
  duplicateAcks : Nat := 0
  lostSegments : Nat := 0
  keepAlives : Nat := 0
  zeroWindows : Nat := 0
deriving DecidableEq, Repr

/-- Counts one segment. -/
def FlowCounters.record (c : FlowCounters) (payloadLen : Nat) (f : Findings) : FlowCounters where
  segments := c.segments + 1
  payloadBytes := c.payloadBytes + payloadLen
  retransmissions := c.retransmissions + f.isRetransmission.toNat
  outOfOrder := c.outOfOrder + f.outOfOrder.toNat
  duplicateAcks := c.duplicateAcks + f.duplicateAck.toNat
  lostSegments := c.lostSegments + f.lostPacket.toNat
  keepAlives := c.keepAlives + f.keepAlive.toNat
  zeroWindows := c.zeroWindows + f.zeroWindow.toNat

/-- One direction of a connection. -/
structure Flow where
  baseSeq : Option Seq := none
  /-- The number after everything sent so far. -/
  nextSeq : Option Seq := none
  nextSeqTime : Nat := 0
  /-- The end of what was seen without a hole; an acknowledgment beyond it covers unseen data. -/
  maxSeqAcked : Option Seq := none
  lastAck : Option Seq := none
  lastAckTime : Nat := 0
  /-- Frame of the segment that duplicate acknowledgments repeat. -/
  lastNondupAck : Nat := 0
  /-- Duplicate acknowledgments since that segment, counted in 32 bits: the count wraps. -/
  dupAckCount : BitVec 32 := 0
  /-- Advertised window, scaled. -/
  window : Option (BitVec 32) := none
  windowScale : WindowScale := .unknown
  lastFindings : Findings := {}
  unacked : List UnackedSegment := []
  finFrame : Option Nat := none
  counters : FlowCounters := {}
  reorder : ReorderBuffer := {}
  assembler : Assembler := {}
deriving DecidableEq

namespace Flow

/-- Anchors relative numbering at the first segment seen. -/
def setBase (f : Flow) (seq : Seq) (syn : Bool) : Flow :=
  { f with baseSeq := f.baseSeq.or (some (if syn then seq else seq - 1)) }

/-- A sequence number counted from the base. -/
def relative (f : Flow) (seq : Seq) : Seq := seq - f.baseSeq.getD 0

/-- The window a segment advertises; those of SYNs are never scaled. -/
def scaledWindow (f : Flow) (window : UInt16) (syn : Bool) : BitVec 32 :=
  if syn then BitVec.ofNat 32 window.toNat else f.windowScale.apply window

/-- The record that ends exactly at an acknowledgment, the last one if there are several. -/
def ackedExactly (f : Flow) (ack : Seq) : Option UnackedSegment :=
  (f.unacked.filter (·.nextSeq == ack)).getLast?

/-- Drops every record an acknowledgment covers. -/
def pruneAcked (f : Flow) (ack : Seq) : Flow :=
  { f with unacked := f.unacked.filter fun u => !atOrBefore u.nextSeq ack }

/-- The direction has ended. -/
def isFinished (f : Flow) : Bool := f.finFrame.isSome

end Flow

end TcpCapture
