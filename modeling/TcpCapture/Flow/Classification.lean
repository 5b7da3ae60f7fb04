import TcpCapture.Clock
import TcpCapture.Flow.Basic

/-!
# Classifying segments

Each segment is judged against the flow it belongs to and the flow of its peer, and both are brought
up to date.

## Main definitions

* `Thresholds` — the time limits in use
* `classify` — judges a segment and updates both flows
* `track` — updates both flows without judging

**Order of the checks.**  A probe of a closed window is nothing else.  Otherwise come gaps,
keep-alives and window changes, then what kind of acknowledgment the segment is; unless it answers a
keep-alive or a probe, acknowledgments of unseen data and then retransmissions.  A keep-alive is not
checked for retransmission.
-/

namespace TcpCapture

/-- Time limits used while classifying, in nanoseconds. -/
structure Thresholds where
  /-- A segment below the next position is taken for a late one this long. -/
  outOfOrder : Nat := 3000000
  /-- A retransmission is fast this long after the last duplicate acknowledgment. -/
  fastRetransmitWindow : Nat := 20000000
  /-- Duplicate acknowledgments that call for a fast retransmission. -/
  fastRetransmitDupAcks : Nat := 2
deriving DecidableEq, Repr

/-- The round trip of the handshake, once known and not zero, takes the place of the limit for late
segments. -/
def Thresholds.withRtt (t : Thresholds) (firstRtt : Option Nat) : Thresholds :=
  { t with outOfOrder := (firstRtt.filter (· != 0)).getD t.outOfOrder }

/-- The result of classifying a segment. -/
structure Classification where
  findings : Findings
  segmentClass : SegmentClass
  /-- For a duplicate acknowledgment: how many there are by now, in 32 bits, and the frame they repeat. -/
  dupAck : Option (BitVec 32 × Nat) := none
  /-- Frame of the segment this one acknowledges exactly. -/
  ackedFrame : Option Nat := none
  /-- Time since that frame. -/
  ackRtt : Option Nat := none
  bytesInFlight : Option Nat := none
deriving DecidableEq, Repr

/-- A classification and the flows after it. -/
structure Classified where
  sender : Flow
  peer : Flow
  classification : Classification
deriving DecidableEq

namespace Classified

/-! ### Position and window -/

/-- One byte at the next position, into a window the peer closed. -/
def isZeroWindowProbe (sender peer : Flow) (s : Segment) : Bool :=
  s.payloadLen == 1 && sender.nextSeq == some s.seq && peer.window == some 0

/-- The segment lies past the next position, so earlier data was not captured. -/
def followsGap (sender : Flow) (s : Segment) : Bool :=
  !s.flags.rst && sender.nextSeq.any (after s.seq)

/-- At most one byte, just below the next position. -/
def isKeepAlive (sender : Flow) (s : Segment) : Bool :=
  decide (s.payloadLen ≤ 1) && !s.flags.hasControl && sender.nextSeq == some (s.seq + 1)

/-- Nothing changed but the window. -/
def isWindowUpdate (sender : Flow) (s : Segment) (window : BitVec 32) : Bool :=
  s.payloadLen == 0 && window != 0 && !s.flags.hasControl && sender.window.any (· != window) &&
    sender.nextSeq == some s.seq && sender.lastAck == some s.ack

/-- The payload ends where the window the peer opened ends. -/
def fillsWindow (peer : Flow) (s : Segment) : Bool :=
  s.payloadLen != 0 && !s.flags.hasControl && peer.windowScale != .unknown &&
    (match peer.lastAck, peer.window with
      | some ack, some window => s.payloadEnd == ack + window
      | _, _ => false)

/-- The findings about position and window. -/
def positionFindings (sender peer : Flow) (s : Segment) (window : BitVec 32) : Findings :=
  if isZeroWindowProbe sender peer s then { zeroWindowProbe := true }
  else
    { zeroWindow := window == 0 && !s.flags.hasControl
      lostPacket := followsGap sender s
      keepAlive := isKeepAlive sender s
      windowUpdate := isWindowUpdate sender s window
      windowFull := fillsWindow peer s }

/-! ### Acknowledgments -/

/-- Kinds of acknowledgment. -/
inductive AckKind where
  /-- Answers a keep-alive. -/
  | keepAlive
  /-- Answers a probe of a closed window. -/
  | zeroWindowProbe
  /-- Says nothing new. -/
  | duplicate
  /-- Anything else. -/
  | fresh
deriving DecidableEq, Repr

/-- A pure acknowledgment that repeats position, acknowledgment number and window. -/
def repeatsPosition (sender : Flow) (s : Segment) (window : BitVec 32) : Bool :=
  s.payload.isEmpty && s.flags.ack && !s.flags.hasControl && sender.nextSeq == some s.seq &&
    sender.lastAck == some s.ack && sender.window == some window

/-- What kind of acknowledgment a segment is. -/
def ackKind (sender peer : Flow) (s : Segment) (window : BitVec 32) : AckKind :=
  if !repeatsPosition sender s window then .fresh
  else if window != 0 then
    if peer.lastFindings.keepAlive then .keepAlive else .duplicate
  else if peer.lastFindings.zeroWindowProbe then .zeroWindowProbe
  else .fresh

/-- Keeps the run of duplicates: a fresh segment starts a new one, and answers to keep-alives and
probes leave it alone. -/
def countAck (sender : Flow) (kind : AckKind) (frame : Nat) : Flow :=
  match kind with
  | .keepAlive | .zeroWindowProbe => sender
  | .duplicate => { sender with dupAckCount := sender.dupAckCount + 1 }
  | .fresh => { sender with lastNondupAck := frame, dupAckCount := 0 }

/-- Acknowledges what was never seen. -/
def acksUnseen (peer : Flow) (s : Segment) : Bool :=
  s.flags.ack && peer.maxSeqAcked.any (after s.ack)

/-! ### Retransmissions -/

/-- Kinds of segments below the next position. -/
inductive LateKind where
  /-- Resent at once, after duplicate acknowledgments for it. -/
  | fast
  /-- Sent in time but captured late. -/
  | outOfOrder
  /-- Resent although acknowledged. -/
  | spurious
  /-- Resent. -/
  | ordinary
deriving DecidableEq, Repr

/-- Enough duplicate acknowledgments ask for this segment, the last one a short time ago. -/
def isFastRetransmission (peer : Flow) (s : Segment) (limits : Thresholds) : Bool :=
  decide (limits.fastRetransmitDupAcks ≤ peer.dupAckCount.toNat) && peer.lastAck == some s.seq &&
    isWithin s.timestamp peer.lastAckTime limits.fastRetransmitWindow

/-- What kind of late segment this is, if it occupies sequence numbers below the next position. -/
def lateKind? (sender peer : Flow) (s : Segment) (limits : Thresholds) : Option LateKind :=
  match sender.nextSeq with
  | none => none
  | some next =>
    if s.sequenceLen == 0 || !before s.seq next then none
    else if isFastRetransmission peer s limits then some .fast
    else if isWithin s.timestamp sender.nextSeqTime limits.outOfOrder && next != s.payloadEnd then
      some .outOfOrder
    else if s.payloadLen != 0 && peer.lastAck.any (atOrBefore s.payloadEnd) then some .spurious
    else some .ordinary

/-- Adds what a late segment is. -/
def withLate (f : Findings) : Option LateKind → Findings
  | none => f
  | some .fast => { f with fastRetransmission := true }
  | some .outOfOrder => { f with outOfOrder := true }
  | some .spurious => { f with retransmission := true, spuriousRetransmission := true }
  | some .ordinary => { f with retransmission := true }

/-! ### Bringing the flows up to date -/

/-- The segment takes its sender past the next position.  Probes never do. -/
def advances (sender : Flow) (s : Segment) (f : Findings) : Bool :=
  !f.isProbing && sender.nextSeq.all (after s.endSeq)

/-- The sender after a segment.  Only segments that advance it are timed. -/
def recordSegment (sender : Flow) (s : Segment) (f : Findings) (window : BitVec 32) : Flow :=
  let advanced := advances sender s f
  let nextSeq := if advanced then some s.endSeq else sender.nextSeq
  let continues := !f.zeroWindowProbe && sender.maxSeqAcked.all (· == s.seq)
  { sender with
    nextSeq
    nextSeqTime := if advanced then s.timestamp else sender.nextSeqTime
    maxSeqAcked := if continues then nextSeq else sender.maxSeqAcked
    window := some window
    lastAck := if s.flags.ack then some s.ack else sender.lastAck
    lastAckTime := if s.flags.ack then s.timestamp else sender.lastAckTime
    lastFindings := f
    unacked :=
      if advanced && s.sequenceLen != 0 then
        sender.unacked ++ [⟨s.frame, s.seq, s.endSeq, s.timestamp⟩]
      else sender.unacked }

/-- Bytes sent but not acknowledged, after a data segment. -/
def bytesInFlight (sender peer : Flow) (s : Segment) : Option Nat :=
  match sender.nextSeq, peer.lastAck with
  | some next, some ack =>
    if s.payloadLen != 0 && atOrBefore ack next then some (next - ack).toNat else none
  | _, _ => none

/-- Settles both flows and draws the result up. -/
def settle (sender peer : Flow) (s : Segment) (f : Findings)
    (dupAck : Option (BitVec 32 × Nat)) (window : BitVec 32) : Classified :=
  let sender := recordSegment sender s f window
  let acked := if s.flags.ack then peer.ackedExactly s.ack else none
  { sender
    peer := if s.flags.ack then peer.pruneAcked s.ack else peer
    classification := {
      findings := f
      segmentClass := f.primaryClass (s.sequenceLen != 0)
      dupAck
      ackedFrame := acked.map (·.frame)
      ackRtt := acked.map fun u => s.timestamp - u.timestamp
      bytesInFlight := bytesInFlight sender peer s } }

end Classified

open Classified in
/-- Judges a segment sent by the owner of `sender`, and updates both flows. -/
def classify (sender peer : Flow) (s : Segment) (limits : Thresholds) : Classified :=
  let window := sender.scaledWindow s.window s.flags.syn
  let f := positionFindings sender peer s window
  if f.zeroWindowProbe then settle sender peer s f none window
  else
    let kind := ackKind sender peer s window
    let sender := countAck sender kind s.frame
    match kind with
    | .keepAlive => settle sender peer s { f with keepAliveAck := true } none window
    | .zeroWindowProbe => settle sender peer s { f with zeroWindowProbeAck := true } none window
    | .duplicate | .fresh =>
      let unseen := acksUnseen peer s
      -- reported once: later acknowledgments are measured against what was sent
      let peer := if unseen then { peer with maxSeqAcked := peer.nextSeq } else peer
      let f := { f with duplicateAck := kind == .duplicate, ackLostPacket := unseen }
      let f := if f.keepAlive then f else withLate f (lateKind? sender peer s limits)
      let dupAck :=
        if kind == .duplicate then some (sender.dupAckCount, sender.lastNondupAck) else none
      settle sender peer s f dupAck window

open Classified in
/-- Updates both flows without judging the segment. -/
def track (sender peer : Flow) (s : Segment) : Classified :=
  settle sender peer s {} none (sender.scaledWindow s.window s.flags.syn)

end TcpCapture
