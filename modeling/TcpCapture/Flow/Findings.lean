/-!
# What a segment looks like

`Findings` holds everything sequence analysis notices about a segment, and `SegmentClass` is the one
tag that sums it up.

**Priority.** `Findings.primaryClass` takes the first finding of a fixed list.  A fast retransmission
ranks above a segment out of order, and every finding about retransmission above a gap.
-/

namespace TcpCapture

/-- Everything noticed about one segment. -/
structure Findings where
  retransmission : Bool := false
  /-- Earlier data was not captured. -/
  lostPacket : Bool := false
  /-- Acknowledges data that was never seen. -/
  ackLostPacket : Bool := false
  keepAlive : Bool := false
  duplicateAck : Bool := false
  zeroWindow : Bool := false
  zeroWindowProbe : Bool := false
  zeroWindowProbeAck : Bool := false
  keepAliveAck : Bool := false
  outOfOrder : Bool := false
  fastRetransmission : Bool := false
  windowUpdate : Bool := false
  windowFull : Bool := false
  reusedPorts : Bool := false
  /-- Retransmits data the peer had acknowledged. -/
  spuriousRetransmission : Bool := false
deriving DecidableEq, Repr

/-- The one tag of a segment. -/
inductive SegmentClass where
  | keepAlive
  | zeroWindowProbe
  | windowUpdate
  | zeroWindow
  | retransmission
  | fastRetransmission
  | outOfOrder
  | lostSegment
  | inOrder
  | duplicateAck
  | other
deriving DecidableEq, Repr

/-- The name of a class in reports. -/
def SegmentClass.text : SegmentClass → String
  | keepAlive => "keep-alive"
  | zeroWindowProbe => "zero-window-probe"
  | windowUpdate => "window-update"
  | zeroWindow => "zero-window"
  | retransmission => "retransmission"
  | fastRetransmission => "fast-retransmission"
  | outOfOrder => "out-of-order"
  | lostSegment => "lost-segment"
  | inOrder => "in-order"
  | duplicateAck => "dup-ack"
  | other => "other"

namespace Findings

/-- The findings a bit field stands for; bits past the fifteenth are ignored. -/
def ofBits (bits : Nat) : Findings where
  retransmission := bits.testBit 0
  lostPacket := bits.testBit 1
  ackLostPacket := bits.testBit 2
  keepAlive := bits.testBit 3
  duplicateAck := bits.testBit 4
  zeroWindow := bits.testBit 5
  zeroWindowProbe := bits.testBit 6
  zeroWindowProbeAck := bits.testBit 7
  keepAliveAck := bits.testBit 8
  outOfOrder := bits.testBit 9
  fastRetransmission := bits.testBit 10
  windowUpdate := bits.testBit 11
  windowFull := bits.testBit 12
  reusedPorts := bits.testBit 13
  spuriousRetransmission := bits.testBit 14

/-- The findings in the order of their bits, lowest first. -/
def toList (f : Findings) : List Bool :=
  [f.retransmission, f.lostPacket, f.ackLostPacket, f.keepAlive, f.duplicateAck, f.zeroWindow,
    f.zeroWindowProbe, f.zeroWindowProbeAck, f.keepAliveAck, f.outOfOrder, f.fastRetransmission,
    f.windowUpdate, f.windowFull, f.reusedPorts, f.spuriousRetransmission]

/-- The bit field of the findings. -/
def bits (f : Findings) : Nat := f.toList.foldr (fun set rest => set.toNat + 2 * rest) 0

/-- The class of a segment.  `carriesSequence` says whether it occupies sequence numbers, which
decides the class of a segment about which nothing else is to be said. -/
def primaryClass (f : Findings) (carriesSequence : Bool) : SegmentClass :=
  if f.keepAlive || f.keepAliveAck then .keepAlive
  else if f.zeroWindowProbe || f.zeroWindowProbeAck then .zeroWindowProbe
  else if f.windowUpdate then .windowUpdate
  else if f.zeroWindow then .zeroWindow
  else if f.retransmission || f.spuriousRetransmission then .retransmission
  else if f.fastRetransmission then .fastRetransmission
  else if f.outOfOrder then .outOfOrder
  else if f.lostPacket || f.ackLostPacket then .lostSegment
  else if carriesSequence then .inOrder
  else if f.duplicateAck then .duplicateAck
  else .other

/-- Any kind of retransmission. -/
def isRetransmission (f : Findings) : Bool :=
  f.retransmission || f.fastRetransmission || f.spuriousRetransmission

/-- The payload is no data: the byte is sent only to get an answer. -/
def isProbing (f : Findings) : Bool := f.keepAlive || f.zeroWindowProbe

end Findings

end TcpCapture
