import TcpCapture.Multipath.Correlation
import TcpCapture.Report.Summary
import TcpCapture.Total

/-!
# What a session reports

The report of a segment, of a connection that is no longer followed, and of a whole session.
-/

namespace TcpCapture

/-- Why a connection is no longer followed. -/
inductive TeardownReason where
  | reset
  /-- Both directions ended. -/
  | closed
  /-- A SYN opened a new connection between the same endpoints. -/
  | reused
  | evicted
  | idle
  | sessionEnd
deriving DecidableEq, Repr

/-- The name of a reason in reports. -/
def TeardownReason.text : TeardownReason → String
  | reset => "reset"
  | closed => "closed"
  | reused => "reused"
  | evicted => "evicted"
  | idle => "idle"
  | sessionEnd => "session end"

/-- What was given up with a connection. -/
structure TeardownReport where
  stream : Nat
  reason : TeardownReason
  /-- Partial PDUs dropped. -/
  discardedPdus : Nat := 0
  /-- PDUs delivered by the teardown itself; only the end of a direction delivers any. -/
  deliveredAtClose : Nat := 0
  /-- Bytes that were held behind a hole. -/
  droppedBytes : Nat := 0
  /-- Subflow payload that no mapping covered. -/
  unattributed : List (Direction × PendingSpan) := []
deriving DecidableEq

/-- Bytes of subflow payload that no mapping covered. -/
def TeardownReport.unattributedBytes (t : TeardownReport) : Nat :=
  totalOf (·.2.len) t.unattributed

/-- Everything learned from one segment. -/
structure SegmentReport where
  stream : Nat
  direction : Direction
  frame : Nat
  /-- Relative to the sender's first number. -/
  seq : Seq
  nextSeq : Seq
  /-- Relative to the receiver's first number. -/
  ack : Option Seq
  len : Nat
  classification : Classification
  pdusDelivered : Nat := 0
  pduError : Option CaptureError := none
  multipath : Option MultipathAnalysis := none
  /-- Set when the segment closed or reset its connection. -/
  teardown : Option TeardownReport := none
  /-- Other connections given up on this occasion. -/
  retired : List TeardownReport := []
deriving DecidableEq

/-- A PDU of a connection. -/
structure Delivery where
  stream : Nat
  direction : Direction
  pdu : Pdu
deriving DecidableEq

/-- What is left of a session at its end. -/
structure SessionReport where
  teardowns : List TeardownReport
  /-- Every connection seen, by stream number. -/
  streams : List StreamSummary
  metas : List MetaSummary
deriving DecidableEq

end TcpCapture
