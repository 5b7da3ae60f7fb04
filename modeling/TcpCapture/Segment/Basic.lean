import TcpCapture.Segment.Flags
import TcpCapture.Segment.Options

/-!
# Segments

One captured TCP segment, decoded: its ends, numbers, flags, options and payload, and when and in
which frame it was captured.
-/

namespace TcpCapture

/-- One captured TCP segment. -/
structure Segment where
  source : Endpoint
  destination : Endpoint
  seq : Seq := 0
  ack : Seq := 0
  flags : TcpFlags := {}
  /-- Advertised window, not scaled. -/
  window : UInt16 := 0
  /-- Window shift offered in a SYN. -/
  windowScale : Option UInt8 := none
  sack : SackBlocks := {}
  multipath : List MultipathOption := []
  payload : List UInt8 := []
  /-- Capture time in nanoseconds. -/
  timestamp : Nat := 0
  frame : Nat := 0
deriving DecidableEq

namespace Segment

/-- Length of the payload in bytes.  Lengths are counted in 32 bits, and the count stops at `2 ^ 32 - 1`:
payloads are taken to be shorter than `2 ^ 32` bytes, so that it is exact. -/
def payloadLen (s : Segment) : Nat := s.payload.length

/-- Sequence numbers the segment occupies: its payload, and one each for SYN and FIN. -/
def sequenceLen (s : Segment) : Nat := s.payloadLen + s.flags.sequenceLen

/-- Sequence number after the last payload byte. -/
def payloadEnd (s : Segment) : Seq := advance s.seq s.payloadLen

/-- Sequence number after everything the segment occupies. -/
def endSeq (s : Segment) : Seq := advance s.seq s.sequenceLen

/-- A SYN that is not an answer to one. -/
def isOpening (s : Segment) : Bool := s.flags.syn && !s.flags.ack

/-- Acknowledges everything before `ack`. -/
def acknowledging (s : Segment) (ack : Seq) : Segment :=
  { s with ack, flags := { s.flags with ack := true } }

/-- Replaces the SACK blocks by the first four of a list. -/
def withSack (s : Segment) (blocks : List SackBlock) : Segment :=
  { s with sack := .ofList blocks }

/-- Adds a multipath option. -/
def withMultipath (s : Segment) (option : MultipathOption) : Segment :=
  { s with multipath := s.multipath ++ [option] }

/-- Applies decoded options: the SACK blocks are replaced, a window scale only when one was
offered, and multipath options are added. -/
def withOptions (s : Segment) (options : TcpOptions) : Segment :=
  { s with
    windowScale := options.windowScale.or s.windowScale
    sack := options.sack
    multipath := s.multipath ++ options.multipath }

end Segment

end TcpCapture
