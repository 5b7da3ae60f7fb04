import TcpCapture.Sequence

/-!
# Open PDUs

A descriptor says what is known of a PDU that is still being collected.  `PduTable` keeps the
descriptors of one direction in the order of their first bytes, at most one for each.

**Positions are plain numbers here.**  A descriptor covers the positions from its own up to its end
*as numbers*, not around the circle: one whose end lies past the wrap covers nothing.
-/

namespace TcpCapture

/-- A PDU being collected. -/
structure PduDescriptor where
  seq : Seq
  /-- Position after the PDU, once its length is known. -/
  nextPdu : Option Seq
  firstFrame : Nat
  lastFrame : Nat
  /-- Capture time of the last frame in nanoseconds. -/
  lastFrameTime : Nat
  flags : BitVec 32
deriving DecidableEq, Repr

namespace PduDescriptor

/-- Flag: the next segment belongs to the PDU in full, whatever its length. -/
def entireSegment : BitVec 32 := 1

/-- The flag is set. -/
def takesEntireSegment (d : PduDescriptor) : Bool := d.flags &&& entireSegment != 0

/-- Sets the flag. -/
def requestEntireSegment (d : PduDescriptor) : PduDescriptor :=
  { d with flags := d.flags ||| entireSegment }

/-- The frame a segment arrived in is the last one so far, and uses the flag up. -/
def extend (d : PduDescriptor) (frame time : Nat) : PduDescriptor :=
  { d with lastFrame := frame, lastFrameTime := time, flags := d.flags &&& ~~~entireSegment }

/-- The position lies in the PDU as far as its end is known. -/
def covers (d : PduDescriptor) (seq : Seq) : Bool :=
  decide (d.seq ≤ seq) && (match d.nextPdu with
    | none => true
    | some stop => decide (seq < stop))

end PduDescriptor

/-- Descriptors by first position, lowest first. -/
structure PduTable where
  entries : List PduDescriptor := []
deriving DecidableEq, Repr

namespace PduTable

/-- Puts a descriptor into an ordered list, in place of one with the same position. -/
def insertSorted (d : PduDescriptor) : List PduDescriptor → List PduDescriptor
  | [] => [d]
  | e :: rest =>
    if d.seq < e.seq then d :: e :: rest
    else if d.seq = e.seq then d :: rest
    else e :: insertSorted d rest

/-- Adds a descriptor, in place of one with the same position. -/
def insert (t : PduTable) (d : PduDescriptor) : PduTable := ⟨insertSorted d t.entries⟩

/-- The descriptor at a position. -/
def get? (t : PduTable) (seq : Seq) : Option PduDescriptor := t.entries.find? (·.seq == seq)

/-- Removes the descriptor at a position. -/
def erase (t : PduTable) (seq : Seq) : PduTable := ⟨t.entries.filter (·.seq != seq)⟩

/-- The descriptor that covers a position: of those that start at or below it only the last one can. -/
def covering? (t : PduTable) (seq : Seq) : Option PduDescriptor :=
  ((t.entries.filter fun d => decide (d.seq ≤ seq)).getLast?).filter (·.covers seq)

/-- How many descriptors there are. -/
def size (t : PduTable) : Nat := t.entries.length

/-- There are none. -/
def isEmpty (t : PduTable) : Bool := t.entries.isEmpty

end PduTable

end TcpCapture
