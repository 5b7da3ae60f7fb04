import TcpCapture.Bytes.Cursor
import TcpCapture.Sequence

/-!
# PDU lengths

How long the message at the front of a byte stream is, as far as the bytes at hand tell.

## Main definitions

* `PduLength` — the verdict on a stretch of bytes
* `LengthProbe` — a rule that gives verdicts
* `LengthField` — the rule of protocols that announce the length in a fixed field
* `Framing` — how payload is cut
-/

namespace TcpCapture

/-- What the bytes collected so far tell about the PDU they begin. -/
inductive PduLength where
  /-- The PDU has this many bytes, its header included. -/
  | known (total : Nat)
  /-- The header is not complete. -/
  | needMore
  /-- The whole next segment belongs to the PDU and completes it. -/
  | oneMoreSegment
  /-- The rest of this direction is one PDU. -/
  | untilClose
deriving DecidableEq, Repr

/-- A rule that judges the bytes from the start of a PDU on. -/
abbrev LengthProbe := List UInt8 → PduLength

/-- Width of a length field. -/
inductive FieldWidth where
  | one
  | two
  | three
  | four
deriving DecidableEq, Repr

/-- The width in bytes. -/
def FieldWidth.bytes : FieldWidth → Nat
  | one => 1
  | two => 2
  | three => 3
  | four => 4

/-- A big-endian length field `offset` bytes into the PDU, which leaves `headerLen` bytes of it
uncounted. -/
structure LengthField where
  offset : Nat
  width : FieldWidth
  headerLen : Nat
deriving DecidableEq, Repr

namespace LengthField

/-- The longest length there is; longer totals are reported as this one. -/
def maxTotal : Nat := 0xFFFFFFFFFFFFFFFF

/-- The fewest bytes from which the length can be told. -/
def fixedLen (f : LengthField) : Nat := f.offset + f.width.bytes

/-- The field's value. -/
def read (f : LengthField) : Read Nat := do
  Read.skip f.offset
  Read.uint f.width.bytes

/-- The verdict on the bytes of a PDU. -/
def probe (f : LengthField) : LengthProbe := fun header =>
  match Read.value? f.read header with
  | none => .needMore
  | some value => .known (min (value + f.headerLen) maxTotal)

end LengthField

/-- How payload is cut into PDUs. -/
structure Framing where
  /-- Collect PDUs that cross segment boundaries. -/
  desegment : Bool := true
  /-- Bytes a probe needs before it is asked. -/
  fixedLen : Nat := 0
  /-- Each direction is one PDU that ends with it. -/
  untilClose : Bool := false
deriving DecidableEq, Repr

/-- A message of the application.  `complete` is false for what is left of a segment when segments
stand alone. -/
structure Pdu where
  seq : Seq
  data : List UInt8
  firstFrame : Nat
  lastFrame : Nat
  complete : Bool
deriving DecidableEq, Repr

end TcpCapture
