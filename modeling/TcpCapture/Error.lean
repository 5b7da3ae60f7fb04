import TcpCapture.Address

/-!
# Errors

Everything that can be wrong with what the library is given, as causes; `CaptureError.message` holds
the wording.
-/

namespace TcpCapture

/-- Why something was refused. -/
inductive CaptureError where
  /-- A range whose low end lies above its high end. -/
  | invertedRange (low high : Nat)
  /-- A length probe declared a PDU length that cannot be framed. -/
  | badPduLength (declared least : Nat)
  /-- A segment of a connection whose opening was not captured. -/
  | unknownConnection (source destination : Endpoint)
  /-- A mapping that is empty or runs past the end of its sequence space. -/
  | mappingOverflow (start length : Nat)
deriving DecidableEq, Repr

namespace CaptureError

/-- The text shown for an error. -/
def message : CaptureError → String
  | invertedRange low high => s!"inverted range: low {low} > high {high}"
  | badPduLength declared least =>
    s!"invalid declared PDU length {declared} (fixed header is {least} bytes)"
  | unknownConnection source destination =>
    "no connection for " ++ source.text ++ " -> " ++ destination.text ++
      " and mid-stream tracking is disabled"
  | mappingOverflow start length =>
    s!"DSS mapping at {start} with length {length} overflows the sequence space"

end CaptureError

end TcpCapture
