import TcpCapture.Multipath.Option
import TcpCapture.Segment.Sack

/-!
# The option area of a header

The area is first cut into options and each option then contributes what its kind and body say.

## Main definitions

* `RawOption.split` — the options of an area, as kinds and bodies
* `TcpOptions.decode` — everything the options say

**Malformed areas.** A length byte below two, or one that runs past the area, ends the cutting, as
the END option does; what came before is kept.  An option whose body is too short for its kind says
nothing, except that timestamps are read one by one.
-/

namespace TcpCapture

/-- One option: its kind and the bytes after its length byte. -/
structure RawOption where
  kind : UInt8
  body : List UInt8
deriving DecidableEq, Repr

namespace RawOption

/-- Cuts an option area into options.  Kind 0 ends the list; kind 1 is a filler without a length
byte; the length byte of any other kind counts the kind and itself. -/
def split : List UInt8 → List RawOption
  | [] => []
  | [_] => []
  | kind :: len :: rest =>
    if kind = 0 then []
    else if kind = 1 then split (len :: rest)
    else if len.toNat < 2 ∨ rest.length + 2 < len.toNat then []
    else ⟨kind, rest.take (len.toNat - 2)⟩ :: split (rest.drop (len.toNat - 2))
termination_by area => area.length

end RawOption

/-- What the options of a header say. -/
structure TcpOptions where
  mss : Option UInt16 := none
  windowScale : Option UInt8 := none
  sackPermitted : Bool := false
  sack : SackBlocks := {}
  tsVal : Option (BitVec 32) := none
  tsEcr : Option (BitVec 32) := none
  multipath : List MultipathOption := []
deriving DecidableEq

namespace TcpOptions

open Read

/-- The largest window shift in use; larger ones count as this one. -/
def maxWindowShift : UInt8 := 14

/-- The pairs of sequence numbers in the body of a SACK option. -/
def sackBlocks (body : List UInt8) : List SackBlock :=
  if 8 ≤ body.length then
    ⟨.ofNat 32 (BigEndian.ofBytes (body.take 4)),
      .ofNat 32 (BigEndian.ofBytes ((body.drop 4).take 4))⟩ :: sackBlocks (body.drop 8)
  else []
termination_by body.length

/-- Two timestamps, each absent when its bytes are. -/
def readTimestamps : Read (Option Nat × Option Nat) := do
  let value ← optional (uint 4)
  let echo ← optional (uint 4)
  return (value, echo)

/-- Adds what one option says.  A later option of a kind replaces an earlier one, except that
multipath options accumulate. -/
def apply (o : TcpOptions) (raw : RawOption) : TcpOptions :=
  match raw.kind.toNat with
  | 2 =>
    match value? (uint 2) raw.body with
    | some mss => { o with mss := some (.ofNat mss) }
    | none => o
  | 3 =>
    match raw.body with
    | shift :: _ => { o with windowScale := some (min shift maxWindowShift) }
    | [] => o
  | 4 => { o with sackPermitted := true }
  | 5 => { o with sack := .ofList (sackBlocks raw.body) }
  | 8 =>
    match value? readTimestamps raw.body with
    | some (value, echo) =>
      { o with tsVal := value.map (BitVec.ofNat 32), tsEcr := echo.map (BitVec.ofNat 32) }
    | none => o
  | 30 =>
    match MultipathOption.decode raw.body with
    | some option => { o with multipath := o.multipath ++ [option] }
    | none => o
  | _ => o

/-- What the option area of a header says. -/
def decode (area : List UInt8) : TcpOptions := (RawOption.split area).foldl apply {}

end TcpOptions

end TcpCapture
