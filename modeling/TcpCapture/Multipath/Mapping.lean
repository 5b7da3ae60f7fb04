import TcpCapture.Interval.Tree
import TcpCapture.Sequence
import TcpCapture.Total

/-!
# Mappings of one subflow direction

DSS options announce where stretches of subflow bytes belong in the data sequence space.  They may
come before the bytes or after them; bytes no mapping covers yet are kept pending.

## Main definitions

* `SubflowMappings` — the mappings announced, and the pending bytes
* `place` — places a stretch of bytes, as far as mappings cover it
* `insert?`, `setInfinite` — add a mapping and place the pending bytes it covers
* `takePending` — gives up all pending bytes

**Which mapping counts.**  Where mappings overlap, a byte belongs to the one that starts first.
Bytes in no mapping, at or past the start of the infinite mapping, are mapped one to one from there.

Positions are plain numbers here: the end of a stretch may be `2 ^ 32`.
-/

namespace TcpCapture

/-- Subflow bytes placed in the data sequence space. -/
structure AttributedSpan where
  /-- Relative subflow position of the first byte. -/
  ssn : Seq
  dsn : DataSeq
  len : Nat
  /-- Frame that announced the mapping. -/
  mappingFrame : Nat
deriving DecidableEq, Repr

/-- Subflow bytes that no mapping covers yet. -/
structure PendingSpan where
  ssn : Seq
  len : Nat
  frame : Nat
deriving DecidableEq, Repr

/-- What a mapping does to the bytes in its range. -/
structure MappingTarget where
  dsn : DataSeq
  frame : Nat
deriving DecidableEq, Repr

/-- The fallback: every byte from `ssn` on maps one to one. -/
structure InfiniteMapping where
  ssn : Seq
  dsn : DataSeq
  frame : Nat
deriving DecidableEq, Repr

/-- A stretch of positions. -/
structure Stretch where
  start : Nat
  len : Nat
deriving DecidableEq, Repr

/-- The mappings announced for one subflow direction, and the bytes that wait for one. -/
structure SubflowMappings where
  tree : IntervalTree 32 MappingTarget := .nil
  pending : List PendingSpan := []
  infinite : Option InfiniteMapping := none
deriving DecidableEq

namespace SubflowMappings

/-- A stretch cut into placed pieces and the stretches between them. -/
structure Cover where
  found : List AttributedSpan := []
  gaps : List Stretch := []
deriving DecidableEq, Repr

/-- Cuts the positions from `cursor` to the end of the query along mappings in the order of their
low ends. -/
def tile (query : Range 32) : Nat → List (Range 32 × MappingTarget) → Cover
  | cursor, [] =>
    let stop := query.high.toNat + 1
    { gaps := if cursor < stop then [⟨cursor, stop - cursor⟩] else [] }
  | cursor, (range, target) :: rest =>
    match range.intersection query with
    | none => tile query cursor rest
    | some part =>
      let stop := part.high.toNat + 1
      if stop ≤ cursor then tile query cursor rest
      else
        let start := max part.low.toNat cursor
        let later := tile query stop rest
        { found :=
            { ssn := .ofNat 32 start
              dsn := advance target.dsn (start - range.low.toNat)
              len := stop - start
              mappingFrame := target.frame } :: later.found
          gaps := (if cursor < start then [⟨cursor, start - cursor⟩] else []) ++ later.gaps }

/-- The part of a gap before the infinite mapping, and the rest placed by it. -/
def Cover.ofGap (infinite : InfiniteMapping) (gap : Stretch) : Cover :=
  let stop := gap.start + gap.len
  let base := infinite.ssn.toNat
  if stop ≤ base then { gaps := [gap] }
  else
    let start := max gap.start base
    { found := [{
        ssn := .ofNat 32 start
        dsn := advance infinite.dsn (start - base)
        len := stop - start
        mappingFrame := infinite.frame }]
      gaps := if gap.start < start then [⟨gap.start, start - gap.start⟩] else [] }

/-- Fills the gaps of a cover with the infinite mapping. -/
def Cover.extend (c : Cover) (infinite : InfiniteMapping) : Cover :=
  let filled := c.gaps.map (Cover.ofGap infinite)
  { found := (c.found ++ filled.flatMap (·.found)).mergeSort
      fun x y => decide (x.ssn ≤ y.ssn)
    gaps := filled.flatMap (·.gaps) }

/-- Cuts `len` bytes from `ssn` on along the mappings.  A stretch that runs past the end of the
sequence space is not placed at all. -/
def cover (m : SubflowMappings) (ssn : Seq) (len : Nat) : Cover :=
  if len = 0 then {}
  else
    match Range.ofLength ssn len with
    | .error _ => { gaps := [⟨ssn.toNat, len⟩] }
    | .ok query =>
      let c := tile query ssn.toNat (m.tree.findAll query)
      match m.infinite with
      | none => c
      | some infinite => c.extend infinite

/-- Gaps as pending bytes of a frame. -/
def pend (frame : Nat) (gaps : List Stretch) : List PendingSpan :=
  gaps.map fun gap => ⟨.ofNat 32 gap.start, gap.len, frame⟩

/-- Places `len` bytes from `ssn` on, seen in `frame`; what no mapping covers is kept pending. -/
def place (m : SubflowMappings) (ssn : Seq) (len frame : Nat) :
    SubflowMappings × List AttributedSpan :=
  let c := m.cover ssn len
  ({ m with pending := m.pending ++ pend frame c.gaps }, c.found)

/-- Places the pending bytes that are covered by now. -/
def resolvePending (m : SubflowMappings) : SubflowMappings × List AttributedSpan :=
  let covers := m.pending.map fun span => (span.frame, m.cover span.ssn span.len)
  ({ m with pending := covers.flatMap fun (frame, c) => pend frame c.gaps },
    covers.flatMap fun (_, c) => c.found)

/-- Adds a mapping of `len` bytes and places the pending bytes it covers. -/
def insert? (m : SubflowMappings) (ssn : Seq) (len : Nat) (dsn : DataSeq) (frame : Nat) :
    Except CaptureError (SubflowMappings × List AttributedSpan) := do
  let range ← Range.ofLength ssn len
  return { m with tree := m.tree.insert range ⟨dsn, frame⟩ }.resolvePending

/-- Adds the infinite mapping, unless there is one, and places the pending bytes it covers. -/
def setInfinite (m : SubflowMappings) (ssn : Seq) (dsn : DataSeq) (frame : Nat) :
    SubflowMappings × List AttributedSpan :=
  match m.infinite with
  | some _ => (m, [])
  | none => { m with infinite := some ⟨ssn, dsn, frame⟩ }.resolvePending

/-- Gives up all pending bytes. -/
def takePending (m : SubflowMappings) : SubflowMappings × List PendingSpan :=
  ({ m with pending := [] }, m.pending)

/-- How many mappings were announced, the infinite one apart. -/
def count (m : SubflowMappings) : Nat := m.tree.size

/-- How many bytes are pending. -/
def pendingBytes (m : SubflowMappings) : Nat := totalOf (·.len) m.pending

end SubflowMappings

end TcpCapture
