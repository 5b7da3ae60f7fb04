import TcpCapture.Multipath.Mapping

/-!
# Placing subflow bytes in machine words

Subflow positions are words of 32 bits, and the position behind a stretch may need one bit more.  So a
stretch is cut in words of 64 bits, and what comes out is made narrow again.

## Main definitions

* `Word.add?`, `Word.sub?`, `Word.narrow?` — arithmetic without a result where bits would be lost
* `SubflowMappings.tile?`, `SubflowMappings.Cover.ofGap?` — the cuts along the mappings, and where the
  infinite mapping starts
* `SubflowMappings.place?` — places a stretch of bytes

**Data sequence numbers wrap.**  Only positions are kept from losing bits; a data sequence number counts
modulo `2 ^ 64`, so what is added to it is added in plain words.
-/

namespace TcpCapture

namespace Word

/-- A sum, unless it needs more bits. -/
def add? (x y : BitVec 64) : Option (BitVec 64) := if x.uaddOverflow y then none else some (x + y)

/-- A difference, unless it is negative. -/
def sub? (x y : BitVec 64) : Option (BitVec 64) := if x.usubOverflow y then none else some (x - y)

/-- A word of 32 bits as one of 64. -/
def widen (x : BitVec 32) : BitVec 64 := x.setWidth 64

/-- The lower half of a word, unless the upper one is in use. -/
def narrow? (x : BitVec 64) : Option (BitVec 32) :=
  if x ≤ widen (.allOnes 32) then some (x.setWidth 32) else none

end Word

/-- A stretch of positions in words: its start and its length. -/
abbrev WordStretch := BitVec 64 × BitVec 64

namespace SubflowMappings

/-- Placed pieces, and the stretches between them before they are made narrow. -/
structure WordCover where
  found : List AttributedSpan := []
  gaps : List WordStretch := []
deriving DecidableEq, Repr

/-- The positions from `start` on in front of `stop`, if there are any. -/
def gap? (start stop : BitVec 64) : Option (List WordStretch) :=
  if start < stop then do return [(start, ← Word.sub? stop start)] else some []

/-- The positions from `start` on in front of `stop`, placed by a mapping that begins at `base`. -/
def piece? (start stop : BitVec 64) (base : Seq) (dsn : DataSeq) (frame : Nat) :
    Option AttributedSpan := do
  let offset ← Word.sub? start (Word.widen base)
  let ssn ← Word.narrow? start
  let len ← Word.narrow? (← Word.sub? stop start)
  return { ssn, dsn := dsn + offset, len := len.toNat, mappingFrame := frame }

/-- Cuts the positions from `cursor` to the end of the query along mappings in the order of their
low ends. -/
def tile? (query : Range 32) : BitVec 64 → List (Range 32 × MappingTarget) → Option WordCover
  | cursor, [] => do
    let stop ← Word.add? (Word.widen query.high) 1
    return { gaps := ← gap? cursor stop }
  | cursor, (range, target) :: rest =>
    match range.intersection query with
    | none => tile? query cursor rest
    | some part => do
      let stop ← Word.add? (Word.widen part.high) 1
      if stop ≤ cursor then tile? query cursor rest
      else
        let start := Range.higher (Word.widen part.low) cursor
        let front ← gap? cursor start
        let piece ← piece? start stop range.low target.dsn target.frame
        let later ← tile? query stop rest
        return { found := piece :: later.found, gaps := front ++ later.gaps }

/-- The part of a gap before the infinite mapping, and the rest placed by it. -/
def Cover.ofGap? (infinite : InfiniteMapping) (gap : WordStretch) : Option WordCover := do
  let stop ← Word.add? gap.1 gap.2
  let base := Word.widen infinite.ssn
  if stop ≤ base then return { gaps := [gap] }
  else
    let start := Range.higher gap.1 base
    let front ← gap? gap.1 start
    let piece ← piece? start stop infinite.ssn infinite.dsn infinite.frame
    return { found := [piece], gaps := front }

/-- Fills the gaps of a cover with the infinite mapping. -/
def WordCover.extend? (c : WordCover) (infinite : InfiniteMapping) : Option WordCover := do
  let filled ← c.gaps.mapM (Cover.ofGap? infinite)
  return {
    found := (c.found ++ filled.flatMap (·.found)).mergeSort fun x y => decide (x.ssn ≤ y.ssn)
    gaps := filled.flatMap (·.gaps) }

/-- Makes a stretch narrow. -/
def narrowGap? (gap : WordStretch) : Option Stretch := do
  return ⟨(← Word.narrow? gap.1).toNat, (← Word.narrow? gap.2).toNat⟩

/-- Makes the gaps of a cover narrow. -/
def WordCover.narrow? (c : WordCover) : Option Cover := do
  return { found := c.found, gaps := ← c.gaps.mapM narrowGap? }

/-- Cuts `len` bytes from `ssn` on along the mappings. -/
def cover? (m : SubflowMappings) (ssn : Seq) (len : BitVec 32) : Option Cover :=
  if len = 0 then some {}
  else
    match Range.ofLength ssn len.toNat with
    | .error _ => some { gaps := [⟨ssn.toNat, len.toNat⟩] }
    | .ok query => do
      let c ← tile? query (Word.widen ssn) (m.tree.findAll query)
      match m.infinite with
      | none => c.narrow?
      | some infinite => (← c.extend? infinite).narrow?

/-- Places `len` bytes from `ssn` on, seen in `frame`; what no mapping covers is kept pending. -/
def place? (m : SubflowMappings) (ssn : Seq) (len : BitVec 32) (frame : Nat) :
    Option (SubflowMappings × List AttributedSpan) := do
  let c ← m.cover? ssn len
  return ({ m with pending := m.pending ++ pend frame c.gaps }, c.found)

end SubflowMappings

end TcpCapture
