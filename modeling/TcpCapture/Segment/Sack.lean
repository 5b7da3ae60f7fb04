import TcpCapture.Sequence

/-!
# Selective acknowledgments

A header has room for four SACK blocks; a longer list keeps its first four.
-/

namespace TcpCapture

/-- Bytes a receiver holds beyond its cumulative acknowledgment: `left` is the first, `right` the
one after the last. -/
structure SackBlock where
  left : Seq
  right : Seq
deriving DecidableEq, Repr

/-- The SACK blocks of one segment. -/
structure SackBlocks where
  blocks : List SackBlock := []
  length_le : blocks.length ≤ 4 := by exact Nat.zero_le 4
deriving DecidableEq

namespace SackBlocks

/-- The first four blocks of a list. -/
def ofList (blocks : List SackBlock) : SackBlocks where
  blocks := blocks.take 4
  length_le := List.length_take_le 4 blocks

/-- A list of this length loses blocks in `ofList`. -/
def isTruncated (blocks : List SackBlock) : Bool := decide (4 < blocks.length)

/-- Adds a block at the end, if there is room. -/
def push? (s : SackBlocks) (block : SackBlock) : Option SackBlocks :=
  if h : s.blocks.length < 4 then some ⟨s.blocks ++ [block], by
    rw [List.length_append]
    exact h⟩
  else none

/-- Changes every block. -/
def map (s : SackBlocks) (f : SackBlock → SackBlock) : SackBlocks where
  blocks := s.blocks.map f
  length_le := by simpa using s.length_le

theorem map_map (s : SackBlocks) (f g : SackBlock → SackBlock) :
    (s.map f).map g = s.map fun block => g (f block) := by
  simp only [map, List.map_map]
  rfl

theorem map_congr {s : SackBlocks} {f g : SackBlock → SackBlock}
    (same : ∀ block ∈ s.blocks, f block = g block) : s.map f = s.map g := by
  simp only [map, List.map_congr_left same]

end SackBlocks

end TcpCapture
