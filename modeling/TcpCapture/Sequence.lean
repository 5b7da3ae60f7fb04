/-!
# Sequence numbers

A sequence number counts bytes modulo `2 ^ w`, so it only has an order relative to another one:
the two are compared by the shorter way round the circle.

## Main definitions

* `before`, `after`, `atOrBefore`, `atOrAfter` — the half-turn comparisons
* `compareSeq`, `later` — the same order as an `Ordering` and as a maximum
* `advance` — the number a given count of bytes further on

**Half a turn.** Two numbers exactly `2 ^ (w - 1)` apart are each *before* the other.  `after` is
therefore "neither equal nor before", which keeps the three relations mutually exclusive.
-/

namespace TcpCapture

/-- Sequence number of one direction of a TCP connection. -/
abbrev Seq := BitVec 32

/-- Data sequence number of one direction of a multipath connection. -/
abbrev DataSeq := BitVec 64

section

variable {w : Nat}

/-- `x` is before `y` when the difference `x - y`, read as a signed number, is negative. -/
def before (x y : BitVec w) : Bool := (x - y).msb

/-- `x` is after `y` when it is neither equal to it nor before it. -/
def after (x y : BitVec w) : Bool := x != y && !before x y

/-- Not after. -/
def atOrBefore (x y : BitVec w) : Bool := !after x y

/-- Not before. -/
def atOrAfter (x y : BitVec w) : Bool := !before x y

/-- The half-turn order as an `Ordering`. -/
def compareSeq (x y : BitVec w) : Ordering :=
  if x = y then .eq else if before x y then .lt else .gt

/-- The later of two sequence numbers; `y` when neither is after the other. -/
def later (x y : BitVec w) : BitVec w := if after x y then x else y

/-- The sequence number `n` positions after `x`. -/
def advance (x : BitVec w) (n : Nat) : BitVec w := x + BitVec.ofNat w n

/-! ### Equations -/

@[simp] theorem before_self (x : BitVec w) : before x x = false := by
  simp [before]

@[simp] theorem after_self (x : BitVec w) : after x x = false := by
  simp [after]

/-- The comparison only sees the difference, so it ignores a common shift. -/
theorem before_add_right (x y c : BitVec w) : before (x + c) (y + c) = before x y := by
  have h : x + c - (y + c) = x - y := by
    rw [BitVec.sub_eq_add_neg, BitVec.sub_eq_add_neg, BitVec.neg_add, BitVec.sub_eq_add_neg,
      BitVec.add_comm (-y), ← BitVec.add_assoc, BitVec.add_assoc x, ← BitVec.sub_eq_add_neg c,
      BitVec.sub_self, BitVec.add_zero]
  simp [before, h]

@[simp] theorem advance_zero (x : BitVec w) : advance x 0 = x := by
  simp [advance]

theorem advance_advance (x : BitVec w) (m n : Nat) :
    advance (advance x m) n = advance x (m + n) := by
  simp [advance, BitVec.add_assoc, BitVec.ofNat_add]

end

end TcpCapture
