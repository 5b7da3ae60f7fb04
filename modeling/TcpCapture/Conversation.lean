import TcpCapture.Address

/-!
# Conversations and their directions

## Main definitions

* `Direction` — which of the two ways a segment travels
* `Duplex` — one value for each direction
* `Conversation` — the two endpoints of a connection, in an order that does not depend on who sends

**Orientation.** The endpoint that orders higher is the `upper` one, and traffic it sends is
`forward`.  Both directions of a connection thus have the same conversation.  When both endpoints
are equal all traffic is forward.
-/

namespace TcpCapture

/-- Which way a segment travels. -/
inductive Direction where
  | forward
  | reverse
deriving DecidableEq, Repr

namespace Direction

/-- The other way. -/
def opposite : Direction → Direction
  | forward => reverse
  | reverse => forward

/-- Position of the direction in lists that hold forward first. -/
def index : Direction → Nat
  | forward => 0
  | reverse => 1

@[simp] theorem opposite_opposite (d : Direction) : d.opposite.opposite = d := by
  cases d <;> rfl

/-- There are only two. -/
theorem eq_opposite_of_ne {d e : Direction} (h : e ≠ d) : e = d.opposite := by
  cases d <;> cases e
  · exact absurd rfl h
  · rfl
  · rfl
  · exact absurd rfl h

end Direction

/-- One value for each direction. -/
structure Duplex (α : Type) where
  forward : α
  reverse : α
deriving DecidableEq, Repr

namespace Duplex

variable {α : Type}

/-- The same value both ways. -/
def both (a : α) : Duplex α := ⟨a, a⟩

/-- The value of one direction. -/
def get (x : Duplex α) : Direction → α
  | .forward => x.forward
  | .reverse => x.reverse

/-- Replaces the value of one direction. -/
def set (x : Duplex α) : Direction → α → Duplex α
  | .forward, a => { x with forward := a }
  | .reverse, a => { x with reverse := a }

/-- Changes the value of one direction. -/
def modify (x : Duplex α) (d : Direction) (f : α → α) : Duplex α := x.set d (f (x.get d))

@[simp] theorem get_both (a : α) (d : Direction) : (both a).get d = a := by
  cases d <;> rfl

@[simp] theorem get_set_same (x : Duplex α) (d : Direction) (a : α) : (x.set d a).get d = a := by
  cases d <;> rfl

@[simp] theorem get_set_opposite (x : Duplex α) (d : Direction) (a : α) :
    (x.set d a).get d.opposite = x.get d.opposite := by
  cases d <;> rfl

@[simp] theorem get_set_of_opposite (x : Duplex α) (d : Direction) (a : α) :
    (x.set d.opposite a).get d = x.get d := by
  cases d <;> rfl

end Duplex

/-- The two endpoints of a connection, higher one first. -/
structure Conversation where
  upper : Endpoint
  lower : Endpoint
deriving DecidableEq, Repr

namespace Conversation

/-- The conversation a segment from `source` to `destination` belongs to, and its direction. -/
def between (source destination : Endpoint) : Conversation × Direction :=
  if destination.le source then (⟨source, destination⟩, .forward)
  else (⟨destination, source⟩, .reverse)

/-- The endpoint that sends in a direction. -/
def sender (c : Conversation) : Direction → Endpoint
  | .forward => c.upper
  | .reverse => c.lower

/-- Both endpoints, higher one first. -/
def text (c : Conversation) : String := c.upper.text ++ " <-> " ++ c.lower.text

end Conversation

end TcpCapture
