import TcpCapture.Interval.Tree

/-!
# Interval trees in an arena

The nodes of an interval tree may lie in an array and name one another by their indexes.  Insertion then
appends a node, hangs it from the one that the search for its place ends at, and repairs the tree on the
way back up along parent indexes; a rotation writes indexes only.

## Main definitions

* `ArenaNode`, `IntervalArena` — a node with the indexes of its neighbours, and all nodes of a tree
* `IntervalArena.insert`, `IntervalArena.clear` — add a range, drop all of them
* `IntervalArena.propagate`, `IntervalArena.rebalance` — the two repairs
* `IntervalArena.reach?` — the highest point of any range
* `IntervalArena.next?`, `IntervalArena.toList?` — a step of an iteration, and all of them

**What may go wrong is in the result.**  An index may name no node, and a walk along indexes may run in
circles.  Either way there is no result (`none`): a walk gets one turn more than there are nodes, and
whoever needs another one has been there before.

**Left and right.**  Where an operation comes in two mirror images, there is one definition here and the
`Side` is an argument.
-/

namespace TcpCapture

/-- A side of a node. -/
inductive Side where
  | left
  | right
deriving DecidableEq, Repr

/-- The side across. -/
def Side.other : Side → Side
  | left => right
  | right => left

/-- A node in an arena.  `reach` is the highest point of any range at or below it. -/
structure ArenaNode (w : Nat) (α : Type) where
  range : Range w
  reach : BitVec w
  value : α
  color : Color
  parent : Option Nat
  left : Option Nat
  right : Option Nat
deriving DecidableEq

namespace ArenaNode

variable {w : Nat} {α : Type}

/-- The child on a side. -/
def child (n : ArenaNode w α) : Side → Option Nat
  | .left => n.left
  | .right => n.right

/-- Changes the child on a side. -/
def setChild (n : ArenaNode w α) (s : Side) (i : Option Nat) : ArenaNode w α :=
  match s with
  | .left => { n with left := i }
  | .right => { n with right := i }

end ArenaNode

/-- The nodes of an interval tree, and the index of its root. -/
structure IntervalArena (w : Nat) (α : Type) where
  nodes : Array (ArenaNode w α) := #[]
  root : Option Nat := none
deriving DecidableEq

namespace IntervalArena

variable {w : Nat} {α : Type}

/-- The node at an index. -/
def node? (a : IntervalArena w α) (i : Nat) : Option (ArenaNode w α) := a.nodes[i]?

/-- Changes the node at an index. -/
def update (a : IntervalArena w α) (i : Nat) (f : ArenaNode w α → ArenaNode w α) :
    Option (IntervalArena w α) := do
  let n ← a.node? i
  return { a with nodes := a.nodes.setIfInBounds i (f n) }

/-- Drops all nodes. -/
def clear (_ : IntervalArena w α) : IntervalArena w α := {}

/-! ### Reach -/

/-- The highest point of any range, if there is one. -/
def reach? (a : IntervalArena w α) : Option (Option (BitVec w)) :=
  match a.root with
  | none => some none
  | some i => do return some (← a.node? i).reach

/-- The higher of a point and what a child reaches. -/
def raise (a : IntervalArena w α) (p : BitVec w) : Option Nat → Option (BitVec w)
  | none => some p
  | some i => do return Range.higher p (← a.node? i).reach

/-- The reach that the range of a node and its children imply. -/
def impliedReach (a : IntervalArena w α) (i : Nat) : Option (BitVec w) := do
  let n ← a.node? i
  let p ← a.raise n.range.high n.left
  a.raise p n.right

/-- Computes the reach of a node anew. -/
def refresh (a : IntervalArena w α) (i : Nat) : Option (IntervalArena w α) := do
  let reach ← a.impliedReach i
  a.update i ({ · with reach })

/-- Computes reaches anew from a node upwards, until one turns out to be right already. -/
def propagate : Nat → IntervalArena w α → Option Nat → Option (IntervalArena w α)
  | 0, _, _ => none
  | _ + 1, a, none => some a
  | turns + 1, a, some i => do
    let n ← a.node? i
    let reach ← a.impliedReach i
    if reach = n.reach then some a
    else
      let a ← a.update i ({ · with reach })
      propagate turns a n.parent

/-! ### Rotations -/

/-- Puts a node in the place that another one has below `parent`, or at the root. -/
def replaceChild (a : IntervalArena w α) (parent : Option Nat) (old new : Nat) :
    Option (IntervalArena w α) :=
  match parent with
  | none => some { a with root := some new }
  | some p =>
    a.update p fun n => n.setChild (if n.left = some old then .left else .right) (some new)

/-- Tells a child, if there is one, that a node is its parent now. -/
def adopt (a : IntervalArena w α) (child : Option Nat) (i : Nat) : Option (IntervalArena w α) :=
  match child with
  | none => some a
  | some c => a.update c ({ · with parent := some i })

/-- Lets node `x` and its child `y` across from side `s` change places: `x` goes down on that side, and
what `y` had there becomes the child of `x` across. -/
def exchange (a : IntervalArena w α) (s : Side) (x y : Nat) : Option (IntervalArena w α) := do
  let inner := (← a.node? y).child s
  let a ← a.update x (·.setChild s.other inner)
  let a ← a.adopt inner x
  let parent := (← a.node? x).parent
  let a ← a.update y ({ · with parent })
  let a ← a.replaceChild parent x y
  let a ← a.update y (·.setChild s (some x))
  a.update x ({ · with parent := some y })

/-- Moves node `x` down on side `s`; the child from the other side takes its place. -/
def rotate (a : IntervalArena w α) (s : Side) (x : Nat) : Option (IntervalArena w α) := do
  let n ← a.node? x
  match n.child s.other with
  | none => some a
  | some y => do
    let a ← a.exchange s x y
    let a ← a.refresh x
    a.refresh y

/-! ### Colours -/

/-- There is a node at the index, and it is red. -/
def isRed (a : IntervalArena w α) : Option Nat → Option Bool
  | none => some false
  | some i => do return (← a.node? i).color = .red

/-- Paints a node, if there is one. -/
def paint (a : IntervalArena w α) (color : Color) : Option Nat → Option (IntervalArena w α)
  | none => some a
  | some i => a.update i ({ · with color })

/-- Repairs the colours from a red node upwards.  Below a red parent with a red sibling the blackness of
the grandparent moves down and the repair goes on there; otherwise one or two rotations end it. -/
def rebalance : Nat → IntervalArena w α → Nat → Option (IntervalArena w α)
  | 0, _, _ => none
  | turns + 1, a, i => do
    let n ← a.node? i
    match n.parent with
    | none => some a
    | some parent => do
      let p ← a.node? parent
      if p.color = .black then some a
      else
        match p.parent with
        | none => some a
        | some grand => do
          let g ← a.node? grand
          let s : Side := if g.left = some parent then .left else .right
          let uncle := g.child s.other
          if ← a.isRed uncle then
            let a ← a.paint .black (some parent)
            let a ← a.paint .black uncle
            let a ← a.paint .red (some grand)
            rebalance turns a grand
          else if p.child s.other = some i then
            let a ← a.rotate s parent
            let a ← a.paint .black (some i)
            let a ← a.paint .red (some grand)
            a.rotate s.other grand
          else
            let a ← a.paint .black (some parent)
            let a ← a.paint .red (some grand)
            a.rotate s.other grand

/-! ### Insertion -/

/-- A place below a node, on one of its sides. -/
structure Place where
  parent : Nat
  side : Side

/-- The place of a range that begins at `low`, looked for from an index downwards.  `place` is where that
index stands; there is no such place for the root. -/
def descend (a : IntervalArena w α) (low : BitVec w) :
    Nat → Option Place → Option Nat → Option (Option Place)
  | 0, _, _ => none
  | _ + 1, place, none => some place
  | turns + 1, _, some i => do
    let n ← a.node? i
    let side : Side := if low < n.range.low then .left else .right
    a.descend low turns (some ⟨i, side⟩) (n.child side)

/-- Hangs a node at a place. -/
def link (a : IntervalArena w α) (i : Nat) : Option Place → Option (IntervalArena w α)
  | none => some { a with root := some i }
  | some place => a.update place.parent (·.setChild place.side (some i))

/-- Adds a range and its value. -/
def insert (a : IntervalArena w α) (range : Range w) (value : α) : Option (IntervalArena w α) := do
  let i := a.nodes.size
  let place ← a.descend range.low (i + 1) none a.root
  let parent := place.map (·.parent)
  let leaf : ArenaNode w α :=
    { range, reach := range.high, value, color := .red, parent, left := none, right := none }
  let a ← { a with nodes := a.nodes.push leaf }.link i place
  let a ← propagate (i + 1) a parent
  let a ← rebalance (i + 1) a i
  a.paint .black a.root

/-! ### Iteration -/

/-- Puts a node on a stack, and upon it the ones that lie to the left of each other below it. -/
def stackLeft (a : IntervalArena w α) : Nat → List Nat → Option Nat → Option (List Nat)
  | 0, _, _ => none
  | _ + 1, stack, none => some stack
  | turns + 1, stack, some i => do
    let n ← a.node? i
    a.stackLeft turns (i :: stack) n.left

/-- Takes the next range and its value from a stack, if there is one. -/
def next? (a : IntervalArena w α) : List Nat → Option (Option ((Range w × α) × List Nat))
  | [] => some none
  | i :: stack => do
    let n ← a.node? i
    let stack ← a.stackLeft (a.nodes.size + 1) stack n.right
    return some ((n.range, n.value), stack)

/-- All that a stack has to give. -/
def iterate (a : IntervalArena w α) : Nat → List Nat → Option (List (Range w × α))
  | 0, _ => none
  | turns + 1, stack => do
    match ← a.next? stack with
    | none => return []
    | some (x, stack) => return x :: (← a.iterate turns stack)

/-- Ranges and values in the order of iteration. -/
def toList? (a : IntervalArena w α) : Option (List (Range w × α)) := do
  let stack ← a.stackLeft (a.nodes.size + 1) [] a.root
  a.iterate (a.nodes.size + 1) stack

end IntervalArena

end TcpCapture
