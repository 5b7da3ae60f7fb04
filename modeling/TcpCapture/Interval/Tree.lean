import TcpCapture.Interval.Range

/-!
# Interval trees

Ranges with values, searchable by overlap.  The tree is a red-black tree ordered by the low ends of
its ranges; every node also knows the highest point its subtree reaches, so a search can skip
subtrees that end before the query begins.

## Main definitions

* `IntervalTree` — the tree; `toList` reads it from left to right
* `insert` — adds a range beside those already there; nothing is merged
* `overlapping` — the ranges that overlap a query, in the order the search meets them
* `find?`, `findPoint?`, `findAll` — the first hit, the first hit of a point, all hits by low end

**Order of the search.** A node comes before its left subtree and that before its right one.  Which
of several overlapping ranges is found first therefore depends on the shape of the tree, and the
shape on the order of insertion: a red uncle is recoloured, and only a black one leads to a rotation.
-/

namespace TcpCapture

/-- Colour of a node. -/
inductive Color where
  | red
  | black
deriving DecidableEq, Repr

/-- Ranges with values.  `reach` is the highest point of any range in the subtree. -/
inductive IntervalTree (w : Nat) (α : Type) where
  | nil
  | node (color : Color) (left : IntervalTree w α) (range : Range w) (value : α)
      (reach : BitVec w) (right : IntervalTree w α)
deriving DecidableEq

namespace IntervalTree

variable {w : Nat} {α : Type}

/-- Ranges and values from left to right. -/
def toList : IntervalTree w α → List (Range w × α)
  | nil => []
  | node _ left range value _ right => left.toList ++ (range, value) :: right.toList

/-- How many ranges the tree holds. -/
def size : IntervalTree w α → Nat
  | nil => 0
  | node _ left _ _ _ right => left.size + 1 + right.size

/-- The tree holds nothing. -/
def isEmpty : IntervalTree w α → Bool
  | nil => true
  | node .. => false

/-- The highest point of any range in the tree. -/
def reach? : IntervalTree w α → Option (BitVec w)
  | nil => none
  | node _ _ _ _ reach _ => some reach

/-- The root is a red node. -/
def isRed : IntervalTree w α → Bool
  | node .red .. => true
  | _ => false

/-- Paints the root black. -/
def blacken : IntervalTree w α → IntervalTree w α
  | nil => nil
  | node _ left range value reach right => node .black left range value reach right

/-! ### Insertion -/

/-- The higher of a point and what a tree reaches. -/
def raise (p : BitVec w) (t : IntervalTree w α) : BitVec w :=
  match t.reach? with
  | none => p
  | some q => Range.higher p q

/-- A node over two subtrees, with the reach they imply. -/
def join (color : Color) (left : IntervalTree w α) (range : Range w) (value : α)
    (right : IntervalTree w α) : IntervalTree w α :=
  node color left range value (raise (raise range.high left) right) right

/-- A node whose left subtree was inserted into.  Where that put one red node below another, a red
sibling takes the blackness of both down, and otherwise the middle one of the three nodes involved
becomes the root. -/
def joinLeft (color : Color) (left : IntervalTree w α) (range : Range w) (value : α)
    (right : IntervalTree w α) : IntervalTree w α :=
  match left with
  | node .red outer pr pv _ inner =>
    if !outer.isRed && !inner.isRed then join color left range value right
    else if right.isRed then join .red left.blacken range value right.blacken
    else
      match inner with
      | node .red inner₁ ir iv _ inner₂ =>
        join .black (join .red outer pr pv inner₁) ir iv (join .red inner₂ range value right)
      | _ => join .black outer pr pv (join .red inner range value right)
  | _ => join color left range value right

/-- The same for the right subtree. -/
def joinRight (color : Color) (left : IntervalTree w α) (range : Range w) (value : α)
    (right : IntervalTree w α) : IntervalTree w α :=
  match right with
  | node .red inner pr pv _ outer =>
    if !outer.isRed && !inner.isRed then join color left range value right
    else if left.isRed then join .red left.blacken range value right.blacken
    else
      match inner with
      | node .red inner₁ ir iv _ inner₂ =>
        join .black (join .red left range value inner₁) ir iv (join .red inner₂ pr pv outer)
      | _ => join .black (join .red left range value inner) pr pv outer
  | _ => join color left range value right

/-- Insertion below the root.  A range goes to the right of those with the same low end. -/
def insertBelow : IntervalTree w α → Range w → α → IntervalTree w α
  | nil, r, a => join .red nil r a nil
  | node color left range value _ right, r, a =>
    if r.low < range.low then joinLeft color (left.insertBelow r a) range value right
    else joinRight color left range value (right.insertBelow r a)

/-- Adds a range and its value. -/
def insert (t : IntervalTree w α) (r : Range w) (a : α) : IntervalTree w α :=
  (t.insertBelow r a).blacken

/-! ### Search -/

/-- The ranges that overlap the query, in the order of the search. -/
def overlapping (query : Range w) : IntervalTree w α → List (Range w × α)
  | nil => []
  | node _ left range value reach right =>
    if reach < query.low then []
    else
      (if range.overlaps query then [(range, value)] else []) ++ left.overlapping query ++
        (if range.low ≤ query.high then right.overlapping query else [])

/-- The first range found to overlap the query. -/
def find? (t : IntervalTree w α) (query : Range w) : Option (Range w × α) :=
  (t.overlapping query).head?

/-- The first range found to contain the point. -/
def findPoint? (t : IntervalTree w α) (p : BitVec w) : Option (Range w × α) :=
  t.find? (.point p)

/-- All ranges that overlap the query, by low end; equal ones stay in the order of the search. -/
def findAll (t : IntervalTree w α) (query : Range w) : List (Range w × α) :=
  (t.overlapping query).mergeSort fun x y => decide (x.1.low ≤ y.1.low)

/-! ### Equations -/

@[simp] theorem length_toList (t : IntervalTree w α) : t.toList.length = t.size := by
  induction t with
  | nil => rfl
  | node _ left _ _ _ right ihl ihr => simp [toList, size, ihl, ihr]; omega

@[simp] theorem toList_blacken (t : IntervalTree w α) : t.blacken.toList = t.toList := by
  cases t <;> rfl

@[simp] theorem toList_join (c : Color) (l : IntervalTree w α) (r : Range w) (a : α)
    (u : IntervalTree w α) : (join c l r a u).toList = l.toList ++ (r, a) :: u.toList := rfl

/-- Recolouring and rotation do not change what a tree reads as. -/
@[simp] theorem toList_joinLeft (c : Color) (l : IntervalTree w α) (r : Range w) (a : α)
    (u : IntervalTree w α) : (joinLeft c l r a u).toList = l.toList ++ (r, a) :: u.toList := by
  unfold joinLeft
  repeat' split
  all_goals simp [toList]

@[simp] theorem toList_joinRight (c : Color) (l : IntervalTree w α) (r : Range w) (a : α)
    (u : IntervalTree w α) : (joinRight c l r a u).toList = l.toList ++ (r, a) :: u.toList := by
  unfold joinRight
  repeat' split
  all_goals simp [toList]

end IntervalTree

end TcpCapture
