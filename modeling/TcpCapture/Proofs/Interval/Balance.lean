import TcpCapture.Interval.Arena
import TcpCapture.Proofs.Interval.Order

/-!
# Red and black nodes

Whatever is inserted, no red node has a red child, and all ways down from the root pass the same number
of black nodes.

## Main definitions

* `nodeOn`, `joinOn`, `repairOn` — a node and its repairs, told by the side they concern
* `Balanced` — the colours are in order, with the colour of the root and the black nodes on each way down
* `Grown` — a tree that was inserted into, before its parent repairs it

**One red pair at most.**  Insertion below a red root may leave that root with one red child.  It is never
two of them, which is why a single red pair is all that the repair above has to look for.
-/

namespace TcpCapture

theorem Side.eq_other_of_ne {s t : Side} (h : s ≠ t) : s = t.other := by
  cases s <;> cases t <;> first | rfl | exact absurd rfl h

namespace IntervalTree

variable {w : Nat} {α : Type}

/-! ### Either side -/

/-- A node with the subtree `near` on a side and the subtree `far` across. -/
def nodeOn (s : Side) (c : Color) (near : IntervalTree w α) (r : Range w) (v : α) (p : BitVec w)
    (far : IntervalTree w α) : IntervalTree w α :=
  match s with
  | .left => .node c near r v p far
  | .right => .node c far r v p near

/-- A node over two subtrees, with the reach they imply. -/
def joinOn (s : Side) (c : Color) (near : IntervalTree w α) (r : Range w) (v : α)
    (far : IntervalTree w α) : IntervalTree w α :=
  match s with
  | .left => join c near r v far
  | .right => join c far r v near

/-- A node whose subtree on a side was inserted into. -/
def repairOn (s : Side) (c : Color) (near : IntervalTree w α) (r : Range w) (v : α)
    (far : IntervalTree w α) : IntervalTree w α :=
  match s with
  | .left => joinLeft c near r v far
  | .right => joinRight c far r v near

/-- The higher of two points is the same from both sides. -/
theorem raise_raise_comm (p : BitVec w) (t u : IntervalTree w α) :
    raise (raise p t) u = raise (raise p u) t := by
  unfold raise
  cases t.reach? <;> cases u.reach? <;> try rfl
  apply BitVec.eq_of_toNat_eq
  simp only [Range.toNat_higher]
  omega

theorem joinOn_eq_nodeOn (s : Side) (c : Color) (near : IntervalTree w α) (r : Range w) (v : α)
    (far : IntervalTree w α) :
    joinOn s c near r v far = nodeOn s c near r v (raise (raise r.high near) far) far := by
  cases s with
  | left => rfl
  | right =>
      rw [raise_raise_comm]
      rfl

theorem exists_nodeOn (s : Side) (c : Color) (l : IntervalTree w α) (r : Range w) (v : α)
    (p : BitVec w) (u : IntervalTree w α) :
    ∃ near far, IntervalTree.node c l r v p u = nodeOn s c near r v p far := by
  cases s with
  | left => exact ⟨l, u, rfl⟩
  | right => exact ⟨u, l, rfl⟩

/-- The same node, seen from across. -/
theorem nodeOn_other (s : Side) (c : Color) (near : IntervalTree w α) (r : Range w) (v : α)
    (p : BitVec w) (far : IntervalTree w α) :
    nodeOn s.other c near r v p far = nodeOn s c far r v p near := by
  cases s <;> rfl

@[simp] theorem isRed_node (c : Color) (l : IntervalTree w α) (r : Range w) (v : α) (p : BitVec w)
    (u : IntervalTree w α) : (IntervalTree.node c l r v p u).isRed = decide (c = .red) := by
  cases c <;> rfl

@[simp] theorem reach?_nodeOn (s : Side) (c : Color) (near : IntervalTree w α) (r : Range w) (v : α)
    (p : BitVec w) (far : IntervalTree w α) : (nodeOn s c near r v p far).reach? = some p := by
  cases s <;> rfl

@[simp] theorem blacken_nodeOn (s : Side) (c : Color) (near : IntervalTree w α) (r : Range w) (v : α)
    (p : BitVec w) (far : IntervalTree w α) :
    (nodeOn s c near r v p far).blacken = nodeOn s .black near r v p far := by
  cases s <;> rfl

theorem insertBelow_node (c : Color) (l : IntervalTree w α) (r : Range w) (v : α) (p : BitVec w)
    (u : IntervalTree w α) (range : Range w) (value : α) :
    (IntervalTree.node c l r v p u).insertBelow range value =
      if range.low < r.low then repairOn .left c (l.insertBelow range value) r v u
      else repairOn .right c (u.insertBelow range value) r v l := rfl

/-! ### What a repair does -/

section

variable {s : Side} {c : Color} {near far outer inner : IntervalTree w α} {r pr : Range w} {v pv : α}
  {m : BitVec w}

theorem repairOn_of_not_red (black : near.isRed = false) :
    repairOn s c near r v far = joinOn s c near r v far := by
  cases near with
  | nil => cases s <;> rfl
  | node color l _ _ _ u =>
      cases color with
      | red => cases black
      | black => cases s <;> rfl

theorem repairOn_of_settled (ho : outer.isRed = false) (hi : inner.isRed = false) :
    repairOn s c (nodeOn s .red outer pr pv m inner) r v far =
      joinOn s c (nodeOn s .red outer pr pv m inner) r v far := by
  cases s <;> simp [repairOn, nodeOn, joinOn, joinLeft, joinRight, ho, hi]

/-- A red sibling takes the blackness of both down, whichever child of the red node is red. -/
theorem repairOn_of_red_sibling (t : Side) (lower : outer.isRed = true) (sibling : far.isRed = true) :
    repairOn s c (nodeOn t .red outer pr pv m inner) r v far =
      joinOn s .red (nodeOn t .black outer pr pv m inner) r v far.blacken := by
  cases s <;> cases t <;>
    simp [repairOn, nodeOn, joinOn, joinLeft, joinRight, blacken, lower, sibling]

/-- The outer one of two red nodes is lifted by one rotation. -/
theorem repairOn_of_outer (ho : outer.isRed = true) (hi : inner.isRed = false)
    (sibling : far.isRed = false) :
    repairOn s c (nodeOn s .red outer pr pv m inner) r v far =
      joinOn s .black outer pr pv (joinOn s .red inner r v far) := by
  cases inner with
  | nil => cases s <;> simp [repairOn, nodeOn, joinOn, joinLeft, joinRight, ho, sibling]
  | node color l _ _ _ u =>
      cases color with
      | red => cases hi
      | black => cases s <;> simp [repairOn, nodeOn, joinOn, joinLeft, joinRight, ho, sibling]

/-- The inner one is lifted by two. -/
theorem repairOn_of_inner {ir : Range w} {iv : α} {im : BitVec w} {nearer farther : IntervalTree w α}
    (sibling : far.isRed = false) :
    repairOn s c (nodeOn s .red outer pr pv m (nodeOn s .red nearer ir iv im farther)) r v far =
      joinOn s .black (joinOn s .red outer pr pv nearer) ir iv (joinOn s .red farther r v far) := by
  cases s <;> simp [repairOn, nodeOn, joinOn, joinLeft, joinRight, sibling]

end

/-! ### Balance -/

/-- The colours are in order.  A tree carries the colour of its root, where no root counts as black, and
the number of black nodes on every way down. -/
inductive Balanced : Color → Nat → IntervalTree w α → Prop
  | nil : Balanced .black 0 nil
  | red {h : Nat} {l u : IntervalTree w α} {r : Range w} {v : α} {p : BitVec w}
      (left : Balanced .black h l) (right : Balanced .black h u) :
      Balanced .red h (.node .red l r v p u)
  | black {h : Nat} {cl cu : Color} {l u : IntervalTree w α} {r : Range w} {v : α} {p : BitVec w}
      (left : Balanced cl h l) (right : Balanced cu h u) :
      Balanced .black (h + 1) (.node .black l r v p u)

/-- A tree that was inserted into: it is balanced, or its red root has a red child.  That can only be if
the root was red before. -/
inductive Grown : Color → Nat → IntervalTree w α → Prop
  | balanced {before after : Color} {h : Nat} {t : IntervalTree w α} (done : Balanced after h t) :
      Grown before h t
  | pair {h : Nat} {near far : IntervalTree w α} {r : Range w} {v : α} {p : BitVec w} (s : Side)
      (lower : Balanced .red h near) (other : Balanced .black h far) :
      Grown .red h (nodeOn s .red near r v p far)

namespace Balanced

variable {c cn cf : Color} {h : Nat} {t near far : IntervalTree w α} {r : Range w} {v : α}
  {p : BitVec w}

theorem isRed_eq (b : Balanced c h t) : t.isRed = decide (c = .red) := by cases b <;> rfl

theorem redOn (s : Side) (hn : Balanced .black h near) (hf : Balanced .black h far) :
    Balanced .red h (nodeOn s .red near r v p far) := by
  cases s with
  | left => exact .red hn hf
  | right => exact .red hf hn

theorem blackOn (s : Side) (hn : Balanced cn h near) (hf : Balanced cf h far) :
    Balanced .black (h + 1) (nodeOn s .black near r v p far) := by
  cases s with
  | left => exact .black hn hf
  | right => exact .black hf hn

/-- The subtrees of a red root, from either side. -/
theorem exists_of_red (b : Balanced .red h t) (s : Side) :
    ∃ near r v p far, t = nodeOn s .red near r v p far ∧ Balanced .black h near ∧
      Balanced .black h far := by
  cases b with
  | red left right =>
      cases s with
      | left => exact ⟨_, _, _, _, _, rfl, left, right⟩
      | right => exact ⟨_, _, _, _, _, rfl, right, left⟩

theorem blacken_of_red (b : Balanced .red h t) : Balanced .black (h + 1) t.blacken := by
  cases b with
  | red left right => exact .black left right

/-- There is nothing to repair above a balanced subtree. -/
theorem repairOn_eq (b : Balanced cn h near) (s : Side) (c : Color) :
    repairOn s c near r v far = joinOn s c near r v far := by
  cases cn with
  | black => exact repairOn_of_not_red b.isRed_eq
  | red =>
      obtain ⟨outer, _, _, _, inner, rfl, ho, hi⟩ := b.exists_of_red s
      exact repairOn_of_settled ho.isRed_eq hi.isRed_eq

end Balanced

namespace Grown

variable {c cf : Color} {h : Nat} {t near far : IntervalTree w α} {r : Range w} {v : α}

/-- Beside a black sibling a rotation ends the repair, where there is anything to repair. -/
theorem repair_of_black (g : Grown c h near) (hf : Balanced .black h far) (s : Side) :
    Balanced .black (h + 1) (repairOn s .black near r v far) := by
  have sibling : far.isRed = false := hf.isRed_eq
  cases g with
  | balanced done =>
      rw [done.repairOn_eq, joinOn_eq_nodeOn]
      exact .blackOn s done hf
  | pair t lower other =>
      by_cases same : t = s
      · subst same
        rw [repairOn_of_outer lower.isRed_eq other.isRed_eq sibling, joinOn_eq_nodeOn,
          joinOn_eq_nodeOn]
        exact .blackOn _ lower (.redOn _ other hf)
      · obtain ⟨nearer, _, _, _, farther, rfl, hn, hfar⟩ := lower.exists_of_red s
        rw [Side.eq_other_of_ne same, nodeOn_other, repairOn_of_inner sibling, joinOn_eq_nodeOn,
          joinOn_eq_nodeOn, joinOn_eq_nodeOn]
        exact .blackOn _ (.redOn _ other hn) (.redOn _ hfar hf)

/-- A black node repairs whatever insertion left below it. -/
theorem repair (g : Grown c h near) (hf : Balanced cf h far) (s : Side) :
    ∃ after, Balanced after (h + 1) (repairOn s .black near r v far) := by
  cases cf with
  | black => exact ⟨.black, g.repair_of_black hf s⟩
  | red =>
      cases g with
      | balanced done =>
          refine ⟨.black, ?_⟩
          rw [done.repairOn_eq, joinOn_eq_nodeOn]
          exact .blackOn s done hf
      | pair t lower other =>
          refine ⟨.red, ?_⟩
          rw [repairOn_of_red_sibling t lower.isRed_eq hf.isRed_eq, joinOn_eq_nodeOn]
          exact .redOn s (.blackOn t lower other) hf.blacken_of_red

/-- Below a red node insertion finds a black root, so it leaves a balanced tree there. -/
theorem repair_red (g : Grown .black h near) (hf : Balanced .black h far) (s : Side) :
    Grown .red h (repairOn s .red near r v far) := by
  cases g with
  | @balanced _ after _ _ done =>
      rw [done.repairOn_eq, joinOn_eq_nodeOn]
      cases after with
      | black => exact .balanced (.redOn s done hf)
      | red => exact .pair s done hf

/-- A black root settles what is left. -/
theorem blacken (g : Grown c h t) : ∃ height, Balanced .black height t.blacken := by
  cases g with
  | @balanced _ after _ _ done =>
      cases done with
      | nil => exact ⟨0, .nil⟩
      | red left right => exact ⟨_, .black left right⟩
      | black left right => exact ⟨_, .black left right⟩
  | pair s lower other =>
      rw [blacken_nodeOn]
      exact ⟨_, .blackOn s lower other⟩

end Grown

theorem Balanced.insertBelow {c : Color} {h : Nat} {t : IntervalTree w α} (b : Balanced c h t)
    (r : Range w) (v : α) : Grown c h (t.insertBelow r v) := by
  induction b with
  | nil => exact .balanced (.red .nil .nil)
  | red left right ihl ihr =>
      rw [insertBelow_node]
      split
      · exact ihl.repair_red right .left
      · exact ihr.repair_red left .right
  | black left right ihl ihr =>
      rw [insertBelow_node]
      split
      · obtain ⟨after, done⟩ := ihl.repair right .left
        exact .balanced done
      · obtain ⟨after, done⟩ := ihr.repair left .right
        exact .balanced done

/-- **Insertion keeps the balance.** -/
theorem Balanced.insert {c : Color} {h : Nat} {t : IntervalTree w α} (b : Balanced c h t)
    (r : Range w) (v : α) : ∃ height, Balanced .black height (t.insert r v) :=
  (b.insertBelow r v).blacken

end IntervalTree

end TcpCapture
