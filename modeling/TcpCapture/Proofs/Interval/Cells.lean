import Mathlib.Algebra.Order.Group.Multiset
import Mathlib.Tactic.Abel
import TcpCapture.Proofs.Interval.Zipper

/-!
# What an arena holds

An arena is described by its cells, the pairs of an index and the node there.  A tree whose values carry
the indexes of their nodes says which cells these are; a change of one node replaces one cell and leaves
the others alone.

## Main definitions

* `ArenaNode.on` — a node by the side that its children are on
* `IntervalTree.cells`, `pathCells` — the cells of a subtree, and those of a way without what hangs at its
  end
* `IntervalArena.Holds` — an arena consists of some cells
* `IntervalArena.Represents` — an arena consists of a tree, seen from the end of a way

**Looking from somewhere.**  Every node of a tree can be looked at from its place: what the arena holds is
the same for all ways into one tree (`represents_iff`).  So an operation on one node, wherever it lies, is
one on the root of the subtree at the end of a way.
-/

namespace TcpCapture

/-- A node with children on a side and across. -/
def ArenaNode.on {w : Nat} {α : Type} (s : Side) (color : Color) (near : Option Nat) (range : Range w)
    (value : α) (reach : BitVec w) (far parent : Option Nat) : ArenaNode w α :=
  match s with
  | .left => { range, reach, value, color, parent, left := near, right := far }
  | .right => { range, reach, value, color, parent, left := far, right := near }

namespace ArenaNode

variable {w : Nat} {α : Type} (s : Side) (c d : Color) (near far parent i : Option Nat)
  (r : Range w) (v : α) (p q : BitVec w)

@[simp] theorem child_on : (on s c near r v p far parent).child s = near := by cases s <;> rfl

@[simp] theorem child_other_on : (on s c near r v p far parent).child s.other = far := by
  cases s <;> rfl

@[simp] theorem setChild_on :
    (on s c near r v p far parent).setChild s i = on s c i r v p far parent := by
  cases s <;> rfl

@[simp] theorem setChild_other_on :
    (on s c near r v p far parent).setChild s.other i = on s c near r v p i parent := by
  cases s <;> rfl

@[simp] theorem parent_on : (on s c near r v p far parent).parent = parent := by cases s <;> rfl

@[simp] theorem color_on : (on s c near r v p far parent).color = c := by cases s <;> rfl

@[simp] theorem range_on : (on s c near r v p far parent).range = r := by cases s <;> rfl

@[simp] theorem reach_on : (on s c near r v p far parent).reach = p := by cases s <;> rfl

@[simp] theorem withParent_on :
    { on s c near r v p far parent with parent := i } = on s c near r v p far i := by
  cases s <;> rfl

@[simp] theorem withColor_on :
    { on s c near r v p far parent with color := d } = on s d near r v p far parent := by
  cases s <;> rfl

@[simp] theorem withReach_on :
    { on s c near r v p far parent with reach := q } = on s c near r v q far parent := by
  cases s <;> rfl

/-- The side of a child, found by looking at the left. -/
theorem side_of_child (j : Nat) (apart : far ≠ some j) :
    (if (on s c (some j) r v p far parent).left = some j then Side.left else .right) = s := by
  cases s with
  | left => exact if_pos rfl
  | right => exact if_neg apart

end ArenaNode

namespace IntervalTree

variable {w : Nat} {α : Type}

/-- The index of the root. -/
def rootId : IntervalTree w (Nat × α) → Option Nat
  | nil => none
  | .node _ _ _ v _ _ => some v.1

/-- The cells of a subtree below a parent. -/
def cells (parent : Option Nat) : IntervalTree w (Nat × α) → Multiset (Nat × ArenaNode w α)
  | nil => 0
  | .node c l r v p u =>
    {(v.1, .on .left c l.rootId r v.2 p u.rootId parent)} +
      (cells (some v.1) l + cells (some v.1) u)

/-- The index of the lowest frame. -/
def headId (path : List (Frame w (Nat × α))) : Option Nat := path.head?.map (·.value.1)

/-- The cells of a way, where `child` hangs at its end. -/
def pathCells : List (Frame w (Nat × α)) → Option Nat → Multiset (Nat × ArenaNode w α)
  | [], _ => 0
  | f :: rest, child =>
    {(f.value.1, .on f.side f.color child f.range f.value.2 f.reach f.sibling.rootId (headId rest))} +
      (cells (some f.value.1) f.sibling + pathCells rest (some f.value.1))

/-- The index of the root where `child` hangs at the end of a way. -/
def rootAbove : List (Frame w (Nat × α)) → Option Nat → Option Nat
  | [], child => child
  | f :: rest, _ => rootAbove rest (some f.value.1)

variable {s : Side} {c : Color} {near far t : IntervalTree w (Nat × α)} {r : Range w} {v : Nat × α}
  {p : BitVec w}

@[simp] theorem rootId_nodeOn : (nodeOn s c near r v p far).rootId = some v.1 := by cases s <;> rfl

@[simp] theorem rootId_blacken : t.blacken.rootId = t.rootId := by cases t <;> rfl

theorem cells_nodeOn (parent : Option Nat) :
    cells parent (nodeOn s c near r v p far) =
      {(v.1, .on s c near.rootId r v.2 p far.rootId parent)} +
        (cells (some v.1) near + cells (some v.1) far) := by
  cases s with
  | left => rfl
  | right =>
      show {_} + (cells (some v.1) far + cells (some v.1) near) = _
      rw [add_comm (cells (some v.1) far)]
      rfl

theorem card_cells (parent : Option Nat) (t : IntervalTree w (Nat × α)) :
    (cells parent t).card = t.size := by
  induction t generalizing parent with
  | nil => rfl
  | node c l r v p u ihl ihu =>
      rw [cells, Multiset.card_add, Multiset.card_add, Multiset.card_singleton, ihl, ihu, size]
      omega

/-- The place at the end of a way. -/
def placeAt (path : List (Frame w (Nat × α))) : Option IntervalArena.Place :=
  path.head?.map fun f => ⟨f.value.1, f.side⟩

/-- The root is in one of the cells. -/
theorem exists_mem_cells {i : Nat} (root : t.rootId = some i) (parent : Option Nat) :
    ∃ n, (i, n) ∈ cells parent t := by
  cases t with
  | nil => cases root
  | node c l r v p u =>
      obtain rfl := Option.some.inj root
      exact ⟨_, Multiset.mem_add.2 (Or.inl (Multiset.mem_singleton_self _))⟩

end IntervalTree

namespace IntervalArena

open IntervalTree

variable {w : Nat} {α : Type}

/-! ### Cells -/

/-- The arena consists of these cells, each at an index of its own, and of this root. -/
structure Holds (a : IntervalArena w α) (root : Option Nat)
    (all : Multiset (Nat × ArenaNode w α)) : Prop where
  root_eq : a.root = root
  stored : ∀ x ∈ all, a.node? x.1 = some x.2
  distinct : (all.map Prod.fst).Nodup
  size_eq : all.card = a.nodes.size

namespace Holds

variable {a : IntervalArena w α} {root : Option Nat} {i : Nat} {n : ArenaNode w α}
  {all some_ rest : Multiset (Nat × ArenaNode w α)} {t : IntervalTree w (Nat × α)}
  {parent : Option Nat}

theorem congr (h : a.Holds root all) (same : all = rest) : a.Holds root rest := same ▸ h

theorem read (h : a.Holds root ({(i, n)} + rest)) : a.node? i = some n :=
  h.stored (i, n) (Multiset.mem_add.2 (Or.inl (Multiset.mem_singleton_self (i, n))))

/-- Cells apart have different indexes. -/
theorem ne (h : a.Holds root (some_ + rest)) {x y : Nat × ArenaNode w α} (hx : x ∈ some_)
    (hy : y ∈ rest) : x.1 ≠ y.1 := by
  have distinct := h.distinct
  rw [Multiset.map_add, Multiset.nodup_add] at distinct
  intro same
  exact Multiset.disjoint_left.1 distinct.2.2 (Multiset.mem_map_of_mem _ hx)
    (same ▸ Multiset.mem_map_of_mem _ hy)

theorem index_lt (h : a.Holds root all) {x : Nat × ArenaNode w α} (mem : x ∈ all) :
    x.1 < a.nodes.size := by
  obtain ⟨inside, -⟩ := Array.getElem?_eq_some_iff.1 (h.stored x mem)
  exact inside

/-- A change of one node replaces its cell. -/
theorem update (h : a.Holds root ({(i, n)} + rest)) (f : ArenaNode w α → ArenaNode w α) :
    ∃ b, a.update i f = some b ∧ b.Holds root ({(i, f n)} + rest) := by
  have own : (i, n) ∈ ({(i, n)} : Multiset (Nat × ArenaNode w α)) :=
    Multiset.mem_singleton_self (i, n)
  have inside : i < a.nodes.size := h.index_lt (Multiset.mem_add.2 (Or.inl own))
  refine ⟨{ a with nodes := a.nodes.setIfInBounds i (f n) }, ?_, h.root_eq, ?_, ?_, ?_⟩
  · unfold IntervalArena.update
    rw [h.read]
    rfl
  · intro x mem
    rcases Multiset.mem_add.1 mem with mem | mem
    · rw [Multiset.mem_singleton.1 mem]
      exact Array.getElem?_setIfInBounds_self_of_lt inside
    · have apart : i ≠ x.1 := h.ne own mem
      exact (Array.getElem?_setIfInBounds_ne apart).trans
        (h.stored x (Multiset.mem_add.2 (Or.inr mem)))
  · have distinct := h.distinct
    rw [Multiset.map_add, Multiset.map_singleton] at distinct ⊢
    exact distinct
  · have size := h.size_eq
    rw [Multiset.card_add, Multiset.card_singleton] at size ⊢
    rw [size]
    exact Array.size_setIfInBounds.symm

/-! ### Subtrees -/

theorem rootId_ne (h : a.Holds root (cells parent t + rest)) {x : Nat × ArenaNode w α}
    (mem : x ∈ rest) : t.rootId ≠ some x.1 := by
  intro same
  obtain ⟨n, there⟩ := exists_mem_cells same parent
  exact h.ne there mem rfl

theorem raise (h : a.Holds root (cells parent t + rest)) (p : BitVec w) :
    a.raise p t.rootId = some (IntervalTree.raise p t) := by
  cases t with
  | nil => rfl
  | node c l r v q u =>
      rw [cells, add_assoc] at h
      show (a.node? v.1).bind (fun n => some (Range.higher p n.reach)) = _
      rw [h.read]
      rfl

theorem isRed (h : a.Holds root (cells parent t + rest)) : a.isRed t.rootId = some t.isRed := by
  cases t with
  | nil => rfl
  | node c l r v q u =>
      rw [cells, add_assoc] at h
      show (a.node? v.1).bind (fun n => some (decide (n.color = .red))) = _
      rw [h.read, isRed_node]
      rfl

/-- Painting the root of a subtree black. -/
theorem blacken (h : a.Holds root (cells parent t + rest)) :
    ∃ b, a.paint .black t.rootId = some b ∧ b.Holds root (cells parent t.blacken + rest) := by
  cases t with
  | nil => exact ⟨a, rfl, h⟩
  | node c l r v q u =>
      rw [cells, add_assoc] at h
      obtain ⟨b, painted, holds⟩ := h.update ({ · with color := .black })
      refine ⟨b, painted, ?_⟩
      rw [IntervalTree.blacken, cells, add_assoc]
      exact holds

/-- A subtree is hung below another node. -/
theorem adopt (h : a.Holds root (cells parent t + rest)) (j : Nat) :
    ∃ b, a.adopt t.rootId j = some b ∧ b.Holds root (cells (some j) t + rest) := by
  cases t with
  | nil => exact ⟨a, rfl, h⟩
  | node c l r v q u =>
      rw [cells, add_assoc] at h
      obtain ⟨b, updated, holds⟩ := h.update ({ · with parent := some j })
      refine ⟨b, updated, ?_⟩
      rw [cells, add_assoc]
      exact holds

/-- The reach implied at a node, told from either side. -/
theorem impliedReach {s : Side} {c : Color} {near far : IntervalTree w (Nat × α)} {r : Range w} {v : α}
    {p : BitVec w} {q q' : Option Nat}
    (h : a.Holds root ({(i, .on s c near.rootId r v p far.rootId parent)} +
      (cells q near + cells q' far + rest))) :
    a.impliedReach i = some (IntervalTree.raise (IntervalTree.raise r.high near) far) := by
  have hn : a.Holds root (cells q near +
      ({(i, .on s c near.rootId r v p far.rootId parent)} + cells q' far + rest)) :=
    h.congr (by abel)
  have hf : a.Holds root (cells q' far +
      ({(i, .on s c near.rootId r v p far.rootId parent)} + cells q near + rest)) :=
    h.congr (by abel)
  unfold IntervalArena.impliedReach
  rw [h.read]
  cases s with
  | left =>
      show (a.raise r.high near.rootId).bind (a.raise · far.rootId) = _
      rw [hn.raise, Option.bind_some, hf.raise]
  | right =>
      show (a.raise r.high far.rootId).bind (a.raise · near.rootId) = _
      rw [hf.raise, Option.bind_some, hn.raise, raise_raise_comm]

theorem refresh {s : Side} {c : Color} {near far : IntervalTree w (Nat × α)} {r : Range w} {v : α}
    {p : BitVec w} {q q' : Option Nat}
    (h : a.Holds root ({(i, .on s c near.rootId r v p far.rootId parent)} +
      (cells q near + cells q' far + rest))) :
    ∃ b, a.refresh i = some b ∧ b.Holds root
      ({(i, .on s c near.rootId r v (IntervalTree.raise (IntervalTree.raise r.high near) far)
        far.rootId parent)} + (cells q near + cells q' far + rest)) := by
  obtain ⟨b, updated, holds⟩ := h.update
    ({ · with reach := IntervalTree.raise (IntervalTree.raise r.high near) far })
  rw [ArenaNode.withReach_on] at holds
  refine ⟨b, ?_, holds⟩
  unfold IntervalArena.refresh
  rw [h.impliedReach]
  exact updated

/-! ### Ways -/

variable {path : List (Frame w (Nat × α))} {child : Option Nat}

/-- Another node is put at the end of a way. -/
theorem replaceChild (h : a.Holds (rootAbove path (some i)) (pathCells path (some i) + rest))
    (mem : (i, n) ∈ rest) (j : Nat) :
    ∃ b, a.replaceChild (headId path) i j = some b ∧
      b.Holds (rootAbove path (some j)) (pathCells path (some j) + rest) := by
  cases path with
  | nil => exact ⟨{ a with root := some j }, rfl, rfl, h.stored, h.distinct, h.size_eq⟩
  | cons f above =>
      have seen : a.Holds (rootAbove (f :: above) (some i)) (cells (some f.value.1) f.sibling +
          ({(f.value.1, .on f.side f.color (some i) f.range f.value.2 f.reach f.sibling.rootId
            (headId above))} + pathCells above (some f.value.1) + rest)) :=
        h.congr (by rw [pathCells]; abel)
      have apart : f.sibling.rootId ≠ some i := seen.rootId_ne (Multiset.mem_add.2 (Or.inr mem))
      rw [pathCells, add_assoc] at h
      obtain ⟨b, updated, holds⟩ := h.update
        fun n => n.setChild (if n.left = some i then .left else .right) (some j)
      refine ⟨b, updated, ?_⟩
      rw [pathCells, add_assoc]
      refine holds.congr ?_
      congr 3
      cases f.side with
      | left => exact if_pos rfl ▸ rfl
      | right => exact if_neg apart ▸ rfl

/-- A node is hung at the end of a way that ended at a missing child. -/
theorem link (h : a.Holds (rootAbove path none) (pathCells path none + rest)) (j : Nat) :
    ∃ b, a.link j (placeAt path) = some b ∧
      b.Holds (rootAbove path (some j)) (pathCells path (some j) + rest) := by
  cases path with
  | nil => exact ⟨{ a with root := some j }, rfl, rfl, h.stored, h.distinct, h.size_eq⟩
  | cons f above =>
      rw [pathCells, add_assoc] at h
      obtain ⟨b, updated, holds⟩ := h.update (·.setChild f.side (some j))
      rw [ArenaNode.setChild_on] at holds
      refine ⟨b, updated, ?_⟩
      rw [pathCells, add_assoc]
      exact holds

/-- A node behind all others is one cell more. -/
theorem push (h : a.Holds root all) (n : ArenaNode w α) :
    Holds { a with nodes := a.nodes.push n } root ({(a.nodes.size, n)} + all) where
  root_eq := h.root_eq
  stored := by
    intro x mem
    rcases Multiset.mem_add.1 mem with mem | mem
    · rw [Multiset.mem_singleton.1 mem]
      exact Array.getElem?_push_size
    · exact (Array.getElem?_push_lt (h.index_lt mem)).trans
        ((Array.getElem?_eq_getElem (h.index_lt mem)).symm.trans (h.stored x mem))
  distinct := by
    rw [Multiset.map_add, Multiset.map_singleton, Multiset.singleton_add, Multiset.nodup_cons]
    refine ⟨fun mem => ?_, h.distinct⟩
    obtain ⟨x, there, same⟩ := Multiset.mem_map.1 mem
    have := h.index_lt there
    omega
  size_eq := by
    rw [Multiset.card_add, Multiset.card_singleton, h.size_eq, Array.size_push, add_comm]

end Holds

/-! ### Trees -/

/-- The arena consists of the tree that a way and the subtree at its end make. -/
def Represents (a : IntervalArena w α) (path : List (Frame w (Nat × α)))
    (t : IntervalTree w (Nat × α)) : Prop :=
  a.Holds (rootAbove path t.rootId) (cells (headId path) t + pathCells path t.rootId)

variable {a : IntervalArena w α} {path : List (Frame w (Nat × α))} {f : Frame w (Nat × α)}
  {t u : IntervalTree w (Nat × α)}

/-- One step up. -/
theorem represents_cons : a.Represents (f :: path) t ↔ a.Represents path (f.plug t) := by
  unfold Represents Frame.plug
  rw [cells_nodeOn, rootId_nodeOn, rootAbove, pathCells]
  have same : cells (headId (f :: path)) t +
      ({(f.value.1, .on f.side f.color t.rootId f.range f.value.2 f.reach f.sibling.rootId
        (headId path))} + (cells (some f.value.1) f.sibling + pathCells path (some f.value.1))) =
      {(f.value.1, .on f.side f.color t.rootId f.range f.value.2 f.reach f.sibling.rootId
        (headId path))} + (cells (some f.value.1) t + cells (some f.value.1) f.sibling) +
        pathCells path (some f.value.1) := by
    show cells (some f.value.1) t + _ = _
    abel
  exact ⟨fun h => h.congr same, fun h => h.congr same.symm⟩

/-- One step down. -/
theorem Represents.child {s : Side} {c : Color} {near far : IntervalTree w (Nat × α)} {r : Range w}
    {v : Nat × α} {p : BitVec w} (h : a.Represents path (nodeOn s c near r v p far)) :
    a.Represents (⟨s, c, r, v, p, far⟩ :: path) near := represents_cons.2 h

/-- **What an arena holds does not depend on where one looks from.** -/
theorem represents_iff : a.Represents path t ↔ a.Represents [] (plugAll path t) := by
  induction path generalizing t with
  | nil => exact Iff.rfl
  | cons f rest ih => rw [represents_cons, ih, plugAll]

theorem Represents.refocus {path' : List (Frame w (Nat × α))} (h : a.Represents path t)
    (same : plugAll path t = plugAll path' u) : a.Represents path' u := by
  rw [represents_iff] at h ⊢
  exact same ▸ h

end IntervalArena

end TcpCapture
