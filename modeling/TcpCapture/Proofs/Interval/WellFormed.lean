import Mathlib.Data.Finset.Card
import Mathlib.Data.Finset.Range
import Mathlib.Order.Bounds.Defs
import TcpCapture.Proofs.Interval.Arena

/-!
# Links, order and reaches in an arena

What an arena that consists of a tree looks like to someone who knows nothing of trees and only follows
indexes: nothing is lost and nothing is linked twice, links agree, the ranges are in order, and each node
knows the highest point below it.

## Main definitions

* `IntervalArena.walk` — where a way along child links leads
* `IntervalArena.Linked` — the links agree
* `IntervalArena.WellFormed` — links, order and reaches are right
* `IntervalArena.Stands.wellFormed` — so they are wherever an arena consists of a tree in order

**From a node to its place.**  Every stored node is the root of a subtree at the end of some way
(`Stands.exists_place`).  What it says of its neighbours is then what its cell says, and that is fixed by
the subtree and the way.
-/

namespace TcpCapture

namespace IntervalArena

open IntervalTree

variable {w : Nat} {α : Type}

/-- The node that a way from `start` leads to, where each step goes to a child.  The last step is the first
element. -/
def walk (a : IntervalArena w α) (start : Option Nat) : List Side → Option Nat
  | [] => start
  | s :: way => do
    let i ← a.walk start way
    let n ← a.node? i
    n.child s

/-- The links of the nodes agree. -/
structure Linked (a : IntervalArena w α) : Prop where
  /-- The root has no parent. -/
  root_parent : ∀ i, a.root = some i → ∃ n, a.node? i = some n ∧ n.parent = none
  /-- Who has a child is its parent. -/
  child_parent : ∀ i n s j, a.node? i = some n → n.child s = some j →
    ∃ m, a.node? j = some m ∧ m.parent = some i
  /-- Who has a parent is one of its children. -/
  parent_child : ∀ i n j, a.node? i = some n → n.parent = some j →
    ∃ m s, a.node? j = some m ∧ m.child s = some i
  /-- No node is both children of another one. -/
  children_ne : ∀ i n s j, a.node? i = some n → n.child s = some j → n.child s.other ≠ some j

/-- Links, order and reaches are right. -/
structure WellFormed (a : IntervalArena w α) : Prop extends a.Linked where
  /-- One way leads from the root to a stored node. -/
  reached : ∀ i n, a.node? i = some n → ∃! way, a.walk a.root way = some i
  /-- No node on the left of another one begins above it. -/
  left_low_le : ∀ i n way j m, a.node? i = some n → a.walk n.left way = some j →
    a.node? j = some m → m.range.low ≤ n.range.low
  /-- No node on the right of another one begins below it. -/
  le_right_low : ∀ i n way j m, a.node? i = some n → a.walk n.right way = some j →
    a.node? j = some m → n.range.low ≤ m.range.low
  /-- A node reaches as far as its range or one of its children does. -/
  reach_isGreatest : ∀ i n, a.node? i = some n →
    IsGreatest {p | p = n.range.high ∨
      ∃ s j m, n.child s = some j ∧ a.node? j = some m ∧ m.reach = p} n.reach
  /-- The reach of the arena is the highest end of any range, if there is one. -/
  highest : a.nodes = #[] ∧ a.reach? = some none ∨
    ∃ p, a.reach? = some (some p) ∧
      IsGreatest {q | ∃ i n, a.node? i = some n ∧ n.range.high = q} p

variable {a : IntervalArena w α} {path : List (Frame w (Nat × α))} {t : IntervalTree w (Nat × α)}

/-! ### Links -/

theorem walk_cons_eq_some {start : Option Nat} {s : Side} {way : List Side} {j : Nat} :
    a.walk start (s :: way) = some j ↔
      ∃ i n, a.walk start way = some i ∧ a.node? i = some n ∧ n.child s = some j := by
  simp only [walk, Option.bind_eq_bind, Option.bind_eq_some_iff]
  constructor
  · rintro ⟨i, led, n, stored, child⟩
    exact ⟨i, n, led, stored, child⟩
  · rintro ⟨i, n, led, stored, child⟩
    exact ⟨i, led, n, stored, child⟩

/-- No two ways from the root lead to the same node: parents tell the way back. -/
theorem Linked.walk_injective (linked : a.Linked) {way way' : List Side} {i : Nat}
    (led : a.walk a.root way = some i) (led' : a.walk a.root way' = some i) : way = way' := by
  -- the root is nobody's child
  have apart {s : Side} {below : List Side} {j : Nat} (led : a.walk a.root (s :: below) = some j) :
      a.root ≠ some j := by
    intro root
    obtain ⟨k, m, -, stored, child⟩ := walk_cons_eq_some.1 led
    obtain ⟨n, read, parent⟩ := linked.child_parent k m s j stored child
    obtain ⟨n', read', none⟩ := linked.root_parent j root
    obtain rfl := Option.some.inj (read.symm.trans read')
    rw [none] at parent
    cases parent
  induction way generalizing way' i with
  | nil =>
      cases way' with
      | nil => rfl
      | cons s' below' => exact absurd led (apart led')
  | cons s below ih =>
      cases way' with
      | nil => exact absurd led' (apart led)
      | cons s' below' =>
          obtain ⟨j, n, led, stored, child⟩ := walk_cons_eq_some.1 led
          obtain ⟨j', n', led', stored', child'⟩ := walk_cons_eq_some.1 led'
          obtain ⟨m, read, parent⟩ := linked.child_parent j n s i stored child
          obtain ⟨m', read', parent'⟩ := linked.child_parent j' n' s' i stored' child'
          obtain rfl := Option.some.inj (read.symm.trans read')
          obtain rfl := Option.some.inj (parent.symm.trans parent')
          obtain rfl := Option.some.inj (stored.symm.trans stored')
          have side : s' = s := by
            by_contra across
            rw [Side.eq_other_of_ne across] at child'
            exact linked.children_ne j n s i stored child child'
          rw [ih led led', side]

/-! ### Places -/

/-- One step down: a subtree of a tree in order is in order. -/
theorem Stands.child {s : Side} {c : Color} {near far : IntervalTree w (Nat × α)} {r : Range w}
    {v : Nat × α} {p : BitVec w} (h : a.Stands path (nodeOn s c near r v p far)) :
    a.Stands (⟨s, c, r, v, p, far⟩ :: path) near := by
  refine ⟨h.represents.child, ?_, ((Frame.reachExact_plug ⟨s, c, r, v, p, far⟩ near).1
    h.exact).2.1⟩
  cases s with
  | left => exact (ordered_node.1 h.ordered).1
  | right => exact (ordered_node.1 h.ordered).2.1

theorem toList_subset_nodeOn {s : Side} {c : Color} {near far : IntervalTree w (Nat × α)} {r : Range w}
    {v : Nat × α} {p : BitVec w} : near.toList ⊆ (nodeOn s c near r v p far).toList := by
  cases s with
  | left => exact List.subset_append_left _ _
  | right => exact List.Subset.trans (List.subset_cons_self _ _) (List.subset_append_right _ _)

/-- The cells have all indexes that there are. -/
theorem Holds.exists_cell {root : Option Nat} {all : Multiset (Nat × ArenaNode w α)} {i : Nat}
    (h : a.Holds root all) (inside : i < a.nodes.size) : ∃ n, (i, n) ∈ all := by
  have keys : (all.map Prod.fst).toFinset = Finset.range a.nodes.size := by
    refine Finset.eq_of_subset_of_card_le ?_ ?_
    · intro j mem
      obtain ⟨x, there, rfl⟩ := Multiset.mem_map.1 (Multiset.mem_toFinset.1 mem)
      exact Finset.mem_range.2 (h.index_lt there)
    · rw [Finset.card_range, Multiset.toFinset_card_of_nodup h.distinct, Multiset.card_map, h.size_eq]
  have mem : i ∈ (all.map Prod.fst).toFinset := keys ▸ Finset.mem_range.2 inside
  obtain ⟨⟨j, n⟩, there, rfl⟩ := Multiset.mem_map.1 (Multiset.mem_toFinset.1 mem)
  exact ⟨n, there⟩

/-- A cell of a tree is the root of one of its subtrees. -/
theorem Stands.exists_of_mem_cells (h : a.Stands path t) {i : Nat} {n : ArenaNode w α}
    {parent : Option Nat} (mem : (i, n) ∈ cells parent t) :
    ∃ path' u, a.Stands path' u ∧ u.rootId = some i ∧ u.toList ⊆ t.toList := by
  induction t generalizing path parent with
  | nil => exact absurd mem (Multiset.notMem_zero _)
  | node c l r v p u ihl ihu =>
      rcases Multiset.mem_add.1 mem with own | mem
      · obtain ⟨rfl, -⟩ := Prod.mk.inj (Multiset.mem_singleton.1 own)
        exact ⟨path, _, h, rfl, List.Subset.refl _⟩
      · rcases Multiset.mem_add.1 mem with left | right
        · obtain ⟨path', t', stands, root, within⟩ := ihl (Stands.child (s := .left) h) left
          exact ⟨path', t', stands, root, List.Subset.trans within (toList_subset_nodeOn (s := .left))⟩
        · obtain ⟨path', t', stands, root, within⟩ := ihu (Stands.child (s := .right) h) right
          exact ⟨path', t', stands, root, List.Subset.trans within (toList_subset_nodeOn (s := .right))⟩

/-- **Every stored node has its place**, at which it can be seen from either side. -/
theorem Stands.exists_place (h : a.Stands [] t) {i : Nat} {n : ArenaNode w α}
    (stored : a.node? i = some n) (s : Side) :
    ∃ path c near r v p far, a.Stands path (nodeOn s c near r (i, v) p far) ∧
      n = .on s c near.rootId r v p far.rootId (headId path) ∧
      (nodeOn s c near r (i, v) p far).toList ⊆ t.toList := by
  obtain ⟨inside, -⟩ := Array.getElem?_eq_some_iff.1 stored
  obtain ⟨m, cell⟩ := Holds.exists_cell h.represents inside
  have cell : (i, m) ∈ cells none t := by
    rcases Multiset.mem_add.1 cell with cell | outside
    · exact cell
    · exact absurd outside (Multiset.notMem_zero _)
  obtain ⟨path, u, stands, root, within⟩ := h.exists_of_mem_cells cell
  cases u with
  | nil => cases root
  | node c l r v p u =>
      obtain rfl := Option.some.inj root
      obtain ⟨near, far, same⟩ := exists_nodeOn s c l r v p u
      rw [same] at stands within
      exact ⟨path, c, near, r, v.2, p, far, stands,
        Option.some.inj (stored.symm.trans stands.represents.read), within⟩

/-! ### Reading the tree off -/

theorem Stands.linked (h : a.Stands [] t) : a.Linked where
  root_parent := fun i root => h.represents.exists_read ((Holds.root_eq h.represents).symm.trans root)
  child_parent := by
    intro i n s j stored child
    obtain ⟨path, c, near, r, v, p, far, stands, rfl, -⟩ := h.exists_place stored s
    rw [ArenaNode.child_on] at child
    exact stands.child.represents.exists_read child
  parent_child := by
    intro i n j stored parent
    obtain ⟨path, c, near, r, v, p, far, stands, rfl, -⟩ := h.exists_place stored .left
    rw [ArenaNode.parent_on] at parent
    cases path with
    | nil => cases parent
    | cons f above =>
        obtain rfl := Option.some.inj parent
        refine ⟨_, f.side, (represents_cons.1 stands.represents).read, ?_⟩
        rw [ArenaNode.child_on, rootId_nodeOn]
  children_ne := by
    intro i n s j stored child
    obtain ⟨path, c, near, r, v, p, far, stands, rfl, -⟩ := h.exists_place stored s
    rw [ArenaNode.child_on] at child
    rw [ArenaNode.child_other_on]
    exact stands.child.represents.sibling_ne child

/-- A way leads to the root of every subtree. -/
theorem Represents.exists_walk {i : Nat} (h : a.Represents path t) (root : t.rootId = some i) :
    ∃ way, a.walk a.root way = some i := by
  induction path generalizing t i with
  | nil => exact ⟨[], (Holds.root_eq h).trans root⟩
  | cons f above ih =>
      have up : a.Represents above (f.plug t) := represents_cons.1 h
      obtain ⟨way, led⟩ := ih up (rootId_nodeOn ..)
      refine ⟨f.side :: way, walk_cons_eq_some.2 ⟨_, _, led, up.read, ?_⟩⟩
      rw [ArenaNode.child_on, root]

/-- A way down from the root of a subtree stays in it. -/
theorem Stands.walk_mem (h : a.Stands path t) {way : List Side} {j : Nat} {m : ArenaNode w α}
    (led : a.walk t.rootId way = some j) (stored : a.node? j = some m) :
    ∃ v, (m.range, v) ∈ t.toList := by
  have stays : ∃ path' u, a.Stands path' u ∧ u.rootId = some j ∧ u.toList ⊆ t.toList := by
    clear stored
    induction way generalizing j with
    | nil => exact ⟨path, t, h, led, List.Subset.refl _⟩
    | cons s way ih =>
        obtain ⟨i, n, led, stored, child⟩ := walk_cons_eq_some.1 led
        obtain ⟨path', u, stands, root, within⟩ := ih led
        cases u with
        | nil => cases root
        | node c l r v p u =>
            obtain rfl := Option.some.inj root
            obtain ⟨near, far, same⟩ := exists_nodeOn s c l r v p u
            rw [same] at stands within
            obtain rfl := Option.some.inj (stored.symm.trans stands.represents.read)
            rw [ArenaNode.child_on] at child
            exact ⟨_, near, stands.child, child, List.Subset.trans toList_subset_nodeOn within⟩
  obtain ⟨path', u, stands, root, within⟩ := stays
  cases u with
  | nil => cases root
  | node c l r v p u =>
      obtain rfl := Option.some.inj root
      obtain rfl := Option.some.inj (stored.symm.trans (Represents.read (s := .left) stands.represents))
      exact ⟨v, within (List.mem_append_right _ List.mem_cons_self)⟩

/-- The reach of a subtree is that of the node at its root. -/
theorem Represents.reach?_eq (h : a.Represents path t) :
    t.reach? = t.rootId.bind fun i => (a.node? i).map (·.reach) := by
  cases t with
  | nil => rfl
  | node c l r v p u =>
      show some p = (a.node? v.1).map (·.reach)
      rw [Represents.read (s := .left) h]
      rfl

theorem Stands.reach_isGreatest (h : a.Stands [] t) {i : Nat} {n : ArenaNode w α}
    (stored : a.node? i = some n) :
    IsGreatest {p | p = n.range.high ∨
      ∃ s j m, n.child s = some j ∧ a.node? j = some m ∧ m.reach = p} n.reach := by
  constructor
  · -- the reach was raised to that of a child, or never
    obtain ⟨path, c, near, r, v, p, far, stands, rfl, -⟩ := h.exists_place stored .left
    have child (s : Side) {near far : IntervalTree w (Nat × α)}
        (stands : a.Stands path (nodeOn s c near r (i, v) p far)) (reach : near.reach? = some p) :
        ∃ j m, near.rootId = some j ∧ a.node? j = some m ∧ m.reach = p := by
      rw [stands.child.represents.reach?_eq, Option.bind_eq_some_iff] at reach
      obtain ⟨j, root, reach⟩ := reach
      obtain ⟨m, read, same⟩ := Option.map_eq_some_iff.1 reach
      exact ⟨j, m, root, read, same⟩
    have implied : p = IntervalTree.raise (IntervalTree.raise r.high near) far := stands.exact.1
    rcases raise_cases (IntervalTree.raise r.high near) far with same | reach
    · rcases raise_cases r.high near with own | reach
      · exact Or.inl (implied.trans (same.trans own))
      · rw [← same, ← implied] at reach
        exact Or.inr ⟨.left, child .left stands reach⟩
    · rw [← implied] at reach
      exact Or.inr ⟨.right, child .right stands reach⟩
  · rintro q (rfl | ⟨s, j, m, link, read, rfl⟩)
    · obtain ⟨path, c, near, r, v, p, far, stands, rfl, -⟩ := h.exists_place stored .left
      have implied : p = IntervalTree.raise (IntervalTree.raise r.high near) far := stands.exact.1
      show r.high ≤ p
      rw [implied]
      exact BitVec.le_trans (le_raise _ near) (le_raise _ far)
    · obtain ⟨path, c, near, r, v, p, far, stands, rfl, -⟩ := h.exists_place stored s
      rw [ArenaNode.child_on] at link
      have reach : near.reach? = some m.reach := by
        rw [stands.child.represents.reach?_eq, link, Option.bind_some, read]
        rfl
      have implied : p = IntervalTree.raise (IntervalTree.raise r.high near) far :=
        ((Frame.reachExact_plug ⟨s, c, r, (i, v), p, far⟩ near).1 stands.exact).1
      rw [ArenaNode.reach_on, implied]
      exact BitVec.le_trans (reach_le_raise reach _) (le_raise _ far)

/-- What a tree reads as is stored in the arena. -/
theorem Represents.exists_of_mem_toList (h : a.Represents path t) {x : Range w × Nat × α}
    (mem : x ∈ t.toList) : ∃ n, a.node? x.2.1 = some n ∧ n.range = x.1 := by
  induction t generalizing path with
  | nil => cases mem
  | node c l r v p u ihl ihu =>
      rcases List.mem_append.1 mem with mem | mem
      · exact ihl (Represents.child (s := .left) h) mem
      · rcases List.mem_cons.1 mem with rfl | mem
        · exact ⟨_, Represents.read (s := .left) h, rfl⟩
        · exact ihu (Represents.child (s := .right) h) mem

theorem Stands.highest (h : a.Stands [] t) :
    a.nodes = #[] ∧ a.reach? = some none ∨
      ∃ p, a.reach? = some (some p) ∧
        IsGreatest {q | ∃ i n, a.node? i = some n ∧ n.range.high = q} p := by
  have root := Holds.root_eq h.represents
  cases t with
  | nil =>
      refine Or.inl ⟨Array.size_eq_zero_iff.1 h.represents.size_eq.symm, ?_⟩
      unfold IntervalArena.reach?
      rw [root]
      rfl
  | node c l r v p u =>
      refine Or.inr ⟨p, ?_, ?_, ?_⟩
      · unfold IntervalArena.reach?
        rw [root]
        show (a.node? v.1).bind (fun n => some (some n.reach)) = _
        rw [Represents.read (s := .left) h.represents]
        rfl
      · obtain ⟨x, mem, high⟩ := h.exact.exists_high rfl
        obtain ⟨n, stored, range⟩ := h.represents.exists_of_mem_toList mem
        exact ⟨x.2.1, n, stored, range ▸ high⟩
      · rintro q ⟨i, n, stored, rfl⟩
        obtain ⟨path, c', near, r', v', p', far, -, rfl, within⟩ := h.exists_place stored .left
        have mem : (r', (i, v')) ∈ (IntervalTree.node c l r v p u).toList :=
          within (List.mem_append_right _ List.mem_cons_self)
        obtain ⟨top, reach, le⟩ := h.exact.high_le mem
        obtain rfl := Option.some.inj reach
        exact le

theorem Stands.wellFormed (h : a.Stands [] t) : a.WellFormed where
  toLinked := h.linked
  reached := by
    intro i n stored
    obtain ⟨path, c, near, r, v, p, far, stands, -, -⟩ := h.exists_place stored .left
    obtain ⟨way, led⟩ := stands.represents.exists_walk (rootId_nodeOn ..)
    exact ⟨way, led, fun way' led' => h.linked.walk_injective led' led⟩
  left_low_le := by
    intro i n way j m stored led read
    obtain ⟨path, c, near, r, v, p, far, stands, rfl, -⟩ := h.exists_place stored .left
    obtain ⟨v', mem⟩ := stands.child.walk_mem led read
    exact (ordered_node.1 stands.ordered).2.2.1 _ mem
  le_right_low := by
    intro i n way j m stored led read
    obtain ⟨path, c, near, r, v, p, far, stands, rfl, -⟩ := h.exists_place stored .right
    obtain ⟨v', mem⟩ := stands.child.walk_mem led read
    exact (ordered_node.1 stands.ordered).2.2.2 _ mem
  reach_isGreatest := fun i n stored => h.reach_isGreatest stored
  highest := h.highest

/-! ### Histories -/

/-- **After any history of insertions and clearings there is an arena, it is well-formed, and it consists
of the tree that the history builds.** -/
theorem wellFormed_ofEdits (edits : List (Edit w α)) :
    ∃ a t, ofEdits edits = some a ∧ a.WellFormed ∧ a.Represents [] t ∧
      t.mapValues Prod.snd = IntervalTree.ofEdits edits := by
  obtain ⟨a, t, built, stands, -, values⟩ := exists_stands edits
  exact ⟨a, t, built, stands.wellFormed, stands.represents, values⟩

end IntervalArena

end TcpCapture
