import TcpCapture.Proofs.Interval.Cells

/-!
# Repairing an arena

After a node was appended, two walks go up from it.  One puts the reaches right, the other one the
colours.  Each does to the arena what the repairs of `IntervalTree.insert` do to the tree.

## Main definitions

* `Represents.rotate` — a rotation, which writes up to six links and two reaches
* `Represents.propagate` — the walk that computes reaches anew, and stops where one is right
* `rebalanceOr`, `Represents.rebalanceOr` — the walk that repairs colours, whatever it does below a red root

**Where a walk stops.**  Either walk stops as soon as it meets a node that needs no repair, and leaves
everything above alone.  It may, for what is above was in order before and cannot tell the difference: it
only sees the reach and the colour of what hangs below it, and these are the old ones.
-/

namespace TcpCapture

namespace IntervalTree

variable {w : Nat} {α : Type}

theorem joinOn_other (s : Side) (c : Color) (near : IntervalTree w α) (r : Range w) (v : α)
    (far : IntervalTree w α) : joinOn s.other c near r v far = joinOn s c far r v near := by
  cases s <;> rfl

end IntervalTree

namespace IntervalArena

open IntervalTree

variable {w : Nat} {α : Type} {a : IntervalArena w α} {path : List (Frame w (Nat × α))}
  {s : Side} {c d : Color} {near inner far : IntervalTree w (Nat × α)} {r r' : Range w}
  {x y : Nat × α} {p q : BitVec w}

/-- The links after two nodes have changed places.  The reaches are still the old ones. -/
theorem Holds.exchange
    (h : a.Holds (rootAbove path (some x.1))
      ({(x.1, .on s c near.rootId r x.2 p (some y.1) (headId path))} +
        ({(y.1, .on s d inner.rootId r' y.2 q far.rootId (some x.1))} +
          (cells (some x.1) near + cells (some y.1) inner + cells (some y.1) far +
            pathCells path (some x.1))))) :
    ∃ b, a.exchange s x.1 y.1 = some b ∧ b.Holds (rootAbove path (some y.1))
      ({(y.1, .on s d (some x.1) r' y.2 q far.rootId (headId path))} +
        ({(x.1, .on s c near.rootId r x.2 p inner.rootId (some y.1))} +
          (cells (some x.1) near + cells (some x.1) inner + cells (some y.1) far +
            pathCells path (some y.1)))) := by
  have lower : a.node? y.1 = some (.on s d inner.rootId r' y.2 q far.rootId (some x.1)) :=
    (h.congr (add_left_comm _ _ _)).read
  -- the inner subtree changes its parent
  obtain ⟨a₁, e₁, h₁⟩ := h.update (·.setChild s.other inner.rootId)
  rw [ArenaNode.setChild_other_on] at h₁
  have h₁ : a₁.Holds (rootAbove path (some x.1)) (cells (some y.1) inner +
      ({(x.1, .on s c near.rootId r x.2 p inner.rootId (headId path))} +
        ({(y.1, .on s d inner.rootId r' y.2 q far.rootId (some x.1))} +
          (cells (some x.1) near + cells (some y.1) far + pathCells path (some x.1))))) :=
    h₁.congr (by abel)
  obtain ⟨a₂, e₂, h₂⟩ := h₁.adopt x.1
  have upper : a₂.node? x.1 = some (.on s c near.rootId r x.2 p inner.rootId (headId path)) :=
    (h₂.congr (add_left_comm _ _ _)).read
  -- the lower node takes the place of the upper one
  have h₂ : a₂.Holds (rootAbove path (some x.1))
      ({(y.1, .on s d inner.rootId r' y.2 q far.rootId (some x.1))} +
        (pathCells path (some x.1) +
          ({(x.1, .on s c near.rootId r x.2 p inner.rootId (headId path))} +
            (cells (some x.1) near + cells (some x.1) inner + cells (some y.1) far)))) :=
    h₂.congr (by abel)
  obtain ⟨a₃, e₃, h₃⟩ := h₂.update ({ · with parent := headId path })
  rw [ArenaNode.withParent_on] at h₃
  obtain ⟨a₄, e₄, h₄⟩ := (h₃.congr (add_left_comm _ _ _)).replaceChild
    (Multiset.mem_add.2 (Or.inr (Multiset.mem_add.2 (Or.inl (Multiset.mem_singleton_self _))))) y.1
  -- and the upper one hangs below it
  obtain ⟨a₅, e₅, h₅⟩ := (h₄.congr (add_left_comm _ _ _)).update (·.setChild s (some x.1))
  rw [ArenaNode.setChild_on] at h₅
  have h₅ : a₅.Holds (rootAbove path (some y.1))
      ({(x.1, .on s c near.rootId r x.2 p inner.rootId (headId path))} +
        ({(y.1, .on s d (some x.1) r' y.2 q far.rootId (headId path))} +
          (cells (some x.1) near + cells (some x.1) inner + cells (some y.1) far +
            pathCells path (some y.1)))) := h₅.congr (by abel)
  obtain ⟨b, e₆, h₆⟩ := h₅.update ({ · with parent := some y.1 })
  rw [ArenaNode.withParent_on] at h₆
  refine ⟨b, ?_, h₆.congr (add_left_comm _ _ _)⟩
  unfold IntervalArena.exchange
  simp only [Option.bind_eq_bind, lower, upper, Option.bind_some, ArenaNode.child_on,
    ArenaNode.parent_on, e₁, e₂, e₃, e₄, e₅, e₆]

/-- **A rotation** lifts the child across, and computes both reaches anew. -/
theorem Represents.rotate
    (h : a.Represents path (nodeOn s c near r x p (nodeOn s d inner r' y q far))) :
    ∃ b, a.rotate s x.1 = some b ∧
      b.Represents path (joinOn s d (joinOn s c near r x inner) r' y far) := by
  unfold Represents at h
  rw [cells_nodeOn, cells_nodeOn, rootId_nodeOn, rootId_nodeOn] at h
  have h : a.Holds (rootAbove path (some x.1))
      ({(x.1, .on s c near.rootId r x.2 p (some y.1) (headId path))} +
        ({(y.1, .on s d inner.rootId r' y.2 q far.rootId (some x.1))} +
          (cells (some x.1) near + cells (some y.1) inner + cells (some y.1) far +
            pathCells path (some x.1)))) := h.congr (by abel)
  obtain ⟨a₁, e₁, h₁⟩ := h.exchange
  have h₁ : a₁.Holds (rootAbove path (some y.1))
      ({(x.1, .on s c near.rootId r x.2 p inner.rootId (some y.1))} +
        (cells (some x.1) near + cells (some x.1) inner +
          ({(y.1, .on s d (some x.1) r' y.2 q far.rootId (headId path))} +
            cells (some y.1) far + pathCells path (some y.1)))) := h₁.congr (by abel)
  obtain ⟨a₂, e₂, h₂⟩ := h₁.refresh
  -- the node that went down is a subtree now, with its reach right
  have h₂ : a₂.Holds (rootAbove path (some y.1))
      ({(y.1, .on s d (joinOn s c near r x inner).rootId r' y.2 q far.rootId (headId path))} +
        (cells (some y.1) (joinOn s c near r x inner) + cells (some y.1) far +
          pathCells path (some y.1))) := by
    rw [joinOn_eq_nodeOn, cells_nodeOn, rootId_nodeOn]
    exact h₂.congr (by abel)
  obtain ⟨b, e₃, h₃⟩ := h₂.refresh
  refine ⟨b, ?_, ?_⟩
  · unfold IntervalArena.rotate
    simp only [Option.bind_eq_bind, h.read, Option.bind_some, ArenaNode.child_other_on, e₁, e₂, e₃]
  · unfold Represents
    rw [joinOn_eq_nodeOn s d, cells_nodeOn, rootId_nodeOn]
    exact h₃.congr (by abel)

/-! ### Single nodes -/

section

variable {f : Frame w (Nat × α)} {t : IntervalTree w (Nat × α)} {i : Nat}

theorem Represents.read (h : a.Represents path (nodeOn s c near r x p far)) :
    a.node? x.1 = some (.on s c near.rootId r x.2 p far.rootId (headId path)) := by
  unfold Represents at h
  rw [cells_nodeOn, add_assoc] at h
  exact h.read

theorem Represents.exists_read (h : a.Represents path t) (root : t.rootId = some i) :
    ∃ n, a.node? i = some n ∧ n.parent = headId path := by
  cases t with
  | nil => cases root
  | node c l r v p u =>
      obtain rfl := Option.some.inj root
      exact ⟨_, Represents.read (s := .left) h, ArenaNode.parent_on ..⟩

/-- A change of the colour or of the reach of a node. -/
theorem Represents.update (h : a.Represents path (nodeOn s c near r x p far))
    {g : ArenaNode w α → ArenaNode w α}
    (change : g (.on s c near.rootId r x.2 p far.rootId (headId path)) =
      .on s d near.rootId r x.2 q far.rootId (headId path)) :
    ∃ b, a.update x.1 g = some b ∧ b.Represents path (nodeOn s d near r x q far) := by
  unfold Represents at h
  rw [cells_nodeOn, rootId_nodeOn, add_assoc] at h
  obtain ⟨b, updated, holds⟩ := h.update g
  rw [change] at holds
  refine ⟨b, updated, ?_⟩
  unfold Represents
  rw [cells_nodeOn, rootId_nodeOn, add_assoc]
  exact holds

theorem Represents.paint (h : a.Represents path (nodeOn s c near r x p far)) (d : Color) :
    ∃ b, a.paint d (some x.1) = some b ∧ b.Represents path (nodeOn s d near r x p far) :=
  h.update (ArenaNode.withColor_on ..)

theorem Represents.blacken (h : a.Represents path t) :
    ∃ b, a.paint .black t.rootId = some b ∧ b.Represents path t.blacken := by
  obtain ⟨b, painted, holds⟩ := Holds.blacken h
  refine ⟨b, painted, ?_⟩
  unfold Represents
  rw [rootId_blacken]
  exact holds

theorem Represents.isRed (h : a.Represents path t) : a.isRed t.rootId = some t.isRed := Holds.isRed h

/-- The node is looked at from its other child. -/
theorem represents_across : a.Represents (f :: path) t ↔
    a.Represents ({ f with side := f.side.other, sibling := t } :: path) f.sibling := by
  rw [represents_cons, represents_cons, Frame.plug, Frame.plug, nodeOn_other]

/-- The two children of a node are different nodes. -/
theorem Represents.sibling_ne (h : a.Represents (f :: path) t) (root : t.rootId = some i) :
    f.sibling.rootId ≠ some i := by
  obtain ⟨n, there⟩ := exists_mem_cells root (headId (f :: path))
  have h : a.Holds _ (cells (some f.value.1) f.sibling + ({_} + (cells (headId (f :: path)) t +
      pathCells path (some f.value.1)))) := Holds.congr h (by rw [pathCells]; abel)
  exact h.rootId_ne (Multiset.mem_add.2 (Or.inr (Multiset.mem_add.2 (Or.inl there))))

end

/-! ### Reaches -/

/-- **Reaches are put right** up to where one is right already. -/
theorem Represents.propagate {turns : Nat} {t u : IntervalTree w (Nat × α)}
    (h : a.Represents path t) (exact : ReachesExact path u) (enough : path.length < turns) :
    ∃ b, IntervalArena.propagate turns a (headId path) = some b ∧
      b.Represents (refreshAll path t) t := by
  -- `u` is what hung at the end of the way before
  induction path generalizing turns a t u with
  | nil =>
      obtain ⟨k, rfl⟩ := Nat.exists_eq_add_of_lt enough
      exact ⟨a, rfl, h⟩
  | cons f rest ih =>
      obtain ⟨k, rfl⟩ : ∃ k, turns = k + 1 := ⟨turns - 1, by omega⟩
      obtain ⟨reach, sibling, above⟩ := exact
      have up : a.Represents rest (f.plug t) := represents_cons.1 h
      have read := Represents.read up
      have implied : a.impliedReach f.value.1 = some (f.implied t) := by
        unfold Represents Frame.plug at up
        rw [cells_nodeOn, add_assoc] at up
        exact up.impliedReach
      show ∃ b, IntervalArena.propagate (k + 1) a (some f.value.1) = some b ∧ _
      simp only [IntervalArena.propagate, Option.bind_eq_bind, read, implied, Option.bind_some,
        ArenaNode.reach_on, ArenaNode.parent_on]
      by_cases same : f.implied t = f.reach
      · rw [if_pos same]
        have exact : ReachesExact (f :: rest) t :=
          ⟨same.symm, sibling, above.congr (by rw [f.reach?_plug, f.reach?_plug])⟩
        exact ⟨a, rfl, exact.refreshAll_eq.symm ▸ h⟩
      · rw [if_neg same]
        obtain ⟨a₁, e₁, h₁⟩ := Represents.update (g := ({ · with reach := f.implied t })) up
          (ArenaNode.withReach_on ..)
        have h₁ : a₁.Represents rest ((f.refresh t).plug t) := h₁
        rw [List.length_cons] at enough
        obtain ⟨b, e₂, h₂⟩ := ih h₁ above (Nat.lt_of_succ_lt_succ enough)
        rw [e₁, Option.bind_some, e₂]
        exact ⟨b, rfl, represents_cons.2 h₂⟩

/-! ### Colours -/

section

variable {r₁ r₂ : Range w} {v₁ v₂ : Nat × α} {p₁ p₂ : BitVec w} {outer : IntervalTree w (Nat × α)}

/-- The last rotation of a repair. -/
theorem Represents.lift
    (h : a.Represents path (nodeOn s c (nodeOn s d outer r₁ v₁ p₁ inner) r₂ v₂ p₂ far)) :
    ∃ a₁ a₂ b, a.paint .black (some v₁.1) = some a₁ ∧ a₁.paint .red (some v₂.1) = some a₂ ∧
      a₂.rotate s.other v₂.1 = some b ∧
      b.Represents path (joinOn s .black outer r₁ v₁ (joinOn s .red inner r₂ v₂ far)) := by
  have down : a.Represents (⟨s, c, r₂, v₂, p₂, far⟩ :: path) (nodeOn s d outer r₁ v₁ p₁ inner) :=
    represents_cons.2 h
  obtain ⟨a₁, e₁, h₁⟩ := down.paint .black
  have up : a₁.Represents path (nodeOn s c (nodeOn s .black outer r₁ v₁ p₁ inner) r₂ v₂ p₂ far) :=
    represents_cons.1 h₁
  obtain ⟨a₂, e₂, h₂⟩ := up.paint .red
  rw [← nodeOn_other s .red, ← nodeOn_other s .black] at h₂
  obtain ⟨b, e₃, h₃⟩ := h₂.rotate
  rw [joinOn_other, joinOn_other] at h₃
  exact ⟨a₁, a₂, b, e₁, e₂, e₃, h₃⟩

variable {f g : Frame w (Nat × α)} {t : IntervalTree w (Nat × α)}

/-- A red node and its red sibling are painted black, and their parent red. -/
theorem Represents.recolor (h : a.Represents (f :: g :: path) t) :
    ∃ a₁ a₂ b, a.paint .black (some f.value.1) = some a₁ ∧
      a₁.paint .black g.sibling.rootId = some a₂ ∧ a₂.paint .red (some g.value.1) = some b ∧
      b.Represents path
        (nodeOn g.side .red (f.plug t).blacken g.range g.value g.reach g.sibling.blacken) := by
  have up : a.Represents (g :: path) (f.plug t) := represents_cons.1 h
  obtain ⟨a₁, e₁, h₁⟩ := up.paint .black
  rw [← blacken_nodeOn f.side f.color] at h₁
  obtain ⟨a₂, e₂, h₂⟩ := (represents_across.1 h₁).blacken
  have h₂ : a₂.Represents path (nodeOn g.side.other g.color g.sibling.blacken g.range g.value g.reach
      (f.plug t).blacken) := represents_cons.1 h₂
  rw [nodeOn_other] at h₂
  obtain ⟨b, e₃, h₃⟩ := h₂.paint .red
  exact ⟨a₁, a₂, b, e₁, e₂, e₃, h₃⟩

/-- One rotation lifts the parent of an outer red node. -/
theorem Represents.lift_outer (h : a.Represents (f :: g :: path) t) (color : f.color = .red)
    (red : t.isRed = true) (siblingF : f.sibling.isRed = false) (siblingG : g.sibling.isRed = false)
    (same : f.side = g.side) :
    ∃ a₁ a₂ b, a.paint .black (some f.value.1) = some a₁ ∧ a₁.paint .red (some g.value.1) = some a₂ ∧
      a₂.rotate g.side.other g.value.1 = some b ∧ b.Represents path (g.repair (f.plug t)) := by
  have up : a.Represents path (g.plug (f.plug t)) := represents_cons.1 (represents_cons.1 h)
  unfold Frame.plug at up
  rw [same] at up
  have repaired : g.repair (f.plug t) = joinOn g.side .black t f.range f.value
      (joinOn g.side .red f.sibling g.range g.value g.sibling) := by
    rw [Frame.repair, Frame.plug, same, color]
    exact repairOn_of_outer red siblingF siblingG
  rw [repaired]
  exact Represents.lift up

/-- Two rotations lift an inner one. -/
theorem Represents.lift_inner {height i : Nat} (h : a.Represents (f :: g :: path) t)
    (color : f.color = .red) (b : Balanced .red height t) (root : t.rootId = some i)
    (siblingG : g.sibling.isRed = false) (across : f.side = g.side.other) :
    ∃ a₀ a₁ a₂ b, a.rotate g.side f.value.1 = some a₀ ∧ a₀.paint .black (some i) = some a₁ ∧
      a₁.paint .red (some g.value.1) = some a₂ ∧ a₂.rotate g.side.other g.value.1 = some b ∧
      b.Represents path (g.repair (f.plug t)) := by
  obtain ⟨nearer, r, v, p, farther, rfl, -, -⟩ := b.exists_of_red g.side
  rw [rootId_nodeOn] at root
  obtain rfl := Option.some.inj root
  have up : a.Represents (g :: path) (f.plug (nodeOn g.side .red nearer r v p farther)) :=
    represents_cons.1 h
  have plugged : f.plug (nodeOn g.side .red nearer r v p farther) =
      nodeOn g.side .red f.sibling f.range f.value f.reach
        (nodeOn g.side .red nearer r v p farther) := by
    rw [Frame.plug, across, color, nodeOn_other]
  rw [plugged] at up ⊢
  obtain ⟨a₀, e₀, h₀⟩ := up.rotate
  have h₀ : a₀.Represents path (nodeOn g.side g.color (joinOn g.side .red
      (joinOn g.side .red f.sibling f.range f.value nearer) r v farther) g.range g.value g.reach
      g.sibling) := represents_cons.1 h₀
  rw [joinOn_eq_nodeOn g.side .red (joinOn g.side .red f.sibling f.range f.value nearer)] at h₀
  obtain ⟨a₁, a₂, b, e₁, e₂, e₃, h₃⟩ := Represents.lift h₀
  rw [Frame.repair, repairOn_of_inner siblingG]
  exact ⟨a₀, a₁, a₂, b, e₀, e₁, e₂, e₃, h₃⟩

end

/-- The walk that repairs colours, where what it does below a red node without a parent is left open. -/
def rebalanceOr (orphan : IntervalArena w α → Option (IntervalArena w α)) :
    Nat → IntervalArena w α → Nat → Option (IntervalArena w α)
  | 0, _, _ => none
  | turns + 1, a, i => do
    let n ← a.node? i
    match n.parent with
    | none => some a
    | some parent => do
      let p ← a.node? parent
      if p.color = .black then some a
      else
        match p.parent with
        | none => orphan a
        | some grand => do
          let g ← a.node? grand
          let s : Side := if g.left = some parent then .left else .right
          let uncle := g.child s.other
          if ← a.isRed uncle then
            let a ← a.paint .black (some parent)
            let a ← a.paint .black uncle
            let a ← a.paint .red (some grand)
            rebalanceOr orphan turns a grand
          else if p.child s.other = some i then
            let a ← a.rotate s parent
            let a ← a.paint .black (some i)
            let a ← a.paint .red (some grand)
            a.rotate s.other grand
          else
            let a ← a.paint .black (some parent)
            let a ← a.paint .red (some grand)
            a.rotate s.other grand

/-- An arena with a red root is left as it is. -/
theorem rebalanceOr_some (turns : Nat) (a : IntervalArena w α) (i : Nat) :
    rebalanceOr some turns a i = rebalance turns a i := by
  induction turns generalizing a i with
  | zero => rfl
  | succ turns ih =>
      have later : rebalanceOr some turns = rebalance turns := funext fun a => funext (ih a)
      unfold rebalanceOr
      rewrite [later]
      rfl

/-- **Colours are put right** from a red node upwards, which is what the repairs of the tree do.  There is
no red node without a parent on the way. -/
theorem Represents.rebalanceOr {turns height i : Nat} {t : IntervalTree w (Nat × α)}
    (h : a.Represents path t) (root : t.rootId = some i) (b : Balanced .red height t)
    (above : BalancedAbove path .black height) (exact : (plugAll path t).ReachExact)
    (enough : path.length < turns) (orphan : IntervalArena w α → Option (IntervalArena w α)) :
    ∃ b, IntervalArena.rebalanceOr orphan turns a i = some b ∧
      b.Represents [] (repairAll path t) := by
  -- each turn goes two nodes up
  induction turns generalizing a path t height i with
  | zero => exact absurd enough (Nat.not_lt_zero _)
  | succ turns ih =>
      obtain ⟨n, read, parent⟩ := h.exists_read root
      simp only [IntervalArena.rebalanceOr, Option.bind_eq_bind, read, Option.bind_some, parent]
      cases path with
      | nil => exact ⟨a, rfl, h⟩
      | cons f rest =>
          have readF := Represents.read (represents_cons.1 h)
          rw [root] at readF
          simp only [headId, List.head?_cons, Option.map_some, readF, Option.bind_some,
            ArenaNode.color_on, ArenaNode.parent_on]
          cases color : f.color with
          | black =>
              -- nothing above needs a repair
              have above : BalancedAbove (f :: rest) .red height := by
                unfold BalancedAbove at above ⊢
                rw [color] at above ⊢
                exact above
              rw [if_pos rfl, repairAll_eq_plugAll b above (reachExact_plugAll.1 exact).2]
              exact ⟨a, rfl, represents_iff.1 h⟩
          | red =>
              rw [if_neg (by decide)]
              cases rest with
              | nil =>
                  -- a root is black
                  unfold BalancedAbove at above
                  rw [color] at above
                  cases above.2.2
              | cons g rest =>
                  have pair := BalancedAbove.redPair b color above exact
                  have readG := Represents.read (represents_cons.1 (represents_cons.1 h))
                  have uncle := (represents_across.1 (represents_cons.1 h)).isRed
                  have sideG := ArenaNode.side_of_child g.side g.color g.sibling.rootId
                    (headId rest) g.range g.value.2 g.reach f.value.1
                    ((represents_cons.1 h).sibling_ne (rootId_nodeOn ..))
                  have readG : a.node? g.value.1 = some (.on g.side g.color (some f.value.1) g.range
                    g.value.2 g.reach g.sibling.rootId (headId rest)) := by
                    rw [readG, Frame.plug, rootId_nodeOn]
                  simp only [List.head?_cons, Option.map_some, readG, Option.bind_some, sideG,
                    ArenaNode.child_other_on, uncle]
                  rw [repairAll, repairAll, pair.settled]
                  rcases pair.repaired with ⟨red, balanced⟩ | ⟨black, balanced⟩
                  · -- the pair is resolved here, and there may be another one above
                    have exact : (plugAll rest (g.plug (f.plug t))).ReachExact := exact
                    have exactG := (reachExact_plugAll.1 exact).1
                    have recolored := Frame.repair_of_red_sibling color b.isRed_eq red exactG
                    obtain ⟨a₁, a₂, a₃, e₁, e₂, e₃, h₃⟩ := h.recolor
                    rw [← recolored] at h₃
                    have root : (g.repair (f.plug t)).rootId = some g.value.1 := by
                      rw [recolored, rootId_nodeOn]
                    rw [List.length_cons, List.length_cons] at enough
                    rw [if_pos red, e₁, Option.bind_some, e₂, Option.bind_some, e₃, Option.bind_some]
                    exact ih h₃ root balanced pair.above pair.exact (by omega)
                  · rw [if_neg (Bool.not_eq_true _ ▸ black),
                      repairAll_eq_plugAll balanced pair.above (reachExact_plugAll.1 pair.exact).2]
                    by_cases same : f.side = g.side
                    · obtain ⟨a₁, a₂, b', e₁, e₂, e₃, h₃⟩ :=
                        h.lift_outer color b.isRed_eq pair.sibling black same
                      rw [same, ArenaNode.child_other_on, if_neg (h.sibling_ne root), e₁,
                        Option.bind_some, e₂, Option.bind_some, e₃]
                      exact ⟨b', rfl, represents_iff.1 h₃⟩
                    · have across := Side.eq_other_of_ne same
                      obtain ⟨a₀, a₁, a₂, b', e₀, e₁, e₂, e₃, h₃⟩ :=
                        h.lift_inner color b root black across
                      rw [across, ArenaNode.child_on, if_pos rfl, e₀, Option.bind_some, e₁,
                        Option.bind_some, e₂, Option.bind_some, e₃]
                      exact ⟨b', rfl, represents_iff.1 h₃⟩

end IntervalArena

end TcpCapture
