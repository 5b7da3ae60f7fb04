import TcpCapture.Proofs.Interval.Rebalancing

/-!
# Insertion into an arena

An arena that consists of a tree consists of one after any insertion: of the tree that
`IntervalTree.insert` makes of it.  So after any history of insertions and clearings an arena consists of
the tree which the same history builds, up to the indexes of its nodes.

## Main definitions

* `IntervalTree.mapValues` — the tree with other values
* `IntervalArena.insertOr` — insertion, whatever the repair does below a red root
* `IntervalArena.ofEdits` — the arena that a history builds
* `IntervalArena.Stands` — an arena consists of a tree in order

**Indexes as values.**  A node's index is carried along as part of its value.  Insertion does not look at
values (`insert_mapValues`), so leaving the indexes out again gives the tree without them.
-/

namespace TcpCapture

namespace IntervalTree

variable {w : Nat} {α β : Type}

/-! ### Values -/

/-- Changes all values. -/
def mapValues (f : α → β) : IntervalTree w α → IntervalTree w β
  | nil => nil
  | .node c l r v p u => .node c (l.mapValues f) r (f v) p (u.mapValues f)

section

variable (f : α → β) (c : Color) (l u t : IntervalTree w α) (r : Range w) (v : α) (p : BitVec w)

theorem toList_mapValues : (t.mapValues f).toList = t.toList.map fun x => (x.1, f x.2) := by
  induction t with
  | nil => rfl
  | node c l r v p u ihl ihu =>
      rw [mapValues, toList, toList, ihl, ihu, List.map_append, List.map_cons]

@[simp] theorem isRed_mapValues : (t.mapValues f).isRed = t.isRed := by
  cases t with
  | nil => rfl
  | node c l r v p u => cases c <;> rfl

@[simp] theorem reach?_mapValues : (t.mapValues f).reach? = t.reach? := by cases t <;> rfl

@[simp] theorem blacken_mapValues : t.blacken.mapValues f = (t.mapValues f).blacken := by
  cases t <;> rfl

@[simp] theorem join_mapValues :
    (join c l r v u).mapValues f = join c (l.mapValues f) r (f v) (u.mapValues f) := by
  unfold join raise
  rw [reach?_mapValues, reach?_mapValues]
  rfl

/-- Repairs do not look at values. -/
theorem joinLeft_mapValues :
    (joinLeft c l r v u).mapValues f = joinLeft c (l.mapValues f) r (f v) (u.mapValues f) := by
  cases l with
  | nil => simp [joinLeft, mapValues]
  | node color outer pr pv m inner =>
      cases color with
      | black => simp [joinLeft, mapValues]
      | red =>
          simp only [joinLeft, mapValues, isRed_mapValues]
          split
          · simp [mapValues]
          · split
            · simp [mapValues]
            · cases inner with
              | nil => simp [mapValues]
              | node color l' r' v' p' u' => cases color <;> simp [mapValues]

theorem joinRight_mapValues :
    (joinRight c l r v u).mapValues f = joinRight c (l.mapValues f) r (f v) (u.mapValues f) := by
  cases u with
  | nil => simp [joinRight, mapValues]
  | node color inner pr pv m outer =>
      cases color with
      | black => simp [joinRight, mapValues]
      | red =>
          simp only [joinRight, mapValues, isRed_mapValues]
          split
          · simp [mapValues]
          · split
            · simp [mapValues]
            · cases inner with
              | nil => simp [mapValues]
              | node color l' r' v' p' u' => cases color <;> simp [mapValues]

theorem insertBelow_mapValues :
    (t.insertBelow r v).mapValues f = (t.mapValues f).insertBelow r (f v) := by
  induction t with
  | nil => rfl
  | node c l range value p u ihl ihu =>
      rw [insertBelow, mapValues, insertBelow]
      split
      · rw [joinLeft_mapValues, ihl]
      · rw [joinRight_mapValues, ihu]

theorem insert_mapValues :
    (t.insert r v).mapValues f = (t.mapValues f).insert r (f v) := by
  rw [insert, blacken_mapValues, insertBelow_mapValues, insert]

end

end IntervalTree

namespace IntervalArena

open IntervalTree

variable {w : Nat} {α : Type} {a : IntervalArena w α} {path : List (Frame w (Nat × α))}
  {t : IntervalTree w (Nat × α)}

/-! ### Insertion -/

/-- The search for a place goes the way down the tree. -/
theorem Represents.descend {turns : Nat} (h : a.Represents path t) (low : BitVec w)
    (enough : t.size < turns) :
    a.descend low turns (placeAt path) t.rootId = some (placeAt (descendTo low path t)) := by
  induction t generalizing path turns with
  | nil =>
      obtain ⟨k, rfl⟩ := Nat.exists_eq_add_of_lt enough
      rfl
  | node c l r v p u ihl ihu =>
      obtain ⟨k, rfl⟩ : ∃ k, turns = k + 1 := ⟨turns - 1, by omega⟩
      have read := Represents.read (s := .left) h
      rw [size] at enough
      show IntervalArena.descend a low (k + 1) (placeAt path) (some v.1) = _
      simp only [IntervalArena.descend, read, Option.bind_eq_bind, Option.bind_some,
        ArenaNode.range_on]
      rw [descendTo]
      split
      · exact ihl (Represents.child (s := .left) h) (by omega)
      · exact ihu (Represents.child (s := .right) h) (by omega)

theorem Represents.size_eq (h : a.Represents [] t) : t.size = a.nodes.size := by
  have size := Holds.size_eq h
  rw [Multiset.card_add, card_cells] at size
  exact size

/-- A new leaf hangs where the search for its place ended. -/
theorem Represents.append (h : a.Represents path nil) (r : Range w) (v : α) :
    ∃ b, IntervalArena.link
        { a with nodes := a.nodes.push (.on .left .red none r v r.high none (headId path)) }
        a.nodes.size (placeAt path) = some b ∧
      b.Represents path (.node .red nil r (a.nodes.size, v) r.high nil) := by
  have pushed := Holds.push h (.on .left .red none r v r.high none (headId path))
  rw [cells, zero_add, rootId, add_comm] at pushed
  obtain ⟨b, linked, holds⟩ := pushed.link a.nodes.size
  refine ⟨b, linked, Holds.congr holds ?_⟩
  rw [cells, add_comm]
  rfl

/-- Insertion, where what the repair of colours does below a red node without a parent is left open. -/
def insertOr (orphan : IntervalArena w α → Option (IntervalArena w α)) (a : IntervalArena w α)
    (range : Range w) (value : α) : Option (IntervalArena w α) := do
  let i := a.nodes.size
  let place ← a.descend range.low (i + 1) none a.root
  let parent := place.map (·.parent)
  let leaf : ArenaNode w α :=
    { range, reach := range.high, value, color := .red, parent, left := none, right := none }
  let a ← { a with nodes := a.nodes.push leaf }.link i place
  let a ← propagate (i + 1) a parent
  let a ← rebalanceOr orphan (i + 1) a i
  a.paint .black a.root

theorem insertOr_some (a : IntervalArena w α) (range : Range w) (value : α) :
    a.insertOr some range value = a.insert range value := by
  simp only [insertOr, insert, rebalanceOr_some]

/-- **Insertion into an arena is insertion into its tree.** -/
theorem Represents.insertOr {height : Nat} (h : a.Represents [] t) (exact : t.ReachExact)
    (balanced : Balanced .black height t) (r : Range w) (v : α)
    (orphan : IntervalArena w α → Option (IntervalArena w α)) :
    ∃ b, a.insertOr orphan r v = some b ∧ b.Represents [] (t.insert r (a.nodes.size, v)) := by
  have bare : a.Represents (descendTo r.low [] t) nil :=
    h.refocus (plugAll_descendTo r.low [] t).symm
  have found : a.descend r.low (a.nodes.size + 1) none a.root =
      some (placeAt (descendTo r.low [] t)) := by
    rw [Holds.root_eq h]
    exact h.descend r.low (h.size_eq ▸ Nat.lt_succ_self _)
  have short : (descendTo r.low [] t).length < a.nodes.size + 1 := by
    have := length_descendTo_le r.low [] t
    rw [List.length_nil, zero_add, h.size_eq] at this
    exact Nat.lt_succ_of_le this
  have reaches : ReachesExact (descendTo r.low [] t) nil :=
    (reachExact_plugAll.1 (plugAll_descendTo r.low [] t ▸ exact)).2
  have root : BalancedAbove ([] : List (Frame w (Nat × α))) .black height := rfl
  have above : BalancedAbove (descendTo r.low [] t) .black 0 := root.descendTo balanced r.low
  generalize way : descendTo r.low [] t = path at bare found short reaches above
  obtain ⟨a₁, e₁, h₁⟩ := bare.append r v
  obtain ⟨a₂, e₂, h₂⟩ := h₁.propagate reaches short
  obtain ⟨a₃, e₃, h₃⟩ := h₂.rebalanceOr rfl (.red .nil .nil) (above.refreshAll _)
    (reachExact_plugAll.2 ⟨⟨rfl, trivial, trivial⟩, reachesExact_refreshAll _ reaches.siblings⟩)
    (length_refreshAll path _ ▸ short) orphan
  rw [repairAll_refreshAll, ← way, repairAll_descendTo, repairAll] at h₃
  obtain ⟨b, e₄, h₄⟩ := h₃.blacken
  refine ⟨b, ?_, h₄⟩
  have parent : (placeAt path).map (·.parent) = headId path := by cases path <;> rfl
  simp only [IntervalArena.insertOr, found, Option.bind_eq_bind, Option.bind_some, parent]
  show (IntervalArena.link { a with nodes := a.nodes.push (.on .left .red none r v r.high none _) }
    _ _).bind _ = _
  rw [e₁, Option.bind_some, e₂, Option.bind_some, e₃, Option.bind_some, Holds.root_eq h₃]
  exact e₄

theorem Represents.insert {height : Nat} (h : a.Represents [] t) (exact : t.ReachExact)
    (balanced : Balanced .black height t) (r : Range w) (v : α) :
    ∃ b, a.insert r v = some b ∧ b.Represents [] (t.insert r (a.nodes.size, v)) := by
  rw [← insertOr_some]
  exact h.insertOr exact balanced r v some

/-! ### Histories -/

/-- The arena after a change, if there is one. -/
def apply (a : IntervalArena w α) : Edit w α → Option (IntervalArena w α)
  | .insert range value => a.insert range value
  | .clear => some a.clear

/-- The arena that a history builds. -/
def ofEdits (edits : List (Edit w α)) : Option (IntervalArena w α) :=
  edits.foldlM IntervalArena.apply {}

theorem ofEdits_concat (edits : List (Edit w α)) (e : Edit w α) :
    ofEdits (edits ++ [e]) = (ofEdits edits).bind (·.apply e) := by
  rw [ofEdits, List.foldlM_append]
  simp only [List.foldlM_cons, List.foldlM_nil, bind_pure]
  rfl

/-- An arena consists of a tree in order, seen from the end of a way. -/
structure Stands (a : IntervalArena w α) (path : List (Frame w (Nat × α)))
    (t : IntervalTree w (Nat × α)) : Prop where
  represents : a.Represents path t
  ordered : t.Ordered
  exact : t.ReachExact

theorem represents_empty : ({} : IntervalArena w α).Represents [] nil where
  root_eq := rfl
  stored := nofun
  distinct := Multiset.nodup_zero
  size_eq := rfl

theorem stands_empty : ({} : IntervalArena w α).Stands [] nil :=
  ⟨represents_empty, ordered_nil, trivial⟩

theorem Stands.insert {height : Nat} (h : a.Stands [] t) (balanced : Balanced .black height t)
    (r : Range w) (v : α) :
    ∃ b, a.insert r v = some b ∧ b.Stands [] (t.insert r (a.nodes.size, v)) := by
  obtain ⟨b, inserted, represents⟩ := h.represents.insert h.exact balanced r v
  exact ⟨b, inserted, represents, h.ordered.insert r _, h.exact.insert r _⟩

/-- Every history builds an arena, and that consists of the tree which the history builds. -/
theorem exists_stands (edits : List (Edit w α)) :
    ∃ a t, ofEdits edits = some a ∧ a.Stands [] t ∧ (∃ height, Balanced .black height t) ∧
      t.mapValues Prod.snd = IntervalTree.ofEdits edits := by
  induction edits using List.reverseRecOn with
  | nil => exact ⟨{}, nil, rfl, stands_empty, ⟨0, .nil⟩, rfl⟩
  | append_singleton edits e ih =>
      obtain ⟨a, t, built, stands, ⟨height, balanced⟩, values⟩ := ih
      rw [ofEdits_concat, IntervalTree.ofEdits_concat, built, Option.bind_some, ← values]
      cases e with
      | insert range value =>
          obtain ⟨b, inserted, stands'⟩ := stands.insert balanced range value
          exact ⟨b, _, inserted, stands', balanced.insert range _,
            insert_mapValues Prod.snd t range (a.nodes.size, value)⟩
      | clear => exact ⟨{}, nil, rfl, stands_empty, ⟨0, .nil⟩, rfl⟩

end IntervalArena

end TcpCapture
