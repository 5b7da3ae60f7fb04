import TcpCapture.Proofs.Interval.Arena

/-!
# Iteration over an arena

Iteration goes through an arena from left to right.  That is the order of the low ends, and among equal
ones the order of insertion, so iteration sorts what was inserted and is stable.

## Main definitions

* `IntervalArena.Gives` — what a stack of an iteration has to give
* `IntervalArena.Represents.toList?_eq` — an iteration gives what the tree of the arena reads as
* `IntervalTree.filter_ofEdits` — ranges that begin together stand in the order of their insertion

**A stack is a list of subtrees.**  A node on the stack stands for itself and its right subtree; its left
one lies above it on the stack or was given already.
-/

namespace TcpCapture

namespace IntervalTree

variable {w : Nat} {α : Type}

/-! ### Stability -/

/-- A range goes behind those that begin where it does. -/
theorem filter_orderedInsert {x : Range w × α} {l : List (Range w × α)}
    (sorted : l.Pairwise fun y z => y.1.low ≤ z.1.low) (p : BitVec w) :
    (l.orderedInsert startsBelow x).filter (fun y => decide (y.1.low = p)) =
      (l ++ [x]).filter fun y => decide (y.1.low = p) := by
  induction l with
  | nil => rfl
  | cons y rest ih =>
      obtain ⟨lowest, sorted⟩ := List.pairwise_cons.1 sorted
      rw [List.orderedInsert]
      split
      · rename_i below
        -- nothing from here on begins where `x` does
        have apart : ∀ z ∈ y :: rest, x.1.low ≠ z.1.low := by
          intro z mem same
          have above : y.1.low ≤ z.1.low := by
            rcases List.mem_cons.1 mem with rfl | mem
            · exact BitVec.le_refl _
            · exact lowest z mem
          exact BitVec.not_le.2 below (same ▸ above)
        by_cases own : x.1.low = p
        · have none : (y :: rest).filter (fun z => decide (z.1.low = p)) = [] := by
            rw [List.filter_eq_nil_iff]
            intro z mem
            rw [decide_eq_true_eq, ← own]
            exact fun same => apart z mem same.symm
          rw [List.filter_append, none, List.filter_cons, none]
          simp [own]
        · rw [List.filter_append, List.filter_cons]
          simp [own]
      · rw [List.filter_cons, List.cons_append, List.filter_cons, ih sorted]

/-- Ranges that begin together stand in the order of their insertion. -/
theorem filter_ofEdits (edits : List (Edit w α)) (p : BitVec w) :
    (ofEdits edits).toList.filter (fun x => decide (x.1.low = p)) =
      (inserted edits).filter fun x => decide (x.1.low = p) := by
  induction edits using List.reverseRecOn with
  | nil => rfl
  | append_singleton edits e ih =>
      rw [ofEdits_concat, inserted_concat]
      cases e with
      | insert range value =>
          rw [Edit.apply, Edit.keep, toList_insert (ordered_ofEdits edits),
            filter_orderedInsert (ordered_ofEdits edits), List.filter_append, List.filter_append, ih]
      | clear => rfl

end IntervalTree

namespace IntervalArena

open IntervalTree

variable {w : Nat} {α : Type} {a : IntervalArena w α} {path : List (Frame w (Nat × α))}
  {t : IntervalTree w (Nat × α)} {stack : List Nat} {rest : List (Range w × α)}

/-! ### Stacks -/

/-- The ranges and values of a tree whose values carry indexes. -/
def contents (t : IntervalTree w (Nat × α)) : List (Range w × α) := (t.mapValues Prod.snd).toList

/-- A stack gives, for each of its nodes, the node and what hangs on its right. -/
inductive Gives (a : IntervalArena w α) : List Nat → List (Range w × α) → Prop
  | nil : Gives a [] []
  | cons {path : List (Frame w (Nat × α))} {c : Color} {l u : IntervalTree w (Nat × α)} {r : Range w}
      {v : Nat × α} {p : BitVec w} {stack : List Nat} {rest : List (Range w × α)}
      (node : a.Represents path (.node c l r v p u)) (below : Gives a stack rest) :
      Gives a (v.1 :: stack) ((r, v.2) :: (contents u ++ rest))

/-- A subtree that is stacked gives all it holds. -/
theorem Represents.stackLeft {turns : Nat} (h : a.Represents path t) (gives : a.Gives stack rest)
    (enough : t.size < turns) :
    ∃ stack', a.stackLeft turns stack t.rootId = some stack' ∧
      a.Gives stack' (contents t ++ rest) := by
  induction t generalizing path stack rest turns with
  | nil =>
      obtain ⟨k, rfl⟩ := Nat.exists_eq_add_of_lt enough
      exact ⟨stack, rfl, gives⟩
  | node c l r v p u ihl ihu =>
      obtain ⟨k, rfl⟩ : ∃ k, turns = k + 1 := ⟨turns - 1, by omega⟩
      rw [size] at enough
      have lower : l.size < k := by omega
      obtain ⟨stack', stacked, gives'⟩ := ihl (Represents.child (s := .left) h) (gives.cons h) lower
      refine ⟨stack', ?_, ?_⟩
      · show (a.node? v.1).bind (fun n => a.stackLeft k (v.1 :: stack) n.left) = _
        rw [Represents.read (s := .left) h]
        exact stacked
      · have same : contents (.node c l r v p u) ++ rest =
            contents l ++ ((r, v.2) :: (contents u ++ rest)) := List.append_assoc ..
        rw [same]
        exact gives'

/-- No subtree is larger than the arena. -/
theorem Represents.size_le (h : a.Represents path t) : t.size ≤ a.nodes.size := by
  have size := Holds.size_eq h
  rw [Multiset.card_add, card_cells] at size
  omega

/-- A step takes the first that a stack has to give. -/
theorem Gives.next? {i : Nat} (gives : a.Gives (i :: stack) rest) :
    ∃ x stack' rest', a.next? (i :: stack) = some (some (x, stack')) ∧ rest = x :: rest' ∧
      a.Gives stack' rest' := by
  cases gives with
  | @cons path c l u r v p _ rest node below =>
      have right := Represents.child (s := .right) node
      obtain ⟨stack', stacked, gives'⟩ := right.stackLeft below (Nat.lt_succ_of_le right.size_le)
      refine ⟨_, stack', _, ?_, rfl, gives'⟩
      show (a.node? v.1).bind (fun n => (a.stackLeft (a.nodes.size + 1) stack n.right).bind
        fun stack => some (some ((n.range, n.value), stack))) = _
      rw [Represents.read (s := .left) node, Option.bind_some]
      show (a.stackLeft (a.nodes.size + 1) stack u.rootId).bind _ = _
      rw [stacked]
      rfl

theorem Gives.iterate {turns : Nat} (gives : a.Gives stack rest) (enough : rest.length < turns) :
    a.iterate turns stack = some rest := by
  induction turns generalizing stack rest with
  | zero => exact absurd enough (Nat.not_lt_zero _)
  | succ turns ih =>
      cases stack with
      | nil =>
          cases gives
          rfl
      | cons i stack =>
          obtain ⟨x, stack', rest', taken, rfl, gives'⟩ := gives.next?
          rw [List.length_cons] at enough
          simp only [IntervalArena.iterate, taken, Option.bind_eq_bind, Option.bind_some,
            ih gives' (Nat.lt_of_succ_lt_succ enough)]
          rfl

/-- **Iteration reads the tree from left to right.** -/
theorem Represents.toList?_eq (h : a.Represents [] t) : a.toList? = some (contents t) := by
  obtain ⟨stack, stacked, gives⟩ := h.stackLeft .nil (Nat.lt_succ_of_le h.size_le)
  rw [List.append_nil] at gives
  have length : (contents t).length < a.nodes.size + 1 := by
    rw [contents, toList_mapValues, List.length_map, length_toList, h.size_eq]
    exact Nat.lt_succ_self _
  unfold IntervalArena.toList?
  rw [Holds.root_eq h]
  show (a.stackLeft (a.nodes.size + 1) [] t.rootId).bind _ = _
  rw [stacked]
  exact gives.iterate length

/-! ### Histories -/

/-- **Iteration is a stable sort.**  After any history it comes to an end; it gives each pair as often as
it was inserted since the arena was cleared last, and nothing else; the low ends never fall; and pairs
with the same low end come in the order of their insertion. -/
theorem toList?_ofEdits (edits : List (Edit w α)) :
    ∃ a given, ofEdits edits = some a ∧ a.toList? = some given ∧ given.Perm (inserted edits) ∧
      given.Pairwise (fun x y => x.1.low ≤ y.1.low) ∧
      ∀ p, given.filter (fun x => decide (x.1.low = p)) =
        (inserted edits).filter fun x => decide (x.1.low = p) := by
  obtain ⟨a, t, built, stands, -, values⟩ := exists_stands edits
  refine ⟨a, (IntervalTree.ofEdits edits).toList, built, ?_, toList_ofEdits_perm edits,
    ordered_ofEdits edits, filter_ofEdits edits⟩
  rw [stands.represents.toList?_eq, contents, values]

end IntervalArena

end TcpCapture
