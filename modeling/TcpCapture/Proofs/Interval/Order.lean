import Mathlib.Data.List.Induction
import Mathlib.Data.List.Sort
import TcpCapture.Interval.Tree

/-!
# What insertion keeps of an interval tree

Two facts about a tree make its search work, and insertion keeps both of them through every
recolouring and rotation.

## Main definitions

* `Ordered` — the ranges are in the order of their low ends
* `ReachExact` — every node knows the highest point of its subtree
* `Edit`, `ofEdits`, `inserted` — a history of changes, the tree it builds, and what that tree holds

**One equation for insertion.** `toList_insert` says where a new range goes: behind all ranges with
the same or a lower low end, and in front of the others.  Order is a corollary of it.
-/

namespace TcpCapture

namespace Range

variable {w : Nat}

theorem le_higher_left (x y : BitVec w) : x ≤ higher x y := by
  unfold higher
  split
  · assumption
  · exact BitVec.le_refl x

theorem le_higher_right (x y : BitVec w) : y ≤ higher x y := by
  unfold higher
  split
  · exact BitVec.le_refl y
  · rename_i h
    exact (BitVec.le_total x y).resolve_left h

end Range

namespace IntervalTree

variable {w : Nat} {α : Type}

/-! ### Order -/

/-- The first range starts below the second. -/
def startsBelow (x y : Range w × α) : Prop := x.1.low < y.1.low

instance : DecidableRel (startsBelow (w := w) (α := α)) := fun x y =>
  inferInstanceAs (Decidable (x.1.low < y.1.low))

/-- From left to right the low ends never fall. -/
def Ordered (t : IntervalTree w α) : Prop :=
  t.toList.Pairwise fun x y => x.1.low ≤ y.1.low

theorem ordered_nil : (nil : IntervalTree w α).Ordered := List.Pairwise.nil

/-- An ordered node: both subtrees are ordered, and the node stands between them. -/
theorem ordered_node {c : Color} {l u : IntervalTree w α} {r : Range w} {a : α} {p : BitVec w} :
    (node c l r a p u).Ordered ↔
      l.Ordered ∧ u.Ordered ∧ (∀ x ∈ l.toList, x.1.low ≤ r.low) ∧
        ∀ y ∈ u.toList, r.low ≤ y.1.low := by
  unfold Ordered
  rw [toList, List.pairwise_append, List.pairwise_cons]
  constructor
  · rintro ⟨hl, ⟨hru, hu⟩, hlu⟩
    exact ⟨hl, hu, fun x hx => hlu x hx (r, a) List.mem_cons_self, hru⟩
  · rintro ⟨hl, hu, hlr, hru⟩
    refine ⟨hl, ⟨hru, hu⟩, ?_⟩
    intro x hx y hy
    rcases List.mem_cons.1 hy with rfl | hy
    · exact hlr x hx
    · exact BitVec.le_trans (hlr x hx) (hru y hy)

/-- What starts below the first element of a tail is inserted in front of that tail. -/
theorem orderedInsert_append_of_startsBelow {x y : Range w × α} (h : startsBelow x y)
    (front tail : List (Range w × α)) :
    (front ++ y :: tail).orderedInsert startsBelow x =
      front.orderedInsert startsBelow x ++ y :: tail := by
  induction front with
  | nil => simp [List.orderedInsert, h]
  | cons z front ih =>
      rw [List.cons_append, List.orderedInsert, List.orderedInsert]
      split
      · rfl
      · rw [ih, List.cons_append]

/-- Insertion passes by everything that does not start above. -/
theorem orderedInsert_append_of_le {x : Range w × α} {front : List (Range w × α)}
    (h : ∀ y ∈ front, y.1.low ≤ x.1.low) (tail : List (Range w × α)) :
    (front ++ tail).orderedInsert startsBelow x = front ++ tail.orderedInsert startsBelow x := by
  induction front with
  | nil => rfl
  | cons y front ih =>
      have hy : ¬ startsBelow x y := BitVec.not_lt.2 (h y List.mem_cons_self)
      rw [List.cons_append, List.orderedInsert, if_neg hy,
        ih fun z hz => h z (List.mem_cons_of_mem y hz), List.cons_append]

/-- The place insertion finds below the root: behind all ranges that do not start above. -/
theorem toList_insertBelow {t : IntervalTree w α} (ordered : t.Ordered) (r : Range w) (a : α) :
    (t.insertBelow r a).toList = t.toList.orderedInsert startsBelow (r, a) := by
  induction t with
  | nil => rfl
  | node c left range value reach right ihl ihr =>
      obtain ⟨hl, hr, hlr, -⟩ := ordered_node.1 ordered
      rw [insertBelow, toList]
      split
      · rename_i below
        rw [toList_joinLeft, ihl hl]
        exact (orderedInsert_append_of_startsBelow
          (show startsBelow (r, a) (range, value) from below) _ _).symm
      · rename_i above
        have hle : range.low ≤ r.low := BitVec.not_lt.1 above
        rw [toList_joinRight, ihr hr,
          orderedInsert_append_of_le fun x hx => BitVec.le_trans (hlr x hx) hle,
          List.orderedInsert, if_neg (show ¬ startsBelow (r, a) (range, value) from above)]

/-- A new range goes behind all ranges that do not start above it. -/
theorem toList_insert {t : IntervalTree w α} (ordered : t.Ordered) (r : Range w) (a : α) :
    (t.insert r a).toList = t.toList.orderedInsert startsBelow (r, a) := by
  rw [insert, toList_blacken, toList_insertBelow ordered]

theorem pairwise_orderedInsert {l : List (Range w × α)} (x : Range w × α)
    (h : l.Pairwise fun y z => y.1.low ≤ z.1.low) :
    (l.orderedInsert startsBelow x).Pairwise fun y z => y.1.low ≤ z.1.low := by
  induction l with
  | nil => exact List.pairwise_singleton _ x
  | cons y rest ih =>
      obtain ⟨hy, hrest⟩ := List.pairwise_cons.1 h
      rw [List.orderedInsert]
      split
      · rename_i below
        have hxy : x.1.low ≤ y.1.low := BitVec.le_of_lt below
        refine List.pairwise_cons.2 ⟨?_, h⟩
        intro z hz
        rcases List.mem_cons.1 hz with rfl | hz
        · exact hxy
        · exact BitVec.le_trans hxy (hy z hz)
      · rename_i above
        refine List.pairwise_cons.2 ⟨?_, ih hrest⟩
        intro z hz
        rcases (List.mem_orderedInsert _).1 hz with rfl | hz
        · exact BitVec.not_lt.1 above
        · exact hy z hz

theorem Ordered.insert {t : IntervalTree w α} (ordered : t.Ordered) (r : Range w) (a : α) :
    (t.insert r a).Ordered := by
  rw [Ordered, toList_insert ordered]
  exact pairwise_orderedInsert (r, a) ordered

/-! ### Reach -/

/-- Every node holds the reach its range and its subtrees imply. -/
def ReachExact : IntervalTree w α → Prop
  | nil => True
  | node _ left range _ reach right =>
      reach = raise (raise range.high left) right ∧ left.ReachExact ∧ right.ReachExact

/-- `join` computes the reach, so exact subtrees are all it needs. -/
theorem ReachExact.join {left right : IntervalTree w α} (hl : left.ReachExact)
    (hr : right.ReachExact) (c : Color) (r : Range w) (a : α) :
    (join c left r a right).ReachExact := ⟨rfl, hl, hr⟩

theorem ReachExact.blacken {t : IntervalTree w α} (h : t.ReachExact) : t.blacken.ReachExact := by
  cases t with
  | nil => trivial
  | node c left range value reach right => exact h

/-- Each outcome of a repair on the left is built by `join` from subtrees that stood there before. -/
theorem ReachExact.joinLeft {left right : IntervalTree w α} (hl : left.ReachExact)
    (hr : right.ReachExact) (c : Color) (r : Range w) (a : α) :
    (joinLeft c left r a right).ReachExact := by
  unfold IntervalTree.joinLeft
  split
  · rename_i outer pr pv reach inner
    -- nothing to repair, a recolouring, two rotations, or one
    obtain ⟨-, ho, hi⟩ := id hl
    split
    · exact hl.join hr c r a
    · split
      · exact hl.blacken.join hr.blacken _ r a
      · split
        · obtain ⟨-, hi₁, hi₂⟩ := hi
          exact (ho.join hi₁ _ pr pv).join (hi₂.join hr _ r a) _ _ _
        · exact ho.join (hi.join hr _ r a) _ pr pv
  · exact hl.join hr c r a

theorem ReachExact.joinRight {left right : IntervalTree w α} (hl : left.ReachExact)
    (hr : right.ReachExact) (c : Color) (r : Range w) (a : α) :
    (joinRight c left r a right).ReachExact := by
  unfold IntervalTree.joinRight
  split
  · rename_i inner pr pv reach outer
    obtain ⟨-, hi, ho⟩ := id hr
    split
    · exact hl.join hr c r a
    · split
      · exact hl.blacken.join hr.blacken _ r a
      · split
        · obtain ⟨-, hi₁, hi₂⟩ := hi
          exact (hl.join hi₁ _ r a).join (hi₂.join ho _ pr pv) _ _ _
        · exact (hl.join hi _ r a).join ho _ pr pv
  · exact hl.join hr c r a

theorem ReachExact.insertBelow {t : IntervalTree w α} (h : t.ReachExact) (r : Range w) (a : α) :
    (t.insertBelow r a).ReachExact := by
  induction t with
  | nil => exact ⟨rfl, trivial, trivial⟩
  | node c left range value reach right ihl ihr =>
      obtain ⟨-, hl, hr⟩ := h
      rw [IntervalTree.insertBelow]
      split
      · exact (ihl hl).joinLeft hr c range value
      · exact hl.joinRight (ihr hr) c range value

theorem ReachExact.insert {t : IntervalTree w α} (h : t.ReachExact) (r : Range w) (a : α) :
    (t.insert r a).ReachExact := (h.insertBelow r a).blacken

theorem le_raise (p : BitVec w) (t : IntervalTree w α) : p ≤ raise p t := by
  unfold raise
  split
  · exact BitVec.le_refl p
  · exact Range.le_higher_left p _

theorem reach_le_raise {t : IntervalTree w α} {q : BitVec w} (h : t.reach? = some q)
    (p : BitVec w) : q ≤ raise p t := by
  rw [raise, h]
  exact Range.le_higher_right p q

/-- No range of a tree ends above its reach. -/
theorem ReachExact.high_le {t : IntervalTree w α} (h : t.ReachExact) {x : Range w × α}
    (mem : x ∈ t.toList) : ∃ q, t.reach? = some q ∧ x.1.high ≤ q := by
  induction t with
  | nil => cases mem
  | node c left range value reach right ihl ihr =>
      obtain ⟨hreach, hl, hr⟩ := h
      refine ⟨reach, rfl, ?_⟩
      rw [hreach]
      -- the reach is raised twice: over the left subtree, then over the right one
      rcases List.mem_append.1 mem with mem | mem
      · obtain ⟨q, hq, hle⟩ := ihl hl mem
        exact BitVec.le_trans hle (BitVec.le_trans (reach_le_raise hq _) (le_raise _ right))
      · rcases List.mem_cons.1 mem with rfl | mem
        · exact BitVec.le_trans (le_raise _ left) (le_raise _ right)
        · obtain ⟨q, hq, hle⟩ := ihr hr mem
          exact BitVec.le_trans hle (reach_le_raise hq _)

theorem raise_cases (p : BitVec w) (t : IntervalTree w α) :
    raise p t = p ∨ t.reach? = some (raise p t) := by
  unfold raise
  split
  · exact Or.inl rfl
  · rename_i q reach
    unfold Range.higher
    split
    · exact Or.inr reach
    · exact Or.inl rfl

/-- Some range ends where the tree reaches. -/
theorem ReachExact.exists_high {t : IntervalTree w α} (h : t.ReachExact) {q : BitVec w}
    (reach : t.reach? = some q) : ∃ x ∈ t.toList, x.1.high = q := by
  induction t generalizing q with
  | nil => cases reach
  | node c left range value p right ihl ihr =>
      obtain ⟨implied, hl, hr⟩ := h
      obtain rfl := Option.some.inj reach
      -- the reach is that of the right subtree, that of the left one, or the node's own end
      rcases raise_cases (raise range.high left) right with same | there
      · rcases raise_cases range.high left with own | there
        · refine ⟨(range, value), List.mem_append_right _ List.mem_cons_self, ?_⟩
          rw [implied, same, own]
        · obtain ⟨x, mem, high⟩ := ihl hl there
          refine ⟨x, List.mem_append_left _ mem, ?_⟩
          rw [implied, same, high]
      · obtain ⟨x, mem, high⟩ := ihr hr there
        refine ⟨x, List.mem_append_right _ (List.mem_cons_of_mem _ mem), ?_⟩
        rw [implied, high]

/-- What a tree reaches depends on its ranges alone. -/
theorem ReachExact.reach?_congr {t u : IntervalTree w α} (ht : t.ReachExact) (hu : u.ReachExact)
    (same : t.toList = u.toList) : t.reach? = u.reach? := by
  cases reach : t.reach? with
  | none =>
      cases t with
      | nil =>
          cases u with
          | nil => rfl
          | node c l r v p u => exact absurd same.symm (by simp [toList])
      | node c l r v p u => cases reach
  | some q =>
      obtain ⟨x, mem, rfl⟩ := ht.exists_high reach
      obtain ⟨q', reach', above⟩ := hu.high_le (same ▸ mem)
      obtain ⟨y, mem', rfl⟩ := hu.exists_high reach'
      obtain ⟨q, again, above'⟩ := ht.high_le (same ▸ mem')
      obtain rfl := Option.some.inj (reach.symm.trans again)
      rw [reach', BitVec.le_antisymm above above']

/-! ### Histories -/

/-- One change of a tree. -/
inductive Edit (w : Nat) (α : Type) where
  | insert (range : Range w) (value : α)
  | clear

/-- The tree after a change. -/
def Edit.apply (t : IntervalTree w α) : Edit w α → IntervalTree w α
  | insert range value => t.insert range value
  | clear => nil

/-- What is held after a change of a tree that held these pairs. -/
def Edit.keep (held : List (Range w × α)) : Edit w α → List (Range w × α)
  | insert range value => held ++ [(range, value)]
  | clear => []

/-- The tree a history builds. -/
def ofEdits (edits : List (Edit w α)) : IntervalTree w α := edits.foldl Edit.apply nil

/-- The pairs inserted since the last `clear`, in the order of their insertion. -/
def inserted (edits : List (Edit w α)) : List (Range w × α) := edits.foldl Edit.keep []

theorem ofEdits_concat (edits : List (Edit w α)) (e : Edit w α) :
    ofEdits (edits ++ [e]) = e.apply (ofEdits edits) := by
  rw [ofEdits, List.foldl_append]
  rfl

theorem inserted_concat (edits : List (Edit w α)) (e : Edit w α) :
    inserted (edits ++ [e]) = e.keep (inserted edits) := by
  rw [inserted, List.foldl_append]
  rfl

theorem ordered_ofEdits (edits : List (Edit w α)) : (ofEdits edits).Ordered := by
  induction edits using List.reverseRecOn with
  | nil => exact ordered_nil
  | append_singleton edits e ih =>
      rw [ofEdits_concat]
      cases e with
      | insert range value => exact ih.insert range value
      | clear => exact ordered_nil

theorem reachExact_ofEdits (edits : List (Edit w α)) : (ofEdits edits).ReachExact := by
  induction edits using List.reverseRecOn with
  | nil => trivial
  | append_singleton edits e ih =>
      rw [ofEdits_concat]
      cases e with
      | insert range value => exact ih.insert range value
      | clear => trivial

/-- The tree holds each inserted pair as often as it was inserted, and nothing else. -/
theorem toList_ofEdits_perm (edits : List (Edit w α)) :
    (ofEdits edits).toList.Perm (inserted edits) := by
  induction edits using List.reverseRecOn with
  | nil => exact List.Perm.refl _
  | append_singleton edits e ih =>
      rw [ofEdits_concat, inserted_concat]
      cases e with
      | insert range value =>
          rw [Edit.apply, toList_insert (ordered_ofEdits edits)]
          exact ((List.perm_orderedInsert _ _ _).trans (ih.cons _)).trans
            (List.perm_append_singleton _ _).symm
      | clear => exact List.Perm.refl _

end IntervalTree

end TcpCapture
