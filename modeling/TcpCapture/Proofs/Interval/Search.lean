import TcpCapture.Proofs.Interval.Order

/-!
# Search by overlap

The search of an interval tree leaves out a subtree that ends before the query begins, and the right
subtree of a node that starts after the query ends.  It misses nothing that way: what it finds is
what a look at every range would find.

**Where the invariants enter.**  The first cut rests on `ReachExact`, the second on `Ordered`;
`overlapping_perm` is the only place that uses either.
-/

namespace TcpCapture

namespace IntervalTree

variable {w : Nat} {α : Type}

/-- A tree that ends before the query begins holds nothing that overlaps it. -/
theorem filter_overlaps_of_reach_lt {t : IntervalTree w α} (exact : t.ReachExact)
    {reach : BitVec w} (hreach : t.reach? = some reach) {query : Range w}
    (before : reach < query.low) : t.toList.filter (fun x => x.1.overlaps query) = [] := by
  rw [List.filter_eq_nil_iff]
  intro x mem overlap
  obtain ⟨q, hq, hle⟩ := exact.high_le mem
  rw [hreach] at hq
  cases hq
  have hlow : query.low ≤ x.1.high := ((Range.overlaps_iff _ _).1 overlap).2
  exact BitVec.not_lt.2 (BitVec.le_trans hlow hle) before

/-- Ranges that all start after the query ends do not overlap it. -/
theorem filter_overlaps_of_low_gt {l : List (Range w × α)} {query : Range w}
    (behind : ∀ x ∈ l, query.high < x.1.low) : l.filter (fun x => x.1.overlaps query) = [] := by
  rw [List.filter_eq_nil_iff]
  intro x mem overlap
  exact BitVec.not_lt.2 ((Range.overlaps_iff _ _).1 overlap).1 (behind x mem)

/-- **The search finds what a look at every range finds**, in an order of its own. -/
theorem overlapping_perm {t : IntervalTree w α} (ordered : t.Ordered) (exact : t.ReachExact)
    (query : Range w) :
    (t.overlapping query).Perm (t.toList.filter fun x => x.1.overlaps query) := by
  induction t with
  | nil => exact List.Perm.refl _
  | node c left range value reach right ihl ihr =>
      obtain ⟨hl, hr, -, hru⟩ := ordered_node.1 ordered
      rw [overlapping]
      split
      · rename_i before
        rw [filter_overlaps_of_reach_lt exact rfl before]
      · -- the search puts the node's own range first, the list has it in the middle
        have hright : (if range.low ≤ query.high then right.overlapping query else []).Perm
            (right.toList.filter fun x => x.1.overlaps query) := by
          split
          · exact ihr hr exact.2.2
          · rename_i after
            rw [filter_overlaps_of_low_gt fun x mem => BitVec.not_le.1 fun h =>
              after (BitVec.le_trans (hru x mem) h)]
        have hnode : (if range.overlaps query then [(range, value)] else []) =
            [(range, value)].filter fun x => x.1.overlaps query := by
          rw [List.filter_singleton, Bool.cond_eq_ite]
        rw [toList, List.append_cons, List.filter_append, List.filter_append, hnode]
        exact (List.perm_append_comm.trans ((ihl hl exact.2.1).append_right _)).append hright

/-- What a search of a tree with a history meets. -/
theorem overlapping_ofEdits_perm (edits : List (Edit w α)) (query : Range w) :
    ((ofEdits edits).overlapping query).Perm
      ((inserted edits).filter fun x => x.1.overlaps query) :=
  (overlapping_perm (ordered_ofEdits edits) (reachExact_ofEdits edits) query).trans
    ((toList_ofEdits_perm edits).filter _)

theorem mem_overlapping_ofEdits {edits : List (Edit w α)} {query : Range w} {x : Range w × α} :
    x ∈ (ofEdits edits).overlapping query ↔ x ∈ inserted edits ∧ x.1.overlaps query = true := by
  rw [(overlapping_ofEdits_perm edits query).mem_iff, List.mem_filter]

/-- The first hit is one of the hits. -/
theorem mem_overlapping_of_find? {t : IntervalTree w α} {query : Range w} {x : Range w × α}
    (h : t.find? query = some x) : x ∈ t.overlapping query := List.mem_of_head? h

/-- There is a first hit as soon as there is any. -/
theorem isSome_find?_iff {t : IntervalTree w α} {query : Range w} :
    (t.find? query).isSome = true ↔ ∃ x, x ∈ t.overlapping query := by
  rw [find?, List.isSome_head?]
  exact ⟨List.exists_mem_of_ne_nil _, fun ⟨_, mem⟩ => List.ne_nil_of_mem mem⟩

theorem findAll_perm_overlapping (t : IntervalTree w α) (query : Range w) :
    (t.findAll query).Perm (t.overlapping query) := List.mergeSort_perm _ _

theorem pairwise_findAll (t : IntervalTree w α) (query : Range w) :
    (t.findAll query).Pairwise fun x y => x.1.low ≤ y.1.low := by
  have sorted : (t.findAll query).Pairwise fun x y => decide (x.1.low ≤ y.1.low) = true := by
    refine List.pairwise_mergeSort ?_ ?_ _
    · intro x y z hxy hyz
      simp only [decide_eq_true_eq] at hxy hyz ⊢
      exact BitVec.le_trans hxy hyz
    · intro x y
      simp only [Bool.or_eq_true, decide_eq_true_eq]
      exact BitVec.le_total x.1.low y.1.low
  exact sorted.imp of_decide_eq_true

/-! ### Trees that can be searched -/

/-- The two facts that searches rely on. -/
structure WellFormed (t : IntervalTree w α) : Prop where
  ordered : t.Ordered
  reachExact : t.ReachExact

theorem wellFormed_nil : (nil : IntervalTree w α).WellFormed := ⟨ordered_nil, trivial⟩

namespace WellFormed

variable {t : IntervalTree w α}

theorem insert (h : t.WellFormed) (r : Range w) (a : α) : (t.insert r a).WellFormed :=
  ⟨h.ordered.insert r a, h.reachExact.insert r a⟩

theorem mem_insert (h : t.WellFormed) {r : Range w} {a : α} {x : Range w × α} :
    x ∈ (t.insert r a).toList ↔ x = (r, a) ∨ x ∈ t.toList := by
  rw [toList_insert h.ordered, List.mem_orderedInsert]

theorem mem_overlapping (h : t.WellFormed) {query : Range w} {x : Range w × α} :
    x ∈ t.overlapping query ↔ x ∈ t.toList ∧ x.1.overlaps query = true := by
  rw [(overlapping_perm h.ordered h.reachExact query).mem_iff, List.mem_filter]

theorem mem_findAll (h : t.WellFormed) {query : Range w} {x : Range w × α} :
    x ∈ t.findAll query ↔ x ∈ t.toList ∧ x.1.overlaps query = true := by
  rw [(findAll_perm_overlapping t query).mem_iff, h.mem_overlapping]

/-- A point is found exactly when some range contains it. -/
theorem isSome_findPoint?_iff (h : t.WellFormed) {p : BitVec w} :
    (t.findPoint? p).isSome = true ↔ ∃ x ∈ t.toList, x.1.contains p = true := by
  rw [findPoint?, isSome_find?_iff]
  exact exists_congr fun x => h.mem_overlapping

end WellFormed

/-- A range overlaps the range of one point exactly when it contains the point. -/
theorem overlaps_point (r : Range w) (p : BitVec w) : r.overlaps (.point p) = r.contains p := rfl

/-- **Search is exact**, whatever was inserted and cleared before: `findAll` yields every pair
inserted since the last `clear` whose range overlaps the query, as often as it was inserted and in
the order of the low ends; `find?` yields one of them, and `findPoint?` one whose range contains the
point, unless there is none. -/
theorem search_exact (edits : List (Edit w α)) (query : Range w) (p : BitVec w) :
    ((ofEdits edits).findAll query).Perm
        ((inserted edits).filter fun x => x.1.overlaps query) ∧
      ((ofEdits edits).findAll query).Pairwise (fun x y => x.1.low ≤ y.1.low) ∧
      (∀ x, (ofEdits edits).find? query = some x →
        x ∈ inserted edits ∧ x.1.overlaps query = true) ∧
      (((ofEdits edits).find? query).isSome = true ↔
        ∃ x ∈ inserted edits, x.1.overlaps query = true) ∧
      (∀ x, (ofEdits edits).findPoint? p = some x →
        x ∈ inserted edits ∧ x.1.contains p = true) ∧
      (((ofEdits edits).findPoint? p).isSome = true ↔
        ∃ x ∈ inserted edits, x.1.contains p = true) := by
  refine ⟨(findAll_perm_overlapping _ query).trans (overlapping_ofEdits_perm edits query),
    pairwise_findAll _ query, ?_, ?_, ?_, ?_⟩
  · intro x h
    exact mem_overlapping_ofEdits.1 (mem_overlapping_of_find? h)
  · rw [isSome_find?_iff]
    exact exists_congr fun x => mem_overlapping_ofEdits
  · intro x h
    rw [← overlaps_point]
    exact mem_overlapping_ofEdits.1 (mem_overlapping_of_find? h)
  · rw [findPoint?, isSome_find?_iff]
    exact exists_congr fun x => mem_overlapping_ofEdits

end IntervalTree

end TcpCapture
