import TcpCapture.Proofs.Multipath.Ownership

/-!
# What a mapping elsewhere does to a stretch

A mapping that shares no byte with a stretch takes none of its bytes.  It may still decide between the
mappings that do: the tree is rebalanced around the new node, a search then meets those that start
together in another order, and the first one met owns their bytes.

## Main definitions

* `SubflowMappings.Cover.Solid` — no piece and no gap is empty
* `Bystander` — some calls, a stretch of bytes, and a mapping that has none of them
* `Bystander.Local` — the mapping makes no difference to the stretch
* `Bystander.Displaced` — a byte whose owner is exchanged for another one that starts where it does

**Two covers, one set of bytes.**  Both searches return the same mappings.  So the same bytes have an owner
before and after, and owners start at the same places; only who comes first among equals is open.
-/

namespace TcpCapture

namespace SubflowMappings

variable {query : Range 32} {l l' : List (Range 32 × MappingTarget)} {cursor : Nat}
  {m m' : SubflowMappings}

/-! ### The pieces of a cover -/

/-- The pieces along the mappings stand in order, and each starts at a byte that has an owner. -/
theorem Hits.found_sorted (hits : Hits query l) (begun : query.low.toNat ≤ cursor) :
    (tile query cursor l).found.Pairwise (fun s s' => s.ssn < s'.ssn) ∧
      ∀ s ∈ (tile query cursor l).found,
        cursor ≤ s.ssn.toNat ∧ (owner? l s.ssn.toNat).isSome = true := by
  refine hits.tile_induction (motive := fun cursor c => c.found.Pairwise (fun s s' => s.ssn < s'.ssn) ∧
    ∀ s ∈ c.found, cursor ≤ s.ssn.toNat ∧ (owner? l s.ssn.toNat).isSome = true) ?_ ?_ begun
  · exact fun _ => ⟨List.Pairwise.nil, fun s mem => absurd mem List.not_mem_nil⟩
  · rintro cursor x start later next ⟨sorted, starts⟩
    have reached := next.le_last
    refine ⟨List.pairwise_cons.2 ⟨fun s mem => ?_, sorted⟩, fun s mem => ?_⟩
    · have behind := (starts s mem).1
      rw [BitVec.lt_def, next.ssn_eq]
      omega
    · rcases List.mem_cons.1 mem with rfl | mem
      · rw [next.ssn_eq, next.owns start (Nat.le_refl start) reached]
        exact ⟨next.cursor_le, rfl⟩
      · obtain ⟨behind, owned⟩ := starts s mem
        have further := next.cursor_le.trans reached
        exact ⟨by omega, owned⟩

/-- No piece and no gap is empty. -/
structure Cover.Solid (c : Cover) : Prop where
  found : ∀ s ∈ c.found, 0 < s.len
  gaps : ∀ g ∈ c.gaps, 0 < g.len

theorem pos_of_mem_gap {cursor stop : Nat} {gap : Stretch}
    (mem : gap ∈ if cursor < stop then [Stretch.mk cursor (stop - cursor)] else []) : 0 < gap.len := by
  split at mem
  · obtain rfl := List.mem_singleton.1 mem
    exact Nat.sub_pos_of_lt (by assumption)
  · exact absurd mem List.not_mem_nil

/-- A cut leaves no empty piece and no empty gap. -/
theorem Hits.solid_tile (hits : Hits query l) (begun : query.low.toNat ≤ cursor) :
    (tile query cursor l).Solid := by
  refine hits.tile_induction (motive := fun _ c => c.Solid) ?_ ?_ begun
  · exact fun _ => ⟨fun s mem => absurd mem List.not_mem_nil, fun g mem => pos_of_mem_gap mem⟩
  · intro cursor x start later next solid
    constructor
    · intro s mem
      rcases List.mem_cons.1 mem with rfl | mem
      · exact Nat.sub_pos_of_lt (Nat.lt_succ_of_le next.le_last)
      · exact solid.found s mem
    · intro g mem
      rcases List.mem_append.1 mem with front | mem
      · exact pos_of_mem_gap front
      · exact solid.gaps g mem

/-- A gap that the infinite mapping fills gives a piece that starts in it. -/
theorem start_of_mem_ofGap {i : InfiniteMapping} {gap : Stretch} {s : AttributedSpan}
    (pos : 0 < gap.len) (mem : s ∈ (Cover.ofGap i gap).found) :
    ∃ p ∈ gap.positions, s.ssn = .ofNat 32 p := by
  unfold Cover.ofGap at mem
  dsimp only at mem
  split at mem
  · exact absurd mem List.not_mem_nil
  · obtain rfl := List.mem_singleton.1 mem
    refine ⟨max gap.start i.ssn.toNat, List.mem_range'_1.2 ?_, rfl⟩
    omega

/-- The pieces of the infinite mapping start at bytes that no other mapping owns. -/
theorem Hits.filter_found_extend (hits : Hits query l) (begun : query.low.toNat ≤ cursor)
    (i : InfiniteMapping) :
    (((tile query cursor l).extend i).found.filter
      fun s => (owner? l s.ssn.toNat).isSome).Perm (tile query cursor l).found := by
  have owned : ((tile query cursor l).found.filter fun s => (owner? l s.ssn.toNat).isSome) =
      (tile query cursor l).found :=
    List.filter_eq_self.2 fun s mem => ((hits.found_sorted begun).2 s mem).2
  have unowned : (((tile query cursor l).gaps.map (Cover.ofGap i)).flatMap (·.found)).filter
      (fun s => (owner? l s.ssn.toNat).isSome) = [] := by
    refine List.filter_eq_nil_iff.2 fun s mem => ?_
    obtain ⟨part, filled, mem⟩ := List.mem_flatMap.1 mem
    obtain ⟨gap, there, rfl⟩ := List.mem_map.1 filled
    obtain ⟨p, inGap, start⟩ := start_of_mem_ofGap ((hits.solid_tile begun).gaps gap there) mem
    have sorted : (tile query cursor l).Puts (fun b => b) _ _ := tile_puts hits.sorted begun
    obtain ⟨inside, nowhere⟩ := sorted.mem_left.1 (List.mem_flatMap.2 ⟨gap, there, inGap⟩)
    have := List.mem_range'_1.1 inside
    have top := query.high.isLt
    rw [start, BitVec.toNat_ofNat, Nat.mod_eq_of_lt (by omega), Option.not_isSome_iff_eq_none]
    exact Option.map_eq_none_iff.1 (Option.map_eq_none_iff.1 nowhere)
  refine ((List.mergeSort_perm _ _).filter _).trans ?_
  rw [List.filter_append, owned, unowned, List.append_nil]

/-- Where the same bytes have an owner, the infinite mapping hides no difference. -/
theorem found_extend_eq_iff (hits : Hits query l) (hits' : Hits query l')
    (begun : query.low.toNat ≤ cursor)
    (alike : ∀ p, (owner? l p).isSome = (owner? l' p).isSome) (i : InfiniteMapping) :
    ((tile query cursor l).extend i).found = ((tile query cursor l').extend i).found ↔
      (tile query cursor l).found = (tile query cursor l').found := by
  constructor
  · intro same
    have cut := hits.filter_found_extend begun i
    have cut' := hits'.filter_found_extend begun i
    simp only [← alike] at cut'
    rw [same] at cut
    refine (cut.symm.trans cut').eq_of_pairwise ?_ (hits.found_sorted begun).1
      (hits'.found_sorted begun).1
    intro s s' _ _ before behind
    exact absurd behind (BitVec.lt_asymm before)
  · intro same
    rw [tile_congr hits hits' begun (owned_eq_of_found hits hits' begun same)]

/-- **When two covers of a stretch place the same pieces**: exactly if every byte of it has the same owner
in both searches, as far as its pieces show. -/
theorem found_cover_eq_iff {ssn : Seq} {len : Nat} (accepted : Range.ofLength ssn len = .ok query)
    (wf : m.tree.WellFormed) (wf' : m'.tree.WellFormed) (infinite : m'.infinite = m.infinite)
    (alike : ∀ p, (owner? (m.tree.findAll query) p).isSome =
      (owner? (m'.tree.findAll query) p).isSome) :
    (m.cover ssn len).found = (m'.cover ssn len).found ↔
      ∀ p, query.holds p = true →
        owned query (m.tree.findAll query) p = owned query (m'.tree.findAll query) p := by
  obtain ⟨pos, low, -⟩ := Range.ofLength_eq_ok accepted
  have begun : query.low.toNat ≤ ssn.toNat := Nat.le_of_eq (congrArg BitVec.toNat low)
  have hits := hits_findAll wf query
  have hits' := hits_findAll wf' query
  have tiles := found_tile_eq_iff hits hits' begun
  have bytes : (∀ p, ssn.toNat ≤ p → p ≤ query.high.toNat →
      owned query (m.tree.findAll query) p = owned query (m'.tree.findAll query) p) ↔
      ∀ p, query.holds p = true →
        owned query (m.tree.findAll query) p = owned query (m'.tree.findAll query) p := by
    refine forall_congr' fun p => ?_
    rw [Range.holds_iff, low, and_imp]
  rw [← bytes, ← tiles]
  unfold cover
  rw [if_neg (Nat.ne_of_gt pos), if_neg (Nat.ne_of_gt pos), accepted, infinite]
  dsimp only
  cases m.infinite with
  | none => exact Iff.rfl
  | some i => exact found_extend_eq_iff hits hits' begun alike i

/-! ### Searches that return the same mappings -/

/-- In both searches the same bytes have an owner. -/
theorem isSome_owner?_congr (same : l'.Perm l) (p : Nat) :
    (owner? l p).isSome = (owner? l' p).isSome := by
  rw [owner?, owner?, List.isSome_find?, List.isSome_find?, same.any_eq]

/-- The owners of a byte in both searches start together. -/
theorem low_eq_of_owner? (hits : Hits query l) (hits' : Hits query l') (same : l'.Perm l) {p : Nat}
    {x y : Range 32 × MappingTarget} (first : owner? l p = some x) (second : owner? l' p = some y) :
    x.1.low = y.1.low := by
  obtain ⟨met, held⟩ := owner?_eq_some first
  obtain ⟨met', held'⟩ := owner?_eq_some second
  exact BitVec.le_antisymm (hits.low_le_of_owner? first (same.mem_iff.1 met') held')
    (hits'.low_le_of_owner? second (same.mem_iff.2 met) held)

/-- A mapping that does not overlap the query is not found. -/
theorem findAll_insert_perm {t : IntervalTree 32 MappingTarget} (wf : t.WellFormed)
    {range : Range 32} (apart : range.overlaps query = false) (target : MappingTarget) :
    ((t.insert range target).findAll query).Perm (t.findAll query) := by
  have wf' := wf.insert range target
  refine (IntervalTree.findAll_perm_overlapping _ query).trans ?_
  refine (IntervalTree.overlapping_perm wf'.ordered wf'.reachExact query).trans ?_
  refine List.Perm.trans ?_ (IntervalTree.findAll_perm_overlapping t query).symm
  refine List.Perm.trans ?_ (IntervalTree.overlapping_perm wf.ordered wf.reachExact query).symm
  rw [IntervalTree.toList_insert wf.ordered]
  refine ((List.perm_orderedInsert _ _ _).filter _).trans ?_
  rw [List.filter_cons_of_neg (by simp [apart])]

end SubflowMappings

open SubflowMappings

/-! ### Bystanders -/

/-- Mappings that some calls left, a stretch of bytes, and an announcement that is accepted and shares no
byte with the stretch. -/
structure Bystander where
  calls : List MappingOp
  piece : Piece
  mapping : Announcement
  accepted : mapping.Accepted
  apart : ∀ p ∈ piece.positions, mapping.holds p = false

namespace Bystander

variable (b : Bystander)

/-- The mappings before the announcement. -/
def before : SubflowMappings := ({} : SubflowMappings).after b.calls

/-- The mappings after it. -/
def after : SubflowMappings := (b.before.perform b.mapping.op).mappings

/-- The stretch is placed alike before and after. -/
def Local : Prop :=
  (b.after.place b.piece.ssn b.piece.len b.piece.frame).2 =
    (b.before.place b.piece.ssn b.piece.len b.piece.frame).2

/-- A byte of the stretch goes from one mapping to another one that starts where the first does, but puts
the bytes elsewhere, was announced in another frame or ends elsewhere in the stretch. -/
structure Displaced (query : Range 32) (p : Nat) (x y : Range 32 × MappingTarget) : Prop where
  stretch : Range.ofLength b.piece.ssn b.piece.len = .ok query
  inside : query.holds p = true
  owned_before : owner? (b.before.tree.findAll query) p = some x
  owned_after : owner? (b.after.tree.findAll query) p = some y
  together : x.1.low = y.1.low
  differ : x.2 ≠ y.2 ∨ lastIn query x ≠ lastIn query y

/-- **What the announcement does**: its mapping joins the tree, and the infinite mapping stays. -/
theorem after_eq : ∃ range, Range.ofLength b.mapping.ssn b.mapping.len = .ok range ∧
    b.after.tree = b.before.tree.insert range ⟨b.mapping.dsn, b.mapping.frame⟩ ∧
    b.after.infinite = b.before.infinite := by
  obtain ⟨range, accepted⟩ := Announcement.accepted_iff.1 b.accepted
  refine ⟨range, accepted, ?_⟩
  rw [after, Announcement.op, perform_insert_of_ok accepted]
  exact ⟨rfl, rfl⟩

variable {b} {query : Range 32}

theorem wellFormed_before : b.before.tree.WellFormed :=
  wellFormed_after IntervalTree.wellFormed_nil b.calls

theorem wellFormed_afterwards : b.after.tree.WellFormed := wellFormed_perform wellFormed_before _

/-- The mapping does not overlap the range of the stretch. -/
theorem overlaps_eq_false {range : Range 32}
    (accepted : Range.ofLength b.mapping.ssn b.mapping.len = .ok range)
    (stretch : Range.ofLength b.piece.ssn b.piece.len = .ok query) :
    range.overlaps query = false := by
  rw [← Bool.not_eq_true, Range.overlaps_iff_exists]
  rintro ⟨p, ofMapping, ofStretch⟩
  rw [Range.contains_iff, BitVec.le_def, BitVec.le_def] at ofMapping ofStretch
  obtain ⟨-, low, high⟩ := Range.ofLength_eq_ok stretch
  rw [low] at ofStretch
  have held := b.apart p.toNat (List.mem_range'_1.2 (by omega))
  rw [← Announcement.holds_range accepted, Range.holds_iff.2 ofMapping] at held
  cases held

theorem findAll_perm (stretch : Range.ofLength b.piece.ssn b.piece.len = .ok query) :
    (b.after.tree.findAll query).Perm (b.before.tree.findAll query) := by
  obtain ⟨range, accepted, tree, -⟩ := b.after_eq
  rw [tree]
  exact findAll_insert_perm wellFormed_before (overlaps_eq_false accepted stretch) _

/-- A byte is owned differently exactly if it is displaced. -/
theorem owned_ne_iff (stretch : Range.ofLength b.piece.ssn b.piece.len = .ok query) {p : Nat}
    (inside : query.holds p = true) :
    owned query (b.before.tree.findAll query) p ≠ owned query (b.after.tree.findAll query) p ↔
      ∃ x y, b.Displaced query p x y := by
  have same := findAll_perm stretch
  have alike := isSome_owner?_congr same p
  constructor
  · intro differ
    cases first : owner? (b.before.tree.findAll query) p with
    | none =>
        rw [first, Eq.comm, Option.isSome_none, Option.isSome_eq_false_iff,
          Option.isNone_iff_eq_none] at alike
        exact absurd (by rw [owned, owned, first, alike]) differ
    | some x =>
        rw [first, Option.isSome_some, Eq.comm, Option.isSome_iff_exists] at alike
        obtain ⟨y, second⟩ := alike
        have together := low_eq_of_owner? (hits_findAll wellFormed_before query)
          (hits_findAll wellFormed_afterwards query) same first second
        refine ⟨x, y, stretch, inside, first, second, together, ?_⟩
        by_contra agree
        obtain ⟨target, last⟩ := not_or.1 agree
        rw [not_not] at target last
        refine differ ?_
        rw [owned, owned, first, second, Option.map_some, Option.map_some, MappingTarget.placed,
          MappingTarget.placed, target, last, together]
  · rintro ⟨x, y, -, -, first, second, together, differ⟩ agree
    rw [owned, owned, first, second, Option.map_some, Option.map_some, Option.some_inj,
      Prod.mk.injEq, MappingTarget.placed, MappingTarget.placed, together] at agree
    obtain ⟨placed, last⟩ := agree
    injection placed with _ dsn frame
    rcases differ with target | reach
    · exact target (congrArg₂ MappingTarget.mk ((BitVec.add_left_inj _).1 dsn) frame)
    · exact reach last

/-- The stretch is placed alike exactly if every byte of it is owned alike. -/
theorem local_iff_owned (stretch : Range.ofLength b.piece.ssn b.piece.len = .ok query) :
    b.Local ↔ ∀ p, query.holds p = true →
      owned query (b.before.tree.findAll query) p = owned query (b.after.tree.findAll query) p := by
  obtain ⟨-, -, -, infinite⟩ := b.after_eq
  rw [Local, eq_comm]
  exact found_cover_eq_iff stretch wellFormed_before wellFormed_afterwards infinite
    (isSome_owner?_congr (findAll_perm stretch))

/-- **A mapping elsewhere moves a stretch only through a tie**: exactly if some byte of it is displaced,
from one mapping to another that starts together with it. -/
theorem local_iff : b.Local ↔ ¬ ∃ query p x y, b.Displaced query p x y := by
  cases answer : Range.ofLength b.piece.ssn b.piece.len with
  | error e =>
      refine iff_of_true ?_ ?_
      · show (b.after.cover _ _).found = (b.before.cover _ _).found
        unfold cover
        rw [answer]
      · rintro ⟨query, p, x, y, displaced⟩
        have ok := displaced.stretch
        rw [answer] at ok
        cases ok
  | ok query =>
      rw [local_iff_owned answer]
      constructor
      · rintro agree ⟨query', p, x, y, displaced⟩
        obtain rfl := Except.ok.inj (answer.symm.trans displaced.stretch)
        exact (owned_ne_iff answer displaced.inside).2 ⟨x, y, displaced⟩ (agree p displaced.inside)
      · intro unmoved p inside
        by_contra differ
        exact unmoved ⟨query, p, (owned_ne_iff answer inside).1 differ⟩

/-- Where the mappings that reach the stretch all start elsewhere or are equal, nothing moves. -/
theorem local_of_distinct (stretch : Range.ofLength b.piece.ssn b.piece.len = .ok query)
    (distinct : ∀ x ∈ b.before.tree.toList, ∀ y ∈ b.before.tree.toList,
      x.1.overlaps query = true → y.1.overlaps query = true → x.1.low = y.1.low → x = y) :
    b.Local := by
  rw [local_iff_owned stretch]
  intro p inside
  by_contra differ
  obtain ⟨x, y, displaced⟩ := (owned_ne_iff stretch inside).1 differ
  have met := (owner?_eq_some displaced.owned_before).1
  have met' := (findAll_perm stretch).mem_iff.1 (owner?_eq_some displaced.owned_after).1
  obtain ⟨held, reached⟩ := wellFormed_before.mem_findAll.1 met
  obtain ⟨held', reached'⟩ := wellFormed_before.mem_findAll.1 met'
  obtain rfl := distinct x held y held' reached reached' displaced.together
  exact displaced.differ.elim (fun target => target rfl) (fun last => last rfl)

/-- Two mappings of the same bytes, announced in frames 1 and 2, and one far behind them. -/
def repeated : Bystander where
  calls := [.insert 10 11 100 1, .insert 10 21 500 2]
  piece := ⟨10, 11, 3⟩
  mapping := ⟨100, 11, 0, 3⟩
  accepted := by decide
  apart := by decide

/-- **The owner of a byte can change through a mapping elsewhere**: with the third mapping the second one
becomes the root of the tree, and is met first from then on. -/
theorem not_local_repeated : ¬ repeated.Local := by
  let query : Range 32 := ⟨10, 20, by decide⟩
  -- both searches meet the two mappings in the order of their low ends, which are equal
  have first : owner? (repeated.before.tree.findAll query) 10 = some (⟨10, 20, by decide⟩, ⟨100, 1⟩) := by
    rw [IntervalTree.findAll, List.mergeSort_of_pairwise (by decide +kernel)]
    decide +kernel
  have second : owner? (repeated.after.tree.findAll query) 10 = some (⟨10, 30, by decide⟩, ⟨500, 2⟩) := by
    rw [IntervalTree.findAll, List.mergeSort_of_pairwise (by decide +kernel)]
    decide +kernel
  have stretch : Range.ofLength repeated.piece.ssn repeated.piece.len = .ok query := by decide
  rw [local_iff_owned stretch]
  intro agree
  have moved := agree 10 (by decide)
  rw [owned, owned, first, second] at moved
  revert moved
  decide

end Bystander

end TcpCapture
