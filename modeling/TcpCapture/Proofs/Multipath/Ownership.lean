import TcpCapture.Proofs.Multipath.Interleaving

/-!
# Stretches cut by the owners of their bytes

A stretch is cut along the mappings that a search returns.  Where it is cut depends on nothing but who
owns each byte, the first mapping in the list that holds it, and how far that mapping goes on.

## Main definitions

* `SubflowMappings.Hits` — what a search returns: mappings that overlap the query, by low end
* `SubflowMappings.owned` — what the owner of a byte does with it, and its last byte in the query
* `SubflowMappings.Next` — the first owned byte at or behind a cursor, and its owner
* `SubflowMappings.Hits.tile_induction` — induction along a cut, one piece at a time
* `SubflowMappings.found_tile_eq_iff` — two lists cut alike exactly if they agree on all owners

**The cursor.**  `tile` goes through a list and drops what it has passed.  The recursion behind the proofs
is one on the cursor instead (`Hits.tile_cases`): the owner of the next byte is found in the whole list, and
what it passes stays there unused.  Two lists can so be compared that name other mappings in other places.
-/

namespace TcpCapture

namespace SubflowMappings

/-- The last byte of the query that a mapping reaches. -/
def lastIn (query : Range 32) (x : Range 32 × MappingTarget) : Nat :=
  min x.1.high.toNat query.high.toNat

/-- What the owner of a byte does with it, and the last byte of the query that it reaches. -/
def owned (query : Range 32) (l : List (Range 32 × MappingTarget)) (p : Nat) :
    Option (PlacedByte × Nat) :=
  (owner? l p).map fun x => (MappingTarget.placed x p, lastIn query x)

/-- The piece of the query that a mapping takes from a position on. -/
def pieceFrom (query : Range 32) (x : Range 32 × MappingTarget) (start : Nat) : AttributedSpan where
  ssn := .ofNat 32 start
  dsn := advance x.2.dsn (start - x.1.low.toNat)
  len := lastIn query x + 1 - start
  mappingFrame := x.2.frame

/-- The mappings that a search for the query returns: all overlap it, and their low ends never fall. -/
structure Hits (query : Range 32) (l : List (Range 32 × MappingTarget)) : Prop where
  sorted : l.Pairwise fun x y => x.1.low ≤ y.1.low
  meets : ∀ x ∈ l, x.1.overlaps query = true

/-- From the cursor on, the first byte that has an owner is `start`, and its owner is `x`. -/
structure Next (query : Range 32) (l : List (Range 32 × MappingTarget)) (cursor : Nat)
    (x : Range 32 × MappingTarget) (start : Nat) : Prop where
  cursor_le : cursor ≤ start
  le_last : start ≤ lastIn query x
  low_le : x.1.low.toNat ≤ start
  front : ∀ p, cursor ≤ p → p < start → owner? l p = none
  owns : ∀ p, start ≤ p → p ≤ lastIn query x → owner? l p = some x

variable {query : Range 32} {l l' : List (Range 32 × MappingTarget)} {cursor : Nat}
  {x x' : Range 32 × MappingTarget} {start start' : Nat}

theorem lastIn_le (query : Range 32) (x : Range 32 × MappingTarget) :
    lastIn query x ≤ query.high.toNat := Nat.min_le_right _ _

theorem hits_findAll {t : IntervalTree 32 MappingTarget} (wf : t.WellFormed) (query : Range 32) :
    Hits query (t.findAll query) where
  sorted := t.pairwise_findAll query
  meets _ mem := (wf.mem_findAll.1 mem).2

/-- A mapping of the list that holds a byte does not start below its owner. -/
theorem Hits.low_le_of_owner? (hits : Hits query l) {p : Nat} (owner : owner? l p = some x)
    (mem : x' ∈ l) (held : x'.1.holds p = true) : x.1.low ≤ x'.1.low := by
  obtain ⟨-, passed, rest, rfl, skipped⟩ := List.find?_eq_some_iff_append.1 owner
  obtain ⟨-, behind, -⟩ := List.pairwise_append.1 hits.sorted
  rcases List.mem_append.1 mem with mem | mem
  · have other := skipped x' mem
    rw [held] at other
    cases other
  · rcases List.mem_cons.1 mem with rfl | mem
    · exact BitVec.le_refl _
    · exact (List.pairwise_cons.1 behind).1 x' mem

/-! ### Cutting at the cursor -/

/-- A mapping that ends in front of the cursor is passed over. -/
theorem tile_of_passed (meets : x.1.overlaps query = true) (passed : lastIn query x < cursor)
    (rest : List (Range 32 × MappingTarget)) :
    tile query cursor (x :: rest) = tile query cursor rest := by
  cases meet : x.1.intersection query with
  | none => exact absurd meets (Bool.eq_false_iff.1 (Range.intersection_eq_none_iff.1 meet))
  | some part =>
      obtain ⟨-, high⟩ := Range.intersection_eq_some meet
      unfold lastIn at passed
      rw [tile, meet]
      dsimp only
      rw [if_pos (by omega)]

/-- A mapping that reaches the cursor takes a piece, and the rest is cut behind it. -/
theorem tile_of_reaching (meets : x.1.overlaps query = true) (reaching : cursor ≤ lastIn query x)
    (begun : query.low.toNat ≤ cursor) (rest : List (Range 32 × MappingTarget)) :
    let later := tile query (lastIn query x + 1) rest
    let start := max x.1.low.toNat cursor
    tile query cursor (x :: rest) =
      { found := pieceFrom query x start :: later.found
        gaps := (if cursor < start then [⟨cursor, start - cursor⟩] else []) ++ later.gaps } := by
  cases meet : x.1.intersection query with
  | none => exact absurd meets (Bool.eq_false_iff.1 (Range.intersection_eq_none_iff.1 meet))
  | some part =>
      obtain ⟨low, high⟩ := Range.intersection_eq_some meet
      have first : max part.low.toNat cursor = max x.1.low.toNat cursor := by omega
      unfold lastIn at reaching
      rw [tile, meet]
      dsimp only
      rw [if_neg (by omega), first, high]
      rfl

/-- **What cutting does at a cursor.**  Either no byte from there on has an owner, and the rest of the query
is a gap; or the owner of the next byte takes a piece, and the cut goes on behind it. -/
theorem Hits.tile_cases (hits : Hits query l) (begun : query.low.toNat ≤ cursor) :
    (tile query cursor l = tile query cursor [] ∧
        ∀ p, cursor ≤ p → p ≤ query.high.toNat → owner? l p = none) ∨
      ∃ x start, Next query l cursor x start ∧
        tile query cursor l =
          { found := pieceFrom query x start :: (tile query (lastIn query x + 1) l).found
            gaps := (if cursor < start then [⟨cursor, start - cursor⟩] else []) ++
              (tile query (lastIn query x + 1) l).gaps } := by
  induction l with
  | nil => exact Or.inl ⟨rfl, fun _ _ _ => rfl⟩
  | cons x rest ih =>
      obtain ⟨lowest, sorted⟩ := List.pairwise_cons.1 hits.sorted
      have meets := hits.meets x List.mem_cons_self
      have behind : Hits query rest := ⟨sorted, fun y mem => hits.meets y (List.mem_cons_of_mem x mem)⟩
      by_cases passed : lastIn query x < cursor
      · have clear (p : Nat) (from_cursor : cursor ≤ p) (inside : p ≤ query.high.toNat) :
            owner? (x :: rest) p = owner? rest p := by
          refine owner?_cons_of_not (fun held => ?_) rest
          have := (Range.holds_iff.1 held).2
          unfold lastIn at passed
          omega
        rw [tile_of_passed meets passed]
        rcases ih behind with ⟨same, clear'⟩ | ⟨y, start, next, same⟩
        · exact Or.inl ⟨same, fun p h h' => (clear p h h').trans (clear' p h h')⟩
        · have further : cursor ≤ lastIn query y := next.cursor_le.trans next.le_last
          have inside := lastIn_le query y
          refine Or.inr ⟨y, start, ⟨next.cursor_le, next.le_last, next.low_le, ?_, ?_⟩, ?_⟩
          · intro p h h'
            exact (clear p h (by have := next.le_last; omega)).trans (next.front p h h')
          · intro p h h'
            exact (clear p (next.cursor_le.trans h) (h'.trans inside)).trans (next.owns p h h')
          · rw [tile_of_passed meets (by omega)]
            exact same
      · have reaching : cursor ≤ lastIn query x := Nat.not_lt.1 passed
        have meeting := (Range.overlaps_iff _ _).1 meets
        have low : x.1.low.toNat ≤ lastIn query x := by
          have own := BitVec.le_def.1 x.1.low_le_high
          have other := BitVec.le_def.1 meeting.1
          exact Nat.le_min.2 ⟨own, other⟩
        refine Or.inr ⟨x, max x.1.low.toNat cursor, ⟨Nat.le_max_right _ _, by omega,
          Nat.le_max_left _ _, ?_, ?_⟩, ?_⟩
        · intro p h h'
          refine owner?_eq_none fun y mem => ?_
          rcases List.mem_cons.1 mem with rfl | mem
          · omega
          · have := BitVec.le_def.1 (lowest y mem)
            omega
        · intro p h h'
          refine owner?_cons_of_holds (Range.holds_iff.2 ⟨by omega, ?_⟩) rest
          exact h'.trans (Nat.min_le_left _ _)
        · rw [tile_of_reaching meets reaching begun, tile_of_passed meets (Nat.lt_succ_self _)]

/-- **Induction along a cut**: what holds of a gap up to the end of the query, and is kept by one more piece
in front, holds of the cut. -/
theorem Hits.tile_induction {motive : Nat → Cover → Prop} (hits : Hits query l)
    (rest : ∀ cursor, motive cursor (tile query cursor []))
    (piece : ∀ cursor x start later, Next query l cursor x start →
      motive (lastIn query x + 1) later →
      motive cursor
        { found := pieceFrom query x start :: later.found
          gaps := (if cursor < start then [⟨cursor, start - cursor⟩] else []) ++ later.gaps })
    (begun : query.low.toNat ≤ cursor) : motive cursor (tile query cursor l) := by
  induction left : query.high.toNat + 1 - cursor using Nat.strongRecOn generalizing cursor with
  | ind left ih =>
      rcases hits.tile_cases begun with ⟨cut, -⟩ | ⟨x, start, next, cut⟩
      · rw [cut]
        exact rest cursor
      · have further := next.cursor_le.trans next.le_last
        have bounded := lastIn_le query x
        have later := ih (query.high.toNat + 1 - (lastIn query x + 1)) (by omega)
          (show query.low.toNat ≤ lastIn query x + 1 by omega) rfl
        rw [cut]
        exact piece cursor x start _ next later

/-! ### Pieces and owners -/

theorem Next.owned_start (next : Next query l cursor x start) :
    owned query l start = some (MappingTarget.placed x start, lastIn query x) := by
  rw [owned, next.owns start (Nat.le_refl start) next.le_last]
  rfl

theorem Next.owned_front (next : Next query l cursor x start) {p : Nat} (h : cursor ≤ p)
    (h' : p < start) : owned query l p = none := by
  rw [owned, next.front p h h']
  rfl

theorem Next.owned_of_le (next : Next query l cursor x start) {p : Nat} (h : start ≤ p)
    (h' : p ≤ lastIn query x) :
    owned query l p = some (MappingTarget.placed x p, lastIn query x) := by
  rw [owned, next.owns p h h']
  rfl

theorem Next.lt_seqSpace (next : Next query l cursor x start) : start < seqSpace := by
  have := next.le_last.trans (lastIn_le query x)
  have := query.high.isLt
  show start < 0x100000000
  omega

theorem Next.ssn_eq (next : Next query l cursor x start) :
    (pieceFrom query x start).ssn.toNat = start := by
  rw [pieceFrom, BitVec.toNat_ofNat, Nat.mod_eq_of_lt next.lt_seqSpace]

/-- The piece shows where it starts, what its owner does there, and how far it goes on. -/
theorem Next.pieceFrom_eq_iff (next : Next query l cursor x start)
    (next' : Next query l' cursor x' start') :
    pieceFrom query x start = pieceFrom query x' start' ↔
      start = start' ∧ owned query l start = owned query l' start' := by
  rw [next.owned_start, next'.owned_start, Option.some_inj, Prod.mk.injEq]
  constructor
  · intro same
    have starts : start = start' := by
      rw [← next.ssn_eq, ← next'.ssn_eq, same]
    subst starts
    unfold pieceFrom at same
    have dsn := congrArg AttributedSpan.dsn same
    have frame := congrArg AttributedSpan.mappingFrame same
    have len := congrArg AttributedSpan.len same
    dsimp only at dsn frame len
    refine ⟨rfl, ?_, ?_⟩
    · rw [MappingTarget.placed, MappingTarget.placed, dsn, frame]
    · have := next.le_last
      have := next'.le_last
      omega
  · rintro ⟨rfl, placed, last⟩
    have dsn := congrArg PlacedByte.dsn placed
    have frame := congrArg PlacedByte.mappingFrame placed
    dsimp only [MappingTarget.placed] at dsn frame
    rw [pieceFrom, pieceFrom, dsn, frame, last]

/-- Owners that agree on a byte agree on those behind it as far as they go on. -/
theorem placed_of_placed {p : Nat} (low : x.1.low.toNat ≤ start) (low' : x'.1.low.toNat ≤ start)
    (placed : MappingTarget.placed x start = MappingTarget.placed x' start) (h : start ≤ p) :
    MappingTarget.placed x p = MappingTarget.placed x' p := by
  have further (y : Range 32 × MappingTarget) (low : y.1.low.toNat ≤ start) :
      MappingTarget.placed y p = ⟨p, advance (MappingTarget.placed y start).dsn (p - start),
        (MappingTarget.placed y start).mappingFrame⟩ := by
    unfold MappingTarget.placed
    dsimp only
    rw [advance_advance]
    congr 2
    omega
  rw [further x low, further x' low', placed]

/-- Where lists agree on the owner of every byte, none of them is without one behind an owned byte. -/
theorem Next.not_clear (next : Next query l cursor x start)
    (agree : ∀ p, cursor ≤ p → p ≤ query.high.toNat → owned query l p = owned query l' p) :
    ¬ ∀ p, cursor ≤ p → p ≤ query.high.toNat → owner? l' p = none := by
  intro clear
  have inside := next.le_last.trans (lastIn_le query x)
  have here := agree start next.cursor_le inside
  rw [next.owned_start, owned, clear start next.cursor_le inside] at here
  cases here

/-- Where lists agree on the owner of every byte, the next owned byte is the same. -/
theorem Next.start_eq (next : Next query l cursor x start) (next' : Next query l' cursor x' start')
    (agree : ∀ p, cursor ≤ p → p ≤ query.high.toNat → owned query l p = owned query l' p) :
    start = start' := by
  have here := agree start next.cursor_le (next.le_last.trans (lastIn_le query x))
  have there := agree start' next'.cursor_le (next'.le_last.trans (lastIn_le query x'))
  rcases Nat.lt_trichotomy start start' with before | same | behind
  · rw [next.owned_start, next'.owned_front next.cursor_le before] at here
    cases here
  · exact same
  · rw [next'.owned_start, next.owned_front next'.cursor_le behind] at there
    cases there

/-- **Lists that agree on the owner of every byte cut alike.** -/
theorem tile_congr (hits : Hits query l) (hits' : Hits query l') (begun : query.low.toNat ≤ cursor)
    (agree : ∀ p, cursor ≤ p → p ≤ query.high.toNat → owned query l p = owned query l' p) :
    tile query cursor l = tile query cursor l' := by
  induction left : query.high.toNat + 1 - cursor using Nat.strongRecOn generalizing cursor with
  | ind left ih =>
      rcases hits.tile_cases begun with ⟨cut, clear⟩ | ⟨x, start, next, cut⟩
      · rcases hits'.tile_cases begun with ⟨cut', -⟩ | ⟨x', start', next', -⟩
        · rw [cut, cut']
        · exact absurd clear (next'.not_clear fun p h h' => (agree p h h').symm)
      · rcases hits'.tile_cases begun with ⟨-, clear'⟩ | ⟨x', start', next', cut'⟩
        · exact absurd clear' (next.not_clear agree)
        · obtain rfl := next.start_eq next' agree
          have bounded := lastIn_le query x
          have further := next.cursor_le.trans next.le_last
          have here := agree start next.cursor_le (next.le_last.trans bounded)
          have piece := (next.pieceFrom_eq_iff next').2 ⟨rfl, here⟩
          rw [next.owned_start, next'.owned_start] at here
          have last : lastIn query x = lastIn query x' := (Prod.mk.inj (Option.some.inj here)).2
          have later : tile query (lastIn query x + 1) l = tile query (lastIn query x + 1) l' :=
            ih (query.high.toNat + 1 - (lastIn query x + 1)) (by omega) (by omega)
              (fun p h h' => agree p (by omega) h') rfl
          rw [cut, cut', piece, ← last, later]

/-- Lists that place the same pieces agree on the owner of every byte. -/
theorem owned_eq_of_found (hits : Hits query l) (hits' : Hits query l')
    (begun : query.low.toNat ≤ cursor)
    (same : (tile query cursor l).found = (tile query cursor l').found) :
    ∀ p, cursor ≤ p → p ≤ query.high.toNat → owned query l p = owned query l' p := by
  induction left : query.high.toNat + 1 - cursor using Nat.strongRecOn generalizing cursor with
  | ind left ih =>
      intro p from_cursor inside
      rcases hits.tile_cases begun with ⟨cut, clear⟩ | ⟨x, start, next, cut⟩
      · rcases hits'.tile_cases begun with ⟨-, clear'⟩ | ⟨x', start', -, cut'⟩
        · rw [owned, owned, clear p from_cursor inside, clear' p from_cursor inside]
        · rw [cut, cut'] at same
          cases same
      · rcases hits'.tile_cases begun with ⟨cut', -⟩ | ⟨x', start', next', cut'⟩
        · rw [cut, cut'] at same
          cases same
        · rw [cut, cut'] at same
          obtain ⟨piece, later⟩ := List.cons.inj same
          obtain ⟨rfl, here⟩ := (next.pieceFrom_eq_iff next').1 piece
          rw [next.owned_start, next'.owned_start] at here
          obtain ⟨placed, last⟩ := Prod.mk.inj (Option.some.inj here)
          rw [← last] at later
          by_cases front : p < start
          · rw [next.owned_front from_cursor front, next'.owned_front from_cursor front]
          · by_cases within : p ≤ lastIn query x
            · rw [next.owned_of_le (by omega) within, next'.owned_of_le (by omega) (last ▸ within),
                placed_of_placed next.low_le next'.low_le placed (by omega), last]
            · have further := next.cursor_le.trans next.le_last
              exact ih (query.high.toNat + 1 - (lastIn query x + 1)) (by omega) (by omega) later rfl p
                (by omega) inside

theorem found_tile_eq_iff (hits : Hits query l) (hits' : Hits query l')
    (begun : query.low.toNat ≤ cursor) :
    (tile query cursor l).found = (tile query cursor l').found ↔
      ∀ p, cursor ≤ p → p ≤ query.high.toNat → owned query l p = owned query l' p :=
  ⟨owned_eq_of_found hits hits' begun, fun agree => by rw [tile_congr hits hits' begun agree]⟩

end SubflowMappings

end TcpCapture
