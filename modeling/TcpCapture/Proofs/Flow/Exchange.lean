import Mathlib.Data.List.Induction
import TcpCapture.Conversation
import TcpCapture.Proofs.Flow.Judging
import TcpCapture.Proofs.Sequence

/-!
# Exchanges

Segments of both directions are classified one after another, each against the flow it belongs to and
the flow of its peer, from two flows that have seen nothing.

## Main definitions

* `Sighting` — a segment to classify, with the limits and the window scales in force
* `Sighting.judged`, `exchanged` — what it is taken for; the two flows after some sightings
* `Carried` — a number was carried by a segment of a direction
* `firstSeq?` — the first number captured of a direction
* `InWindow` — all numbers lie within half a turn

**Window scales** are settled by SYNs, not by classification.  Each sighting names the ones in force, so
that they may have changed in any way since the one before.
-/

namespace TcpCapture

/-- A captured segment to classify. -/
structure Sighting where
  direction : Direction
  segment : Segment
  limits : Thresholds := {}
  /-- How windows are scaled by now. -/
  scales : Duplex WindowScale := .both .unknown

namespace Sighting

variable (x : Sighting) (flows : Duplex Flow)

/-- A flow with its window scaled as it is by now. -/
def scaled (d : Direction) : Flow := { flows.get d with windowScale := x.scales.get d }

/-- The flow the segment belongs to. -/
def sender : Flow := x.scaled flows x.direction

/-- The flow of its peer. -/
def peer : Flow := x.scaled flows x.direction.opposite

/-- The segment, classified. -/
def judged : Classified := classify (x.sender flows) (x.peer flows) x.segment x.limits

/-- What is noticed about the segment. -/
def findings : Findings := (x.judged flows).classification.findings

/-- Both flows after the segment. -/
def settled : Duplex Flow :=
  (flows.set x.direction (x.judged flows).sender).set x.direction.opposite (x.judged flows).peer

end Sighting

/-- Both flows after some sightings. -/
def exchanged (xs : List Sighting) : Duplex Flow :=
  xs.foldl (fun flows x => x.settled flows) (.both {})

theorem exchanged_concat (xs : List Sighting) (x : Sighting) :
    exchanged (xs ++ [x]) = x.settled (exchanged xs) := List.foldl_append

namespace Sighting

variable (x : Sighting) (flows : Duplex Flow)

theorem get_settled : (x.settled flows).get x.direction = (x.judged flows).sender := by
  unfold settled
  rw [Duplex.get_set_of_opposite, Duplex.get_set_same]

theorem get_settled_opposite :
    (x.settled flows).get x.direction.opposite = (x.judged flows).peer := by
  unfold settled
  rw [Duplex.get_set_same]

/-- A segment that is no probe and lies past the position takes it to its end. -/
theorem nextSeq_settled :
    ((x.settled flows).get x.direction).nextSeq =
      if Classified.moves (x.sender flows) (x.peer flows) x.segment then some x.segment.endSeq
      else (flows.get x.direction).nextSeq := by
  rw [get_settled]
  exact nextSeq_classify ..

/-- A segment that starts on the mark takes it to the position. -/
theorem maxSeqAcked_settled :
    ((x.settled flows).get x.direction).maxSeqAcked =
      if !Classified.isZeroWindowProbe (x.sender flows) (x.peer flows) x.segment &&
          (flows.get x.direction).maxSeqAcked.all (· == x.segment.seq) then
        ((x.settled flows).get x.direction).nextSeq
      else (flows.get x.direction).maxSeqAcked := by
  rw [get_settled]
  exact maxSeqAcked_classify ..

theorem nextSeq_settled_opposite :
    ((x.settled flows).get x.direction.opposite).nextSeq =
      (flows.get x.direction.opposite).nextSeq := by
  rw [get_settled_opposite]
  exact nextSeq_classify_peer ..

theorem maxSeqAcked_settled_opposite :
    ((x.settled flows).get x.direction.opposite).maxSeqAcked =
      if (x.findings flows).ackLostPacket then (flows.get x.direction.opposite).nextSeq
      else (flows.get x.direction.opposite).maxSeqAcked := by
  rw [get_settled_opposite]
  exact maxSeqAcked_classify_peer ..

end Sighting

/-! ### Numbers that were carried -/

/-- The segment occupies a number: with its payload, its SYN or its FIN. -/
def Segment.Occupies (s : Segment) (n : Seq) : Prop := ∃ k < s.sequenceLen, advance s.seq k = n

instance (s : Segment) (n : Seq) : Decidable (s.Occupies n) :=
  inferInstanceAs (Decidable (∃ k < s.sequenceLen, advance s.seq k = n))

/-- A segment of the direction carried the number. -/
def Carried (xs : List Sighting) (d : Direction) (n : Seq) : Prop :=
  ∃ x ∈ xs, x.direction = d ∧ x.segment.Occupies n

instance (xs : List Sighting) (d : Direction) (n : Seq) : Decidable (Carried xs d n) :=
  inferInstanceAs (Decidable (∃ x ∈ xs, x.direction = d ∧ x.segment.Occupies n))

theorem carried_concat {xs : List Sighting} {x : Sighting} {d : Direction} {n : Seq} :
    Carried (xs ++ [x]) d n ↔ Carried xs d n ∨ x.direction = d ∧ x.segment.Occupies n := by
  unfold Carried
  simp only [List.mem_append, List.mem_singleton, or_and_right, exists_or, exists_eq_left]

/-- A segment that occupies numbers occupies the one in front of its end. -/
theorem Segment.occupies_last {s : Segment} (some : s.sequenceLen ≠ 0) :
    s.Occupies (s.endSeq - 1) := by
  refine ⟨s.sequenceLen - 1, by omega, ?_⟩
  rw [endSeq, advance, advance]
  bv_omega

/-- One that occupies none ends where it starts. -/
theorem Segment.endSeq_of_bare {s : Segment} (bare : s.sequenceLen = 0) : s.endSeq = s.seq := by
  rw [endSeq, bare, advance_zero]

/-- A segment that opens and ends nothing occupies its payload only. -/
theorem TcpFlags.sequenceLen_of_plain {f : TcpFlags} (plain : f.hasControl = false) :
    f.sequenceLen = 0 := by
  rw [hasControl, Bool.or_eq_false_iff, Bool.or_eq_false_iff] at plain
  rw [sequenceLen, plain.1.1, plain.1.2]
  rfl

/-- An earlier part of what comes in front of the last sighting. -/
theorem prefix_of_concat {pre xs : List Sighting} {x y : Sighting}
    (within : pre ++ [y] <+: xs ++ [x]) : pre <+: xs := by
  rcases List.prefix_concat_iff.1 within with same | shorter
  · exact (List.append_inj' same rfl).1 ▸ List.prefix_refl _
  · exact (List.prefix_append _ _).trans shorter

/-- The first number captured of a direction. -/
def firstSeq? (xs : List Sighting) (d : Direction) : Option Seq :=
  (xs.find? (·.direction == d)).map (·.segment.seq)

theorem firstSeq?_concat (xs : List Sighting) (x : Sighting) (d : Direction) :
    firstSeq? (xs ++ [x]) d =
      (firstSeq? xs d).or (if x.direction = d then some x.segment.seq else none) := by
  unfold firstSeq?
  rw [List.find?_append, Option.map_or, List.find?_singleton]
  by_cases own : x.direction = d
  · rw [if_pos (beq_iff_eq.2 own), if_pos own]
    rfl
  · rw [if_neg (mt beq_iff_eq.1 own), if_neg own]
    rfl

/-! ### Where a direction stands -/

/-- A direction that has no position yet gets one with its next segment. -/
theorem Sighting.nextSeq_settled_of_unseen {x : Sighting} {flows : Duplex Flow}
    (unseen : (flows.get x.direction).nextSeq = none) :
    ((x.settled flows).get x.direction).nextSeq = some x.segment.endSeq := by
  have position : (x.sender flows).nextSeq = none := unseen
  obtain ⟨probe, keepAlive⟩ := no_probe_of_unseen (x.peer flows) x.segment position
  rw [x.nextSeq_settled, Classified.moves, probe, keepAlive, position]
  rfl

variable {xs : List Sighting} {d : Direction}

/-- A direction has a position once something of it was captured. -/
theorem isSome_nextSeq (xs : List Sighting) (d : Direction) :
    ((exchanged xs).get d).nextSeq.isSome = (firstSeq? xs d).isSome := by
  induction xs using List.reverseRecOn with
  | nil => cases d <;> rfl
  | append_singleton xs x ih =>
      rw [exchanged_concat, firstSeq?_concat]
      by_cases own : d = x.direction
      · subst own
        rw [if_pos rfl, Option.isSome_or, Option.isSome_some, Bool.or_true]
        cases position : ((exchanged xs).get x.direction).nextSeq with
        | none =>
            rw [Sighting.nextSeq_settled_of_unseen position]
            rfl
        | some n =>
            rw [x.nextSeq_settled, position]
            split <;> rfl
      · rw [if_neg (Ne.symm own), Option.or_none]
        obtain rfl := Direction.eq_opposite_of_ne own
        rw [x.nextSeq_settled_opposite, ih]

/-- The mark is there as soon as there is a position. -/
theorem isSome_maxSeqAcked (xs : List Sighting) (d : Direction) :
    ((exchanged xs).get d).maxSeqAcked.isSome = ((exchanged xs).get d).nextSeq.isSome := by
  induction xs using List.reverseRecOn with
  | nil => cases d <;> rfl
  | append_singleton xs x ih =>
      rw [exchanged_concat]
      by_cases own : d = x.direction
      · subst own
        rw [x.maxSeqAcked_settled]
        split
        · rfl
        · rename_i still
          cases mark : ((exchanged xs).get x.direction).maxSeqAcked with
          | none =>
              -- then nothing was seen before, and the mark would have followed
              rw [mark, Option.isSome_none, eq_comm, Option.isSome_eq_false_iff,
                Option.isNone_iff_eq_none] at ih
              have probe := (no_probe_of_unseen (x.peer (exchanged xs)) x.segment
                (show (x.sender (exchanged xs)).nextSeq = none from ih)).1
              rw [mark, probe] at still
              exact absurd rfl still
          | some n =>
              rw [mark] at ih
              obtain ⟨position, known⟩ := Option.isSome_iff_exists.1 ih.symm
              rw [x.nextSeq_settled, known]
              split <;> rfl
      · obtain rfl := Direction.eq_opposite_of_ne own
        rw [x.nextSeq_settled_opposite, x.maxSeqAcked_settled_opposite]
        split
        · rfl
        · exact ih

/-- A direction of which nothing was captured has neither position nor mark. -/
theorem unseen_of_firstSeq? (unseen : firstSeq? xs d = none) :
    ((exchanged xs).get d).nextSeq = none ∧ ((exchanged xs).get d).maxSeqAcked = none := by
  have position := isSome_nextSeq xs d
  have mark := isSome_maxSeqAcked xs d
  rw [unseen, Option.isSome_none] at position
  rw [position] at mark
  rw [Option.isSome_eq_false_iff, Option.isNone_iff_eq_none] at position mark
  exact ⟨position, mark⟩

/-- What a direction stands at: its first number, its position and its mark. -/
structure Standing (xs : List Sighting) (d : Direction) (first position mark : Seq) : Prop where
  first : firstSeq? xs d = some first
  position : ((exchanged xs).get d).nextSeq = some position
  mark : ((exchanged xs).get d).maxSeqAcked = some mark

/-- A direction stands somewhere once something of it was captured. -/
theorem exists_standing {first : Seq} (seen : firstSeq? xs d = some first) :
    ∃ position mark, Standing xs d first position mark := by
  have known := isSome_nextSeq xs d
  rw [seen, Option.isSome_some] at known
  have marked := (isSome_maxSeqAcked xs d).trans known
  obtain ⟨position, hp⟩ := Option.isSome_iff_exists.1 known
  obtain ⟨mark, hm⟩ := Option.isSome_iff_exists.1 marked
  exact ⟨position, mark, seen, hp, hm⟩

/-- A direction with a mark stands somewhere. -/
theorem exists_standing_of_mark {mark : Seq} (marked : ((exchanged xs).get d).maxSeqAcked = some mark) :
    ∃ first position, Standing xs d first position mark := by
  have known := isSome_maxSeqAcked xs d
  rw [marked, Option.isSome_some] at known
  obtain ⟨position, hp⟩ := Option.isSome_iff_exists.1 known.symm
  obtain ⟨first, seen⟩ := Option.isSome_iff_exists.1 ((isSome_nextSeq xs d).symm.trans known.symm)
  exact ⟨first, position, seen, hp, marked⟩

/-- **Where a direction stands after one more segment**: the segment is its first; or it stood somewhere
before, and the segment may take the position to its end and the mark to the position; or the segment is
of the peer, and may take the mark to the position. -/
theorem Standing.cases {x : Sighting} {first position mark : Seq}
    (h : Standing (xs ++ [x]) d first position mark) :
    x.direction = d ∧ firstSeq? xs d = none ∧ first = x.segment.seq ∧
        position = x.segment.endSeq ∧ mark = x.segment.endSeq ∨
      (x.direction = d ∧ ∃ position' mark', Standing xs d first position' mark' ∧
        position = (if Classified.moves (x.sender (exchanged xs)) (x.peer (exchanged xs)) x.segment
          then x.segment.endSeq else position') ∧
        mark = if !Classified.isZeroWindowProbe (x.sender (exchanged xs)) (x.peer (exchanged xs))
            x.segment && mark' == x.segment.seq then position else mark') ∨
      x.direction = d.opposite ∧ ∃ mark', Standing xs d first position mark' ∧
        (mark = position ∨ mark = mark') := by
  obtain ⟨seen, hp, hm⟩ := h
  rw [firstSeq?_concat] at seen
  rw [exchanged_concat] at hp hm
  by_cases own : d = x.direction
  · subst own
    rw [if_pos rfl] at seen
    rw [x.maxSeqAcked_settled, hp] at hm
    cases known : firstSeq? xs x.direction with
    | none =>
        obtain ⟨unseen, unmarked⟩ := unseen_of_firstSeq? known
        rw [Sighting.nextSeq_settled_of_unseen unseen, Option.some_inj] at hp
        rw [(no_probe_of_unseen (x.peer (exchanged xs)) x.segment
          (show (x.sender (exchanged xs)).nextSeq = none from unseen)).1, unmarked] at hm
        rw [known, Option.none_or, Option.some_inj] at seen
        exact Or.inl ⟨rfl, rfl, seen.symm, hp.symm, hp ▸ (Option.some_inj.1 hm).symm⟩
    | some start =>
        rw [known, Option.some_or] at seen
        obtain ⟨position', mark', before⟩ := exists_standing (known.trans seen)
        rw [x.nextSeq_settled, before.position, ← apply_ite some, Option.some_inj] at hp
        rw [before.mark, Option.all_some, ← apply_ite some, Option.some_inj] at hm
        exact Or.inr (Or.inl ⟨rfl, position', mark', before, hp.symm, hm.symm⟩)
  · have peer := Direction.eq_opposite_of_ne (Ne.symm own)
    obtain rfl := Direction.eq_opposite_of_ne own
    rw [if_neg (Ne.symm own), Option.or_none] at seen
    rw [x.nextSeq_settled_opposite] at hp
    obtain ⟨position', mark', before⟩ := exists_standing seen
    obtain rfl := Option.some_inj.1 (hp.symm.trans before.position)
    rw [x.maxSeqAcked_settled_opposite, hp, before.mark, ← apply_ite some, Option.some_inj] at hm
    refine Or.inr (Or.inr ⟨peer, mark', before, ?_⟩)
    rw [← hm]
    exact ite_eq_or_eq ..

/-! ### Half a turn -/

/-- All numbers lie within half a turn, from an origin on that each direction has for itself. -/
def InWindow (origin : Direction → Seq) (xs : List Sighting) : Prop :=
  ∀ x ∈ xs,
    (x.segment.seq - origin x.direction).toNat + x.segment.sequenceLen < 0x80000000 ∧
      (x.segment.flags.ack = true →
        (x.segment.ack - origin x.direction.opposite).toNat < 0x80000000)

instance (origin : Direction → Seq) (xs : List Sighting) : Decidable (InWindow origin xs) :=
  inferInstanceAs (Decidable (∀ x ∈ xs, _ ∧ _))

theorem InWindow.of_prefix {origin : Direction → Seq} {xs ys : List Sighting}
    (near : InWindow origin ys) (part : xs <+: ys) : InWindow origin xs :=
  fun x mem => near x (part.subset mem)

end TcpCapture
