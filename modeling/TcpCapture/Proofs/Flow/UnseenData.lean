import TcpCapture.Proofs.Flow.Exchange

/-!
# Acknowledgments of unseen data

A segment is told to acknowledge data that was not seen when it acknowledges past the mark of its peer.
The mark only moves when a segment starts exactly on it, or when it was acknowledged past.  So it tells
the truth as long as it leads what was seen without a hole, and a segment that starts in front of the
mark and ends behind it, or a window probe on it, leaves it behind.

## Main definitions

* `ToldOnlyUnseen` — whenever data is told to be unseen, some of it is
* `MarkLeads` — something was not seen up to the mark, the mark included
* `toldOnlyUnseen_iff` — the first holds all the time exactly if the second does
* `Sighting.answer` — data that acknowledges up to the mark, which tells the two apart
* `Aligned`, `markLeads_of_aligned` — segments that leave no mark behind
-/

namespace TcpCapture

/-- Whenever a segment is told to acknowledge unseen data, some number from the first captured one of its
peer up to the acknowledgment was carried by no earlier segment. -/
def ToldOnlyUnseen (xs : List Sighting) : Prop :=
  ∀ pre x, pre ++ [x] <+: xs → (x.findings (exchanged pre)).ackLostPacket = true →
    ∃ first, firstSeq? pre x.direction.opposite = some first ∧
      ∃ k < (x.segment.ack - first).toNat, ¬ Carried pre x.direction.opposite (advance first k)

/-- Of the numbers from the first captured one up to and including the mark, some one was not carried. -/
def MarkLeads (xs : List Sighting) (d : Direction) : Prop :=
  ∀ first mark, firstSeq? xs d = some first →
    ((exchanged xs).get d).maxSeqAcked = some mark →
      ∃ k ≤ (mark - first).toNat, ¬ Carried xs d (advance first k)

/-! ### Where the mark lies -/

variable {origin : Direction → Seq} {xs : List Sighting} {d : Direction}

/-- A number of the window that lies at or behind the first one. -/
def Behind (origin first n : Seq) : Prop :=
  (first - origin).toNat ≤ (n - origin).toNat ∧ (n - origin).toNat < 0x80000000

theorem Behind.of_after {origin first m n : Seq} (behind : Behind origin first n)
    (inside : (m - origin).toNat < 0x80000000) (further : after m n = true) :
    Behind origin first m := by
  rw [after_iff] at further
  unfold Behind at behind ⊢
  bv_omega

theorem Segment.toNat_endSeq_sub {s : Segment} {origin : Seq}
    (near : (s.seq - origin).toNat + s.sequenceLen < 0x80000000) :
    (s.endSeq - origin).toNat = (s.seq - origin).toNat + s.sequenceLen := by
  rw [endSeq, advance]
  bv_omega

/-- **The position and the mark lie behind the first number, in the window.** -/
theorem Standing.behind {first position mark : Seq} (h : Standing xs d first position mark)
    (near : InWindow origin xs) :
    Behind (origin d) first position ∧ Behind (origin d) first mark := by
  induction xs using List.reverseRecOn generalizing position mark with
  | nil => cases h.first
  | append_singleton xs x ih =>
      have earlier := near.of_prefix (List.prefix_append xs [x])
      have fits := (near x List.mem_concat_self).1
      rcases h.cases with ⟨rfl, -, rfl, rfl, rfl⟩ | ⟨rfl, position', mark', before, moved, rfl⟩ |
        ⟨-, mark', before, followed⟩
      · have stop : Behind (origin x.direction) x.segment.seq x.segment.endSeq := by
          unfold Behind
          rw [Segment.toNat_endSeq_sub fits]
          omega
        exact ⟨stop, stop⟩
      · obtain ⟨behind, behindMark⟩ := ih before earlier
        have behind' : Behind (origin x.direction) first position := by
          rw [moved]
          split
          · rename_i moves
            have further := (Bool.and_eq_true_iff.1 moves).2
            rw [show (x.sender (exchanged xs)).nextSeq = some position' from before.position,
              Option.all_some] at further
            exact behind.of_after (by rwa [Segment.toNat_endSeq_sub fits]) further
          · exact behind
        refine ⟨behind', ?_⟩
        split
        · exact behind'
        · exact behindMark
      · obtain ⟨behind, behindMark⟩ := ih before earlier
        rcases followed with rfl | rfl
        · exact ⟨behind, behind⟩
        · exact ⟨behind, behindMark⟩

/-! ### Telling the truth -/

/-- What is told to be acknowledged unseen lies past the mark of the peer. -/
theorem Sighting.past_mark {x : Sighting} {flows : Duplex Flow}
    (told : (x.findings flows).ackLostPacket = true) :
    ∃ mark, (flows.get x.direction.opposite).maxSeqAcked = some mark ∧
      after x.segment.ack mark = true := by
  have unseen : (flows.get x.direction.opposite).maxSeqAcked.any (after x.segment.ack) = true :=
    (Bool.and_eq_true_iff.1 (acksUnseen_of_classify _ _ _ _ told)).2
  cases known : (flows.get x.direction.opposite).maxSeqAcked with
  | none =>
      rw [known] at unseen
      cases unseen
  | some mark =>
      rw [known] at unseen
      exact ⟨mark, rfl, unseen⟩

/-- Data that acknowledges past the mark of its peer is told to. -/
theorem Sighting.told_of_data {x : Sighting} {flows : Duplex Flow} {mark : Seq}
    (data : 2 ≤ x.segment.payloadLen) (answers : x.segment.flags.ack = true)
    (known : (flows.get x.direction.opposite).maxSeqAcked = some mark)
    (past : after x.segment.ack mark = true) : (x.findings flows).ackLostPacket = true := by
  have peer : (x.peer flows).maxSeqAcked = some mark := known
  unfold findings judged
  rw [findings_classify_of_data _ _ _ data, Classified.ackLostPacket_withLate]
  show Classified.acksUnseen (x.peer flows) x.segment = true
  rw [Classified.acksUnseen, answers, peer]
  exact past

/-- Data of the peer that acknowledges everything up to a number, the number included. -/
def Sighting.answer (x : Sighting) (seq n : Seq) : Sighting :=
  { x with
    direction := x.direction.opposite
    segment := { x.segment with
      source := x.segment.destination, destination := x.segment.source, seq, ack := n + 1
      flags := { ack := true }, payload := [0, 0] } }

/-- Such an answer may come when the number was carried. -/
theorem InWindow.answer {x : Sighting} {n : Seq} (near : InWindow origin xs) (mem : x ∈ xs)
    (occupied : x.segment.Occupies n) :
    InWindow origin (xs ++ [x.answer (origin x.direction.opposite) n]) := by
  intro y mem'
  rcases List.mem_append.1 mem' with mem' | mem'
  · exact near y mem'
  · obtain rfl := List.mem_singleton.1 mem'
    have inside := (near x mem).1
    refine ⟨?_, fun _ => ?_⟩
    · show (origin x.direction.opposite - origin x.direction.opposite).toNat + 2 < _
      rw [BitVec.sub_self]
      decide
    · show (n + 1 - origin x.direction.opposite.opposite).toNat < _
      obtain ⟨k, few, rfl⟩ := occupied
      rw [Direction.opposite_opposite, advance]
      bv_omega

/-- When the number is the mark, the answer is told to acknowledge unseen data. -/
theorem Sighting.told_of_answer {x : Sighting} {flows : Duplex Flow} {mark : Seq}
    (known : (flows.get x.direction).maxSeqAcked = some mark) (seq : Seq) :
    ((x.answer seq mark).findings flows).ackLostPacket = true := by
  have peer : (flows.get (x.answer seq mark).direction.opposite).maxSeqAcked = some mark := by
    show (flows.get x.direction.opposite.opposite).maxSeqAcked = _
    rw [Direction.opposite_opposite, known]
  have past : after (x.answer seq mark).segment.ack mark = true := by
    show after (mark + 1) mark = true
    rw [after_iff]
    bv_omega
  exact told_of_data (Nat.le_refl 2) rfl peer past

/-- **Data is only told to be unseen where some of it is, whatever comes at any time of an exchange, if
and only if the mark always leads.** -/
theorem toldOnlyUnseen_iff (near : InWindow origin xs) :
    (∀ pre, pre <+: xs → ∀ x, InWindow origin (pre ++ [x]) → ToldOnlyUnseen (pre ++ [x])) ↔
      ∀ pre, pre <+: xs → ∀ d, MarkLeads pre d := by
  constructor
  · intro all pre reached d first mark seen known
    obtain ⟨position, mark', standing⟩ := exists_standing seen
    obtain rfl := Option.some_inj.1 (known.symm.trans standing.mark)
    have behind := (standing.behind (near.of_prefix reached)).2
    by_cases carried : Carried pre d mark
    · -- the peer may acknowledge the number on the mark next
      obtain ⟨y, mem, rfl, occupied⟩ := carried
      obtain ⟨first', seen', k, few, missing⟩ := all pre reached _
        ((near.of_prefix reached).answer mem occupied) pre _ (List.prefix_refl _)
        (Sighting.told_of_answer known _)
      rw [show (y.answer _ mark).direction.opposite = y.direction from
        y.direction.opposite_opposite] at seen' missing
      obtain rfl := Option.some_inj.1 (seen.symm.trans seen')
      refine ⟨k, ?_, missing⟩
      have few : k < (mark + 1 - first).toNat := few
      unfold Behind at behind
      bv_omega
    · refine ⟨(mark - first).toNat, Nat.le_refl _, ?_⟩
      rwa [advance_toNat_sub]
  · intro leads pre reached x fits part y within told
    obtain ⟨mark, known, past⟩ := Sighting.past_mark told
    have earlier : part <+: xs := (prefix_of_concat within).trans reached
    obtain ⟨first, position, standing⟩ := exists_standing_of_mark known
    have behind := (standing.behind (near.of_prefix earlier)).2
    obtain ⟨k, few, missing⟩ := leads part earlier _ first mark standing.first known
    refine ⟨first, standing.first, k, ?_, missing⟩
    unfold Behind at behind
    rw [after_iff] at past
    bv_omega

/-- Bytes 1 and 2 are captured, then bytes 2 to 4 in one segment, which starts in front of the mark.  Once
all of them are acknowledged, unseen data is told of. -/
theorem not_toldOnlyUnseen : ¬ ∀ (origin : Direction → Seq) (xs : List Sighting),
    InWindow origin xs → ToldOnlyUnseen xs := by
  intro all
  let client : Endpoint := ⟨.v4 0x0a000001, 40000⟩
  let server : Endpoint := ⟨.v4 0x0a000002, 443⟩
  let data : Segment := { source := client, destination := server, seq := 1, payload := [1, 2] }
  let first : Sighting := { direction := .forward, segment := data }
  let second : Sighting :=
    { direction := .forward, segment := { data with seq := 2, payload := [2, 3, 4] } }
  let answer : Sighting := {
    direction := .reverse
    segment := { source := server, destination := client, seq := 1, ack := 5, flags.ack := true } }
  obtain ⟨start, seen, k, few, missing⟩ := all (fun _ => 0) [first, second, answer] (by decide)
    [first, second] answer (List.prefix_refl _) (by decide +kernel)
  obtain rfl : (1 : Seq) = start := Option.some_inj.1 seen
  have carried : ∀ k < 4, Carried [first, second] .forward (advance 1 k) := by decide
  exact missing (carried k (Nat.lt_of_lt_of_eq few (by decide)))

/-- The same two segments leave the mark behind. -/
theorem mark_left_behind :
    let data : Segment :=
      { source := ⟨.v4 0x0a000001, 40000⟩, destination := ⟨.v4 0x0a000002, 443⟩, seq := 1
        payload := [1, 2] }
    let first : Sighting := { direction := .forward, segment := data }
    let second : Sighting :=
      { direction := .forward, segment := { data with seq := 2, payload := [2, 3, 4] } }
    InWindow (fun _ => 0) [first, second] ∧
      ¬ ∀ pre, pre <+: [first, second] → ∀ x, InWindow (fun _ => 0) (pre ++ [x]) →
        ToldOnlyUnseen (pre ++ [x]) := by
  intro data first second
  refine ⟨by decide, fun all => ?_⟩
  have leads := (toldOnlyUnseen_iff (by decide)).1 all _ (List.prefix_refl _) .forward
  obtain ⟨k, few, missing⟩ := leads 1 3 rfl (by decide +kernel)
  have carried : ∀ k ≤ 2, Carried [first, second] .forward (advance 1 k) := by decide
  exact missing (carried k few)

/-! ### Segments that leave no mark behind -/

/-- No segment is a window probe, and one that occupies the mark starts on it. -/
def Aligned (xs : List Sighting) : Prop :=
  ∀ pre x, pre ++ [x] <+: xs →
    Classified.isZeroWindowProbe (x.sender (exchanged pre)) (x.peer (exchanged pre)) x.segment =
        false ∧
      ∀ mark, ((exchanged pre).get x.direction).maxSeqAcked = some mark →
        x.segment.Occupies mark → x.segment.seq = mark

/-- Everything carried lies in front of the position, and the mark was not carried. -/
structure Ahead (origin : Direction → Seq) (xs : List Sighting) (d : Direction)
    (position mark : Seq) : Prop where
  position : ∀ n, Carried xs d n → (n - origin d).toNat < (position - origin d).toNat
  mark : ¬ Carried xs d mark

theorem not_carried_of_firstSeq? (unseen : firstSeq? xs d = none) (n : Seq) : ¬ Carried xs d n := by
  rintro ⟨x, mem, own, -⟩
  rw [firstSeq?, Option.map_eq_none_iff, List.find?_eq_none] at unseen
  exact unseen x mem (beq_iff_eq.2 own)

/-- What a segment occupies lies in front of its end. -/
theorem Segment.Occupies.lt {s : Segment} {origin n : Seq} (occupied : s.Occupies n)
    (near : (s.seq - origin).toNat + s.sequenceLen < 0x80000000) :
    (n - origin).toNat < (s.endSeq - origin).toNat := by
  obtain ⟨k, few, rfl⟩ := occupied
  rw [Segment.toNat_endSeq_sub near, advance]
  bv_omega

/-- A segment that is no window probe leaves the position behind everything it occupies. -/
theorem Sighting.lt_moved {x : Sighting} {flows : Duplex Flow} {origin n position : Seq}
    (near : (x.segment.seq - origin).toNat + x.segment.sequenceLen < 0x80000000)
    (inside : (position - origin).toNat < 0x80000000)
    (known : (flows.get x.direction).nextSeq = some position)
    (data : Classified.isZeroWindowProbe (x.sender flows) (x.peer flows) x.segment = false)
    (occupied : x.segment.Occupies n) :
    (n - origin).toNat < ((if Classified.moves (x.sender flows) (x.peer flows) x.segment
      then x.segment.endSeq else position) - origin).toNat := by
  have sender : (x.sender flows).nextSeq = some position := known
  split
  · exact occupied.lt near
  · rename_i still
    by_cases alive : Classified.isKeepAlive (x.sender flows) x.segment = true
    · -- the single byte of a keep-alive lies right in front of the position
      rw [Classified.isKeepAlive, Bool.and_eq_true, Bool.and_eq_true, decide_eq_true_iff,
        Bool.not_eq_true', sender] at alive
      have front : position = x.segment.seq + 1 := Option.some_inj.1 (eq_of_beq alive.2)
      obtain ⟨k, few, rfl⟩ := occupied
      rw [Segment.sequenceLen, TcpFlags.sequenceLen_of_plain alive.1.2] at few near
      obtain rfl : k = 0 := by omega
      rw [advance_zero, front]
      bv_omega
    · rw [Classified.moves, data, Bool.eq_false_iff.2 alive, sender, Option.all_some] at still
      have reached := mt after_iff.2 still
      have lt := occupied.lt near
      rw [← Segment.toNat_endSeq_sub near] at near
      bv_omega

/-- The position only moves on. -/
theorem Sighting.le_moved {x : Sighting} {flows : Duplex Flow} {origin position : Seq}
    (near : (x.segment.seq - origin).toNat + x.segment.sequenceLen < 0x80000000)
    (inside : (position - origin).toNat < 0x80000000)
    (known : (flows.get x.direction).nextSeq = some position) :
    (position - origin).toNat ≤ ((if Classified.moves (x.sender flows) (x.peer flows) x.segment
      then x.segment.endSeq else position) - origin).toNat := by
  split
  · rename_i moves
    have further := (Bool.and_eq_true_iff.1 moves).2
    rw [show (x.sender flows).nextSeq = some position from known, Option.all_some, after_iff] at further
    rw [← Segment.toNat_endSeq_sub near] at near
    bv_omega
  · exact Nat.le_refl _

/-- What lies behind everything carried was not carried. -/
theorem Ahead.of_position {position : Seq}
    (front : ∀ n, Carried xs d n → (n - origin d).toNat < (position - origin d).toNat) :
    Ahead origin xs d position position :=
  ⟨front, fun carried => Nat.lt_irrefl _ (front position carried)⟩

/-- **Aligned segments keep the position and the mark ahead.** -/
theorem Standing.ahead {first position mark : Seq} (h : Standing xs d first position mark)
    (near : InWindow origin xs) (aligned : Aligned xs) : Ahead origin xs d position mark := by
  induction xs using List.reverseRecOn generalizing position mark with
  | nil => cases h.first
  | append_singleton xs x ih =>
      have near' := near.of_prefix (List.prefix_append xs [x])
      have aligned' : Aligned xs := fun pre y within =>
        aligned pre y (within.trans (List.prefix_append _ _))
      have fits := (near x List.mem_concat_self).1
      obtain ⟨data, onMark⟩ := aligned xs x (List.prefix_refl _)
      rcases h.cases with ⟨rfl, unseen, -, rfl, rfl⟩ | ⟨rfl, position', mark', before, moved, rfl⟩ |
        ⟨peer, mark', before, followed⟩
      · refine Ahead.of_position fun n carried => ?_
        rcases carried_concat.1 carried with earlier | ⟨-, occupied⟩
        · exact absurd earlier (not_carried_of_firstSeq? unseen n)
        · exact occupied.lt fits
      · have inside := (before.behind near').1.2
        obtain ⟨front, fresh⟩ := ih before near' aligned'
        have front' : ∀ n, Carried (xs ++ [x]) x.direction n →
            (n - origin x.direction).toNat < (position - origin x.direction).toNat := by
          intro n carried
          rw [moved]
          rcases carried_concat.1 carried with earlier | ⟨-, occupied⟩
          · exact Nat.lt_of_lt_of_le (front n earlier) (Sighting.le_moved fits inside before.position)
          · exact Sighting.lt_moved fits inside before.position data occupied
        split
        · exact Ahead.of_position front'
        · rename_i elsewhere
          refine ⟨front', fun carried => ?_⟩
          rcases carried_concat.1 carried with earlier | ⟨-, occupied⟩
          · exact fresh earlier
          · refine elsewhere ?_
            rw [data, onMark mark' before.mark occupied, beq_self_eq_true]
            rfl
      · have same (n : Seq) : Carried (xs ++ [x]) d n ↔ Carried xs d n := by
          rw [carried_concat, or_iff_left]
          rintro ⟨own, -⟩
          cases d <;> cases peer.symm.trans own
        obtain ⟨front, fresh⟩ := ih before near' aligned'
        have front' : ∀ n, Carried (xs ++ [x]) d n →
            (n - origin d).toNat < (position - origin d).toNat :=
          fun n carried => front n ((same n).1 carried)
        rcases followed with rfl | rfl
        · exact Ahead.of_position front'
        · exact ⟨front', mt (same _).1 fresh⟩

/-- **Aligned segments leave no mark behind**, so that data is only told to be unseen where some of it
is. -/
theorem markLeads_of_aligned (near : InWindow origin xs) (aligned : Aligned xs) (d : Direction) :
    MarkLeads xs d := by
  intro first mark seen known
  obtain ⟨position, mark', standing⟩ := exists_standing seen
  obtain rfl := Option.some_inj.1 (known.symm.trans standing.mark)
  refine ⟨(mark - first).toNat, Nat.le_refl _, ?_⟩
  rw [advance_toNat_sub]
  exact (standing.ahead near aligned).mark

end TcpCapture
