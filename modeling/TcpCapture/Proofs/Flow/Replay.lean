import TcpCapture.Proofs.Flow.Exchange

/-!
# Replayed data

A segment of data repeats bytes that its sender has sent and its peer has acknowledged.  It says nothing
new, so it should be told to be a retransmission and leave the numbers of its sender alone.  Whether that
is so is told by the position and the mark of the sender, and by the time: a segment that is captured
soon after the position has moved is taken to be out of order instead, acknowledged or not.

## Main definitions

* `Replay` — data that was sent and acknowledged comes once more
* `Replay.Idempotent` — it changes no number and is told to be a retransmission
* `Replay.Old` — it lies in front of the position, off the mark, and comes late enough
* `Replay.idempotent_iff` — a replay is idempotent exactly if it is old
-/

namespace TcpCapture

open Classified

/-- After some sightings, a segment of data that repeats what was sent and acknowledged. -/
structure Replay where
  earlier : List Sighting
  last : Sighting
  data : 2 ≤ last.segment.payloadLen
  plain : last.segment.flags.hasControl = false
  sent : ∀ k < last.segment.payloadLen,
    Carried earlier last.direction (advance last.segment.seq k)
  acknowledged : ∃ ack, ((exchanged earlier).get last.direction.opposite).lastAck = some ack ∧
    ∀ k < last.segment.payloadLen, before (advance last.segment.seq k) ack = true

namespace Replay

variable (p : Replay)

/-- The flow of the replay, before it comes. -/
def owner : Flow := (exchanged p.earlier).get p.last.direction

/-- The same flow after it. -/
def ownerAfter : Flow := (exchanged (p.earlier ++ [p.last])).get p.last.direction

/-- The segment, classified. -/
def judged : Classified := p.last.judged (exchanged p.earlier)

/-- The window it advertises. -/
def window : BitVec 32 :=
  (p.last.sender (exchanged p.earlier)).scaledWindow p.last.segment.window p.last.segment.flags.syn

/-- No number changes, and the segment is told to be a retransmission, whatever else it is told to be
when it closes the window. -/
structure Idempotent : Prop where
  nextSeq : p.ownerAfter.nextSeq = p.owner.nextSeq
  maxSeqAcked : p.ownerAfter.maxSeqAcked = p.owner.maxSeqAcked
  retransmission : p.judged.classification.findings.retransmission = true
  segmentClass : p.window ≠ 0 → p.judged.classification.segmentClass = .retransmission

/-- The segment lies in front of the position, starts off the mark, and ends on the position or comes when
that was not moved a short time ago. -/
structure Old (next : Seq) : Prop where
  starts : before p.last.segment.seq next = true
  ends : after p.last.segment.payloadEnd next = false
  offMark : p.owner.maxSeqAcked ≠ some p.last.segment.seq
  late : isWithin p.last.segment.timestamp p.owner.nextSeqTime p.last.limits.outOfOrder = true →
    next = p.last.segment.payloadEnd

/-! ### The numbers -/

theorem endSeq_eq : p.last.segment.endSeq = p.last.segment.payloadEnd := by
  rw [Segment.endSeq, Segment.sequenceLen, TcpFlags.sequenceLen_of_plain p.plain]
  rfl

theorem moves_eq : moves (p.last.sender (exchanged p.earlier)) (p.last.peer (exchanged p.earlier))
    p.last.segment = p.owner.nextSeq.all (after p.last.segment.payloadEnd) := by
  obtain ⟨probe, keepAlive⟩ := no_probe_of_data (p.last.sender (exchanged p.earlier))
    (p.last.peer (exchanged p.earlier)) p.data
  rw [moves, probe, keepAlive, p.endSeq_eq]
  rfl

theorem nextSeq_ownerAfter : p.ownerAfter.nextSeq =
    if p.owner.nextSeq.all (after p.last.segment.payloadEnd) then some p.last.segment.payloadEnd
    else p.owner.nextSeq := by
  rw [ownerAfter, exchanged_concat, Sighting.nextSeq_settled, moves_eq, endSeq_eq]
  rfl

theorem maxSeqAcked_ownerAfter : p.ownerAfter.maxSeqAcked =
    if p.owner.maxSeqAcked.all (· == p.last.segment.seq) then p.ownerAfter.nextSeq
    else p.owner.maxSeqAcked := by
  rw [ownerAfter, exchanged_concat, Sighting.maxSeqAcked_settled,
    (no_probe_of_data _ _ p.data).1]
  rfl

/-- A replay leaves the position alone if it ends there or in front of it. -/
theorem nextSeq_ownerAfter_eq_iff {next : Seq} (known : p.owner.nextSeq = some next) :
    p.ownerAfter.nextSeq = p.owner.nextSeq ↔ after p.last.segment.payloadEnd next = false := by
  rw [nextSeq_ownerAfter, known, Option.all_some]
  cases further : after p.last.segment.payloadEnd next with
  | false => exact iff_of_true rfl rfl
  | true =>
      refine iff_of_false (fun same => ?_) (Ne.symm Bool.false_ne_true)
      obtain rfl : p.last.segment.payloadEnd = next := Option.some_inj.1 same
      rw [after_self] at further
      cases further

/-! ### What it is told to be -/

/-- Nobody waits for the replay to be resent: it starts in front of what is asked for. -/
theorem isFastRetransmission_eq :
    isFastRetransmission (p.last.peer (exchanged p.earlier)) p.last.segment p.last.limits = false := by
  obtain ⟨ack, known, covered⟩ := p.acknowledged
  have start := covered 0 (Nat.lt_of_lt_of_le Nat.two_pos p.data)
  rw [advance_zero] at start
  have asked : ((p.last.peer (exchanged p.earlier)).lastAck == some p.last.segment.seq) = false := by
    rw [show (p.last.peer (exchanged p.earlier)).lastAck = some ack from known, beq_eq_false_iff_ne]
    rintro same
    rw [Option.some_inj.1 same, before_self] at start
    cases start
  rw [isFastRetransmission, asked, Bool.and_false, Bool.false_and]

/-- What kind of late segment a replay is: it is captured late, or resent. -/
theorem lateKind?_eq {next : Seq} (known : p.owner.nextSeq = some next) :
    ∃ resent, (resent = .spurious ∨ resent = .ordinary) ∧
      lateKind? (p.last.sender (exchanged p.earlier)) (p.last.peer (exchanged p.earlier))
        p.last.segment p.last.limits =
      if before p.last.segment.seq next then
        if isWithin p.last.segment.timestamp p.owner.nextSeqTime p.last.limits.outOfOrder &&
            next != p.last.segment.payloadEnd then some .outOfOrder
        else some resent
      else none := by
  have occupied : (p.last.segment.sequenceLen == 0) = false := by
    have data := p.data
    rw [beq_eq_false_iff_ne, Segment.sequenceLen]
    omega
  have position : (p.last.sender (exchanged p.earlier)).nextSeq = some next := known
  rw [lateKind?, position]
  dsimp only
  rw [occupied, p.isFastRetransmission_eq, Bool.false_or]
  cases before p.last.segment.seq next with
  | false => exact ⟨.ordinary, Or.inr rfl, rfl⟩
  | true =>
      by_cases spurious : (p.last.segment.payloadLen != 0 &&
          (p.last.peer (exchanged p.earlier)).lastAck.any (atOrBefore p.last.segment.payloadEnd)) = true
      · rw [if_pos spurious]
        exact ⟨.spurious, Or.inl rfl, rfl⟩
      · rw [if_neg spurious]
        exact ⟨.ordinary, Or.inr rfl, rfl⟩

/-- The findings about a replay. -/
theorem findings_eq : p.judged.classification.findings =
    withLate
      { zeroWindow := p.window == 0 && !p.last.segment.flags.hasControl
        lostPacket := followsGap (p.last.sender (exchanged p.earlier)) p.last.segment
        windowFull := fillsWindow (p.last.peer (exchanged p.earlier)) p.last.segment
        ackLostPacket := acksUnseen (p.last.peer (exchanged p.earlier)) p.last.segment }
      (lateKind? (p.last.sender (exchanged p.earlier)) (p.last.peer (exchanged p.earlier))
        p.last.segment p.last.limits) := by
  refine (findings_classify_of_data _ _ _ p.data).trans ?_
  rw [positionFindings_of_data _ _ p.data]
  rfl

/-- A replay is told to be a retransmission if it starts in front of the position and is not taken to be
out of order. -/
theorem retransmission_iff {next : Seq} (known : p.owner.nextSeq = some next) :
    p.judged.classification.findings.retransmission = true ↔
      before p.last.segment.seq next = true ∧
        (isWithin p.last.segment.timestamp p.owner.nextSeqTime p.last.limits.outOfOrder = true →
          next = p.last.segment.payloadEnd) := by
  obtain ⟨resent, kind, late⟩ := p.lateKind?_eq known
  rw [p.findings_eq, late]
  cases before p.last.segment.seq next with
  | false => exact iff_of_false Bool.false_ne_true fun old => Bool.false_ne_true old.1
  | true =>
      rw [if_pos rfl]
      split
      · rename_i early
        rw [Bool.and_eq_true, bne_iff_ne] at early
        exact iff_of_false Bool.false_ne_true fun old => early.2 (old.2 early.1)
      · rename_i late
        rw [Bool.and_eq_true, bne_iff_ne, not_and_not_right] at late
        refine iff_of_true ?_ ⟨rfl, late⟩
        rcases kind with rfl | rfl <;> rfl

/-- A replay that is told to be a retransmission is of that class, unless it closes the window. -/
theorem segmentClass_of_retransmission
    (told : p.judged.classification.findings.retransmission = true) (opened : p.window ≠ 0) :
    p.judged.classification.segmentClass = .retransmission := by
  have settled : p.judged.classification.segmentClass =
      p.judged.classification.findings.primaryClass (p.last.segment.sequenceLen != 0) := by
    obtain ⟨nondup, dups, found, dupAck, -, eq⟩ := classify_cases
      (p.last.sender (exchanged p.earlier)) (p.last.peer (exchanged p.earlier)) p.last.segment
      p.last.limits
    rw [judged, Sighting.judged, eq]
    rfl
  rw [settled, p.findings_eq, beq_eq_false_iff_ne.2 opened]
  rw [p.findings_eq] at told
  generalize lateKind? _ _ _ _ = late at told ⊢
  rcases late with _ | late
  · cases told
  · cases late with
    | fast => cases told
    | outOfOrder => cases told
    | spurious => rfl
    | ordinary => rfl

/-- **Data that was sent and acknowledged is idempotent if and only if it is old.** -/
theorem idempotent_iff : p.Idempotent ↔ ∃ next, p.owner.nextSeq = some next ∧ p.Old next := by
  constructor
  · intro same
    cases known : p.owner.nextSeq with
    | none =>
        have moved := p.nextSeq_ownerAfter
        rw [same.nextSeq, known] at moved
        cases moved
    | some next =>
        obtain ⟨starts, late⟩ := (p.retransmission_iff known).1 same.retransmission
        refine ⟨next, rfl, starts, (p.nextSeq_ownerAfter_eq_iff known).1 same.nextSeq, ?_, late⟩
        intro onMark
        -- a replay on the mark takes it to the position, which lies behind
        have marked := p.maxSeqAcked_ownerAfter
        rw [same.maxSeqAcked, same.nextSeq, onMark, known, Option.all_some, beq_self_eq_true,
          if_pos rfl, Option.some_inj] at marked
        rw [marked, before_self] at starts
        cases starts
  · rintro ⟨next, known, old⟩
    have told := (p.retransmission_iff known).2 ⟨old.starts, old.late⟩
    refine ⟨(p.nextSeq_ownerAfter_eq_iff known).2 old.ends, ?_, told,
      p.segmentClass_of_retransmission told⟩
    obtain ⟨mark, marked⟩ := Option.isSome_iff_exists.1 (show p.owner.maxSeqAcked.isSome from by
      rw [owner, isSome_maxSeqAcked]
      exact Option.isSome_iff_exists.2 ⟨next, known⟩)
    have elsewhere : (mark == p.last.segment.seq) = false :=
      beq_eq_false_iff_ne.2 fun same => old.offMark (same ▸ marked)
    rw [p.maxSeqAcked_ownerAfter, marked, Option.all_some, elsewhere]
    rfl

/-- Four bytes are sent in two segments and acknowledged, and the first segment comes once more at once.
It is told to be out of order. -/
theorem not_idempotent : ¬ ∀ p : Replay, p.Idempotent := by
  intro all
  let client : Endpoint := ⟨.v4 0x0a000001, 40000⟩
  let server : Endpoint := ⟨.v4 0x0a000002, 443⟩
  let data : Segment := { source := client, destination := server, seq := 1, payload := [1, 2] }
  let first : Sighting := { direction := .forward, segment := { data with timestamp := 1 } }
  let second : Sighting :=
    { direction := .forward, segment := { data with seq := 3, payload := [3, 4], timestamp := 2 } }
  let answer : Sighting := {
    direction := .reverse
    segment := {
      source := server, destination := client, seq := 1, ack := 5, flags.ack := true, timestamp := 3 } }
  let again : Sighting := { direction := .forward, segment := { data with timestamp := 4 } }
  have sent : ∀ k < 2, Carried [first, second, answer] .forward (advance 1 k) := by decide
  have acknowledged : ((exchanged [first, second, answer]).get .reverse).lastAck = some 5 ∧
      ∀ k < 2, before (advance (1 : Seq) k) 5 = true := by decide +kernel
  let p : Replay := ⟨[first, second, answer], again, by decide, by decide, sent, 5, acknowledged⟩
  have late : (again.findings (exchanged [first, second, answer])).retransmission = false := by
    decide +kernel
  exact Bool.false_ne_true (late.symm.trans (all p).retransmission)

end Replay

end TcpCapture
