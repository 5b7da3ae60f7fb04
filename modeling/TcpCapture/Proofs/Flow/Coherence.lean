import TcpCapture.Proofs.Flow.Judging
import TcpCapture.Proofs.Sequence

/-!
# Findings that fit together

A segment is judged by one check after another, and some checks are left out once an earlier one has said
enough.  Whichever are made, what they find fits together: a segment is late in one way only, nothing late
lies behind a gap, and a segment that nothing is said about continues its direction where that stands.

## Main definitions

* `Classified.Verdict` — the ways a segment is classified, one for each kind of acknowledgment
* `Findings.isLate` — the segment is told to lie in front of the next position
* `Coherent` — how the findings, the class and the position fit together
* `coherent_classify` — every classification is coherent

**Half a turn** away from the position, a segment lies in front of it and not past it, like all that are
late.  Only the end of a segment may be too far away: one that occupies half a turn or more ends in front
of where it starts, and moves nothing.
-/

namespace TcpCapture

/-! ### Findings -/

/-- The segment is told to lie in front of the next position. -/
def Findings.isLate (f : Findings) : Bool := f.isRetransmission || f.outOfOrder

/-- The same findings about a segment that is not late. -/
def Findings.onTime (f : Findings) : Findings :=
  { f with
    retransmission := false, fastRetransmission := false, outOfOrder := false
    spuriousRetransmission := false }

/-- The segment probes its peer, or answers a probe. -/
def Findings.isExempt (f : Findings) : Bool :=
  f.isProbing || f.keepAliveAck || f.zeroWindowProbeAck

/-- A segment is late in one way at most, and whatever is resent in vain is resent. -/
structure Findings.LateOnce (f : Findings) : Prop where
  once : [f.retransmission, f.fastRetransmission, f.outOfOrder].count true ≤ 1
  spurious : f.spuriousRetransmission = true → f.retransmission = true

namespace Findings

theorem isLate_eq_false {f : Findings} : f.isLate = false ↔
    f.retransmission = false ∧ f.fastRetransmission = false ∧ f.spuriousRetransmission = false ∧
      f.outOfOrder = false := by
  unfold isLate isRetransmission
  simp only [Bool.or_eq_false_iff, and_assoc]

theorem isExempt_eq_false {f : Findings} : f.isExempt = false ↔
    f.keepAlive = false ∧ f.zeroWindowProbe = false ∧ f.keepAliveAck = false ∧
      f.zeroWindowProbeAck = false := by
  unfold isExempt isProbing
  simp only [Bool.or_eq_false_iff, and_assoc]

/-- A class that is not the one taken first is left to the rest of the list. -/
theorem of_ite_ne {b : Bool} {first rest tag : SegmentClass}
    (taken : (if b then first else rest) = tag) (other : first ≠ tag) : b = false ∧ rest = tag := by
  cases b with
  | false => exact ⟨rfl, taken⟩
  | true => exact absurd taken other

/-- A segment in order occupies numbers, and nothing is said of its place. -/
theorem of_inOrder {f : Findings} {carriesSequence : Bool}
    (inOrder : f.primaryClass carriesSequence = .inOrder) :
    carriesSequence = true ∧ f.isExempt = false ∧ f.isLate = false ∧ f.lostPacket = false := by
  unfold primaryClass at inOrder
  obtain ⟨alive, inOrder⟩ := of_ite_ne inOrder nofun
  obtain ⟨probes, inOrder⟩ := of_ite_ne inOrder nofun
  obtain ⟨-, inOrder⟩ := of_ite_ne inOrder nofun
  obtain ⟨-, inOrder⟩ := of_ite_ne inOrder nofun
  obtain ⟨resent, inOrder⟩ := of_ite_ne inOrder nofun
  obtain ⟨fast, inOrder⟩ := of_ite_ne inOrder nofun
  obtain ⟨outOfOrder, inOrder⟩ := of_ite_ne inOrder nofun
  obtain ⟨lost, inOrder⟩ := of_ite_ne inOrder nofun
  rw [Bool.or_eq_false_iff] at alive probes resent lost
  refine ⟨?_, isExempt_eq_false.2 ⟨alive.1, probes.1, alive.2, probes.2⟩,
    isLate_eq_false.2 ⟨resent.1, fast, resent.2, outOfOrder⟩, lost.1⟩
  cases carriesSequence with
  | true => rfl
  | false =>
      rw [if_neg Bool.false_ne_true] at inOrder
      split at inOrder <;> cases inOrder

end Findings

namespace Classified

/-! ### The ways a segment is classified -/

section

variable (sender peer : Flow) (s : Segment) (limits : Thresholds)

/-- The window the segment advertises. -/
def advertised : BitVec 32 := sender.scaledWindow s.window s.flags.syn

/-- The findings about a segment that answers no probe: its position, what it acknowledges, and what it is
if it is late. -/
def plainFindings (duplicate : Bool) : Findings :=
  let f := { positionFindings sender peer s (advertised sender s) with
    duplicateAck := duplicate, ackLostPacket := acksUnseen peer s }
  if f.keepAlive then f else withLate f (lateKind? sender peer s limits)

/-- The ways a segment is classified. -/
inductive Verdict : Classified → Prop where
  | windowProbe (probe : isZeroWindowProbe sender peer s = true) :
      Verdict (settle sender peer s { zeroWindowProbe := true } none (advertised sender s))
  | keepAliveAnswer (noProbe : isZeroWindowProbe sender peer s = false)
      (kind : ackKind sender peer s (advertised sender s) = .keepAlive) :
      Verdict (settle sender peer s
        { positionFindings sender peer s (advertised sender s) with keepAliveAck := true } none
        (advertised sender s))
  | probeAnswer (noProbe : isZeroWindowProbe sender peer s = false)
      (kind : ackKind sender peer s (advertised sender s) = .zeroWindowProbe) :
      Verdict (settle sender peer s
        { positionFindings sender peer s (advertised sender s) with zeroWindowProbeAck := true } none
        (advertised sender s))
  | duplicate (noProbe : isZeroWindowProbe sender peer s = false)
      (kind : ackKind sender peer s (advertised sender s) = .duplicate) :
      Verdict (settle { sender with dupAckCount := sender.dupAckCount + 1 }
        (marked peer (acksUnseen peer s)) s (plainFindings sender peer s limits true)
        (some (sender.dupAckCount + 1, sender.lastNondupAck)) (advertised sender s))
  | fresh (noProbe : isZeroWindowProbe sender peer s = false)
      (kind : ackKind sender peer s (advertised sender s) = .fresh) :
      Verdict (settle { sender with lastNondupAck := s.frame, dupAckCount := 0 }
        (marked peer (acksUnseen peer s)) s (plainFindings sender peer s limits false) none
        (advertised sender s))

end

variable {sender peer : Flow} {s : Segment} {limits : Thresholds} {out : Classified}

/-- Neither counting acknowledgments nor marking the peer changes what a late segment is told by. -/
theorem lateKind?_counted (kind : AckKind) (frame : Nat) (unseen : Bool) :
    lateKind? (countAck sender kind frame) (marked peer unseen) s limits =
      lateKind? sender peer s limits := by
  cases kind <;> cases unseen <;> rfl

/-- **Every segment is classified in one of these ways.** -/
theorem verdict_classify (sender peer : Flow) (s : Segment) (limits : Thresholds) :
    Verdict sender peer s limits (classify sender peer s limits) := by
  have judged : Judged sender peer s (positionFindings sender peer s (advertised sender s)) :=
    judged_positionFindings _
  have probing := judged.zeroWindowProbe
  unfold classify
  dsimp only
  rw [show sender.scaledWindow s.window s.flags.syn = advertised sender s from rfl]
  cases probe : isZeroWindowProbe sender peer s with
  | true =>
      rw [if_pos (probing.trans probe), positionFindings, if_pos probe]
      exact .windowProbe probe
  | false =>
      rw [if_neg (by rw [probing, probe]; exact Bool.false_ne_true)]
      cases kind : ackKind sender peer s (advertised sender s) with
      | keepAlive => exact .keepAliveAnswer probe kind
      | zeroWindowProbe => exact .probeAnswer probe kind
      | duplicate =>
          change Verdict _ _ _ _ (settle _ (marked peer (acksUnseen peer s)) s
            (ite _ _ (withLate _ (lateKind? _ (marked peer (acksUnseen peer s)) s limits))) _ _)
          rw [lateKind?_counted]
          exact .duplicate probe kind
      | fresh =>
          change Verdict _ _ _ _ (settle _ (marked peer (acksUnseen peer s)) s
            (ite _ _ (withLate _ (lateKind? _ (marked peer (acksUnseen peer s)) s limits))) _ _)
          rw [lateKind?_counted]
          exact .fresh probe kind

/-! ### Late segments -/

variable {f : Findings}

/-- Segments are late that occupy numbers and start in front of the position. -/
theorem isSome_lateKind? (sender peer : Flow) (s : Segment) (limits : Thresholds) :
    (lateKind? sender peer s limits).isSome =
      sender.nextSeq.any fun next => s.sequenceLen != 0 && before s.seq next := by
  unfold lateKind?
  cases sender.nextSeq with
  | none => rfl
  | some next =>
      dsimp only
      split
      · rename_i away
        rw [Bool.or_eq_true, Bool.not_eq_true', beq_iff_eq] at away
        rw [Option.any_some]
        rcases away with bare | past
        · rw [bare]
          rfl
        · rw [past, Bool.and_false]
          rfl
      · rename_i inFront
        rw [Bool.not_eq_true, Bool.or_eq_false_iff, Bool.not_eq_false'] at inFront
        rw [Option.any_some, inFront.2, Bool.and_true, bne_iff_ne.2 (beq_eq_false_iff_ne.1 inFront.1)]
        split
        · rfl
        · split
          · rfl
          · split <;> rfl

/-- How a segment is late is added to the findings once. -/
theorem lateOnce_withLate (onTime : f.isLate = false) (late : Option LateKind) :
    (withLate f late).LateOnce ∧ (withLate f late).isLate = late.isSome := by
  obtain ⟨resent, fast, spurious, outOfOrder⟩ := Findings.isLate_eq_false.1 onTime
  rcases late with _ | kind
  · refine ⟨⟨?_, fun told => absurd (spurious.symm.trans told) Bool.false_ne_true⟩, onTime⟩
    rw [withLate, resent, fast, outOfOrder]
    decide
  · cases kind with
    | fast =>
        refine ⟨⟨?_, fun told => absurd (spurious.symm.trans told) Bool.false_ne_true⟩, ?_⟩
        · simp [withLate, resent, outOfOrder]
        · simp [withLate, Findings.isLate, Findings.isRetransmission]
    | outOfOrder =>
        refine ⟨⟨?_, fun told => absurd (spurious.symm.trans told) Bool.false_ne_true⟩, ?_⟩
        · simp [withLate, resent, fast]
        · simp [withLate, Findings.isLate]
    | spurious =>
        refine ⟨⟨?_, fun _ => rfl⟩, ?_⟩
        · simp [withLate, fast, outOfOrder]
        · simp [withLate, Findings.isLate, Findings.isRetransmission]
    | ordinary =>
        refine ⟨⟨?_, fun _ => rfl⟩, ?_⟩
        · simp [withLate, fast, outOfOrder]
        · simp [withLate, Findings.isLate, Findings.isRetransmission]

/-- What the findings about a segment are made of: some about a segment that is not late, a gap if it
follows one, and how it is late, where that is looked at. -/
structure Composed (sender peer : Flow) (s : Segment) (limits : Thresholds) (f : Findings)
    (late : Option LateKind) : Prop where
  onTime : f.isLate = false
  gap : f.lostPacket = (!f.zeroWindowProbe && followsGap sender s)
  late : late = if f.isExempt then none else lateKind? sender peer s limits

/-- The findings about the position tell gaps, and nothing that is late. -/
theorem positionFindings_onTime (sender peer : Flow) (s : Segment) (window : BitVec 32) :
    (positionFindings sender peer s window).isLate = false ∧
      (positionFindings sender peer s window).lostPacket =
        (!(positionFindings sender peer s window).zeroWindowProbe && followsGap sender s) := by
  unfold positionFindings
  cases isZeroWindowProbe sender peer s <;> exact ⟨rfl, rfl⟩

/-- They say nothing of acknowledgments. -/
theorem positionFindings_silent (sender peer : Flow) (s : Segment) (window : BitVec 32) :
    (positionFindings sender peer s window).duplicateAck = false ∧
      (positionFindings sender peer s window).keepAliveAck = false ∧
      (positionFindings sender peer s window).zeroWindowProbeAck = false := by
  unfold positionFindings
  split <;> exact ⟨rfl, rfl, rfl⟩

/-- How a segment is late says nothing else of it. -/
theorem onTime_withLate (f : Findings) (late : Option LateKind) :
    (withLate f late).onTime = f.onTime := by
  rcases late with _ | kind
  · rfl
  · cases kind <;> rfl

theorem onTime_plainFindings (sender peer : Flow) (s : Segment) (limits : Thresholds)
    (duplicate : Bool) : (plainFindings sender peer s limits duplicate).onTime =
      { positionFindings sender peer s (advertised sender s) with
        duplicateAck := duplicate, ackLostPacket := acksUnseen peer s }.onTime := by
  unfold plainFindings
  dsimp only
  split
  · rfl
  · exact onTime_withLate _ _

/-- The findings about a segment that answers no probe, taken apart. -/
theorem composed_plainFindings (noProbe : isZeroWindowProbe sender peer s = false)
    (duplicate : Bool) :
    ∃ f late, plainFindings sender peer s limits duplicate = withLate f late ∧
      Composed sender peer s limits f late := by
  have judged : Judged sender peer s (positionFindings sender peer s (advertised sender s)) :=
    judged_positionFindings _
  have position := positionFindings_onTime sender peer s (advertised sender s)
  have silent := positionFindings_silent sender peer s (advertised sender s)
  unfold plainFindings
  generalize positionFindings sender peer s (advertised sender s) = pos at judged position silent ⊢
  obtain ⟨onTime, gap⟩ := position
  obtain ⟨-, noAnswer, noAnswer'⟩ := silent
  have probing : pos.zeroWindowProbe = false := judged.zeroWindowProbe.trans noProbe
  have exempt : pos.isExempt = pos.keepAlive := by
    rw [Findings.isExempt, Findings.isProbing, probing, noAnswer, noAnswer', Bool.or_false,
      Bool.or_false, Bool.or_false]
  dsimp only
  split
  · rename_i alive
    refine ⟨{ pos with duplicateAck := duplicate, ackLostPacket := acksUnseen peer s }, none, rfl,
      onTime, gap, ?_⟩
    exact (if_pos (exempt.trans alive)).symm
  · rename_i alive
    refine ⟨{ pos with duplicateAck := duplicate, ackLostPacket := acksUnseen peer s }, _, rfl, onTime,
      gap, ?_⟩
    exact (if_neg fun same => alive (exempt.symm.trans same)).symm

/-- **All findings are made up in one way**, whichever checks are left out. -/
theorem Verdict.composed (h : Verdict sender peer s limits out) :
    ∃ f late, out.classification.findings = withLate f late ∧ Composed sender peer s limits f late := by
  have position := positionFindings_onTime sender peer s (advertised sender s)
  -- an answer to a probe exempts the segment, whatever its position
  have answers {f : Findings} (exempt : f.isExempt = true) :
      (none : Option LateKind) = if f.isExempt then none else lateKind? sender peer s limits :=
    (if_pos exempt).symm
  cases h with
  | windowProbe probe => exact ⟨{ zeroWindowProbe := true }, none, rfl, rfl, rfl, rfl⟩
  | keepAliveAnswer noProbe =>
      refine ⟨_, none, rfl, position.1, position.2, answers ?_⟩
      exact Bool.or_eq_true_iff.2 (Or.inl (Bool.or_eq_true_iff.2 (Or.inr rfl)))
  | probeAnswer noProbe =>
      refine ⟨_, none, rfl, position.1, position.2, answers ?_⟩
      exact Bool.or_eq_true_iff.2 (Or.inr rfl)
  | duplicate noProbe => exact composed_plainFindings noProbe true
  | fresh noProbe => exact composed_plainFindings noProbe false

end Classified

/-! ### Coherence -/

open Classified

/-- How what is found about a segment, its class and its position fit together; `sender` is the flow of the
segment before it. -/
structure Coherent (sender : Flow) (s : Segment) (out : Classified) : Prop
    extends out.classification.findings.LateOnce where
  gap : out.classification.findings.lostPacket = true → out.classification.findings.isLate = false
  repeated : out.classification.findings.duplicateAck = true →
    out.classification.findings.windowUpdate = false
  inFront : out.classification.findings.isLate = true →
    ∃ next, sender.nextSeq = some next ∧ before s.seq next = true
  /-- A segment in order starts on the position, if there is one, and takes it to its end. -/
  inOrder : out.classification.segmentClass = .inOrder → s.flags.rst = false →
    (sender.nextSeq = none ∨ sender.nextSeq = some s.seq) ∧
      out.sender.nextSeq =
        some (advance s.seq (s.payloadLen + s.flags.syn.toNat + s.flags.fin.toNat))

section

variable {sender peer : Flow} {s : Segment} {limits : Thresholds} {out : Classified}

/-- All acknowledgments but fresh ones repeat the position. -/
theorem Classified.repeatsPosition_of_ackKind {window : BitVec 32}
    (stale : ackKind sender peer s window ≠ .fresh) : repeatsPosition sender s window = true := by
  cases moved : repeatsPosition sender s window with
  | true => rfl
  | false => exact absurd (by rw [ackKind, moved]; rfl) stale

/-- A segment that repeats the position does not change the window. -/
theorem Classified.windowUpdate_of_repeats {window : BitVec 32}
    (repeats : repeatsPosition sender s window = true) :
    (positionFindings sender peer s window).windowUpdate = false := by
  unfold repeatsPosition at repeats
  have same : sender.window = some window := eq_of_beq (Bool.and_eq_true_iff.1 repeats).2
  have unchanged : isWindowUpdate sender s window = false := by
    rw [isWindowUpdate, same, Option.any_some, bne_self_eq_false, Bool.and_false, Bool.false_and,
      Bool.false_and]
  unfold positionFindings
  split
  · rfl
  · exact unchanged

/-- A repeated acknowledgment leaves the window as it is. -/
theorem Classified.Verdict.windowUpdate_of_duplicate (h : Verdict sender peer s limits out)
    (repeated : out.classification.findings.duplicateAck = true) :
    out.classification.findings.windowUpdate = false := by
  obtain ⟨silent, -, -⟩ := positionFindings_silent sender peer s (advertised sender s)
  cases h with
  | windowProbe => rfl
  | keepAliveAnswer => exact absurd (silent.symm.trans repeated) Bool.false_ne_true
  | probeAnswer => exact absurd (silent.symm.trans repeated) Bool.false_ne_true
  | fresh =>
      have fresh := congrArg Findings.duplicateAck
        (onTime_plainFindings sender peer s limits false)
      exact absurd (fresh.symm.trans repeated) Bool.false_ne_true
  | duplicate noProbe kind =>
      have position := congrArg Findings.windowUpdate
        (onTime_plainFindings sender peer s limits true)
      exact position.trans (windowUpdate_of_repeats
        (repeatsPosition_of_ackKind (by rw [kind]; exact AckKind.noConfusion)))

/-- The class of a segment is that of its findings. -/
theorem Classified.Verdict.segmentClass_eq (h : Verdict sender peer s limits out) :
    out.classification.segmentClass =
      out.classification.findings.primaryClass (s.sequenceLen != 0) := by
  cases h <;> rfl

/-- A late segment starts in front of the position. -/
theorem Classified.Composed.inFront {f : Findings} {late : Option LateKind}
    (composed : Composed sender peer s limits f late) (told : late.isSome = true) :
    ∃ next, sender.nextSeq = some next ∧ before s.seq next = true := by
  rw [composed.late] at told
  split at told
  · cases told
  · rw [isSome_lateKind?, Option.any_eq_true] at told
    obtain ⟨next, position, late⟩ := told
    exact ⟨next, position, (Bool.and_eq_true_iff.1 late).2⟩

/-- A segment behind a gap is not late. -/
theorem Classified.Composed.onTime_of_gap {f : Findings} {late : Option LateKind}
    (composed : Composed sender peer s limits f late) (lost : f.lostPacket = true) :
    late.isSome = false := by
  refine Bool.eq_false_iff.2 fun told => ?_
  obtain ⟨next, position, front⟩ := composed.inFront told
  rw [composed.gap, followsGap, position, Option.any_some, after, front, Bool.not_true,
    Bool.and_false, Bool.and_false, Bool.and_false] at lost
  cases lost

/-- A segment that occupies numbers, is not late and follows no gap starts on the position. -/
theorem Classified.Composed.starts {f : Findings} (composed : Composed sender peer s limits f none)
    (exempt : f.isExempt = false) (noGap : f.lostPacket = false) (plain : s.flags.rst = false)
    (occupied : s.sequenceLen ≠ 0) : sender.nextSeq = none ∨ sender.nextSeq = some s.seq := by
  have onTime := composed.late
  rw [exempt, if_neg Bool.false_ne_true] at onTime
  have notLate := isSome_lateKind? sender peer s limits
  rw [← onTime] at notLate
  have reached := composed.gap
  rw [noGap, (Findings.isExempt_eq_false.1 exempt).2.1, followsGap, plain] at reached
  cases position : sender.nextSeq with
  | none => exact Or.inl rfl
  | some next =>
      rw [position, Option.any_some, bne_iff_ne.2 occupied, Bool.true_and] at notLate
      rw [position, Option.any_some] at reached
      -- neither in front of the position nor past it
      have same : after s.seq next = false := reached.symm
      rw [after, ← notLate] at same
      simp only [Option.isSome_none, Bool.not_false, Bool.and_true, bne_eq_false_iff_eq] at same
      exact Or.inr (congrArg some same.symm)

/-- A segment that starts on the position takes it to its end. -/
theorem Classified.moves_of_starts (starts : sender.nextSeq = none ∨ sender.nextSeq = some s.seq)
    (noProbe : isZeroWindowProbe sender peer s = false) (dead : isKeepAlive sender s = false)
    (occupied : s.sequenceLen ≠ 0) (short : s.sequenceLen < 0x80000000) :
    moves sender peer s = true := by
  have further := after_advance s.seq (m := s.sequenceLen) (n := 0) (by omega) (by omega)
  rw [advance_zero] at further
  rw [moves, noProbe, dead]
  rcases starts with position | position
  · rw [position]
    rfl
  · rw [position, Option.all_some, Segment.endSeq, further]
    exact decide_eq_true (Nat.pos_of_ne_zero occupied)

/-- **Every classification is coherent**, as long as the segment occupies less than half a turn. -/
theorem coherent_classify (sender peer : Flow) (limits : Thresholds)
    (short : s.sequenceLen < 0x80000000) : Coherent sender s (classify sender peer s limits) := by
  have verdict := verdict_classify sender peer s limits
  obtain ⟨f, late, found, composed⟩ := verdict.composed
  obtain ⟨once, lateness⟩ := lateOnce_withLate composed.onTime late
  rw [← found] at once lateness
  have rest : (classify sender peer s limits).classification.findings.onTime = f.onTime :=
    found ▸ onTime_withLate f late
  have gap := (congrArg Findings.lostPacket rest :)
  refine {
    toLateOnce := once
    gap := fun lost => lateness.trans (composed.onTime_of_gap (gap.symm.trans lost))
    repeated := verdict.windowUpdate_of_duplicate
    inFront := fun told => composed.inFront (lateness.symm.trans told)
    inOrder := fun inOrder plain => ?_ }
  rw [verdict.segmentClass_eq] at inOrder
  obtain ⟨occupied, exempt, onTime, noGap⟩ := Findings.of_inOrder inOrder
  obtain rfl : late = none := by simpa using lateness.symm.trans onTime
  have occupied : s.sequenceLen ≠ 0 := bne_iff_ne.1 occupied
  have starts := composed.starts ((congrArg Findings.isExempt rest :).symm.trans exempt)
    (gap.symm.trans noGap) plain occupied
  obtain ⟨dead, noProbe, -, -⟩ := Findings.isExempt_eq_false.1 exempt
  rw [zeroWindowProbe_classify] at noProbe
  rw [keepAlive_classify, noProbe, Bool.not_false, Bool.true_and] at dead
  refine ⟨starts, ?_⟩
  rw [nextSeq_classify, if_pos (moves_of_starts starts noProbe dead occupied short), Segment.endSeq,
    Segment.sequenceLen, TcpFlags.sequenceLen, Nat.add_assoc]

/-- Data with a FIN, across the end of the sequence space, is in order where its direction stands. -/
theorem coherent_classify_wrapping :
    let sender : Flow := { nextSeq := some 0xffffffff, window := some 500 }
    let s : Segment := {
      source := ⟨.v4 0x0a000001, 40000⟩, destination := ⟨.v4 0x0a000002, 443⟩, seq := 0xffffffff
      payload := [1, 2], flags.fin := true }
    s.sequenceLen < 0x80000000 ∧
      (classify sender {} s {}).classification.segmentClass = .inOrder ∧
      (classify sender {} s {}).sender.nextSeq = some 2 ∧ Coherent sender s (classify sender {} s {}) := by
  intro sender s
  have short : s.sequenceLen < 0x80000000 := by decide
  have inOrder : (classify sender {} s {}).classification.segmentClass = .inOrder := by decide +kernel
  have coherent := coherent_classify sender {} {} short
  exact ⟨short, inOrder, (coherent.inOrder inOrder rfl).2.trans (by decide), coherent⟩

end

end TcpCapture
