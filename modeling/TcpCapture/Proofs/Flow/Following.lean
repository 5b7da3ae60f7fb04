import TcpCapture.Proofs.Flow.Exchange

/-!
# Following without judging

Where segments are not judged, both flows are still brought up to date, by the rules that settle them
after a judgement.  The rules look at the judgement once: a segment that probes does not move the
position.  A keep-alive would not move it anyway, as it ends on the position or in front of it.  The byte
that probes a closed window lies behind it, and moves it when nobody says that it is a probe.

## Main definitions

* `Progress`, `Measurement` — what is followed of a flow; what is measured on a segment
* `Sighting.followed`, `followed` — a segment that is not judged; the two flows after some of them
* `FollowedAlike` — the flows are followed, and segments measured, as if segments were judged
* `followedAlike_iff` — they are exactly if no segment probes a closed window
-/

namespace TcpCapture

open Classified

/-- What is followed of a flow, whether its segments are judged or not. -/
structure Progress where
  nextSeq : Option Seq
  nextSeqTime : Nat
  window : Option (BitVec 32)
  lastAck : Option Seq
  lastAckTime : Nat
  unacked : List UnackedSegment
deriving DecidableEq, Repr

/-- How far a flow has got. -/
def Flow.progress (f : Flow) : Progress :=
  { nextSeq := f.nextSeq, nextSeqTime := f.nextSeqTime, window := f.window, lastAck := f.lastAck,
    lastAckTime := f.lastAckTime, unacked := f.unacked }

/-- What is measured on a segment. -/
structure Measurement where
  ackedFrame : Option Nat
  ackRtt : Option Nat
  bytesInFlight : Option Nat
deriving DecidableEq, Repr

/-- What a classification has measured. -/
def Classification.measurement (c : Classification) : Measurement :=
  { ackedFrame := c.ackedFrame, ackRtt := c.ackRtt, bytesInFlight := c.bytesInFlight }

/-! ### Settling -/

namespace Classified

variable {sender sender' peer peer' : Flow} {s : Segment}

/-- A keep-alive ends on the position or in front of it. -/
theorem not_past_of_isKeepAlive (alive : isKeepAlive sender s = true) :
    sender.nextSeq.all (after s.endSeq) = false := by
  unfold isKeepAlive at alive
  simp only [Bool.and_eq_true, decide_eq_true_eq, Bool.not_eq_true', beq_iff_eq] at alive
  obtain ⟨⟨single, plain⟩, front⟩ := alive
  have occupied : s.sequenceLen ≤ 1 := by
    rw [Segment.sequenceLen, TcpFlags.sequenceLen_of_plain plain]
    exact single
  rw [front, Option.all_some, Segment.endSeq, show s.seq + 1 = advance s.seq 1 from rfl,
    after_advance _ (by omega) (by omega), decide_eq_false (by omega)]

/-- A window probe starts on the position and ends past it. -/
theorem past_of_isZeroWindowProbe (probe : isZeroWindowProbe sender peer s = true) :
    sender.nextSeq = some s.seq ∧ after s.endSeq s.seq = true := by
  unfold isZeroWindowProbe at probe
  simp only [Bool.and_eq_true, beq_iff_eq] at probe
  obtain ⟨⟨single, onPosition⟩, -⟩ := probe
  have few := s.flags.sequenceLen_le
  have past := after_advance s.seq (m := s.sequenceLen) (n := 0)
    (by rw [Segment.sequenceLen]; omega) (by omega)
  rw [advance_zero] at past
  rw [Segment.endSeq, past]
  exact ⟨onPosition, decide_eq_true (by rw [Segment.sequenceLen]; omega)⟩

/-- Only a window probe keeps a segment that ends past the position from moving it. -/
theorem moves_eq_past : moves sender peer s =
    (!isZeroWindowProbe sender peer s && sender.nextSeq.all (after s.endSeq)) := by
  unfold moves
  cases alive : isKeepAlive sender s with
  | false => rw [Bool.not_false, Bool.and_true]
  | true => rw [not_past_of_isKeepAlive alive, Bool.and_false, Bool.and_false]

/-- Two settlements bring both flows equally far and measure the same. -/
structure Alike (x y : Classified) : Prop where
  sender : x.sender.progress = y.sender.progress
  peer : x.peer.progress = y.peer.progress
  measurement : x.classification.measurement = y.classification.measurement

/-- **Settling sees of the findings only whether the sender advances**, as far as progress goes. -/
theorem alike_settle (same : sender.progress = sender'.progress)
    (samePeer : peer.progress = peer'.progress) {found found' : Findings}
    (advance : advances sender s found = advances sender' s found')
    (dupAck dupAck' : Option (BitVec 32 × Nat)) (window : BitVec 32) :
    Alike (settle sender peer s found dupAck window)
      (settle sender' peer' s found' dupAck' window) := by
  have nextSeq : sender.nextSeq = sender'.nextSeq := congrArg Progress.nextSeq same
  have nextSeqTime : sender.nextSeqTime = sender'.nextSeqTime := congrArg Progress.nextSeqTime same
  have lastAck : sender.lastAck = sender'.lastAck := congrArg Progress.lastAck same
  have lastAckTime : sender.lastAckTime = sender'.lastAckTime := congrArg Progress.lastAckTime same
  have unacked : sender.unacked = sender'.unacked := congrArg Progress.unacked same
  have waiting : peer.unacked = peer'.unacked := congrArg Progress.unacked samePeer
  have acked : peer.lastAck = peer'.lastAck := congrArg Progress.lastAck samePeer
  have settled : (recordSegment sender s found window).progress =
      (recordSegment sender' s found' window).progress := by
    unfold recordSegment Flow.progress
    dsimp only
    rw [advance, nextSeq, nextSeqTime, lastAck, lastAckTime, unacked]
  have exactly : peer.ackedExactly s.ack = peer'.ackedExactly s.ack := by
    rw [Flow.ackedExactly, waiting]
    rfl
  refine ⟨settled, ?_, ?_⟩
  · have pruned : (peer.pruneAcked s.ack).progress = (peer'.pruneAcked s.ack).progress := by
      have rest := congrArg
        (fun p : Progress => { p with unacked := p.unacked.filter (!atOrBefore ·.nextSeq s.ack) }) samePeer
      exact rest
    show (if s.flags.ack then peer.pruneAcked s.ack else peer).progress =
      (if s.flags.ack then peer'.pruneAcked s.ack else peer').progress
    rw [apply_ite Flow.progress, apply_ite Flow.progress, pruned, samePeer]
  · have inFlight : bytesInFlight (recordSegment sender s found window) peer s =
        bytesInFlight (recordSegment sender' s found' window) peer' s := by
      rw [bytesInFlight, acked, show (recordSegment sender s found window).nextSeq =
        (recordSegment sender' s found' window).nextSeq from congrArg Progress.nextSeq settled]
      rfl
    unfold settle Classification.measurement
    dsimp only
    rw [exactly, inFlight]

/-- A segment that does not probe a closed window is settled alike, judged or not. -/
theorem alike_track (same : sender.progress = sender'.progress)
    (samePeer : peer.progress = peer'.progress) (scale : sender.windowScale = sender'.windowScale)
    (limits : Thresholds) (noProbe : isZeroWindowProbe sender' peer' s = false) :
    Alike (track sender peer s) (classify sender' peer' s limits) := by
  obtain ⟨nondup, dups, found, dupAck, judged, eq⟩ := classify_cases sender' peer' s limits
  have window : sender.scaledWindow s.window s.flags.syn =
      sender'.scaledWindow s.window s.flags.syn := by
    rw [Flow.scaledWindow, scale]
    rfl
  have marked : peer'.progress = (marked peer' found.ackLostPacket).progress := by
    unfold Classified.marked
    split <;> rfl
  have probing : (!found.isProbing) =
      (!isZeroWindowProbe sender' peer' s && !isKeepAlive sender' s) := by
    rw [Findings.isProbing, judged.keepAlive, judged.zeroWindowProbe]
    cases isZeroWindowProbe sender' peer' s <;> cases isKeepAlive sender' s <;> rfl
  have advance : advances sender s {} =
      advances { sender' with lastNondupAck := nondup, dupAckCount := dups } s found := by
    have moves := @moves_eq_past sender' peer' s
    rw [noProbe] at moves
    have position : sender.nextSeq = sender'.nextSeq := congrArg Progress.nextSeq same
    unfold advances
    rw [probing, position]
    exact moves.symm
  have counted : sender.progress =
      Flow.progress { sender' with lastNondupAck := nondup, dupAckCount := dups } := same
  rw [eq, track, window]
  exact alike_settle counted (samePeer.trans marked) advance _ _ _

end Classified

/-! ### Runs -/

namespace Sighting

variable (x : Sighting) (flows : Duplex Flow)

/-- The segment, not judged. -/
def followed : Classified := track (x.sender flows) (x.peer flows) x.segment

/-- Both flows after the segment, when it is not judged. -/
def passed : Duplex Flow :=
  (flows.set x.direction (x.followed flows).sender).set x.direction.opposite (x.followed flows).peer

theorem get_passed : (x.passed flows).get x.direction = (x.followed flows).sender := by
  rw [passed, Duplex.get_set_of_opposite, Duplex.get_set_same]

theorem get_passed_opposite :
    (x.passed flows).get x.direction.opposite = (x.followed flows).peer := by
  rw [passed, Duplex.get_set_same]

end Sighting

/-- Both flows after some segments that are not judged. -/
def followed (xs : List Sighting) : Duplex Flow :=
  xs.foldl (fun flows x => x.passed flows) (.both {})

theorem followed_concat (xs : List Sighting) (x : Sighting) :
    followed (xs ++ [x]) = x.passed (followed xs) := List.foldl_append

/-- Both flows have got equally far in two histories. -/
def EquallyFar (flows flows' : Duplex Flow) : Prop :=
  ∀ d, (flows.get d).progress = (flows'.get d).progress

/-- Whether segments are judged or not makes no difference: at any time both flows have got equally far, and
the same is measured on each segment. -/
structure FollowedAlike (xs : List Sighting) : Prop where
  far : ∀ pre, pre <+: xs → EquallyFar (followed pre) (exchanged pre)
  measured : ∀ pre x, pre ++ [x] <+: xs →
    (x.followed (followed pre)).classification.measurement =
      (x.judged (exchanged pre)).classification.measurement

/-- No segment is a single byte on the position, into a window its peer has closed. -/
def NoWindowProbes (xs : List Sighting) : Prop :=
  ∀ pre x, pre ++ [x] <+: xs →
    isZeroWindowProbe (x.sender (exchanged pre)) (x.peer (exchanged pre)) x.segment = false

namespace Sighting

variable {x : Sighting} {flows flows' : Duplex Flow}

theorem alike (far : EquallyFar flows flows')
    (noProbe : isZeroWindowProbe (x.sender flows') (x.peer flows') x.segment = false) :
    Alike (x.followed flows) (x.judged flows') := by
  have own : (x.sender flows).progress = (x.sender flows').progress := far x.direction
  have other : (x.peer flows).progress = (x.peer flows').progress := far x.direction.opposite
  exact alike_track own other rfl x.limits noProbe

/-- **One segment keeps both histories together**, unless it probes a closed window. -/
theorem equallyFar_passed (far : EquallyFar flows flows')
    (noProbe : isZeroWindowProbe (x.sender flows') (x.peer flows') x.segment = false) :
    EquallyFar (x.passed flows) (x.settled flows') := by
  have alike := x.alike far noProbe
  intro d
  by_cases own : d = x.direction
  · subst own
    rw [x.get_passed, x.get_settled]
    exact alike.sender
  · obtain rfl := Direction.eq_opposite_of_ne own
    rw [x.get_passed_opposite, x.get_settled_opposite]
    exact alike.peer

/-- A window probe that is not judged moves the position. -/
theorem nextSeq_passed_ne (far : EquallyFar flows flows')
    (probe : isZeroWindowProbe (x.sender flows') (x.peer flows') x.segment = true) :
    ((x.passed flows).get x.direction).nextSeq ≠ ((x.settled flows').get x.direction).nextSeq := by
  obtain ⟨onPosition, past⟩ := past_of_isZeroWindowProbe probe
  have position : (x.sender flows).nextSeq = some x.segment.seq :=
    (congrArg Progress.nextSeq (far x.direction) :).trans onPosition
  have moved : ((x.passed flows).get x.direction).nextSeq = some x.segment.endSeq := by
    have advances : Classified.advances (x.sender flows) x.segment {} = true := by
      rw [Classified.advances, position, Option.all_some, past]
      rfl
    rw [x.get_passed]
    show (if Classified.advances (x.sender flows) x.segment {} then _ else _) = _
    rw [advances, if_pos rfl]
  rw [moved, x.nextSeq_settled, moves_eq_past, probe]
  show some x.segment.endSeq ≠ (flows'.get x.direction).nextSeq
  rw [show (flows'.get x.direction).nextSeq = some x.segment.seq from onPosition]
  intro same
  rw [Option.some_inj.1 same, after_self] at past
  cases past

end Sighting

variable {xs : List Sighting}

theorem NoWindowProbes.of_prefix {ys : List Sighting} (none : NoWindowProbes ys) (part : xs <+: ys) :
    NoWindowProbes xs := fun pre x within => none pre x (within.trans part)

/-- Without window probes both flows get equally far. -/
theorem NoWindowProbes.equallyFar (none : NoWindowProbes xs) :
    EquallyFar (followed xs) (exchanged xs) := by
  induction xs using List.reverseRecOn with
  | nil => exact fun _ => rfl
  | append_singleton xs x ih =>
      rw [followed_concat, exchanged_concat]
      exact Sighting.equallyFar_passed (ih (none.of_prefix (List.prefix_append xs [x])))
        (none xs x (List.prefix_refl _))

/-- **Not to judge segments leaves the flows as they would be, and measures the same, if and only if no
segment probes a closed window.** -/
theorem followedAlike_iff : FollowedAlike xs ↔ NoWindowProbes xs := by
  constructor
  · intro same pre x within
    refine Bool.eq_false_iff.2 fun probe => ?_
    have before := same.far pre ((List.prefix_append pre [x]).trans within)
    have after := same.far (pre ++ [x]) within x.direction
    rw [followed_concat, exchanged_concat] at after
    exact Sighting.nextSeq_passed_ne before probe (congrArg Progress.nextSeq after)
  · intro none
    refine ⟨fun pre part => (none.of_prefix part).equallyFar, fun pre x within => ?_⟩
    have far := (none.of_prefix ((List.prefix_append pre [x]).trans within)).equallyFar
    exact (Sighting.alike far (none pre x within)).measurement

/-- Two bytes are sent and acknowledged with a window of zero, and then the window is probed. -/
theorem not_followedAlike : ¬ ∀ xs, FollowedAlike xs := by
  intro all
  let client : Endpoint := ⟨.v4 0x0a000001, 40000⟩
  let server : Endpoint := ⟨.v4 0x0a000002, 443⟩
  let data : Sighting := {
    direction := .forward
    segment := { source := client, destination := server, seq := 1, payload := [1, 2] } }
  let close : Sighting := {
    direction := .reverse
    segment := { source := server, destination := client, seq := 1, ack := 3, flags.ack := true } }
  let probe : Sighting := {
    direction := .forward
    segment := { source := client, destination := server, seq := 3, payload := [3] } }
  have same := (all [data, close, probe]).far [data, close, probe] (List.prefix_refl _) .forward
  exact absurd same (by decide +kernel)

end TcpCapture
