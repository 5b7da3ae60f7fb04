import TcpCapture.Flow.Classification

/-!
# Numbering that starts elsewhere

Where a direction starts to number its bytes is its own choice.  Adding a constant to all numbers of a
direction, and to the acknowledgments and SACK edges that answer them, changes the flows only by that
constant, and says nothing new about any segment.

## Main definitions

* `Segment.renumber` — a segment when its direction and the peer start elsewhere
* `Flow.renumber` — a flow that has only seen such segments

**Two number spaces.**  A flow keeps the numbers of its own direction, except for the last
acknowledgment it sent, which is a number of its peer.
-/

namespace TcpCapture

/-! ### Differences -/

section

variable (x y k : Seq)

theorem sub_add_right : x + k - (y + k) = x - y := by bv_omega

theorem beq_add_right : (x + k == y + k) = (x == y) := by
  rw [Bool.eq_iff_iff, beq_iff_eq, beq_iff_eq, BitVec.add_left_inj]

theorem after_add_right : after (x + k) (y + k) = after x y := by
  rw [after, after, before_add_right, bne, bne, beq_add_right]

theorem atOrBefore_add_right : atOrBefore (x + k) (y + k) = atOrBefore x y := by
  rw [atOrBefore, atOrBefore, after_add_right]

theorem advance_add_right (n : Nat) : advance (x + k) n = advance x n + k := by
  unfold advance
  bv_omega

/-- A number that may be missing is compared as before. -/
theorem beq_map_add (o : Option Seq) : (o.map (· + k) == some (x + k)) = (o == some x) := by
  cases o with
  | none => rfl
  | some y => exact beq_add_right y x k

theorem any_map_after (o : Option Seq) :
    (o.map (· + k)).any (after (x + k)) = o.any (after x) := by
  cases o with
  | none => rfl
  | some y => exact after_add_right x y k

theorem any_map_atOrBefore (o : Option Seq) :
    (o.map (· + k)).any (atOrBefore (x + k)) = o.any (atOrBefore x) := by
  cases o with
  | none => rfl
  | some y => exact atOrBefore_add_right x y k

theorem any_map_bne (o : Option Seq) :
    (o.map (· + k)).any (· != x + k) = o.any (· != x) := by
  cases o with
  | none => rfl
  | some y => exact congrArg not (beq_add_right y x k)

theorem all_map_after (o : Option Seq) :
    (o.map (· + k)).all (after (x + k)) = o.all (after x) := by
  cases o with
  | none => rfl
  | some y => exact after_add_right x y k

theorem all_map_beq (o : Option Seq) :
    (o.map (· + k)).all (· == x + k) = o.all (· == x) := by
  cases o with
  | none => rfl
  | some y => exact beq_add_right y x k

end

/-! ### Segments and flows -/

/-- The segment when its direction counts from `own` and the peer from `other` numbers later. -/
def Segment.renumber (own other : Seq) (s : Segment) : Segment :=
  { s with
    seq := s.seq + own
    ack := s.ack + other
    sack := s.sack.map fun block => ⟨block.left + other, block.right + other⟩ }

/-- The record of a segment when its direction counts from `own` numbers later. -/
def UnackedSegment.renumber (own : Seq) (u : UnackedSegment) : UnackedSegment :=
  { u with seq := u.seq + own, nextSeq := u.nextSeq + own }

/-- The flow when its direction counts from `own` and the peer from `other` numbers later. -/
def Flow.renumber (own other : Seq) (f : Flow) : Flow :=
  { f with
    baseSeq := f.baseSeq.map (· + own)
    nextSeq := f.nextSeq.map (· + own)
    maxSeqAcked := f.maxSeqAcked.map (· + own)
    lastAck := f.lastAck.map (· + other)
    unacked := f.unacked.map (·.renumber own) }

/-- Both flows of a result, the sender's counting from `own` and the peer's from `other` later. -/
def Classified.renumber (own other : Seq) (r : Classified) : Classified :=
  { r with sender := r.sender.renumber own other, peer := r.peer.renumber other own }

section

variable (own other : Seq) (sender peer f : Flow) (s : Segment)

theorem Segment.payloadEnd_renumber : (s.renumber own other).payloadEnd = s.payloadEnd + own :=
  advance_add_right s.seq own s.payloadLen

theorem Segment.endSeq_renumber : (s.renumber own other).endSeq = s.endSeq + own :=
  advance_add_right s.seq own s.sequenceLen

namespace Flow

@[simp] theorem nextSeq_renumber : (f.renumber own other).nextSeq = f.nextSeq.map (· + own) := rfl

@[simp] theorem lastAck_renumber : (f.renumber own other).lastAck = f.lastAck.map (· + other) := rfl

@[simp] theorem window_renumber : (f.renumber own other).window = f.window := rfl

/-- Relative numbers stay, once there is a base to count from. -/
theorem relative_renumber {f : Flow} (based : f.baseSeq.isSome) (seq : Seq) :
    (f.renumber own other).relative (seq + own) = f.relative seq := by
  obtain ⟨base, h⟩ := Option.isSome_iff_exists.1 based
  simp only [relative, renumber, h, Option.map_some, Option.getD_some, sub_add_right]

theorem setBase_renumber (syn : Bool) :
    (f.renumber own other).setBase (s.seq + own) syn = (f.setBase s.seq syn).renumber own other := by
  have first : (if syn then s.seq + own else s.seq + own - 1) =
      (if syn then s.seq else s.seq - 1) + own := by
    cases syn
    · show s.seq + own - 1 = s.seq - 1 + own
      bv_omega
    · rfl
  unfold setBase renumber
  rw [first]
  cases f.baseSeq <;> rfl

theorem ackedExactly_renumber (ack : Seq) :
    (f.renumber own other).ackedExactly (ack + own) =
      (f.ackedExactly ack).map (·.renumber own) := by
  simp [ackedExactly, renumber, UnackedSegment.renumber, List.filter_map, Function.comp_def,
    beq_add_right]

theorem pruneAcked_renumber (ack : Seq) :
    (f.renumber own other).pruneAcked (ack + own) = (f.pruneAcked ack).renumber own other := by
  simp [pruneAcked, renumber, UnackedSegment.renumber, List.filter_map, Function.comp_def,
    atOrBefore_add_right]

end Flow

/-! ### Classification -/

namespace Classified

theorem isZeroWindowProbe_renumber :
    isZeroWindowProbe (sender.renumber own other) (peer.renumber other own) (s.renumber own other) =
      isZeroWindowProbe sender peer s := by
  show (s.payloadLen == 1 && sender.nextSeq.map (· + own) == some (s.seq + own) &&
    peer.window == some 0) = _
  rw [beq_map_add]
  rfl

theorem followsGap_renumber :
    followsGap (sender.renumber own other) (s.renumber own other) = followsGap sender s := by
  show (!s.flags.rst && (sender.nextSeq.map (· + own)).any (after (s.seq + own))) = _
  rw [any_map_after]
  rfl

theorem isKeepAlive_renumber :
    isKeepAlive (sender.renumber own other) (s.renumber own other) = isKeepAlive sender s := by
  have below : s.seq + own + 1 = s.seq + 1 + own := by bv_omega
  show (decide (s.payloadLen ≤ 1) && !s.flags.hasControl &&
    sender.nextSeq.map (· + own) == some (s.seq + own + 1)) = _
  rw [below, beq_map_add]
  rfl

theorem isWindowUpdate_renumber (window : BitVec 32) :
    isWindowUpdate (sender.renumber own other) (s.renumber own other) window =
      isWindowUpdate sender s window := by
  show (s.payloadLen == 0 && window != 0 && !s.flags.hasControl && sender.window.any (· != window) &&
    sender.nextSeq.map (· + own) == some (s.seq + own) &&
    sender.lastAck.map (· + other) == some (s.ack + other)) = _
  rw [beq_map_add, beq_map_add]
  rfl

theorem fillsWindow_renumber :
    fillsWindow (peer.renumber other own) (s.renumber own other) = fillsWindow peer s := by
  have ends (ack : Seq) (window : BitVec 32) :
      (s.payloadEnd + own == ack + own + window) = (s.payloadEnd == ack + window) := by
    rw [show ack + own + window = ack + window + own by bv_omega, beq_add_right]
  unfold fillsWindow
  rw [Segment.payloadEnd_renumber, Flow.lastAck_renumber, Flow.window_renumber]
  cases peer.lastAck with
  | none => rfl
  | some ack =>
      cases peer.window with
      | none => rfl
      | some window => exact congrArg _ (ends ack window)

theorem positionFindings_renumber (window : BitVec 32) :
    positionFindings (sender.renumber own other) (peer.renumber other own) (s.renumber own other)
      window = positionFindings sender peer s window := by
  unfold positionFindings
  rw [isZeroWindowProbe_renumber, followsGap_renumber, isKeepAlive_renumber,
    isWindowUpdate_renumber, fillsWindow_renumber]
  rfl

theorem ackKind_renumber (window : BitVec 32) :
    ackKind (sender.renumber own other) (peer.renumber other own) (s.renumber own other) window =
      ackKind sender peer s window := by
  have repeats : repeatsPosition (sender.renumber own other) (s.renumber own other) window =
      repeatsPosition sender s window := by
    show (s.payload.isEmpty && s.flags.ack && !s.flags.hasControl &&
      sender.nextSeq.map (· + own) == some (s.seq + own) &&
      sender.lastAck.map (· + other) == some (s.ack + other) && sender.window == some window) = _
    rw [beq_map_add, beq_map_add]
    rfl
  unfold ackKind
  rw [repeats]
  rfl

theorem countAck_renumber (kind : AckKind) (frame : Nat) :
    countAck (sender.renumber own other) kind frame =
      (countAck sender kind frame).renumber own other := by
  cases kind <;> rfl

theorem acksUnseen_renumber :
    acksUnseen (peer.renumber other own) (s.renumber own other) = acksUnseen peer s := by
  show (s.flags.ack && (peer.maxSeqAcked.map (· + other)).any (after (s.ack + other))) = _
  rw [any_map_after]
  rfl

theorem lateKind?_renumber (limits : Thresholds) :
    lateKind? (sender.renumber own other) (peer.renumber other own) (s.renumber own other) limits =
      lateKind? sender peer s limits := by
  have fast : isFastRetransmission (peer.renumber other own) (s.renumber own other) limits =
      isFastRetransmission peer s limits := by
    show (decide (limits.fastRetransmitDupAcks ≤ peer.dupAckCount.toNat) &&
      peer.lastAck.map (· + own) == some (s.seq + own) && _) = _
    rw [beq_map_add]
    rfl
  have spurious : (peer.renumber other own).lastAck.any (atOrBefore (s.payloadEnd + own)) =
      peer.lastAck.any (atOrBefore s.payloadEnd) := any_map_atOrBefore s.payloadEnd own _
  unfold lateKind?
  rw [fast, Segment.payloadEnd_renumber, spurious, Flow.nextSeq_renumber]
  cases sender.nextSeq with
  | none => rfl
  | some next =>
      show (if s.sequenceLen == 0 || !before (s.seq + own) (next + own) then _
        else if isFastRetransmission peer s limits then _
        else if isWithin s.timestamp sender.nextSeqTime limits.outOfOrder &&
          (next + own != s.payloadEnd + own) then _ else _) = _
      rw [before_add_right, bne, beq_add_right]
      rfl

theorem advances_renumber (found : Findings) :
    advances (sender.renumber own other) (s.renumber own other) found = advances sender s found := by
  unfold advances
  rw [Segment.endSeq_renumber]
  exact congrArg (!found.isProbing && ·) (all_map_after s.endSeq own _)

theorem recordSegment_renumber (found : Findings) (window : BitVec 32) :
    recordSegment (sender.renumber own other) (s.renumber own other) found window =
      (recordSegment sender s found window).renumber own other := by
  have continues : (sender.renumber own other).maxSeqAcked.all (· == (s.renumber own other).seq) =
      sender.maxSeqAcked.all (· == s.seq) := all_map_beq s.seq own _
  unfold recordSegment
  rw [advances_renumber, Segment.endSeq_renumber, continues]
  simp only [Flow.renumber, apply_ite (Option.map _), apply_ite (List.map _), Option.map_some,
    List.map_append, List.map_cons, List.map_nil]
  rfl

theorem bytesInFlight_renumber :
    bytesInFlight (sender.renumber own other) (peer.renumber other own) (s.renumber own other) =
      bytesInFlight sender peer s := by
  unfold bytesInFlight
  rw [Flow.nextSeq_renumber, Flow.lastAck_renumber]
  cases sender.nextSeq with
  | none => rfl
  | some next =>
      cases peer.lastAck with
      | none => rfl
      | some ack =>
          show (if s.payloadLen != 0 && atOrBefore (ack + own) (next + own) then
            some (next + own - (ack + own)).toNat else none) = _
          rw [atOrBefore_add_right, sub_add_right]

theorem settle_renumber (found : Findings) (dupAck : Option (BitVec 32 × Nat)) (window : BitVec 32) :
    settle (sender.renumber own other) (peer.renumber other own) (s.renumber own other) found dupAck
      window = (settle sender peer s found dupAck window).renumber own other := by
  have acked : (if (s.renumber own other).flags.ack then
      (peer.renumber other own).ackedExactly (s.renumber own other).ack else none) =
      (if s.flags.ack then peer.ackedExactly s.ack else none).map (·.renumber other) := by
    rw [apply_ite (Option.map _)]
    exact ite_congr rfl (fun _ => peer.ackedExactly_renumber other own s.ack) fun _ => rfl
  have pruned : (if (s.renumber own other).flags.ack then
      (peer.renumber other own).pruneAcked (s.renumber own other).ack else peer.renumber other own) =
      (if s.flags.ack then peer.pruneAcked s.ack else peer).renumber other own := by
    rw [apply_ite (Flow.renumber other own)]
    exact ite_congr rfl (fun _ => peer.pruneAcked_renumber other own s.ack) fun _ => rfl
  unfold settle
  dsimp only
  rw [recordSegment_renumber, bytesInFlight_renumber, acked, pruned, Option.map_map,
    Option.map_map]
  rfl

end Classified

open Classified

/-- **Classification sees differences only.** -/
theorem classify_renumber (limits : Thresholds) :
    classify (sender.renumber own other) (peer.renumber other own) (s.renumber own other) limits =
      (classify sender peer s limits).renumber own other := by
  unfold classify
  dsimp only
  rw [show (sender.renumber own other).scaledWindow (s.renumber own other).window
    (s.renumber own other).flags.syn = sender.scaledWindow s.window s.flags.syn from rfl,
    positionFindings_renumber, ackKind_renumber, countAck_renumber, acksUnseen_renumber]
  generalize sender.scaledWindow s.window s.flags.syn = window
  by_cases probe : (positionFindings sender peer s window).zeroWindowProbe = true
  · rw [if_pos probe, if_pos probe]
    exact settle_renumber own other sender peer s _ _ _
  · rw [if_neg probe, if_neg probe]
    have unseen : (if acksUnseen peer s then
        { peer.renumber other own with maxSeqAcked := (peer.renumber other own).nextSeq }
        else peer.renumber other own) =
        (if acksUnseen peer s then { peer with maxSeqAcked := peer.nextSeq } else peer).renumber
          other own := by
      rw [apply_ite (Flow.renumber other own)]
      rfl
    rw [unseen, lateKind?_renumber]
    generalize ackKind sender peer s window = kind
    cases kind with
    | keepAlive => exact settle_renumber own other _ _ s _ _ _
    | zeroWindowProbe => exact settle_renumber own other _ _ s _ _ _
    | duplicate => exact settle_renumber own other _ _ s _ _ _
    | fresh => exact settle_renumber own other _ _ s _ _ _

theorem track_renumber :
    track (sender.renumber own other) (peer.renumber other own) (s.renumber own other) =
      (track sender peer s).renumber own other :=
  settle_renumber own other sender peer s _ _ _

end

end TcpCapture
