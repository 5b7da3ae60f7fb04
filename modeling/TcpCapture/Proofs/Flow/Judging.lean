import TcpCapture.Flow.Classification

/-!
# What classification does to both flows

Whatever a segment is taken for, the two flows are settled in the same way: the sender's position and
the end of what is known of it move by one rule each, and its peer is only touched where data it never
sent was acknowledged.

## Main definitions

* `Classified.moves` — the segment takes its sender's position further
* `Classified.marked` — the peer of a segment, whose data was acknowledged unseen or not
* `Classified.Judged` — what the findings say of probes and acknowledgments
* `classify_cases` — classification is a judgement, then settling

**Probes are decided first.**  A keep-alive and a window probe are told by the position and the peer's
window alone, before anything else is looked at, and neither moves the position.
-/

namespace TcpCapture

namespace Classified

variable (sender peer : Flow) (s : Segment)

/-- The segment takes its sender past the next position. -/
def moves : Bool :=
  !isZeroWindowProbe sender peer s && !isKeepAlive sender s && sender.nextSeq.all (after s.endSeq)

/-- The peer of the segment, when data it never sent was acknowledged or was not. -/
def marked (unseen : Bool) : Flow :=
  if unseen then { peer with maxSeqAcked := peer.nextSeq } else peer

/-- What the findings about a segment say of probes and of acknowledgments. -/
structure Judged (found : Findings) : Prop where
  zeroWindowProbe : found.zeroWindowProbe = isZeroWindowProbe sender peer s
  keepAlive : found.keepAlive = (!isZeroWindowProbe sender peer s && isKeepAlive sender s)
  acksUnseen : found.ackLostPacket = true → acksUnseen peer s = true

variable {sender peer s}

/-- The findings about the position are a judgement, whatever kind of acknowledgment is added. -/
theorem judged_positionFindings (window : BitVec 32) :
    Judged sender peer s (positionFindings sender peer s window) := by
  unfold positionFindings
  split
  · rename_i probe
    exact ⟨probe.symm, by rw [probe]; rfl, fun lost => absurd lost Bool.false_ne_true⟩
  · rename_i probe
    rw [Bool.not_eq_true] at probe
    exact ⟨probe.symm, by rw [probe]; rfl, fun lost => absurd lost Bool.false_ne_true⟩

/-- Acknowledgments are judged by themselves. -/
theorem Judged.acknowledging {found : Findings} (h : Judged sender peer s found)
    (duplicate : Bool) :
    Judged sender peer s
      { found with duplicateAck := duplicate, ackLostPacket := Classified.acksUnseen peer s } :=
  ⟨h.zeroWindowProbe, h.keepAlive, id⟩

theorem ackLostPacket_withLate (found : Findings) (late : Option LateKind) :
    (withLate found late).ackLostPacket = found.ackLostPacket := by
  rcases late with _ | late
  · rfl
  · cases late <;> rfl

/-- What a late segment is has nothing to do with probes and acknowledgments. -/
theorem Judged.withLate {found : Findings} (h : Judged sender peer s found)
    (late : Option LateKind) : Judged sender peer s (withLate found late) := by
  rcases late with _ | late
  · exact h
  · cases late <;> exact ⟨h.zeroWindowProbe, h.keepAlive, h.acksUnseen⟩

/-- A keep-alive is never late. -/
theorem Judged.unlessKeepAlive {found : Findings} (h : Judged sender peer s found)
    (late : Option LateKind) :
    Judged sender peer s (if found.keepAlive then found else Classified.withLate found late) ∧
      (if found.keepAlive then found else Classified.withLate found late).ackLostPacket =
        found.ackLostPacket := by
  split
  · exact ⟨h, rfl⟩
  · exact ⟨h.withLate late, ackLostPacket_withLate found late⟩

section

variable (sender peer : Flow) (s : Segment) (f : Findings) (dupAck : Option (BitVec 32 × Nat))
  (window : BitVec 32)

theorem nextSeq_settle_peer :
    (settle sender peer s f dupAck window).peer.nextSeq = peer.nextSeq := by
  unfold settle
  dsimp only
  split <;> rfl

theorem maxSeqAcked_settle_peer :
    (settle sender peer s f dupAck window).peer.maxSeqAcked = peer.maxSeqAcked := by
  unfold settle
  dsimp only
  split <;> rfl

end

end Classified

open Classified

variable (sender peer : Flow) (s : Segment) (limits : Thresholds)

/-- **Classification is a judgement, then settling.**  Before it settles, the sender has counted the
acknowledgment, and its peer is marked where the findings say so. -/
theorem classify_cases :
    ∃ nondup dups found dupAck, Judged sender peer s found ∧
      classify sender peer s limits =
        settle { sender with lastNondupAck := nondup, dupAckCount := dups }
          (marked peer found.ackLostPacket) s found dupAck
          (sender.scaledWindow s.window s.flags.syn) := by
  unfold classify
  dsimp only
  generalize sender.scaledWindow s.window s.flags.syn = window
  have position : Judged sender peer s (positionFindings sender peer s window) :=
    judged_positionFindings window
  have quiet : (positionFindings sender peer s window).ackLostPacket = false := by
    unfold positionFindings
    split <;> rfl
  generalize positionFindings sender peer s window = f at position quiet ⊢
  split
  · refine ⟨sender.lastNondupAck, sender.dupAckCount, f, none, position, ?_⟩
    rw [quiet]
    rfl
  · generalize ackKind sender peer s window = kind
    have settles (f' : Findings) (lost : f'.ackLostPacket = f.ackLostPacket) :
        settle sender peer s f' none window =
          settle sender (marked peer f'.ackLostPacket) s f' none window := by
      rw [lost, quiet]
      rfl
    let unseen := marked peer (acksUnseen peer s)
    cases kind with
    | keepAlive =>
        refine ⟨sender.lastNondupAck, sender.dupAckCount, { f with keepAliveAck := true }, none,
          ⟨position.zeroWindowProbe, position.keepAlive, position.acksUnseen⟩, ?_⟩
        exact settles { f with keepAliveAck := true } rfl
    | zeroWindowProbe =>
        refine ⟨sender.lastNondupAck, sender.dupAckCount, { f with zeroWindowProbeAck := true }, none,
          ⟨position.zeroWindowProbe, position.keepAlive, position.acksUnseen⟩, ?_⟩
        exact settles { f with zeroWindowProbeAck := true } rfl
    | duplicate =>
        obtain ⟨judged, lost⟩ := (position.acknowledging true).unlessKeepAlive
          (lateKind? (countAck sender .duplicate s.frame) unseen s limits)
        refine ⟨sender.lastNondupAck, sender.dupAckCount + 1, _,
          some (sender.dupAckCount + 1, sender.lastNondupAck), judged, ?_⟩
        rw [lost]
        rfl
    | fresh =>
        obtain ⟨judged, lost⟩ := (position.acknowledging false).unlessKeepAlive
          (lateKind? (countAck sender .fresh s.frame) unseen s limits)
        refine ⟨s.frame, 0, _, none, judged, ?_⟩
        rw [lost]
        rfl

/-! ### The position and the mark -/

theorem zeroWindowProbe_classify :
    (classify sender peer s limits).classification.findings.zeroWindowProbe =
      isZeroWindowProbe sender peer s := by
  obtain ⟨nondup, dups, found, dupAck, judged, eq⟩ := classify_cases sender peer s limits
  rw [eq]
  exact judged.zeroWindowProbe

theorem keepAlive_classify :
    (classify sender peer s limits).classification.findings.keepAlive =
      (!isZeroWindowProbe sender peer s && isKeepAlive sender s) := by
  obtain ⟨nondup, dups, found, dupAck, judged, eq⟩ := classify_cases sender peer s limits
  rw [eq]
  exact judged.keepAlive

/-- Only an acknowledgment past the mark is told to be of unseen data. -/
theorem acksUnseen_of_classify
    (lost : (classify sender peer s limits).classification.findings.ackLostPacket = true) :
    acksUnseen peer s = true := by
  obtain ⟨nondup, dups, found, dupAck, judged, eq⟩ := classify_cases sender peer s limits
  rw [eq] at lost
  exact judged.acksUnseen lost

/-- The position moves to the end of a segment that takes its sender past it, unless that is a probe. -/
theorem nextSeq_classify :
    (classify sender peer s limits).sender.nextSeq =
      if moves sender peer s then some s.endSeq else sender.nextSeq := by
  obtain ⟨nondup, dups, found, dupAck, judged, eq⟩ := classify_cases sender peer s limits
  rw [eq]
  have probing : (!found.isProbing) =
      (!isZeroWindowProbe sender peer s && !isKeepAlive sender s) := by
    rw [Findings.isProbing, judged.keepAlive, judged.zeroWindowProbe]
    cases isZeroWindowProbe sender peer s <;> cases isKeepAlive sender s <;> rfl
  show (if !found.isProbing && sender.nextSeq.all (after s.endSeq) then _ else _) = _
  rw [probing]
  rfl

/-- The mark follows the position when a segment starts on it. -/
theorem maxSeqAcked_classify :
    (classify sender peer s limits).sender.maxSeqAcked =
      if !isZeroWindowProbe sender peer s && sender.maxSeqAcked.all (· == s.seq) then
        (classify sender peer s limits).sender.nextSeq
      else sender.maxSeqAcked := by
  obtain ⟨nondup, dups, found, dupAck, judged, eq⟩ := classify_cases sender peer s limits
  rw [eq, ← judged.zeroWindowProbe]
  rfl

/-- A segment moves only its sender. -/
theorem nextSeq_classify_peer :
    (classify sender peer s limits).peer.nextSeq = peer.nextSeq := by
  obtain ⟨nondup, dups, found, dupAck, judged, eq⟩ := classify_cases sender peer s limits
  rw [eq, nextSeq_settle_peer]
  unfold marked
  split <;> rfl

/-- The peer's mark catches up with its position where data was acknowledged that it never sent. -/
theorem maxSeqAcked_classify_peer :
    (classify sender peer s limits).peer.maxSeqAcked =
      if (classify sender peer s limits).classification.findings.ackLostPacket then peer.nextSeq
      else peer.maxSeqAcked := by
  obtain ⟨nondup, dups, found, dupAck, judged, eq⟩ := classify_cases sender peer s limits
  rw [eq, maxSeqAcked_settle_peer]
  show _ = if found.ackLostPacket then _ else _
  unfold marked
  split <;> rfl

/-- As long as nothing was seen of the sender, nothing is a probe. -/
theorem no_probe_of_unseen {sender : Flow} (unseen : sender.nextSeq = none) :
    isZeroWindowProbe sender peer s = false ∧ isKeepAlive sender s = false := by
  have nowhere (n : Seq) : ((none : Option Seq) == some n) = false := rfl
  constructor
  · rw [isZeroWindowProbe, unseen, nowhere, Bool.and_false]
    rfl
  · rw [isKeepAlive, unseen, nowhere, Bool.and_false]

/-! ### Data -/

/-- Two bytes or more are no probe. -/
theorem no_probe_of_data {s : Segment} (data : 2 ≤ s.payloadLen) :
    isZeroWindowProbe sender peer s = false ∧ isKeepAlive sender s = false := by
  constructor
  · rw [isZeroWindowProbe, beq_eq_false_iff_ne.2 (by omega)]
    rfl
  · rw [isKeepAlive, decide_eq_false (by omega)]
    rfl

/-- The position of data is told by gaps and by both windows alone. -/
theorem positionFindings_of_data {s : Segment} (data : 2 ≤ s.payloadLen) (window : BitVec 32) :
    positionFindings sender peer s window =
      { zeroWindow := window == 0 && !s.flags.hasControl
        lostPacket := followsGap sender s
        windowFull := fillsWindow peer s } := by
  obtain ⟨probe, keepAlive⟩ := no_probe_of_data sender peer data
  have update : isWindowUpdate sender s window = false := by
    rw [isWindowUpdate, beq_eq_false_iff_ne.2 (by omega)]
    rfl
  rw [positionFindings, probe, keepAlive, update]
  rfl

/-- Data is never an acknowledgment that says nothing new. -/
theorem ackKind_of_data {s : Segment} (data : 2 ≤ s.payloadLen) (window : BitVec 32) :
    ackKind sender peer s window = .fresh := by
  have payload : s.payload.isEmpty = false :=
    List.isEmpty_eq_false_iff.2 fun none => by
      rw [Segment.payloadLen, none, List.length_nil] at data
      omega
  unfold ackKind repeatsPosition
  rw [payload]
  rfl

/-- **The findings about data**: those about its position, acknowledged data that was not seen, and what
the segment is if it is late. -/
theorem findings_classify_of_data {s : Segment} (data : 2 ≤ s.payloadLen) :
    (classify sender peer s limits).classification.findings =
      withLate { positionFindings sender peer s (sender.scaledWindow s.window s.flags.syn) with
        duplicateAck := false, ackLostPacket := acksUnseen peer s }
        (lateKind? sender peer s limits) := by
  obtain ⟨probe, keepAlive⟩ := no_probe_of_data sender peer data
  unfold classify
  dsimp only
  rw [ackKind_of_data sender peer data]
  generalize sender.scaledWindow s.window s.flags.syn = window
  have position : (positionFindings sender peer s window).zeroWindowProbe = false ∧
      (positionFindings sender peer s window).keepAlive = false := by
    rw [(judged_positionFindings window).zeroWindowProbe,
      (judged_positionFindings window).keepAlive, probe, keepAlive]
    exact ⟨rfl, rfl⟩
  have real : ¬ (positionFindings sender peer s window).keepAlive = true := by
    rw [position.2]
    exact Bool.false_ne_true
  rw [if_neg (by rw [position.1]; exact Bool.false_ne_true)]
  -- marking the peer changes nothing that lateness is told by
  cases acksUnseen peer s with
  | true => exact if_neg real
  | false => exact if_neg real

end TcpCapture
