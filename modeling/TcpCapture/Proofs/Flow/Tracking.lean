import TcpCapture.Flow.Classification

/-!
# Flows without their payload

Classification reads and writes positions, windows, acknowledgments and counters.  It would judge every
segment alike, and bring the flows up to date alike, if no payload were held back or collected.

## Main definitions

* `Flow.tracked` — a flow without the payload it holds
* `Classified.tracked` — a classification of such flows
-/

namespace TcpCapture

namespace Flow

/-- The flow without the payload it holds back and collects. -/
def tracked (f : Flow) : Flow := { f with reorder := {}, assembler := {} }

end Flow

namespace Classified

/-- The classification, and the flows after it without their payload. -/
def tracked (x : Classified) : Classified :=
  { x with sender := x.sender.tracked, peer := x.peer.tracked }

variable (sender peer : Flow) (s : Segment)

theorem countAck_tracked (kind : AckKind) (frame : Nat) :
    countAck sender.tracked kind frame = (countAck sender kind frame).tracked := by
  cases kind <;> rfl

theorem settle_tracked (found : Findings) (dupAck : Option (BitVec 32 × Nat)) (window : BitVec 32) :
    settle sender.tracked peer.tracked s found dupAck window =
      (settle sender peer s found dupAck window).tracked := by
  unfold settle tracked
  cases s.flags.ack <;> rfl

/-- **Classification does not look at payload that is held.** -/
theorem classify_tracked (limits : Thresholds) :
    classify sender.tracked peer.tracked s limits = (classify sender peer s limits).tracked := by
  unfold classify
  dsimp only
  rw [show sender.tracked.scaledWindow s.window s.flags.syn =
      sender.scaledWindow s.window s.flags.syn from rfl,
    show positionFindings sender.tracked peer.tracked s =
      positionFindings sender peer s from rfl,
    show ackKind sender.tracked peer.tracked s = ackKind sender peer s from rfl,
    show acksUnseen peer.tracked s = acksUnseen peer s from rfl, countAck_tracked]
  generalize sender.scaledWindow s.window s.flags.syn = window
  by_cases probe : (positionFindings sender peer s window).zeroWindowProbe = true
  · rw [if_pos probe, if_pos probe]
    exact settle_tracked sender peer s _ _ _
  · rw [if_neg probe, if_neg probe]
    have unseen : (if acksUnseen peer s then
        { peer.tracked with maxSeqAcked := peer.tracked.nextSeq } else peer.tracked) =
        (if acksUnseen peer s then { peer with maxSeqAcked := peer.nextSeq } else peer).tracked := by
      rw [apply_ite Flow.tracked]
      rfl
    rw [unseen]
    generalize ackKind sender peer s window = kind
    cases kind with
    | keepAlive => exact settle_tracked _ _ s _ _ _
    | zeroWindowProbe => exact settle_tracked _ _ s _ _ _
    | duplicate => exact settle_tracked _ _ s _ _ _
    | fresh => exact settle_tracked _ _ s _ _ _

theorem track_tracked : track sender.tracked peer.tracked s = (track sender peer s).tracked :=
  settle_tracked sender peer s _ _ _

end Classified

end TcpCapture
