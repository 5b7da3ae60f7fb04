import TcpCapture.Proofs.Flow.Judging

/-!
# Payload is none of classification's business

Classification brings window, acknowledgments and counters of both flows up to date.  What becomes of
the payload does not depend on any of these, with one exception: the single byte of a keep-alive or of
a window probe is taken for no payload at all.

## Main definitions

* `Flow.SamePayload` — two flows that number, hold back and assemble payload alike
-/

namespace TcpCapture

/-- `g` treats payload as `f` does. -/
structure Flow.SamePayload (f g : Flow) : Prop where
  baseSeq : g.baseSeq = f.baseSeq
  finFrame : g.finFrame = f.finFrame
  reorder : g.reorder = f.reorder
  assembler : g.assembler = f.assembler

namespace Flow.SamePayload

theorem refl (f : Flow) : f.SamePayload f := ⟨rfl, rfl, rfl, rfl⟩

theorem trans {f g h : Flow} (hfg : f.SamePayload g) (hgh : g.SamePayload h) : f.SamePayload h where
  baseSeq := hgh.baseSeq.trans hfg.baseSeq
  finFrame := hgh.finFrame.trans hfg.finFrame
  reorder := hgh.reorder.trans hfg.reorder
  assembler := hgh.assembler.trans hfg.assembler

end Flow.SamePayload

namespace Classified

theorem samePayload_recordSegment (sender : Flow) (s : Segment) (f : Findings)
    (window : BitVec 32) : sender.SamePayload (recordSegment sender s f window) :=
  ⟨rfl, rfl, rfl, rfl⟩

/-- Both flows treat payload as before. -/
def Keeps (sender peer : Flow) (result : Classified) : Prop :=
  sender.SamePayload result.sender ∧ peer.SamePayload result.peer

theorem keeps_settle (sender peer : Flow) (s : Segment) (f : Findings)
    (dupAck : Option (BitVec 32 × Nat)) (window : BitVec 32) :
    Keeps sender peer (settle sender peer s f dupAck window) := by
  refine ⟨samePayload_recordSegment sender s f window, ?_⟩
  unfold settle
  dsimp only
  split
  · exact ⟨rfl, rfl, rfl, rfl⟩
  · exact .refl peer

theorem samePayload_marked (peer : Flow) (unseen : Bool) : peer.SamePayload (marked peer unseen) := by
  unfold marked
  split
  · exact ⟨rfl, rfl, rfl, rfl⟩
  · exact .refl peer

end Classified

open Classified

theorem keeps_track (sender peer : Flow) (s : Segment) :
    Keeps sender peer (track sender peer s) := keeps_settle sender peer s _ _ _

/-- **Classification leaves the payload alone.** -/
theorem keeps_classify (sender peer : Flow) (s : Segment) (limits : Thresholds) :
    Keeps sender peer (classify sender peer s limits) := by
  obtain ⟨nondup, dups, found, dupAck, -, eq⟩ := classify_cases sender peer s limits
  have counted : sender.SamePayload { sender with lastNondupAck := nondup, dupAckCount := dups } :=
    ⟨rfl, rfl, rfl, rfl⟩
  rw [eq]
  have settled := keeps_settle { sender with lastNondupAck := nondup, dupAckCount := dups }
    (marked peer found.ackLostPacket) s found dupAck (sender.scaledWindow s.window s.flags.syn)
  exact ⟨counted.trans settled.1, (samePayload_marked peer _).trans settled.2⟩

/-- Two bytes or more are payload. -/
theorem isProbing_classify {sender peer : Flow} {s : Segment} (data : 2 ≤ s.payloadLen)
    (limits : Thresholds) :
    (classify sender peer s limits).classification.findings.isProbing = false := by
  obtain ⟨probe, keepAlive⟩ := no_probe_of_data sender peer data
  rw [Findings.isProbing, keepAlive_classify, zeroWindowProbe_classify, probe, keepAlive]
  rfl

end TcpCapture
