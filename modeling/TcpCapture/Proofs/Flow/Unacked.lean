import Mathlib.Data.List.Nodup
import TcpCapture.Proofs.Flow.UnseenData

/-!
# The records that wait for an acknowledgment

A segment that takes its sender further is put at the end of the records; an acknowledgment takes out
those that it covers.  Counted from an origin that all numbers are less than half a turn away from, the
ends of the records go up and stop at the position.  So what an acknowledgment takes out is a front part of
them, and at most one record ends exactly where it points.

## Main definitions

* `Flow.Sent` — what a segment does to the position and the records of its sender
* `Flow.answered`, `Flow.acked?` — the records an acknowledgment leaves; the one it points at
* `Settles` — both flows and the round trip, whether the segment is judged or only followed
* `Flow.InLine` — the ends of the records go up, as far as the position

**What is listed.**  The end of a record is where the position was taken when it was listed, so one end is
never listed twice: a late copy takes nothing further.  A segment that occupies no number takes the
position further, too, and is not listed.
-/

namespace TcpCapture

/-- The elements that a front part of the list has, and the others, are the list again. -/
theorem filter_append_filter_of_front {α : Type} {p : α → Bool} {xs : List α}
    (front : xs.Pairwise fun x y => p y = true → p x = true) :
    xs.filter p ++ xs.filter (!p ·) = xs := by
  induction xs with
  | nil => rfl
  | cons x rest ih =>
      obtain ⟨first, others⟩ := List.pairwise_cons.1 front
      cases has : p x with
      | true =>
          rw [List.filter_cons_of_pos has, List.filter_cons_of_neg (by rw [has]; decide),
            List.cons_append, ih others]
      | false =>
          have none : rest.filter p = [] := List.filter_eq_nil_iff.2 fun y mem has' =>
            absurd (first y mem has') (by rw [has]; decide)
          rw [List.filter_cons_of_neg (by rw [has]; decide), none, List.nil_append, List.filter_eq_self]
          intro y mem
          rcases List.mem_cons.1 mem with rfl | mem
          · rw [has]
            rfl
          · rw [Bool.not_eq_true', ← Bool.not_eq_true]
            exact fun has' => absurd (first y mem has') (by rw [has]; decide)

/-- What is recorded of a segment, if it occupies any number. -/
def Segment.listing (s : Segment) : List UnackedSegment :=
  if s.sequenceLen = 0 then [] else [⟨s.frame, s.seq, s.endSeq, s.timestamp⟩]

namespace Flow

/-- The second flow has the position and the records of the first one. -/
structure SameRecords (f g : Flow) : Prop where
  nextSeq : g.nextSeq = f.nextSeq
  unacked : g.unacked = f.unacked

/-- What a segment does to the position and the records of its sender. -/
inductive Sent (f : Flow) (s : Segment) (g : Flow) : Prop where
  /-- Both stay. -/
  | behind (same : f.SameRecords g)
  /-- It takes the position further, and is listed. -/
  | ahead (past : f.nextSeq.all (after s.endSeq) = true) (nextSeq : g.nextSeq = some s.endSeq)
      (unacked : g.unacked = f.unacked ++ s.listing)

/-- The flow once its peer has answered. -/
def answered (f : Flow) (s : Segment) : Flow := if s.flags.ack then f.pruneAcked s.ack else f

/-- The record that an answer of the peer points at. -/
def acked? (f : Flow) (s : Segment) : Option UnackedSegment :=
  if s.flags.ack then f.ackedExactly s.ack else none

variable {f g h : Flow} {s : Segment}

theorem SameRecords.trans (first : f.SameRecords g) (second : g.SameRecords h) : f.SameRecords h :=
  ⟨second.nextSeq.trans first.nextSeq, second.unacked.trans first.unacked⟩

/-- What is sent is told by position and records alone. -/
theorem Sent.congr {f' g' : Flow} (sent : f.Sent s g) (before : f'.SameRecords f)
    (after : g.SameRecords g') : f'.Sent s g' := by
  cases sent with
  | behind same => exact .behind ((before.trans same).trans after)
  | ahead past nextSeq unacked =>
      refine .ahead ?_ (after.nextSeq.trans nextSeq) ?_
      · rwa [← before.nextSeq]
      · rw [after.unacked, unacked, before.unacked]

theorem SameRecords.answered (same : f.SameRecords g) (s : Segment) :
    (f.answered s).SameRecords (g.answered s) := by
  unfold Flow.answered
  split
  · exact ⟨same.nextSeq, congrArg (List.filter _) same.unacked⟩
  · exact same

theorem SameRecords.acked?_eq (same : f.SameRecords g) (s : Segment) : g.acked? s = f.acked? s := by
  unfold acked? ackedExactly
  rw [same.unacked]

end Flow

/-! ### Settling -/

/-- A segment is settled: its sender has sent it, its peer's records are answered, and the round trip is
that of the record the segment points at. -/
structure Settles (sender peer : Flow) (s : Segment) (x : Classified) : Prop where
  sent : sender.Sent s x.sender
  answered : (peer.answered s).SameRecords x.peer
  ackedFrame : x.classification.ackedFrame = (peer.acked? s).map (·.frame)
  ackRtt : x.classification.ackRtt = (peer.acked? s).map fun u => s.timestamp - u.timestamp

namespace Classified

variable (sender peer : Flow) (s : Segment) (found : Findings) (dupAck : Option (BitVec 32 × Nat))
  (window : BitVec 32)

theorem sent_recordSegment : sender.Sent s (recordSegment sender s found window) := by
  unfold recordSegment
  dsimp only
  cases advanced : advances sender s found with
  | false => exact .behind ⟨rfl, rfl⟩
  | true =>
      refine .ahead (Bool.and_eq_true_iff.1 advanced).2 rfl ?_
      show (if (true && s.sequenceLen != 0) = true then sender.unacked ++ _ else _) = _
      rw [Bool.true_and]
      unfold Segment.listing
      split
      · rename_i occupied
        rw [if_neg (bne_iff_ne.1 occupied)]
      · rename_i bare
        rw [if_pos (by simpa using bare), List.append_nil]

theorem settles_settle : Settles sender peer s (settle sender peer s found dupAck window) where
  sent := sent_recordSegment sender s found window
  answered := ⟨rfl, rfl⟩
  ackedFrame := rfl
  ackRtt := rfl

end Classified

variable {sender peer sender' peer' : Flow} {s : Segment} {x : Classified}

theorem Settles.congr (settles : Settles sender peer s x) (own : sender'.SameRecords sender)
    (other : peer'.SameRecords peer) : Settles sender' peer' s x where
  sent := settles.sent.congr own ⟨rfl, rfl⟩
  answered := (other.answered s).trans settles.answered
  ackedFrame := by rw [settles.ackedFrame, other.acked?_eq]
  ackRtt := by rw [settles.ackRtt, other.acked?_eq]

open Classified in
/-- **A segment that is judged is settled**: counting acknowledgments and marking the peer touch neither
position nor records. -/
theorem settles_classify (sender peer : Flow) (s : Segment) (limits : Thresholds) :
    Settles sender peer s (classify sender peer s limits) := by
  obtain ⟨nondup, dups, found, dupAck, -, eq⟩ := classify_cases sender peer s limits
  rw [eq]
  refine (settles_settle _ _ s found dupAck _).congr ⟨rfl, rfl⟩ ?_
  unfold marked
  split <;> exact ⟨rfl, rfl⟩

/-- One that is only followed is settled as well. -/
theorem settles_track (sender peer : Flow) (s : Segment) :
    Settles sender peer s (track sender peer s) :=
  Classified.settles_settle ..

/-! ### Records in line -/

namespace Flow

/-- Counted from an origin, the position is less than half a turn away, and the ends of the records go up
and do not exceed it. -/
structure InLine (f : Flow) (origin : Seq) : Prop where
  increasing : f.unacked.Pairwise fun u v => (u.nextSeq - origin).toNat < (v.nextSeq - origin).toNat
  reached : ∀ u ∈ f.unacked, ∃ next, f.nextSeq = some next ∧
    (u.nextSeq - origin).toNat ≤ (next - origin).toNat
  inside : ∀ next, f.nextSeq = some next → (next - origin).toNat < 0x80000000

namespace InLine

variable {f g : Flow} {origin : Seq}

/-- A direction of which nothing was seen has no records. -/
theorem unseen (origin : Seq) : InLine {} origin :=
  ⟨.nil, fun _ mem => absurd mem List.not_mem_nil, fun _ known => nomatch known⟩

/-- Records may go, as long as the position stays. -/
theorem sublist (h : f.InLine origin) (nextSeq : g.nextSeq = f.nextSeq)
    (unacked : g.unacked.Sublist f.unacked) : g.InLine origin where
  increasing := h.increasing.sublist unacked
  reached u mem := by
    rw [nextSeq]
    exact h.reached u (unacked.subset mem)
  inside next known := h.inside next (nextSeq ▸ known)

/-- A segment that takes its sender further, ends behind the position. -/
theorem lt_of_past (h : f.InLine origin) {s : Segment}
    (fits : (s.seq - origin).toNat + s.sequenceLen < 0x80000000)
    (past : f.nextSeq.all (after s.endSeq) = true) {next : Seq} (known : f.nextSeq = some next) :
    (next - origin).toNat < (s.endSeq - origin).toNat := by
  have inside := h.inside next known
  have stop := Segment.toNat_endSeq_sub fits
  rw [known, Option.all_some, after_iff] at past
  bv_omega

/-- **One segment** keeps the records of its sender in line. -/
theorem sent (h : f.InLine origin) {s : Segment} (sent : f.Sent s g)
    (fits : (s.seq - origin).toNat + s.sequenceLen < 0x80000000) : g.InLine origin := by
  cases sent with
  | behind same => exact h.sublist same.nextSeq (same.unacked ▸ List.Sublist.refl _)
  | ahead past nextSeq unacked =>
      have further : ∀ u ∈ f.unacked, (u.nextSeq - origin).toNat < (s.endSeq - origin).toNat := by
        intro u mem
        obtain ⟨next, known, le⟩ := h.reached u mem
        exact Nat.lt_of_le_of_lt le (h.lt_of_past fits past known)
      have listed : ∀ u ∈ s.listing, u.nextSeq = s.endSeq := by
        unfold Segment.listing
        split
        · exact fun u mem => absurd mem List.not_mem_nil
        · exact fun u mem => by rw [List.mem_singleton.1 mem]
      refine ⟨?increasing, fun u mem => ⟨s.endSeq, nextSeq, ?reached⟩, fun next known => ?inside⟩
      case increasing =>
        rw [unacked]
        refine List.pairwise_append.2 ⟨h.increasing, ?_, fun u mem v mem' => ?_⟩
        · unfold Segment.listing
          split
          · exact .nil
          · exact List.pairwise_singleton ..
        · rw [listed v mem']
          exact further u mem
      case reached =>
        rw [unacked] at mem
        rcases List.mem_append.1 mem with mem | mem
        · exact Nat.le_of_lt (further u mem)
        · exact Nat.le_of_eq (by rw [listed u mem])
      case inside =>
        rw [nextSeq, Option.some_inj] at known
        rw [← known, Segment.toNat_endSeq_sub fits]
        exact fits

/-! ### What an acknowledgment covers -/

/-- A record is covered if its end lies at or in front of the acknowledgment. -/
theorem covered_iff (h : f.InLine origin) {ack : Seq} (near : (ack - origin).toNat < 0x80000000)
    {u : UnackedSegment} (mem : u ∈ f.unacked) :
    atOrBefore u.nextSeq ack = true ↔ (u.nextSeq - origin).toNat ≤ (ack - origin).toNat := by
  obtain ⟨next, known, le⟩ := h.reached u mem
  have inside := h.inside next known
  rw [atOrBefore, Bool.not_eq_true', ← Bool.not_eq_true, after_iff]
  bv_omega

/-- **What an acknowledgment takes out is a front part of the records**: those that it covers. -/
theorem prune (h : f.InLine origin) {ack : Seq} (near : (ack - origin).toNat < 0x80000000) :
    ∃ gone, f.unacked = gone ++ (f.pruneAcked ack).unacked ∧
      (∀ u ∈ gone, (u.nextSeq - origin).toNat ≤ (ack - origin).toNat) ∧
      ∀ u ∈ (f.pruneAcked ack).unacked, (ack - origin).toNat < (u.nextSeq - origin).toNat := by
  refine ⟨f.unacked.filter (atOrBefore ·.nextSeq ack), ?_, fun u mem => ?_, fun u mem => ?_⟩
  · refine (filter_append_filter_of_front ?_).symm
    refine h.increasing.imp_of_mem fun mem mem' lt covered => ?_
    rw [h.covered_iff near mem'] at covered
    rw [h.covered_iff near mem]
    exact Nat.le_trans (Nat.le_of_lt lt) covered
  · obtain ⟨mem, covered⟩ := List.mem_filter.1 mem
    exact (h.covered_iff near mem).1 covered
  · obtain ⟨mem, left⟩ := List.mem_filter.1 mem
    rw [Bool.not_eq_true', ← Bool.not_eq_true, h.covered_iff near mem] at left
    exact Nat.lt_of_not_le left

/-- Records that end at the same place are the same. -/
theorem eq_of_nextSeq_eq (h : f.InLine origin) {u v : UnackedSegment} (mem : u ∈ f.unacked)
    (mem' : v ∈ f.unacked) (same : u.nextSeq = v.nextSeq) : u = v := by
  have distinct : (f.unacked.map fun u => (u.nextSeq - origin).toNat).Nodup :=
    List.pairwise_map.2 (h.increasing.imp Nat.ne_of_lt)
  exact List.inj_on_of_nodup_map distinct mem mem' (by rw [same])

/-- **The record that an acknowledgment points at** is the one that ends there. -/
theorem ackedExactly_eq_some_iff (h : f.InLine origin) {ack : Seq} {u : UnackedSegment} :
    f.ackedExactly ack = some u ↔ u ∈ f.unacked ∧ u.nextSeq = ack := by
  have there (v : UnackedSegment) :
      v ∈ f.unacked.filter (·.nextSeq == ack) ↔ v ∈ f.unacked ∧ v.nextSeq = ack := by
    rw [List.mem_filter, beq_iff_eq]
  constructor
  · exact fun last => (there u).1 (List.mem_of_getLast? last)
  · intro own
    cases last : f.ackedExactly ack with
    | none => exact absurd ((there u).2 own) (List.getLast?_eq_none_iff.1 last ▸ List.not_mem_nil)
    | some v =>
        obtain ⟨mem, stop⟩ := (there v).1 (List.mem_of_getLast? last)
        rw [h.eq_of_nextSeq_eq mem own.1 (stop.trans own.2.symm)]

end InLine

end Flow

end TcpCapture
