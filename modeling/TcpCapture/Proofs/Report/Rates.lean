import Mathlib.Data.List.Basic
import Mathlib.Data.List.Induction
import TcpCapture.Proofs.Sequence
import TcpCapture.Report.RunningRate

/-!
# Rates as plain sums

The series of rates come from a queue that samples enter at one end and leave at the other, and a running
total of their bytes.  On a clock that never steps back both can be forgotten: the rate at a sample is the
sum of all samples up to it that are younger than the window.

## Main definitions

* `TrailingSums` — the points of a series, as filters and sums over all samples so far
* `highestAck`, `gain?` — how far acknowledgments have come, and what one more gains
* `advances` — the acknowledgments that are after all before them, as samples
* `trailingSums_rates` — both series are such sums, and the gains lie end to end

**Acknowledgments wrap.**  How far they have come is a number modulo `2 ^ 32`, and an acknowledgment that is
not after it gains nothing, however often it comes.  So the gains add up to the way from the first
acknowledgment to the highest one, at every point of the history.
-/

namespace TcpCapture

/-! ### The running total -/

namespace RateWindow

/-- A total that is right stays right: whoever leaves has been counted. -/
theorem shed?_totalOf (window now : Nat) (queue : List Sample) :
    shed? window now queue (totalOf (·.bytes) queue) =
      let left := queue.dropWhile fun old => !isWithin now old.time window
      some { queue := left, bytes := totalOf (·.bytes) left } := by
  induction queue with
  | nil => rfl
  | cons old rest ih =>
      rw [shed?, List.dropWhile_cons]
      cases isWithin now old.time window with
      | true => rfl
      | false =>
          have counted : old.bytes ≤ totalOf (·.bytes) (old :: rest) := Nat.le_add_right _ _
          have others : totalOf (·.bytes) (old :: rest) - old.bytes = totalOf (·.bytes) rest :=
            Nat.add_sub_cancel_left ..
          simp only [Bool.false_eq_true, if_false, if_pos counted, others, ih, Bool.not_false, if_true]

/-- The series by a running total is the series by sums over the queue. -/
theorem rates?_totalOf (window : Nat) (queue samples : List Sample) :
    rates? window { queue, bytes := totalOf (·.bytes) queue } samples =
      some ((trailing window queue samples).map fun (s, queue) =>
        { frame := s.frame, time := s.time, bitsPerSec := rateOf (totalOf (·.bytes) queue) window }) := by
  induction samples generalizing queue with
  | nil => rfl
  | cons s rest ih =>
      have total : totalOf (·.bytes) queue + s.bytes = totalOf (·.bytes) (queue ++ [s]) := by
        rw [totalOf_append]
        rfl
      rw [rates?, push?, total, shed?_totalOf, Option.bind_some, ih]
      rfl

end RateWindow

/-- **The running total never runs short**, and leads to the same rates, whatever the clock does. -/
theorem runningRate?_eq_movingRate (window : Nat) (samples : List Sample) :
    runningRate? window samples = some (movingRate window samples) := by
  unfold runningRate? movingRate
  split
  · rfl
  · exact RateWindow.rates?_totalOf window [] samples

/-! ### The window -/

/-- The samples up to some moment, in the order of a clock that never steps back. -/
def Sample.Ordered (samples : List Sample) : Prop := samples.Pairwise fun x y => x.time ≤ y.time

/-- The samples that are younger than the window. -/
def Sample.within (window now : Nat) (samples : List Sample) : List Sample :=
  samples.filter fun old => isWithin now old.time window

/-- The points of a series: at each sample the bytes of all samples up to it that are younger than the
window. -/
structure TrailingSums (window : Nat) (samples : List Sample) (points : List RatePoint) : Prop where
  length : points.length = samples.length
  point : ∀ front s back, samples = front ++ s :: back →
    points[front.length]? = some {
      frame := s.frame
      time := s.time
      bitsPerSec :=
        rateOf (totalOf (·.bytes) ((front ++ [s]).filter fun old => decide (s.time - old.time < window)))
          window }

namespace Sample

variable {window : Nat}

variable (window) in
/-- Along ordered samples, those that are too old come first. -/
theorem dropWhile_eq_within {samples : List Sample} (ordered : Ordered samples) (now : Nat) :
    samples.dropWhile (fun old => !isWithin now old.time window) = within window now samples := by
  induction samples with
  | nil => rfl
  | cons old rest ih =>
      obtain ⟨younger, ordered⟩ := List.pairwise_cons.1 ordered
      unfold within
      rw [List.dropWhile_cons, List.filter_cons]
      cases young : isWithin now old.time window with
      | false => exact ih ordered
      | true =>
          have all : rest.filter (fun old => isWithin now old.time window) = rest := by
            refine List.filter_eq_self.2 fun x mem => decide_eq_true ?_
            have := of_decide_eq_true young
            have := younger x mem
            omega
          rw [all]
          rfl

/-- Whoever is in the window later was in it before. -/
theorem within_within {now later : Nat} (le : now ≤ later) (samples : List Sample) :
    within window later (within window now samples) = within window later samples := by
  unfold within
  rw [List.filter_filter]
  refine List.filter_congr fun old _ => ?_
  rw [Bool.and_eq_left_iff_imp]
  intro young
  have := of_decide_eq_true young
  exact decide_eq_true (by omega)

theorem within_append (now : Nat) (samples more : List Sample) :
    within window now (samples ++ more) = within window now samples ++ within window now more :=
  List.filter_append ..

end Sample

open Sample in
/-- **The queue is a filter** of all samples so far.  The queue may have lost samples; from the moment of the
next sample on none of these is in the window. -/
theorem getElem?_trailing {window : Nat} {seen queue rest : List Sample} (ordered : Ordered (queue ++ rest))
    (kept : ∀ s ∈ rest, within window s.time queue = within window s.time seen) :
    ∀ front s back, rest = front ++ s :: back →
      (trailing window queue rest)[front.length]? =
        some (s, within window s.time (seen ++ front ++ [s])) := by
  induction rest generalizing seen queue with
  | nil =>
      intro front s back split
      simp at split
  | cons first rest ih =>
      have again : (queue ++ [first]) ++ rest = queue ++ first :: rest := by
        rw [List.append_assoc, List.singleton_append]
      have entered : Ordered (queue ++ [first]) := by
        rw [← again] at ordered
        exact (List.pairwise_append.1 ordered).1
      have now : within window first.time (queue ++ [first]) =
          within window first.time (seen ++ [first]) := by
        rw [within_append, within_append, kept first List.mem_cons_self]
      have left := dropWhile_eq_within window entered first.time
      rw [now] at left
      intro front s back split
      rw [trailing, left]
      cases front with
      | nil =>
          obtain ⟨rfl, -⟩ := List.cons.inj split
          rw [List.append_nil]
          rfl
      | cons _ front =>
          obtain ⟨rfl, others⟩ := List.cons.inj split
          have later : ∀ s ∈ rest, first.time ≤ s.time :=
            (List.pairwise_cons.1 (List.pairwise_append.1 ordered).2.1).1
          have shorter : Ordered (within window first.time (seen ++ [first]) ++ rest) := by
            rw [← now]
            rw [← again] at ordered
            exact ordered.sublist (List.filter_sublist.append_right rest)
          have behind := ih shorter (fun s mem => within_within (later s mem) (seen ++ [first]))
            front s back others
          rw [List.append_assoc seen [first], List.singleton_append] at behind
          rw [List.length_cons, List.getElem?_cons_succ]
          exact behind

theorem length_trailing (window : Nat) (queue samples : List Sample) :
    (trailing window queue samples).length = samples.length := by
  induction samples generalizing queue with
  | nil => rfl
  | cons s rest ih => exact congrArg (· + 1) (ih _)

/-- **A series is made of trailing sums**, on a clock that never steps back. -/
theorem trailingSums_movingRate {window : Nat} (positive : 0 < window) {samples : List Sample}
    (ordered : Sample.Ordered samples) : TrailingSums window samples (movingRate window samples) := by
  unfold movingRate
  rw [if_neg (Nat.ne_of_gt positive)]
  refine ⟨by rw [List.length_map, length_trailing], fun front s back split => ?_⟩
  have ordered : Sample.Ordered ([] ++ samples) := ordered
  have point : (trailing window [] samples)[front.length]? =
      some (s, Sample.within window s.time ([] ++ front ++ [s])) :=
    getElem?_trailing ordered (fun _ _ => rfl) front s back split
  rw [List.getElem?_map, point, List.nil_append]
  rfl

/-! ### What acknowledgments gain -/

/-- How far acknowledgments have come, with one more record. -/
def noteAck (highest : Option Seq) (r : SegmentRecord) : Option Seq :=
  r.ack.elim highest fun ack => some (highest.elim ack (later ack))

/-- How far the acknowledgments in some records have come. -/
def highestAck (records : List SegmentRecord) : Option Seq := records.foldl noteAck none

/-- The first acknowledgment in some records. -/
def firstAck? (records : List SegmentRecord) : Option Seq := records.findSome? (·.ack)

/-- What a record gains over the highest acknowledgment before it, if its own one is after that. -/
def gain? (highest : Option Seq) (r : SegmentRecord) : Option Sample :=
  highest.bind fun prev => r.ack.bind fun ack =>
    if after ack prev then some ⟨r.frame, r.timestamp, (ack - prev).toNat⟩ else none

/-- One sample for each acknowledgment in some records that is after all before it. -/
def advances (records : List SegmentRecord) : List Sample :=
  records.zipIdx.filterMap fun x => gain? (highestAck (records.take x.2)) x.1

theorem gains_cons (highest : Option Seq) (r : SegmentRecord) (rest : List SegmentRecord) :
    gains highest (r :: rest) = (gain? highest r).toList ++ gains (noteAck highest r) rest := by
  conv_lhs => unfold gains
  unfold gain? noteAck
  cases r.ack with
  | none => cases highest <;> rfl
  | some ack =>
      cases highest with
      | none => rfl
      | some prev =>
          simp only [Option.elim_some, Option.bind_some, later]
          cases after ack prev <;> rfl

theorem gains_append (highest : Option Seq) (front back : List SegmentRecord) :
    gains highest (front ++ back) = gains highest front ++ gains (front.foldl noteAck highest) back := by
  induction front generalizing highest with
  | nil => rfl
  | cons r rest ih =>
      rw [List.cons_append, gains_cons, gains_cons, ih, List.append_assoc]
      rfl

theorem advances_concat (records : List SegmentRecord) (r : SegmentRecord) :
    advances (records ++ [r]) = advances records ++ (gain? (highestAck records) r).toList := by
  unfold advances
  rw [List.zipIdx_append, List.filterMap_append]
  congr 1
  · refine List.filterMap_congr fun x mem => ?_
    have inside := (List.mem_zipIdx mem).2.1
    rw [List.take_append_of_le_length (by omega)]
  · rw [List.zipIdx_singleton, Nat.zero_add, List.filterMap_cons, List.filterMap_nil]
    dsimp only
    rw [List.take_left]
    cases gain? (highestAck records) r <;> rfl

/-- **The samples of a series of acknowledgments** are those that advance. -/
theorem gains_eq_advances (records : List SegmentRecord) : gains none records = advances records := by
  induction records using List.reverseRecOn with
  | nil => rfl
  | append_singleton records r ih =>
      rw [gains_append, ih, advances_concat, gains_cons]
      exact congrArg _ (List.append_nil _)

/-- One record moves the highest acknowledgment as far as it gains. -/
theorem noteAck_some (prev : Seq) (r : SegmentRecord) :
    noteAck (some prev) r =
      some (advance prev (totalOf (·.bytes) (gain? (some prev) r).toList)) := by
  unfold noteAck gain?
  cases r.ack with
  | none => exact congrArg some (advance_zero prev).symm
  | some ack =>
      simp only [Option.elim_some, Option.bind_some, later]
      cases after ack prev with
      | false => exact congrArg some (advance_zero prev).symm
      | true => exact congrArg some (advance_toNat_sub prev ack).symm

/-- **Gains lie end to end.**  From wherever acknowledgments have come, they have come as much further as was
gained since. -/
theorem foldl_noteAck_some (prev : Seq) (records : List SegmentRecord) :
    records.foldl noteAck (some prev) =
      some (advance prev (totalOf (·.bytes) (gains (some prev) records))) := by
  induction records generalizing prev with
  | nil => exact congrArg some (advance_zero prev).symm
  | cons r rest ih =>
      rw [List.foldl_cons, gains_cons, noteAck_some, ih, totalOf_append, advance_advance]

/-- The highest acknowledgment is as far behind the first one as was gained in all. -/
theorem highestAck_eq (records : List SegmentRecord) :
    highestAck records = (firstAck? records).map (advance · (totalOf (·.bytes) (advances records))) := by
  rw [← gains_eq_advances]
  unfold highestAck firstAck?
  induction records with
  | nil => rfl
  | cons r rest ih =>
      rw [List.foldl_cons, gains_cons, List.findSome?_cons]
      unfold noteAck gain?
      cases r.ack with
      | none => exact ih
      | some ack => exact foldl_noteAck_some ack rest

/-! ### The two series -/

/-- What some acknowledgments gain, added up at every point of the history and in all. -/
structure Telescopes (acks : List SegmentRecord) : Prop where
  /-- At every point the highest acknowledgment is where all gains so far have led from the first one. -/
  sofar : ∀ front, front <+: acks →
    highestAck front = (firstAck? front).map (advance · (totalOf (·.bytes) (advances front)))
  /-- All gains together are the way from the first acknowledgment to the highest one. -/
  total : ∀ first last, firstAck? acks = some first → highestAck acks = some last →
    BitVec.ofNat 32 (totalOf (·.bytes) (advances acks)) = last - first

theorem telescopes (acks : List SegmentRecord) : Telescopes acks where
  sofar front _ := highestAck_eq front
  total first last known highest := by
    rw [highestAck_eq, known] at highest
    obtain rfl := Option.some.inj highest
    show BitVec.ofNat 32 _ = first + BitVec.ofNat 32 _ - first
    rw [BitVec.add_comm first, BitVec.add_sub_cancel]

/-- A gain has the time of its record. -/
theorem time_of_gain? {highest : Option Seq} {r : SegmentRecord} {s : Sample}
    (gained : gain? highest r = some s) : s.time = r.timestamp := by
  obtain ⟨prev, -, gained⟩ := Option.bind_eq_some_iff.1 gained
  obtain ⟨ack, -, gained⟩ := Option.bind_eq_some_iff.1 gained
  split at gained
  · obtain rfl := Option.some.inj gained
    rfl
  · cases gained

theorem times_gains_sublist (highest : Option Seq) (records : List SegmentRecord) :
    ((gains highest records).map (·.time)).Sublist (records.map (·.timestamp)) := by
  induction records generalizing highest with
  | nil => exact List.Sublist.refl []
  | cons r rest ih =>
      rw [gains_cons, List.map_append, List.map_cons]
      have first : ((gain? highest r).toList.map (·.time)).Sublist [r.timestamp] := by
        cases gained : gain? highest r with
        | none => exact List.nil_sublist _
        | some s =>
            rw [← time_of_gain? gained]
            exact List.Sublist.refl [s.time]
      exact first.append (ih _)

section

variable {records : List SegmentRecord}
  (ordered : records.Pairwise fun r r' => r.timestamp ≤ r'.timestamp) (d : Direction)

include ordered

theorem ordered_sentSamples : Sample.Ordered (sentSamples records d) :=
  List.pairwise_map.2 (ordered.sublist List.filter_sublist)

theorem ordered_ackedSamples : Sample.Ordered (ackedSamples records d) := by
  have times := (List.pairwise_map.2 (ordered.sublist List.filter_sublist)).sublist
    (times_gains_sublist none (records.filter fun r => r.direction == d.opposite))
  exact List.pairwise_map.1 times

/-- **Rates are plain trailing sums.**  On a clock that never steps back, the payload sent in a direction has
one point for each of its data records, and the data acknowledged one for each acknowledgment of the other
direction that is after all before it.  Each point is the rate of the bytes that count at a time less than the
window ago.  What acknowledgments gain adds up to the way from the first one to the highest.  A running total
of the bytes leads to the same points and never runs short. -/
theorem trailingSums_rates {window : Nat} (positive : 0 < window) :
    let data := records.filter fun r => r.direction == d && r.len != 0
    let acks := records.filter fun r => r.direction == d.opposite
    TrailingSums window (data.map fun r => ⟨r.frame, r.timestamp, r.len⟩) (throughput records d window) ∧
      TrailingSums window (advances acks) (goodput records d window) ∧
      Telescopes acks ∧
      runningRate? window (data.map fun r => ⟨r.frame, r.timestamp, r.len⟩) =
        some (throughput records d window) ∧
      runningRate? window (advances acks) = some (goodput records d window) := by
  intro data acks
  have sent : data.map (fun r => ⟨r.frame, r.timestamp, r.len⟩) = sentSamples records d := rfl
  have acked : advances acks = ackedSamples records d := (gains_eq_advances acks).symm
  rw [sent, acked]
  exact ⟨trailingSums_movingRate positive (ordered_sentSamples ordered d),
    trailingSums_movingRate positive (ordered_ackedSamples ordered d), telescopes acks,
    runningRate?_eq_movingRate window _, runningRate?_eq_movingRate window _⟩

end

/-- Data of 100, 200 and 300 bytes, the last as the first is exactly one window old.  The
acknowledgments start just before zero: one is repeated, one comes late, and two are gains of 32 bytes, the
first across zero. -/
theorem trailingSums_rates_wrapping :
    let window := 1000
    let record (frame time : Nat) (direction : Direction) (len : Nat) (ack : Option Seq) :
        SegmentRecord :=
      { frame, direction, timestamp := time, seq := 0, nextSeq := 0, ack, len, window := 0, flags := {}
        sack := {}, findings := {}, segmentClass := .inOrder }
    let sent (frame time len : Nat) : SegmentRecord := record frame time .forward len none
    let acked (frame time : Nat) (ack : Seq) : SegmentRecord := record frame time .reverse 0 (some ack)
    let records := [sent 1 0 100, acked 2 100 0xfffffff0, sent 3 500 200,
      acked 4 600 0xfffffff0, acked 5 700 0x10, acked 6 800 0xfffffff8,
      sent 7 1000 300, acked 8 1700 0x30]
    let data := records.filter fun r => r.direction == .forward && r.len != 0
    let acks := records.filter fun r => r.direction == .reverse
    ((records.Pairwise fun r r' => r.timestamp ≤ r'.timestamp) ∧ 0 < window) ∧
      (TrailingSums window (data.map fun r => ⟨r.frame, r.timestamp, r.len⟩)
          (throughput records .forward window) ∧
        TrailingSums window (advances acks) (goodput records .forward window) ∧
        Telescopes acks ∧
        runningRate? window (data.map fun r => ⟨r.frame, r.timestamp, r.len⟩) =
          some (throughput records .forward window) ∧
        runningRate? window (advances acks) = some (goodput records .forward window)) ∧
      throughput records .forward window =
        [⟨1, 0, rateOf 100 window⟩, ⟨3, 500, rateOf 300 window⟩,
          ⟨7, 1000, rateOf 500 window⟩] ∧
      goodput records .forward window =
        [⟨5, 700, rateOf 32 window⟩, ⟨8, 1700, rateOf 32 window⟩] ∧
      firstAck? acks = some 0xfffffff0 ∧ highestAck acks = some 0x30 := by
  intro window record sent acked records data acks
  have ordered : records.Pairwise fun r r' => r.timestamp ≤ r'.timestamp := by decide
  have positive : 0 < window := by decide
  have sentQueues : trailing window [] (sentSamples records .forward) =
      [(⟨1, 0, 100⟩, [⟨1, 0, 100⟩]), (⟨3, 500, 200⟩, [⟨1, 0, 100⟩, ⟨3, 500, 200⟩]),
        (⟨7, 1000, 300⟩, [⟨3, 500, 200⟩, ⟨7, 1000, 300⟩])] := by decide
  have ackedQueues : trailing window [] (ackedSamples records .forward) =
      [(⟨5, 700, 32⟩, [⟨5, 700, 32⟩]), (⟨8, 1700, 32⟩, [⟨8, 1700, 32⟩])] := by decide
  refine ⟨⟨ordered, positive⟩, trailingSums_rates ordered .forward positive, ?_, ?_, by decide, by decide⟩
  · unfold throughput movingRate
    rw [sentQueues]
    rfl
  · unfold goodput movingRate
    rw [ackedQueues]
    rfl

end TcpCapture
