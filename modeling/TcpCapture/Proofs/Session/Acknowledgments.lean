import TcpCapture.Proofs.Flow.Unacked
import TcpCapture.Proofs.Session.Remembering

/-!
# What acknowledgments are told to be of

Along a run, each direction of a connection keeps its records in line, and each of them is of the segment
that first took the position where the record ends.  So an acknowledgment that ends a record exactly is told
to be of that segment, and the round trip is counted from it: a late copy neither stands on the list nor is
timed.

## Main definitions

* `Session.flowOf`, `Session.positionOf?` — a direction of a stream; where it stands after some calls
* `FirstTo` — a call takes a direction to a number that it did not stand at before
* `Followed` — what holds of a live flow after some calls
* `Acknowledges` — what a segment does to the records of its peer, and what is reported of it
* `acknowledges_after` — every call of every run does so

**The window.**  The numbers of a direction, and the acknowledgments for them, lie less than half a turn
away from one origin.  Nothing is assumed of the calls about other streams, nor of the settings.
-/

namespace TcpCapture

namespace Connection

section

variable (c : Connection) (registry : MetaRegistry) (config : Config) (probe : Option LengthProbe)
  (d : Direction) (s : Segment)

/-- Window scales and bases have nothing to do with the records. -/
theorem sameRecords_noteOpening (e : Direction) :
    (c.flow e).SameRecords ((c.noteOpening d s).flow e) :=
  ⟨view_noteOpening Flow.nextSeq c d s (fun _ _ _ _ => rfl) e,
    view_noteOpening Flow.unacked c d s (fun _ _ _ _ => rfl) e⟩

/-- A segment is settled whether it is judged or only followed. -/
theorem settles_judge :
    Settles (c.flow d) (c.flow d.opposite) s
      ⟨(c.judge config d s).1.flow d, (c.judge config d s).1.flow d.opposite,
        (c.judge config d s).2⟩ := by
  unfold judge
  dsimp only
  rw [flow_setFlows_same, flow_setFlows_opposite]
  split
  · have settles := settles_classify (c.flow d) (c.flow d.opposite) s
      (config.thresholds.withRtt c.firstRtt)
    exact ⟨settles.sent.congr ⟨rfl, rfl⟩ ⟨rfl, rfl⟩, settles.answered, settles.ackedFrame,
      settles.ackRtt⟩
  · have settles := settles_track (c.flow d) (c.flow d.opposite) s
    exact ⟨settles.sent.congr ⟨rfl, rfl⟩ ⟨rfl, rfl⟩, settles.answered, settles.ackedFrame,
      settles.ackRtt⟩

/-- **Handling a segment settles it.** -/
theorem settles_handle :
    Settles (c.flow d) (c.flow d.opposite) s
      ⟨(c.handle registry config probe d s).connection.flow d,
        (c.handle registry config probe d s).connection.flow d.opposite,
        (c.handle registry config probe d s).report.classification⟩ := by
  have opened := c.sameRecords_noteOpening d s
  have settles := ((c.noteOpening d s).settles_judge config d s).congr (opened d) (opened d.opposite)
  have kept (e : Direction) : ((c.judged config d s).1.flow e).SameRecords
      ((c.handle registry config probe d s).connection.flow e) :=
    ⟨c.view_handle registry config probe d s Flow.nextSeq (fun _ _ _ => rfl) (fun _ _ => rfl) e,
      c.view_handle registry config probe d s Flow.unacked (fun _ _ _ => rfl) (fun _ _ => rfl) e⟩
  have classification : (c.handle registry config probe d s).report.classification =
      (c.judged config d s).2 := by
    rw [handle_eq]
  rw [classification]
  exact ⟨settles.sent.congr ⟨rfl, rfl⟩ (kept d), settles.answered.trans (kept d.opposite),
    settles.ackedFrame, settles.ackRtt⟩

end

end Connection

namespace Session

/-! ### The flows of a stream -/

/-- The flow of a direction of a live stream, and a blank one for any other stream. -/
def flowOf (s : Session) (stream : Nat) (d : Direction) : Flow :=
  ((s.table.get? stream).map (·.flow d)).getD {}

/-- Where a direction of a stream stands after some calls. -/
def positionOf? (config : Config) (calls : List Call) (stream : Nat) (d : Direction) : Option Seq :=
  (((new config).after calls).flowOf stream d).nextSeq

theorem flowOf_of_live {s : Session} (h : s.Consistent) {c : Connection} (mem : c ∈ s.table.live)
    (d : Direction) : s.flowOf c.stream d = c.flow d := by
  obtain ⟨displaced, indexed⟩ := h
  rw [flowOf, indexed.get?_eq_some_iff.2 ⟨mem, rfl⟩]
  rfl

/-- A stream that has not opened is blank. -/
theorem flowOf_of_unopened {s : Session} (h : s.Consistent) {stream : Nat}
    (unopened : s.table.nextStream ≤ stream) (d : Direction) : s.flowOf stream d = {} := by
  obtain ⟨displaced, indexed⟩ := h
  cases found : s.table.get? stream with
  | none =>
      rw [flowOf, found]
      rfl
  | some c =>
      obtain ⟨mem, rfl⟩ := indexed.get?_eq_some_iff.1 found
      exact absurd (indexed.stream_lt c mem) (Nat.not_lt_of_le unopened)

section

variable {s : Session} {call : Call} {r : Resolved} {c : Connection}

/-- The flows that handle a call are those of its stream. -/
theorem Handles.flowOf_eq (h : s.Consistent) (handles : s.Handles call r c) (d : Direction) :
    s.flowOf c.stream d = c.flow d := by
  rcases handles.live_cases h handles.mem with mem | rfl
  · exact flowOf_of_live h mem d
  · refine (flowOf_of_unopened h (Nat.le_refl s.table.nextStream) d).trans ?_
    cases d <;> rfl

theorem Handles.flowOf_take (h : s.Consistent) (handles : s.Handles call r c) (d : Direction) :
    (s.take call).session.flowOf c.stream d = (handled call r c).connection.flow d := by
  have after := flowOf_of_live (handles.take_consistent h) (handles.mem_live_take h) d
  rw [← handles.sameIdentity.stream]
  exact after

end

/-! ### First to a number -/

/-- A call about the stream takes a direction to a number that it stood at after none of the calls
before. -/
def FirstTo (config : Config) (calls : List Call) (stream : Nat) (d : Direction) (n : Seq)
    (call : Call) : Prop :=
  ∃ earlier, earlier ++ [call] <+: calls ∧ call.direction = d ∧
    (((new config).after earlier).take call).stream? = some stream ∧
    positionOf? config (earlier ++ [call]) stream d = some n ∧
    ∀ pre, pre <+: earlier → positionOf? config pre stream d ≠ some n

section

variable {config : Config} {calls : List Call} {stream : Nat} {d : Direction} {n : Seq}

theorem FirstTo.of_prefix {part : List Call} {call : Call}
    (first : FirstTo config part stream d n call) (within : part <+: calls) :
    FirstTo config calls stream d n call := by
  obtain ⟨earlier, reached, rest⟩ := first
  exact ⟨earlier, reached.trans within, rest⟩

/-- One call is the first. -/
theorem FirstTo.unique {call call' : Call} (first : FirstTo config calls stream d n call)
    (first' : FirstTo config calls stream d n call') : call = call' := by
  obtain ⟨earlier, reached, -, -, there, new⟩ := first
  obtain ⟨earlier', reached', -, -, there', new'⟩ := first'
  rcases List.prefix_or_prefix_of_prefix reached reached' with within | within
  · rcases List.prefix_concat_iff.1 within with same | before
    · exact (List.append_singleton_inj.1 same).2
    · exact absurd there (new' _ before)
  · rcases List.prefix_concat_iff.1 within with same | before
    · exact (List.append_singleton_inj.1 same).2.symm
    · exact absurd there' (new _ before)

/-! ### Following a flow -/

/-- What holds of a flow of a live stream after some calls: its records are in line, it has never stood
further than it does, and each record is of the segment that was first to its end. -/
structure Followed (config : Config) (calls : List Call) (stream : Nat) (d : Direction) (origin : Seq)
    (f : Flow) : Prop extends f.InLine origin where
  furthest : ∀ pre, pre <+: calls → ∀ n, positionOf? config pre stream d = some n →
    ∃ next, f.nextSeq = some next ∧ (n - origin).toNat ≤ (next - origin).toNat
  listed : ∀ u ∈ f.unacked, ∃ call, FirstTo config calls stream d u.nextSeq call ∧
    call.segment.frame = u.frame ∧ call.segment.timestamp = u.timestamp

namespace Followed

variable {origin : Seq} {f g : Flow}

/-- A stream that opens next stands nowhere, and never stood anywhere. -/
theorem opening (config : Config) (calls : List Call) (d : Direction) (origin : Seq) :
    Followed config calls ((new config).after calls).table.nextStream d origin {} where
  toInLine := .unseen origin
  listed _ mem := absurd mem List.not_mem_nil
  furthest pre within n known := by
    obtain ⟨later, rfl⟩ := within
    have consistent := (consistent_new config).after pre
    have unopened : ((new config).after pre).table.nextStream ≤
        ((new config).after (pre ++ later)).table.nextStream := by
      rw [after_append]
      exact le_nextStream_after consistent later
    rw [positionOf?, flowOf_of_unopened consistent unopened] at known
    cases known

/-- A call that leaves the position as it is, and lists nothing. -/
theorem stays (h : Followed config calls stream d origin f) {call : Call}
    (now : ((new config).after (calls ++ [call])).flowOf stream d = g)
    (nextSeq : g.nextSeq = f.nextSeq) (unacked : g.unacked.Sublist f.unacked) :
    Followed config (calls ++ [call]) stream d origin g where
  toInLine := h.toInLine.sublist nextSeq unacked
  furthest pre within n known := by
    rcases List.prefix_concat_iff.1 within with rfl | within
    · rw [positionOf?, now] at known
      exact ⟨n, known, Nat.le_refl _⟩
    · rw [nextSeq]
      exact h.furthest pre within n known
  listed u mem := by
    obtain ⟨first, reached, record⟩ := h.listed u (unacked.subset mem)
    exact ⟨first, reached.of_prefix (List.prefix_append _ _), record⟩

/-- **A segment of the direction**: where it takes the position further, no call was there before, for
the direction never stood further than it does. -/
theorem sends (h : Followed config calls stream d origin f) {call : Call}
    (now : ((new config).after (calls ++ [call])).flowOf stream d = g)
    (sent : f.Sent call.segment g) (own : call.direction = d)
    (about : (((new config).after calls).take call).stream? = some stream)
    (fits : (call.segment.seq - origin).toNat + call.segment.sequenceLen < 0x80000000) :
    Followed config (calls ++ [call]) stream d origin g := by
  have line := h.toInLine.sent sent fits
  cases sent with
  | behind same => exact h.stays now same.nextSeq (same.unacked ▸ List.Sublist.refl _)
  | ahead past nextSeq unacked =>
      have behind : ∀ pre, pre <+: calls → ∀ n, positionOf? config pre stream d = some n →
          (n - origin).toNat < (call.segment.endSeq - origin).toNat := by
        intro pre within n known
        obtain ⟨next, standing, le⟩ := h.furthest pre within n known
        exact Nat.lt_of_le_of_lt le (h.toInLine.lt_of_past fits past standing)
      refine ⟨line, fun pre within n known => ⟨_, nextSeq, ?furthest⟩, fun u mem => ?listed⟩
      case furthest =>
        rcases List.prefix_concat_iff.1 within with rfl | within
        · rw [positionOf?, now, nextSeq, Option.some_inj] at known
          exact Nat.le_of_eq (by rw [known])
        · exact Nat.le_of_lt (behind pre within n known)
      case listed =>
        rw [unacked] at mem
        rcases List.mem_append.1 mem with mem | mem
        · obtain ⟨first, reached, record⟩ := h.listed u mem
          exact ⟨first, reached.of_prefix (List.prefix_append _ _), record⟩
        · unfold Segment.listing at mem
          split at mem
          · exact absurd mem List.not_mem_nil
          · obtain rfl := List.mem_singleton.1 mem
            refine ⟨call, ⟨calls, List.prefix_refl _, own, about, ?_, fun pre within known => ?_⟩,
              rfl, rfl⟩
            · rw [positionOf?, now, nextSeq]
            · exact Nat.lt_irrefl _ (behind pre within _ known)

/-- **What is told of the record that an answer points at**, its frame or the time since it was sent, is
told of the call that was first to its end. -/
theorem acked?_eq_some_iff (h : Followed config calls stream d origin f) (s : Segment)
    (told : UnackedSegment → Nat) (tells : Call → Nat)
    (same : ∀ u call, call.segment.frame = u.frame → call.segment.timestamp = u.timestamp →
      tells call = told u) (x : Nat) :
    (f.acked? s).map told = some x ↔
      s.flags.ack = true ∧ (∃ u ∈ f.unacked, u.nextSeq = s.ack) ∧
        ∃ first, FirstTo config calls stream d s.ack first ∧ tells first = x := by
  unfold Flow.acked?
  constructor
  · intro pointed
    obtain ⟨u, acked, rfl⟩ := Option.map_eq_some_iff.1 pointed
    split at acked
    · rename_i answers
      obtain ⟨mem, stop⟩ := h.ackedExactly_eq_some_iff.1 acked
      obtain ⟨first, reached, frame, timestamp⟩ := h.listed u mem
      exact ⟨answers, ⟨u, mem, stop⟩, first, stop ▸ reached, same u first frame timestamp⟩
    · cases acked
  · rintro ⟨answers, ⟨u, mem, stop⟩, first, reached, rfl⟩
    obtain ⟨first', reached', frame, timestamp⟩ := h.listed u mem
    obtain rfl := reached.unique (stop ▸ reached')
    rw [if_pos answers, h.ackedExactly_eq_some_iff.2 ⟨mem, stop⟩, same u first frame timestamp]
    rfl

end Followed

end

/-! ### Runs -/

/-- All numbers of some calls lie within half a turn, from an origin on that each direction has for
itself. -/
def CallsInWindow (origin : Direction → Seq) (calls : List Call) : Prop :=
  ∀ call ∈ calls,
    (call.segment.seq - origin call.direction).toNat + call.segment.sequenceLen < 0x80000000 ∧
      (call.segment.flags.ack = true →
        (call.segment.ack - origin call.direction.opposite).toNat < 0x80000000)

instance (origin : Direction → Seq) (calls : List Call) : Decidable (CallsInWindow origin calls) :=
  inferInstanceAs (Decidable (∀ call ∈ calls, _ ∧ _))

/-- The calls about a stream of an earlier part of a run. -/
theorem callsOf_mono (s : Session) (stream : Nat) {pre calls : List Call} (within : pre <+: calls) :
    s.callsOf stream pre <+: s.callsOf stream calls := by
  obtain ⟨later, rfl⟩ := within
  induction later using List.reverseRecOn with
  | nil => rw [List.append_nil]
  | append_singleton later call ih =>
      rw [← List.append_assoc, callsOf_concat]
      exact ih.trans (List.prefix_append _ _)

section

variable {config : Config} {calls : List Call} {stream : Nat} {origin : Direction → Seq}

/-- A call about the stream has its numbers in the window. -/
theorem CallsInWindow.last {call : Call}
    (near : CallsInWindow origin ((new config).callsOf stream (calls ++ [call])))
    (about : (((new config).after calls).take call).stream? = some stream) :
    (call.segment.seq - origin call.direction).toNat + call.segment.sequenceLen < 0x80000000 ∧
      (call.segment.flags.ack = true →
        (call.segment.ack - origin call.direction.opposite).toNat < 0x80000000) := by
  rw [callsOf_concat, if_pos about] at near
  exact near call List.mem_concat_self

theorem CallsInWindow.of_prefix {pre : List Call}
    (near : CallsInWindow origin ((new config).callsOf stream calls)) (within : pre <+: calls) :
    CallsInWindow origin ((new config).callsOf stream pre) :=
  fun call mem => near call ((callsOf_mono _ stream within).subset mem)

/-- What holds of the live flows of a stream holds of those that a call is handled among, too. -/
theorem Handles.followed
    (all : ∀ c ∈ ((new config).after calls).table.live, c.stream = stream →
      ∀ d, Followed config calls stream d (origin d) (c.flow d))
    {call : Call} {r : Resolved} {c : Connection}
    (handles : ((new config).after calls).Handles call r c) :
    ∀ e ∈ r.session.table.live, e.stream = stream →
      ∀ d, Followed config calls stream d (origin d) (e.flow d) := by
  intro e mem own d
  rcases handles.live_cases ((consistent_new config).after calls) mem with mem | rfl
  · exact all e mem own d
  · subst own
    have blank : (Connection.start ((new config).after calls).table.nextStream call.conversation
        call.segment.timestamp).flow d = {} := by
      cases d <;> rfl
    rw [blank]
    exact .opening ..

/-- **A run**: a live flow of a stream whose calls have their numbers in the window is followed. -/
theorem followed_after (near : CallsInWindow origin ((new config).callsOf stream calls)) :
    ∀ c ∈ ((new config).after calls).table.live, c.stream = stream →
      ∀ d, Followed config calls stream d (origin d) (c.flow d) := by
  induction calls using List.reverseRecOn with
  | nil => exact fun c mem => absurd mem List.not_mem_nil
  | append_singleton calls call ih =>
      have consistent := (consistent_new config).after calls
      have before := ih (near.of_prefix (List.prefix_append _ _))
      -- a connection that the call is not about stays as it is
      have others : ∀ e ∈ ((new config).after (calls ++ [call])).table.live, e.stream = stream →
          (∀ d, Followed config calls stream d (origin d) (e.flow d)) →
            ∀ d, Followed config (calls ++ [call]) stream d (origin d) (e.flow d) := by
        rintro e mem rfl known d
        have now := flowOf_of_live ((consistent_new config).after (calls ++ [call])) mem d
        exact (known d).stays now rfl (List.Sublist.refl _)
      intro e mem own
      rcases ((new config).after calls).take_cases call with ⟨error, refused⟩ | ⟨r, c, handles⟩
      · refine others e mem own (before e ?_ own)
        rw [after_concat, take_of_refused refused] at mem
        exact consistent.live_swept_subset call mem
      · have known := handles.followed before
        have there := mem
        rw [after_concat] at there
        rcases (handles.mem_live_take_iff consistent).1 there with rfl | ⟨there, -⟩
        · have about := handles.stream?_take consistent
          have same : c.stream = stream := handles.sameIdentity.stream.symm.trans own
          subst same
          have settles := c.settles_handle r.session.registry r.session.config call.probe
            call.direction call.segment
          intro d
          have now : ((new config).after (calls ++ [call])).flowOf c.stream d =
              (handled call r c).connection.flow d := by
            rw [after_concat]
            exact handles.flowOf_take consistent d
          by_cases sender : d = call.direction
          · subst sender
            exact (known c handles.mem rfl _).sends now settles.sent rfl about (near.last about).1
          · obtain rfl := Direction.eq_opposite_of_ne sender
            have answered := settles.answered
            refine (known c handles.mem rfl _).stays now ?_ ?_
            · refine answered.nextSeq.trans ?_
              unfold Flow.answered
              split <;> rfl
            · refine answered.unacked ▸ ?_
              unfold Flow.answered
              split
              · exact List.filter_sublist
              · exact List.Sublist.refl _
        · exact others e mem own (known e there own)

end

/-! ### What a segment acknowledges -/

/-- What a segment does to the records of its peer, after some calls, and what its report says of it. -/
structure Acknowledges (config : Config) (calls : List Call) (call : Call) (origin : Seq)
    (report : SegmentReport) (listed left : List UnackedSegment) : Prop where
  /-- A segment that acknowledges nothing leaves the records alone. -/
  bare : call.segment.flags.ack = false → left = listed
  /-- An acknowledgment takes out the records that end at or in front of it, which come first. -/
  pruned : call.segment.flags.ack = true → ∃ gone, listed = gone ++ left ∧
    (∀ u ∈ gone, (u.nextSeq - origin).toNat ≤ (call.segment.ack - origin).toNat) ∧
    ∀ u ∈ left, (call.segment.ack - origin).toNat < (u.nextSeq - origin).toNat
  /-- The frame reported is that of the segment that was first to the acknowledgment, as long as a record
  ends there. -/
  ackedFrame : ∀ frame, report.classification.ackedFrame = some frame ↔
    call.segment.flags.ack = true ∧ (∃ u ∈ listed, u.nextSeq = call.segment.ack) ∧
      ∃ first, FirstTo config calls report.stream call.direction.opposite call.segment.ack first ∧
        first.segment.frame = frame
  /-- The round trip is the time since then, and none where the clock went back. -/
  ackRtt : ∀ rtt, report.classification.ackRtt = some rtt ↔
    call.segment.flags.ack = true ∧ (∃ u ∈ listed, u.nextSeq = call.segment.ack) ∧
      ∃ first, FirstTo config calls report.stream call.direction.opposite call.segment.ack first ∧
        call.segment.timestamp - first.segment.timestamp = rtt

section

variable {config : Config} {calls : List Call} {origin : Direction → Seq}

/-- **One call** whose numbers, like those of the calls before it, lie in the window. -/
theorem Handles.acknowledges {call : Call} {r : Resolved} {c : Connection}
    (handles : ((new config).after calls).Handles call r c)
    (near : CallsInWindow origin ((new config).callsOf c.stream (calls ++ [call])))
    {report : SegmentReport} (ok : (((new config).after calls).take call).report = .ok report) :
    Acknowledges config calls call (origin call.direction.opposite) report
      (((new config).after calls).flowOf c.stream call.direction.opposite).unacked
      (((new config).after (calls ++ [call])).flowOf c.stream call.direction.opposite).unacked := by
  have consistent := (consistent_new config).after calls
  have known := handles.followed (followed_after (near.of_prefix (List.prefix_append _ _))) c
    handles.mem rfl call.direction.opposite
  have settles := c.settles_handle r.session.registry r.session.config call.probe call.direction
    call.segment
  have inside := (near.last (handles.stream?_take consistent)).2
  rw [after_concat, handles.flowOf_eq consistent, handles.flowOf_take consistent]
  have left : ((handled call r c).connection.flow call.direction.opposite).unacked =
      ((c.flow call.direction.opposite).answered call.segment).unacked := settles.answered.unacked
  have stream : report.stream = c.stream := by
    have about := handles.stream?_take consistent
    rw [Processed.stream?, ok] at about
    exact Option.some_inj.1 about
  rw [handles.take_eq consistent] at ok
  obtain rfl := Except.ok.inj ok
  rw [left]
  unfold Flow.answered
  refine ⟨fun bare => ?bare, fun answers => ?pruned, fun frame => ?ackedFrame, fun rtt => ?ackRtt⟩
  case bare => rw [if_neg (by rw [bare]; decide)]
  case pruned =>
    rw [if_pos answers]
    exact known.prune (inside answers)
  case ackedFrame =>
    rw [stream]
    refine Iff.trans (Eq.congr settles.ackedFrame rfl) ?_
    exact known.acked?_eq_some_iff call.segment (·.frame) (·.segment.frame) (fun _ _ frame _ => frame)
      frame
  case ackRtt =>
    rw [stream]
    refine Iff.trans (Eq.congr settles.ackRtt rfl) ?_
    exact known.acked?_eq_some_iff call.segment (call.segment.timestamp - ·.timestamp)
      (call.segment.timestamp - ·.segment.timestamp) (fun _ _ _ timestamp => by rw [timestamp]) rtt

/-- **Acknowledgments along a run.**  As long as the numbers of the calls about a stream lie in the window,
the records of both directions are in line all the time, and every segment acknowledges a front part of the
records of its peer and is told to be of the segment that was first to where it points. -/
theorem acknowledges_after (config : Config) (calls : List Call) (stream : Nat)
    (origin : Direction → Seq) (near : CallsInWindow origin ((new config).callsOf stream calls)) :
    (∀ pre, pre <+: calls → ∀ d, (((new config).after pre).flowOf stream d).InLine (origin d)) ∧
    ∀ pre call, pre ++ [call] <+: calls →
      ∀ report, (((new config).after pre).take call).report = .ok report → report.stream = stream →
        Acknowledges config pre call (origin call.direction.opposite) report
          (((new config).after pre).flowOf stream call.direction.opposite).unacked
          (((new config).after (pre ++ [call])).flowOf stream call.direction.opposite).unacked := by
  constructor
  · intro pre within d
    obtain ⟨displaced, indexed⟩ := (consistent_new config).after pre
    unfold flowOf
    cases found : ((new config).after pre).table.get? stream with
    | none => exact .unseen _
    | some c =>
        obtain ⟨mem, own⟩ := indexed.get?_eq_some_iff.1 found
        exact (followed_after (near.of_prefix within) c mem own d).toInLine
  · intro pre call within report ok about
    have consistent := (consistent_new config).after pre
    rcases ((new config).after pre).take_cases call with ⟨error, refused⟩ | ⟨r, c, handles⟩
    · rw [take_of_refused refused] at ok
      cases ok
    · have same := handles.stream?_take consistent
      rw [Processed.stream?, ok] at same
      obtain rfl : c.stream = stream := (Option.some_inj.1 same).symm.trans about
      exact handles.acknowledges (near.of_prefix within) ok

end

/-- Ten bytes across the wrap are sent twice, and acknowledged: the acknowledgment is told to be of the
first copy, and takes it out. -/
theorem acknowledges_first_copy :
    let client : Endpoint := ⟨.v4 0x0a000001, 40000⟩
    let server : Endpoint := ⟨.v4 0x0a000002, 443⟩
    let syn : Call := {
      segment := { source := client, destination := server, seq := 0xfffffff8, flags.syn := true, frame := 1 } }
    let answer : Call := {
      segment := {
        source := server, destination := client, seq := 4999, ack := 0xfffffff9, frame := 2
        flags := { syn := true, ack := true } } }
    let data (frame timestamp : Nat) : Call := {
      segment := {
        source := client, destination := server, seq := 0xfffffff9, ack := 5000, flags.ack := true
        payload := List.replicate 10 7, frame, timestamp } }
    let ack : Call := {
      segment := {
        source := server, destination := client, seq := 5000, ack := 3, flags.ack := true
        frame := 5, timestamp := 1110000000 } }
    let sent := [syn, answer, data 3 100000000, data 4 1100000000]
    ∃ report, (((new {}).after sent).take ack).report = .ok report ∧
      report.classification.ackedFrame = some 3 ∧
      report.classification.ackRtt = some 1010000000 ∧
      (((new {}).after (sent ++ [ack])).flowOf 0 ack.direction.opposite).unacked = [] ∧
      ∃ first, FirstTo {} sent 0 ack.direction.opposite 3 first ∧ first.segment.frame = 3 := by
  intro client server syn answer data ack sent
  let origin (d : Direction) : Seq := if d = ack.direction.opposite then 0xfffffff8 else 4999
  have near : CallsInWindow origin ((new {}).callsOf 0 (sent ++ [ack])) := by decide +kernel
  have told : (((new {}).after sent).take ack).report.toOption.map (fun report =>
      (report.stream, report.classification.ackedFrame, report.classification.ackRtt)) =
      some (0, some 3, some 1010000000) := by decide +kernel
  have out : (((new {}).after (sent ++ [ack])).flowOf 0 ack.direction.opposite).unacked = [] := by
    decide +kernel
  cases ok : (((new {}).after sent).take ack).report with
  | error e =>
      rw [ok] at told
      cases told
  | ok report =>
      rw [ok] at told
      obtain ⟨stream, rest⟩ := Prod.mk.inj (Option.some_inj.1 told)
      obtain ⟨frame, rtt⟩ := Prod.mk.inj rest
      have acknowledges := (acknowledges_after {} (sent ++ [ack]) 0 origin near).2 sent ack
        (List.prefix_refl _) report ok stream
      obtain ⟨-, -, first⟩ := (acknowledges.ackedFrame 3).1 frame
      rw [stream] at first
      exact ⟨report, rfl, frame, rtt, out, first⟩

end Session

end TcpCapture
