import TcpCapture.Proofs.Session.Run

/-!
# Reports of teardown

Every connection that opens is torn down once, and the report of it should reach whoever feeds the
session: with the segment that ended the connection or pushed it out, or at the end of the session.

## Main definitions

* `Processed.handedOut` — the reports a call hands out
* `Session.lostReports` — the reports of a sweep that its call does not hand out
* `Session.awaiting` — the streams whose report is still to come
* `TornDownOnce` — every stream that opened is reported exactly once

**Conservation.**  The streams reported, the streams whose report was lost and the streams still
waiting for theirs are together the streams that have opened, each once.  A call moves streams between
the three, and adds one when it opens a connection.

**Lost reports.**  Idle connections are retired before it is known whether the segment belongs to any
connection.  A call that is refused returns an error and no report, not even theirs.
-/

namespace TcpCapture

namespace Session

/-- The reports of teardown a call hands out: those of the other connections given up on this
occasion, and that of its own. -/
def Processed.handedOut (p : Processed) : List TeardownReport :=
  match p.report with
  | .ok report => report.retired ++ report.teardown.toList
  | .error _ => []

/-- The reports of the sweep before a call, where the call is refused. -/
def lostReports (s : Session) (call : Call) : List TeardownReport :=
  match s.resolved call with
  | .ok _ => []
  | .error _ => s.sweepReports call

/-- The streams of live connections whose teardown is still to be reported. -/
def awaiting (s : Session) : List Nat := s.table.live.flatMap Connection.awaiting

/-- The streams of some reports. -/
def streamsOf (reports : List TeardownReport) : List Nat := reports.map (·.stream)

theorem streamsOf_append (reports reports' : List TeardownReport) :
    streamsOf (reports ++ reports') = streamsOf reports ++ streamsOf reports' := List.map_append

/-- The reports the calls of a run hand out. -/
def handedOutBy (s : Session) (calls : List Call) : List TeardownReport :=
  (s.run calls).flatMap Processed.handedOut

/-- The reports lost in a run. -/
def lostBy (s : Session) : List Call → List TeardownReport
  | [] => []
  | call :: rest => s.lostReports call ++ (s.take call).session.lostBy rest

/-- The streams the segments of a run were found to belong to. -/
def streamsSeen (s : Session) (calls : List Call) : List Nat :=
  (s.run calls).filterMap fun p => p.report.toOption.map (·.stream)

/-- Every stream that opened in a run of a new session is the subject of exactly one report, handed
out by the run or at the end. -/
def TornDownOnce (config : Config) (calls : List Call) : Prop :=
  ∀ stream ∈ (new config).streamsSeen calls,
    (streamsOf ((new config).handedOutBy calls ++
      ((new config).after calls).finish.2.teardowns)).count stream = 1

/-! ### One stage after the other -/

theorem streamsOf_retire (s : Session) (c : Connection) (reason : TeardownReason) :
    streamsOf (s.retire c reason).2.toList = c.awaiting := by
  unfold retire Connection.awaiting
  cases c.closed <;> rfl

/-- Retiring a connection reports it, unless that was done when it closed. -/
theorem streamsOf_retireAll (s : Session) (reason : Connection → TeardownReason)
    (cs : List Connection) :
    streamsOf (s.retireAll reason cs).2 = cs.flatMap Connection.awaiting := by
  induction cs generalizing s with
  | nil => rfl
  | cons c rest ih =>
      have first := s.streamsOf_retire c (reason c)
      have others := ih (s.retire c (reason c)).1
      show streamsOf ((s.retire c (reason c)).2.toList ++ _) = _
      rw [streamsOf_append, List.flatMap_cons]
      exact congrArg₂ (· ++ ·) first others

/-- A sweep reports the connections it takes out. -/
theorem sweepIdle_awaiting {s : Session} (h : s.Consistent) (now : Nat) :
    (streamsOf (s.sweepIdle now).2 ++ (s.sweepIdle now).1.awaiting).Perm s.awaiting := by
  obtain ⟨displaced, h⟩ := h
  unfold sweepIdle
  split
  · exact List.Perm.refl _
  · dsimp only
    rw [streamsOf_retireAll, awaiting, retireAll_table, ← List.flatMap_append]
    exact (h.removeAll_perm _).flatMap_right _

/-- Opening a connection reports those it pushes out, and adds one that waits for its report. -/
theorem openStream_awaiting {s : Session} (h : s.Consistent) (conversation : Conversation)
    (now : Nat) (reused : Bool) :
    (streamsOf (s.openStream conversation now reused).retired ++
      (s.openStream conversation now reused).session.awaiting).Perm
      (s.awaiting ++ [s.table.nextStream]) := by
  obtain ⟨displaced, h⟩ := h
  have perm := (h.openConnection_perm conversation now).flatMap_right Connection.awaiting
  rw [List.flatMap_append, List.flatMap_append] at perm
  rw [awaiting, openStream_table]
  exact (congrArg (· ++ _) (streamsOf_retireAll _ _ _)).symm ▸ perm

/-- The end of a session reports every connection that is still waiting. -/
theorem streamsOf_finish (s : Session) : streamsOf s.finish.2.teardowns = s.awaiting :=
  streamsOf_retireAll _ _ _

/-! ### Conservation -/

/-- The streams that are done with and those waiting for their report are the streams that have
opened. -/
def Balanced (finished : List Nat) (s : Session) : Prop :=
  (finished ++ s.awaiting).Perm (List.range s.table.nextStream)

theorem nextStream_sweepIdle (s : Session) (now : Nat) :
    (s.sweepIdle now).1.table.nextStream = s.table.nextStream :=
  (s.sameNumbering_sweepIdle now).nextStream

namespace Balanced

variable {s : Session} {finished : List Nat}

theorem perm {finished' : List Nat} (h : Balanced finished s) (same : finished.Perm finished') :
    Balanced finished' s := (same.symm.append_right _).trans h

theorem sweepIdle (h : Balanced finished s) (consistent : s.Consistent) (now : Nat) :
    Balanced (finished ++ streamsOf (s.sweepIdle now).2) (s.sweepIdle now).1 := by
  unfold Balanced
  rw [nextStream_sweepIdle, List.append_assoc]
  exact ((sweepIdle_awaiting consistent now).append_left _).trans h

theorem resolve (h : Balanced finished s) (consistent : s.Consistent) {conversation : Conversation}
    {d : Direction} {segment : Segment} {r : Resolved}
    (ok : s.resolve conversation d segment = .ok r) :
    Balanced (finished ++ streamsOf r.retired) r.session := by
  rcases resolve_cases ok with ⟨c, -, rfl⟩ | ⟨reused, rfl⟩
  · exact (List.append_nil finished).symm ▸ h
  · have opens := openStream_awaiting consistent conversation segment.timestamp reused
    unfold Balanced
    rw [openStream_table, ConnectionTable.nextStream_openConnection, List.range_succ,
      List.append_assoc]
    refine (opens.append_left finished).trans ?_
    rw [← List.append_assoc]
    exact h.append_right _

/-- Handling moves the stream of its connection to those done with, or leaves it waiting. -/
theorem handle {call : Call} {r : Resolved} {c : Connection} (h : Balanced finished r.session)
    (consistent : s.Consistent) (handles : s.Handles call r c) :
    Balanced (finished ++ streamsOf (handled call r c).report.teardown.toList)
      (s.take call).session := by
  -- the connection itself is balanced, and the others are the same before and after
  have own : streamsOf (handled call r c).report.teardown.toList ++
      (handled call r c).connection.awaiting = c.awaiting := c.handle_awaiting ..
  have before : r.session.awaiting.Perm
      (c.awaiting ++
        (r.session.table.live.filter (·.stream != c.stream)).flatMap Connection.awaiting) := by
    obtain ⟨displaced, indexed⟩ := handles.consistent consistent
    exact (ConnectionTable.perm_cons_filter indexed.nodup_streams handles.mem).flatMap_right _
  have after : (s.take call).session.awaiting.Perm
      ((handled call r c).connection.awaiting ++
        (r.session.table.live.filter (·.stream != c.stream)).flatMap Connection.awaiting) :=
    (handles.live_perm consistent).flatMap_right _
  rw [← own, List.append_assoc] at before
  unfold Balanced
  rw [handles.nextStream_take consistent, List.append_assoc]
  exact (((after.append_left _).trans before.symm).append_left finished).trans h

/-- One call: the reports handed out and the reports lost are those it owed. -/
theorem take (h : Balanced finished s) (consistent : s.Consistent) (call : Call) :
    Balanced (finished ++ streamsOf ((s.take call).handedOut ++ s.lostReports call))
      (s.take call).session := by
  have swept : Balanced (finished ++ streamsOf (s.sweepReports call)) (s.swept call) :=
    h.sweepIdle consistent call.segment.timestamp
  rcases s.take_cases call with ⟨e, refused⟩ | ⟨r, c, handles⟩
  · have lost : s.lostReports call = s.sweepReports call := by rw [lostReports, refused]
    rw [take_of_refused refused, lost]
    exact swept
  · have resolved := swept.resolve (consistent.swept call) handles.resolved
    have balanced := resolved.handle consistent handles
    have lost : s.lostReports call = [] := by rw [lostReports, handles.resolved]
    have out : (s.take call).handedOut =
        s.sweepReports call ++ r.retired ++ (handled call r c).report.teardown.toList := by
      rw [handles.take_eq consistent]
      rfl
    rw [lost, List.append_nil, out, streamsOf_append, streamsOf_append, ← List.append_assoc,
      ← List.append_assoc]
    exact balanced

end Balanced

theorem handedOutBy_concat (s : Session) (calls : List Call) (call : Call) :
    s.handedOutBy (calls ++ [call]) =
      s.handedOutBy calls ++ ((s.after calls).take call).handedOut := by
  rw [handedOutBy, run_concat, List.flatMap_append]
  exact congrArg (_ ++ ·) (List.append_nil _)

theorem lostBy_concat (s : Session) (calls : List Call) (call : Call) :
    s.lostBy (calls ++ [call]) = s.lostBy calls ++ (s.after calls).lostReports call := by
  induction calls generalizing s with
  | nil => exact List.append_nil _
  | cons first rest ih =>
      show s.lostReports first ++ (s.take first).session.lostBy (rest ++ [call]) = _
      rw [ih, ← List.append_assoc]
      rfl

/-- **No report is created or forgotten**: in a run of a new session the streams reported, those whose
report was lost and those still waiting are the streams that have opened. -/
theorem balanced_after (config : Config) (calls : List Call) :
    Balanced (streamsOf ((new config).handedOutBy calls ++ (new config).lostBy calls))
      ((new config).after calls) := by
  induction calls using List.reverseRecOn with
  | nil => exact List.Perm.refl _
  | append_singleton calls call ih =>
      have step := ih.take ((consistent_new config).after calls) call
      rw [after_concat, handedOutBy_concat, lostBy_concat]
      refine step.perm ?_
      -- a call appends its reports of both kinds, the run keeps the two kinds apart
      simp only [streamsOf_append, List.append_assoc]
      refine List.Perm.append_left _ ?_
      rw [← List.append_assoc, ← List.append_assoc]
      exact List.perm_append_comm.append_right _

/-! ### Every stream once -/

/-- The reports of a run and of its end, with the lost ones, name every stream that opened once. -/
theorem streamsOf_perm (config : Config) (calls : List Call) :
    (streamsOf ((new config).handedOutBy calls ++ ((new config).after calls).finish.2.teardowns) ++
      streamsOf ((new config).lostBy calls)).Perm
      (List.range ((new config).after calls).table.nextStream) := by
  refine List.Perm.trans ?_ (balanced_after config calls)
  rw [streamsOf_append, streamsOf_append, streamsOf_finish, List.append_assoc, List.append_assoc]
  exact List.Perm.append_left _ List.perm_append_comm

theorem nextStream_swept (s : Session) (call : Call) :
    (s.swept call).table.nextStream = s.table.nextStream := nextStream_sweepIdle _ _

theorem streamsSeen_concat (s : Session) (calls : List Call) (call : Call) :
    s.streamsSeen (calls ++ [call]) = s.streamsSeen calls ++
      (((s.after calls).take call).report.toOption.map (·.stream)).toList := by
  rw [streamsSeen, run_concat, List.filterMap_append]
  refine congrArg (_ ++ ·) ?_
  cases h : ((s.after calls).take call).report.toOption.map (·.stream) <;> simp [h]

/-- The streams seen in a run are those that have opened. -/
theorem mem_streamsSeen (config : Config) (calls : List Call) (stream : Nat) :
    stream ∈ (new config).streamsSeen calls ↔
      stream < ((new config).after calls).table.nextStream := by
  induction calls using List.reverseRecOn with
  | nil => simp [streamsSeen, run, after, new]
  | append_singleton calls call ih =>
      have consistent := (consistent_new config).after calls
      rw [streamsSeen_concat, List.mem_append, ih, after_concat]
      generalize (new config).after calls = s at consistent
      rcases s.take_cases call with ⟨e, refused⟩ | ⟨r, c, handles⟩
      · rw [take_of_refused refused, nextStream_swept]
        simp [Except.toOption]
      · have seen : ((s.take call).report.toOption.map (·.stream)).toList = [r.stream] := by
          have : (handled call r c).report.stream = r.stream :=
            (c.handle_report_stream ..).trans (handles.sameIdentity.stream.trans handles.stream)
          rw [handles.take_eq consistent]
          exact congrArg ([·]) this
        rw [seen, List.mem_singleton, handles.nextStream_take consistent]
        have next := (consistent.swept call).resolve_stream handles.resolved
        rw [nextStream_swept] at next
        omega

theorem lostBy_eq_nil_iff (s : Session) (calls : List Call) :
    s.lostBy calls = [] ↔
      ∀ pre call, pre ++ [call] <+: calls → (s.after pre).lostReports call = [] := by
  induction calls using List.reverseRecOn with
  | nil => simp [lostBy]
  | append_singleton calls call ih =>
      rw [lostBy_concat, List.append_eq_nil_iff, ih]
      constructor
      · rintro ⟨earlier, last⟩ pre call' reached
        rcases List.prefix_concat_iff.1 reached with same | reached
        · obtain ⟨rfl, rfl⟩ := List.append_singleton_inj.1 same
          exact last
        · exact earlier pre call' reached
      · intro all
        constructor
        · intro pre call' reached
          exact all pre call' (reached.trans (List.prefix_append _ _))
        · exact all calls call (List.prefix_refl _)

/-- **Every stream is reported exactly once if and only if no call that is refused had expired a
connection that was waiting for its report.** -/
theorem tornDownOnce_iff (config : Config) (calls : List Call) :
    TornDownOnce config calls ↔
      ∀ pre call, pre ++ [call] <+: calls → ((new config).after pre).lostReports call = [] := by
  have perm := streamsOf_perm config calls
  have counts : ∀ stream ∈ (new config).streamsSeen calls,
      (streamsOf ((new config).handedOutBy calls ++
        ((new config).after calls).finish.2.teardowns)).count stream +
          (streamsOf ((new config).lostBy calls)).count stream = 1 := by
    intro stream seen
    rw [← List.count_append, perm.count_eq]
    exact List.count_eq_one_of_mem List.nodup_range
      (List.mem_range.2 ((mem_streamsSeen config calls stream).1 seen))
  rw [← lostBy_eq_nil_iff]
  constructor
  · intro once
    refine List.eq_nil_iff_forall_not_mem.2 ?_
    intro report lost
    -- its stream is reported once, and lost once more: twice in a list that names it once
    have mem : report.stream ∈ streamsOf ((new config).lostBy calls) := List.mem_map_of_mem lost
    have opened := List.mem_range.1 (perm.mem_iff.1 (List.mem_append_right _ mem))
    have seen := (mem_streamsSeen config calls report.stream).2 opened
    have := counts _ seen
    have := once _ seen
    have := List.count_pos_iff.2 mem
    omega
  · intro none stream seen
    have := counts stream seen
    rw [none] at this
    exact this

/-- A connection that expires just before a segment of no connection: its report reaches nobody. -/
theorem not_tornDownOnce :
    ¬ TornDownOnce { acceptMidstream := false, idleTimeout := 100 }
      [{ segment := {
            source := ⟨.v4 0x0a000001, 1000⟩
            destination := ⟨.v4 0x0a000101, 80⟩
            flags.syn := true
            timestamp := 1 } },
        { segment := {
            source := ⟨.v4 0x0a000002, 1000⟩
            destination := ⟨.v4 0x0a000101, 80⟩
            flags.ack := true
            timestamp := 1000 } }] := by
  intro once
  have := once 0
  revert this
  decide +kernel

end Session

end TcpCapture
