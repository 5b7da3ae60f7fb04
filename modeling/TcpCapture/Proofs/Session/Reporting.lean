import TcpCapture.Proofs.Flow.Coherence
import TcpCapture.Proofs.Session.History

/-!
# Histories and reports

What a call is told of its segment also goes into the history of the connection.  The two are the same,
but for one finding: that ports were reused is only told, never recorded.

## Main definitions

* `SegmentRecord.Agrees` — a record says the same as a report
* `Session.historyOf`, `Session.reportsOf` — what was recorded, and what was told, about a stream
* `Session.takesOver` — a call opens a connection where another one is live
* `Session.Appends` — a call adds the record of its report, and nothing else
* `Session.SameStory` — all calls do, so that histories are lists of reports in the end

**Two stages.**  A connection records a segment as part of handling it, and does not know whether it was
opened in place of another one.  The session knows, and completes the report afterwards.
-/

namespace TcpCapture

/-! ### Records and reports -/

/-- The record is about the segment of the report, and says the same about it. -/
structure SegmentRecord.Agrees (r : SegmentRecord) (report : SegmentReport) : Prop where
  frame : r.frame = report.frame
  direction : r.direction = report.direction
  seq : r.seq = report.seq
  nextSeq : r.nextSeq = report.nextSeq
  ack : r.ack = report.ack
  len : r.len = report.len
  findings : r.findings = report.classification.findings
  segmentClass : r.segmentClass = report.classification.segmentClass

/-- The report as if no ports had been reused. -/
def SegmentReport.withoutReuse (report : SegmentReport) : SegmentReport :=
  { report with classification.findings.reusedPorts := false }

/-- A record of the report without reuse is one of the report exactly if no ports were reused. -/
theorem SegmentRecord.Agrees.iff_of_withoutReuse {r : SegmentRecord} {report : SegmentReport}
    (agrees : r.Agrees report.withoutReuse) :
    r.Agrees report ↔ report.classification.findings.reusedPorts = false := by
  constructor
  · intro exact
    have plain : r.findings.reusedPorts = false := congrArg Findings.reusedPorts agrees.findings
    rw [← exact.findings, plain]
  · intro plain
    have same : report.withoutReuse = report := by
      unfold SegmentReport.withoutReuse
      rw [← plain]
    rwa [same] at agrees

/-! ### Classification does not see reuse -/

namespace Classified

variable (sender peer : Flow) (s : Segment)

theorem reusedPorts_withLate (f : Findings) (late : Option LateKind) :
    (withLate f late).reusedPorts = f.reusedPorts := by
  cases late with
  | none => rfl
  | some kind => cases kind <;> rfl

theorem reusedPorts_positionFindings (window : BitVec 32) :
    (positionFindings sender peer s window).reusedPorts = false := by
  unfold positionFindings
  split <;> rfl

theorem reusedPorts_plainFindings (limits : Thresholds) (duplicate : Bool) :
    (plainFindings sender peer s limits duplicate).reusedPorts = false := by
  have position := reusedPorts_positionFindings sender peer s (advertised sender s)
  unfold plainFindings
  dsimp only
  split
  · exact position
  · rw [reusedPorts_withLate]
    exact position

/-- Whether ports were reused is no matter of classification. -/
theorem Verdict.reusedPorts {sender peer : Flow} {s : Segment} {limits : Thresholds}
    {result : Classified} (verdict : Verdict sender peer s limits result) :
    result.classification.findings.reusedPorts = false := by
  cases verdict with
  | windowProbe _ => rfl
  | keepAliveAnswer _ _ => exact reusedPorts_positionFindings ..
  | probeAnswer _ _ => exact reusedPorts_positionFindings ..
  | duplicate _ _ => exact reusedPorts_plainFindings ..
  | fresh _ _ => exact reusedPorts_plainFindings ..

end Classified

namespace Connection

variable (c : Connection) (registry : MetaRegistry) (config : Config) (probe : Option LengthProbe)
  (d : Direction) (s : Segment)

theorem reusedPorts_judged : (c.judged config d s).2.findings.reusedPorts = false := by
  unfold judged
  unfold judge
  dsimp only
  split
  · exact (Classified.verdict_classify ..).reusedPorts
  · rfl

theorem classification_handle_report :
    (c.handle registry config probe d s).report.classification = (c.judged config d s).2 := by
  rw [handle_eq]

/-- The record that a connection makes agrees with the report that it makes. -/
theorem agrees_handle :
    (c.recorded config d s).Agrees (c.handle registry config probe d s).report := by
  rw [handle_eq]
  exact ⟨rfl, rfl, rfl, rfl, rfl, rfl, rfl, rfl⟩

end Connection

namespace Session

/-! ### What a call is told -/

/-- The call opens a connection where another one between the same endpoints is live. -/
def takesOver (s : Session) (call : Call) : Bool :=
  (s.swept call).opens call && ((s.swept call).table.find? call.conversation).isSome

section

variable {s : Session} {call : Call} {r : Resolved} {c : Connection}

theorem Handles.reused_eq (handles : s.Handles call r c) : r.reused = s.takesOver call := by
  unfold takesOver
  cases opens : (s.swept call).opens call with
  | true =>
      obtain rfl := Except.ok.inj ((resolve_of_opens opens).symm.trans handles.resolved)
      rw [Bool.true_and]
      rfl
  | false =>
      rw [Bool.false_and]
      cases found : (s.swept call).table.find? call.conversation with
      | some earlier =>
          obtain rfl := Except.ok.inj ((resolve_of_found opens found).symm.trans handles.resolved)
          rfl
      | none => cases (resolve_of_missing opens found).symm.trans handles.resolved

theorem Handles.exists_report (h : s.Consistent) (handles : s.Handles call r c) :
    ∃ report, (s.take call).report = .ok report := by
  rw [handles.take_eq h]
  exact ⟨_, rfl⟩

/-- What the connection records agrees with what the call is told, where reuse is not looked at; and the
call is told of reuse exactly if it takes over. -/
theorem Handles.told (h : s.Consistent) (handles : s.Handles call r c) {report : SegmentReport}
    (told : (s.take call).report = .ok report) :
    report.stream = c.stream ∧
      (c.recorded r.session.config call.direction call.segment).Agrees report.withoutReuse ∧
      report.classification.findings.reusedPorts = s.takesOver call := by
  have unseen : (handled call r c).report.classification.findings.reusedPorts = false := by
    unfold handled
    rw [Connection.classification_handle_report, Connection.reusedPorts_judged]
  have agrees : (c.recorded r.session.config call.direction call.segment).Agrees
      (handled call r c).report := c.agrees_handle ..
  rw [handles.take_eq h] at told
  obtain rfl := Except.ok.inj told
  refine ⟨(c.handle_report_stream ..).trans handles.sameIdentity.stream, ?_, ?_⟩
  · refine { agrees with findings := agrees.findings.trans ?_ }
    show (handled call r c).report.classification.findings =
      { (handled call r c).report.classification.findings with reusedPorts := false }
    rw [← unseen]
  · show (r.reused || (handled call r c).report.classification.findings.reusedPorts) = _
    rw [unseen, Bool.or_false, handles.reused_eq]

/-- A call that takes over is handled. -/
theorem exists_handles_of_takesOver (takes : s.takesOver call = true) :
    ∃ r c, s.Handles call r c := by
  have opens := (Bool.and_eq_true_iff.1 takes).1
  refine (s.take_cases call).resolve_left ?_
  rintro ⟨e, refused⟩
  cases (resolve_of_opens opens).symm.trans refused

end

/-! ### Histories in a session -/

/-- What is recorded about a stream, live or retired. -/
def historyOf (s : Session) (stream : Nat) : List SegmentRecord :=
  ((s.summary? stream).map (·.segments.toList)).getD []

/-- What the calls of a run are told about a stream. -/
def reportsOf (s : Session) (stream : Nat) (calls : List Call) : List SegmentReport :=
  (s.run calls).filterMap fun p => p.report.toOption.filter (·.stream == stream)

theorem reportsOf_concat (s : Session) (stream : Nat) (calls : List Call) (call : Call) :
    s.reportsOf stream (calls ++ [call]) = s.reportsOf stream calls ++
      (((s.after calls).take call).report.toOption.filter (·.stream == stream)).toList := by
  unfold reportsOf
  rw [run_concat, List.filterMap_append]
  congr 1

namespace Numbered

variable {s : Session}

/-- There is one summary to find. -/
theorem historyOf_of_mem (h : s.Numbered) {x : StreamSummary} (mem : x ∈ s.summaries) :
    s.historyOf x.stream = x.segments.toList := by
  obtain ⟨y, found⟩ := Option.isSome_iff_exists.1 (isSome_summary?_of_mem mem)
  obtain ⟨there, same⟩ := mem_summaries_of_summary? found
  have once : (s.summaries.map (·.stream)).Nodup := (List.Perm.nodup_iff h).2 List.nodup_range
  obtain rfl := List.inj_on_of_nodup_map once there mem same
  unfold historyOf
  rw [found]
  rfl

/-- Nothing is recorded about streams that have not opened. -/
theorem historyOf_of_le (h : s.Numbered) {stream : Nat} (unopened : s.table.nextStream ≤ stream) :
    s.historyOf stream = [] := by
  have none := h.summary? stream
  rw [if_neg (Nat.not_lt_of_le unopened), Option.map_eq_none_iff] at none
  unfold historyOf
  rw [none]
  rfl

variable {call : Call}

/-- A call changes no history but that of the stream it is about. -/
theorem historyOf_take_other (h : s.Numbered) (consistent : s.Consistent) {stream : Nat}
    (other : (s.take call).stream? ≠ some stream) :
    (s.take call).session.historyOf stream = s.historyOf stream := by
  have after := h.take consistent call
  by_cases opened : stream < (s.take call).session.table.nextStream
  · obtain ⟨x, mem, rfl⟩ := (after.mem_iff stream).2 opened
    rw [after.historyOf_of_mem mem]
    rcases h.mem_summaries_take consistent mem with ⟨before, -⟩ | ⟨r, c, handles, rfl, -⟩
    · rw [h.historyOf_of_mem before]
    · refine absurd ((handles.stream?_take consistent).trans ?_) other
      exact congrArg some handles.sameIdentity.stream.symm
  · have unopened := Nat.le_of_not_lt opened
    rw [after.historyOf_of_le unopened,
      h.historyOf_of_le ((le_nextStream_take consistent call).trans unopened)]

/-- What the connection records is added to its own. -/
theorem historyOf_take_own (h : s.Numbered) (consistent : s.Consistent)
    (on : s.config.recordHistory = true) {r : Resolved} {c : Connection}
    (handles : s.Handles call r c) :
    (s.take call).session.historyOf c.stream = s.historyOf c.stream ++
      [c.recorded r.session.config call.direction call.segment] := by
  have before : s.historyOf c.stream = c.history.toList := by
    rcases handles.summary_cases consistent with known | rfl
    · exact h.historyOf_of_mem known
    · exact h.historyOf_of_le (Nat.le_refl _)
  have settings : r.session.config.recordHistory = true := by rwa [handles.config]
  have added : (handled call r c).connection.history.toList =
      c.history.toList ++ [c.recorded r.session.config call.direction call.segment] := by
    unfold handled
    rw [Connection.history_handle _ _ _ _ _ _ settings, Array.toList_push]
  have mem : { (handled call r c).connection with tsPrev := call.segment.timestamp }.summary ∈
      (s.take call).session.summaries :=
    List.mem_append_right _ (List.mem_map_of_mem (handles.mem_live_take consistent))
  have after := (h.take consistent call).historyOf_of_mem mem
  have stream : (handled call r c).connection.stream = c.stream := handles.sameIdentity.stream
  rw [before, ← added, ← stream]
  exact after

end Numbered

/-! ### One call -/

/-- A call that is handled adds one record to the history of its connection, which is related to what the
call is told.  Other histories stay the same, and all do when it is refused. -/
structure Appends (related : SegmentRecord → SegmentReport → Prop) (s : Session) (call : Call) :
    Prop where
  handled : ∀ report, (s.take call).report = .ok report → ∃ r, related r report ∧
    ∀ stream, (s.take call).session.historyOf stream =
      s.historyOf stream ++ if report.stream = stream then [r] else []
  refused : ∀ e, (s.take call).report = .error e →
    ∀ stream, (s.take call).session.historyOf stream = s.historyOf stream

section

variable {related : SegmentRecord → SegmentReport → Prop} {s : Session}

/-- What a call adds is what the connection records. -/
theorem Numbered.appends_iff (h : s.Numbered) (consistent : s.Consistent)
    (on : s.config.recordHistory = true) (call : Call) :
    s.Appends related call ↔ ∀ r c report, s.Handles call r c →
      (s.take call).report = .ok report →
      related (c.recorded r.session.config call.direction call.segment) report := by
  constructor
  · intro appends r c report handles told
    obtain ⟨record, agrees, added⟩ := appends.handled report told
    have own := added c.stream
    rw [if_pos (handles.told consistent told).1, h.historyOf_take_own consistent on handles] at own
    obtain rfl := List.singleton_inj.1 (List.append_cancel_left own)
    exact agrees
  · intro all
    constructor
    case handled =>
      intro report told
      rcases s.take_cases call with ⟨e, refused⟩ | ⟨r, c, handles⟩
      · rw [take_of_refused refused] at told
        cases told
      · have stream := (handles.told consistent told).1
        refine ⟨_, all r c report handles told, fun other => ?_⟩
        by_cases own : report.stream = other
        · subst own
          rw [if_pos rfl, stream, h.historyOf_take_own consistent on handles]
        · rw [if_neg own, List.append_nil]
          refine h.historyOf_take_other consistent ?_
          rwa [handles.stream?_take consistent, ne_eq, Option.some_inj, ← stream]
    case refused =>
      intro e told stream
      refine h.historyOf_take_other consistent ?_
      unfold Processed.stream?
      rw [told]
      exact Option.some_ne_none _ ∘ Eq.symm

/-- **One call**: what it adds agrees with what it is told, where reuse is not looked at. -/
theorem Numbered.appends_withoutReuse (h : s.Numbered) (consistent : s.Consistent)
    (on : s.config.recordHistory = true) (call : Call) :
    s.Appends (fun r report => r.Agrees report.withoutReuse) call := by
  rw [h.appends_iff consistent on]
  exact fun r c report handles told => (handles.told consistent told).2.1

/-- What it adds agrees with all that it is told, as long as it does not take over. -/
theorem Numbered.appends_agrees_iff (h : s.Numbered) (consistent : s.Consistent)
    (on : s.config.recordHistory = true) (call : Call) :
    s.Appends SegmentRecord.Agrees call ↔ s.takesOver call = false := by
  rw [h.appends_iff consistent on]
  constructor
  · intro all
    by_contra takes
    obtain ⟨r, c, handles⟩ := exists_handles_of_takesOver (Bool.eq_true_of_not_eq_false takes)
    obtain ⟨report, told⟩ := handles.exists_report consistent
    obtain ⟨-, agrees, reused⟩ := handles.told consistent told
    exact takes (reused.symm.trans (agrees.iff_of_withoutReuse.1 (all r c report handles told)))
  · intro stays r c report handles told
    obtain ⟨-, agrees, reused⟩ := handles.told consistent told
    exact agrees.iff_of_withoutReuse.2 (reused.trans stays)

end

/-! ### Runs -/

/-- Every call of a run appends a record related to what it is told; and in the end, the history of each
stream is, record by record, what was told about it. -/
structure SameStory (related : SegmentRecord → SegmentReport → Prop) (config : Config)
    (calls : List Call) : Prop where
  each : ∀ pre call, pre ++ [call] <+: calls → ((new config).after pre).Appends related call
  atEnd : ∀ x ∈ ((new config).after calls).finish.2.streams,
    List.Forall₂ related x.segments.toList ((new config).reportsOf x.stream calls)

section

variable {related : SegmentRecord → SegmentReport → Prop} {config : Config} {calls : List Call}

/-- Histories that are extended as it is told are what was told. -/
theorem forall₂_historyOf
    (each : ∀ pre call, pre ++ [call] <+: calls → ((new config).after pre).Appends related call)
    (stream : Nat) :
    List.Forall₂ related (((new config).after calls).historyOf stream)
      ((new config).reportsOf stream calls) := by
  induction calls using List.reverseRecOn with
  | nil => exact .nil
  | append_singleton calls call ih =>
      have earlier := ih fun pre call' reached => each pre call' (reached.trans (List.prefix_append _ _))
      have last := each calls call (List.prefix_refl _)
      rw [after_concat, reportsOf_concat]
      cases told : (((new config).after calls).take call).report with
      | error e =>
          rw [last.refused e told]
          exact (List.append_nil _).symm ▸ earlier
      | ok report =>
          obtain ⟨r, agrees, added⟩ := last.handled report told
          rw [added]
          refine List.rel_append earlier ?_
          by_cases own : report.stream = stream
          · rw [if_pos own, Except.toOption, Option.filter_some, if_pos (beq_iff_eq.2 own)]
            exact .cons agrees .nil
          · rw [if_neg own, Except.toOption, Option.filter_some, if_neg (mt beq_iff_eq.1 own)]
            exact .nil

/-- The end of a session lists the histories there are. -/
theorem sameStory_iff_each :
    SameStory related config calls ↔
      ∀ pre call, pre ++ [call] <+: calls → ((new config).after pre).Appends related call := by
  refine ⟨SameStory.each, fun each => ⟨each, fun x mem => ?_⟩⟩
  rw [streams_finish, List.mem_mergeSort] at mem
  rw [← (Numbered.after config calls).historyOf_of_mem mem]
  exact forall₂_historyOf each x.stream

end

/-- **History and reports tell the same story, but for reuse of ports.**  Every call that is handled adds
one record to the history of its connection, which agrees with the report in everything else; and they
agree in all of a run if and only if none of its calls takes over from a live connection. -/
theorem sameStory_iff {config : Config} (on : config.recordHistory = true) (calls : List Call) :
    SameStory (fun r report => r.Agrees report.withoutReuse) config calls ∧
      (SameStory SegmentRecord.Agrees config calls ↔
        ∀ pre call, pre ++ [call] <+: calls → ((new config).after pre).takesOver call = false) := by
  have recording (pre : List Call) : ((new config).after pre).config.recordHistory = true := by
    rwa [config_after (consistent_new config)]
  have consistent (pre : List Call) := (consistent_new config).after pre
  rw [sameStory_iff_each, sameStory_iff_each]
  constructor
  · exact fun pre call _ =>
      (Numbered.after config pre).appends_withoutReuse (consistent pre) (recording pre) call
  · refine forall_congr' fun pre => forall_congr' fun call => imp_congr_right fun _ => ?_
    exact (Numbered.after config pre).appends_agrees_iff (consistent pre) (recording pre) call

/-- The server rejects a connection, and the client tries again from another port: no call takes over. -/
theorem sameStory_other_port :
    let client : Endpoint := ⟨.v4 0x0a000001, 40000⟩
    let server : Endpoint := ⟨.v4 0x0a000002, 443⟩
    let syn : Call :=
      { segment := { source := client, destination := server, seq := 99, flags.syn := true } }
    let rejection : Call := {
      segment := {
        source := server, destination := client, ack := 100, flags := { rst := true, ack := true } } }
    let again : Call := {
      segment := {
        source := { client with port := 40001 }, destination := server, seq := 99, flags.syn := true } }
    (((new {}).after [syn, rejection, again]).historyOf 0).length = 2 ∧
      (((new {}).after [syn, rejection, again]).historyOf 1).length = 1 ∧
      SameStory SegmentRecord.Agrees {} [syn, rejection, again] := by
  intro client server syn rejection again
  refine ⟨by decide +kernel, by decide +kernel, (sameStory_iff rfl [syn, rejection, again]).2.2 ?_⟩
  rintro pre call ⟨rest, split⟩
  rcases pre with _ | ⟨first, _ | ⟨second, _ | ⟨third, more⟩⟩⟩
  · obtain ⟨rfl, -⟩ := List.cons.inj split
    decide +kernel
  · obtain ⟨rfl, tail⟩ := List.cons.inj split
    obtain ⟨rfl, -⟩ := List.cons.inj tail
    decide +kernel
  · obtain ⟨rfl, tail⟩ := List.cons.inj split
    obtain ⟨rfl, last⟩ := List.cons.inj tail
    obtain ⟨rfl, -⟩ := List.cons.inj last
    decide +kernel
  · exact absurd (congrArg List.length split) (by simp)

/-- From the same port, the second connection takes over from the first: its SYN is told to reuse ports,
and recorded as if it did not. -/
theorem not_sameStory : ¬ ∀ (config : Config) (calls : List Call), config.recordHistory = true →
    SameStory SegmentRecord.Agrees config calls := by
  intro all
  let client : Endpoint := ⟨.v4 0x0a000001, 40000⟩
  let server : Endpoint := ⟨.v4 0x0a000002, 443⟩
  let syn : Call :=
    { segment := { source := client, destination := server, seq := 99, flags.syn := true } }
  let reset : Call :=
    { segment := { source := client, destination := server, seq := 100, flags.rst := true } }
  have takes : ((new {}).after [syn, reset]).takesOver syn = true := by decide +kernel
  have last := (all {} [syn, reset, syn] rfl).each [syn, reset] syn (List.prefix_refl _)
  have stays := ((Numbered.after {} [syn, reset]).appends_agrees_iff
    ((consistent_new {}).after [syn, reset]) rfl syn).1 last
  cases takes.symm.trans stays

end Session

end TcpCapture
