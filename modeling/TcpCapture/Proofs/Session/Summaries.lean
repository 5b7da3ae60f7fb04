import Mathlib.Data.List.Sort
import TcpCapture.Proofs.Session.Isolation
import TcpCapture.Proofs.Session.Teardown

/-!
# Summaries of streams

Every connection that opens gets the next stream number, and a session can summarise it from then on:
as long as it is live from the connection itself, later from what was noted when it left the table.

## Main definitions

* `Session.openings` — what the calls that open a connection lead to
* `Session.summaries` — the summaries of the retired and of the live connections
* `Session.Numbered` — there is one summary for each stream that has opened

**Conservation.**  A sweep, an eviction and a connection that gives way to another one only move
summaries from the live connections to the retired ones; opening a connection adds one.  Whether the
call is refused in the end makes no difference to the ones that were moved.
-/

namespace TcpCapture

/-- What a teardown gives up is not part of the summary. -/
theorem Connection.summary_teardown (c : Connection) (reason : TeardownReason) :
    (c.teardown reason).1.summary = c.summary := by
  unfold teardown summary
  cases c.link <;> rfl

namespace Session

/-- The stream a call was about, unless it was refused. -/
def Processed.stream? (p : Processed) : Option Nat := p.report.toOption.map (·.stream)

/-- What the calls of a run that open a connection led to. -/
def openings (s : Session) : List Call → List Processed
  | [] => []
  | call :: rest =>
    (if (s.swept call).opens call then [s.take call] else []) ++
      (s.take call).session.openings rest

/-- The summaries of all connections, the retired ones first. -/
def summaries (s : Session) : List StreamSummary :=
  s.retired.toList ++ s.table.live.map Connection.summary

/-- There is one summary for each stream that has opened. -/
def Numbered (s : Session) : Prop :=
  (s.summaries.map (·.stream)).Perm (List.range s.table.nextStream)

theorem openings_concat (s : Session) (calls : List Call) (call : Call) :
    s.openings (calls ++ [call]) = s.openings calls ++
      if ((s.after calls).swept call).opens call then [(s.after calls).take call] else [] := by
  induction calls generalizing s with
  | nil => exact List.append_nil _
  | cons first rest ih =>
      show _ ++ (s.take first).session.openings (rest ++ [call]) = _
      rw [ih, ← List.append_assoc]
      rfl

/-! ### Retiring notes summaries -/

theorem retired_retireAll (s : Session) (reason : Connection → TeardownReason)
    (cs : List Connection) :
    (s.retireAll reason cs).1.retired.toList =
      s.retired.toList ++ cs.map Connection.summary := by
  induction cs generalizing s with
  | nil => exact (List.append_nil _).symm
  | cons c rest ih =>
      have noted : (s.retire c (reason c)).1.retired.toList = s.retired.toList ++ [c.summary] := by
        unfold retire
        cases c.closed with
        | true => exact Array.toList_push
        | false =>
            show (s.retired.push (c.teardown (reason c)).1.summary).toList = _
            rw [Array.toList_push, c.summary_teardown]
      show ((s.retire c (reason c)).1.retireAll reason rest).1.retired.toList = _
      rw [ih, noted, List.append_assoc]
      rfl

/-- The summaries once some connections are retired that left the table. -/
theorem summaries_retireAll (s : Session) (reason : Connection → TeardownReason)
    (cs : List Connection) :
    (s.retireAll reason cs).1.summaries =
      s.retired.toList ++ (cs ++ s.table.live).map Connection.summary := by
  unfold summaries
  rw [retired_retireAll, retireAll_table, List.append_assoc, List.map_append]

/-- A sweep loses no summary. -/
theorem summaries_sweepIdle {s : Session} (h : s.Consistent) (now : Nat) :
    (s.sweepIdle now).1.summaries.Perm s.summaries := by
  obtain ⟨displaced, indexed⟩ := h
  unfold sweepIdle
  split
  · exact List.Perm.refl _
  · dsimp only
    rw [summaries_retireAll]
    exact ((indexed.removeAll_perm _).map Connection.summary).append_left _

/-- Opening a connection adds its summary. -/
theorem summaries_openStream {s : Session} (h : s.Consistent) (conversation : Conversation)
    (now : Nat) (reused : Bool) :
    (s.openStream conversation now reused).session.summaries.Perm
      (s.summaries ++ [(Connection.start s.table.nextStream conversation now).summary]) := by
  obtain ⟨displaced, indexed⟩ := h
  have perm := (indexed.openConnection_perm conversation now).map Connection.summary
  have live : (s.table.live ++ [Connection.start s.table.nextStream conversation now]).map
      Connection.summary = s.table.live.map Connection.summary ++
        [(Connection.start s.table.nextStream conversation now).summary] := List.map_append
  rw [live] at perm
  unfold openStream
  dsimp only
  rw [summaries_retireAll, summaries, List.append_assoc]
  exact perm.append_left _

/-- The end of a session reports the summaries, by stream number. -/
theorem streams_finish (s : Session) :
    s.finish.2.streams = s.summaries.mergeSort fun x y => decide (x.stream ≤ y.stream) := by
  have ended := Session.retired_retireAll { s with table := s.table.drain.1 } (fun _ => .sessionEnd)
    s.table.live
  unfold finish
  dsimp only
  rw [show s.table.drain.2 = s.table.live from rfl, ended]
  rfl

/-! ### Finding a summary -/

theorem mem_summaries_of_summary? {s : Session} {stream : Nat} {x : StreamSummary}
    (found : s.summary? stream = some x) : x ∈ s.summaries ∧ x.stream = stream := by
  rcases Option.or_eq_some_iff.1 found with live | ⟨-, retired⟩
  · obtain ⟨c, got, rfl⟩ := Option.map_eq_some_iff.1 live
    have same : c.stream = stream := by simpa using List.find?_some got
    exact ⟨List.mem_append_right _ (List.mem_map_of_mem (List.mem_of_find?_eq_some got)), same⟩
  · refine ⟨List.mem_append_left _ (Array.mem_toList_iff.2 (Array.mem_of_find?_eq_some retired)), ?_⟩
    simpa using Array.find?_some retired

theorem isSome_summary?_of_mem {s : Session} {x : StreamSummary} (mem : x ∈ s.summaries) :
    (s.summary? x.stream).isSome := by
  unfold summary?
  rw [Option.isSome_or, Bool.or_eq_true]
  rcases List.mem_append.1 mem with retired | live
  · refine Or.inr (Array.find?_isSome.2 ⟨x, Array.mem_toList_iff.1 retired, ?_⟩)
    exact beq_self_eq_true _
  · obtain ⟨c, there, rfl⟩ := List.mem_map.1 live
    rw [Option.isSome_map]
    exact Or.inl (List.find?_isSome.2 ⟨c, there, beq_self_eq_true _⟩)

/-! ### One summary each -/

namespace Numbered

variable {s : Session}

theorem new (config : Config) : (new config).Numbered := List.Perm.refl _

theorem mem_iff (h : s.Numbered) (stream : Nat) :
    (∃ x ∈ s.summaries, x.stream = stream) ↔ stream < s.table.nextStream := by
  rw [← List.mem_range, ← List.Perm.mem_iff h, List.mem_map]

theorem swept (h : s.Numbered) (consistent : s.Consistent) (call : Call) :
    (s.swept call).Numbered := by
  unfold Numbered
  rw [nextStream_swept]
  exact ((summaries_sweepIdle consistent _).map _).trans h

theorem resolve (h : s.Numbered) (consistent : s.Consistent) {conversation : Conversation}
    {d : Direction} {segment : Segment} {r : Resolved}
    (ok : s.resolve conversation d segment = .ok r) : r.session.Numbered := by
  rcases resolve_cases ok with ⟨c, -, rfl⟩ | ⟨reused, rfl⟩
  · exact h
  · have added := (summaries_openStream consistent conversation segment.timestamp reused).map
      (·.stream)
    unfold Numbered
    rw [openStream_table, ConnectionTable.nextStream_openConnection, List.range_succ]
    refine added.trans ?_
    rw [List.map_append]
    exact h.append_right _

/-- Handling a segment changes the summary of its connection, but not the stream it is about. -/
theorem handle {call : Call} {r : Resolved} {c : Connection} (h : r.session.Numbered)
    (consistent : s.Consistent) (handles : s.Handles call r c) : (s.take call).session.Numbered := by
  obtain ⟨displaced, indexed⟩ := handles.consistent consistent
  have before := (ConnectionTable.perm_cons_filter indexed.nodup_streams handles.mem).map
    Connection.stream
  have after := (handles.live_perm consistent).map Connection.stream
  rw [List.map_cons] at before after
  rw [handles.sameIdentity.stream] at after
  have retired : (s.take call).session.retired = r.session.retired := by
    rw [handles.take_eq consistent]
  have streams (t : Session) : t.summaries.map (·.stream) =
      t.retired.toList.map (·.stream) ++ t.table.live.map Connection.stream := by
    rw [summaries, List.map_append, List.map_map]
    rfl
  unfold Numbered at h ⊢
  rw [streams] at h ⊢
  rw [handles.nextStream_take consistent, retired]
  exact ((after.trans before.symm).append_left _).trans h

theorem take (h : s.Numbered) (consistent : s.Consistent) (call : Call) :
    (s.take call).session.Numbered := by
  have swept := h.swept consistent call
  rcases s.take_cases call with ⟨e, refused⟩ | ⟨r, c, handles⟩
  · rw [take_of_refused refused]
    exact swept
  · exact (swept.resolve (consistent.swept call) handles.resolved).handle consistent handles

theorem after (config : Config) (calls : List Call) : ((Session.new config).after calls).Numbered := by
  induction calls using List.reverseRecOn with
  | nil => exact new config
  | append_singleton calls call ih =>
      rw [after_concat]
      exact ih.take ((consistent_new config).after calls) call

/-- The streams that have opened can be summarised, and no others. -/
theorem summary? (h : s.Numbered) (stream : Nat) :
    (s.summary? stream).map (·.stream) =
      if stream < s.table.nextStream then some stream else none := by
  cases found : s.summary? stream with
  | some x =>
      obtain ⟨mem, same⟩ := mem_summaries_of_summary? found
      rw [if_pos ((h.mem_iff stream).1 ⟨x, mem, same⟩), Option.map_some, same]
  | none =>
      rw [if_neg]
      · rfl
      · intro opened
        obtain ⟨x, mem, rfl⟩ := (h.mem_iff stream).2 opened
        have known := isSome_summary?_of_mem mem
        rw [found] at known
        cases known

/-- The final report lists them in order. -/
theorem streams_finish (h : s.Numbered) :
    s.finish.2.streams.map (·.stream) = List.range s.table.nextStream := by
  have perm : (s.finish.2.streams.map (·.stream)).Perm (List.range s.table.nextStream) := by
    rw [Session.streams_finish]
    exact ((List.mergeSort_perm _ _).map _).trans h
  have sorted : s.finish.2.streams.Pairwise fun x y => x.stream ≤ y.stream := by
    rw [Session.streams_finish]
    refine (List.pairwise_mergeSort ?_ ?_ _).imp fun le => of_decide_eq_true le
    · intro x y z xy yz
      exact decide_eq_true (Nat.le_trans (of_decide_eq_true xy) (of_decide_eq_true yz))
    · intro x y
      simpa using Nat.le_total x.stream y.stream
  refine perm.eq_of_pairwise' (List.pairwise_map.2 sorted) ?_
  exact List.pairwise_lt_range.imp Nat.le_of_lt

end Numbered

/-! ### What a call does to summaries -/

section

variable {s : Session} {call : Call} {r : Resolved} {c : Connection}

/-- A call that is handled is about the stream of the connection. -/
theorem Handles.stream?_take (h : s.Consistent) (handles : s.Handles call r c) :
    (s.take call).stream? = some c.stream := by
  rw [handles.take_eq h]
  exact congrArg some ((c.handle_report_stream ..).trans handles.sameIdentity.stream)

theorem Handles.le_nextStream (h : s.Consistent) (handles : s.Handles call r c) :
    s.table.nextStream ≤ r.session.table.nextStream := by
  have next := nextStream_swept s call
  rcases (h.swept call).resolve_stream handles.resolved with ⟨-, same⟩ | ⟨-, one⟩
  · rw [same, next]
  · rw [one, next]
    exact Nat.le_succ _

theorem le_nextStream_take (h : s.Consistent) (call : Call) :
    s.table.nextStream ≤ (s.take call).session.table.nextStream := by
  rcases s.take_cases call with ⟨e, refused⟩ | ⟨r, c, handles⟩
  · rw [take_of_refused refused, nextStream_swept]
  · rw [handles.nextStream_take h]
    exact handles.le_nextStream h

theorem le_nextStream_after (h : s.Consistent) (calls : List Call) :
    s.table.nextStream ≤ (s.after calls).table.nextStream := by
  induction calls using List.reverseRecOn with
  | nil => exact Nat.le_refl _
  | append_singleton calls call ih =>
      rw [after_concat]
      exact ih.trans (le_nextStream_take (h.after calls) call)

/-- The connections a call is handled among were live before, or open now. -/
theorem Handles.live_cases (h : s.Consistent) (handles : s.Handles call r c) {e : Connection}
    (mem : e ∈ r.session.table.live) :
    e ∈ s.table.live ∨
      e = .start s.table.nextStream call.conversation call.segment.timestamp := by
  rcases (h.swept call).live_resolve handles.resolved mem with mem | rfl
  · exact Or.inl (h.live_swept_subset call mem)
  · right
    rw [nextStream_swept]

/-- The connection that handles a call was summarised before, or opens with the call. -/
theorem Handles.summary_cases (h : s.Consistent) (handles : s.Handles call r c) :
    c.summary ∈ s.summaries ∨
      c = .start s.table.nextStream call.conversation call.segment.timestamp :=
  (handles.live_cases h handles.mem).imp_left fun known =>
    List.mem_append_right _ (List.mem_map_of_mem known)

end

/-- The summaries once a segment is resolved are earlier ones, or that of a connection that opens. -/
theorem Consistent.mem_summaries_resolved {s : Session} (h : s.Consistent) {call : Call}
    {r : Resolved} (ok : s.resolved call = .ok r) {x : StreamSummary}
    (mem : x ∈ r.session.summaries) : x ∈ s.summaries ∨ x.stream = r.stream := by
  have earlier : ∀ y ∈ (s.swept call).summaries, y ∈ s.summaries :=
    fun _ => (summaries_sweepIdle h _).mem_iff.1
  rcases resolve_cases ok with ⟨c, -, rfl⟩ | ⟨reused, rfl⟩
  · exact Or.inl (earlier x mem)
  · have added := (summaries_openStream (h.swept call) call.conversation call.segment.timestamp
      reused).mem_iff.1 mem
    refine (List.mem_append.1 added).imp (earlier x) fun opened => ?_
    rw [List.mem_singleton.1 opened, openStream_stream]
    rfl

/-- **What is summarised after a call** was summarised before, and the call was not about it; or it is
the connection that handled the call, which was summarised before or opened with the call. -/
theorem Numbered.mem_summaries_take {s : Session} (h : s.Numbered) (consistent : s.Consistent)
    {call : Call} {x : StreamSummary} (mem : x ∈ (s.take call).session.summaries) :
    x ∈ s.summaries ∧ (s.take call).stream? ≠ some x.stream ∨
      ∃ r c, s.Handles call r c ∧
        x = { (handled call r c).connection with tsPrev := call.segment.timestamp }.summary ∧
        (c.summary ∈ s.summaries ∨
          c = .start s.table.nextStream call.conversation call.segment.timestamp) := by
  rcases s.take_cases call with ⟨e, refused⟩ | ⟨r, c, handles⟩
  · rw [take_of_refused refused] at mem ⊢
    exact Or.inl ⟨(summaries_sweepIdle consistent _).mem_iff.1 mem, Option.some_ne_none _ ∘ Eq.symm⟩
  · have numbered := (h.swept consistent call).resolve (consistent.swept call) handles.resolved
    have other : ∀ y ∈ r.session.summaries, y.stream ≠ c.stream →
        y ∈ s.summaries ∧ (s.take call).stream? ≠ some y.stream := by
      intro y there apart
      refine ⟨?_, ?_⟩
      · refine (consistent.mem_summaries_resolved handles.resolved there).resolve_right ?_
        rwa [← handles.stream]
      · rw [handles.stream?_take consistent, ne_eq, Option.some_inj]
        exact apart.symm
    rcases List.mem_append.1 mem with retired | live
    · rw [handles.take_eq consistent] at retired
      -- there is one summary for each stream, and that of this one is of a live connection
      have apart : x.stream ≠ c.stream := by
        have once : (r.session.summaries.map (·.stream)).Nodup :=
          (List.Perm.nodup_iff numbered).2 List.nodup_range
        rw [summaries, List.map_append] at once
        exact (List.nodup_append.1 once).2.2 _ (List.mem_map_of_mem retired) _
          (List.mem_map_of_mem (List.mem_map_of_mem handles.mem))
      exact Or.inl (other x (List.mem_append_left _ retired) apart)
    · obtain ⟨c', there, rfl⟩ := List.mem_map.1 live
      rcases (handles.mem_live_take_iff consistent).1 there with rfl | ⟨kept, apart⟩
      · exact Or.inr ⟨r, c, handles, rfl, handles.summary_cases consistent⟩
      · exact Or.inl (other _ (List.mem_append_right _ (List.mem_map_of_mem kept)) apart)

/-! ### Opening connections -/

/-- A call that opens a connection is about the stream that comes next. -/
theorem take_of_opens {s : Session} (h : s.Consistent) {call : Call}
    (opens : (s.swept call).opens call = true) :
    (s.take call).stream? = some s.table.nextStream ∧
      (s.take call).session.table.nextStream = s.table.nextStream + 1 := by
  have ok := resolve_of_opens opens
  rcases s.take_cases call with ⟨e, refused⟩ | ⟨r, c, handles⟩
  · cases ok.symm.trans refused
  · obtain rfl := Except.ok.inj (ok.symm.trans handles.resolved)
    have stream : c.stream = s.table.nextStream := by
      rw [handles.stream, openStream_stream, nextStream_swept]
    constructor
    · rw [handles.stream?_take h, stream]
    · rw [handles.nextStream_take h, openStream_table, ConnectionTable.nextStream_openConnection,
        nextStream_swept]

/-- Another call leaves it the next one. -/
theorem nextStream_take_of_not_opens {s : Session} (h : s.Consistent) {call : Call}
    (opens : (s.swept call).opens call = false) :
    (s.take call).session.table.nextStream = s.table.nextStream := by
  rcases s.take_cases call with ⟨e, refused⟩ | ⟨r, c, handles⟩
  · rw [take_of_refused refused, nextStream_swept]
  · cases found : (s.swept call).table.find? call.conversation with
    | none => cases (resolve_of_missing opens found).symm.trans handles.resolved
    | some earlier =>
        obtain rfl := Except.ok.inj ((resolve_of_found opens found).symm.trans handles.resolved)
        rw [handles.nextStream_take h, nextStream_swept]

/-- The connections that open in a run are about the streams 0, 1, …, one after the other. -/
theorem openings_eq (config : Config) (calls : List Call) :
    ((new config).openings calls).length = ((new config).after calls).table.nextStream ∧
      ((new config).openings calls).map Processed.stream? =
        (List.range ((new config).after calls).table.nextStream).map some := by
  induction calls using List.reverseRecOn with
  | nil => exact ⟨rfl, rfl⟩
  | append_singleton calls call ih =>
      obtain ⟨count, streams⟩ := ih
      have consistent := (consistent_new config).after calls
      rw [openings_concat, after_concat]
      cases opens : (((new config).after calls).swept call).opens call with
      | true =>
          obtain ⟨stream, next⟩ := take_of_opens consistent opens
          rw [if_pos rfl, next, List.length_append, count, List.map_append, streams, List.range_succ,
            List.map_append]
          exact ⟨rfl, congrArg (_ ++ [·]) stream⟩
      | false =>
          rw [if_neg Bool.false_ne_true, List.append_nil, nextStream_take_of_not_opens consistent opens]
          exact ⟨count, streams⟩

/-- **Every stream is summarised exactly once.**  When `k` connections have opened in a run, they were
given the numbers 0, …, `k - 1` in turn, and these are the streams any call was told to be about; these
streams can be summarised, and no others; and the end of the session lists exactly them, in order. -/
theorem summarised_once (config : Config) (calls : List Call) :
    let s := (new config).after calls
    let k := ((new config).openings calls).length
    ((new config).openings calls).map Processed.stream? = (List.range k).map some ∧
      (∀ stream, stream ∈ (new config).streamsSeen calls ↔ stream < k) ∧
      (∀ stream, (s.summary? stream).map (·.stream) = if stream < k then some stream else none) ∧
      s.finish.2.streams.map (·.stream) = List.range k := by
  intro s k
  obtain ⟨count, streams⟩ := openings_eq config calls
  have numbered := Numbered.after config calls
  have opened : k = s.table.nextStream := count
  rw [opened]
  exact ⟨streams, mem_streamsSeen config calls, numbered.summary?, numbered.streams_finish⟩

end Session

end TcpCapture
