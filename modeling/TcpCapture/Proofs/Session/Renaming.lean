import Mathlib.Logic.Equiv.Basic
import TcpCapture.Proofs.Session.Mapping
import TcpCapture.Proofs.Session.Turning

/-!
# Captures between renamed endpoints

Which direction of a connection is called forward is decided by the order of its endpoints, and by nothing
else.  A session that takes the same segments between renamed endpoints reports the same and delivers the
same under the new names.  Only the two directions change places in those connections whose endpoints come
in the opposite order now.

## Main definitions

* `Call.rename`, `Session.rename` — a call and a session when endpoints have other names
* `Processed.rename`, `SessionReport.rename` — what is told of it
* `Session.turned` — the streams whose endpoints come in the opposite order
* `Session.Turns` — a table of these streams is right for all that a session knows
* `Session.nameChange` — what other names make of connections and of what is told of them

**A table of streams.**  Reports name streams and not endpoints.  Whether a stream is turned is read off
its conversation, which is the same through a whole run (`Session.Keeps`); so one table, read off at the
end, does for every report of the run.
-/

namespace TcpCapture

variable (name : Endpoint → Endpoint)

/-- The call when endpoints have other names. -/
def Call.rename (call : Call) : Call := { call with segment := call.segment.rename name }

/-- The connection when endpoints have other names. -/
def Connection.rename (c : Connection) : Connection :=
  c.turn (c.conversation.rename name) (c.conversation.isTurned name)

/-- The summary of a connection when endpoints have other names. -/
def StreamSummary.rename (x : StreamSummary) : StreamSummary :=
  let turned := x.conversation.isTurned name
  { x with
    conversation := x.conversation.rename name
    client := x.client.map (·.turn turned)
    serverPort := x.client.map fun d => (name (x.conversation.sender d.opposite)).port
    flows := x.flows.turn turned
    segments := x.segments.map (·.turn turned) }

/-- The error when endpoints have other names. -/
def CaptureError.rename : CaptureError → CaptureError
  | .unknownConnection source destination => .unknownConnection (name source) (name destination)
  | e => e

/-- The PDU where some streams have turned conversations. -/
def Delivery.turn (x : Delivery) (turned : Nat → Bool) : Delivery :=
  { x with direction := x.direction.turn (turned x.stream) }

/-- The final report when endpoints have other names. -/
def SessionReport.rename (r : SessionReport) (turned : Nat → Bool) : SessionReport :=
  { r with
    teardowns := r.teardowns.map fun t => t.turn (turned t.stream)
    streams := r.streams.map (·.rename name) }

theorem Connection.summary_rename (c : Connection) :
    (c.rename name).summary = c.summary.rename name := by
  have port : (c.rename name).serverPort =
      c.client.map fun d => (name (c.conversation.sender d.opposite)).port := by
    show (c.client.map (·.turn (c.conversation.isTurned name))).map _ = _
    rw [Option.map_map]
    refine congrArg (c.client.map ·) (funext fun d => ?_)
    show ((c.conversation.rename name).sender (d.turn _).opposite).port = _
    rw [Direction.opposite_turn, Conversation.sender_rename]
  have flows : (⟨(c.rename name).flows.forward.summary, (c.rename name).flows.reverse.summary⟩ :
      Duplex FlowSummary) = (⟨c.flows.forward.summary, c.flows.reverse.summary⟩ :
        Duplex FlowSummary).turn (c.conversation.isTurned name) := by
    unfold rename
    cases c.conversation.isTurned name <;> rfl
  have role : (c.rename name).link.map SubflowLink.role = c.link.map SubflowLink.role := by
    show (c.link.map (·.turn (c.conversation.isTurned name))).map _ = _
    rw [Option.map_map]
    rfl
  unfold summary
  rw [port, flows, role]
  rfl

/-- The table only notices that conversations have other names. -/
theorem Connection.renames_rename {name : Endpoint → Endpoint} (injective : Function.Injective name) :
    Renames (·.rename name) (·.rename name) where
  injective := Conversation.rename_injective injective
  stream _ := rfl
  conversation _ := rfl
  tsPrev _ := rfl
  start stream conversation now := by
    unfold rename turn start
    rw [Array.map_empty]
    cases conversation.isTurned name <;> rfl
  active _ _ := rfl

namespace Session

/-- The session when endpoints have other names. -/
def rename (s : Session) : Session :=
  { s with table := s.table.mapLive (·.rename name), retired := s.retired.map (·.rename name) }

/-- What a call led to, when endpoints have other names. -/
def Processed.rename (p : Processed) (turned : Nat → Bool) : Processed where
  session := p.session.rename name
  report := (p.report.map (·.turn turned)).mapError (·.rename name)
  deliveries := p.deliveries.map (·.turn turned)

/-- The endpoints of the stream come in the opposite order. -/
def turned (s : Session) (stream : Nat) : Bool :=
  (s.summary? stream).any (·.conversation.isTurned name)

/-- The table is right for all streams that the session knows. -/
def Turns (s : Session) (turned : Nat → Bool) : Prop :=
  ∀ x ∈ s.summaries, turned x.stream = x.conversation.isTurned name

variable {name} {turned : Nat → Bool}

/-! ### Which streams are turned -/

/-- Streams known to the one session are known to the other, between the same endpoints. -/
def Keeps (s t : Session) : Prop :=
  ∀ x ∈ s.summaries, ∃ y ∈ t.summaries, y.stream = x.stream ∧ y.conversation = x.conversation

theorem Keeps.trans {s t u : Session} (h : s.Keeps t) (h' : t.Keeps u) : s.Keeps u := by
  intro x mem
  obtain ⟨y, mem, stream, conversation⟩ := h x mem
  obtain ⟨z, mem, stream', conversation'⟩ := h' y mem
  exact ⟨z, mem, stream'.trans stream, conversation'.trans conversation⟩

theorem Keeps.of_subset {s t : Session} (subset : s.summaries ⊆ t.summaries) : s.Keeps t :=
  fun x mem => ⟨x, subset mem, rfl, rfl⟩

theorem keeps_swept {s : Session} (consistent : s.Consistent) (call : Call) : s.Keeps (s.swept call) :=
  .of_subset (summaries_sweepIdle consistent _).symm.subset

theorem keeps_resolve {s : Session} (consistent : s.Consistent) {conversation : Conversation}
    {d : Direction} {segment : Segment} {r : Resolved}
    (ok : s.resolve conversation d segment = .ok r) : s.Keeps r.session := by
  rcases resolve_cases ok with ⟨c, -, rfl⟩ | ⟨reused, rfl⟩
  · exact .of_subset (List.Subset.refl _)
  · refine .of_subset fun x mem => ?_
    exact (summaries_openStream consistent conversation segment.timestamp reused).mem_iff.2
      (List.mem_append_left _ mem)

variable {s : Session} {call : Call}

/-- Handling a segment keeps the conversation of its stream, and leaves the other streams alone. -/
theorem Handles.keeps {r : Resolved} {c : Connection} (consistent : s.Consistent)
    (handles : s.Handles call r c) : r.session.Keeps (s.take call).session := by
  obtain ⟨displaced, indexed⟩ := handles.consistent consistent
  have retired : (s.take call).session.retired = r.session.retired := by
    rw [handles.take_eq consistent]
  intro x mem
  rcases List.mem_append.1 mem with mem | mem
  · exact ⟨x, List.mem_append_left _ (retired ▸ mem), rfl, rfl⟩
  · obtain ⟨c', live, rfl⟩ := List.mem_map.1 mem
    by_cases same : c'.stream = c.stream
    · obtain rfl := List.inj_on_of_nodup_map indexed.nodup_streams live handles.mem same
      exact ⟨_, List.mem_append_right _ (List.mem_map_of_mem (handles.mem_live_take consistent)),
        handles.sameIdentity.stream, handles.sameIdentity.conversation⟩
    · refine ⟨_, List.mem_append_right _ (List.mem_map_of_mem ?_), rfl, rfl⟩
      exact (handles.mem_live_take_iff consistent).2 (Or.inr ⟨live, same⟩)

theorem keeps_take (consistent : s.Consistent) (call : Call) : s.Keeps (s.take call).session := by
  rcases s.take_cases call with ⟨e, refused⟩ | ⟨r, c, handles⟩
  · rw [take_of_refused refused]
    exact keeps_swept consistent call
  · exact ((keeps_swept consistent call).trans
      (keeps_resolve (consistent.swept call) handles.resolved)).trans (handles.keeps consistent)

/-- **A stream keeps its conversation** through any run. -/
theorem keeps_after (consistent : s.Consistent) (calls : List Call) : s.Keeps (s.after calls) := by
  induction calls using List.reverseRecOn with
  | nil => exact .of_subset (List.Subset.refl _)
  | append_singleton calls call ih =>
      rw [after_concat]
      exact ih.trans (keeps_take (consistent.after calls) call)

namespace Turns

/-- A table that is right later was right before. -/
theorem of_keeps {s t : Session} (turns : t.Turns name turned) (keeps : s.Keeps t) :
    s.Turns name turned := by
  intro x mem
  obtain ⟨y, mem, stream, conversation⟩ := keeps x mem
  rw [← stream, ← conversation]
  exact turns y mem

theorem of_live {c : Connection} (turns : s.Turns name turned) (live : c ∈ s.table.live) :
    turned c.stream = c.conversation.isTurned name :=
  turns _ (List.mem_append_right _ (List.mem_map_of_mem live))

end Turns

/-- The table read off a session is right. -/
theorem Numbered.turns_turned (h : s.Numbered) : s.Turns name (s.turned name) := by
  intro x mem
  obtain ⟨y, found⟩ := Option.isSome_iff_exists.1 (isSome_summary?_of_mem mem)
  obtain ⟨mem', same⟩ := mem_summaries_of_summary? found
  have once : (s.summaries.map (·.stream)).Nodup := (List.Perm.nodup_iff h).2 List.nodup_range
  obtain rfl := List.inj_on_of_nodup_map once mem' mem same
  unfold Session.turned
  rw [found]
  rfl

/-! ### One call -/

variable (name) in
/-- What becomes of connections, and of what is told of them, when endpoints have other names. -/
def nameChange (turned : Nat → Bool) : Change where
  name := (·.rename name)
  connection := (·.rename name)
  summary := (·.rename name)
  teardown t := t.turn (turned t.stream)
  report := (·.turn turned)
  error := (·.rename name)
  delivery := (·.turn turned)

/-- What is told of a connection is turned, if the table says that its stream is turned. -/
theorem faithful_nameChange (injective : Function.Injective name) :
    (nameChange name turned).Faithful fun c => turned c.stream = c.conversation.isTurned name where
  renames := Connection.renames_rename injective
  closed _ := rfl
  summary c _ := c.summary_rename name
  teardown c reason turns :=
    (congrArg Prod.snd (c.teardown_turn (c.conversation.rename name) _ reason)).trans
      (congrArg (c.teardown reason).2.turn turns.symm)
  stream _ := rfl
  noted _ _ _ := rfl

theorem isPortReuse_rename (c : Connection) (d : Direction) (segment : Segment) :
    isPortReuse (c.rename name) (d.turn (c.conversation.isTurned name)) (segment.rename name) =
      isPortReuse c d segment := by
  have bytes := c.sum_flows_turn (c.conversation.rename name) (c.conversation.isTurned name)
    fun f => f.counters.payloadBytes
  unfold isPortReuse Connection.rename
  rw [Connection.bothFinished_turn, bytes, Connection.flow_turn]
  rfl

theorem direction_rename (injective : Function.Injective name) (call : Call) :
    (call.rename name).direction = call.direction.turn (call.conversation.isTurned name) :=
  congrArg Prod.snd (Conversation.between_rename injective call.segment.source call.segment.destination)

theorem takes_nameChange (injective : Function.Injective name) (call : Call) :
    (nameChange name turned).Takes call (call.rename name) where
  conversation := congrArg Prod.fst
    (Conversation.between_rename injective call.segment.source call.segment.destination)
  timestamp := rfl
  opening := rfl
  probe := rfl
  refusal := rfl
  reuse c same := by
    rw [direction_rename injective, ← same]
    exact isPortReuse_rename c call.direction call.segment

/-- The teardown in the report of a segment is that of its connection. -/
theorem stream_of_teardown (call : Call) (r : Resolved) (c : Connection) {t : TeardownReport}
    (given : (handled call r c).report.teardown = some t) : t.stream = c.stream := by
  have owed : streamsOf (handled call r c).report.teardown.toList ++
      (handled call r c).connection.awaiting = c.awaiting := c.handle_awaiting ..
  have own : c.awaiting ⊆ [c.stream] := by
    unfold Connection.awaiting
    split
    · exact List.nil_subset _
    · exact List.Subset.refl _
  rw [given] at owed
  refine List.mem_singleton.1 (own ?_)
  rw [← owed]
  exact List.mem_append_left _ List.mem_cons_self

/-- What becomes of the connection that handles a segment, when endpoints have other names. -/
theorem Handles.handle_rename {r : Resolved} {c : Connection} (handles : s.Handles call r c)
    (injective : Function.Injective name) (turns : turned c.stream = c.conversation.isTurned name) :
    (c.rename name).handle r.session.registry r.session.config call.probe
        (call.rename name).direction (call.rename name).segment =
      { handled call r c with
        connection := (handled call r c).connection.rename name
        report := (handled call r c).report.turn turned } := by
  have same : (handled call r c).connection.conversation = c.conversation :=
    handles.sameIdentity.conversation
  have stream : (handled call r c).report.stream = c.stream :=
    (c.handle_report_stream ..).trans handles.sameIdentity.stream
  have teardown : (handled call r c).report.teardown.map (fun t => t.turn (turned t.stream)) =
      (handled call r c).report.teardown.map (·.turn (c.conversation.isTurned name)) := by
    cases given : (handled call r c).report.teardown with
    | none => rfl
    | some t =>
        rw [Option.map_some, Option.map_some, stream_of_teardown call r c given, turns]
  have report : (handled call r c).report.turn turned =
      (handled call r c).report.turn fun _ => c.conversation.isTurned name := by
    unfold SegmentReport.turn
    rw [teardown, stream, turns]
    rfl
  rw [report, direction_rename injective, ← handles.conversation]
  unfold Connection.rename
  rw [same]
  exact ((c.turn _ _).handle_rename ..).trans (c.handle_turn ..)

/-- Connections pushed out for a new one are known afterwards. -/
theorem Turns.of_openStream {conversation : Conversation} {now : Nat} {reused : Bool}
    (turns : (s.openStream conversation now reused).session.Turns name turned) {c : Connection}
    (mem : c ∈ (s.table.openConnection conversation now).retired) :
    turned c.stream = c.conversation.isTurned name := by
  refine turns c.summary (List.mem_append_left _ ?_)
  unfold openStream
  dsimp only
  rw [retired_retireAll]
  exact List.mem_append_right _ (List.mem_map_of_mem mem)

/-- **A call sees endpoints only by their order.** -/
theorem take_rename (injective : Function.Injective name) (consistent : s.Consistent)
    (turns : (s.take call).session.Turns name turned) :
    (s.rename name).take (call.rename name) = (s.take call).rename name turned := by
  have known : s.Turns name turned := turns.of_keeps (keeps_take consistent call)
  have resolved {r : Resolved} (ok : s.resolved call = .ok r) : r.session.Turns name turned := by
    rcases s.take_cases call with ⟨e, refused⟩ | ⟨r', c, handles⟩
    · cases ok.symm.trans refused
    · obtain rfl := Except.ok.inj (handles.resolved.symm.trans ok)
      exact turns.of_keeps (handles.keeps consistent)
  refine take_change (faithful_nameChange injective) (takes_nameChange injective call) consistent
    (fun c live => known.of_live live) (fun reused ok c mem => (resolved ok).of_openStream mem)
    (fun r c handles => handles.handle_rename injective ((resolved handles.resolved).of_live handles.mem))
    fun r ok pdu => ?_
  obtain ⟨c, live, stream, conversation⟩ := exists_live ok
  have own := (resolved ok).of_live live
  rw [direction_rename injective, ← conversation, ← own, stream]
  rfl

/-! ### Whole captures -/

theorem run_rename (injective : Function.Injective name) (consistent : s.Consistent) {calls : List Call}
    (turns : (s.after calls).Turns name turned) :
    (s.rename name).run (calls.map (·.rename name)) = (s.run calls).map (·.rename name turned) ∧
      (s.rename name).after (calls.map (·.rename name)) = (s.after calls).rename name := by
  induction calls generalizing s with
  | nil => exact ⟨rfl, rfl⟩
  | cons call rest ih =>
      have next := consistent.take call
      have step : (s.rename name).take (call.rename name) = (s.take call).rename name turned :=
        take_rename injective consistent (turns.of_keeps (keeps_after next rest))
      obtain ⟨run, after⟩ := ih next turns
      constructor
      · rw [List.map_cons, run_cons, run_cons, step, List.map_cons]
        exact congrArg (_ :: ·) run
      · show ((s.rename name).take (call.rename name)).session.after _ = _
        rw [step]
        exact after

/-- The end of a session gives the same report under the new names. -/
theorem finish_rename (injective : Function.Injective name) (turns : s.Turns name turned) :
    (s.rename name).finish.2 = s.finish.2.rename name turned :=
  finish_change (faithful_nameChange injective) fun _ live => turns.of_live live

/-- **Forward and reverse are alike.**  When the endpoints of a capture are renamed, each segment gets the
same report, or is refused for the same reason, the same PDUs are delivered, and the final report is the
same, all of it under the new names.  The two directions change places for exactly the streams whose
endpoints come in the opposite order.  In the report of a teardown, where the unattributed payload of the
forward direction comes first, each direction keeps its own (`TeardownReport.unattributedIn_turn`).

An endpoint that sends to itself makes no exception: all its traffic is forward under either name. -/
theorem run_under_names (injective : Function.Injective name) (config : Config) (calls : List Call) :
    let s := (new config).after calls
    let renamed := calls.map (·.rename name)
    (new config).run renamed = ((new config).run calls).map (·.rename name (s.turned name)) ∧
      ((new config).after renamed).finish.2 = s.finish.2.rename name (s.turned name) := by
  intro s renamed
  have turns : s.Turns name (s.turned name) := (Numbered.after config calls).turns_turned
  have new : (new config).rename name = new config := new_change config (nameChange name (s.turned name))
  obtain ⟨run, after⟩ := run_rename injective (consistent_new config) turns
  rw [new] at run after
  rw [after]
  exact ⟨run, finish_rename injective turns⟩

/-- The endpoints of the first connection are exchanged.  In the second one the client goes on being the
lower of the two. -/
theorem run_under_names_exchanged :
    let client : Endpoint := ⟨.v4 0x0a000001, 40000⟩
    let server : Endpoint := ⟨.v4 0x0a000002, 443⟩
    let other : Endpoint := ⟨.v4 0x0a000003, 443⟩
    let name := Equiv.swap client server
    let probe : LengthProbe := LengthField.probe ⟨0, .one, 1⟩
    let calls : List Call := [
      { segment := { source := client, destination := server, flags.syn := true }, probe },
      { segment := { source := client, destination := other, flags.syn := true }, probe },
      { segment := {
          source := server, destination := client, ack := 1, flags.syn := true, flags.ack := true },
        probe },
      { segment := {
          source := client, destination := server, seq := 1, ack := 1, flags.ack := true
          payload := [2, 10, 3] },
        probe },
      { segment := { source := server, destination := client, seq := 1, flags.rst := true }, probe }]
    Function.Injective name ∧
      ((new {}).after calls).turned name 0 = true ∧
      ((new {}).after calls).turned name 1 = false ∧
      (new {}).run (calls.map (·.rename name)) =
        ((new {}).run calls).map (·.rename name (((new {}).after calls).turned name)) ∧
      ((new {}).after (calls.map (·.rename name))).finish.2 =
        ((new {}).after calls).finish.2.rename name (((new {}).after calls).turned name) := by
  intro client server other name probe calls
  have injective : Function.Injective name := (Equiv.swap client server).injective
  have exchanged : ((new {}).after calls).turned name 0 = true := by decide +kernel
  have kept : ((new {}).after calls).turned name 1 = false := by decide +kernel
  exact ⟨injective, exchanged, kept, run_under_names injective {} calls⟩

end Session

end TcpCapture
