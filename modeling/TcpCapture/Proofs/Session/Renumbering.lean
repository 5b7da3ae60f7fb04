import TcpCapture.Proofs.Session.Mapping
import TcpCapture.Proofs.Session.Numbering

/-!
# Captures whose numbering starts elsewhere

Every direction of every connection starts to number its bytes somewhere.  A session that takes the
same segments with other starting points reports the same, delivers the same, and ends with the same
summaries, but for the base that these name.

## Main definitions

* `Call.renumber` — a call when every direction of every conversation counts from elsewhere
* `Session.renumber` — a session that has taken such calls
* `Session.numberChange` — what that makes of connections and summaries
* `Session.knowsPeer` — numbers of the peer in a segment have something to be relative to

**One constant each.**  The constants of the two directions of a conversation, and those of different
conversations, have nothing to do with each other.
-/

namespace TcpCapture

variable (shift : Conversation → Direction → Seq)

/-- The call when every direction of every conversation counts from `shift` numbers later. -/
def Call.renumber (call : Call) : Call :=
  { call with segment := Connection.renumbered (shift call.conversation) call.direction call.segment }

/-- The summary of a connection of such a session. -/
def StreamSummary.shifted (x : StreamSummary) : StreamSummary := x.renumber (shift x.conversation)

namespace Session

/-- The session when every direction of every conversation counts from `shift` numbers later. -/
def renumber (s : Session) : Session :=
  { s with table := s.table.renumber shift, retired := s.retired.map (·.shifted shift) }

/-- Live connections only keep numbers that have a base. -/
def Based (s : Session) : Prop := ∀ c ∈ s.table.live, c.Based

theorem based_new (config : Config) : (new config).Based := fun _ mem => absurd mem List.not_mem_nil

theorem based_start (stream : Nat) (conversation : Conversation) (now : Nat) :
    (Connection.start stream conversation now).Based := by
  intro d numbered
  cases d <;> cases numbered

/-! ### What is told -/

/-- What becomes of connections, and of their summaries. -/
def numberChange : Change where
  connection := (·.shifted shift)
  summary := (·.shifted shift)

/-- What is told of a connection stays as it is, if the numbers it keeps have a base. -/
theorem faithful_numberChange : (numberChange shift).Faithful Connection.Based where
  renames := (Connection.unnoticed_shifted shift).renames
  closed _ := rfl
  summary _ based := Connection.summary_renumber based _
  teardown _ _ _ := rfl
  stream _ := rfl
  noted _ _ retired := by
    rw [show retired.map (numberChange shift).teardown = retired from List.map_id retired]
    rfl

theorem isPortReuse_renumber (c : Connection) (d : Direction) (segment : Segment) :
    isPortReuse (c.shifted shift) d
        (Connection.renumbered (shift c.conversation) d segment) = isPortReuse c d segment := by
  have base : ((c.shifted shift).flow d).baseSeq.any (· != segment.seq + shift c.conversation d) =
      (c.flow d).baseSeq.any (· != segment.seq) := by
    rw [Connection.shifted, Connection.flow_renumber]
    exact any_map_bne segment.seq (shift c.conversation d) _
  exact congrArg (fun moved => c.closed || c.bothFinished ||
    (c.flows.forward.counters.payloadBytes + c.flows.reverse.counters.payloadBytes != 0 && moved))
    base

theorem takes_numberChange (call : Call) : (numberChange shift).Takes call (call.renumber shift) where
  conversation := rfl
  timestamp := rfl
  opening := rfl
  probe := rfl
  refusal := rfl
  reuse c same := by
    show isPortReuse (c.shifted shift) call.direction
      (Connection.renumbered (shift call.conversation) call.direction call.segment) = _
    rw [← same]
    exact isPortReuse_renumber shift c call.direction call.segment

/-! ### One call -/

/-- The connection that handles a call has a base for the numbers of the peer in its segment, if there
are any. -/
def knowsPeer (s : Session) (call : Call) : Bool :=
  !call.segment.answers ||
    match s.resolved call with
    | .error _ => true
    | .ok r =>
      (r.session.table.get? r.stream).all fun c => (c.flow call.direction.opposite).baseSeq.isSome

variable {s : Session} {call : Call}

theorem Handles.known {r : Resolved} {c : Connection} (consistent : s.Consistent)
    (handles : s.Handles call r c) (known : s.knowsPeer call = true)
    (answers : call.segment.answers = true) :
    (c.flow call.direction.opposite).baseSeq.isSome := by
  unfold knowsPeer at known
  rw [answers, handles.resolved] at known
  dsimp only at known
  rw [handles.get?_eq consistent] at known
  exact known

theorem Based.swept (based : s.Based) (consistent : s.Consistent) (call : Call) :
    (s.swept call).Based := fun c mem => based c (consistent.live_swept_subset call mem)

/-- Nor does a connection that is pushed out for a new one keep other numbers. -/
theorem Based.pushedOut (based : s.Based) (consistent : s.Consistent) {conversation : Conversation}
    {now : Nat} {c : Connection} (mem : c ∈ (s.table.openConnection conversation now).retired) :
    c.Based := by
  obtain ⟨displaced, indexed⟩ := consistent
  rcases List.mem_append.1 ((indexed.openConnection_perm conversation now).subset
    (List.mem_append_left _ mem)) with mem | mem
  · exact based c mem
  · rw [List.mem_singleton.1 mem]
    exact based_start _ _ _

/-- **A call sees differences only.** -/
theorem take_renumber (consistent : s.Consistent) (based : s.Based)
    (known : s.knowsPeer call = true) :
    (s.renumber shift).take (call.renumber shift) =
      { s.take call with session := (s.take call).session.renumber shift } := by
  have alike : (s.renumber shift).take (call.renumber shift) =
      (s.take call).change (numberChange shift) := by
    refine take_change (faithful_numberChange shift) (takes_numberChange shift call) consistent based
      (fun _ _ _ mem => (based.swept consistent call).pushedOut (consistent.swept call) mem)
      (fun r c handles => ?_) fun _ _ _ => rfl
    have same : (handled call r c).connection.conversation = call.conversation :=
      handles.sameIdentity.conversation.trans handles.conversation
    show (c.shifted shift).handle _ _ _ _ _ =
      { handled call r c with connection := (handled call r c).connection.shifted shift }
    rw [Connection.shifted, Connection.shifted, same, handles.conversation]
    exact Connection.handle_renumber (shift call.conversation) r.session.config call.direction
      r.session.registry call.probe (handles.known consistent known)
  have report : ((s.take call).report.map (numberChange shift).report).mapError
      (numberChange shift).error = (s.take call).report := by
    cases (s.take call).report <;> rfl
  rw [alike]
  unfold Processed.change
  rw [report, show (s.take call).deliveries.map (numberChange shift).delivery = _ from List.map_id _]
  rfl

/-- Live connections go on keeping only numbers that have a base. -/
theorem Based.take (based : s.Based) (consistent : s.Consistent) (call : Call) :
    (s.take call).session.Based :=
  consistent.forall_live_take based_start based fun r _ _ known =>
    known.handle r.session.config call.direction call.segment r.session.registry call.probe

/-! ### Whole captures -/

/-- Through a run the numbers of peers in segments have something to be relative to. -/
def knowsPeers (s : Session) : List Call → Bool
  | [] => true
  | call :: rest => s.knowsPeer call && (s.take call).session.knowsPeers rest

/-- **A run sees differences only.** -/
theorem run_renumber {calls : List Call} (consistent : s.Consistent) (based : s.Based)
    (known : s.knowsPeers calls = true) :
    ((s.renumber shift).run (calls.map (·.renumber shift))).map Processed.told =
        (s.run calls).map Processed.told ∧
      (s.renumber shift).after (calls.map (·.renumber shift)) = (s.after calls).renumber shift ∧
      (s.after calls).Based := by
  induction calls generalizing s with
  | nil => exact ⟨rfl, rfl, based⟩
  | cons call rest ih =>
      obtain ⟨first, later⟩ := Bool.and_eq_true_iff.1 known
      have step := take_renumber shift consistent based first
      obtain ⟨told, after, numbered⟩ :=
        ih (consistent.take call) (based.take consistent call) later
      have run : (s.renumber shift).run ((call :: rest).map (·.renumber shift)) =
          { s.take call with session := (s.take call).session.renumber shift } ::
            ((s.take call).session.renumber shift).run (rest.map (·.renumber shift)) := by
        rw [List.map_cons, Session.run, step]
      refine ⟨?_, ?_, numbered⟩
      · rw [run, List.map_cons, told]
        rfl
      · show ((s.renumber shift).take (call.renumber shift)).session.after _ = _
        rw [step]
        exact after

/-- The end of a session gives the same report, but for the bases its summaries name. -/
theorem finish_renumber (based : s.Based) :
    (s.renumber shift).finish.2 =
      { s.finish.2 with streams := s.finish.2.streams.map (·.shifted shift) } := by
  have report : (s.renumber shift).finish.2 = _ := finish_change (faithful_numberChange shift) based
  rw [report, show s.finish.2.teardowns.map (numberChange shift).teardown = _ from List.map_id _]
  rfl

/-- **Where numbering starts does not matter.**  A capture is taken in which the numbers of peers that
segments carry always have a base.  When every direction of every conversation counts from elsewhere,
each segment gets the same report, the same PDUs are delivered, and the final report is the same but for
the bases its summaries name. -/
theorem told_renumber (config : Config) {calls : List Call}
    (known : (new config).knowsPeers calls = true) :
    ((new config).run (calls.map (·.renumber shift))).map Processed.told =
        ((new config).run calls).map Processed.told ∧
      ((new config).after (calls.map (·.renumber shift))).finish.2 =
        { ((new config).after calls).finish.2 with
          streams := ((new config).after calls).finish.2.streams.map (·.shifted shift) } := by
  have new : (new config).renumber shift = new config := new_change config (numberChange shift)
  obtain ⟨told, after, based⟩ :=
    run_renumber shift (consistent_new config) (based_new config) known
  rw [new] at told after
  rw [after]
  exact ⟨told, finish_renumber shift based⟩

/-- Two PDUs that arrive with a hole in between, selectively acknowledged: numbered from zero, and
numbered so that those of the client wrap and those of the server pass the half turn. -/
theorem told_renumber_wrapping :
    let client : Endpoint := ⟨.v4 0x0a000001, 40000⟩
    let server : Endpoint := ⟨.v4 0x0a000002, 443⟩
    let probe : LengthProbe := LengthField.probe ⟨0, .one, 1⟩
    let shift (_ : Conversation) (d : Direction) : Seq :=
      if d = .reverse then 0xfffffffc else 0x7fffffff
    let calls : List Call := [
      { segment := { source := client, destination := server, flags.syn := true }, probe },
      { segment := {
          source := server, destination := client, ack := 1, flags.syn := true, flags.ack := true },
        probe },
      { segment := {
          source := client, destination := server, seq := 3, ack := 1, flags.ack := true
          payload := [11, 1, 12] },
        probe },
      { segment := {
          source := server, destination := client, seq := 1, ack := 1, flags.ack := true
          sack := .ofList [⟨3, 6⟩] },
        probe },
      { segment := {
          source := client, destination := server, seq := 1, ack := 1, flags.ack := true
          payload := [2, 10] },
        probe }]
    (new {}).knowsPeers calls = true ∧
      ((new {}).run (calls.map (·.renumber shift))).map Processed.told =
        ((new {}).run calls).map Processed.told ∧
      ((new {}).after (calls.map (·.renumber shift))).finish.2 =
        { ((new {}).after calls).finish.2 with
          streams := ((new {}).after calls).finish.2.streams.map (·.shifted shift) } := by
  intro client server probe shift calls
  have known : (new {}).knowsPeers calls = true := by decide +kernel
  exact ⟨known, told_renumber shift {} known⟩

end Session

end TcpCapture
