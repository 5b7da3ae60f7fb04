import TcpCapture.Proofs.Connection.Index
import TcpCapture.Proofs.Session.Handling
import TcpCapture.Session.Basic

/-!
# Runs of a session

What a session does with one segment after another.

## Main definitions

* `Call` — a segment to take, and the probe that cuts its payload
* `Session.take`, `Session.after`, `Session.run` — one call; the session after several, and what each
  of them led to
* `Session.swept`, `Session.resolved` — the two stages before a segment is handled
* `Session.Consistent` — the indexes of the table fit together

**Two outcomes.**  A call is refused when the segment belongs to no connection and none is opened for
it, and handled otherwise: a connection that was found or opened is always there to handle it.
-/

namespace TcpCapture

/-- A segment to take, and the probe its payload is cut with. -/
structure Call where
  segment : Segment
  probe : Option LengthProbe := none

namespace Call

/-- The conversation of the segment. -/
def conversation (call : Call) : Conversation :=
  (Conversation.between call.segment.source call.segment.destination).1

/-- The direction of the segment. -/
def direction (call : Call) : Direction :=
  (Conversation.between call.segment.source call.segment.destination).2

end Call

namespace Session

/-- What a call leads to. -/
def take (s : Session) (call : Call) : Processed := s.process call.segment call.probe

/-- The session after some calls. -/
def after (s : Session) (calls : List Call) : Session :=
  calls.foldl (fun s call => (s.take call).session) s

/-- What a call tells: its report, and the PDUs it delivers. -/
def Processed.told (p : Processed) : Except CaptureError SegmentReport × List Delivery :=
  (p.report, p.deliveries)

/-- What each of some calls led to. -/
def run (s : Session) : List Call → List Processed
  | [] => []
  | call :: rest => s.take call :: (s.take call).session.run rest

theorem after_append (s : Session) (calls more : List Call) :
    s.after (calls ++ more) = (s.after calls).after more := List.foldl_append

theorem run_cons (s : Session) (call : Call) (rest : List Call) :
    s.run (call :: rest) = s.take call :: (s.take call).session.run rest := rfl

theorem run_append (s : Session) (calls more : List Call) :
    s.run (calls ++ more) = s.run calls ++ (s.after calls).run more := by
  induction calls generalizing s with
  | nil => rfl
  | cons first rest ih => exact congrArg (s.take first :: ·) (ih (s.take first).session)

theorem after_concat (s : Session) (calls : List Call) (call : Call) :
    s.after (calls ++ [call]) = ((s.after calls).take call).session := s.after_append calls [call]

theorem run_concat (s : Session) (calls : List Call) (call : Call) :
    s.run (calls ++ [call]) = s.run calls ++ [(s.after calls).take call] :=
  s.run_append calls [call]

/-! ### The stages of a call -/

/-- The session once idle connections are retired. -/
def swept (s : Session) (call : Call) : Session := (s.sweepIdle call.segment.timestamp).1

/-- The reports of the idle connections retired. -/
def sweepReports (s : Session) (call : Call) : List TeardownReport :=
  (s.sweepIdle call.segment.timestamp).2

/-- The connection found or opened, if the segment is not refused. -/
def resolved (s : Session) (call : Call) : Except CaptureError Resolved :=
  (s.swept call).resolve call.conversation call.direction call.segment

theorem take_of_refused {s : Session} {call : Call} {e : CaptureError}
    (refused : s.resolved call = .error e) :
    s.take call = { session := s.swept call, report := .error e } := by
  unfold resolved swept Call.conversation Call.direction at refused
  unfold take process
  simp only [refused]
  rfl

theorem take_of_resolved {s : Session} {call : Call} {r : Resolved}
    (ok : s.resolved call = .ok r) :
    s.take call = r.handle call.direction call.segment call.probe (s.sweepReports call) := by
  unfold resolved swept Call.conversation Call.direction at ok
  unfold take process
  simp only [ok]
  rfl

/-! ### Retiring connections -/

/-- Retiring notes summaries, and changes nothing else. -/
theorem retireAll_eq (s : Session) (reason : Connection → TeardownReason) (cs : List Connection) :
    ∃ retired, (s.retireAll reason cs).1 = { s with retired } := by
  induction cs generalizing s with
  | nil => exact ⟨s.retired, rfl⟩
  | cons c rest ih =>
      obtain ⟨retired, h⟩ := ih (s.retire c (reason c)).1
      exact ⟨retired, h⟩

theorem retireAll_table (s : Session) (reason : Connection → TeardownReason)
    (cs : List Connection) : (s.retireAll reason cs).1.table = s.table := by
  obtain ⟨retired, h⟩ := s.retireAll_eq reason cs
  rw [h]

theorem retireAll_config (s : Session) (reason : Connection → TeardownReason)
    (cs : List Connection) : (s.retireAll reason cs).1.config = s.config := by
  obtain ⟨retired, h⟩ := s.retireAll_eq reason cs
  rw [h]

theorem retireAll_registry (s : Session) (reason : Connection → TeardownReason)
    (cs : List Connection) : (s.retireAll reason cs).1.registry = s.registry := by
  obtain ⟨retired, h⟩ := s.retireAll_eq reason cs
  rw [h]

/-! ### What a segment resolves to -/

/-- A segment is handled by the live connection of its conversation, or by one opened for it. -/
theorem resolve_cases {s : Session} {conversation : Conversation} {d : Direction}
    {segment : Segment} {r : Resolved} (ok : s.resolve conversation d segment = .ok r) :
    (∃ c, s.table.find? conversation = some c ∧ r = ⟨s, c.stream, false, []⟩) ∨
      ∃ reused, r = s.openStream conversation segment.timestamp reused := by
  unfold resolve at ok
  split at ok
  · rename_i c found
    split at ok
    · exact Or.inr ⟨true, (Except.ok.inj ok).symm⟩
    · exact Or.inl ⟨c, found, (Except.ok.inj ok).symm⟩
  · split at ok
    · exact Or.inr ⟨false, (Except.ok.inj ok).symm⟩
    · cases ok

theorem openStream_table (s : Session) (conversation : Conversation) (now : Nat) (reused : Bool) :
    (s.openStream conversation now reused).session.table =
      (s.table.openConnection conversation now).table :=
  retireAll_table _ _ _

theorem openStream_stream (s : Session) (conversation : Conversation) (now : Nat) (reused : Bool) :
    (s.openStream conversation now reused).stream = s.table.nextStream :=
  s.table.openConnection_stream conversation now

/-! ### The table stays consistent -/

theorem sweepIdle_config (s : Session) (now : Nat) : (s.sweepIdle now).1.config = s.config := by
  unfold sweepIdle
  split
  · rfl
  · exact retireAll_config _ _ _

theorem openStream_config (s : Session) (conversation : Conversation) (now : Nat) (reused : Bool) :
    (s.openStream conversation now reused).session.config = s.config :=
  retireAll_config _ _ _

theorem registry_swept (s : Session) (call : Call) : (s.swept call).registry = s.registry := by
  unfold swept sweepIdle
  split
  · rfl
  · exact retireAll_registry _ _ _

theorem sameNumbering_sweepIdle (s : Session) (now : Nat) :
    s.table.SameNumbering (s.sweepIdle now).1.table := by
  unfold sweepIdle
  split
  · exact .refl _
  · dsimp only
    rw [retireAll_table]
    exact ConnectionTable.SameNumbering.removeAll s.table _

/-- The indexes of the table fit together, up to activity left behind. -/
def Consistent (s : Session) : Prop := ∃ displaced, s.table.Indexed displaced

theorem consistent_new (config : Config) : (new config).Consistent :=
  ⟨[], ConnectionTable.Indexed.of_empty rfl rfl⟩

namespace Consistent

variable {s : Session}

theorem sweepIdle (h : s.Consistent) (now : Nat) : (s.sweepIdle now).1.Consistent := by
  obtain ⟨displaced, h⟩ := h
  refine ⟨displaced, ?_⟩
  unfold Session.sweepIdle
  split
  · exact h
  · dsimp only
    rw [retireAll_table]
    exact h.expireIdle now s.config.idleTimeout

theorem swept (h : s.Consistent) (call : Call) : (s.swept call).Consistent := h.sweepIdle _

/-- A sweep only takes connections out. -/
theorem live_swept_subset (h : s.Consistent) (call : Call) :
    (s.swept call).table.live ⊆ s.table.live := by
  obtain ⟨displaced, h⟩ := h
  unfold Session.swept Session.sweepIdle
  split
  · exact List.Subset.refl _
  · intro c mem
    dsimp only at mem
    rw [retireAll_table] at mem
    exact (h.removeAll_perm _).subset (List.mem_append_right _ mem)

/-- A connection that was active a short time ago survives a sweep. -/
theorem mem_live_swept (h : s.Consistent) {c : Connection} (mem : c ∈ s.table.live) {call : Call}
    (recent : call.segment.timestamp ≤ c.tsPrev + s.config.idleTimeout) :
    c ∈ (s.swept call).table.live := by
  obtain ⟨displaced, h⟩ := h
  unfold Session.swept Session.sweepIdle
  split
  · exact mem
  · dsimp only
    rw [retireAll_table]
    exact ConnectionTable.Indexed.mem_removeAll mem (h.not_mem_expiredStreams mem recent)

/-- The live connections once a segment is resolved were live before, or open now. -/
theorem live_resolve (h : s.Consistent) {conversation : Conversation} {d : Direction}
    {segment : Segment} {r : Resolved} (ok : s.resolve conversation d segment = .ok r)
    {c : Connection} (mem : c ∈ r.session.table.live) :
    c ∈ s.table.live ∨
      c = .start s.table.nextStream conversation segment.timestamp := by
  rcases resolve_cases ok with ⟨c, -, rfl⟩ | ⟨reused, rfl⟩
  · exact Or.inl mem
  · obtain ⟨displaced, h⟩ := h
    rw [openStream_table] at mem
    have both := (h.openConnection_perm conversation segment.timestamp).subset
      (List.mem_append_right _ mem)
    exact (List.mem_append.1 both).imp_right List.mem_singleton.1

theorem resolve (h : s.Consistent) {conversation : Conversation} {d : Direction}
    {segment : Segment} {r : Resolved} (ok : s.resolve conversation d segment = .ok r) :
    r.session.Consistent := by
  rcases resolve_cases ok with ⟨c, -, rfl⟩ | ⟨reused, rfl⟩
  · exact h
  · obtain ⟨displaced, h⟩ := h
    refine ⟨displaced ++ s.table.leftBehind conversation, ?_⟩
    rw [openStream_table]
    exact h.openConnection conversation segment.timestamp

end Consistent

/-- The connection a segment resolves to is live. -/
theorem exists_live {s : Session} {conversation : Conversation} {d : Direction}
    {segment : Segment} {r : Resolved} (ok : s.resolve conversation d segment = .ok r) :
    ∃ c ∈ r.session.table.live, c.stream = r.stream ∧ c.conversation = conversation := by
  rcases resolve_cases ok with ⟨c, found, rfl⟩ | ⟨reused, rfl⟩
  · exact ⟨c, List.mem_of_find?_eq_some found, rfl, by simpa using List.find?_some found⟩
  · refine ⟨.start s.table.nextStream conversation segment.timestamp, ?_,
      (s.openStream_stream conversation segment.timestamp reused).symm, rfl⟩
    rw [openStream_table]
    exact s.table.start_mem_openConnection conversation segment.timestamp

/-- A segment resolves to a stream that has opened before, or to the one that opens next. -/
theorem Consistent.resolve_stream {s : Session} (h : s.Consistent) {conversation : Conversation}
    {d : Direction} {segment : Segment} {r : Resolved}
    (ok : s.resolve conversation d segment = .ok r) :
    r.stream < s.table.nextStream ∧ r.session.table.nextStream = s.table.nextStream ∨
      r.stream = s.table.nextStream ∧ r.session.table.nextStream = s.table.nextStream + 1 := by
  rcases resolve_cases ok with ⟨c, found, rfl⟩ | ⟨reused, rfl⟩
  · obtain ⟨displaced, h⟩ := h
    exact Or.inl ⟨h.stream_lt c (List.mem_of_find?_eq_some found), rfl⟩
  · refine Or.inr ⟨s.openStream_stream _ _ _, ?_⟩
    rw [openStream_table, ConnectionTable.nextStream_openConnection]

/-! ### Handling -/

/-- A segment whose connection is there is handled by it. -/
theorem Resolved.handle_of_found {r : Resolved} {c : Connection}
    (found : r.session.table.get? r.stream = some c) (d : Direction) (segment : Segment)
    (probe : Option LengthProbe) (swept : List TeardownReport) :
    r.handle d segment probe swept =
      let handled := c.handle r.session.registry r.session.config probe d segment
      let findings := handled.report.classification.findings
      { session := { r.session with
          table := (r.session.table.put handled.connection).touch r.stream segment.timestamp
          registry := handled.registry }
        report := .ok { handled.report with
          classification.findings := { findings with reusedPorts := r.reused || findings.reusedPorts }
          retired := swept ++ r.retired }
        deliveries := handled.pdus.map fun pdu => ⟨r.stream, d, pdu⟩ } := by
  unfold Resolved.handle
  simp only [found]

/-- The call is handled: its segment resolves to `r`, which is about the live connection `c`. -/
structure Handles (s : Session) (call : Call) (r : Resolved) (c : Connection) : Prop where
  resolved : s.resolved call = .ok r
  mem : c ∈ r.session.table.live
  stream : c.stream = r.stream
  conversation : c.conversation = call.conversation

/-- What the connection makes of the segment. -/
def handled (call : Call) (r : Resolved) (c : Connection) : Connection.Handled :=
  c.handle r.session.registry r.session.config call.probe call.direction call.segment

namespace Handles

variable {s : Session} {call : Call} {r : Resolved} {c : Connection}

/-- The connection stays the same one. -/
theorem sameIdentity (_ : s.Handles call r c) : c.SameIdentity (handled call r c).connection :=
  c.sameIdentity_handle ..

theorem consistent (h : s.Consistent) (handles : s.Handles call r c) : r.session.Consistent :=
  (h.swept call).resolve handles.resolved

theorem get?_eq (h : s.Consistent) (handles : s.Handles call r c) :
    r.session.table.get? r.stream = some c := by
  obtain ⟨displaced, indexed⟩ := handles.consistent h
  exact indexed.get?_eq_some_iff.2 ⟨handles.mem, handles.stream⟩

/-- The whole outcome of a call that is handled. -/
theorem take_eq (h : s.Consistent) (handles : s.Handles call r c) :
    s.take call = {
      session := { r.session with
        table := (r.session.table.put (handled call r c).connection).touch r.stream
          call.segment.timestamp
        registry := (handled call r c).registry }
      report := .ok { (handled call r c).report with
        classification.findings := { (handled call r c).report.classification.findings with
          reusedPorts := r.reused || (handled call r c).report.classification.findings.reusedPorts }
        retired := s.sweepReports call ++ r.retired }
      deliveries := (handled call r c).pdus.map fun pdu => ⟨r.stream, call.direction, pdu⟩ } := by
  rw [take_of_resolved handles.resolved, Resolved.handle_of_found (handles.get?_eq h)]
  rfl

theorem config (handles : s.Handles call r c) : r.session.config = s.config := by
  have swept : (s.swept call).config = s.config := sweepIdle_config _ _
  rcases resolve_cases handles.resolved with ⟨c, -, rfl⟩ | ⟨reused, rfl⟩
  · exact swept
  · exact (openStream_config _ _ _ _).trans swept

theorem registry (handles : s.Handles call r c) : r.session.registry = s.registry := by
  rcases resolve_cases handles.resolved with ⟨c, -, rfl⟩ | ⟨reused, rfl⟩
  · exact registry_swept s call
  · exact (retireAll_registry _ _ _).trans (registry_swept s call)

theorem registry_take (h : s.Consistent) (handles : s.Handles call r c) :
    (s.take call).session.registry = (handled call r c).registry := by
  rw [handles.take_eq h]

theorem nextStream_take (h : s.Consistent) (handles : s.Handles call r c) :
    (s.take call).session.table.nextStream = r.session.table.nextStream := by
  rw [handles.take_eq h]
  exact (ConnectionTable.SameNumbering.touch _ _ _).nextStream

/-- The live connections after the call: the one that handled it, and the others. -/
theorem live_perm (h : s.Consistent) (handles : s.Handles call r c) :
    (s.take call).session.table.live.Perm
      ({ (handled call r c).connection with tsPrev := call.segment.timestamp } ::
        r.session.table.live.filter (·.stream != c.stream)) := by
  obtain ⟨displaced, indexed⟩ := handles.consistent h
  obtain ⟨stream, conversation, active⟩ := handles.sameIdentity
  have perm := indexed.put_touch_perm handles.mem stream conversation active call.segment.timestamp
  rw [handles.stream] at perm
  rw [handles.take_eq h, handles.stream]
  exact perm

/-- The handling connection, active now, is live afterwards. -/
theorem mem_live_take (h : s.Consistent) (handles : s.Handles call r c) :
    { (handled call r c).connection with tsPrev := call.segment.timestamp } ∈
      (s.take call).session.table.live :=
  (handles.live_perm h).mem_iff.2 List.mem_cons_self

theorem mem_live_take_iff (h : s.Consistent) (handles : s.Handles call r c) {e : Connection} :
    e ∈ (s.take call).session.table.live ↔
      e = { (handled call r c).connection with tsPrev := call.segment.timestamp } ∨
        e ∈ r.session.table.live ∧ e.stream ≠ c.stream := by
  rw [(handles.live_perm h).mem_iff, List.mem_cons, List.mem_filter, bne_iff_ne]

/-- The call keeps the indexes of the table together. -/
theorem take_consistent (h : s.Consistent) (handles : s.Handles call r c) :
    (s.take call).session.Consistent := by
  obtain ⟨displaced, indexed⟩ := handles.consistent h
  obtain ⟨stream, conversation, active⟩ := handles.sameIdentity
  refine ⟨displaced, ?_⟩
  rw [handles.take_eq h]
  exact (indexed.put handles.mem stream conversation active).touch _ _

end Handles

/-- A call is refused, or handled by a live connection. -/
theorem take_cases (s : Session) (call : Call) :
    (∃ e, s.resolved call = .error e) ∨ ∃ r c, s.Handles call r c := by
  cases ok : s.resolved call with
  | error e => exact Or.inl ⟨e, rfl⟩
  | ok r =>
      obtain ⟨c, mem, stream, conversation⟩ := exists_live ok
      exact Or.inr ⟨r, c, ok, mem, stream, conversation⟩

theorem config_take {s : Session} (h : s.Consistent) (call : Call) :
    (s.take call).session.config = s.config := by
  rcases s.take_cases call with ⟨e, refused⟩ | ⟨r, c, handles⟩
  · rw [take_of_refused refused]
    exact sweepIdle_config _ _
  · rw [handles.take_eq h]
    exact handles.config

/-- What a call delivers travels in the direction of its segment. -/
theorem direction_of_deliveries {s : Session} (h : s.Consistent) {call : Call} {x : Delivery}
    (mem : x ∈ (s.take call).deliveries) : x.direction = call.direction := by
  rcases s.take_cases call with ⟨e, refused⟩ | ⟨r, c, handles⟩
  · rw [take_of_refused refused] at mem
    cases mem
  · rw [handles.take_eq h] at mem
    obtain ⟨pdu, -, rfl⟩ := List.mem_map.1 mem
    rfl

theorem Consistent.take {s : Session} (h : s.Consistent) (call : Call) :
    (s.take call).session.Consistent := by
  rcases s.take_cases call with ⟨e, refused⟩ | ⟨r, c, handles⟩
  · rw [take_of_refused refused]
    exact h.swept call
  · exact handles.take_consistent h

/-- **The indexes of the table fit together after every run.** -/
theorem Consistent.after {s : Session} (h : s.Consistent) (calls : List Call) :
    (s.after calls).Consistent := by
  induction calls using List.reverseRecOn with
  | nil => exact h
  | append_singleton calls call ih =>
      rw [after_concat]
      exact ih.take call

theorem config_after {s : Session} (h : s.Consistent) (calls : List Call) :
    (s.after calls).config = s.config := by
  induction calls using List.reverseRecOn with
  | nil => rfl
  | append_singleton calls call ih =>
      rw [after_concat, config_take (h.after calls), ih]

/-! ### What every live connection has -/

section

variable {P : Connection → Prop}
  (start : ∀ stream conversation now, P (.start stream conversation now))

include start

/-- What live connections have, and those that open, they have once a segment is resolved. -/
theorem Consistent.forall_live_resolved {s : Session} (h : s.Consistent)
    (all : ∀ c ∈ s.table.live, P c) {call : Call} {r : Resolved} (ok : s.resolved call = .ok r) :
    ∀ c ∈ r.session.table.live, P c := by
  intro c mem
  rcases (h.swept call).live_resolve ok mem with mem | rfl
  · exact all c (h.live_swept_subset call mem)
  · exact start ..

/-- **One call**: if handling keeps it, live connections have it afterwards. -/
theorem Consistent.forall_live_take {s : Session} (h : s.Consistent)
    (all : ∀ c ∈ s.table.live, P c) {call : Call}
    (keeps : ∀ r c, s.Handles call r c → P c →
      P { (handled call r c).connection with tsPrev := call.segment.timestamp }) :
    ∀ c ∈ (s.take call).session.table.live, P c := by
  rcases s.take_cases call with ⟨e, refused⟩ | ⟨r, c, handles⟩
  · rw [take_of_refused refused]
    exact fun c mem => all c (h.live_swept_subset call mem)
  · have others := h.forall_live_resolved start all handles.resolved
    intro c' mem
    rcases (handles.mem_live_take_iff h).1 mem with rfl | ⟨mem, -⟩
    · exact keeps r c handles (others c handles.mem)
    · exact others c' mem

/-- **A run**: if each call handled tells whether its connection keeps it, live connections have it all
the time exactly if every call keeps it. -/
theorem forall_live_iff {Q : Call → Resolved → Connection → Prop} (config : Config)
    (tells : ∀ (s : Session) call r c, s.Consistent → s.config = config → s.Handles call r c → P c →
      (P { (handled call r c).connection with tsPrev := call.segment.timestamp } ↔ Q call r c))
    (calls : List Call) :
    (∀ pre, pre <+: calls → ∀ c ∈ ((new config).after pre).table.live, P c) ↔
      ∀ pre call, pre ++ [call] <+: calls → ∀ r c, ((new config).after pre).Handles call r c →
        Q call r c := by
  have known (pre : List Call) : ((new config).after pre).Consistent ∧
      ((new config).after pre).config = config :=
    ⟨(consistent_new config).after pre, config_after (consistent_new config) pre⟩
  constructor
  · intro all pre call reached r c handles
    obtain ⟨consistent, same⟩ := known pre
    have before := all pre ((List.prefix_append _ _).trans reached)
    have after := all _ reached
    rw [after_concat] at after
    have has := consistent.forall_live_resolved start before handles.resolved c handles.mem
    exact (tells _ call r c consistent same handles has).1 (after _ (handles.mem_live_take consistent))
  · intro every pre
    induction pre using List.reverseRecOn with
    | nil => exact fun _ c mem => absurd mem List.not_mem_nil
    | append_singleton pre call ih =>
        intro reached
        obtain ⟨consistent, same⟩ := known pre
        rw [after_concat]
        refine consistent.forall_live_take start (ih ((List.prefix_append _ _).trans reached)) ?_
        exact fun r c handles has =>
          (tells _ call r c consistent same handles has).2 (every pre call reached r c handles)

end

/-! ### Starting over -/

theorem maxEntries_take {s : Session} (h : s.Consistent) (call : Call) :
    (s.take call).session.table.maxEntries = s.table.maxEntries := by
  rcases s.take_cases call with ⟨e, refused⟩ | ⟨r, c, handles⟩
  · rw [take_of_refused refused]
    exact (sameNumbering_sweepIdle s _).maxEntries
  · rw [handles.take_eq h, (ConnectionTable.SameNumbering.touch _ _ _).maxEntries]
    show r.session.table.maxEntries = _
    rcases resolve_cases handles.resolved with ⟨c, -, rfl⟩ | ⟨reused, rfl⟩
    · exact (sameNumbering_sweepIdle s _).maxEntries
    · rw [openStream_table, ConnectionTable.openConnection_eq]
      exact (ConnectionTable.SameNumbering.makeRoom _).maxEntries.trans
        (sameNumbering_sweepIdle s _).maxEntries

/-- **A session that is reset is a new one**, so that every session there is comes about by some calls
on a new one. -/
theorem reset_after (config : Config) (calls : List Call) :
    ((new config).after calls).reset = new config := by
  have limit : ((new config).after calls).table.maxEntries = config.maxConnections := by
    induction calls using List.reverseRecOn with
    | nil => rfl
    | append_singleton calls call ih =>
        rw [after_concat, maxEntries_take ((consistent_new config).after calls), ih]
  unfold reset ConnectionTable.clear
  rw [config_after (consistent_new config), limit]
  rfl

end Session

end TcpCapture
