import TcpCapture.Session.Maps
import TcpCapture.Proofs.Connection.Maps
import TcpCapture.Proofs.Session.Isolation

/-!
# Finding connections

A session that keeps its live connections in two maps tells the same of every capture as one that searches
them in order, and finds every live connection both ways.

## Main definitions

* `MappedSession.Mirrors` — the session is another one with maps in place of its table
* `Request` — what a session is asked for: to take a segment, to finish, to start over
* `MappedSession.Findable` — what the maps lead to, and which segments are refused
* `MappedSession.findable_serveAll` — so it is, whatever was asked for, and all is told alike

**Lookups that cannot fail.**  The connection of a segment is looked up by number after it was found, or
opened, by conversation.  Opening may evict, but never the connection that opens.
-/

namespace TcpCapture

/-- Retiring has nothing to do with the table. -/
theorem Session.retireAll_of_table (s : Session) (table : ConnectionTable)
    (reason : Connection → TeardownReason) (cs : List Connection) :
    ({ s with table }.retireAll reason cs) =
      ({ (s.retireAll reason cs).1 with table }, (s.retireAll reason cs).2) := by
  induction cs generalizing s with
  | nil => rfl
  | cons c rest ih =>
      have first : ({ s with table }.retire c (reason c)) =
          ({ (s.retire c (reason c)).1 with table }, (s.retire c (reason c)).2) := rfl
      unfold Session.retireAll
      rw [first]
      dsimp only
      rw [ih]

namespace MappedSession

/-- The session is the other one, with maps of its table. -/
inductive Mirrors (m : MappedSession) : Session → Prop where
  | of_table {t : ConnectionTable} (table : m.table.Mirrors t) : Mirrors m (m.withTable t)

/-- The same connection was found or opened, in sessions that mirror each other. -/
structure Resolved.Mirrors (r : Resolved) (r' : Session.Resolved) : Prop where
  session : r.session.Mirrors r'.session
  stream : r.stream = r'.stream
  reused : r.reused = r'.reused
  retired : r.retired = r'.retired

/-- Both sessions refuse the segment, with the same error, or both find its connection. -/
inductive SameOutcome : Except CaptureError Resolved → Except CaptureError Session.Resolved → Prop where
  | refused (e : CaptureError) : SameOutcome (.error e) (.error e)
  | resolved {r : Resolved} {r' : Session.Resolved} (mirrors : r.Mirrors r') :
      SameOutcome (.ok r) (.ok r')

/-- Processing has led to the same, in sessions that mirror each other. -/
structure Processed.Mirrors (p : Processed) (p' : Session.Processed) : Prop where
  session : p.session.Mirrors p'.session
  report : p.report = p'.report
  deliveries : p.deliveries = p'.deliveries

/-- Retiring notes the same summaries with maps. -/
theorem retireAll_withTable (m : MappedSession) (t : ConnectionTable)
    (reason : Connection → TeardownReason) (cs : List Connection) :
    (m.withTable t).retireAll reason cs =
      ((m.retireAll reason cs).1.withTable t, (m.retireAll reason cs).2) := by
  have apart := (m.withTable { maxEntries := m.table.maxEntries }).retireAll_of_table t reason cs
  obtain ⟨retired, same⟩ := (m.withTable { maxEntries := m.table.maxEntries }).retireAll_eq reason cs
  refine apart.trans ?_
  unfold retireAll
  generalize (m.withTable { maxEntries := m.table.maxEntries }).retireAll reason cs = gone at same ⊢
  obtain ⟨session, reports⟩ := gone
  obtain rfl : session = _ := same
  rfl

namespace Mirrors

variable {m : MappedSession} {s : Session}

theorem new (config : Config) : (MappedSession.new config).Mirrors (Session.new config) :=
  of_table MappedTable.Mirrors.of_empty

theorem reset (mirrors : m.Mirrors s) : m.reset.Mirrors s.reset := by
  obtain ⟨table⟩ := mirrors
  exact of_table table.clear

theorem retireAll (mirrors : m.Mirrors s) (reason : Connection → TeardownReason) (cs : List Connection) :
    (m.retireAll reason cs).1.Mirrors (s.retireAll reason cs).1 ∧
      (m.retireAll reason cs).2 = (s.retireAll reason cs).2 := by
  obtain ⟨table⟩ := mirrors
  rw [retireAll_withTable]
  exact ⟨of_table table, rfl⟩

theorem sweepIdle (mirrors : m.Mirrors s) (h : s.Consistent) (now : Nat) :
    (m.sweepIdle now).1.Mirrors (s.sweepIdle now).1 ∧ (m.sweepIdle now).2 = (s.sweepIdle now).2 := by
  obtain ⟨displaced, h⟩ := h
  obtain @⟨t, table⟩ := mirrors
  by_cases early : now - m.lastSweep ≤ m.config.sweepInterval
  · have none : m.sweepIdle now = (m, []) := if_pos early
    have none' : (m.withTable t).sweepIdle now = (m.withTable t, []) := if_pos early
    rw [none, none']
    exact ⟨of_table table, rfl⟩
  · obtain ⟨swept, expired⟩ := table.expireIdle h now m.config.idleTimeout
    have due : m.sweepIdle now = MappedSession.retireAll
        { m with table := (m.table.expireIdle now m.config.idleTimeout).1, lastSweep := now }
        (fun _ => .idle) (m.table.expireIdle now m.config.idleTimeout).2 := if_neg early
    have due' : (m.withTable t).sweepIdle now = Session.retireAll
        { m.withTable t with table := (t.expireIdle now m.config.idleTimeout).1, lastSweep := now }
        (fun _ => .idle) (t.expireIdle now m.config.idleTimeout).2 := if_neg early
    rw [due, due', expired]
    exact Mirrors.retireAll (of_table (m := { m with
      table := (m.table.expireIdle now m.config.idleTimeout).1, lastSweep := now }) swept) _ _

theorem openStream (mirrors : m.Mirrors s) (h : s.Consistent) (conversation : Conversation) (now : Nat)
    (reused : Bool) :
    (m.openStream conversation now reused).Mirrors (s.openStream conversation now reused) := by
  obtain ⟨displaced, h⟩ := h
  obtain @⟨t, table⟩ := mirrors
  obtain ⟨opened, stream, retired⟩ := table.openConnection h conversation now
  let reason (c : Connection) : TeardownReason :=
    if c.conversation = conversation then .reused else .evicted
  have gone := Mirrors.retireAll (of_table (m := { m with
    table := (m.table.openConnection conversation now).table }) opened) reason
    (t.openConnection conversation now).retired
  have opening : (m.openStream conversation now reused) =
      let left := MappedSession.retireAll
        { m with table := (m.table.openConnection conversation now).table } reason
        (t.openConnection conversation now).retired
      ⟨left.1, (m.table.openConnection conversation now).stream, reused, left.2⟩ := by
    rw [← retired]
    rfl
  rw [opening]
  exact ⟨gone.1, stream, rfl, gone.2⟩

/-- **Both lookups agree**, and with them whether a connection is found, opens, or is refused. -/
theorem resolve (mirrors : m.Mirrors s) (h : s.Consistent) (conversation : Conversation)
    (d : Direction) (segment : Segment) :
    SameOutcome (m.resolve conversation d segment) (s.resolve conversation d segment) := by
  have opens (reused : Bool) := mirrors.openStream h conversation segment.timestamp reused
  obtain ⟨displaced, h⟩ := h
  obtain @⟨t, table⟩ := mirrors
  have search : m.table.lookup conversation =
      ((m.withTable t).table.find? conversation).map (·.stream) := table.lookup_eq h conversation
  unfold MappedSession.resolve Session.resolve
  rw [search]
  cases found : (m.withTable t).table.find? conversation with
  | none =>
      dsimp only [Option.map_none]
      show SameOutcome (if segment.isOpening || m.config.acceptMidstream then _ else _)
        (if segment.isOpening || m.config.acceptMidstream then _ else _)
      by_cases accepted : (segment.isOpening || m.config.acceptMidstream) = true
      · rw [if_pos accepted, if_pos accepted]
        exact .resolved (opens false)
      · rw [if_neg accepted, if_neg accepted]
        exact .refused _
  | some c =>
      have known : m.table.get? c.stream = some c :=
        (table.get? _ _).2 ⟨List.mem_of_find?_eq_some found, rfl⟩
      dsimp only [Option.map_some]
      rw [known, Option.any_some]
      by_cases reuses : (segment.isOpening && Session.isPortReuse c d segment) = true
      · rw [if_pos reuses, if_pos reuses]
        exact .resolved (opens true)
      · rw [if_neg reuses, if_neg reuses]
        exact .resolved ⟨of_table table, rfl, rfl, rfl⟩

/-- What is handled is the same connection, and it changes in the same way. -/
theorem handle {r : Resolved} {r' : Session.Resolved} (mirrors : r.Mirrors r')
    (h : r'.session.Consistent) (d : Direction) (segment : Segment) (probe : Option LengthProbe)
    (swept : List TeardownReport) :
    (r.handle d segment probe swept).Mirrors (r'.handle d segment probe swept) := by
  obtain ⟨m, stream, reused, retired⟩ := r
  obtain ⟨s, stream', reused', retired'⟩ := r'
  obtain ⟨session, same, same', same''⟩ := mirrors
  dsimp only at session same same' same'' h
  subst same same' same''
  obtain ⟨displaced, h⟩ := h
  obtain @⟨t, table⟩ := session
  have search : m.table.get? stream = (m.withTable t).table.get? stream := table.get?_eq h stream
  unfold Resolved.handle Session.Resolved.handle
  dsimp only
  rw [search]
  cases found : (m.withTable t).table.get? stream with
  | none => exact ⟨of_table table, rfl, rfl⟩
  | some c =>
      obtain ⟨mem, rfl⟩ := h.get?_eq_some_iff.1 found
      obtain ⟨number, conversation, active⟩ :=
        c.sameIdentity_handle m.registry m.config probe d segment
      have put := table.put h mem number conversation
      have touched := put.touch (h.put mem number conversation active) c.stream segment.timestamp
      refine ⟨?_, rfl, rfl⟩
      exact of_table (m := { m with table := _, registry := _ }) touched

/-- **One segment**: both sessions report and deliver the same. -/
theorem process (mirrors : m.Mirrors s) (h : s.Consistent) (segment : Segment)
    (probe : Option LengthProbe) :
    (m.process segment probe).Mirrors (s.process segment probe) := by
  obtain ⟨swept, reports⟩ := mirrors.sweepIdle h segment.timestamp
  have consistent := h.sweepIdle segment.timestamp
  have outcome := swept.resolve consistent
    (Conversation.between segment.source segment.destination).1
    (Conversation.between segment.source segment.destination).2 segment
  unfold MappedSession.process Session.process
  dsimp only
  generalize same : (m.sweepIdle segment.timestamp).1.resolve _ _ segment = resolved at outcome ⊢
  generalize same' : (s.sweepIdle segment.timestamp).1.resolve _ _ segment = resolved' at outcome ⊢
  cases outcome with
  | refused e => exact ⟨swept, rfl, rfl⟩
  | resolved found =>
      rw [reports]
      exact handle found (consistent.resolve same') _ segment probe _

/-- Finishing reports the same, too. -/
theorem finish (mirrors : m.Mirrors s) (h : s.Consistent) :
    m.finish.1.Mirrors s.finish.1 ∧ m.finish.2 = s.finish.2 := by
  obtain ⟨displaced, h⟩ := h
  obtain @⟨t, table⟩ := mirrors
  obtain ⟨empty, live⟩ := table.drain h
  let report (s : Session) (teardowns : List TeardownReport) : SessionReport :=
    { teardowns
      streams := s.retired.toList.mergeSort fun x y => decide (x.stream ≤ y.stream)
      metas := s.registry.summaries }
  have ended : (m.withTable t).finish = _ :=
    congrArg (fun gone => (gone.1.reset, report gone.1 gone.2))
      (retireAll_withTable { m with table := m.table.drain.1 } t.drain.1 (fun _ => .sessionEnd) t.drain.2)
  rw [ended, ← live]
  let left := MappedSession.retireAll { m with table := m.table.drain.1 } (fun _ => .sessionEnd)
    m.table.drain.2
  exact ⟨(of_table (m := left.1) empty).reset, rfl⟩

end Mirrors

end MappedSession

/-! ### Refused segments -/

namespace Session

/-- A segment is refused exactly if it may not open a connection and finds none. -/
theorem resolved_eq_error_iff (s : Session) (call : Call) (e : CaptureError) :
    s.resolved call = .error e ↔
      e = .unknownConnection call.segment.source call.segment.destination ∧
        s.config.acceptMidstream = false ∧ call.segment.isOpening = false ∧
          ∀ c ∈ (s.swept call).table.live, c.conversation ≠ call.conversation := by
  have config : (s.swept call).config = s.config := sweepIdle_config _ _
  have absent : (s.swept call).table.find? call.conversation = none ↔
      ∀ c ∈ (s.swept call).table.live, c.conversation ≠ call.conversation := by
    rw [ConnectionTable.find?, List.find?_eq_none]
    exact forall₂_congr fun c _ => not_congr beq_iff_eq
  rw [← absent, ← config]
  unfold resolved
  cases opens : (s.swept call).opens call with
  | true =>
      rw [resolve_of_opens opens]
      refine iff_of_false nofun ?_
      rintro ⟨-, midstream, opening, none⟩
      rw [Session.opens, none, midstream, opening] at opens
      cases opens
  | false =>
      cases found : (s.swept call).table.find? call.conversation with
      | some c =>
          rw [resolve_of_found opens found]
          exact iff_of_false nofun fun ⟨_, _, _, absent⟩ => nomatch absent
      | none =>
          rw [resolve_of_missing opens found]
          rw [Session.opens, found, Bool.or_eq_false_iff] at opens
          exact ⟨fun refused => ⟨(Except.error.inj refused).symm, opens.2, opens.1, rfl⟩,
            fun ⟨refused, _⟩ => congrArg _ refused.symm⟩

/-- A call fails exactly if its segment is refused. -/
theorem report_eq_error_iff {s : Session} (h : s.Consistent) (call : Call) (e : CaptureError) :
    (s.take call).report = .error e ↔ s.resolved call = .error e := by
  rcases s.take_cases call with ⟨error, refused⟩ | ⟨r, c, handles⟩
  · rw [take_of_refused refused, refused]
    exact ⟨fun same => congrArg _ (Except.error.inj same), fun same => congrArg _ (Except.error.inj same)⟩
  · rw [handles.take_eq h, handles.resolved]
    exact iff_of_false nofun nofun

end Session

/-! ### Every reachable session -/

/-- What a session is asked for. -/
inductive Request where
  | take (call : Call)
  | finish
  | reset

namespace Session

/-- The session after a request. -/
def serve (s : Session) : Request → Session
  | .take call => (s.take call).session
  | .finish => s.finish.1
  | .reset => s.reset

/-- The session after some requests. -/
def serveAll (s : Session) (requests : List Request) : Session := requests.foldl serve s

theorem Consistent.serve {s : Session} (h : s.Consistent) (request : Request) :
    (s.serve request).Consistent := by
  cases request with
  | take call => exact h.take call
  | finish => exact ⟨[], .of_empty rfl rfl⟩
  | reset => exact ⟨[], .of_empty rfl rfl⟩

end Session

namespace MappedSession

/-- Takes the segment of a call. -/
def take (m : MappedSession) (call : Call) : Processed := m.process call.segment call.probe

/-- The session once idle connections are retired. -/
def swept (m : MappedSession) (call : Call) : MappedSession := (m.sweepIdle call.segment.timestamp).1

/-- The stream found or opened, if the segment is not refused. -/
def resolved (m : MappedSession) (call : Call) : Except CaptureError Resolved :=
  (m.swept call).resolve call.conversation call.direction call.segment

/-- The session after a request. -/
def serve (m : MappedSession) : Request → MappedSession
  | .take call => (m.take call).session
  | .finish => m.finish.1
  | .reset => m.reset

/-- The session after some requests. -/
def serveAll (m : MappedSession) (requests : List Request) : MappedSession := requests.foldl serve m

/-- The maps lead to the live connections and nowhere else; a segment is refused exactly if it may not open
a connection and none is live for it after the sweep; and the stream it resolves to is live. -/
structure Findable (m : MappedSession) : Prop where
  lookup : ∀ conversation stream, m.table.lookup conversation = some stream ↔
    ∃ c ∈ m.table.live, c.stream = stream ∧ c.conversation = conversation
  get? : ∀ stream c, m.table.get? stream = some c ↔ c ∈ m.table.live ∧ c.stream = stream
  conversations : (m.table.live.map (·.conversation)).Nodup
  refused : ∀ call e, (m.take call).report = .error e ↔
    e = .unknownConnection call.segment.source call.segment.destination ∧
      m.config.acceptMidstream = false ∧ call.segment.isOpening = false ∧
        ∀ c ∈ (m.swept call).table.live, c.conversation ≠ call.conversation
  resolved : ∀ call r, m.resolved call = .ok r →
    ∃ c, r.session.table.get? r.stream = some c ∧ c.conversation = call.conversation

namespace Mirrors

variable {m : MappedSession} {s : Session}

theorem config (mirrors : m.Mirrors s) : m.config = s.config := by
  obtain ⟨_⟩ := mirrors
  rfl

theorem mem_live_iff (mirrors : m.Mirrors s) (h : s.Consistent) (c : Connection) :
    c ∈ m.table.live ↔ c ∈ s.table.live := by
  obtain ⟨displaced, h⟩ := h
  obtain ⟨table⟩ := mirrors
  exact (table.live_perm h).mem_iff

theorem get?_of_mem (mirrors : m.Mirrors s) {c : Connection} (mem : c ∈ s.table.live) :
    m.table.get? c.stream = some c := by
  obtain ⟨table⟩ := mirrors
  exact (table.get? _ _).2 ⟨mem, rfl⟩

/-- **A session that mirrors another one finds its connections.** -/
theorem findable (mirrors : m.Mirrors s) (h : s.Consistent) : m.Findable where
  lookup conversation stream := by
    have live := mirrors.mem_live_iff h
    obtain ⟨table⟩ := mirrors
    rw [table.lookup]
    exact exists_congr fun c => and_congr_left fun _ => (live c).symm
  get? stream c := by
    have live := mirrors.mem_live_iff h
    obtain ⟨table⟩ := mirrors
    rw [table.get?]
    exact and_congr_left fun _ => (live c).symm
  conversations := by
    obtain ⟨displaced, h⟩ := h
    obtain ⟨table⟩ := mirrors
    exact ((table.live_perm h).map _).nodup_iff.2 h.conversations
  refused call e := by
    have swept := (mirrors.sweepIdle h call.segment.timestamp).1
    have live := swept.mem_live_iff (h.sweepIdle _)
    rw [take, (mirrors.process h call.segment call.probe).report, mirrors.config]
    refine (Session.report_eq_error_iff h call e).trans ?_
    rw [Session.resolved_eq_error_iff]
    exact and_congr_right fun _ => and_congr_right fun _ => and_congr_right fun _ =>
      forall_congr' fun c => imp_congr_left (live c).symm
  resolved call r ok := by
    have swept := (mirrors.sweepIdle h call.segment.timestamp).1
    have outcome := swept.resolve (h.sweepIdle _) call.conversation call.direction call.segment
    rw [show (m.sweepIdle call.segment.timestamp).1.resolve call.conversation call.direction
      call.segment = .ok r from ok] at outcome
    generalize found : (s.sweepIdle call.segment.timestamp).1.resolve _ _ _ = resolved at outcome
    obtain _ | ⟨same⟩ := outcome
    obtain ⟨c, mem, number, own⟩ := Session.exists_live found
    exact ⟨c, same.stream.trans number.symm ▸ same.session.get?_of_mem mem, own⟩

/-- **One request**: the sessions mirror each other afterwards. -/
theorem serve (mirrors : m.Mirrors s) (h : s.Consistent) (request : Request) :
    (m.serve request).Mirrors (s.serve request) := by
  cases request with
  | take call => exact (mirrors.process h call.segment call.probe).session
  | finish => exact (mirrors.finish h).1
  | reset => exact mirrors.reset

/-- **Any requests**: the sessions mirror each other, and the indexes of the table fit together. -/
theorem serveAll (mirrors : m.Mirrors s) (h : s.Consistent) (requests : List Request) :
    (m.serveAll requests).Mirrors (s.serveAll requests) ∧ (s.serveAll requests).Consistent := by
  induction requests generalizing m s with
  | nil => exact ⟨mirrors, h⟩
  | cons request rest ih => exact ih (mirrors.serve h request) (h.serve request)

end Mirrors

/-- Both sessions have the same live connections, find them alike, and handle any segment alike. -/
structure Agrees (m : MappedSession) (s : Session) : Prop where
  live : m.table.live.Perm s.table.live
  lookup : ∀ conversation, m.table.lookup conversation = s.table.lookup conversation
  get? : ∀ stream, m.table.get? stream = s.table.get? stream
  take : ∀ call, (m.take call).Mirrors (s.take call)

theorem Mirrors.agrees {m : MappedSession} {s : Session} (mirrors : m.Mirrors s) (h : s.Consistent) :
    m.Agrees s := by
  have take (call : Call) := mirrors.process h call.segment call.probe
  obtain ⟨displaced, h⟩ := h
  obtain ⟨table⟩ := mirrors
  exact ⟨table.live_perm h, table.lookup_eq h, table.get?_eq h, take⟩

/-- **Whatever a session was asked for, its connections are findable**, and it agrees with the session that
searches them in order. -/
theorem findable_serveAll (config : Config) (requests : List Request) :
    ((new config).serveAll requests).Findable ∧
      ((new config).serveAll requests).Agrees ((Session.new config).serveAll requests) := by
  obtain ⟨mirrors, consistent⟩ :=
    (Mirrors.new config).serveAll (Session.consistent_new config) requests
  exact ⟨mirrors.findable consistent, mirrors.agrees consistent⟩

end MappedSession

end TcpCapture
