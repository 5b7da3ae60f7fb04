import TcpCapture.Proofs.Connection.Mapping
import TcpCapture.Proofs.Session.Summaries

/-!
# What a session does not look into

A session retires connections, sweeps, and opens connections for which others give way, all without
looking into what they keep.  Whatever else changes in its connections, it does to the changed ones what it
would have done to the original ones, and what it tells of them changes likewise.

## Main definitions

* `Session.Change` — what becomes of connections and of what is told of them
* `Session.change` — the session with its connections and summaries changed
* `Session.Change.Faithful` — what is told of a changed connection is what was told of it, changed
* `Session.Change.Takes` — a call that takes the place of another one

**Where a session does look.**  It asks a connection whether its endpoints may be used again, and has it
handle the segment.  That these two respect a change is up to whoever makes it (`Takes.reuse`, and
`handling` in `take_change`).
-/

namespace TcpCapture

namespace Session

/-- What becomes of connections, and of what is told of them. -/
structure Change where
  name : Conversation → Conversation := id
  connection : Connection → Connection
  summary : StreamSummary → StreamSummary
  teardown : TeardownReport → TeardownReport := id
  report : SegmentReport → SegmentReport := id
  error : CaptureError → CaptureError := id
  delivery : Delivery → Delivery := id

/-- The session with its connections and summaries changed. -/
def change (s : Session) (x : Change) : Session :=
  { s with table := s.table.mapLive x.connection, retired := s.retired.map x.summary }

/-- The connection a segment belongs to, in the changed session. -/
def Resolved.change (r : Resolved) (x : Change) : Resolved :=
  { r with session := r.session.change x, retired := r.retired.map x.teardown }

/-- What a call led to, in the changed session. -/
def Processed.change (p : Processed) (x : Change) : Processed where
  session := p.session.change x
  report := (p.report.map x.report).mapError x.error
  deliveries := p.deliveries.map x.delivery

namespace Change

/-- The table notices nothing but other names, and what is told of a connection changes with it.  Of
connections that do not fit nothing need be told. -/
structure Faithful (x : Change) (fits : Connection → Prop) : Prop where
  renames : Connection.Renames x.name x.connection
  closed : ∀ c, (x.connection c).closed = c.closed
  summary : ∀ c, fits c → (x.connection c).summary = x.summary c.summary
  teardown : ∀ c reason, fits c →
    ((x.connection c).teardown reason).2 = x.teardown (c.teardown reason).2
  stream : ∀ y, (x.summary y).stream = y.stream
  /-- What the session adds to a report. -/
  noted : ∀ (r : SegmentReport) reused retired,
    x.report { r with
      classification.findings := { r.classification.findings with
        reusedPorts := reused || r.classification.findings.reusedPorts }
      retired } =
    { x.report r with
      classification.findings := { (x.report r).classification.findings with
        reusedPorts := reused || (x.report r).classification.findings.reusedPorts }
      retired := retired.map x.teardown }

/-- The second call takes the place of the first one. -/
structure Takes (x : Change) (call call' : Call) : Prop where
  conversation : call'.conversation = x.name call.conversation
  timestamp : call'.segment.timestamp = call.segment.timestamp
  opening : call'.segment.isOpening = call.segment.isOpening
  probe : call'.probe = call.probe
  refusal : x.error (.unknownConnection call.segment.source call.segment.destination) =
    .unknownConnection call'.segment.source call'.segment.destination
  reuse : ∀ c, c.conversation = call.conversation →
    isPortReuse (x.connection c) call'.direction call'.segment =
      isPortReuse c call.direction call.segment

end Change

variable {x : Change} {fits : Connection → Prop}

/-! ### Retiring -/

theorem retire_eq (s : Session) (c : Connection) (reason : TeardownReason) :
    s.retire c reason =
      ({ s with retired := s.retired.push c.summary },
        if c.closed then none else some (c.teardown reason).2) := by
  unfold retire
  cases c.closed with
  | true => rfl
  | false =>
      refine congrArg (fun summary => ({ s with retired := s.retired.push summary }, _)) ?_
      exact c.summary_teardown reason

theorem retire_change (faithful : x.Faithful fits) (s : Session) {c : Connection} (fit : fits c)
    (reason : TeardownReason) :
    (s.change x).retire (x.connection c) reason =
      ((s.retire c reason).1.change x, (s.retire c reason).2.map x.teardown) := by
  rw [retire_eq, retire_eq, faithful.closed, faithful.summary c fit, faithful.teardown c reason fit]
  unfold change
  dsimp only
  rw [Array.map_push]
  cases c.closed <;> rfl

theorem retireAll_change (faithful : x.Faithful fits) (s : Session)
    (reason reason' : Connection → TeardownReason) {cs : List Connection}
    (alike : ∀ c ∈ cs, reason' (x.connection c) = reason c) (fit : ∀ c ∈ cs, fits c) :
    (s.change x).retireAll reason' (cs.map x.connection) =
      ((s.retireAll reason cs).1.change x, (s.retireAll reason cs).2.map x.teardown) := by
  induction cs generalizing s with
  | nil => rfl
  | cons c rest ih =>
      have told (t : Option TeardownReport) :
          (t.map x.teardown).toList = t.toList.map x.teardown := by
        cases t <;> rfl
      rw [List.map_cons]
      unfold retireAll
      rw [alike c List.mem_cons_self, retire_change faithful s (fit c List.mem_cons_self)]
      dsimp only
      rw [ih _ (fun d mem => alike d (List.mem_cons_of_mem c mem))
        fun d mem => fit d (List.mem_cons_of_mem c mem), told, List.map_append]

/-! ### Finding the connection -/

variable {s : Session}

theorem sweepIdle_change (faithful : x.Faithful fits) (consistent : s.Consistent)
    (fit : ∀ c ∈ s.table.live, fits c) (now : Nat) :
    (s.change x).sweepIdle now =
      ((s.sweepIdle now).1.change x, (s.sweepIdle now).2.map x.teardown) := by
  obtain ⟨displaced, indexed⟩ := consistent
  have expired : ∀ c ∈ (s.table.expireIdle now s.config.idleTimeout).2, fits c := fun c mem =>
    fit c ((indexed.removeAll_perm _).subset (List.mem_append_left _ mem))
  unfold sweepIdle
  show (if now - s.lastSweep ≤ s.config.sweepInterval then (s.change x, []) else _) = _
  split
  · rfl
  · show Session.retireAll { s.change x with
        table := ((s.table.mapLive x.connection).expireIdle now s.config.idleTimeout).1
        lastSweep := now }
      (fun _ => .idle) ((s.table.mapLive x.connection).expireIdle now s.config.idleTimeout).2 = _
    rw [faithful.renames.expireIdle]
    exact retireAll_change faithful
      { s with table := (s.table.expireIdle now s.config.idleTimeout).1, lastSweep := now }
      (fun _ => .idle) (fun _ => .idle) (fun _ _ => rfl) expired

theorem openStream_change (faithful : x.Faithful fits) (conversation : Conversation) (now : Nat)
    (reused : Bool) (fit : ∀ c ∈ (s.table.openConnection conversation now).retired, fits c) :
    (s.change x).openStream (x.name conversation) now reused =
      (s.openStream conversation now reused).change x := by
  have alike : ∀ c ∈ (s.table.openConnection conversation now).retired,
      (if (x.connection c).conversation = x.name conversation then TeardownReason.reused
        else .evicted) = if c.conversation = conversation then .reused else .evicted := fun c _ =>
    if_congr (by rw [faithful.renames.conversation, faithful.renames.injective.eq_iff]) rfl rfl
  have retired := retireAll_change faithful
    { s with table := (s.table.openConnection conversation now).table }
    (fun c => if c.conversation = conversation then .reused else .evicted)
    (fun c => if c.conversation = x.name conversation then .reused else .evicted) alike fit
  unfold openStream
  dsimp only
  rw [show (s.change x).table = s.table.mapLive x.connection from rfl,
    faithful.renames.openConnection]
  exact congrArg (fun after : Session × List TeardownReport => Resolved.mk after.1 _ reused after.2)
    retired

variable {call call' : Call}

theorem resolve_change (faithful : x.Faithful fits) (takes : x.Takes call call')
    (fit : ∀ reused, s.resolve call.conversation call.direction call.segment =
        .ok (s.openStream call.conversation call.segment.timestamp reused) →
      ∀ c ∈ (s.table.openConnection call.conversation call.segment.timestamp).retired, fits c) :
    (s.change x).resolve call'.conversation call'.direction call'.segment =
      ((s.resolve call.conversation call.direction call.segment).map (·.change x)).mapError
        x.error := by
  have opens (reused : Bool) (ok : s.resolve call.conversation call.direction call.segment =
      .ok (s.openStream call.conversation call.segment.timestamp reused)) :=
    openStream_change faithful call.conversation call.segment.timestamp reused (fit reused ok)
  unfold resolve at opens ⊢
  rw [takes.conversation, takes.timestamp, takes.opening, ← takes.refusal,
    show (s.change x).table = s.table.mapLive x.connection from rfl, faithful.renames.find?]
  cases found : s.table.find? call.conversation with
  | none =>
      rw [found] at opens
      dsimp only [Option.map_none] at opens ⊢
      rw [show (s.change x).config = s.config from rfl]
      split
      · rename_i accepted
        exact congrArg Except.ok (opens false (if_pos accepted))
      · rfl
  | some c =>
      have same : c.conversation = call.conversation := by simpa using List.find?_some found
      rw [found] at opens
      dsimp only [Option.map_some] at opens ⊢
      rw [takes.reuse c same]
      split
      · rename_i reuse
        exact congrArg Except.ok (opens true (if_pos reuse))
      · refine congrArg Except.ok ?_
        rw [faithful.renames.stream]
        rfl

/-! ### One call -/

theorem swept_change (faithful : x.Faithful fits) (takes : x.Takes call call')
    (consistent : s.Consistent) (live : ∀ c ∈ s.table.live, fits c) :
    (s.change x).swept call' = (s.swept call).change x ∧
      (s.change x).sweepReports call' = (s.sweepReports call).map x.teardown := by
  unfold swept sweepReports
  rw [takes.timestamp, sweepIdle_change faithful consistent live]
  exact ⟨rfl, rfl⟩

theorem resolved_change (faithful : x.Faithful fits) (takes : x.Takes call call')
    (consistent : s.Consistent) (live : ∀ c ∈ s.table.live, fits c)
    (pushedOut : ∀ reused, s.resolved call =
        .ok ((s.swept call).openStream call.conversation call.segment.timestamp reused) →
      ∀ c ∈ ((s.swept call).table.openConnection call.conversation call.segment.timestamp).retired,
        fits c) :
    (s.change x).resolved call' = ((s.resolved call).map (·.change x)).mapError x.error := by
  unfold resolved
  rw [(swept_change faithful takes consistent live).1]
  exact resolve_change faithful takes pushedOut

/-- The answer to a segment, where its connection is changed. -/
theorem Handles.answer_change {r : Resolved} {c : Connection} (handles : s.Handles call r c)
    (faithful : x.Faithful fits) (takes : x.Takes call call') (consistent : s.Consistent)
    (handling : (x.connection c).handle r.session.registry r.session.config call.probe
        call'.direction call'.segment =
      { handled call r c with
        connection := x.connection (handled call r c).connection
        report := x.report (handled call r c).report })
    (deliveries : ∀ pdu, x.delivery ⟨r.stream, call.direction, pdu⟩ = ⟨r.stream, call'.direction, pdu⟩)
    (swept : List TeardownReport) :
    (r.change x).handle call'.direction call'.segment call'.probe (swept.map x.teardown) =
      (r.handle call.direction call.segment call.probe swept).change x := by
  have found := handles.get?_eq consistent
  have found' : (r.change x).session.table.get? (r.change x).stream = some (x.connection c) := by
    have mapped := faithful.renames.get? r.session.table r.stream
    rw [found] at mapped
    exact mapped
  have table := faithful.renames.touch (r.session.table.put (handled call r c).connection) r.stream
    call.segment.timestamp
  rw [← faithful.renames.put] at table
  have retired : swept.map x.teardown ++ (r.change x).retired = (swept ++ r.retired).map x.teardown :=
    List.map_append.symm
  have delivered : (handled call r c).pdus.map (fun pdu => Delivery.mk r.stream call'.direction pdu) =
      ((handled call r c).pdus.map fun pdu => Delivery.mk r.stream call.direction pdu).map
        x.delivery := by
    rw [List.map_map]
    exact List.map_congr_left fun pdu _ => (deliveries pdu).symm
  rw [Resolved.handle_of_found found, Resolved.handle_of_found found']
  dsimp only
  rw [show (r.change x).session.registry = r.session.registry from rfl,
    show (r.change x).session.config = r.session.config from rfl, takes.probe, handling, retired,
    takes.timestamp]
  dsimp only
  rw [← faithful.noted]
  refine (congrArg (fun table => Processed.mk { r.session.change x with table, registry := _ } _ _)
    table).trans ?_
  exact congrArg (Processed.mk _ _) delivered

/-- **A call treats changed connections alike.** -/
theorem take_change (faithful : x.Faithful fits) (takes : x.Takes call call')
    (consistent : s.Consistent) (live : ∀ c ∈ s.table.live, fits c)
    (pushedOut : ∀ reused, s.resolved call =
        .ok ((s.swept call).openStream call.conversation call.segment.timestamp reused) →
      ∀ c ∈ ((s.swept call).table.openConnection call.conversation call.segment.timestamp).retired,
        fits c)
    (handling : ∀ r c, s.Handles call r c →
      (x.connection c).handle r.session.registry r.session.config call.probe call'.direction
          call'.segment =
        { handled call r c with
          connection := x.connection (handled call r c).connection
          report := x.report (handled call r c).report })
    (deliveries : ∀ r, s.resolved call = .ok r → ∀ pdu,
      x.delivery ⟨r.stream, call.direction, pdu⟩ = ⟨r.stream, call'.direction, pdu⟩) :
    (s.change x).take call' = (s.take call).change x := by
  have resolves := resolved_change faithful takes consistent live pushedOut
  obtain ⟨swept, reports⟩ := swept_change faithful takes consistent live
  rcases s.take_cases call with ⟨e, refused⟩ | ⟨r, c, handles⟩
  · rw [refused] at resolves
    rw [take_of_refused refused, take_of_refused resolves, swept]
    rfl
  · rw [handles.resolved] at resolves
    rw [take_of_resolved handles.resolved, take_of_resolved resolves, reports]
    exact handles.answer_change faithful takes consistent (handling r c handles)
      (deliveries r handles.resolved) _

/-! ### The end -/

theorem summaries_change (faithful : x.Faithful fits) (fit : ∀ c ∈ s.table.live, fits c) :
    (s.change x).summaries = s.summaries.map x.summary := by
  have live : (s.table.live.map x.connection).map Connection.summary =
      (s.table.live.map Connection.summary).map x.summary := by
    rw [List.map_map, List.map_map]
    exact List.map_congr_left fun c mem => faithful.summary c (fit c mem)
  show (s.retired.map x.summary).toList ++ _ = (s.retired.toList ++ _).map _
  rw [Array.toList_map, List.map_append]
  exact congrArg (_ ++ ·) live

/-- **The end of a session** reports the same of changed connections, changed. -/
theorem finish_change (faithful : x.Faithful fits) (fit : ∀ c ∈ s.table.live, fits c) :
    (s.change x).finish.2 =
      { s.finish.2 with
        teardowns := s.finish.2.teardowns.map x.teardown
        streams := s.finish.2.streams.map x.summary } := by
  have streams : (s.change x).finish.2.streams = s.finish.2.streams.map x.summary := by
    rw [streams_finish, streams_finish, summaries_change faithful fit]
    refine (List.map_mergeSort fun y _ z _ => ?_).symm
    rw [faithful.stream, faithful.stream]
  have report (t : Session) : t.finish.2 =
      let ended := Session.retireAll { t with table := t.table.drain.1 } (fun _ => .sessionEnd)
        t.table.live
      { teardowns := ended.2, streams := t.finish.2.streams, metas := ended.1.registry.summaries } :=
    rfl
  have ended : Session.retireAll { s.change x with table := (s.change x).table.drain.1 }
      (fun _ => .sessionEnd) (s.change x).table.live = _ :=
    retireAll_change faithful { s with table := s.table.drain.1 } (fun _ => .sessionEnd)
      (fun _ => .sessionEnd) (fun _ _ => rfl) fit
  rw [report, report s, streams]
  dsimp only
  rw [ended]
  rfl

theorem new_change (config : Config) (x : Change) : (new config).change x = new config := by
  unfold change
  rw [show (new config).retired = #[] from rfl, Array.map_empty]
  rfl

end Session

end TcpCapture
