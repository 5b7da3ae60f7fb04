import TcpCapture.Proofs.Session.Isolation
import TcpCapture.Proofs.Session.Tracking

/-!
# Dissection does not disturb tracking

Two sessions take the same segments.  Whether payload is cut into PDUs, by which rule, with how much of
it held back, and whether a history is kept, may differ from one session to the other and from segment
to segment.  Both refuse the same segments, and say the same of the others as far as tracking goes.

## Main definitions

* `Session.Alike` — two sessions that track alike
* `Session.run_alike` — runs of such sessions

**Why it holds.**  The choice of the connection that handles a segment, and of those that are pushed out
for it, follows from what is tracked; what the segment then does to what is tracked does too.
-/

namespace TcpCapture

namespace Session

/-- The two sessions track alike. -/
structure Alike (multipath : Bool) (s t : Session) : Prop where
  config : s.config.tracked multipath = t.config.tracked multipath
  table : s.table.mapLive (·.tracked multipath) = t.table.mapLive (·.tracked multipath)
  registry : multipath = true → s.registry = t.registry
  lastSweep : s.lastSweep = t.lastSweep

/-- Both are about the same stream, found or opened alike. -/
structure AlikeResolved (multipath : Bool) (r r' : Resolved) : Prop where
  session : r.session.Alike multipath r'.session
  stream : r.stream = r'.stream
  reused : r.reused = r'.reused
  retired : r.retired.map (·.tracked multipath) = r'.retired.map (·.tracked multipath)

variable {multipath : Bool} {s t : Session}

theorem alike_new {config config' : Config}
    (settings : config.tracked multipath = config'.tracked multipath) :
    (new config).Alike multipath (new config') where
  config := settings
  table := congrArg (fun maxEntries => { maxEntries : ConnectionTable })
    (congrArg Config.maxConnections settings :)
  registry _ := rfl
  lastSweep := rfl

/-! ### Retiring -/

/-- What is reported of retired connections follows from what was tracked of them. -/
theorem retireAll_tracked (s t : Session) (reason : Connection → TeardownReason)
    (blind : ∀ c, reason (c.tracked multipath) = reason c) (cs : List Connection) :
    (t.retireAll reason (cs.map (·.tracked multipath))).2.map (·.tracked multipath) =
      (s.retireAll reason cs).2.map (·.tracked multipath) := by
  induction cs generalizing s t with
  | nil => rfl
  | cons c rest ih =>
      have first : (t.retire (c.tracked multipath) (reason c)).2.toList.map (·.tracked multipath) =
          (s.retire c (reason c)).2.toList.map (·.tracked multipath) := by
        unfold retire
        rw [show (c.tracked multipath).closed = c.closed from rfl]
        cases c.closed <;> cases multipath <;> rfl
      rw [List.map_cons]
      unfold retireAll
      dsimp only
      rw [blind, List.map_append, List.map_append, first, ih]

namespace Alike

theorem retireAll_reports {cs cs' : List Connection}
    (same : cs.map (·.tracked multipath) = cs'.map (·.tracked multipath))
    (s t : Session) (reason : Connection → TeardownReason)
    (blind : ∀ c, reason (c.tracked multipath) = reason c) :
    (s.retireAll reason cs).2.map (·.tracked multipath) =
      (t.retireAll reason cs').2.map (·.tracked multipath) := by
  rw [← retireAll_tracked s s reason blind, same, retireAll_tracked t s reason blind]

/-- Only summaries are kept of connections that retire. -/
theorem retireAll (alike : s.Alike multipath t) (reason : Connection → TeardownReason)
    (cs cs' : List Connection) :
    (s.retireAll reason cs).1.Alike multipath (t.retireAll reason cs').1 := by
  obtain ⟨retired, left⟩ := s.retireAll_eq reason cs
  obtain ⟨retired', right⟩ := t.retireAll_eq reason cs'
  rw [left, right]
  exact ⟨alike.config, alike.table, alike.registry, alike.lastSweep⟩

/-! ### Finding the connection -/

theorem sweepIdle (alike : s.Alike multipath t) (now : Nat) :
    (s.sweepIdle now).1.Alike multipath (t.sweepIdle now).1 ∧
      (s.sweepIdle now).2.map (·.tracked multipath) =
        (t.sweepIdle now).2.map (·.tracked multipath) := by
  have timeout : s.config.idleTimeout = t.config.idleTimeout :=
    (congrArg Config.idleTimeout alike.config :)
  have expired := s.table.expireIdle_mapLive (Connection.unnoticed_tracked multipath) now
    s.config.idleTimeout
  rw [alike.table, timeout,
    t.table.expireIdle_mapLive (Connection.unnoticed_tracked multipath)] at expired
  unfold Session.sweepIdle Config.sweepInterval
  rw [alike.lastSweep, timeout]
  split
  · exact ⟨alike, rfl⟩
  · have swept : Alike multipath
        { s with table := (s.table.expireIdle now t.config.idleTimeout).1, lastSweep := now }
        { t with table := (t.table.expireIdle now t.config.idleTimeout).1, lastSweep := now } :=
      ⟨alike.config, (congrArg Prod.fst expired).symm, alike.registry, rfl⟩
    exact ⟨swept.retireAll _ _ _,
      retireAll_reports (congrArg Prod.snd expired).symm _ _ _ fun _ => rfl⟩

theorem openStream (alike : s.Alike multipath t) (conversation : Conversation) (now : Nat)
    (reused : Bool) :
    AlikeResolved multipath (s.openStream conversation now reused)
      (t.openStream conversation now reused) := by
  have opening := s.table.openConnection_mapLive (Connection.unnoticed_tracked multipath)
    conversation now
  rw [alike.table, t.table.openConnection_mapLive (Connection.unnoticed_tracked multipath)]
    at opening
  have opened : Alike multipath
      { s with table := (s.table.openConnection conversation now).table }
      { t with table := (t.table.openConnection conversation now).table } :=
    ⟨alike.config, (congrArg ConnectionTable.Opening.table opening).symm, alike.registry,
      alike.lastSweep⟩
  exact ⟨opened.retireAll _ _ _, (congrArg ConnectionTable.Opening.stream opening).symm, rfl,
    retireAll_reports (congrArg ConnectionTable.Opening.retired opening).symm _ _ _ fun _ => rfl⟩

theorem find? (alike : s.Alike multipath t) (conversation : Conversation) :
    (s.table.find? conversation).map (·.tracked multipath) =
      (t.table.find? conversation).map (·.tracked multipath) := by
  rw [← s.table.find?_mapLive (Connection.unnoticed_tracked multipath), alike.table,
    t.table.find?_mapLive (Connection.unnoticed_tracked multipath)]

/-- A connection is found in both or in neither. -/
theorem isSome_find? (alike : s.Alike multipath t) (conversation : Conversation) :
    (s.table.find? conversation).isSome = (t.table.find? conversation).isSome := by
  have found := congrArg Option.isSome (alike.find? conversation)
  rwa [Option.isSome_map, Option.isSome_map] at found

theorem isPortReuse_tracked (c : Connection) (d : Direction) (segment : Segment) :
    isPortReuse (c.tracked multipath) d segment = isPortReuse c d segment := by
  unfold isPortReuse
  rw [Connection.flow_tracked]
  rfl

variable {call call' : Call} (segment : call.segment = call'.segment)

include segment

theorem swept (alike : s.Alike multipath t) :
    (s.swept call).Alike multipath (t.swept call') ∧
      (s.sweepReports call).map (·.tracked multipath) =
        (t.sweepReports call').map (·.tracked multipath) := by
  unfold Session.swept sweepReports
  rw [segment]
  exact alike.sweepIdle _

theorem opens_eq (alike : s.Alike multipath t) : s.opens call = t.opens call' := by
  have opens (s : Session) (call : Call) : s.opens call =
      ((s.table.find? call.conversation).map (·.tracked multipath)).elim
        (call.segment.isOpening || (s.config.tracked multipath).acceptMidstream)
        fun c => call.segment.isOpening && isPortReuse c call.direction call.segment := by
    unfold Session.opens
    cases s.table.find? call.conversation with
    | none => rfl
    | some c => exact congrArg (call.segment.isOpening && ·) (isPortReuse_tracked c _ _).symm
  rw [opens, opens, alike.find?, alike.config]
  unfold Call.conversation Call.direction
  rw [segment]

/-- **Both refuse the call, or both find or open the same stream for it.** -/
theorem resolve (alike : s.Alike multipath t) :
    (∃ e, s.resolve call.conversation call.direction call.segment = .error e ∧
        t.resolve call'.conversation call'.direction call'.segment = .error e) ∨
      ∃ r r', s.resolve call.conversation call.direction call.segment = .ok r ∧
        t.resolve call'.conversation call'.direction call'.segment = .ok r' ∧
        AlikeResolved multipath r r' := by
  have opens := alike.opens_eq segment
  have conversation : call'.conversation = call.conversation := by
    unfold Call.conversation
    rw [segment]
  have found := alike.find? call.conversation
  cases decided : s.opens call with
  | true =>
      rw [resolve_of_opens decided, resolve_of_opens (opens.symm.trans decided), conversation,
        alike.isSome_find?, segment]
      exact Or.inr ⟨_, _, rfl, rfl, alike.openStream _ _ _⟩
  | false =>
      cases left : s.table.find? call.conversation with
      | none =>
          rw [left] at found
          have right : t.table.find? call'.conversation = none := by
            rw [conversation]
            exact Option.map_eq_none_iff.1 found.symm
          rw [resolve_of_missing decided left,
            resolve_of_missing (opens.symm.trans decided) right, segment]
          exact Or.inl ⟨_, rfl, rfl⟩
      | some c =>
          rw [left] at found
          obtain ⟨c', right, same⟩ := Option.map_eq_some_iff.1 found.symm
          rw [← conversation] at right
          rw [resolve_of_found decided left, resolve_of_found (opens.symm.trans decided) right]
          exact Or.inr ⟨_, _, rfl, rfl, alike, (congrArg Connection.stream same :).symm, rfl, rfl⟩

end Alike

/-! ### One call -/

/-- What tracking says of a call. -/
def Processed.tracked (multipath : Bool) (p : Processed) : Except CaptureError SegmentReport :=
  p.report.map (·.tracked multipath)

theorem Resolved.handle_of_missing {r : Resolved}
    (missing : r.session.table.get? r.stream = none) (d : Direction) (segment : Segment)
    (probe : Option LengthProbe) (swept : List TeardownReport) :
    r.handle d segment probe swept =
      { session := r.session
        report := .error (.unknownConnection segment.source segment.destination) } := by
  unfold Resolved.handle
  simp only [missing]

theorem AlikeResolved.handle {r r' : Resolved} (alike : AlikeResolved multipath r r')
    {swept swept' : List TeardownReport}
    (reports : swept.map (·.tracked multipath) = swept'.map (·.tracked multipath)) (d : Direction)
    (segment : Segment) (probe probe' : Option LengthProbe) :
    (r.handle d segment probe swept).session.Alike multipath
        (r'.handle d segment probe' swept').session ∧
      (r.handle d segment probe swept).tracked multipath =
        (r'.handle d segment probe' swept').tracked multipath := by
  have unnoticed := Connection.unnoticed_tracked multipath
  have found := r.session.table.get?_mapLive unnoticed r.stream
  rw [alike.session.table, alike.stream, r'.session.table.get?_mapLive unnoticed] at found
  cases right : r'.session.table.get? r'.stream with
  | none =>
      rw [right] at found
      have left : r.session.table.get? r.stream = none := by
        rw [alike.stream]
        exact Option.map_eq_none_iff.1 found.symm
      rw [Resolved.handle_of_missing left, Resolved.handle_of_missing right]
      exact ⟨alike.session, rfl⟩
  | some c' =>
      rw [right] at found
      obtain ⟨c, left, same⟩ := Option.map_eq_some_iff.1 found.symm
      rw [← alike.stream] at left
      have handled := Connection.handle_alike d segment same alike.session.config
        alike.session.registry probe probe'
      have table : (((r.session.table.put
            (c.handle r.session.registry r.session.config probe d segment).connection).touch r.stream
              segment.timestamp).mapLive (·.tracked multipath)) =
          (((r'.session.table.put
            (c'.handle r'.session.registry r'.session.config probe' d segment).connection).touch
              r'.stream segment.timestamp).mapLive (·.tracked multipath)) := by
        rw [← ConnectionTable.touch_mapLive unnoticed, ← ConnectionTable.touch_mapLive unnoticed,
          ← ConnectionTable.put_mapLive unnoticed, ← ConnectionTable.put_mapLive unnoticed,
          handled.connection, alike.session.table, alike.stream]
      have marked (x : SegmentReport) (reused : Bool) (retired : List TeardownReport) :
          ({ x with
            classification.findings := { x.classification.findings with
              reusedPorts := reused || x.classification.findings.reusedPorts }
            retired } : SegmentReport).tracked multipath =
          { x.tracked multipath with
            classification.findings := { (x.tracked multipath).classification.findings with
              reusedPorts := reused || (x.tracked multipath).classification.findings.reusedPorts }
            retired := retired.map (·.tracked multipath) } := rfl
      rw [Resolved.handle_of_found left, Resolved.handle_of_found right]
      refine ⟨⟨alike.session.config, table, handled.registry, alike.session.lastSweep⟩,
        congrArg Except.ok ?_⟩
      dsimp only
      rw [marked, marked, handled.report, alike.reused, List.map_append, List.map_append,
        reports, alike.retired]

/-- **A call is answered alike, and leaves the sessions alike.** -/
theorem Alike.take (alike : s.Alike multipath t) {call call' : Call}
    (segment : call.segment = call'.segment) :
    (s.take call).session.Alike multipath (t.take call').session ∧
      (s.take call).tracked multipath = (t.take call').tracked multipath := by
  obtain ⟨swept, reports⟩ := alike.swept segment
  have direction : call'.direction = call.direction := by
    unfold Call.direction
    rw [segment]
  rcases swept.resolve segment with ⟨e, left, right⟩ | ⟨r, r', left, right, resolved⟩
  · rw [take_of_refused left, take_of_refused right]
    exact ⟨swept, rfl⟩
  · rw [take_of_resolved left, take_of_resolved right, direction, ← segment]
    exact resolved.handle reports call.direction call.segment call.probe call'.probe

/-! ### Whole runs -/

theorem Alike.run (alike : s.Alike multipath t) {calls calls' : List Call}
    (segments : calls.map (·.segment) = calls'.map (·.segment)) :
    (s.run calls).map (·.tracked multipath) = (t.run calls').map (·.tracked multipath) ∧
      (s.after calls).Alike multipath (t.after calls') := by
  induction calls generalizing s t calls' with
  | nil =>
      rw [List.map_eq_nil_iff.1 segments.symm]
      exact ⟨rfl, alike⟩
  | cons call rest ih =>
      obtain ⟨call', rest', rfl, segment, later⟩ := List.map_eq_cons_iff.1 segments.symm
      obtain ⟨left, first⟩ := alike.take segment.symm
      obtain ⟨run, after⟩ := ih left later.symm
      exact ⟨by rw [run_cons, run_cons, List.map_cons, List.map_cons, first, run], after⟩

/-- What is reported of the connections given up at the end. -/
theorem Alike.finish (alike : s.Alike multipath t) :
    s.finish.2.teardowns.map (·.tracked multipath) =
      t.finish.2.teardowns.map (·.tracked multipath) :=
  retireAll_reports (congrArg ConnectionTable.live alike.table) _ _ _ fun _ => rfl

/-- **Dissection does not disturb tracking.**  Two new sessions with the same settings of tracking take
the same segments, each with probes of its own or none.  They refuse the same ones, for the same reason;
what tracking says of the others and of every connection given up, on the way or at the end, is the same.
Multipath may be on in one of them and off in the other, where what it has a say in is left out. -/
theorem run_alike (multipath : Bool) {config config' : Config} {calls calls' : List Call}
    (settings : config.tracked multipath = config'.tracked multipath)
    (segments : calls.map (·.segment) = calls'.map (·.segment)) :
    ((new config).run calls).map (·.tracked multipath) =
        ((new config').run calls').map (·.tracked multipath) ∧
      ((new config).after calls).finish.2.teardowns.map (·.tracked multipath) =
        ((new config').after calls').finish.2.teardowns.map (·.tracked multipath) := by
  obtain ⟨run, after⟩ := (alike_new settings).run segments
  exact ⟨run, after.finish⟩

/-- A PDU of a multipath connection arrives after its second half, and the connection is reset.  One
session cuts it out and keeps a history, one follows multipath without doing so, and one does neither. -/
theorem run_alike_of_reset :
    let client : Endpoint := ⟨.v4 0x0a000001, 40000⟩
    let server : Endpoint := ⟨.v4 0x0a000002, 443⟩
    let probe : LengthProbe := LengthField.probe ⟨0, .one, 1⟩
    let dissecting : Config := { framing.fixedLen := 1, maxReorderBytes := 16 }
    let following : Config := { recordHistory := false, maxReorderBytes := 0 }
    let plain : Config := { recordHistory := false, multipath := false }
    let segments : List Segment := [
      { source := client, destination := server, flags.syn := true, multipath := [.capable {}] },
      { source := server, destination := client, ack := 1, flags.syn := true, flags.ack := true
        multipath := [.capable {}] },
      { source := client, destination := server, seq := 2, ack := 1, flags.ack := true
        payload := [10] },
      { source := client, destination := server, seq := 1, ack := 1, flags.ack := true
        payload := [1] },
      { source := server, destination := client, seq := 1, ack := 3, flags.ack := true
        flags.rst := true }]
    let cut : List Call := segments.map fun segment => { segment, probe }
    let whole : List Call := segments.map fun segment => { segment }
    (dissecting.tracked true = following.tracked true ∧
        dissecting.tracked false = plain.tracked false ∧
        cut.map (·.segment) = whole.map (·.segment)) ∧
      (((new dissecting).run cut).map (·.tracked true) =
          ((new following).run whole).map (·.tracked true) ∧
        ((new dissecting).after cut).finish.2.teardowns.map (·.tracked true) =
          ((new following).after whole).finish.2.teardowns.map (·.tracked true)) ∧
      (((new dissecting).run cut).map (·.tracked false) =
          ((new plain).run whole).map (·.tracked false) ∧
        ((new dissecting).after cut).finish.2.teardowns.map (·.tracked false) =
          ((new plain).after whole).finish.2.teardowns.map (·.tracked false)) ∧
      (((new dissecting).run cut).flatMap (·.deliveries)).map (·.pdu.data) = [[1, 10]] ∧
      ((new following).run whole).flatMap (·.deliveries) = [] := by
  intro client server probe dissecting following plain segments cut whole
  have tracked : dissecting.tracked true = following.tracked true := by decide
  have untracked : dissecting.tracked false = plain.tracked false := by decide
  exact ⟨⟨tracked, untracked, rfl⟩, run_alike true tracked rfl, run_alike false untracked rfl,
    by decide +kernel, by decide +kernel⟩

end Session

end TcpCapture
