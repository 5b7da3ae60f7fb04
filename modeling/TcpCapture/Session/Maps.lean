import TcpCapture.Connection.Maps
import TcpCapture.Session.Basic

/-!
# Sessions that find connections in maps

A session whose live connections are in a `MappedTable`.  It asks the map of conversations for the stream of
a segment and then the map of streams for the connection.

## Main definitions

* `MappedSession` — a session with the two maps in place of its table
* `MappedSession.process`, `finish`, `reset` — what a `Session` does, with these lookups
-/

namespace TcpCapture

/-- A capture session that keeps its live connections in maps. -/
structure MappedSession where
  config : Config
  table : MappedTable
  registry : MetaRegistry := {}
  /-- Summaries of retired connections, in the order they retired. -/
  retired : Array StreamSummary := #[]
  lastSweep : Nat := 0

namespace MappedSession

/-- A session that has seen nothing. -/
def new (config : Config) : MappedSession :=
  { config, table := { maxEntries := config.maxConnections } }

/-- Forgets everything but the settings. -/
def reset (m : MappedSession) : MappedSession := { config := m.config, table := m.table.clear }

/-- The session with a table in place of the maps. -/
def withTable (m : MappedSession) (table : ConnectionTable) : Session :=
  { config := m.config, table, registry := m.registry, retired := m.retired, lastSweep := m.lastSweep }

/-- Retires connections that left the maps, each for its own reason. -/
def retireAll (m : MappedSession) (reason : Connection → TeardownReason) (cs : List Connection) :
    MappedSession × List TeardownReport :=
  let (s, reports) := (m.withTable { maxEntries := m.table.maxEntries }).retireAll reason cs
  ({ m with retired := s.retired }, reports)

/-- Retires idle connections, unless the last sweep was a short time ago. -/
def sweepIdle (m : MappedSession) (now : Nat) : MappedSession × List TeardownReport :=
  if now - m.lastSweep ≤ m.config.sweepInterval then (m, [])
  else
    let (table, expired) := m.table.expireIdle now m.config.idleTimeout
    { m with table, lastSweep := now }.retireAll (fun _ => .idle) expired

/-- The stream a segment belongs to. -/
structure Resolved where
  session : MappedSession
  stream : Nat
  /-- A SYN reused the endpoints of an earlier connection. -/
  reused : Bool
  retired : List TeardownReport

/-- Opens a connection and retires those it pushes out. -/
def openStream (m : MappedSession) (conversation : Conversation) (now : Nat) (reused : Bool) :
    Resolved :=
  let opening := m.table.openConnection conversation now
  let reason (c : Connection) : TeardownReason :=
    if c.conversation = conversation then .reused else .evicted
  let (session, retired) := { m with table := opening.table }.retireAll reason opening.retired
  { session, stream := opening.stream, reused, retired }

/-- Finds the stream a segment belongs to, or opens one. -/
def resolve (m : MappedSession) (conversation : Conversation) (d : Direction) (segment : Segment) :
    Except CaptureError Resolved :=
  match m.table.lookup conversation with
  | some stream =>
    if segment.isOpening && (m.table.get? stream).any (Session.isPortReuse · d segment) then
      .ok (m.openStream conversation segment.timestamp true)
    else .ok { session := m, stream, reused := false, retired := [] }
  | none =>
    if segment.isOpening || m.config.acceptMidstream then
      .ok (m.openStream conversation segment.timestamp false)
    else .error (.unknownConnection segment.source segment.destination)

/-- What processing a segment led to. -/
structure Processed where
  session : MappedSession
  report : Except CaptureError SegmentReport
  /-- The PDUs delivered, in order. -/
  deliveries : List Delivery := []

/-- Handles a segment of a stream that was found or opened for it. -/
def Resolved.handle (r : Resolved) (d : Direction) (segment : Segment) (probe : Option LengthProbe)
    (swept : List TeardownReport) : Processed :=
  let m := r.session
  match m.table.get? r.stream with
  | none =>
    { session := m, report := .error (.unknownConnection segment.source segment.destination) }
  | some c =>
    let handled := c.handle m.registry m.config probe d segment
    let found := handled.report.classification.findings
    { session := { m with
        table := (m.table.change r.stream fun _ => handled.connection).touch r.stream segment.timestamp
        registry := handled.registry }
      report := .ok { handled.report with
        classification.findings := { found with reusedPorts := r.reused || found.reusedPorts }
        retired := swept ++ r.retired }
      deliveries := handled.pdus.map fun pdu => ⟨r.stream, d, pdu⟩ }

/-- Takes a segment: classifies it, updates its connection and, given a probe, cuts its payload into
PDUs. -/
def process (m : MappedSession) (segment : Segment) (probe : Option LengthProbe) : Processed :=
  let (m, swept) := m.sweepIdle segment.timestamp
  let (conversation, d) := Conversation.between segment.source segment.destination
  match m.resolve conversation d segment with
  | .error e => { session := m, report := .error e }
  | .ok r => r.handle d segment probe swept

/-- Gives up every live connection and reports on the session, which starts over. -/
def finish (m : MappedSession) : MappedSession × SessionReport :=
  let (table, live) := m.table.drain
  let (m, teardowns) := { m with table }.retireAll (fun _ => .sessionEnd) live
  (m.reset,
    { teardowns
      streams := m.retired.toList.mergeSort fun x y => decide (x.stream ≤ y.stream)
      metas := m.registry.summaries })

end MappedSession

end TcpCapture
