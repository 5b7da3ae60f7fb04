import TcpCapture.Connection.Table
import TcpCapture.Session.Handling

/-!
# Sessions

A session follows every TCP connection and multipath connection of a capture, one segment at a time
in the order of capture.

## Main definitions

* `Session` — the connections, live and retired
* `Session.process` — takes a segment
* `Session.finish` — gives everything up and reports
* `Session.summary?` — what is known of a stream, live or retired

**Sweeps come first.**  Processing a segment first expires idle connections, so these are gone even
when the segment itself is refused; the reports of their teardown then go nowhere.
-/

namespace TcpCapture

/-- One capture session. -/
structure Session where
  config : Config
  table : ConnectionTable
  registry : MetaRegistry := {}
  /-- Summaries of retired connections, in the order they retired. -/
  retired : Array StreamSummary := #[]
  lastSweep : Nat := 0
deriving DecidableEq

namespace Session

/-- A session that has seen nothing. -/
def new (config : Config) : Session := { config, table := { maxEntries := config.maxConnections } }

/-- Forgets everything but the settings. -/
def reset (s : Session) : Session := { config := s.config, table := s.table.clear }

/-- A SYN starts over between endpoints whose connection has ended, or whose sender picked another
first number after data was exchanged. -/
def isPortReuse (c : Connection) (d : Direction) (s : Segment) : Bool :=
  c.closed || c.bothFinished ||
    (c.flows.forward.counters.payloadBytes + c.flows.reverse.counters.payloadBytes != 0 &&
      (c.flow d).baseSeq.any (· != s.seq))

/-- Notes the summary of a connection that left the table.  One that had closed was torn down
then. -/
def retire (s : Session) (c : Connection) (reason : TeardownReason) :
    Session × Option TeardownReport :=
  let (c, report) :=
    if c.closed then (c, none) else let (c, report) := c.teardown reason; (c, some report)
  ({ s with retired := s.retired.push c.summary }, report)

/-- Retires several connections, each for its own reason. -/
def retireAll (s : Session) (reason : Connection → TeardownReason) :
    List Connection → Session × List TeardownReport
  | [] => (s, [])
  | c :: rest =>
    let (s, report) := s.retire c (reason c)
    let (s, reports) := s.retireAll reason rest
    (s, report.toList ++ reports)

/-- Retires idle connections, unless the last sweep was a short time ago. -/
def sweepIdle (s : Session) (now : Nat) : Session × List TeardownReport :=
  if now - s.lastSweep ≤ s.config.sweepInterval then (s, [])
  else
    let (table, expired) := s.table.expireIdle now s.config.idleTimeout
    { s with table, lastSweep := now }.retireAll (fun _ => .idle) expired

/-- The connection a segment belongs to. -/
structure Resolved where
  session : Session
  stream : Nat
  /-- A SYN reused the endpoints of an earlier connection. -/
  reused : Bool
  retired : List TeardownReport
deriving DecidableEq

/-- Opens a connection and retires those it pushes out. -/
def openStream (s : Session) (conversation : Conversation) (now : Nat) (reused : Bool) : Resolved :=
  let opening := s.table.openConnection conversation now
  let reason (c : Connection) : TeardownReason :=
    if c.conversation = conversation then .reused else .evicted
  let (session, retired) := { s with table := opening.table }.retireAll reason opening.retired
  { session, stream := opening.stream, reused, retired }

/-- Finds the connection a segment belongs to, or opens one. -/
def resolve (s : Session) (conversation : Conversation) (d : Direction) (segment : Segment) :
    Except CaptureError Resolved :=
  match s.table.find? conversation with
  | some c =>
    if segment.isOpening && isPortReuse c d segment then
      .ok (s.openStream conversation segment.timestamp true)
    else .ok { session := s, stream := c.stream, reused := false, retired := [] }
  | none =>
    if segment.isOpening || s.config.acceptMidstream then
      .ok (s.openStream conversation segment.timestamp false)
    else .error (.unknownConnection segment.source segment.destination)

/-- What processing a segment led to. -/
structure Processed where
  session : Session
  report : Except CaptureError SegmentReport
  /-- The PDUs delivered, in order. -/
  deliveries : List Delivery := []

/-- Handles a segment of a connection that was found or opened for it. -/
def Resolved.handle (r : Resolved) (d : Direction) (segment : Segment) (probe : Option LengthProbe)
    (swept : List TeardownReport) : Processed :=
  let s := r.session
  match s.table.get? r.stream with
  | none =>
    { session := s, report := .error (.unknownConnection segment.source segment.destination) }
  | some c =>
    let handled := c.handle s.registry s.config probe d segment
    let found := handled.report.classification.findings
    { session := { s with
        table := (s.table.put handled.connection).touch r.stream segment.timestamp
        registry := handled.registry }
      report := .ok { handled.report with
        classification.findings := { found with reusedPorts := r.reused || found.reusedPorts }
        retired := swept ++ r.retired }
      deliveries := handled.pdus.map fun pdu => ⟨r.stream, d, pdu⟩ }

/-- Takes a segment: classifies it, updates its connection and, given a probe, cuts its payload into
PDUs. -/
def process (s : Session) (segment : Segment) (probe : Option LengthProbe) : Processed :=
  let (s, swept) := s.sweepIdle segment.timestamp
  let (conversation, d) := Conversation.between segment.source segment.destination
  match s.resolve conversation d segment with
  | .error e => { session := s, report := .error e }
  | .ok r => r.handle d segment probe swept

/-- Gives up every live connection and reports on the session, which starts over. -/
def finish (s : Session) : Session × SessionReport :=
  let (table, live) := s.table.drain
  let (s, teardowns) := { s with table }.retireAll (fun _ => .sessionEnd) live
  (s.reset,
    { teardowns
      streams := s.retired.toList.mergeSort fun x y => decide (x.stream ≤ y.stream)
      metas := s.registry.summaries })

/-- The summary of a stream, live or retired. -/
def summary? (s : Session) (stream : Nat) : Option StreamSummary :=
  ((s.table.get? stream).map Connection.summary).or (s.retired.find? (·.stream == stream))

end Session

end TcpCapture
