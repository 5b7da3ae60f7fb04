import TcpCapture.Session.Config
import TcpCapture.Session.Report

/-!
# Handling a segment

What one segment does to the connection it belongs to.

## Main definitions

* `Connection.teardown` — gives up what is still held
* `Connection.reassemble` — takes payload in order and cuts PDUs
* `Connection.closeDirection`, `Connection.endWith` — the effects of FIN and RST
* `Connection.handle` — all of it, in order

**Dissection.**  PDUs are only cut when a length probe is given.  Payload of keep-alives and window
probes is no data and is never passed on.
-/

namespace TcpCapture

namespace Connection

/-- A connection after a step, and the PDUs the step delivered. -/
structure Dissected where
  connection : Connection
  pdus : List Pdu := []
  error : Option CaptureError := none
  /-- Deliveries counted on the way. -/
  delivered : Nat := 0
deriving DecidableEq

/-- Gives up what a direction still holds. -/
def abandonFlow (f : Flow) : Flow :=
  { f with reorder := f.reorder.clear, assembler := f.assembler.discard }

/-- Gives up what the connection still holds.  Nothing is delivered. -/
def teardown (c : Connection) (reason : TeardownReason) : Connection × TeardownReport :=
  let { forward, reverse } := c.flows
  let drained := c.link.map SubflowLink.takePending
  ({ c with
      flows := ⟨abandonFlow forward, abandonFlow reverse⟩
      link := drained.map Prod.fst },
    { stream := c.stream
      reason
      discardedPdus := forward.assembler.openPdus + reverse.assembler.openPdus
      droppedBytes := forward.reorder.heldBytes + reverse.reorder.heldBytes
      unattributed := (drained.map Prod.snd).getD [] })

/-- Gives up the hole in front of the held chunks.  The PDU open before it can never be whole. -/
def skipGap (f : Flow) : Flow × List Chunk :=
  let f := { f with assembler := f.assembler.discard }
  match f.reorder.skipGap? with
  | none => (f, [])
  | some skip => ({ f with reorder := skip.buffer }, skip.chunks)

/-- Takes payload and yields what is in order by now.  Where more than `limit` bytes are held, the
hole in front of them is given up. -/
def reorder (f : Flow) (chunk : Chunk) (limit : Nat) : Flow × List Chunk :=
  let (buffer, event) := f.reorder.push chunk
  let f := { f with reorder := buffer }
  match event with
  | .inOrder chunks => (f, chunks)
  | .duplicate _ => (f, [])
  | .gap .. => if buffer.heldBytes ≤ limit then (f, []) else skipGap f

/-- Takes the payload of a segment and delivers the PDUs it completes. -/
def reassemble (c : Connection) (config : Config) (probe : LengthProbe) (p : Passage) : Dissected :=
  let s := p.segment
  let (f, chunks) :=
    reorder (c.flow p.direction) ⟨p.relSeq, s.frame, s.timestamp, s.payload⟩ config.maxReorderBytes
  let fed := f.assembler.feedAll config.framing probe chunks
  { connection := c.setFlow p.direction { f with assembler := fed.assembler }
    pdus := fed.pdus
    error := fed.error
    delivered := fed.delivered }

/-- Ends a direction with a FIN in `frame`.  Only with `dissecting` is the open PDU closed. -/
def closeDirection (c : Connection) (d : Direction) (frame : Nat) (dissecting : Bool) : Dissected :=
  let f := c.flow d
  let f := { f with finFrame := f.finFrame.or (some frame) }
  if dissecting then
    let closing := f.assembler.close frame
    { connection := c.setFlow d { f with assembler := closing.assembler }
      pdus := closing.pdu.toList
      delivered := closing.delivered }
  else { connection := c.setFlow d f }

/-- A reset, or the end of the second direction, ends the connection, once.  It stays live, so that
late segments find it. -/
def endWith (c : Connection) (s : Segment) : Connection × Option TeardownReport :=
  if c.closed || !(s.flags.rst || c.bothFinished) then (c, none)
  else
    let reason := if s.flags.rst then TeardownReason.reset else .closed
    let (c, report) := { c with closed := true }.teardown reason
    (c, some report)

/-- Cuts PDUs out of the payload of a segment, if it is data and there is a probe. -/
def dissect (c : Connection) (config : Config) (probe : Option LengthProbe) (p : Passage)
    (f : Findings) : Dissected :=
  match probe with
  | none => { connection := c }
  | some probe =>
    if p.segment.payload.isEmpty || f.isProbing then { connection := c }
    else c.reassemble config probe p

/-- What handling a segment led to. -/
structure Handled where
  connection : Connection
  registry : MetaRegistry
  report : SegmentReport
  pdus : List Pdu
deriving DecidableEq

/-- What a segment does to the handshake and to relative numbering. -/
def noteOpening (c : Connection) (d : Direction) (s : Segment) : Connection :=
  let c := (c.noteHandshake d s).negotiateWindowScale d s
  let f := (c.flow d).setBase s.seq s.flags.syn
  c.setFlow d (if s.flags.syn then { f with reorder := f.reorder.sync 1 } else f)

/-- Classifies a segment, or only follows it, and counts it. -/
def judge (c : Connection) (config : Config) (d : Direction) (s : Segment) :
    Connection × Classification :=
  let sender := c.flow d
  let peer := c.flow d.opposite
  let result :=
    if config.analyzeSequence then
      classify sender peer s (config.thresholds.withRtt c.firstRtt)
    else track sender peer s
  let sender :=
    { result.sender with
      counters :=
        result.sender.counters.record s.payloadLen result.classification.findings }
  (c.setFlows d sender result.peer, result.classification)

/-- The record of a segment. -/
def recordOf (c : Connection) (d : Direction) (s : Segment) (classification : Classification) :
    SegmentRecord :=
  let sender := c.flow d
  let peer := c.flow d.opposite
  let seq := sender.relative s.seq
  { frame := s.frame
    direction := d
    timestamp := s.timestamp
    seq
    nextSeq := advance seq s.sequenceLen
    ack := if s.flags.ack then some (peer.relative s.ack) else none
    len := s.payloadLen
    window := sender.window.getD (BitVec.ofNat 32 s.window.toNat)
    flags := s.flags
    sack := s.sack.map fun block => ⟨peer.relative block.left, peer.relative block.right⟩
    findings := classification.findings
    segmentClass := classification.segmentClass }

/-- Handles a segment of the connection: handshake, classification, multipath, payload, end. -/
def handle (c : Connection) (registry : MetaRegistry) (config : Config) (probe : Option LengthProbe)
    (d : Direction) (s : Segment) : Handled :=
  let (c, classification) := (c.noteOpening d s).judge config d s
  let record := c.recordOf d s classification
  let p : Passage := { stream := c.stream, direction := d, segment := s, relSeq := record.seq }
  let seen : Correlated :=
    if config.multipath then correlate registry c.link p else { registry, link := c.link }
  let c := { c with link := seen.link }
  let data := c.dissect config probe p classification.findings
  let closing :=
    if s.flags.fin then data.connection.closeDirection d s.frame probe.isSome
    else { connection := data.connection }
  let (c, teardown) := closing.connection.endWith s
  let c := if config.recordHistory then { c with history := c.history.push record } else c
  { connection := c
    registry := seen.registry
    pdus := data.pdus ++ closing.pdus
    report := {
      stream := c.stream
      direction := d
      frame := s.frame
      seq := record.seq
      nextSeq := record.nextSeq
      ack := record.ack
      len := record.len
      classification
      -- the PDUs that came before an error are not counted
      pdusDelivered := (if data.error.isSome then 0 else data.delivered) + closing.delivered
      pduError := data.error
      multipath := seen.analysis
      teardown } }

end Connection

end TcpCapture
