import TcpCapture.Multipath.Registry
import TcpCapture.Multipath.Subflow
import TcpCapture.Segment.Basic

/-!
# Correlating subflows

Each segment of a TCP connection may open, join, confirm or fail a multipath connection, and carries
data that belongs somewhere in its data sequence space.

## Main definitions

* `Passage` — a segment on its way through a connection
* `Correlation.handshake` — what the segment does to the link and the registry
* `Correlation.signal` — what a DSS option does
* `correlate` — both, and where the payload belongs

**Plain TCP.**  A connection without a link is plain TCP.  The first SYN with a multipath option
gives it a link; an answer that declines takes the link away.  DSS options on a plain connection make
it an orphan.
-/

namespace TcpCapture

/-- Multipath view of one segment. -/
structure MultipathAnalysis where
  metaId : Option Nat := none
  /-- `incorrect` for orphans with data sequence options. -/
  state : Option HandshakeState := none
  /-- The payload, placed in the data sequence space. -/
  attributed : List AttributedSpan := []
  /-- Earlier payload that mappings in this segment placed. -/
  resolved : List AttributedSpan := []
  /-- Spans of other subflows that had carried the mapped data. -/
  reinjectionOf : List DsnSpan := []
  /-- Data acknowledgment, relative to the peer's first number. -/
  dataAck : Option DataSeq := none
  dataFin : Bool := false
  orphan : Bool := false
deriving DecidableEq

/-- A segment on its way through a connection. -/
structure Passage where
  stream : Nat
  direction : Direction
  segment : Segment
  /-- Sequence number of the segment, relative to its flow. -/
  relSeq : Seq
deriving DecidableEq

namespace Passage

/-- The first MP_CAPABLE option. -/
def capable? (p : Passage) : Option MpCapable :=
  p.segment.multipath.findSome? fun
    | .capable option => some option
    | _ => none

/-- The first MP_JOIN option. -/
def join? (p : Passage) : Option MpJoin :=
  p.segment.multipath.findSome? fun
    | .join option => some option
    | _ => none

/-- The segment carries a DSS option. -/
def hasSignal (p : Passage) : Bool :=
  p.segment.multipath.any fun
    | .dss _ => true
    | _ => false

end Passage

/-- What correlating a segment led to. -/
structure Correlated where
  registry : MetaRegistry
  link : Option SubflowLink
  analysis : Option MultipathAnalysis := none
deriving DecidableEq

namespace Correlation

/-! ### Handshake -/

/-- A subflow that joins: the token names the side it talks to, so its own sender is the other one.
A token that names no connection makes it an orphan. -/
def joinBy (r : MetaRegistry) (p : Passage) (option : MpJoin) : MetaRegistry × SubflowLink :=
  let found : Option (Nat × MetaSide) := do
    let token ← option.token
    let metaId ← r.lookupToken token
    let m ← r.get? metaId
    let receiver ← m.sideOfToken? token
    return (metaId, receiver)
  match found with
  | some (metaId, receiver) =>
    let clientDirection :=
      match receiver with
      | .server => p.direction
      | .client => p.direction.opposite
    (r.modify metaId (·.addSubflow p.stream), .join (some metaId) clientDirection option)
  | none => (r, .join none p.direction option)

/-- A SYN: the first one settles how the connection takes part. -/
def opening (r : MetaRegistry) (link : Option SubflowLink) (p : Passage) :
    MetaRegistry × Option SubflowLink :=
  match link, p.capable?, p.join? with
  | some link, _, _ => (r, some link)
  | none, some option, _ => (r, some (.initial p.direction option.senderKey))
  | none, none, some option => let (r, link) := joinBy r p option; (r, some link)
  | none, none, none => (r, none)

/-- An answer to a SYN: it opens the multipath connection of a first subflow, or declines it. -/
def answer (r : MetaRegistry) (link : Option SubflowLink) (p : Passage) :
    MetaRegistry × Option SubflowLink :=
  match link with
  | none => (r, none)
  | some link =>
    if link.joined || link.metaId.isSome then (r, some link)
    else
      match p.capable? with
      | none => (r, none)
      | some option =>
        let (r, metaId) := r.openConnection link.synKey option
        (r.modify metaId (·.addSubflow p.stream), some { link with metaId := some metaId })

/-- The last step of the handshake: an MP_CAPABLE with both keys on the first subflow. -/
def confirmation (r : MetaRegistry) (link : Option SubflowLink) (p : Passage) : MetaRegistry :=
  match link, p.capable? with
  | some link, some echo =>
    match link.metaId with
    | some metaId =>
      if echo.receiverKey.isSome && !link.joined then r.modify metaId (·.confirm echo) else r
    | none => r
  | _, _ => r

/-- What the handshake in a segment does. -/
def handshake (r : MetaRegistry) (link : Option SubflowLink) (p : Passage) :
    MetaRegistry × Option SubflowLink :=
  match p.segment.flags.syn, p.segment.flags.ack with
  | true, false => opening r link p
  | true, true => answer r link p
  | false, true => (confirmation r link p, link)
  | false, false => (r, link)

/-! ### Data -/

/-- What the options of a segment act on. -/
structure State where
  link : SubflowLink
  connection : MetaConnection
  analysis : MultipathAnalysis
deriving DecidableEq

/-- A mapping.  The subflow's mappings and the data sequence space each take it if they can; a wrong
checksum fails the connection. -/
def applyMapping (p : Passage) (s : State) (mapping : DssMapping) : State :=
  let frame := p.segment.frame
  let side := s.link.side p.direction
  let flow := s.connection.flow side
  let mappings := s.link.mappings.get p.direction
  let dsn := flow.expand mapping.dsn
  let len := mapping.length.toNat
  let s :=
    if len = 0 then
      let (mappings, resolved) := mappings.setInfinite mapping.ssn dsn frame
      { s with
        link := { s.link.setMappings p.direction mappings with
          fallbackFrame := s.link.fallbackFrame.or (some frame) }
        analysis.resolved := s.analysis.resolved ++ resolved }
    else
      let s :=
        match mappings.insert? mapping.ssn len dsn frame with
        | .error _ => s
        | .ok (mappings, resolved) =>
          { s with
            link := s.link.setMappings p.direction mappings
            analysis.resolved := s.analysis.resolved ++ resolved }
      match flow.recordMapping? dsn len ⟨p.stream, frame, mapping.ssn⟩ with
      | .error _ => s
      | .ok (flow, earlier) =>
        { s with
          connection := s.connection.setFlow side flow
          analysis.reinjectionOf := s.analysis.reinjectionOf ++ earlier }
  if mapping.checksumValid = some false then { s with connection := s.connection.fail frame } else s

/-- A data acknowledgment, which counts in the numbers of the peer. -/
def applyDataAck (p : Passage) (s : State) (dataAck : WireDataSeq) : State :=
  let side := (s.link.side p.direction).opposite
  let peer := s.connection.flow side
  let value := peer.expand dataAck
  { s with
    connection := s.connection.setFlow side (peer.acknowledge value)
    analysis.dataAck := some (peer.relative value) }

/-- The end of the data of a side. -/
def applyDataFin (p : Passage) (s : State) : State :=
  { s with
    connection := s.connection.modifyFlow (s.link.side p.direction) fun flow =>
      { flow with dataFinFrame := flow.dataFinFrame.or (some p.segment.frame) }
    analysis.dataFin := true }

/-- A DSS option: its mapping, then its acknowledgment, then its end mark. -/
def signal (p : Passage) (s : State) (dss : Dss) : State :=
  let s := dss.mapping.elim s (applyMapping p s)
  let s := dss.dataAck.elim s (applyDataAck p s)
  if dss.dataFin then applyDataFin p s else s

/-- What one option does once the connection is known. -/
def applyOption (p : Passage) (s : State) : MultipathOption → State
  | .dss dss => signal p s dss
  | .fail _ => { s with connection := s.connection.fail p.segment.frame }
  | .fastClose _ => { s with connection := s.connection.fastClose p.segment.frame }
  | .priority backup _ => { s with link.backup := backup }
  | .capable _ | .join _ | .addAddress .. | .removeAddress _ => s

/-- Places the payload of the segment. -/
def placePayload (p : Passage) (s : State) : State :=
  if p.segment.payload.isEmpty then s
  else
    let (mappings, attributed) :=
      (s.link.mappings.get p.direction).place p.relSeq p.segment.payloadLen p.segment.frame
    { s with link := s.link.setMappings p.direction mappings, analysis.attributed := attributed }

/-- Everything a segment says about a known connection. -/
def applySegment (p : Passage) (s : State) : State :=
  let s := placePayload p (p.segment.multipath.foldl (applyOption p) s)
  { s with analysis.state := some s.connection.state }

end Correlation

open Correlation in
/-- Correlates a segment with the multipath connection of its subflow.  Segments of plain TCP have
no analysis. -/
def correlate (r : MetaRegistry) (link : Option SubflowLink) (p : Passage) : Correlated :=
  let (r, link) := handshake r link p
  let link := link.or (if p.hasSignal then some (.orphan p.direction) else none)
  match link with
  | none => { registry := r, link := none }
  | some link =>
    let analysis : MultipathAnalysis := { metaId := link.metaId, orphan := link.isOrphan }
    match link.metaId with
    | none =>
      let state := if p.hasSignal then some .incorrect else none
      { registry := r, link := some link, analysis := some { analysis with state } }
    | some metaId =>
      match r.get? metaId with
      | none => { registry := r, link := some link, analysis := some analysis }
      | some connection =>
        let s := applySegment p { link, connection, analysis }
        { registry := r.modify metaId fun _ => s.connection
          link := some s.link
          analysis := some s.analysis }

end TcpCapture
