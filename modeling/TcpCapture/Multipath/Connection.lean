import TcpCapture.Interval.Tree
import TcpCapture.Multipath.Option
import TcpCapture.Multipath.Token

/-!
# Multipath connections

A multipath connection spans one or more subflows and numbers its data by itself, in each direction.

## Main definitions

* `HandshakeState` — how far the multipath handshake got
* `MetaFlow` — the data sequence space of one side
* `MetaConnection` — both sides, the verdict on the handshake, and the subflows

**Positions.**  Data sequence numbers are stored absolute.  The spans recorded for a side are keyed
by the distance from its first number, so that their ranges do not wrap.
-/

namespace TcpCapture

/-- How far the multipath handshake got.  `ok` and `incorrect` are final. -/
inductive HandshakeState where
  | sawServerAnswer
  | noAlgorithm
  | pending
  | incorrect
  | ok
deriving DecidableEq, Repr

namespace HandshakeState

/-- A final verdict. -/
def isTerminal : HandshakeState → Bool
  | ok | incorrect => true
  | _ => false

/-- The name of a state in reports. -/
def text : HandshakeState → String
  | sawServerAnswer => "saw-server-answer"
  | noAlgorithm => "no-algo-selected"
  | pending => "pending"
  | incorrect => "incorrect"
  | ok => "ok"

end HandshakeState

/-- Which end of a multipath connection sends. -/
inductive MetaSide where
  | client
  | server
deriving DecidableEq, Repr

namespace MetaSide

/-- The other end. -/
def opposite : MetaSide → MetaSide
  | client => server
  | server => client

/-- Position of the side in lists that hold the client first. -/
def index : MetaSide → Nat
  | client => 0
  | server => 1

end MetaSide

/-- Where a stretch of data was mapped: the subflow, the frame, and the relative subflow position of
the first byte. -/
structure DsnSpan where
  stream : Nat
  frame : Nat
  ssn : Seq
deriving DecidableEq, Repr

/-- The data sequence space of one side. -/
structure MetaFlow where
  key : Option (BitVec 64) := none
  token : Option Token := none
  baseDsn : Option DataSeq := none
  /-- The number after everything mapped so far. -/
  nextDsn : Option DataSeq := none
  maxDsnAcked : Option DataSeq := none
  dataFinFrame : Option Nat := none
  /-- Mappings of data that another subflow had mapped. -/
  reinjections : Nat := 0
  spans : IntervalTree 64 DsnSpan := .nil
deriving DecidableEq

namespace MetaFlow

/-- A side whose key is known. -/
def ofKey (key : BitVec 64) : MetaFlow :=
  { key := some key, token := some (keyToken key), baseDsn := some (keyInitialDsn key) }

/-- A data sequence number counted from the first one. -/
def relative (f : MetaFlow) (dsn : DataSeq) : DataSeq := dsn - f.baseDsn.getD 0

/-- The shorter way round between two numbers. -/
def circularDistance (x y : DataSeq) : Nat := min (x - y).toNat (y - x).toNat

/-- Of the numbers with a given low half, the one nearest to `anchor`; on a tie the lower turn. -/
def nearest (anchor : DataSeq) (low : BitVec 32) : DataSeq :=
  let turn : DataSeq := 0x100000000
  let candidate : DataSeq := (anchor.extractLsb' 32 32) ++ low
  let closer (x y : DataSeq) : DataSeq :=
    if circularDistance y anchor < circularDistance x anchor then y else x
  closer (closer (candidate - turn) candidate) (candidate + turn)

/-- A number as it stands on the wire, widened to the one nearest to where the side has got. -/
def expand (f : MetaFlow) : WireDataSeq → DataSeq
  | .wide dsn => dsn
  | .short low =>
    match f.nextDsn.or f.baseDsn with
    | none => low.setWidth 64
    | some anchor => nearest anchor low

/-- Records that a subflow mapped `len` data bytes from `dsn` on, and finds the spans of other
subflows that had mapped some of them.  A subflow that repeats itself is not recorded again. -/
def recordMapping? (f : MetaFlow) (dsn : DataSeq) (len : Nat) (span : DsnSpan) :
    Except CaptureError (MetaFlow × List DsnSpan) := do
  let range ← Range.ofLength (f.relative dsn) len
  let earlier := (f.spans.findAll range).map Prod.snd
  let elsewhere := earlier.filter (·.stream != span.stream)
  let repeated := earlier.any (·.stream == span.stream)
  let stop := advance dsn len
  return ({ f with
    reinjections := f.reinjections + (!elsewhere.isEmpty).toNat
    spans := if repeated then f.spans else f.spans.insert range span
    nextDsn := if f.nextDsn.all (after stop) then some stop else f.nextDsn }, elsewhere)

/-- Notes a data acknowledgment. -/
def acknowledge (f : MetaFlow) (dataAck : DataSeq) : MetaFlow :=
  { f with maxDsnAcked := if f.maxDsnAcked.all (after dataAck) then some dataAck else f.maxDsnAcked }

/-- Where the data byte at `dsn` was mapped. -/
def spanAt? (f : MetaFlow) (dsn : DataSeq) : Option (Range 64 × DsnSpan) :=
  f.spans.findPoint? (f.relative dsn)

/-- How many spans are recorded. -/
def mappedSpans (f : MetaFlow) : Nat := f.spans.size

end MetaFlow

/-- A multipath connection. -/
structure MetaConnection where
  metaId : Nat
  state : HandshakeState := .sawServerAnswer
  hmac : Option HmacAlgorithm := none
  checksumRequired : Bool := false
  client : MetaFlow := {}
  server : MetaFlow := {}
  /-- Streams of the subflows, in the order they were attached. -/
  subflows : List Nat := []
  failFrame : Option Nat := none
  fastcloseFrame : Option Nat := none
deriving DecidableEq

namespace MetaConnection

/-- A connection as the server's answer opens it. -/
def ofAnswer (metaId : Nat) (clientKey : Option (BitVec 64)) (answer : MpCapable) :
    MetaConnection where
  metaId
  checksumRequired := answer.checksumRequired
  client := (clientKey.map MetaFlow.ofKey).getD {}
  server := (answer.senderKey.map MetaFlow.ofKey).getD {}

/-- The data sequence space of a side. -/
def flow (m : MetaConnection) : MetaSide → MetaFlow
  | .client => m.client
  | .server => m.server

/-- Replaces the data sequence space of a side. -/
def setFlow (m : MetaConnection) : MetaSide → MetaFlow → MetaConnection
  | .client, f => { m with client := f }
  | .server, f => { m with server := f }

/-- Changes the data sequence space of a side. -/
def modifyFlow (m : MetaConnection) (side : MetaSide) (change : MetaFlow → MetaFlow) :
    MetaConnection := m.setFlow side (change (m.flow side))

/-- The tokens of both sides, the client's first. -/
def tokens (m : MetaConnection) : List Token := [m.client.token, m.server.token].filterMap id

/-- The side that owns a token; the client's comes first. -/
def sideOfToken? (m : MetaConnection) (token : Token) : Option MetaSide :=
  [MetaSide.client, .server].find? fun side => (m.flow side).token == some token

/-- Takes over the algorithm the server's answer selected. -/
def selectAlgorithm (m : MetaConnection) (answer : MpCapable) : MetaConnection :=
  if m.state = .sawServerAnswer then
    { m with
      hmac := answer.hmac
      state := if answer.hmac.isSome then .pending else .noAlgorithm }
  else m

/-- The echo repeats both keys as they were exchanged. -/
def echoMatches (m : MetaConnection) (echo : MpCapable) : Bool :=
  echo.senderKey.isSome && echo.senderKey == m.client.key && echo.receiverKey.isSome &&
    echo.receiverKey == m.server.key

/-- The last step of the handshake: both keys must come back as they were exchanged. -/
def confirm (m : MetaConnection) (echo : MpCapable) : MetaConnection :=
  match m.state with
  | .noAlgorithm => { m with state := .incorrect }
  | .pending => { m with state := if m.echoMatches echo then .ok else .incorrect }
  | .sawServerAnswer | .incorrect | .ok => m

/-- A failure was signalled, or a checksum was wrong.  The frame is noted even when the verdict is
final. -/
def fail (m : MetaConnection) (frame : Nat) : MetaConnection :=
  { m with
    failFrame := m.failFrame.or (some frame)
    state := if m.state.isTerminal then m.state else .incorrect }

/-- Notes a fast close. -/
def fastClose (m : MetaConnection) (frame : Nat) : MetaConnection :=
  { m with fastcloseFrame := m.fastcloseFrame.or (some frame) }

/-- Attaches a subflow, once. -/
def addSubflow (m : MetaConnection) (stream : Nat) : MetaConnection :=
  if m.subflows.contains stream then m else { m with subflows := m.subflows ++ [stream] }

@[simp] theorem flow_setFlow_same (m : MetaConnection) (side : MetaSide) (f : MetaFlow) :
    (m.setFlow side f).flow side = f := by
  cases side <;> rfl

@[simp] theorem flow_setFlow_opposite (m : MetaConnection) (side : MetaSide) (f : MetaFlow) :
    (m.setFlow side f).flow side.opposite = m.flow side.opposite := by
  cases side <;> rfl

end MetaConnection

end TcpCapture
