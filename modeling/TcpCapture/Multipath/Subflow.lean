import TcpCapture.Conversation
import TcpCapture.Multipath.Connection
import TcpCapture.Multipath.Mapping

/-!
# Subflows

The multipath half of a TCP connection: which multipath connection it belongs to, in which role, and
the mappings announced in each of its directions.
-/

namespace TcpCapture

/-- How a TCP connection takes part in a multipath connection. -/
structure SubflowLink where
  /-- Number of the multipath connection; an orphan has none. -/
  metaId : Option Nat := none
  /-- Key offered in the SYN. -/
  synKey : Option (BitVec 64) := none
  /-- Direction in which the client of the multipath connection sends. -/
  clientDirection : Direction
  /-- It joined a connection that was open already. -/
  joined : Bool := false
  addressId : Option UInt8 := none
  backup : Bool := false
  /-- Frame that fell back to an infinite mapping. -/
  fallbackFrame : Option Nat := none
  mappings : Duplex SubflowMappings := .both {}
deriving DecidableEq

namespace SubflowLink

/-- The first subflow of a connection, as its SYN offers it. -/
def initial (clientDirection : Direction) (synKey : Option (BitVec 64)) : SubflowLink :=
  { clientDirection, synKey, addressId := some 0 }

/-- A subflow that joins a connection, or one that is not known. -/
def join (metaId : Option Nat) (clientDirection : Direction) (option : MpJoin) : SubflowLink :=
  { metaId, clientDirection, joined := true, addressId := some option.addressId,
    backup := option.backup }

/-- Multipath data without a handshake. -/
def orphan (clientDirection : Direction) : SubflowLink := { clientDirection }

/-- It belongs to no connection. -/
def isOrphan (l : SubflowLink) : Bool := l.metaId.isNone

/-- The side of the multipath connection that sends in a direction. -/
def side (l : SubflowLink) (d : Direction) : MetaSide :=
  if d = l.clientDirection then .client else .server

/-- Replaces the mappings of a direction. -/
def setMappings (l : SubflowLink) (d : Direction) (m : SubflowMappings) : SubflowLink :=
  { l with mappings := l.mappings.set d m }

/-- Gives up the pending bytes of both directions. -/
def takePending (l : SubflowLink) : SubflowLink × List (Direction × PendingSpan) :=
  let (forward, lostForward) := l.mappings.forward.takePending
  let (reverse, lostReverse) := l.mappings.reverse.takePending
  ({ l with mappings := ⟨forward, reverse⟩ },
    lostForward.map (Direction.forward, ·) ++ lostReverse.map (Direction.reverse, ·))

end SubflowLink

end TcpCapture
