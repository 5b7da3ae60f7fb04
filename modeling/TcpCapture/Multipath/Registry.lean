import TcpCapture.Multipath.Connection

/-!
# The multipath connections of a session

Multipath connections are numbered in the order they open; an index of their tokens attaches joining
subflows to them.  As with streams, fewer than `2 ^ 32` of them are opened.
-/

namespace TcpCapture

/-- Multipath connections by number, and the index of their tokens. -/
structure MetaRegistry where
  connections : List MetaConnection := []
  tokens : TokenIndex := {}
deriving DecidableEq

namespace MetaRegistry

/-- How many connections were opened. -/
def size (r : MetaRegistry) : Nat := r.connections.length

/-- No connection was opened. -/
def isEmpty (r : MetaRegistry) : Bool := r.connections.isEmpty

/-- The connection with a number. -/
def get? (r : MetaRegistry) (id : Nat) : Option MetaConnection := r.connections[id]?

/-- Changes a connection. -/
def modify (r : MetaRegistry) (id : Nat) (f : MetaConnection → MetaConnection) : MetaRegistry :=
  { r with connections := r.connections.modify id f }

/-- Number of the connection that owns a token. -/
def lookupToken (r : MetaRegistry) (token : Token) : Option Nat := r.tokens.get? token

/-- Opens a connection on the server's answer and indexes its tokens.  Yields its number. -/
def openConnection (r : MetaRegistry) (clientKey : Option (BitVec 64)) (answer : MpCapable) :
    MetaRegistry × Nat :=
  let id := r.size
  let m := (MetaConnection.ofAnswer id clientKey answer).selectAlgorithm answer
  ({ connections := r.connections ++ [m]
     tokens := m.tokens.foldl (fun index token => index.register token id) r.tokens }, id)

@[simp] theorem get?_openConnection (r : MetaRegistry) (clientKey : Option (BitVec 64))
    (answer : MpCapable) :
    (r.openConnection clientKey answer).1.get? r.size =
      some ((MetaConnection.ofAnswer r.size clientKey answer).selectAlgorithm answer) := by
  simp [openConnection, get?, size]

end MetaRegistry

end TcpCapture
