import TcpCapture.Connection.Table
import Std.Data.HashMap

/-!
# Live connections in two maps

A table that finds a connection in constant time: one map leads from the conversation to the stream number
and another one from there to the connection.

## Main definitions

* `MappedTable` — the two maps, and the index of activity
* `MappedTable.openConnection`, `touch`, `expireIdle`, `remove`, `drain` — the operations of
  `ConnectionTable`, on the maps

**Two edits.**  Nothing ties the maps together but the operations: what enters or leaves one of them enters
or leaves the other one in the same operation.

**Stream numbers.**  As in `ConnectionTable`, fewer than `2 ^ 32` connections are opened.
-/

namespace TcpCapture

deriving instance Hashable for IpAddress, Endpoint, Conversation

/-- The live connections of a session, in maps. -/
structure MappedTable where
  maxEntries : Nat
  byConversation : Std.HashMap Conversation Nat := ∅
  byStream : Std.HashMap Nat Connection := ∅
  /-- Activity of the live connections, oldest first, and stale entries. -/
  activity : List Activity := []
  /-- Number of the next stream, below `2 ^ 32`. -/
  nextStream : Nat := 0

namespace MappedTable

/-- How many connections are live. -/
def size (m : MappedTable) : Nat := m.byStream.size

/-- Stream number of the live connection of a conversation. -/
def lookup (m : MappedTable) (conversation : Conversation) : Option Nat :=
  m.byConversation[conversation]?

/-- The live connection with a stream number. -/
def get? (m : MappedTable) (stream : Nat) : Option Connection := m.byStream[stream]?

/-- The live connections, in no particular order. -/
def live (m : MappedTable) : List Connection := m.byStream.toList.map (·.2)

/-- Changes the live connection with a stream number in place. -/
def change (m : MappedTable) (stream : Nat) (f : Connection → Connection) : MappedTable :=
  { m with byStream := m.byStream.modify stream f }

/-- Takes a connection out.  Its conversation is only forgotten if it leads to this stream. -/
def remove (m : MappedTable) (stream : Nat) : MappedTable × Option Connection :=
  match m.get? stream with
  | none => (m, none)
  | some c =>
    ({ m with
      byStream := m.byStream.erase stream
      activity := m.activity.filter (· != ⟨c.tsPrev, stream⟩)
      byConversation :=
        if m.lookup c.conversation = some stream then m.byConversation.erase c.conversation
        else m.byConversation }, some c)

/-- Takes out the connection with the oldest entry of the activity index. -/
def evictOldest (m : MappedTable) : MappedTable × Option Connection :=
  match m.activity with
  | [] => (m, none)
  | oldest :: _ => m.remove oldest.stream

/-- Takes the connection of a conversation out of the maps.  The activity index keeps its entry. -/
def vacate (m : MappedTable) (conversation : Conversation) : MappedTable × Option Connection :=
  match m.lookup conversation with
  | none => (m, none)
  | some stream =>
    ({ m with
      byConversation := m.byConversation.erase conversation
      byStream := m.byStream.erase stream }, m.get? stream)

/-- A full table evicts the connection with the oldest entry of its index. -/
def makeRoom (m : MappedTable) : MappedTable × Option Connection :=
  if m.maxEntries ≤ m.size then m.evictOldest else (m, none)

/-- The table with a connection that opens now. -/
def addNew (m : MappedTable) (conversation : Conversation) (now : Nat) : MappedTable :=
  { m with
    byConversation := m.byConversation.insert conversation m.nextStream
    byStream := m.byStream.insert m.nextStream (.start m.nextStream conversation now)
    activity := Activity.insertSorted ⟨now, m.nextStream⟩ m.activity
    nextStream := m.nextStream + 1 }

/-- A connection on its way in, and the ones it pushed out. -/
structure Opening where
  table : MappedTable
  stream : Nat
  retired : List Connection

/-- Starts a connection.  It pushes out an earlier one of the same conversation, and, if the table
is full even then, the one active longest ago. -/
def openConnection (m : MappedTable) (conversation : Conversation) (now : Nat) : Opening :=
  let (vacated, earlier) := m.vacate conversation
  let (room, evicted) := vacated.makeRoom
  { table := room.addNew conversation now
    stream := room.nextStream
    retired := earlier.toList ++ evicted.toList }

/-- Notes activity of a stream. -/
def touch (m : MappedTable) (stream now : Nat) : MappedTable :=
  match m.get? stream with
  | none => m
  | some c =>
    { m.change stream fun c => { c with tsPrev := now } with
      activity :=
        Activity.insertSorted ⟨now, stream⟩ (m.activity.filter (· != ⟨c.tsPrev, stream⟩)) }

/-- Takes out the connections of some streams, in the order given. -/
def removeAll (m : MappedTable) : List Nat → MappedTable × List Connection
  | [] => (m, [])
  | stream :: rest =>
    let (m, c) := m.remove stream
    let (m, others) := m.removeAll rest
    (m, c.toList ++ others)

/-- Streams of the entries at the front of the activity index that have expired, by number. -/
def expiredStreams (m : MappedTable) (now ttl : Nat) : List Nat :=
  ((m.activity.takeWhile fun a => isExpired now a.time ttl).map (·.stream)).mergeSort
    fun x y => decide (x ≤ y)

/-- Takes out the connections idle for longer than `ttl`, by stream number. -/
def expireIdle (m : MappedTable) (now ttl : Nat) : MappedTable × List Connection :=
  m.removeAll (m.expiredStreams now ttl)

/-- Takes every connection out, by stream number.  The numbering goes on. -/
def drain (m : MappedTable) : MappedTable × List Connection :=
  ({ m with byConversation := ∅, byStream := ∅, activity := [] },
    m.live.mergeSort fun c d => decide (c.stream ≤ d.stream))

/-- Forgets everything, the numbering included. -/
def clear (m : MappedTable) : MappedTable := { maxEntries := m.maxEntries }

end MappedTable

end TcpCapture
