import TcpCapture.Connection.Basic

/-!
# The table of live connections

Live connections are found by conversation or by stream number.  When the table is full the one
that was active longest ago is evicted; connections idle for too long expire.

## Main definitions

* `ConnectionTable` — the live connections, and an index of their activity
* `openConnection` — starts a connection and pushes out what stands in its way
* `touch`, `expireIdle`, `remove`, `drain` — activity and departure

**Stale activity.**  A connection that gives way to a new one of the same conversation leaves its
entry in the activity index.  Such an entry may later be the oldest one; evicting it removes no
connection, and the table then grows past its limit.

**Stream numbers.**  Streams are numbered in 32 bits.  Here the numbers do not wrap: fewer than `2 ^ 32`
connections are opened, and no number is handed out twice.
-/

namespace TcpCapture

/-- When a stream was last active. -/
structure Activity where
  time : Nat
  stream : Nat
deriving DecidableEq, Repr

/-- Earlier activity first; of equal times the lower stream. -/
def Activity.before (x y : Activity) : Bool :=
  decide (x.time < y.time) || (x.time == y.time && decide (x.stream < y.stream))

/-- Puts an entry into an ordered index, once. -/
def Activity.insertSorted (x : Activity) : List Activity → List Activity
  | [] => [x]
  | y :: rest =>
    if x.before y then x :: y :: rest
    else if x = y then y :: rest
    else y :: insertSorted x rest

/-- The live connections of a session. -/
structure ConnectionTable where
  maxEntries : Nat
  /-- Live connections, in the order they opened and so by stream number. -/
  live : List Connection := []
  /-- Activity of the live connections, oldest first, and stale entries. -/
  activity : List Activity := []
  /-- Number of the next stream, below `2 ^ 32`. -/
  nextStream : Nat := 0
deriving DecidableEq

namespace ConnectionTable

/-- How many connections are live. -/
def size (t : ConnectionTable) : Nat := t.live.length

/-- No connection is live. -/
def isEmpty (t : ConnectionTable) : Bool := t.live.isEmpty

/-- The live connection with a stream number. -/
def get? (t : ConnectionTable) (stream : Nat) : Option Connection :=
  t.live.find? (·.stream == stream)

/-- The live connection of a conversation. -/
def find? (t : ConnectionTable) (conversation : Conversation) : Option Connection :=
  t.live.find? (·.conversation == conversation)

/-- Stream number of the live connection of a conversation. -/
def lookup (t : ConnectionTable) (conversation : Conversation) : Option Nat :=
  (t.find? conversation).map (·.stream)

/-- Replaces the live connection with the same stream number.  Activity is only moved by `touch`. -/
def put (t : ConnectionTable) (c : Connection) : ConnectionTable :=
  { t with live := t.live.map fun d => if d.stream = c.stream then c else d }

/-- Takes a connection out. -/
def remove (t : ConnectionTable) (stream : Nat) : ConnectionTable × Option Connection :=
  match t.get? stream with
  | none => (t, none)
  | some c =>
    ({ t with
      live := t.live.filter (·.stream != stream)
      activity := t.activity.filter (· != ⟨c.tsPrev, stream⟩) }, some c)

/-- Takes out the connection with the oldest entry of the activity index. -/
def evictOldest (t : ConnectionTable) : ConnectionTable × Option Connection :=
  match t.activity with
  | [] => (t, none)
  | oldest :: _ => t.remove oldest.stream

/-- A connection on its way in, and the ones it pushed out. -/
structure Opening where
  table : ConnectionTable
  stream : Nat
  retired : List Connection
deriving DecidableEq

/-- Starts a connection.  It pushes out an earlier one of the same conversation, and, if the table
is full even then, the one active longest ago. -/
def openConnection (t : ConnectionTable) (conversation : Conversation) (now : Nat) : Opening :=
  let earlier := t.find? conversation
  let vacated := { t with live := t.live.filter (·.conversation != conversation) }
  let (room, evicted) :=
    if vacated.maxEntries ≤ vacated.size then vacated.evictOldest else (vacated, none)
  let stream := room.nextStream
  { table := { room with
      live := room.live ++ [Connection.start stream conversation now]
      activity := Activity.insertSorted ⟨now, stream⟩ room.activity
      nextStream := stream + 1 }
    stream
    retired := earlier.toList ++ evicted.toList }

/-- Notes activity of a stream. -/
def touch (t : ConnectionTable) (stream now : Nat) : ConnectionTable :=
  match t.get? stream with
  | none => t
  | some c =>
    { t.put { c with tsPrev := now } with
      activity :=
        Activity.insertSorted ⟨now, stream⟩ (t.activity.filter (· != ⟨c.tsPrev, stream⟩)) }

/-- Takes out the connections of some streams, in the order given. -/
def removeAll (t : ConnectionTable) : List Nat → ConnectionTable × List Connection
  | [] => (t, [])
  | stream :: rest =>
    let (t, c) := t.remove stream
    let (t, others) := t.removeAll rest
    (t, c.toList ++ others)

/-- Streams of the entries at the front of the activity index that have expired, by number. -/
def expiredStreams (t : ConnectionTable) (now ttl : Nat) : List Nat :=
  ((t.activity.takeWhile fun a => isExpired now a.time ttl).map (·.stream)).mergeSort
    fun x y => decide (x ≤ y)

/-- Takes out the connections idle for longer than `ttl`, by stream number. -/
def expireIdle (t : ConnectionTable) (now ttl : Nat) : ConnectionTable × List Connection :=
  t.removeAll (t.expiredStreams now ttl)

/-- Takes every connection out, by stream number.  The numbering goes on. -/
def drain (t : ConnectionTable) : ConnectionTable × List Connection :=
  ({ t with live := [], activity := [] }, t.live)

/-- Forgets everything, the numbering included. -/
def clear (t : ConnectionTable) : ConnectionTable := { maxEntries := t.maxEntries }

end ConnectionTable

end TcpCapture
