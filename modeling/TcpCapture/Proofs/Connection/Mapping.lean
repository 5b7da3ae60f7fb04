import Mathlib.Logic.Function.Basic
import TcpCapture.Proofs.Connection.Index

/-!
# What the connection table does not look at

The table finds connections by stream number and by conversation, and keeps the time of their last
activity.  Whatever else changes in the connections of a table, its operations do to the changed ones
what they would have done to the original ones.  Conversations may even get other names, as long as
different ones stay different.

## Main definitions

* `Connection.Unnoticed` — a change of connections that leaves alone what the table looks at
* `Connection.Renames` — a change that leaves it alone, but for other names of conversations
* `ConnectionTable.mapLive` — a table whose live connections are changed
-/

namespace TcpCapture

/-- The table does not notice when its connections are changed by `change`. -/
structure Connection.Unnoticed (change : Connection → Connection) : Prop where
  stream : ∀ c, (change c).stream = c.stream
  conversation : ∀ c, (change c).conversation = c.conversation
  tsPrev : ∀ c, (change c).tsPrev = c.tsPrev
  /-- A connection that opens is as it was. -/
  start : ∀ stream conversation now,
    change (.start stream conversation now) = .start stream conversation now
  /-- Activity can be noted before the change or after it. -/
  active : ∀ c now, change { c with tsPrev := now } = { change c with tsPrev := now }

/-- The table notices nothing of `change` but that conversations are called otherwise. -/
structure Connection.Renames (name : Conversation → Conversation) (change : Connection → Connection) :
    Prop where
  injective : Function.Injective name
  stream : ∀ c, (change c).stream = c.stream
  conversation : ∀ c, (change c).conversation = name c.conversation
  tsPrev : ∀ c, (change c).tsPrev = c.tsPrev
  start : ∀ stream conversation now,
    change (.start stream conversation now) = .start stream (name conversation) now
  active : ∀ c now, change { c with tsPrev := now } = { change c with tsPrev := now }

theorem Connection.Unnoticed.renames {change : Connection → Connection} (unnoticed : Unnoticed change) :
    Renames id change where
  injective := Function.injective_id
  stream := unnoticed.stream
  conversation := unnoticed.conversation
  tsPrev := unnoticed.tsPrev
  start := unnoticed.start
  active := unnoticed.active

/-- The table with its live connections changed. -/
def ConnectionTable.mapLive (change : Connection → Connection) (t : ConnectionTable) :
    ConnectionTable :=
  { t with live := t.live.map change }

/-! ### Other names -/

namespace Connection.Renames

variable {name : Conversation → Conversation} {change : Connection → Connection}
  (renames : Renames name change) (t : ConnectionTable)

include renames

theorem stream_eq (stream : Nat) : (·.stream == stream) ∘ change = (·.stream == stream) := by
  funext c
  exact congrArg (· == stream) (renames.stream c)

/-- Conversations are as different under their new names. -/
theorem conversation_eq (conversation : Conversation) :
    (·.conversation == name conversation) ∘ change = (·.conversation == conversation) := by
  funext c
  rw [Function.comp_apply, renames.conversation, Bool.eq_iff_iff, beq_iff_eq, beq_iff_eq,
    renames.injective.eq_iff]

theorem get? (stream : Nat) : (t.mapLive change).get? stream = (t.get? stream).map change := by
  unfold ConnectionTable.get? ConnectionTable.mapLive
  rw [List.find?_map, renames.stream_eq]

theorem find? (conversation : Conversation) :
    (t.mapLive change).find? (name conversation) = (t.find? conversation).map change := by
  unfold ConnectionTable.find? ConnectionTable.mapLive
  rw [List.find?_map, renames.conversation_eq]

theorem put (c : Connection) : (t.mapLive change).put (change c) = (t.put c).mapLive change := by
  unfold ConnectionTable.put ConnectionTable.mapLive
  simp only [List.map_map]
  refine congrArg (fun live => { t with live }) (List.map_congr_left fun d _ => ?_)
  show (if (change d).stream = (change c).stream then change c else change d) = _
  rw [renames.stream, renames.stream]
  exact (apply_ite change (d.stream = c.stream) c d).symm

theorem remove (stream : Nat) :
    (t.mapLive change).remove stream =
      ((t.remove stream).1.mapLive change, (t.remove stream).2.map change) := by
  have others : (t.live.map change).filter (·.stream != stream) =
      (t.live.filter (·.stream != stream)).map change := by
    rw [List.filter_map]
    exact congrArg (fun p => (t.live.filter (! p ·)).map change) (renames.stream_eq stream)
  unfold ConnectionTable.remove
  rw [renames.get?]
  cases t.get? stream with
  | none => rfl
  | some c =>
      dsimp only [Option.map_some, ConnectionTable.mapLive]
      rw [others, renames.tsPrev]

theorem evictOldest :
    (t.mapLive change).evictOldest =
      (t.evictOldest.1.mapLive change, t.evictOldest.2.map change) := by
  unfold ConnectionTable.evictOldest
  rw [show (t.mapLive change).activity = t.activity from rfl]
  cases t.activity with
  | nil => rfl
  | cons oldest rest => exact renames.remove t oldest.stream

theorem makeRoom :
    (t.mapLive change).makeRoom = (t.makeRoom.1.mapLive change, t.makeRoom.2.map change) := by
  have size : (t.mapLive change).size = t.size := List.length_map _
  unfold ConnectionTable.makeRoom
  rw [size]
  show (if t.maxEntries ≤ t.size then (t.mapLive change).evictOldest else (t.mapLive change, none)) =
    _
  split
  · exact renames.evictOldest t
  · rfl

theorem vacate (conversation : Conversation) :
    (t.mapLive change).vacate (name conversation) = (t.vacate conversation).mapLive change := by
  unfold ConnectionTable.vacate ConnectionTable.mapLive
  rw [List.filter_map]
  exact congrArg (fun p => { t with live := (t.live.filter (! p ·)).map change })
    (renames.conversation_eq conversation)

theorem addNew (conversation : Conversation) (now : Nat) :
    (t.mapLive change).addNew (name conversation) now =
      (t.addNew conversation now).mapLive change := by
  unfold ConnectionTable.addNew ConnectionTable.mapLive
  rw [List.map_append, List.map_singleton, renames.start]

theorem openConnection (conversation : Conversation) (now : Nat) :
    (t.mapLive change).openConnection (name conversation) now =
      { t.openConnection conversation now with
        table := (t.openConnection conversation now).table.mapLive change
        retired := (t.openConnection conversation now).retired.map change } := by
  have optional (o : Option Connection) : (o.map change).toList = o.toList.map change := by
    cases o <;> rfl
  rw [ConnectionTable.openConnection_eq, ConnectionTable.openConnection_eq, renames.vacate,
    renames.makeRoom, renames.addNew, renames.find?, optional, optional, List.map_append]
  rfl

theorem touch (stream now : Nat) :
    (t.mapLive change).touch stream now = (t.touch stream now).mapLive change := by
  unfold ConnectionTable.touch
  rw [renames.get?]
  cases t.get? stream with
  | none => rfl
  | some c =>
      dsimp only [Option.map_some]
      rw [← renames.active, renames.put, renames.tsPrev]
      rfl

theorem removeAll (streams : List Nat) :
    (t.mapLive change).removeAll streams =
      ((t.removeAll streams).1.mapLive change, (t.removeAll streams).2.map change) := by
  induction streams generalizing t with
  | nil => rfl
  | cons stream rest ih =>
      unfold ConnectionTable.removeAll
      rw [renames.remove]
      dsimp only
      rw [ih]
      cases (t.remove stream).2 <;> rfl

theorem expireIdle (now ttl : Nat) :
    (t.mapLive change).expireIdle now ttl =
      ((t.expireIdle now ttl).1.mapLive change, (t.expireIdle now ttl).2.map change) :=
  renames.removeAll t (t.expiredStreams now ttl)

end Connection.Renames

/-! ### The same names -/

namespace ConnectionTable

variable {change : Connection → Connection} (unnoticed : Connection.Unnoticed change)
  (t : ConnectionTable)

include unnoticed

theorem get?_mapLive (stream : Nat) :
    (t.mapLive change).get? stream = (t.get? stream).map change := unnoticed.renames.get? t stream

theorem find?_mapLive (conversation : Conversation) :
    (t.mapLive change).find? conversation = (t.find? conversation).map change :=
  unnoticed.renames.find? t conversation

theorem put_mapLive (c : Connection) :
    (t.mapLive change).put (change c) = (t.put c).mapLive change := unnoticed.renames.put t c

theorem openConnection_mapLive (conversation : Conversation) (now : Nat) :
    (t.mapLive change).openConnection conversation now =
      { t.openConnection conversation now with
        table := (t.openConnection conversation now).table.mapLive change
        retired := (t.openConnection conversation now).retired.map change } :=
  unnoticed.renames.openConnection t conversation now

theorem touch_mapLive (stream now : Nat) :
    (t.mapLive change).touch stream now = (t.touch stream now).mapLive change :=
  unnoticed.renames.touch t stream now

theorem expireIdle_mapLive (now ttl : Nat) :
    (t.mapLive change).expireIdle now ttl =
      ((t.expireIdle now ttl).1.mapLive change, (t.expireIdle now ttl).2.map change) :=
  unnoticed.renames.expireIdle t now ttl

end ConnectionTable

end TcpCapture
