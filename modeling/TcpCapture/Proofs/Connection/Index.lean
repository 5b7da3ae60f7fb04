import Mathlib.Data.List.Induction
import Mathlib.Data.List.Nodup
import TcpCapture.Connection.Table

/-!
# The indexes of the connection table

What a connection table and its activity index know of each other, after any history of operations.

## Main definitions

* `Indexed` — the table's entries are in order, and its activity index holds the last activity of
  every live connection and of the connections in a given list, and nothing else
* `TableOp` — an operation on the table
* `Ledger` — a table together with the entries its activity index failed to drop

**The entries that stay.**  A connection that gives way to a new one of its own conversation is the
only one whose entry is not taken out of the activity index.  No later operation takes it out
either, short of emptying the table: `remove` and `touch` look their entry up through the live
connection, and there is none.
-/

namespace TcpCapture

/-! ### The order of activity -/

namespace Activity

theorem before_iff {x y : Activity} :
    x.before y = true ↔ x.time < y.time ∨ x.time = y.time ∧ x.stream < y.stream := by
  simp [before]

theorem before_irrefl (x : Activity) : x.before x = false := by
  simp [before]

theorem before_trans {x y z : Activity} (hxy : x.before y = true) (hyz : y.before z = true) :
    x.before z = true := by
  rw [before_iff] at hxy hyz ⊢
  omega

theorem before_of_ne {x y : Activity} (not : ¬ x.before y = true) (ne : x ≠ y) :
    y.before x = true := by
  rw [before_iff] at not ⊢
  have : x.time ≠ y.time ∨ x.stream ≠ y.stream := by
    by_contra h
    simp only [not_or, ne_eq, Decidable.not_not] at h
    exact ne (by cases x; cases y; simp_all)
  omega

theorem insertSorted_perm {x : Activity} {l : List Activity} (new : x ∉ l) :
    (insertSorted x l).Perm (x :: l) := by
  induction l with
  | nil => exact List.Perm.refl _
  | cons y rest ih =>
      rw [insertSorted]
      split
      · exact List.Perm.refl _
      · rw [if_neg fun h : x = y => new (h ▸ List.mem_cons_self)]
        have hrest : x ∉ rest := fun h => new (List.mem_cons_of_mem y h)
        exact ((ih hrest).cons y).trans (List.Perm.swap x y rest)

theorem mem_insertSorted {x z : Activity} {l : List Activity} :
    z ∈ insertSorted x l ↔ z = x ∨ z ∈ l := by
  induction l with
  | nil => simp [insertSorted]
  | cons y rest ih =>
      rw [insertSorted]
      split
      · exact List.mem_cons
      · split
        · rename_i h
          subst h
          simp
        · rw [List.mem_cons, ih, List.mem_cons]
          tauto

theorem pairwise_insertSorted {x : Activity} {l : List Activity}
    (sorted : l.Pairwise fun y z => y.before z = true) :
    (insertSorted x l).Pairwise fun y z => y.before z = true := by
  induction l with
  | nil => exact List.pairwise_singleton _ x
  | cons y rest ih =>
      obtain ⟨hy, hrest⟩ := List.pairwise_cons.1 sorted
      rw [insertSorted]
      split
      · rename_i hxy
        refine List.pairwise_cons.2 ⟨?_, sorted⟩
        intro z hz
        rcases List.mem_cons.1 hz with rfl | hz
        · exact hxy
        · exact before_trans hxy (hy z hz)
      · rename_i hxy
        split
        · exact sorted
        · rename_i hne
          refine List.pairwise_cons.2 ⟨?_, ih hrest⟩
          intro z hz
          rcases mem_insertSorted.1 hz with rfl | hz
          · exact before_of_ne hxy hne
          · exact hy z hz

end Activity

/-- When a connection was last active. -/
def Connection.activity (c : Connection) : Activity := ⟨c.tsPrev, c.stream⟩

namespace ConnectionTable

/-! ### What holds between operations -/

/-- The table is in order, and its activity index holds exactly the activity of the live connections
and the `displaced` entries. -/
structure Indexed (t : ConnectionTable) (displaced : List Activity) : Prop where
  /-- Streams are numbered in the order they opened. -/
  streams : (t.live.map (·.stream)).Pairwise (· < ·)
  stream_lt : ∀ c ∈ t.live, c.stream < t.nextStream
  /-- No two live connections share their conversation. -/
  conversations : (t.live.map (·.conversation)).Nodup
  /-- The index is in order, so its first entry is the oldest. -/
  sorted : t.activity.Pairwise fun x y => x.before y = true
  entries : t.activity.Perm (t.live.map Connection.activity ++ displaced)
  /-- A displaced entry belongs to a stream that was, and is not live any more. -/
  displaced_lt : ∀ a ∈ displaced, a.stream < t.nextStream
  displaced_gone : ∀ a ∈ displaced, ∀ c ∈ t.live, c.stream ≠ a.stream

/-- In a list without repetition the others are what is left without one of them. -/
theorem perm_cons_filter {α β : Type} [DecidableEq β] {key : α → β} {l : List α} {a : α}
    (nodup : (l.map key).Nodup) (mem : a ∈ l) :
    l.Perm (a :: l.filter fun x => key x != key a) := by
  induction l with
  | nil => cases mem
  | cons x rest ih =>
      rw [List.map_cons, List.nodup_cons] at nodup
      obtain ⟨hx, hrest⟩ := nodup
      rcases List.mem_cons.1 mem with rfl | mem
      · have hall : rest.filter (fun y => key y != key a) = rest :=
          List.filter_eq_self.2 fun y hy => bne_iff_ne.2 fun e =>
            hx (List.mem_map.2 ⟨y, hy, e⟩)
        rw [List.filter_cons_of_neg (by simp), hall]
      · have hne : key x ≠ key a := fun e => hx (List.mem_map.2 ⟨a, mem, e.symm⟩)
        rw [List.filter_cons_of_pos (by simpa using hne)]
        exact ((ih hrest mem).cons x).trans (List.Perm.swap a x _)

/-- Taking out an element that a list holds once. -/
theorem filter_ne_perm {α : Type} [DecidableEq α] {l rest : List α} {a : α}
    (split : l.Perm (a :: rest)) (once : a ∉ rest) : (l.filter (· != a)).Perm rest := by
  have h := split.filter (· != a)
  have hall : rest.filter (· != a) = rest :=
    List.filter_eq_self.2 fun x hx => bne_iff_ne.2 fun e => once (by rwa [← e])
  rwa [List.filter_cons_of_neg (by simp), hall] at h

theorem map_put_stream (t : ConnectionTable) (c : Connection) :
    (t.put c).live.map (·.stream) = t.live.map (·.stream) := by
  rw [put, List.map_map]
  refine List.map_congr_left fun d _ => ?_
  by_cases h : d.stream = c.stream <;> simp [h]

namespace Indexed

variable {t : ConnectionTable} {displaced : List Activity}

theorem of_empty (live : t.live = []) (activity : t.activity = []) : t.Indexed [] where
  streams := by simp [live]
  stream_lt := by simp [live]
  conversations := by simp [live]
  sorted := by simp [activity]
  entries := by simp [live, activity]
  displaced_lt := by simp
  displaced_gone := by simp

theorem nodup_streams (h : t.Indexed displaced) : (t.live.map (·.stream)).Nodup :=
  h.streams.imp Nat.ne_of_lt

/-- Looking a stream up finds the live connection with that number. -/
theorem get?_eq_some_iff (h : t.Indexed displaced) {stream : Nat} {c : Connection} :
    t.get? stream = some c ↔ c ∈ t.live ∧ c.stream = stream := by
  constructor
  · intro found
    exact ⟨List.mem_of_find?_eq_some found, by simpa using List.find?_some found⟩
  · rintro ⟨mem, rfl⟩
    cases found : t.get? c.stream with
    | none => exact absurd (List.find?_eq_none.1 found c mem) (by simp)
    | some d =>
        have hs : d.stream = c.stream := by simpa using List.find?_some found
        rw [List.inj_on_of_nodup_map h.nodup_streams (List.mem_of_find?_eq_some found) mem hs]

/-- A live connection splits the index into its own entry and the others. -/
theorem entries_cons (h : t.Indexed displaced) {c : Connection} (mem : c ∈ t.live) :
    t.activity.Perm (c.activity ::
      ((t.live.filter (·.stream != c.stream)).map Connection.activity ++ displaced)) :=
  h.entries.trans (((perm_cons_filter h.nodup_streams mem).map Connection.activity).append_right _)

/-- No other entry is about the same stream. -/
theorem stream_ne_of_mem (h : t.Indexed displaced) {c : Connection} (mem : c ∈ t.live)
    {a : Activity}
    (other : a ∈ (t.live.filter (·.stream != c.stream)).map Connection.activity ++ displaced) :
    a.stream ≠ c.stream := by
  rcases List.mem_append.1 other with other | other
  · obtain ⟨d, hd, rfl⟩ := List.mem_map.1 other
    exact bne_iff_ne.1 (List.mem_filter.1 hd).2
  · exact (h.displaced_gone a other c mem).symm

/-- Taking the entry of a live connection out of the index leaves the others. -/
theorem filter_activity_perm (h : t.Indexed displaced) {c : Connection} (mem : c ∈ t.live) :
    (t.activity.filter (· != c.activity)).Perm
      ((t.live.filter (·.stream != c.stream)).map Connection.activity ++ displaced) :=
  filter_ne_perm (h.entries_cons mem) fun other => h.stream_ne_of_mem mem other rfl

theorem stream_lt_of_mem (h : t.Indexed displaced) {a : Activity} (mem : a ∈ t.activity) :
    a.stream < t.nextStream := by
  rcases List.mem_append.1 (h.entries.mem_iff.1 mem) with mem | mem
  · obtain ⟨c, hc, rfl⟩ := List.mem_map.1 mem
    exact h.stream_lt c hc
  · exact h.displaced_lt a mem

/-! ### Taking connections out -/

theorem remove (h : t.Indexed displaced) (stream : Nat) : (t.remove stream).1.Indexed displaced := by
  unfold ConnectionTable.remove
  cases found : t.get? stream with
  | none => exact h
  | some c =>
      obtain ⟨mem, rfl⟩ := h.get?_eq_some_iff.1 found
      have sub : (t.live.filter (·.stream != c.stream)).Sublist t.live := List.filter_sublist
      exact {
        streams := h.streams.sublist (sub.map _)
        stream_lt := fun d hd => h.stream_lt d (sub.subset hd)
        conversations := h.conversations.sublist (sub.map _)
        sorted := h.sorted.sublist List.filter_sublist
        entries := h.filter_activity_perm mem
        displaced_lt := h.displaced_lt
        displaced_gone := fun a ha d hd => h.displaced_gone a ha d (sub.subset hd) }

/-- What is taken out and what stays is what was there. -/
theorem remove_perm (h : t.Indexed displaced) (stream : Nat) :
    ((t.remove stream).2.toList ++ (t.remove stream).1.live).Perm t.live := by
  unfold ConnectionTable.remove
  cases found : t.get? stream with
  | none => exact List.Perm.refl _
  | some c =>
      obtain ⟨mem, rfl⟩ := h.get?_eq_some_iff.1 found
      exact (perm_cons_filter h.nodup_streams mem).symm

theorem removeAll (h : t.Indexed displaced) (streams : List Nat) :
    (t.removeAll streams).1.Indexed displaced := by
  induction streams generalizing t with
  | nil => exact h
  | cons stream rest ih => exact ih (h.remove stream)

theorem removeAll_perm (h : t.Indexed displaced) (streams : List Nat) :
    ((t.removeAll streams).2 ++ (t.removeAll streams).1.live).Perm t.live := by
  induction streams generalizing t with
  | nil => exact List.Perm.refl _
  | cons stream rest ih =>
      show (((t.remove stream).2.toList ++ ((t.remove stream).1.removeAll rest).2) ++
        ((t.remove stream).1.removeAll rest).1.live).Perm t.live
      rw [List.append_assoc]
      exact ((ih (h.remove stream)).append_left _).trans (h.remove_perm stream)

theorem expireIdle (h : t.Indexed displaced) (now ttl : Nat) :
    (t.expireIdle now ttl).1.Indexed displaced := h.removeAll _

theorem evictOldest (h : t.Indexed displaced) : t.evictOldest.1.Indexed displaced := by
  unfold ConnectionTable.evictOldest
  cases t.activity with
  | nil => exact h
  | cons oldest rest => exact h.remove oldest.stream

theorem evictOldest_perm (h : t.Indexed displaced) :
    (t.evictOldest.2.toList ++ t.evictOldest.1.live).Perm t.live := by
  unfold ConnectionTable.evictOldest
  cases t.activity with
  | nil => exact List.Perm.refl _
  | cons oldest rest => exact h.remove_perm oldest.stream

theorem mem_removeAll {t : ConnectionTable} {c : Connection} {streams : List Nat}
    (mem : c ∈ t.live) (kept : c.stream ∉ streams) : c ∈ (t.removeAll streams).1.live := by
  induction streams generalizing t with
  | nil => exact mem
  | cons stream rest ih =>
      obtain ⟨ne, kept⟩ := List.ne_and_not_mem_of_not_mem_cons kept
      have still : c ∈ (t.remove stream).1.live := by
        unfold ConnectionTable.remove
        split
        · exact mem
        · exact List.mem_filter.2 ⟨mem, bne_iff_ne.2 ne⟩
      exact ih still kept

/-- The stream of a connection that was active a short time ago does not expire. -/
theorem not_mem_expiredStreams (h : t.Indexed displaced) {c : Connection} (mem : c ∈ t.live)
    {now ttl : Nat} (recent : now ≤ c.tsPrev + ttl) : c.stream ∉ t.expiredStreams now ttl := by
  intro expired
  obtain ⟨a, ha, same⟩ := List.mem_map.1 (List.mem_mergeSort.1 expired)
  have old : isExpired now a.time ttl = true := List.all_eq_true.1 List.all_takeWhile a ha
  have hindex : a ∈ t.activity := (List.takeWhile_sublist _).subset ha
  rcases List.mem_append.1 (h.entries.mem_iff.1 hindex) with live | gone
  · obtain ⟨d, hd, rfl⟩ := List.mem_map.1 live
    obtain rfl : d = c := List.inj_on_of_nodup_map h.nodup_streams hd mem same
    exact Nat.not_lt.2 recent (isExpired_iff.1 old)
  · exact h.displaced_gone a gone c mem same.symm

/-! ### Changing a connection in place -/

/-- The live connections once one of them is replaced. -/
theorem put_perm (h : t.Indexed displaced) {c d : Connection} (mem : c ∈ t.live)
    (same : d.stream = c.stream) :
    (t.put d).live.Perm (d :: t.live.filter (·.stream != c.stream)) := by
  have split := (perm_cons_filter h.nodup_streams mem).map
    fun e : Connection => if e.stream = d.stream then d else e
  have rest : (t.live.filter (·.stream != c.stream)).map
      (fun e : Connection => if e.stream = d.stream then d else e) =
      t.live.filter (·.stream != c.stream) := by
    refine (List.map_congr_left fun e he => if_neg ?_).trans (List.map_id _)
    rw [same]
    exact bne_iff_ne.1 (List.mem_filter.1 he).2
  rw [List.map_cons, if_pos same.symm, rest] at split
  exact split

theorem map_put_conversation (h : t.Indexed displaced) {c d : Connection} (mem : c ∈ t.live)
    (same : d.stream = c.stream) (conversation : d.conversation = c.conversation) :
    (t.put d).live.map (·.conversation) = t.live.map (·.conversation) := by
  rw [ConnectionTable.put, List.map_map]
  refine List.map_congr_left fun e he => ?_
  by_cases hs : e.stream = d.stream
  · have : e = c := List.inj_on_of_nodup_map h.nodup_streams he mem (hs.trans same)
    subst this
    simp [hs, conversation]
  · simp [hs]

/-- The parts of the invariant that a replaced connection leaves alone, whatever the index. -/
theorem replace (h : t.Indexed displaced) {c d : Connection} (mem : c ∈ t.live)
    (same : d.stream = c.stream) (conversation : d.conversation = c.conversation)
    {index : List Activity} (sorted : index.Pairwise fun x y => x.before y = true)
    (entries : index.Perm (d.activity ::
      ((t.live.filter (·.stream != c.stream)).map Connection.activity ++ displaced))) :
    Indexed { t.put d with activity := index } displaced where
  streams := (t.map_put_stream d).symm ▸ h.streams
  stream_lt e he := by
    have : e.stream ∈ t.live.map (·.stream) := t.map_put_stream d ▸ List.mem_map_of_mem he
    obtain ⟨e', he', hs⟩ := List.mem_map.1 this
    exact hs ▸ h.stream_lt e' he'
  conversations := (h.map_put_conversation mem same conversation).symm ▸ h.conversations
  sorted := sorted
  entries := entries.trans (((h.put_perm mem same).map Connection.activity).append_right _).symm
  displaced_lt := h.displaced_lt
  displaced_gone a ha e he := by
    have : e.stream ∈ t.live.map (·.stream) := t.map_put_stream d ▸ List.mem_map_of_mem he
    obtain ⟨e', he', hs⟩ := List.mem_map.1 this
    exact hs ▸ h.displaced_gone a ha e' he'

/-- A live connection may change in anything but its number, its conversation and its activity. -/
theorem put (h : t.Indexed displaced) {c d : Connection} (mem : c ∈ t.live)
    (same : d.stream = c.stream) (conversation : d.conversation = c.conversation)
    (active : d.tsPrev = c.tsPrev) : (t.put d).Indexed displaced := by
  have hd : d.activity = c.activity := by rw [Connection.activity, same, active]; rfl
  exact h.replace mem same conversation h.sorted (hd ▸ h.entries_cons mem)

theorem touch (h : t.Indexed displaced) (stream now : Nat) :
    (t.touch stream now).Indexed displaced := by
  unfold ConnectionTable.touch
  cases found : t.get? stream with
  | none => exact h
  | some c =>
      obtain ⟨mem, rfl⟩ := h.get?_eq_some_iff.1 found
      have others := h.filter_activity_perm mem
      refine h.replace (d := { c with tsPrev := now }) mem rfl rfl
        (Activity.pairwise_insertSorted (h.sorted.sublist List.filter_sublist)) ?_
      -- the old entry is gone, so the new one finds no entry of this stream
      have new : (⟨now, c.stream⟩ : Activity) ∉ t.activity.filter (· != c.activity) := by
        intro again
        exact h.stream_ne_of_mem mem (others.mem_iff.1 again) rfl
      exact (Activity.insertSorted_perm new).trans (others.cons _)

theorem live_touch_of_mem (h : t.Indexed displaced) {c : Connection} (mem : c ∈ t.live) (now : Nat) :
    (t.touch c.stream now).live = (t.put { c with tsPrev := now }).live := by
  unfold ConnectionTable.touch
  rw [h.get?_eq_some_iff.2 ⟨mem, rfl⟩]

/-- The live connections once one of them is replaced and active now. -/
theorem put_touch_perm (h : t.Indexed displaced) {c d : Connection} (mem : c ∈ t.live)
    (same : d.stream = c.stream) (conversation : d.conversation = c.conversation)
    (active : d.tsPrev = c.tsPrev) (now : Nat) :
    ((t.put d).touch c.stream now).live.Perm
      ({ d with tsPrev := now } :: t.live.filter (·.stream != c.stream)) := by
  have put := h.put mem same conversation active
  have perm := h.put_perm mem same
  have hd : d ∈ (t.put d).live := perm.mem_iff.2 List.mem_cons_self
  rw [← same, put.live_touch_of_mem hd]
  refine (put.put_perm (d := { d with tsPrev := now }) hd rfl).trans (List.Perm.cons _ ?_)
  have others := perm.filter (·.stream != d.stream)
  rw [List.filter_cons_of_neg (by simp), List.filter_filter, same] at others
  simpa only [same, Bool.and_self] using others

/-! ### Opening -/

/-- Looking a conversation up finds its live connection. -/
theorem find?_of_mem (h : t.Indexed displaced) {c : Connection} (mem : c ∈ t.live) :
    t.find? c.conversation = some c := by
  cases found : t.find? c.conversation with
  | none => exact absurd (List.find?_eq_none.1 found c mem) (by simp)
  | some d =>
      have same : d.conversation = c.conversation := by simpa using List.find?_some found
      rw [List.inj_on_of_nodup_map h.conversations (List.mem_of_find?_eq_some found) mem same]

/-- Tables with the same connections of a conversation find the same one. -/
theorem find?_congr {t' : ConnectionTable} (h : t'.Indexed displaced) {conversation : Conversation}
    (same : ∀ c, c.conversation = conversation → (c ∈ t'.live ↔ c ∈ t.live)) :
    t'.find? conversation = t.find? conversation := by
  cases found : t.find? conversation with
  | some c =>
      have own : c.conversation = conversation := by simpa using List.find?_some found
      have mem := (same c own).2 (List.mem_of_find?_eq_some found)
      exact own ▸ h.find?_of_mem mem
  | none =>
      refine List.find?_eq_none.2 fun c mem own => ?_
      have there := (same c (by simpa using own)).1 mem
      exact List.find?_eq_none.1 found c there own

theorem find?_eq_some (h : t.Indexed displaced) {conversation : Conversation} {c : Connection}
    (found : t.find? conversation = some c) :
    t.live.Perm (c :: t.live.filter (·.conversation != conversation)) := by
  have hc : c.conversation = conversation := by simpa using List.find?_some found
  exact hc ▸ perm_cons_filter h.conversations (List.mem_of_find?_eq_some found)

end Indexed

/-- Nothing has been idle for longer than `ttl` at a time before that. -/
theorem expireIdle_of_early (t : ConnectionTable) {now ttl : Nat} (early : now ≤ ttl) :
    t.expireIdle now ttl = (t, []) := by
  have fresh (a : Activity) : isExpired now a.time ttl = false := by
    rw [isExpired, decide_eq_false_iff_not]
    omega
  have kept : t.activity.takeWhile (fun a => isExpired now a.time ttl) = [] := by
    cases t.activity with
    | nil => rfl
    | cons oldest rest =>
        rw [List.takeWhile_cons, fresh oldest]
        rfl
  rw [expireIdle, expiredStreams, kept, List.map_nil, List.mergeSort_nil]
  rfl

/-- The table without the connection of a conversation.  The activity index keeps its entry. -/
def vacate (t : ConnectionTable) (conversation : Conversation) : ConnectionTable :=
  { t with live := t.live.filter (·.conversation != conversation) }

/-- A full table evicts the connection with the oldest entry of its index. -/
def makeRoom (t : ConnectionTable) : ConnectionTable × Option Connection :=
  if t.maxEntries ≤ t.size then t.evictOldest else (t, none)

/-- The table with a connection that opens now. -/
def addNew (t : ConnectionTable) (conversation : Conversation) (now : Nat) : ConnectionTable :=
  { t with
    live := t.live ++ [Connection.start t.nextStream conversation now]
    activity := Activity.insertSorted ⟨now, t.nextStream⟩ t.activity
    nextStream := t.nextStream + 1 }

/-- Opening a connection in its three steps. -/
theorem openConnection_eq (t : ConnectionTable) (conversation : Conversation) (now : Nat) :
    t.openConnection conversation now = {
      table := (t.vacate conversation).makeRoom.1.addNew conversation now
      stream := (t.vacate conversation).makeRoom.1.nextStream
      retired := (t.find? conversation).toList ++ (t.vacate conversation).makeRoom.2.toList } := rfl

/-- The entry a conversation's connection leaves behind when it gives way. -/
def leftBehind (t : ConnectionTable) (conversation : Conversation) : List Activity :=
  (t.find? conversation).toList.map Connection.activity

theorem mem_leftBehind {t : ConnectionTable} {conversation : Conversation} {a : Activity}
    (mem : a ∈ t.leftBehind conversation) :
    ∃ c ∈ t.live, c.conversation = conversation ∧ a = c.activity := by
  obtain ⟨c, hc, rfl⟩ := List.mem_map.1 mem
  have found : t.find? conversation = some c := by simpa using hc
  exact ⟨c, List.mem_of_find?_eq_some found, by simpa using List.find?_some found, rfl⟩

/-- A connection that opens while there is room pushes out at most the earlier one of its
conversation. -/
theorem openConnection_of_room {t : ConnectionTable} {conversation : Conversation}
    (room : (t.vacate conversation).size < t.maxEntries) (now : Nat) :
    t.openConnection conversation now = {
      table := (t.vacate conversation).addNew conversation now
      stream := t.nextStream
      retired := (t.find? conversation).toList } := by
  have stay : (t.vacate conversation).makeRoom = (t.vacate conversation, none) :=
    if_neg (Nat.not_le.2 room)
  rw [openConnection_eq, stay, Option.toList_none, List.append_nil]
  rfl

/-! ### Limit and numbering -/

/-- The second table has the limit and the numbering of the first one. -/
structure SameNumbering (t t' : ConnectionTable) : Prop where
  maxEntries : t'.maxEntries = t.maxEntries
  nextStream : t'.nextStream = t.nextStream

namespace SameNumbering

theorem refl (t : ConnectionTable) : t.SameNumbering t := ⟨rfl, rfl⟩

theorem trans {t t' t'' : ConnectionTable} (h : t.SameNumbering t') (h' : t'.SameNumbering t'') :
    t.SameNumbering t'' :=
  ⟨h'.maxEntries.trans h.maxEntries, h'.nextStream.trans h.nextStream⟩

/-- Taking connections out does not change the number of the next one. -/
theorem remove (t : ConnectionTable) (stream : Nat) : t.SameNumbering (t.remove stream).1 := by
  unfold ConnectionTable.remove
  split
  · exact refl t
  · exact ⟨rfl, rfl⟩

theorem removeAll (t : ConnectionTable) (streams : List Nat) :
    t.SameNumbering (t.removeAll streams).1 := by
  induction streams generalizing t with
  | nil => exact refl t
  | cons stream rest ih => exact (remove t stream).trans (ih (t.remove stream).1)

theorem touch (t : ConnectionTable) (stream now : Nat) : t.SameNumbering (t.touch stream now) := by
  unfold ConnectionTable.touch
  split
  · exact refl t
  · exact ⟨rfl, rfl⟩

theorem makeRoom (t : ConnectionTable) : t.SameNumbering t.makeRoom.1 := by
  unfold ConnectionTable.makeRoom ConnectionTable.evictOldest
  split
  · split
    · exact refl t
    · exact remove t _
  · exact refl t

end SameNumbering

namespace Indexed

variable {t : ConnectionTable} {displaced : List Activity}

theorem vacate_perm (h : t.Indexed displaced) (conversation : Conversation) :
    t.live.Perm ((t.find? conversation).toList ++ (t.vacate conversation).live) := by
  cases found : t.find? conversation with
  | none =>
      have hall : (t.vacate conversation).live = t.live := List.filter_eq_self.2 fun c hc => by
        simpa using List.find?_eq_none.1 found c hc
      rw [hall]
      exact List.Perm.refl _
  | some c => exact h.find?_eq_some found

theorem vacate (h : t.Indexed displaced) (conversation : Conversation) :
    (t.vacate conversation).Indexed (displaced ++ t.leftBehind conversation) := by
  have sub : (t.vacate conversation).live.Sublist t.live := List.filter_sublist
  have perm := h.vacate_perm conversation
  exact {
    streams := h.streams.sublist (sub.map _)
    stream_lt := fun c hc => h.stream_lt c (sub.subset hc)
    conversations := h.conversations.sublist (sub.map _)
    sorted := h.sorted
    entries := by
      -- the index is the same; one of its entries is now accounted to the displaced ones
      refine h.entries.trans (((perm.map Connection.activity).append_right _).trans ?_)
      rw [List.map_append, List.append_assoc]
      exact List.perm_append_comm.trans (by rw [List.append_assoc]; rfl)
    displaced_lt := fun a ha => by
      rcases List.mem_append.1 ha with ha | ha
      · exact h.displaced_lt a ha
      · obtain ⟨c, hc, -, rfl⟩ := mem_leftBehind ha
        exact h.stream_lt c hc
    displaced_gone := fun a ha d hd => by
      rcases List.mem_append.1 ha with ha | ha
      · exact h.displaced_gone a ha d (sub.subset hd)
      · obtain ⟨c, hc, hconv, rfl⟩ := mem_leftBehind ha
        intro e
        -- streams are numbered apart, so `d` is the connection that was just taken out
        rw [List.inj_on_of_nodup_map h.nodup_streams (sub.subset hd) hc e] at hd
        exact bne_iff_ne.1 (List.mem_filter.1 hd).2 hconv }

theorem makeRoom (h : t.Indexed displaced) : t.makeRoom.1.Indexed displaced := by
  unfold ConnectionTable.makeRoom
  split
  · exact h.evictOldest
  · exact h

theorem makeRoom_perm (h : t.Indexed displaced) :
    (t.makeRoom.2.toList ++ t.makeRoom.1.live).Perm t.live := by
  unfold ConnectionTable.makeRoom
  split
  · exact h.evictOldest_perm
  · exact List.Perm.refl _

theorem addNew (h : t.Indexed displaced) {conversation : Conversation}
    (free : ∀ c ∈ t.live, c.conversation ≠ conversation) (now : Nat) :
    (t.addNew conversation now).Indexed displaced where
  streams := by
    rw [ConnectionTable.addNew, List.map_append, List.pairwise_append]
    refine ⟨h.streams, List.pairwise_singleton _ _, ?_⟩
    intro m hm n hn
    obtain ⟨c, hc, rfl⟩ := List.mem_map.1 hm
    obtain rfl : n = t.nextStream := List.mem_singleton.1 hn
    exact h.stream_lt c hc
  stream_lt c hc := by
    rcases List.mem_append.1 hc with hc | hc
    · exact Nat.lt_succ_of_lt (h.stream_lt c hc)
    · obtain rfl := List.mem_singleton.1 hc
      exact Nat.lt_succ_self _
  conversations := by
    rw [ConnectionTable.addNew, List.map_append, List.nodup_append]
    refine ⟨h.conversations, List.nodup_singleton _, ?_⟩
    intro m hm n hn
    obtain ⟨c, hc, rfl⟩ := List.mem_map.1 hm
    obtain rfl : n = conversation := List.mem_singleton.1 hn
    exact free c hc
  sorted := Activity.pairwise_insertSorted h.sorted
  entries := by
    have new : (⟨now, t.nextStream⟩ : Activity) ∉ t.activity := by
      intro mem
      exact Nat.lt_irrefl _ (h.stream_lt_of_mem mem)
    refine (Activity.insertSorted_perm new).trans ((h.entries.cons _).trans ?_)
    rw [ConnectionTable.addNew, List.map_append, List.append_assoc]
    exact List.perm_middle.symm
  displaced_lt a ha := Nat.lt_succ_of_lt (h.displaced_lt a ha)
  displaced_gone a ha c hc := by
    rcases List.mem_append.1 hc with hc | hc
    · exact h.displaced_gone a ha c hc
    · obtain rfl := List.mem_singleton.1 hc
      exact (Nat.ne_of_lt (h.displaced_lt a ha)).symm

/-- The connections left after making room were live before. -/
theorem live_makeRoom_subset (t : ConnectionTable) : t.makeRoom.1.live ⊆ t.live := by
  unfold ConnectionTable.makeRoom ConnectionTable.evictOldest ConnectionTable.remove
  split
  · split
    · exact List.Subset.refl _
    · split
      · exact List.Subset.refl _
      · exact List.filter_subset_self _
  · exact List.Subset.refl _

theorem openConnection (h : t.Indexed displaced) (conversation : Conversation) (now : Nat) :
    (t.openConnection conversation now).table.Indexed (displaced ++ t.leftBehind conversation) := by
  rw [openConnection_eq]
  have free : ∀ c ∈ (t.vacate conversation).makeRoom.1.live, c.conversation ≠ conversation := by
    intro c hc
    exact bne_iff_ne.1 (List.mem_filter.1 (live_makeRoom_subset _ hc)).2
  exact (h.vacate conversation).makeRoom.addNew free now

/-- The connections pushed out and those that are live are the ones that were live, and the new
one. -/
theorem openConnection_perm (h : t.Indexed displaced) (conversation : Conversation) (now : Nat) :
    ((t.openConnection conversation now).retired ++
      (t.openConnection conversation now).table.live).Perm
      (t.live ++ [Connection.start t.nextStream conversation now]) := by
  have room := (h.vacate conversation).makeRoom_perm
  rw [openConnection_eq]
  show ((_ ++ _) ++ ((t.vacate conversation).makeRoom.1.live ++ [_])).Perm _
  rw [(SameNumbering.makeRoom _).nextStream, ← List.append_assoc,
    List.append_assoc _ _ (t.vacate conversation).makeRoom.1.live]
  exact ((room.append_left _).trans (h.vacate_perm conversation).symm).append_right _

end Indexed

theorem openConnection_stream (t : ConnectionTable) (conversation : Conversation) (now : Nat) :
    (t.openConnection conversation now).stream = t.nextStream := by
  rw [openConnection_eq]
  exact (SameNumbering.makeRoom _).nextStream

theorem nextStream_openConnection (t : ConnectionTable) (conversation : Conversation) (now : Nat) :
    (t.openConnection conversation now).table.nextStream = t.nextStream + 1 := by
  rw [openConnection_eq]
  exact congrArg (· + 1) (SameNumbering.makeRoom _).nextStream

theorem start_mem_openConnection (t : ConnectionTable) (conversation : Conversation) (now : Nat) :
    Connection.start t.nextStream conversation now ∈
      (t.openConnection conversation now).table.live := by
  have number : (t.vacate conversation).makeRoom.1.nextStream = t.nextStream :=
    (SameNumbering.makeRoom _).nextStream
  rw [openConnection_eq, ← number]
  exact List.mem_append_right _ List.mem_cons_self

/-! ### Histories -/

/-- An operation on the table. -/
inductive TableOp where
  | openConnection (conversation : Conversation) (now : Nat)
  | touch (stream now : Nat)
  | expireIdle (now ttl : Nat)
  | remove (stream : Nat)
  | drain
  | clear
deriving DecidableEq

/-- The table after an operation. -/
def apply (t : ConnectionTable) : TableOp → ConnectionTable
  | .openConnection conversation now => (t.openConnection conversation now).table
  | .touch stream now => t.touch stream now
  | .expireIdle now ttl => (t.expireIdle now ttl).1
  | .remove stream => (t.remove stream).1
  | .drain => t.drain.1
  | .clear => t.clear

/-- A table, and the last activity of every connection that gave way to another one of its
conversation since the table was last emptied. -/
structure Ledger where
  table : ConnectionTable
  displaced : List Activity := []

namespace Ledger

/-- The ledger after an operation. -/
def record (l : Ledger) (op : TableOp) : Ledger where
  table := l.table.apply op
  displaced :=
    match op with
    | .openConnection conversation _ => l.displaced ++ l.table.leftBehind conversation
    | .drain | .clear => []
    | .touch .. | .expireIdle .. | .remove _ => l.displaced

/-- The ledger of a table for `capacity` connections after some operations. -/
def ofOps (capacity : Nat) (ops : List TableOp) : Ledger :=
  ops.foldl record { table := { maxEntries := capacity } }

theorem ofOps_concat (capacity : Nat) (ops : List TableOp) (op : TableOp) :
    ofOps capacity (ops ++ [op]) = (ofOps capacity ops).record op := by
  rw [ofOps, List.foldl_append]
  rfl

/-- One operation keeps the index right, up to the entries the ledger accounts for. -/
theorem indexed_record {l : Ledger} (h : l.table.Indexed l.displaced) (op : TableOp) :
    (l.record op).table.Indexed (l.record op).displaced := by
  cases op with
  | openConnection conversation now => exact h.openConnection conversation now
  | touch stream now => exact h.touch stream now
  | expireIdle now ttl => exact h.expireIdle now ttl
  | remove stream => exact h.remove stream
  | drain => exact Indexed.of_empty rfl rfl
  | clear => exact Indexed.of_empty rfl rfl

/-- **The activity index is exact up to the ledger**, after any operations. -/
theorem indexed_ofOps (capacity : Nat) (ops : List TableOp) :
    (ofOps capacity ops).table.Indexed (ofOps capacity ops).displaced := by
  induction ops using List.reverseRecOn with
  | nil => exact Indexed.of_empty rfl rfl
  | append_singleton ops op ih =>
      rw [ofOps_concat]
      exact indexed_record ih op

end Ledger

end ConnectionTable

end TcpCapture
