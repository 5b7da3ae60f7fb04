import TcpCapture.Connection.Maps
import TcpCapture.Proofs.Connection.Index

/-!
# The two maps of live connections

The maps of `MappedTable` hold what the table of live connections lists: the one leads from each live
conversation to its stream number, the other one from each live stream number to its connection, and to
nothing else.

## Main definitions

* `MappedTable.Mirrors` — the maps are those of a table
* `MappedTable.Mirrors.takeOut` — what leaves the table leaves both maps
* `MappedTable.Mirrors.openConnection`, `touch`, `expireIdle`, `drain` — the operations keep it so, and give
  the same results

**What leaves.**  `remove` asks whether the conversation still leads to the stream that is taken out.  It
always does: a connection that gave way to another one of its conversation has left the maps before.
-/

namespace TcpCapture

/-- Where keys tell the elements of a list apart, filtering one key out takes one element out. -/
theorem mem_filter_bne_iff {α β : Type} [DecidableEq β] {key : α → β} {l : List α} {a : α}
    (nodup : (l.map key).Nodup) (mem : a ∈ l) (x : α) :
    x ∈ l.filter (fun y => key y != key a) ↔ x ∈ l ∧ x ≠ a := by
  rw [List.mem_filter, bne_iff_ne]
  refine and_congr_right fun mem' => not_congr ⟨fun same => ?_, congrArg _⟩
  exact List.inj_on_of_nodup_map nodup mem' mem same

namespace MappedTable

/-- The maps lead to the live connections of the table, and nowhere else; all else is the same. -/
structure Mirrors (m : MappedTable) (t : ConnectionTable) : Prop where
  lookup : ∀ conversation stream, m.lookup conversation = some stream ↔
    ∃ c ∈ t.live, c.stream = stream ∧ c.conversation = conversation
  get? : ∀ stream c, m.get? stream = some c ↔ c ∈ t.live ∧ c.stream = stream
  activity : m.activity = t.activity
  nextStream : m.nextStream = t.nextStream
  maxEntries : m.maxEntries = t.maxEntries

namespace Mirrors

variable {m : MappedTable} {t : ConnectionTable} {displaced : List Activity}

/-- Maps without entries are those of a table without connections. -/
theorem of_empty {activity : List Activity} {next limit : Nat} :
    Mirrors { maxEntries := limit, activity, nextStream := next }
      { maxEntries := limit, activity, nextStream := next } where
  lookup conversation stream := by
    rw [MappedTable.lookup, Std.HashMap.getElem?_empty]
    exact iff_of_false nofun fun ⟨_, mem, _⟩ => nomatch mem
  get? stream c := by
    rw [MappedTable.get?, Std.HashMap.getElem?_empty]
    exact iff_of_false nofun fun ⟨mem, _⟩ => nomatch mem
  activity := rfl
  nextStream := rfl
  maxEntries := rfl

/-! ### Lookups -/

section

variable (mirrors : m.Mirrors t) (h : t.Indexed displaced)

include mirrors h

/-- The connection with a number is the same one in both. -/
theorem get?_eq (stream : Nat) : m.get? stream = t.get? stream :=
  Option.ext fun c => (mirrors.get? stream c).trans h.get?_eq_some_iff.symm

/-- The map of conversations leads to the live connection of the conversation. -/
theorem lookup_eq (conversation : Conversation) : m.lookup conversation = t.lookup conversation := by
  refine Option.ext fun stream => (mirrors.lookup conversation stream).trans ?_
  rw [ConnectionTable.lookup, Option.map_eq_some_iff]
  constructor
  · rintro ⟨c, mem, same, rfl⟩
    exact ⟨c, h.find?_of_mem mem, same⟩
  · rintro ⟨c, found, same⟩
    exact ⟨c, List.mem_of_find?_eq_some found, same, by simpa using List.find?_some found⟩

/-- Entry by entry, the map of streams is the list of live connections. -/
theorem toList_perm : m.byStream.toList.Perm (t.live.map fun c => (c.stream, c)) := by
  refine (List.perm_ext_iff_of_nodup ?_ ?_).2 fun ⟨stream, c⟩ => ?_
  · refine Std.HashMap.distinct_keys_toList.imp fun {x y} apart same => ?_
    rw [same, beq_self_eq_true] at apart
    cases apart
  · refine List.Nodup.of_map Prod.fst ?_
    rw [List.map_map]
    exact h.nodup_streams
  · rw [Std.HashMap.mem_toList_iff_getElem?_eq_some, List.mem_map]
    refine (mirrors.get? stream c).trans ?_
    constructor
    · rintro ⟨mem, rfl⟩
      exact ⟨c, mem, rfl⟩
    · rintro ⟨e, mem, same⟩
      obtain ⟨rfl, rfl⟩ := Prod.mk.inj same
      exact ⟨mem, rfl⟩

theorem live_perm : m.live.Perm t.live := by
  have perm := (mirrors.toList_perm h).map Prod.snd
  rw [List.map_map] at perm
  exact perm.trans (List.Perm.of_eq (List.map_id _))

theorem size_eq : m.size = t.size := by
  rw [MappedTable.size, ← Std.HashMap.length_toList, (mirrors.toList_perm h).length_eq, List.length_map]
  rfl

end

/-! ### Leaving -/

/-- **What leaves the table leaves both maps**: without the entries for one connection the maps lead to the
other ones. -/
theorem takeOut (mirrors : m.Mirrors t) (h : t.Indexed displaced) {c : Connection} (mem : c ∈ t.live)
    {others : List Connection} (rest : ∀ e, e ∈ others ↔ e ∈ t.live ∧ e ≠ c)
    (activity : List Activity) :
    Mirrors
      { m with
        byConversation := m.byConversation.erase c.conversation
        byStream := m.byStream.erase c.stream
        activity }
      { t with live := others, activity } where
  lookup conversation stream := by
    show (m.byConversation.erase c.conversation)[conversation]? = some stream ↔ _
    rw [Std.HashMap.getElem?_erase]
    split
    · rename_i own
      refine iff_of_false nofun ?_
      rintro ⟨e, left, -, same⟩
      obtain ⟨mem', ne⟩ := (rest e).1 left
      exact ne (List.inj_on_of_nodup_map h.conversations mem' mem (same.trans (beq_iff_eq.1 own).symm))
    · rename_i other
      refine (mirrors.lookup conversation stream).trans ?_
      constructor
      · rintro ⟨e, mem', number, same⟩
        refine ⟨e, (rest e).2 ⟨mem', ?_⟩, number, same⟩
        rintro rfl
        exact other (beq_iff_eq.2 same)
      · rintro ⟨e, left, agree⟩
        exact ⟨e, ((rest e).1 left).1, agree⟩
  get? stream e := by
    show (m.byStream.erase c.stream)[stream]? = some e ↔ _
    rw [Std.HashMap.getElem?_erase]
    split
    · rename_i own
      refine iff_of_false nofun ?_
      rintro ⟨left, same⟩
      obtain ⟨mem', ne⟩ := (rest e).1 left
      exact ne (List.inj_on_of_nodup_map h.nodup_streams mem' mem (same.trans (beq_iff_eq.1 own).symm))
    · rename_i other
      refine (mirrors.get? stream e).trans ?_
      rw [rest e, and_assoc]
      refine and_congr_right fun _ => ⟨fun same => ⟨?_, same⟩, And.right⟩
      rintro rfl
      exact other (beq_iff_eq.2 same)
  activity := rfl
  nextStream := mirrors.nextStream
  maxEntries := mirrors.maxEntries

theorem remove (mirrors : m.Mirrors t) (h : t.Indexed displaced) (stream : Nat) :
    (m.remove stream).1.Mirrors (t.remove stream).1 ∧ (m.remove stream).2 = (t.remove stream).2 := by
  unfold MappedTable.remove ConnectionTable.remove
  rw [mirrors.get?_eq h]
  cases found : t.get? stream with
  | none => exact ⟨mirrors, rfl⟩
  | some c =>
      obtain ⟨mem, rfl⟩ := h.get?_eq_some_iff.1 found
      have leads : m.lookup c.conversation = some c.stream := (mirrors.lookup _ _).2 ⟨c, mem, rfl, rfl⟩
      dsimp only
      rw [if_pos leads, mirrors.activity]
      exact ⟨mirrors.takeOut h mem (mem_filter_bne_iff h.nodup_streams mem) _, rfl⟩

theorem removeAll (mirrors : m.Mirrors t) (h : t.Indexed displaced) (streams : List Nat) :
    (m.removeAll streams).1.Mirrors (t.removeAll streams).1 ∧
      (m.removeAll streams).2 = (t.removeAll streams).2 := by
  induction streams generalizing m t with
  | nil => exact ⟨mirrors, rfl⟩
  | cons stream rest ih =>
      obtain ⟨first, same⟩ := mirrors.remove h stream
      obtain ⟨others, same'⟩ := ih first (h.remove stream)
      refine ⟨others, ?_⟩
      show (m.remove stream).2.toList ++ ((m.remove stream).1.removeAll rest).2 = _
      rw [same, same']
      rfl

theorem expireIdle (mirrors : m.Mirrors t) (h : t.Indexed displaced) (now ttl : Nat) :
    (m.expireIdle now ttl).1.Mirrors (t.expireIdle now ttl).1 ∧
      (m.expireIdle now ttl).2 = (t.expireIdle now ttl).2 := by
  unfold MappedTable.expireIdle MappedTable.expiredStreams
  rw [mirrors.activity]
  exact mirrors.removeAll h (t.expiredStreams now ttl)

theorem evictOldest (mirrors : m.Mirrors t) (h : t.Indexed displaced) :
    m.evictOldest.1.Mirrors t.evictOldest.1 ∧ m.evictOldest.2 = t.evictOldest.2 := by
  unfold MappedTable.evictOldest ConnectionTable.evictOldest
  rw [mirrors.activity]
  cases t.activity with
  | nil => exact ⟨mirrors, rfl⟩
  | cons oldest _ => exact mirrors.remove h oldest.stream

theorem vacate (mirrors : m.Mirrors t) (h : t.Indexed displaced) (conversation : Conversation) :
    (m.vacate conversation).1.Mirrors (t.vacate conversation) ∧
      (m.vacate conversation).2 = t.find? conversation := by
  unfold MappedTable.vacate ConnectionTable.vacate
  rw [mirrors.lookup_eq h, ConnectionTable.lookup]
  cases found : t.find? conversation with
  | none =>
      have all : t.live.filter (·.conversation != conversation) = t.live :=
        List.filter_eq_self.2 fun c mem => by simpa using List.find?_eq_none.1 found c mem
      rw [all]
      exact ⟨mirrors, rfl⟩
  | some c =>
      have mem := List.mem_of_find?_eq_some found
      obtain rfl : c.conversation = conversation := by simpa using List.find?_some found
      have left := mirrors.takeOut h mem (mem_filter_bne_iff h.conversations mem) m.activity
      exact ⟨⟨left.lookup, left.get?, mirrors.activity, mirrors.nextStream, mirrors.maxEntries⟩,
        (mirrors.get? _ _).2 ⟨mem, rfl⟩⟩

theorem makeRoom (mirrors : m.Mirrors t) (h : t.Indexed displaced) :
    m.makeRoom.1.Mirrors t.makeRoom.1 ∧ m.makeRoom.2 = t.makeRoom.2 := by
  unfold MappedTable.makeRoom ConnectionTable.makeRoom
  rw [mirrors.maxEntries, mirrors.size_eq h]
  split
  · exact mirrors.evictOldest h
  · exact ⟨mirrors, rfl⟩

/-! ### Entering -/

/-- What enters the table enters both maps. -/
theorem addNew (mirrors : m.Mirrors t) (h : t.Indexed displaced) {conversation : Conversation}
    (free : ∀ c ∈ t.live, c.conversation ≠ conversation) (now : Nat) :
    (m.addNew conversation now).Mirrors (t.addNew conversation now) where
  lookup other stream := by
    show (m.byConversation.insert conversation m.nextStream)[other]? = some stream ↔
      ∃ c ∈ t.live ++ [_], _
    rw [Std.HashMap.getElem?_insert, mirrors.nextStream]
    split
    · rename_i own
      obtain rfl := beq_iff_eq.1 own
      rw [Option.some_inj]
      constructor
      · rintro rfl
        exact ⟨_, List.mem_append_right _ List.mem_cons_self, rfl, rfl⟩
      · rintro ⟨c, mem, number, same⟩
        rcases List.mem_append.1 mem with mem | mem
        · exact absurd same (free c mem)
        · rw [← number, List.mem_singleton.1 mem]
          rfl
    · rename_i apart
      refine (mirrors.lookup other stream).trans ?_
      constructor
      · rintro ⟨c, mem, agree⟩
        exact ⟨c, List.mem_append_left _ mem, agree⟩
      · rintro ⟨c, mem, number, same⟩
        rcases List.mem_append.1 mem with mem | mem
        · exact ⟨c, mem, number, same⟩
        · rw [List.mem_singleton.1 mem] at same
          exact absurd (beq_iff_eq.2 same) apart
  get? stream c := by
    show (m.byStream.insert m.nextStream (.start m.nextStream conversation now))[stream]? = some c ↔
      c ∈ t.live ++ [_] ∧ _
    rw [Std.HashMap.getElem?_insert, mirrors.nextStream, List.mem_append, List.mem_singleton]
    split
    · rename_i own
      obtain rfl := beq_iff_eq.1 own
      rw [Option.some_inj]
      constructor
      · rintro rfl
        exact ⟨Or.inr rfl, rfl⟩
      · rintro ⟨mem | rfl, number⟩
        · exact absurd number (Nat.ne_of_lt (h.stream_lt c mem))
        · rfl
    · rename_i apart
      refine (mirrors.get? stream c).trans (and_congr_left fun number => ⟨Or.inl, ?_⟩)
      rintro (mem | rfl)
      · exact mem
      · exact absurd (beq_iff_eq.2 number) apart
  activity := by
    show Activity.insertSorted ⟨now, m.nextStream⟩ m.activity = _
    rw [mirrors.activity, mirrors.nextStream]
    rfl
  nextStream := congrArg (· + 1) mirrors.nextStream
  maxEntries := mirrors.maxEntries

theorem openConnection (mirrors : m.Mirrors t) (h : t.Indexed displaced) (conversation : Conversation)
    (now : Nat) :
    (m.openConnection conversation now).table.Mirrors (t.openConnection conversation now).table ∧
      (m.openConnection conversation now).stream = (t.openConnection conversation now).stream ∧
      (m.openConnection conversation now).retired = (t.openConnection conversation now).retired := by
  obtain ⟨vacated, earlier⟩ := mirrors.vacate h conversation
  obtain ⟨room, evicted⟩ := vacated.makeRoom (h.vacate conversation)
  have free : ∀ c ∈ (t.vacate conversation).makeRoom.1.live, c.conversation ≠ conversation := by
    intro c mem
    exact bne_iff_ne.1 (List.mem_filter.1 (ConnectionTable.Indexed.live_makeRoom_subset _ mem)).2
  rw [ConnectionTable.openConnection_eq]
  refine ⟨room.addNew (h.vacate conversation).makeRoom free now, room.nextStream, ?_⟩
  show (m.vacate conversation).2.toList ++ (m.vacate conversation).1.makeRoom.2.toList = _
  rw [earlier, evicted]

/-! ### Changing in place -/

/-- A connection that keeps its number and its conversation may change in any other way. -/
theorem replace (mirrors : m.Mirrors t) (h : t.Indexed displaced) {c d : Connection} (mem : c ∈ t.live)
    (number : d.stream = c.stream) (conversation : d.conversation = c.conversation)
    {f : Connection → Connection} (becomes : f c = d) (activity : List Activity) :
    Mirrors { m.change c.stream f with activity } { t.put d with activity } where
  lookup other stream := by
    refine (mirrors.lookup other stream).trans ?_
    have perm := h.put_perm mem number
    constructor
    · rintro ⟨e, mem', agree⟩
      by_cases same : e = c
      · subst same
        exact ⟨d, perm.mem_iff.2 List.mem_cons_self, number.trans agree.1, conversation.trans agree.2⟩
      · refine ⟨e, perm.mem_iff.2 (List.mem_cons_of_mem _ (List.mem_filter.2 ⟨mem', ?_⟩)), agree⟩
        exact bne_iff_ne.2 fun equal => same (List.inj_on_of_nodup_map h.nodup_streams mem' mem equal)
    · rintro ⟨e, mem', agree⟩
      rcases List.mem_cons.1 (perm.mem_iff.1 mem') with rfl | mem'
      · exact ⟨c, mem, number.symm.trans agree.1, conversation.symm.trans agree.2⟩
      · exact ⟨e, (List.mem_filter.1 mem').1, agree⟩
  get? stream e := by
    show (m.byStream.modify c.stream f)[stream]? = some e ↔ e ∈ (t.put d).live ∧ _
    have leads : m.byStream[c.stream]? = some c := (mirrors.get? _ _).2 ⟨mem, rfl⟩
    rw [Std.HashMap.getElem?_modify, (h.put_perm mem number).mem_iff, List.mem_cons, List.mem_filter]
    split
    · rename_i own
      obtain rfl := beq_iff_eq.1 own
      rw [leads, Option.map_some, Option.some_inj, becomes]
      constructor
      · rintro rfl
        exact ⟨Or.inl rfl, number⟩
      · rintro ⟨rfl | ⟨-, other⟩, same⟩
        · rfl
        · exact absurd same (bne_iff_ne.1 other)
    · rename_i apart
      refine (mirrors.get? stream e).trans (and_congr_left fun same => ?_)
      have other : e.stream ≠ c.stream := fun equal => apart (beq_iff_eq.2 (equal.symm.trans same))
      constructor
      · exact fun mem' => Or.inr ⟨mem', bne_iff_ne.2 other⟩
      · rintro (rfl | ⟨mem', -⟩)
        · exact absurd number other
        · exact mem'
  activity := rfl
  nextStream := mirrors.nextStream
  maxEntries := mirrors.maxEntries

theorem put (mirrors : m.Mirrors t) (h : t.Indexed displaced) {c d : Connection} (mem : c ∈ t.live)
    (number : d.stream = c.stream) (conversation : d.conversation = c.conversation) :
    (m.change c.stream fun _ => d).Mirrors (t.put d) := by
  have changed := mirrors.replace h mem number conversation (f := fun _ => d) rfl t.activity
  exact ⟨changed.lookup, changed.get?, mirrors.activity, mirrors.nextStream, mirrors.maxEntries⟩

theorem touch (mirrors : m.Mirrors t) (h : t.Indexed displaced) (stream now : Nat) :
    (m.touch stream now).Mirrors (t.touch stream now) := by
  unfold MappedTable.touch ConnectionTable.touch
  rw [mirrors.get?_eq h]
  cases found : t.get? stream with
  | none => exact mirrors
  | some c =>
      obtain ⟨mem, rfl⟩ := h.get?_eq_some_iff.1 found
      dsimp only
      rw [mirrors.activity]
      exact mirrors.replace h mem (d := { c with tsPrev := now }) rfl rfl rfl _

/-! ### Starting over -/

/-- Draining takes the live connections out by number, as the table lists them. -/
theorem drain (mirrors : m.Mirrors t) (h : t.Indexed displaced) :
    m.drain.1.Mirrors t.drain.1 ∧ m.drain.2 = t.drain.2 := by
  refine ⟨?_, ?_⟩
  · have empty : Mirrors { maxEntries := t.maxEntries, nextStream := t.nextStream }
        { maxEntries := t.maxEntries, nextStream := t.nextStream } := of_empty
    exact ⟨empty.lookup, empty.get?, rfl, mirrors.nextStream, mirrors.maxEntries⟩
  · have sorted : t.live.Pairwise fun c d => decide (c.stream ≤ d.stream) = true :=
      (List.pairwise_map.1 h.streams).imp fun less => decide_eq_true (Nat.le_of_lt less)
    have ordered : m.drain.2.Pairwise fun c d => decide (c.stream ≤ d.stream) = true := by
      refine List.pairwise_mergeSort (fun _ _ _ one two => ?_) (fun c d => ?_) _
      · exact decide_eq_true (Nat.le_trans (of_decide_eq_true one) (of_decide_eq_true two))
      · rw [Bool.or_eq_true, decide_eq_true_iff, decide_eq_true_iff]
        exact Nat.le_total _ _
    have perm : m.drain.2.Perm t.live := (List.mergeSort_perm _ _).trans (mirrors.live_perm h)
    -- streams are numbered apart, so that there is only one order
    refine perm.eq_of_pairwise (fun c d mem mem' le ge => ?_) ordered sorted
    exact List.inj_on_of_nodup_map h.nodup_streams (perm.subset mem) mem'
      (Nat.le_antisymm (of_decide_eq_true le) (of_decide_eq_true ge))

theorem clear (mirrors : m.Mirrors t) : m.clear.Mirrors t.clear := by
  unfold MappedTable.clear ConnectionTable.clear
  rw [mirrors.maxEntries]
  exact of_empty

end Mirrors

end MappedTable

end TcpCapture
