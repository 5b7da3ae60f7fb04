import TcpCapture.Proofs.Connection.Index

/-!
# Eviction

A table that is full makes room by evicting the connection that was active longest ago, and so never
outgrows its limit — as long as its activity index can be trusted.

## Main definitions

* `LeastRecentlyUsed` — a history in which the table keeps to its limit and every eviction takes the
  connection active longest ago
* `Ledger.Shadowed` — a displaced entry is older than the activity of every live connection

**What goes wrong.**  Eviction takes the oldest entry of the activity index for the oldest
connection.  Where that entry was left behind by a connection that gave way to another one of its
conversation, nothing is evicted, the entry stays, and the table grows.
-/

namespace TcpCapture

namespace ConnectionTable

/-- The live connection active longest ago; of several the one that opened first. -/
def IsLeastActive (t : ConnectionTable) (c : Connection) : Prop :=
  c ∈ t.live ∧ ∀ d ∈ t.live, d ≠ c → c.activity.before d.activity = true

/-- Opening a connection makes room as it should: where the table is full even without an earlier
connection of the conversation, it evicts the connection active longest ago, and only that one. -/
def EvictsLeastActive (t : ConnectionTable) (conversation : Conversation) (now : Nat) : Prop :=
  let vacated := t.vacate conversation
  vacated.maxEntries ≤ vacated.size → vacated.live ≠ [] →
    ∃ c, vacated.IsLeastActive c ∧
      (t.openConnection conversation now).retired = (t.find? conversation).toList ++ [c] ∧
      (t.openConnection conversation now).table.live =
        vacated.live.filter (·.stream != c.stream) ++
          [Connection.start t.nextStream conversation now]

/-- After each of the operations the table is within its limit, and each opening evicts as it
should. -/
def LeastRecentlyUsed (capacity : Nat) (ops : List TableOp) : Prop :=
  ∀ pre op, pre ++ [op] <+: ops →
    (Ledger.ofOps capacity (pre ++ [op])).table.size ≤ max 1 capacity ∧
      ∀ conversation now, op = .openConnection conversation now →
        (Ledger.ofOps capacity pre).table.EvictsLeastActive conversation now

/-- Room is to be made for a connection, and a displaced entry is older than the activity of every
connection that could be evicted. -/
def Ledger.Shadowed (l : Ledger) (conversation : Conversation) : Prop :=
  let vacated := l.table.vacate conversation
  vacated.maxEntries ≤ vacated.size ∧ vacated.live ≠ [] ∧
    ∃ a ∈ l.displaced ++ l.table.leftBehind conversation,
      ∀ c ∈ vacated.live, a.before c.activity = true

/-! ### Making room -/

namespace Indexed

variable {t : ConnectionTable} {displaced : List Activity}

theorem activity_mem (h : t.Indexed displaced) {c : Connection} (mem : c ∈ t.live) :
    c.activity ∈ t.activity :=
  h.entries.mem_iff.2 (List.mem_append_left _ (List.mem_map_of_mem mem))

/-- A displaced entry at the front of the index: nothing is evicted. -/
theorem makeRoom_of_displaced (h : t.Indexed displaced) {oldest : Activity}
    {rest : List Activity} (front : t.activity = oldest :: rest) (mem : oldest ∈ displaced) :
    t.makeRoom = (t, none) := by
  have gone : t.get? oldest.stream = none := List.find?_eq_none.2 fun c hc => by
    simpa using h.displaced_gone oldest mem c hc
  have stays : t.evictOldest = (t, none) := by
    simp only [ConnectionTable.evictOldest, front, ConnectionTable.remove, gone]
  rw [ConnectionTable.makeRoom, stays, ite_self]

/-- A live entry at the front of a full table's index: its connection is evicted. -/
theorem makeRoom_of_live (h : t.Indexed displaced) {c : Connection} {rest : List Activity}
    (full : t.maxEntries ≤ t.size) (front : t.activity = c.activity :: rest)
    (mem : c ∈ t.live) :
    t.makeRoom.1.live = t.live.filter (·.stream != c.stream) ∧ t.makeRoom.2 = some c := by
  have found : t.get? c.activity.stream = some c := h.get?_eq_some_iff.2 ⟨mem, rfl⟩
  rw [ConnectionTable.makeRoom, if_pos full]
  simp only [ConnectionTable.evictOldest, front, ConnectionTable.remove, found]
  exact ⟨rfl, trivial⟩

/-- The front of the index is the oldest entry. -/
theorem front_before (h : t.Indexed displaced) {oldest a : Activity} {rest : List Activity}
    (front : t.activity = oldest :: rest) (mem : a ∈ t.activity) (ne : a ≠ oldest) :
    oldest.before a = true := by
  have sorted := h.sorted
  rw [front] at sorted mem
  rcases List.mem_cons.1 mem with rfl | mem
  · exact absurd rfl ne
  · exact (List.pairwise_cons.1 sorted).1 a mem

/-- A full table evicts the connection active longest ago, unless a displaced entry is older. -/
theorem makeRoom_isLeastActive (h : t.Indexed displaced) (full : t.maxEntries ≤ t.size)
    (nonempty : t.live ≠ [])
    (clear : ¬ ∃ a ∈ displaced, ∀ c ∈ t.live, a.before c.activity = true) :
    ∃ c, t.IsLeastActive c ∧ t.makeRoom.1.live = t.live.filter (·.stream != c.stream) ∧
      t.makeRoom.2 = some c := by
  obtain ⟨c₀, hc₀⟩ := List.exists_mem_of_ne_nil _ nonempty
  obtain ⟨oldest, rest, front⟩ :=
    List.ne_nil_iff_exists_cons.1 (List.ne_nil_of_mem (h.activity_mem hc₀))
  have holdest : oldest ∈ t.activity := front ▸ List.mem_cons_self
  -- the front entry is a live connection's, or a displaced one that is older than all of these
  rcases List.mem_append.1 (h.entries.mem_iff.1 holdest) with mem | mem
  · obtain ⟨c, hc, rfl⟩ := List.mem_map.1 mem
    refine ⟨c, ⟨hc, ?_⟩, h.makeRoom_of_live full front hc⟩
    intro d hd ne
    have other : d.activity ≠ c.activity := by
      intro e
      exact ne (List.inj_on_of_nodup_map h.nodup_streams hd hc (congrArg Activity.stream e))
    exact h.front_before front (h.activity_mem hd) other
  · refine absurd ⟨oldest, mem, ?_⟩ clear
    intro c hc
    have other : c.activity ≠ oldest := by
      intro e
      exact h.displaced_gone oldest mem c hc (congrArg Activity.stream e)
    exact h.front_before front (h.activity_mem hc) other

/-- Where a displaced entry is older than every live connection's, making room evicts nothing. -/
theorem makeRoom_of_shadowed (h : t.Indexed displaced) {a : Activity} (mem : a ∈ displaced)
    (older : ∀ c ∈ t.live, a.before c.activity = true) : t.makeRoom = (t, none) := by
  have ha : a ∈ t.activity := h.entries.mem_iff.2 (List.mem_append_right _ mem)
  obtain ⟨oldest, rest, front⟩ := List.ne_nil_iff_exists_cons.1 (List.ne_nil_of_mem ha)
  have holdest : oldest ∈ t.activity := front ▸ List.mem_cons_self
  rcases List.mem_append.1 (h.entries.mem_iff.1 holdest) with live | live
  · -- a live entry at the front would be older than `a`, and `a` is older than it
    obtain ⟨c, hc, rfl⟩ := List.mem_map.1 live
    have hac := older c hc
    have hca : c.activity.before a = true :=
      h.front_before front ha fun e => by simp [e, Activity.before_irrefl] at hac
    have := Activity.before_trans hac hca
    rw [Activity.before_irrefl] at this
    cases this
  · exact h.makeRoom_of_displaced front live

end Indexed

/-! ### The size of the table -/

theorem size_remove_le (t : ConnectionTable) (stream : Nat) : (t.remove stream).1.size ≤ t.size := by
  unfold remove
  split
  · exact Nat.le_refl _
  · exact List.length_filter_le _ _

theorem size_removeAll_le (t : ConnectionTable) (streams : List Nat) :
    (t.removeAll streams).1.size ≤ t.size := by
  induction streams generalizing t with
  | nil => exact Nat.le_refl _
  | cons stream rest ih => exact Nat.le_trans (ih (t.remove stream).1) (t.size_remove_le stream)

theorem size_touch (t : ConnectionTable) (stream now : Nat) :
    (t.touch stream now).size = t.size := by
  unfold touch
  split
  · rfl
  · exact List.length_map _

theorem size_vacate_le (t : ConnectionTable) (conversation : Conversation) :
    (t.vacate conversation).size ≤ t.size := List.length_filter_le _ _

/-- Only opening a connection makes a table grow. -/
theorem size_apply_le (t : ConnectionTable) {op : TableOp}
    (other : ∀ conversation now, op ≠ .openConnection conversation now) :
    (t.apply op).size ≤ t.size := by
  cases op with
  | openConnection conversation now => exact absurd rfl (other conversation now)
  | touch stream now => exact Nat.le_of_eq (t.size_touch stream now)
  | expireIdle now ttl => exact t.size_removeAll_le _
  | remove stream => exact t.size_remove_le stream
  | drain => exact Nat.zero_le _
  | clear => exact Nat.zero_le _

/-- No operation changes the limit. -/
theorem maxEntries_apply (t : ConnectionTable) (op : TableOp) :
    (t.apply op).maxEntries = t.maxEntries := by
  cases op with
  | openConnection conversation now =>
      exact (SameNumbering.makeRoom (t.vacate conversation)).maxEntries
  | touch stream now => exact (SameNumbering.touch t stream now).maxEntries
  | expireIdle now ttl => exact (SameNumbering.removeAll t _).maxEntries
  | remove stream => exact (SameNumbering.remove t stream).maxEntries
  | drain => rfl
  | clear => rfl

theorem Ledger.maxEntries_ofOps (capacity : Nat) (ops : List TableOp) :
    (ofOps capacity ops).table.maxEntries = capacity := by
  induction ops using List.reverseRecOn with
  | nil => rfl
  | append_singleton ops op ih =>
      rw [ofOps_concat]
      exact ((ofOps capacity ops).table.maxEntries_apply op).trans ih

theorem size_openConnection (t : ConnectionTable) (conversation : Conversation) (now : Nat) :
    (t.openConnection conversation now).table.size =
      (t.vacate conversation).makeRoom.1.size + 1 := by
  rw [openConnection_eq]
  exact List.length_append

/-- A table within its limit stays within it when opening evicts as it should. -/
theorem size_openConnection_le {t : ConnectionTable} {conversation : Conversation} {now : Nat}
    (bound : t.size ≤ max 1 t.maxEntries) (evicts : t.EvictsLeastActive conversation now) :
    (t.openConnection conversation now).table.size ≤ max 1 t.maxEntries := by
  by_cases full : (t.vacate conversation).maxEntries ≤ (t.vacate conversation).size
  · by_cases nonempty : (t.vacate conversation).live = []
    · have hsize : (t.vacate conversation).makeRoom.1.size = 0 := by
        have := Indexed.live_makeRoom_subset (t.vacate conversation)
        rw [nonempty] at this
        exact List.length_eq_zero_iff.2 (List.subset_nil.1 this)
      rw [size_openConnection, hsize]
      exact Nat.le_max_left _ _
    · obtain ⟨c, ⟨hc, -⟩, -, hlive⟩ := evicts full nonempty
      have hlt : ((t.vacate conversation).live.filter (·.stream != c.stream)).length <
          (t.vacate conversation).live.length := by
        refine List.length_filter_lt_length_iff_exists.2 ⟨c, hc, by simp⟩
      have hle := t.size_vacate_le conversation
      rw [size, hlive, List.length_append, List.length_singleton]
      exact Nat.le_trans (Nat.succ_le_of_lt hlt) (Nat.le_trans hle bound)
  · have hroom : (t.vacate conversation).makeRoom = (t.vacate conversation, none) := if_neg full
    have hmax : (t.vacate conversation).maxEntries = t.maxEntries := rfl
    rw [size_openConnection, hroom]
    rw [hmax] at full
    exact Nat.le_trans (Nat.succ_le_of_lt (Nat.not_le.1 full)) (Nat.le_max_right _ _)

/-! ### Whole histories -/

theorem evictsLeastActive {l : Ledger} (h : l.table.Indexed l.displaced)
    {conversation : Conversation} (clear : ¬ l.Shadowed conversation) (now : Nat) :
    l.table.EvictsLeastActive conversation now := by
  intro full nonempty
  obtain ⟨c, least, hlive, hevicted⟩ :=
    (h.vacate conversation).makeRoom_isLeastActive full nonempty fun older =>
      clear ⟨full, nonempty, older⟩
  refine ⟨c, least, ?_, ?_⟩
  · rw [openConnection_eq, hevicted]
    rfl
  · rw [openConnection_eq]
    show (l.table.vacate conversation).makeRoom.1.live ++ _ = _
    rw [hlive, (SameNumbering.makeRoom _).nextStream]
    rfl

/-- Where a displaced entry comes first, a full table evicts nothing. -/
theorem not_evictsLeastActive {l : Ledger} (h : l.table.Indexed l.displaced)
    {conversation : Conversation} (shadowed : l.Shadowed conversation) (now : Nat) :
    ¬ l.table.EvictsLeastActive conversation now := by
  obtain ⟨full, nonempty, a, mem, older⟩ := shadowed
  intro evicts
  obtain ⟨c, -, hretired, -⟩ := evicts full nonempty
  rw [openConnection_eq, (h.vacate conversation).makeRoom_of_shadowed mem older] at hretired
  simp at hretired

/-- **A history keeps to the limit and evicts by age exactly when no displaced entry stands in the
way of an eviction**: when room is to be made, some live connection was last active before every
connection that gave way to another one of its conversation. -/
theorem leastRecentlyUsed_iff (capacity : Nat) (ops : List TableOp) :
    LeastRecentlyUsed capacity ops ↔
      ∀ pre conversation now, pre ++ [.openConnection conversation now] <+: ops →
        ¬ (Ledger.ofOps capacity pre).Shadowed conversation := by
  constructor
  · intro good pre conversation now reached shadowed
    exact not_evictsLeastActive (Ledger.indexed_ofOps capacity pre) shadowed now
      ((good pre _ reached).2 conversation now rfl)
  · intro clear
    have evicts : ∀ pre conversation now, pre ++ [.openConnection conversation now] <+: ops →
        (Ledger.ofOps capacity pre).table.EvictsLeastActive conversation now := by
      intro pre conversation now reached
      exact evictsLeastActive (Ledger.indexed_ofOps capacity pre)
        (clear pre conversation now reached) now
    -- the limit by induction on the operations so far: only an opening adds a connection
    have bound : ∀ pre, pre <+: ops →
        (Ledger.ofOps capacity pre).table.size ≤ max 1 capacity := by
      intro pre
      induction pre using List.reverseRecOn with
      | nil => exact fun _ => Nat.zero_le _
      | append_singleton pre op ih =>
          intro reached
          have before := ih ((List.prefix_append pre [op]).trans reached)
          rw [Ledger.ofOps_concat]
          by_cases opens : ∃ conversation now, op = .openConnection conversation now
          · obtain ⟨conversation, now, rfl⟩ := opens
            have hmax := Ledger.maxEntries_ofOps capacity pre
            have keeps := size_openConnection_le (hmax.symm ▸ before)
              (evicts pre conversation now reached)
            rwa [hmax] at keeps
          · have other : ∀ conversation now, op ≠ .openConnection conversation now := by
              intro conversation now e
              exact opens ⟨conversation, now, e⟩
            exact Nat.le_trans (size_apply_le _ other) before
    intro pre op reached
    refine ⟨bound _ reached, ?_⟩
    rintro conversation now rfl
    exact evicts pre conversation now reached

/-- A connection that gives way to a second one of its conversation leaves its entry behind, and the
next opening evicts that entry in place of the second connection. -/
theorem not_leastRecentlyUsed :
    ¬ LeastRecentlyUsed 1
      [.openConnection ⟨⟨.v4 0x0a000101, 80⟩, ⟨.v4 0x0a000001, 1000⟩⟩ 1,
        .openConnection ⟨⟨.v4 0x0a000101, 80⟩, ⟨.v4 0x0a000001, 1000⟩⟩ 2,
        .openConnection ⟨⟨.v4 0x0a000101, 80⟩, ⟨.v4 0x0a000002, 2⟩⟩ 3] := by
  intro good
  have bound := (good [_, _] _ (List.prefix_refl _)).1
  revert bound
  decide

end ConnectionTable

end TcpCapture
