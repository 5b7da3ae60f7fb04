import Mathlib.Data.List.Perm.Subperm
import TcpCapture.Proofs.Flow.Skipping
import TcpCapture.Proofs.Session.Closed

/-!
# The limit on bytes held back

Bytes behind a hole are held back up to a limit.  When a chunk takes a direction over it, the hole in
front of what is held is given up, and what lies behind that hole comes out up to the next one.

## Main definitions

* `ReorderBuffer.Relieved` — giving up one hole is enough to come down to the limit
* `Connection.Relieves` — so it is for a segment that a connection handles
* `Session.ReorderBounded` — no direction ever holds more than the limit
* `Session.reorderBounded_iff` — nothing else is needed for the limit to hold
* `ReorderBuffer.Sparse`, `Session.sparse_after` — what holds in any case: there are no more chunks than
  bytes allowed

**One hole at a time.**  A chunk gives up one hole at most, however far over the limit its direction is.
What lies behind the next hole stays, and may be more than the limit.  It is not unbounded: the hole
given up frees a chunk at least, so the number of chunks does not grow once the limit is reached.
-/

namespace TcpCapture

/-! ### Parts of a list -/

theorem totalOf_le_of_sublist {α : Type} {size : α → Nat} {l l' : List α} (sub : l.Sublist l') :
    totalOf size l ≤ totalOf size l' := by
  induction sub with
  | slnil => exact Nat.le_refl 0
  | cons a _ ih => exact Nat.le_add_left_of_le ih
  | cons_cons a _ ih => exact Nat.add_le_add_left ih (size a)

theorem totalOf_le_of_subperm {α : Type} {size : α → Nat} {l l' : List α} (sub : l.Subperm l') :
    totalOf size l ≤ totalOf size l' := by
  obtain ⟨m, perm, sublist⟩ := sub
  exact totalOf_perm perm ▸ totalOf_le_of_sublist sublist

/-- Members of size `n` at most. -/
theorem totalOf_le_mul {α : Type} {size : α → Nat} {n : Nat} {l : List α}
    (short : ∀ a ∈ l, size a ≤ n) : totalOf size l ≤ l.length * n := by
  induction l with
  | nil => exact Nat.zero_le _
  | cons a rest ih =>
      have first := short a List.mem_cons_self
      have others := ih fun b mem => short b (List.mem_cons_of_mem a mem)
      rw [totalOf_cons, List.length_cons, Nat.succ_mul]
      omega

/-- Members that count. -/
theorem length_le_totalOf {α : Type} {size : α → Nat} {l : List α} (some : ∀ a ∈ l, 0 < size a) :
    l.length ≤ totalOf size l := by
  induction l with
  | nil => exact Nat.le_refl 0
  | cons a rest ih =>
      have first := some a List.mem_cons_self
      have others := ih fun b mem => some b (List.mem_cons_of_mem a mem)
      rw [totalOf_cons, List.length_cons]
      omega

namespace ReorderBuffer

/-! ### One chunk -/

theorem subperm_collect (next : Seq) (held : List Chunk) :
    (collect next held).2.held.Subperm held := by
  fun_induction collect next held with
  | case1 next held none => exact .refl held
  | case2 next held c others taken shorter stale ih =>
      exact ih.trans ((List.sublist_cons_self c others).subperm.trans
        (perm_of_swapRemove taken).symm.subperm)
  | case3 next held c others taken shorter new chunks b eq ih =>
      rw [eq] at ih
      exact ih.trans ((List.sublist_cons_self c others).subperm.trans
        (perm_of_swapRemove taken).symm.subperm)

/-- A chunk waits behind a hole, unless it is held already, or it comes out if at all and adds nothing
to what is held. -/
theorem push_cases (b : ReorderBuffer) (c : Chunk) :
    (∃ expected, (b.push c).2 = .gap expected c.seq ∧ (b.push c).1.nextSeq = some expected ∧
        ((b.push c).1.held = b.held ∨ c.data ≠ [] ∧ (b.push c).1.held = b.held ++ [c])) ∨
      (b.push c).1.held.Subperm b.held ∧
        ((∃ chunks, (b.push c).2 = .inOrder chunks) ∨ ∃ seq, (b.push c).2 = .duplicate seq) := by
  unfold push
  split
  · exact Or.inr ⟨.refl _, Or.inl ⟨[], rfl⟩⟩
  · rename_i nonempty
    split
    · exact Or.inr ⟨.refl _, Or.inl ⟨[c], rfl⟩⟩
    · rename_i expected next
      split
      · exact Or.inr ⟨.refl _, Or.inr ⟨c.seq, rfl⟩⟩
      · split
        · refine Or.inl ⟨expected, rfl, ?_⟩
          dsimp only
          split
          · exact ⟨next, Or.inl rfl⟩
          · exact ⟨next, Or.inr ⟨nonempty, rfl⟩⟩
        · exact Or.inr ⟨subperm_collect _ _, Or.inl ⟨_, rfl⟩⟩

/-- If more is held than the limit, giving up the hole in front of it brings it down to the limit. -/
def Relieved (limit : Nat) (b : ReorderBuffer) : Prop :=
  limit < b.heldBytes → ∀ skip, b.skipGap? = some skip → skip.buffer.heldBytes ≤ limit

/-- Nothing empty is held, nothing longer than `longest`, and not more than so many chunks. -/
structure Sparse (limit longest : Nat) (b : ReorderBuffer) : Prop where
  nonempty : ∀ c ∈ b.held, c.data ≠ []
  short : ∀ c ∈ b.held, c.data.length ≤ longest
  few : b.held.length ≤ limit

namespace Sparse

variable {limit longest : Nat} {b b' : ReorderBuffer}

theorem of_held_nil (none : b.held = []) : Sparse limit longest b := by
  refine ⟨?_, ?_, ?_⟩ <;> rw [none]
  · exact nofun
  · exact nofun
  · exact Nat.zero_le limit

theorem of_subperm (h : Sparse limit longest b) (sub : b'.held.Subperm b.held) :
    Sparse limit longest b' where
  nonempty c mem := h.nonempty c (sub.subset mem)
  short c mem := h.short c (sub.subset mem)
  few := Nat.le_trans sub.length_le h.few

/-- The number of chunks bounds the bytes. -/
theorem heldBytes_le (h : Sparse limit longest b) : b.heldBytes ≤ limit * longest :=
  Nat.le_trans (totalOf_le_mul h.short) (Nat.mul_le_mul_right longest h.few)

end Sparse

end ReorderBuffer

/-! ### Reordering -/

namespace Connection

variable {f : Flow} {chunk : Chunk} {limit longest : Nat}

/-- What reordering leaves held: what the push holds if it is within the limit, and what is left of it
without a hole if it is not. -/
theorem reorder_cases (f : Flow) (chunk : Chunk) (limit : Nat) :
    (reorder f chunk limit).1.reorder.held.Subperm f.reorder.held ∧
        (f.reorder.push chunk).1.held.Subperm f.reorder.held ∨
      ((f.reorder.push chunk).1.held = f.reorder.held ∨
          chunk.data ≠ [] ∧ (f.reorder.push chunk).1.held = f.reorder.held ++ [chunk]) ∧
        ((f.reorder.push chunk).1.heldBytes ≤ limit ∧
            (reorder f chunk limit).1.reorder = (f.reorder.push chunk).1 ∨
          limit < (f.reorder.push chunk).1.heldBytes ∧
            ∃ skip earliest others, (f.reorder.push chunk).1.skipGap? = some skip ∧
              (reorder f chunk limit).1.reorder = skip.buffer ∧
              (f.reorder.push chunk).1.held.Perm (earliest :: others) ∧
              skip.buffer.held.Subperm others) := by
  unfold reorder
  rcases f.reorder.push_cases chunk with ⟨expected, event, next, held⟩ | ⟨sub, event⟩
  · refine Or.inr ⟨held, ?_⟩
    dsimp only
    rw [event]
    dsimp only
    split
    · rename_i within
      exact Or.inl ⟨within, rfl⟩
    · rename_i excess
      refine Or.inr ⟨Nat.not_le.1 excess, ?_⟩
      rcases (f.reorder.push chunk).1.skipGap?_cases with
        ⟨-, unanchored | none⟩ | ⟨_, earliest, others, -, perm, -, skip⟩
      · rw [next] at unanchored
        cases unanchored
      · -- more than the limit is held, so something is
        rw [ReorderBuffer.heldBytes, none] at excess
        exact absurd (Nat.zero_le limit) excess
      · refine ⟨_, earliest, others, skip, ?_, perm, ReorderBuffer.subperm_collect _ _⟩
        unfold skipGap
        dsimp only
        rw [skip]
  · refine Or.inl ⟨?_, sub⟩
    dsimp only
    rcases event with ⟨chunks, event⟩ | ⟨seq, event⟩
    · rw [event]
      exact sub
    · rw [event]
      exact sub

/-- A direction within the limit stays there exactly if a chunk that takes it over the limit is relieved
by giving up one hole. -/
theorem heldBytes_reorder_le_iff (within : f.reorder.heldBytes ≤ limit) (chunk : Chunk) :
    (reorder f chunk limit).1.reorder.heldBytes ≤ limit ↔
      (f.reorder.push chunk).1.Relieved limit := by
  rcases reorder_cases f chunk limit with
    ⟨sub, pushed⟩ | ⟨-, ⟨room, same⟩ | ⟨excess, skip, earliest, others, given, same, -, -⟩⟩
  · have left := Nat.le_trans (totalOf_le_of_subperm sub) within
    have room := Nat.le_trans (totalOf_le_of_subperm pushed) within
    exact iff_of_true left fun excess => absurd room (Nat.not_le.2 excess)
  · exact iff_of_true (same ▸ room) fun excess => absurd room (Nat.not_le.2 excess)
  · rw [same]
    refine ⟨fun relieved _ skip' given' => ?_, fun relieved => relieved excess skip given⟩
    obtain rfl := Option.some.inj (given.symm.trans given')
    exact relieved

/-- There are never more chunks held than the limit on bytes. -/
theorem sparse_reorder (h : f.reorder.Sparse limit longest) (short : chunk.data.length ≤ longest) :
    (reorder f chunk limit).1.reorder.Sparse limit longest := by
  rcases reorder_cases f chunk limit with ⟨sub, -⟩ | ⟨held, outcome⟩
  · exact h.of_subperm sub
  · have known : ∀ c ∈ (f.reorder.push chunk).1.held, c.data ≠ [] ∧ c.data.length ≤ longest := by
      intro c mem
      rcases held with same | ⟨nonempty, more⟩
      · rw [same] at mem
        exact ⟨h.nonempty c mem, h.short c mem⟩
      · rw [more] at mem
        rcases List.mem_append.1 mem with mem | mem
        · exact ⟨h.nonempty c mem, h.short c mem⟩
        · obtain rfl := List.mem_singleton.1 mem
          exact ⟨nonempty, short⟩
    have length : (f.reorder.push chunk).1.held.length ≤ f.reorder.held.length + 1 := by
      rcases held with same | ⟨-, more⟩
      · rw [same]
        exact Nat.le_succ _
      · rw [more, List.length_append]
        exact Nat.le_refl _
    rcases outcome with ⟨room, same⟩ | ⟨-, skip, earliest, others, -, same, perm, sub⟩
    · rw [same]
      refine ⟨fun c mem => (known c mem).1, fun c mem => (known c mem).2, ?_⟩
      exact Nat.le_trans (length_le_totalOf fun c mem => List.length_pos_iff.2 (known c mem).1) room
    · -- the hole given up frees a chunk at least, for the one that was pushed
      have inside : skip.buffer.held ⊆ (f.reorder.push chunk).1.held := fun c mem =>
        perm.symm.subset (List.mem_cons_of_mem earliest (sub.subset mem))
      have fewer := sub.length_le
      have total := perm.length_eq
      have few := h.few
      rw [List.length_cons] at total
      rw [same]
      exact ⟨fun c mem => (known c (inside mem)).1, fun c mem => (known c (inside mem)).2, by omega⟩

/-! ### Handling a segment -/

section

variable (c : Connection) (registry : MetaRegistry) (config : Config) (probe : Option LengthProbe)
  (d : Direction) (s : Segment)

/-- What opening and correlation leave held. -/
theorem held_linked :
    ((c.linked registry config d s).flow d).reorder.held = (c.flow d).reorder.held := by
  have opened : ((c.flow d).opened s).reorder.held = (c.flow d).reorder.held := by
    unfold Flow.opened
    split <;> rfl
  rw [(c.samePayload_linked registry config d s).1.reorder, opened]

/-- A segment that does not close the connection leaves it as it is. -/
theorem endWith_of_closed_eq (same : (c.endWith s).1.closed = c.closed) : (c.endWith s).1 = c := by
  unfold endWith at same ⊢
  split
  · rfl
  · rename_i ends
    rw [if_neg ends] at same
    have closed : true = c.closed := same
    rw [← closed, Bool.true_or] at ends
    exact absurd rfl ends

theorem reorder_finished :
    ((c.finished registry config probe d s).connection.flow d).reorder =
      ((c.dissected registry config probe d s).connection.flow d).reorder := by
  unfold finished
  split
  · obtain ⟨f, connection, reorder, -⟩ :=
      (c.dissected registry config probe d s).connection.closeDirection_cases d s.frame probe.isSome
    rw [connection, flow_setFlow_same, reorder]
  · rfl

/-- **What a segment leaves held**: nothing if it closes its connection.  Otherwise what it pushes counts
in its own direction, and the other direction keeps what it holds. -/
theorem reorder_handle :
    (c.handle registry config probe d s).connection.IsDrained ∧
        (c.handle registry config probe d s).connection.closed ≠ c.closed ∨
      (c.handle registry config probe d s).connection.closed = c.closed ∧
        ((c.handle registry config probe d s).connection.flow d.opposite).reorder =
          (c.flow d.opposite).reorder ∧
        (¬ c.PassesPayload config probe d s ∧
            ((c.handle registry config probe d s).connection.flow d).reorder.held =
              (c.flow d).reorder.held ∨
          c.PassesPayload config probe d s ∧
            ((c.handle registry config probe d s).connection.flow d).reorder =
              (reorder ((c.linked registry config d s).flow d) (c.arriving config d s)
                config.maxReorderBytes).1.reorder) := by
  have ended := (c.continues_handle_of_ended registry config probe d s).closed
  have still := (c.continues_finished registry config probe d s).closed
  by_cases same : (c.handle registry config probe d s).connection.closed = c.closed
  · refine Or.inr ⟨same, ?_⟩
    have flows : (c.handle registry config probe d s).connection.flows =
        (c.finished registry config probe d s).connection.flows := by
      rw [handle_flows, endWith_of_closed_eq _ _ (ended.symm.trans (same.trans still.symm))]
    have flow (e : Direction) : (c.handle registry config probe d s).connection.flow e =
        (c.finished registry config probe d s).connection.flow e := congrArg (·.get e) flows
    rw [flow, flow, reorder_finished,
      (c.samePayload_finished_opposite registry config probe d s).reorder]
    refine ⟨rfl, ?_⟩
    rcases c.dissected_cases registry config probe d s with
      ⟨ignored, dissected⟩ | ⟨passes, lengthProbe, f, chunks, -, reordered, fed⟩
    · rw [dissected]
      exact Or.inl ⟨ignored, c.held_linked registry config d s⟩
    · rw [fed, flow_setFlow_same, reordered]
      exact Or.inr ⟨passes, rfl⟩
  · refine Or.inl ⟨?_, same⟩
    have alive : c.closed = false := by
      refine Bool.eq_false_iff.2 fun late => same ?_
      exact (c.handle_of_closed registry config probe d s late).1.trans late.symm
    refine c.isDrained_handle_of_closes registry config probe d s alive ?_
    rw [alive] at same
    exact eq_true_of_ne_false same

/-- Neither direction holds more bytes than the limit. -/
def HoldsWithin (limit : Nat) : Prop := ∀ e, (c.flow e).reorder.heldBytes ≤ limit

/-- If the segment takes its direction over the limit, giving up one hole brings it down again.  What a
segment leaves that closes its connection does not count. -/
def Relieves : Prop :=
  c.PassesPayload config probe d s →
    (c.handle registry config probe d s).connection.closed = c.closed →
      (((c.linked registry config d s).flow d).reorder.push (c.arriving config d s)).1.Relieved
        config.maxReorderBytes

variable {c}

/-- **One segment** leaves its connection within the limit if and only if it relieves it. -/
theorem holdsWithin_handle_iff (within : c.HoldsWithin config.maxReorderBytes) :
    (c.handle registry config probe d s).connection.HoldsWithin config.maxReorderBytes ↔
      c.Relieves registry config probe d s := by
  rcases c.reorder_handle registry config probe d s with
    ⟨drained, closes⟩ | ⟨same, opposite, ⟨ignored, held⟩ | ⟨passes, reordered⟩⟩
  · refine iff_of_true (fun e => ?_) fun _ same => absurd same closes
    rw [ReorderBuffer.heldBytes, (drained.clear e).held]
    exact Nat.zero_le _
  · refine iff_of_true (fun e => ?_) fun passes => absurd passes ignored
    by_cases own : e = d
    · rw [own, ReorderBuffer.heldBytes, held]
      exact within d
    · obtain rfl := Direction.eq_opposite_of_ne own
      rw [opposite]
      exact within _
  · have before : ((c.linked registry config d s).flow d).reorder.heldBytes ≤
        config.maxReorderBytes := by
      rw [ReorderBuffer.heldBytes, held_linked]
      exact within d
    have step := heldBytes_reorder_le_iff before (c.arriving config d s)
    rw [← reordered] at step
    refine ⟨fun after _ _ => step.1 (after d), fun relieves e => ?_⟩
    by_cases own : e = d
    · exact own ▸ step.2 (relieves passes same)
    · obtain rfl := Direction.eq_opposite_of_ne own
      rw [opposite]
      exact within _

/-- **One segment** never leaves more chunks held than the limit on bytes. -/
theorem sparse_handle {longest : Nat}
    (sparse : ∀ e, (c.flow e).reorder.Sparse config.maxReorderBytes longest)
    (short : s.payload.length ≤ longest) (e : Direction) :
    ((c.handle registry config probe d s).connection.flow e).reorder.Sparse config.maxReorderBytes
      longest := by
  rcases c.reorder_handle registry config probe d s with
    ⟨drained, -⟩ | ⟨-, opposite, own⟩
  · exact .of_held_nil (drained.clear e).held
  · by_cases same : e = d
    · subst same
      rcases own with ⟨-, held⟩ | ⟨-, reordered⟩
      · exact (sparse e).of_subperm (held ▸ .refl _)
      · rw [reordered]
        refine sparse_reorder ((sparse e).of_subperm ?_) short
        rw [held_linked]
    · obtain rfl := Direction.eq_opposite_of_ne same
      rw [opposite]
      exact sparse _

end

end Connection

/-! ### Runs -/

namespace Session

/-- In every state of a run of a new session no direction holds more than the limit. -/
def ReorderBounded (config : Config) (calls : List Call) : Prop :=
  ∀ pre, pre <+: calls → ∀ c ∈ ((new config).after pre).table.live,
    c.HoldsWithin config.maxReorderBytes

/-- A connection that opens holds nothing. -/
theorem reorder_start (stream : Nat) (conversation : Conversation) (now : Nat) (e : Direction) :
    ((Connection.start stream conversation now).flow e).reorder.held = [] := by
  cases e <;> rfl

/-- **The limit holds if and only if each segment that takes a direction over it is relieved by giving up
one hole.** -/
theorem reorderBounded_iff (config : Config) (calls : List Call) :
    ReorderBounded config calls ↔
      ∀ pre call, pre ++ [call] <+: calls → ∀ r c, ((new config).after pre).Handles call r c →
        c.Relieves r.session.registry config call.probe call.direction call.segment := by
  refine forall_live_iff (fun stream conversation now e => ?_) config ?_ calls
  · rw [ReorderBuffer.heldBytes, reorder_start]
    exact Nat.zero_le _
  · intro s call r c _ same handles within
    have config' : r.session.config = config := handles.config.trans same
    have step := Connection.holdsWithin_handle_iff r.session.registry config call.probe
      call.direction call.segment within
    unfold handled
    rw [config']
    exact step

/-- **In any case** a direction holds no more chunks than the limit on bytes, so that many times the
longest payload at most. -/
theorem sparse_after {config : Config} {calls : List Call} {longest : Nat}
    (short : ∀ call ∈ calls, call.segment.payload.length ≤ longest) :
    ∀ c ∈ ((new config).after calls).table.live, ∀ e,
      (c.flow e).reorder.Sparse config.maxReorderBytes longest := by
  induction calls using List.reverseRecOn with
  | nil => exact fun c mem => absurd mem List.not_mem_nil
  | append_singleton calls call ih =>
      have consistent := (consistent_new config).after calls
      have before := ih fun call mem => short call (List.mem_append_left _ mem)
      rw [after_concat]
      refine consistent.forall_live_take
        (fun stream conversation now e => .of_held_nil (reorder_start stream conversation now e))
        before fun r c handles sparse => ?_
      have config' : r.session.config = config :=
        handles.config.trans (config_after (consistent_new config) calls)
      have step := Connection.sparse_handle r.session.registry config call.probe call.direction
        call.segment sparse (short call (List.mem_append_right _ List.mem_cons_self))
      unfold handled
      rw [config']
      exact step

theorem heldBytes_after_le {config : Config} {calls : List Call} {longest : Nat}
    (short : ∀ call ∈ calls, call.segment.payload.length ≤ longest) :
    ∀ c ∈ ((new config).after calls).table.live,
      c.HoldsWithin (config.maxReorderBytes * longest) :=
  fun c mem e => (sparse_after short c mem e).heldBytes_le

/-- Two chunks wait, each behind a hole of its own.  The second one takes the direction over its limit of
one byte, which lets the first one out and leaves the second one, of two bytes. -/
theorem not_reorderBounded : ¬ ∀ (config : Config) (calls : List Call),
    ReorderBounded config calls := by
  intro all
  let client : Endpoint := ⟨.v4 0x0a000001, 40000⟩
  let server : Endpoint := ⟨.v4 0x0a000002, 443⟩
  let segment : Segment := { source := client, destination := server, ack := 78, flags.ack := true }
  let probe : LengthProbe := LengthField.probe ⟨0, .one, 1⟩
  let syn : Call := { segment := { source := client, destination := server, flags.syn := true }, probe }
  let first : Call := { segment := { segment with seq := 3, payload := [0] }, probe }
  let second : Call := { segment := { segment with seq := 6, payload := [1, 10] }, probe }
  have held : ((new { maxReorderBytes := 1 }).after [syn, first, second]).table.live.any (fun c =>
      decide (1 < (c.flow second.direction).reorder.heldBytes)) = true := by
    decide +kernel
  obtain ⟨c, mem, excess⟩ := List.any_eq_true.1 held
  rw [decide_eq_true_iff] at excess
  exact absurd (all _ _ _ (List.prefix_refl _) c mem _) (Nat.not_le.2 excess)

end Session

end TcpCapture
