import TcpCapture.Proofs.Flow.Batches
import TcpCapture.Proofs.Multipath.Pending
import TcpCapture.Proofs.Pdu.BadLength
import TcpCapture.Proofs.Session.Reassembly

/-!
# Closed connections

A connection that a reset or its second FIN closed stays live, so that late segments find it.  It was
torn down when it closed, and is not torn down again when it is retired.

## Main definitions

* `Connection.HoldsNothing` — nothing is held back, collected or pending in either direction
* `ReorderBuffer.Ahead` — a chunk lies behind a hole
* `Connection.Absorbs` — a late segment leaves nothing behind of its payload
* `ClosedHoldNothing` — in every state of a run the closed connections hold nothing

**Late payload.**  Nothing asks whether a connection is closed before it takes payload.  What is held
back behind a hole, what begins a PDU without ending it, and what no mapping covers stays there, and no
report tells of it.
-/

namespace TcpCapture

/-! ### One chunk on nothing -/

namespace Assembler

/-- Bytes are collected, and a PDU is open. -/
def IsBusy (a : Assembler) : Prop := a.buffer ≠ [] ∧ a.state ≠ .idle

variable {framing : Framing} {probe : LengthProbe} {a : Assembler}

/-- Without descriptors, draining ends with nothing or with an open PDU. -/
theorem isEmpty_or_isBusy_drain {frame time : Nat} (bare : a.descriptors = {}) :
    (a.drain framing probe frame time).assembler.IsEmpty ∨
      (a.drain framing probe frame time).assembler.IsBusy := by
  fun_induction Assembler.drain a framing probe frame time with
  | case1 a empty => exact Or.inl ⟨rfl, empty, bare⟩
  | case2 a nonempty n front short => exact Or.inr ⟨nonempty, by rintro ⟨⟩⟩
  | case3 a nonempty n front whole shorter rest ih =>
      refine ih ?_
      show a.descriptors.erase a.startSeq = {}
      rw [bare]
      rfl
  | case4 a nonempty entire front => exact Or.inr ⟨nonempty, by rintro ⟨⟩⟩
  | case5 a nonempty front => exact Or.inr ⟨nonempty, by rintro ⟨⟩⟩
  | case6 a nonempty declared front => exact Or.inl a.isEmpty_discard

theorem descriptors_start_append (bare : a.descriptors = {}) (c : Chunk) :
    ((a.start c).append c).1.descriptors = {} := by
  have started : (a.start c).descriptors = {} := by
    unfold Assembler.start
    split <;> exact bare
  unfold Assembler.append
  dsimp only
  rw [started]
  rfl

/-- So does feeding a chunk to an assembler with nothing collected. -/
theorem IsEmpty.feed (h : a.IsEmpty) (c : Chunk) :
    (a.feed framing probe c).assembler.IsEmpty ∨ (a.feed framing probe c).assembler.IsBusy := by
  by_cases empty : c.data = []
  · rw [Assembler.feed, if_pos empty]
    exact Or.inl h
  · rcases a.feed_cases framing probe empty with
      ⟨-, fed⟩ | ⟨-, fed | ⟨b, joined, fed⟩⟩
    · rw [fed]
      exact Or.inl h
    · rw [fed]
      refine Or.inr ⟨fun none => empty ?_, by rintro ⟨⟩⟩
      have collected : a.buffer ++ c.data = [] := (a.buffer_start_append c).symm.trans none
      exact (List.append_eq_nil_iff.1 collected).2
    · rw [fed]
      exact isEmpty_or_isBusy_drain (joined.descriptors.trans (descriptors_start_append h.descriptors c))

end Assembler

/-! ### A late chunk -/

/-- Nothing is held back, and nothing is collected. -/
structure Flow.IsClear (f : Flow) : Prop where
  held : f.reorder.held = []
  assembler : f.assembler.IsEmpty

theorem Flow.IsClear.samePayload {f g : Flow} (h : f.IsClear) (same : f.SamePayload g) :
    g.IsClear := ⟨same.reorder ▸ h.held, same.assembler ▸ h.assembler⟩

theorem Flow.IsClear.opened {f : Flow} (h : f.IsClear) (s : Segment) : (f.opened s).IsClear := by
  unfold Flow.opened
  split
  · exact ⟨h.held, h.assembler⟩
  · exact ⟨h.held, h.assembler⟩

namespace ReorderBuffer

/-- The chunk lies behind a hole. -/
def Ahead (b : ReorderBuffer) (c : Chunk) : Prop :=
  ∃ expected, b.nextSeq = some expected ∧ atOrBefore c.endSeq expected = false ∧
    after c.seq expected = true

theorem release_nil (c : Chunk) (seq : Seq) :
    release c seq [] = ([c.trimTo seq], ⟨some (c.trimTo seq).endSeq, []⟩) := by
  rw [release, collect]
  rfl

/-- Where nothing is held, a chunk is held back if it lies behind a hole, or it comes out alone if at
all. -/
theorem push_of_held_nil {b : ReorderBuffer} (none : b.held = []) {c : Chunk}
    (nonempty : c.data ≠ []) :
    (b.Ahead c ∧ ∃ expected, (b.push c).1 = ⟨some expected, [c]⟩ ∧
        (b.push c).2 = .gap expected c.seq) ∨
      ¬ b.Ahead c ∧ (b.push c).1.held = [] ∧
        ((b.push c).2 = .duplicate c.seq ∨ ∃ out, (b.push c).2 = .inOrder [out]) := by
  have unanchored : b.nextSeq = Option.none → ¬ b.Ahead c := by
    rintro next ⟨expected, same, -⟩
    rw [next] at same
    cases same
  have anchored {expected : Seq} (next : b.nextSeq = some expected) : b.Ahead c ↔
      atOrBefore c.endSeq expected = false ∧ after c.seq expected = true := by
    constructor
    · rintro ⟨expected', same, ahead⟩
      obtain rfl := Option.some.inj (next.symm.trans same)
      exact ahead
    · exact fun ahead => ⟨expected, next, ahead⟩
  have fresh : b.holds c = false := by
    rw [holds, none]
    rfl
  unfold push
  rw [if_neg nonempty]
  split
  · rename_i next
    exact Or.inr ⟨unanchored next, none, Or.inr ⟨c, rfl⟩⟩
  · rename_i expected next
    rw [anchored next, fresh, none, release_nil]
    split
    · rename_i stale
      exact Or.inr ⟨fun ahead => Bool.false_ne_true (ahead.1.symm.trans stale), none, Or.inl rfl⟩
    · rename_i new
      rw [Bool.not_eq_true] at new
      split
      · rename_i ahead
        refine Or.inl ⟨⟨new, ahead⟩, expected, ?_, rfl⟩
        rw [if_neg Bool.false_ne_true, next]
        rfl
      · rename_i reached
        exact Or.inr ⟨fun ahead => reached ahead.2, rfl, Or.inr ⟨_, rfl⟩⟩

/-- The only chunk held comes out when its hole is given up. -/
theorem skipGap?_singleton (expected : Seq) (c : Chunk) :
    ∃ skipped, skipGap? ⟨some expected, [c]⟩ =
      some ⟨⟨some c.endSeq, []⟩, skipped, [c]⟩ := by
  refine ⟨(c.seq - expected).toNat, ?_⟩
  have taken : swapRemove (fun d : Chunk => (d.seq - expected).toNat == (c.seq - expected).toNat) [c] =
      some (c, []) := by
    rw [swapRemove, if_pos (beq_self_eq_true _)]
    rfl
  unfold skipGap?
  simp only [Option.bind_eq_bind, Option.bind_some, List.map_cons, List.map_nil, List.min?_singleton,
    taken, release_nil, c.trimTo_seq]
  rfl

end ReorderBuffer

namespace Connection

/-- A chunk that comes to a direction which holds nothing is held back, behind a hole and within the
limit, or it leaves the reorder buffer empty. -/
theorem reorder_of_clear {f : Flow} (clear : f.IsClear) (chunk : Chunk)
    (nonempty : chunk.data ≠ []) (limit : Nat) :
    (reorder f chunk limit).1.assembler.IsEmpty ∧
      ((reorder f chunk limit).2 = [] ∨ ∃ out, (reorder f chunk limit).2 = [out]) ∧
      ((reorder f chunk limit).1.reorder.held = [] ↔
        (f.reorder.Ahead chunk → limit < chunk.data.length)) := by
  unfold reorder
  rcases ReorderBuffer.push_of_held_nil clear.held nonempty with
    ⟨ahead, expected, pushed, event⟩ | ⟨reached, held, event⟩
  · have bytes : (f.reorder.push chunk).1.heldBytes = chunk.data.length := by
      rw [pushed]
      rfl
    dsimp only
    rw [event]
    dsimp only
    rw [bytes]
    split
    · rename_i room
      refine ⟨clear.assembler, Or.inl rfl, fun none => ?_, fun excess => ?_⟩
      · change (f.reorder.push chunk).1.held = [] at none
        rw [pushed] at none
        cases none
      · exact absurd (excess ahead) (Nat.not_lt.2 room)
    · rename_i excess
      obtain ⟨skipped, given⟩ := ReorderBuffer.skipGap?_singleton expected chunk
      unfold skipGap
      dsimp only
      rw [pushed, given]
      exact ⟨Assembler.isEmpty_discard _, Or.inr ⟨chunk, rfl⟩, fun _ _ => Nat.not_le.1 excess,
        fun _ => rfl⟩
  · have none : (f.reorder.push chunk).1.held = [] ↔
        (f.reorder.Ahead chunk → limit < chunk.data.length) :=
      ⟨fun _ ahead => absurd ahead reached, fun _ => held⟩
    rcases event with event | ⟨out, event⟩
    · dsimp only
      rw [event]
      exact ⟨clear.assembler, Or.inl rfl, none⟩
    · dsimp only
      rw [event]
      exact ⟨clear.assembler, Or.inr ⟨out, rfl⟩, none⟩

/-- In either direction no chunk waits behind a hole, no PDU is open, and no subflow byte waits for a
mapping. -/
structure HoldsNothing (c : Connection) : Prop where
  held : ∀ e, (c.flow e).reorder.held = []
  idle : ∀ e, (c.flow e).assembler.state = .idle
  descriptors : ∀ e, (c.flow e).assembler.descriptors = {}
  pending : ∀ l ∈ c.link, ∀ e, l.NonePending e

/-- Nor is any byte collected. -/
structure IsDrained (c : Connection) : Prop where
  clear : ∀ e, (c.flow e).IsClear
  pending : ∀ l ∈ c.link, ∀ e, l.NonePending e

theorem IsDrained.holdsNothing {c : Connection} (h : c.IsDrained) : c.HoldsNothing where
  held e := (h.clear e).held
  idle e := (h.clear e).assembler.state
  descriptors e := (h.clear e).assembler.descriptors
  pending := h.pending

/-- Teardown leaves nothing. -/
theorem isDrained_teardown (c : Connection) (reason : TeardownReason) :
    (c.teardown reason).1.IsDrained where
  clear e := by cases e <;> exact ⟨rfl, Assembler.isEmpty_discard _⟩
  pending l mem := by
    obtain ⟨drained, taken, rfl⟩ := Option.map_eq_some_iff.1 mem
    obtain ⟨link, -, rfl⟩ := Option.map_eq_some_iff.1 taken
    exact link.nonePending_takePending

/-! ### Links -/

theorem link_noteOpening (c : Connection) (d : Direction) (s : Segment) :
    (c.noteOpening d s).link = c.link := by
  have handshake : (c.noteHandshake d s).link = c.link := by
    unfold noteHandshake
    split
    · rfl
    · split <;> rfl
  have scaled : ((c.noteHandshake d s).negotiateWindowScale d s).link = c.link := by
    unfold negotiateWindowScale
    split
    · exact handshake
    · extract_lets offered sender peer
      split <;> exact handshake
  exact scaled

section

variable (c : Connection) (registry : MetaRegistry) (config : Config) (probe : Option LengthProbe)
  (d : Direction) (s : Segment)

/-- A segment leaves no byte of the other direction pending where none was. -/
theorem nonePending_linked {e : Direction} (none : ∀ l ∈ c.link, l.NonePending e)
    (other : d ≠ e ∨ s.payload = []) :
    ∀ l ∈ (c.linked registry config d s).link, l.NonePending e := by
  have judged : (c.judged config d s).1.link = c.link := c.link_noteOpening d s
  unfold linked
  dsimp only
  rw [judged]
  split
  · exact nonePending_correlate none other
  · exact none

/-- Taking payload and ending a direction leave the link alone. -/
theorem link_finished :
    (c.finished registry config probe d s).connection.link =
      (c.linked registry config d s).link := by
  have dissected : (c.dissected registry config probe d s).connection.link =
      (c.linked registry config d s).link := by
    rcases c.dissected_cases registry config probe d s with
      ⟨-, same⟩ | ⟨-, lengthProbe, f, chunks, -, -, fed⟩
    · rw [same]
    · rw [fed]
      rfl
  unfold finished
  split
  · obtain ⟨f, connection, -⟩ :=
      (c.dissected registry config probe d s).connection.closeDirection_cases d s.frame probe.isSome
    rw [connection]
    exact dissected
  · exact dissected

/-- A segment ends no direction but its own. -/
theorem samePayload_finished_opposite :
    (c.flow d.opposite).SamePayload
      ((c.finished registry config probe d s).connection.flow d.opposite) := by
  refine (c.samePayload_dissected_opposite registry config probe d s).trans ?_
  unfold finished
  split
  · obtain ⟨f, connection, -⟩ :=
      (c.dissected registry config probe d s).connection.closeDirection_cases d s.frame probe.isSome
    rw [connection, flow_setFlow_opposite]
    exact .refl _
  · exact .refl _

/-- A connection that is closed stays so, and is not torn down again. -/
theorem handle_of_closed (closed : c.closed = true) :
    (c.handle registry config probe d s).connection.closed = true ∧
      (c.handle registry config probe d s).connection.flows =
        (c.finished registry config probe d s).connection.flows ∧
      (c.handle registry config probe d s).connection.link =
        (c.linked registry config d s).link := by
  have still := (c.continues_finished registry config probe d s).closed.trans closed
  have ended : (c.finished registry config probe d s).connection.endWith s =
      ((c.finished registry config probe d s).connection, none) := by
    rw [endWith, still, Bool.true_or, if_pos rfl]
  refine ⟨?_, by rw [handle_flows, ended], ?_⟩
  · rw [(c.continues_handle_of_ended registry config probe d s).closed, ended]
    exact still
  · rw [handle_link, ended]
    exact c.link_finished registry config probe d s

/-- A connection that closes is torn down. -/
theorem isDrained_handle_of_closes (alive : c.closed = false)
    (closes : (c.handle registry config probe d s).connection.closed = true) :
    (c.handle registry config probe d s).connection.IsDrained := by
  have closed := (c.continues_handle_of_ended registry config probe d s).closed.symm.trans closes
  have still := (c.continues_finished registry config probe d s).closed.trans alive
  have torn : ((c.finished registry config probe d s).connection.endWith s).1.IsDrained := by
    unfold endWith at closed ⊢
    split at closed
    · rw [still] at closed
      cases closed
    · rename_i ends
      rw [if_neg ends]
      exact isDrained_teardown { (c.finished registry config probe d s).connection with closed := true }
        (if s.flags.rst then .reset else .closed)
  refine ⟨fun e => ?_, ?_⟩
  · rw [flow, handle_flows]
    exact torn.clear e
  · rw [handle_link]
    exact torn.pending

/-! ### Late segments -/

/-- Payload that is passed on lies behind no hole, or is more than may be held back. -/
def PlacesPayload : Prop :=
  c.PassesPayload config probe d s →
    ((c.linked registry config d s).flow d).reorder.Ahead (c.arriving config d s) →
      config.maxReorderBytes < s.payload.length

/-- The segment leaves nothing behind of its payload. -/
structure Absorbs : Prop where
  placed : c.PlacesPayload registry config probe d s
  /-- What comes out is made up of whole PDUs, or the segment ends the direction. -/
  whole : s.flags.fin = false →
    ((c.dissected registry config probe d s).connection.flow d).assembler.buffer = []
  /-- Mappings cover what belongs to a multipath connection. -/
  covered : ∀ l ∈ (c.linked registry config d s).link, l.NonePending d

variable {c} (closed : c.closed = true) (drained : c.IsDrained)

include drained

theorem clear_linked (e : Direction) : ((c.linked registry config d s).flow e).IsClear := by
  have linked := c.samePayload_linked registry config d s
  by_cases own : e = d
  · subst own
    exact ((drained.clear e).opened s).samePayload linked.1
  · obtain rfl := Direction.eq_opposite_of_ne own
    exact (drained.clear _).samePayload linked.2

/-- What late payload leaves in its direction. -/
theorem dissected_of_drained :
    (((c.dissected registry config probe d s).connection.flow d).reorder.held = [] ↔
        c.PlacesPayload registry config probe d s) ∧
      (((c.dissected registry config probe d s).connection.flow d).assembler.IsEmpty ∨
        probe.isSome = true ∧
          ((c.dissected registry config probe d s).connection.flow d).assembler.IsBusy) := by
  have clear := clear_linked registry config d s drained d
  rcases c.dissected_cases registry config probe d s with
    ⟨ignored, same⟩ | ⟨passes, lengthProbe, f, chunks, dissecting, reordered, fed⟩
  · rw [same]
    exact ⟨⟨fun _ passes => absurd passes ignored, fun _ => clear.held⟩, Or.inl clear.assembler⟩
  · obtain ⟨empty, out, held⟩ := reorder_of_clear clear (c.arriving config d s) passes.2.1
      config.maxReorderBytes
    rw [reordered] at empty out held
    rw [fed, flow_setFlow_same]
    refine ⟨held.trans ⟨fun fits _ => fits, fun placed => placed passes⟩, ?_⟩
    rcases out with rfl | ⟨out, rfl⟩
    · exact Or.inl empty
    · rw [dissecting, Assembler.feedAll_singleton]
      exact (empty.feed out).imp_right fun busy => ⟨rfl, busy⟩

/-- What it leaves once the direction may have ended. -/
theorem finished_of_drained :
    (((c.finished registry config probe d s).connection.flow d).reorder.held = [] ↔
        c.PlacesPayload registry config probe d s) ∧
      (((c.finished registry config probe d s).connection.flow d).assembler.state = .idle ↔
        (s.flags.fin = false →
          ((c.dissected registry config probe d s).connection.flow d).assembler.buffer = [])) ∧
      (((c.finished registry config probe d s).connection.flow d).assembler.state = .idle →
        ((c.finished registry config probe d s).connection.flow d).assembler.IsEmpty) := by
  obtain ⟨held, left⟩ := dissected_of_drained registry config probe d s drained
  unfold finished
  split
  · rename_i fin
    obtain ⟨f, connection, reorder, closing⟩ :=
      (c.dissected registry config probe d s).connection.closeDirection_cases d s.frame probe.isSome
    have empty : f.assembler.IsEmpty := by
      rcases closing with ⟨-, assembler, -⟩ | ⟨undissected, assembler, -⟩
      · exact assembler ▸ Assembler.isEmpty_close _ s.frame
      · refine assembler ▸ left.resolve_right fun busy => ?_
        exact Bool.false_ne_true (undissected.symm.trans busy.1)
    rw [connection, flow_setFlow_same, reorder]
    refine ⟨held, ⟨fun _ more => ?_, fun _ => empty.state⟩, fun _ => empty⟩
    exact absurd (more.symm.trans fin) Bool.false_ne_true
  · rename_i more
    refine ⟨held, ?_, fun idle => left.resolve_right fun busy => busy.2.2 idle⟩
    rcases left with empty | ⟨-, nonempty, open'⟩
    · exact ⟨fun _ _ => empty.buffer, fun _ => empty.state⟩
    · exact ⟨fun idle => absurd idle open',
        fun whole => absurd (whole (Bool.eq_false_iff.2 more)) nonempty⟩

include closed

/-- **A late segment** keeps a closed connection empty if and only if it leaves nothing of its
payload. -/
theorem holdsNothing_handle_iff :
    ((c.handle registry config probe d s).connection.HoldsNothing ↔
        c.Absorbs registry config probe d s) ∧
      ((c.handle registry config probe d s).connection.HoldsNothing →
        (c.handle registry config probe d s).connection.IsDrained) := by
  obtain ⟨held, idle, empty⟩ := finished_of_drained registry config probe d s drained
  obtain ⟨-, flows, link⟩ := c.handle_of_closed registry config probe d s closed
  have own : (c.handle registry config probe d s).connection.flow d =
      (c.finished registry config probe d s).connection.flow d := congrArg (·.get d) flows
  have other : ((c.handle registry config probe d s).connection.flow d.opposite).IsClear := by
    rw [flow, flows]
    exact (drained.clear _).samePayload (c.samePayload_finished_opposite registry config probe d s)
  have quiet : ∀ l ∈ (c.linked registry config d s).link, l.NonePending d.opposite :=
    c.nonePending_linked registry config d s (fun l mem => drained.pending l mem _)
      (Or.inl (by cases d <;> decide))
  have absorbs (nothing : (c.handle registry config probe d s).connection.HoldsNothing) :
      c.Absorbs registry config probe d s :=
    ⟨held.1 (own ▸ nothing.held d), idle.1 (own ▸ nothing.idle d),
      fun l mem => nothing.pending l (link ▸ mem) d⟩
  have drains (absorbs : c.Absorbs registry config probe d s) :
      (c.handle registry config probe d s).connection.IsDrained := by
    have clear : ((c.handle registry config probe d s).connection.flow d).IsClear := by
      rw [own]
      exact ⟨held.2 absorbs.placed, empty (idle.2 absorbs.whole)⟩
    constructor
    · intro e
      by_cases same : e = d
      · exact same ▸ clear
      · exact Direction.eq_opposite_of_ne same ▸ other
    · intro l mem e
      rw [link] at mem
      by_cases same : e = d
      · exact same ▸ absorbs.covered l mem
      · exact Direction.eq_opposite_of_ne same ▸ quiet l mem
  exact ⟨⟨absorbs, fun h => (drains h).holdsNothing⟩, fun nothing => drains (absorbs nothing)⟩

end

end Connection

namespace Session

/-- In every state of a run of a new session the closed connections hold nothing. -/
def ClosedHoldNothing (config : Config) (calls : List Call) : Prop :=
  ∀ pre, pre <+: calls → ∀ c ∈ ((new config).after pre).table.live, c.closed = true →
    c.HoldsNothing

/-- No segment that a closed connection handles leaves anything behind of its payload. -/
def LateAbsorbed (config : Config) (calls : List Call) : Prop :=
  ∀ pre call, pre ++ [call] <+: calls → ∀ r c, ((new config).after pre).Handles call r c →
    c.closed = true →
      c.Absorbs r.session.registry r.session.config call.probe call.direction call.segment

section

variable {s : Session} (h : s.Consistent)
  (drained : ∀ c ∈ s.table.live, c.closed = true → c.IsDrained) {call : Call}

include h drained

/-- A connection that opens for a call is not closed. -/
theorem drained_resolved {r : Resolved} (ok : s.resolved call = .ok r) :
    ∀ c ∈ r.session.table.live, c.closed = true → c.IsDrained :=
  h.forall_live_resolved (P := fun c => c.closed = true → c.IsDrained) (fun _ _ _ => nofun) drained ok

/-- A call that keeps closed connections empty leaves nothing of late payload. -/
theorem absorbs_of_take
    (nothing : ∀ c ∈ (s.take call).session.table.live, c.closed = true → c.HoldsNothing)
    {r : Resolved} {c : Connection} (handles : s.Handles call r c) (closed : c.closed = true) :
    c.Absorbs r.session.registry r.session.config call.probe call.direction call.segment := by
  have before := drained_resolved h drained handles.resolved c handles.mem closed
  have still := (c.handle_of_closed r.session.registry r.session.config call.probe call.direction
    call.segment closed).1
  obtain ⟨held, idle, descriptors, pending⟩ := nothing _ (handles.mem_live_take h) still
  exact (Connection.holdsNothing_handle_iff _ _ _ _ _ closed before).1.1
    ⟨held, idle, descriptors, pending⟩

/-- **One call** that leaves nothing of late payload keeps closed connections empty. -/
theorem drained_take
    (absorbs : ∀ r c, s.Handles call r c → c.closed = true →
      c.Absorbs r.session.registry r.session.config call.probe call.direction call.segment) :
    ∀ c ∈ (s.take call).session.table.live, c.closed = true → c.IsDrained := by
  refine h.forall_live_take (P := fun c => c.closed = true → c.IsDrained) (fun _ _ _ => nofun) drained
    fun r c handles before closed => ?_
  have own : (handled call r c).connection.IsDrained := by
    by_cases late : c.closed = true
    · obtain ⟨iff, drains⟩ := Connection.holdsNothing_handle_iff r.session.registry
        r.session.config call.probe call.direction call.segment late (before late)
      exact drains (iff.2 (absorbs r c handles late))
    · exact c.isDrained_handle_of_closes _ _ _ _ _ (Bool.eq_false_iff.2 late) closed
  exact ⟨own.clear, own.pending⟩

end

/-- After a run without late payload left behind, closed connections are empty. -/
theorem drained_after {config : Config} {calls : List Call} (absorbed : LateAbsorbed config calls) :
    ∀ c ∈ ((new config).after calls).table.live, c.closed = true → c.IsDrained := by
  induction calls using List.reverseRecOn with
  | nil => exact fun c mem => absurd mem List.not_mem_nil
  | append_singleton calls call ih =>
      rw [after_concat]
      exact drained_take ((consistent_new config).after calls)
        (ih fun pre call' reached => absorbed pre call' (reached.trans (List.prefix_append _ _)))
        (absorbed calls call (List.prefix_refl _))

/-- **Closed connections hold nothing if and only if late segments leave nothing of their payload
behind.** -/
theorem closedHoldNothing_iff (config : Config) (calls : List Call) :
    ClosedHoldNothing config calls ↔ LateAbsorbed config calls := by
  constructor
  · intro nothing
    induction calls using List.reverseRecOn with
    | nil =>
        intro pre call reached
        exact absurd (List.prefix_nil.1 reached) (by simp)
    | append_singleton calls call ih =>
        have absorbed := ih fun pre reached => nothing pre (reached.trans (List.prefix_append _ _))
        intro pre call' reached
        rcases List.prefix_concat_iff.1 reached with same | reached
        · obtain ⟨rfl, rfl⟩ := List.append_singleton_inj.1 same
          have last := nothing _ (List.prefix_refl _)
          rw [after_concat] at last
          exact fun r c => absorbs_of_take ((consistent_new config).after pre)
            (drained_after absorbed) last
        · exact absorbed pre call' reached
  · intro absorbed pre reached c mem closed
    have earlier : LateAbsorbed config pre :=
      fun pre' call' reached' => absorbed pre' call' (reached'.trans reached)
    exact (drained_after earlier c mem closed).holdsNothing

/-- A PDU that begins after a reset is collected, and nothing will give it up. -/
theorem not_closedHoldNothing : ¬ ∀ (config : Config) (calls : List Call),
    ClosedHoldNothing config calls := by
  intro all
  let client : Endpoint := ⟨.v4 0x0a000001, 40000⟩
  let server : Endpoint := ⟨.v4 0x0a000002, 443⟩
  let segment : Segment := { source := client, destination := server, seq := 1, ack := 78 }
  let syn : Call := { segment := { source := client, destination := server, flags.syn := true } }
  let rst : Call := { segment := { segment with flags.rst := true, flags.ack := true } }
  let data : Call := {
    segment := { segment with flags.ack := true, payload := [2, 10] }
    probe := LengthField.probe ⟨0, .one, 1⟩ }
  have collected : ((new {}).after [syn, rst, data]).table.live.any (fun c =>
      c.closed && decide ((c.flow data.direction).assembler.state ≠ .idle)) = true := by
    decide +kernel
  obtain ⟨c, mem, open'⟩ := List.any_eq_true.1 collected
  rw [Bool.and_eq_true, decide_eq_true_iff] at open'
  exact open'.2 ((all {} _ _ (List.prefix_refl _) c mem open'.1).idle _)

end Session

end TcpCapture
