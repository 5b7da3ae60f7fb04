import TcpCapture.Proofs.Flow.Release
import TcpCapture.Proofs.Pdu.Ending
import TcpCapture.Proofs.Session.Reassembly

/-!
# Payload on its way through a session

What a direction carries goes through its reorder buffer into its assembler.  As long as the connection
stays open and no hole is given up, that is all that happens to it: a run of calls pushes the payload
of the direction and feeds what comes out.

## Main definitions

* `Flow.Stands` — the anchor, the reorder buffer and the assembler of a flow
* `Session.Feeding` — the live connection of a conversation, and where one of its directions stands
* `Session.Unfinished` — no connection of the conversation has seen a direction end

**One direction may have ended.**  A connection is open until both have.  These lemmas ask that the
peer has not ended its direction, and so hold on both sides of a FIN.
-/

namespace TcpCapture

/-- The anchor of the flow, its reorder buffer and its assembler. -/
structure Flow.Stands (isn : Seq) (b : ReorderBuffer) (a : Assembler) (f : Flow) : Prop where
  baseSeq : f.baseSeq = some isn
  reorder : f.reorder = b
  assembler : f.assembler = a

theorem Flow.Stands.samePayload {isn : Seq} {b : ReorderBuffer} {a : Assembler} {f g : Flow}
    (h : f.Stands isn b a) (same : f.SamePayload g) : g.Stands isn b a where
  baseSeq := same.baseSeq.trans h.baseSeq
  reorder := same.reorder.trans h.reorder
  assembler := same.assembler.trans h.assembler

namespace Connection

/-! ### The end of a direction -/

theorem finFrame_reorder (f : Flow) (chunk : Chunk) (limit : Nat) :
    (reorder f chunk limit).1.finFrame = f.finFrame := by
  unfold reorder skipGap
  dsimp only
  split
  · rfl
  · rfl
  · split
    · rfl
    · split <;> rfl

section

variable (c : Connection) (registry : MetaRegistry) (config : Config) (probe : Option LengthProbe)
  (d : Direction) (s : Segment)

/-- Payload ends nothing. -/
theorem finFrame_dissected :
    ((c.dissected registry config probe d s).connection.flow d).finFrame =
      (c.flow d).finFrame := by
  have linked := (c.samePayload_linked registry config d s).1.finFrame
  have opened : ((c.flow d).opened s).finFrame = (c.flow d).finFrame := by
    unfold Flow.opened
    split <;> rfl
  rw [opened] at linked
  rcases c.dissected_cases registry config probe d s with
    ⟨-, same⟩ | ⟨-, lengthProbe, f, chunks, -, reordered, fed⟩
  · rw [same]
    exact linked
  · have kept := finFrame_reorder ((c.linked registry config d s).flow d) (c.arriving config d s)
      config.maxReorderBytes
    rw [reordered] at kept
    rw [fed, flow_setFlow_same]
    exact kept.trans linked

/-! ### One segment -/

variable {c config d s} {isn : Seq} {b : ReorderBuffer} {a : Assembler}

/-- Dissecting a segment pushes its payload and feeds what comes out. -/
theorem stands_dissected (lengthProbe : LengthProbe) (plain : s.IsPlain)
    (data : s.payload = [] ∨ 2 ≤ s.payloadLen) (stands : (c.flow d).Stands isn b a)
    (room : (b.push (s.chunk isn)).1.heldBytes ≤ config.maxReorderBytes) :
    let fed := a.feedAll config.framing lengthProbe (b.push (s.chunk isn)).2.released
    let out := c.dissected registry config (some lengthProbe) d s
    (out.connection.flow d).Stands isn (b.push (s.chunk isn)).1 fed.assembler ∧
      out.pdus = fed.pdus := by
  intro fed out
  have kept := stands.samePayload ((Flow.samePayload_opened plain.syn stands.baseSeq).trans
    (c.samePayload_linked registry config d s).1)
  unfold out
  rcases data with empty | data
  · -- no payload: nothing is pushed, nothing comes out
    have none : b.push (s.chunk isn) = (b, .inOrder []) := by
      rw [ReorderBuffer.push, if_pos (show (s.chunk isn).data = [] from empty)]
    have nothing : fed = { assembler := a } := by
      unfold fed
      rw [none]
      rfl
    rw [c.dissected_of_empty registry config (some lengthProbe) d empty, nothing, none]
    exact ⟨kept, rfl⟩
  · rw [c.dissected_of_data registry config d lengthProbe data,
      reassemble_eq registry config lengthProbe kept.baseSeq,
      reorder_of_le (by rw [kept.reorder]; exact room)]
    dsimp only
    refine ⟨?_, by rw [kept.reorder, kept.assembler]⟩
    rw [flow_setFlow_same, kept.reorder, kept.assembler]
    exact ⟨kept.baseSeq, rfl, rfl⟩

/-- A segment of the direction pushes its payload and feeds what comes out. -/
theorem stands_handle (lengthProbe : LengthProbe) (alive : c.closed = false) (plain : s.IsPlain)
    (data : s.payload = [] ∨ 2 ≤ s.payloadLen) (unfinished : (c.flow d.opposite).finFrame = none)
    (stands : (c.flow d).Stands isn b a)
    (room : (b.push (s.chunk isn)).1.heldBytes ≤ config.maxReorderBytes) :
    let fed := a.feedAll config.framing lengthProbe (b.push (s.chunk isn)).2.released
    let handled := c.handle registry config (some lengthProbe) d s
    handled.connection.closed = false ∧
      (handled.connection.flow d.opposite).finFrame = none ∧
      (handled.connection.flow d).Stands isn (b.push (s.chunk isn)).1 fed.assembler ∧
      handled.pdus = fed.pdus := by
  intro fed handled
  obtain ⟨dissected, fedPdus⟩ := stands_dissected registry lengthProbe plain data stands room
  have peer := (c.samePayload_dissected_opposite registry config (some lengthProbe) d s).finFrame
  obtain ⟨flows, closed, pdus⟩ := c.handle_of_open registry config (some lengthProbe) d alive
    plain.fin plain.rst (e := d.opposite) (peer.trans unfinished)
  refine ⟨closed, ?_, ?_, pdus.trans fedPdus⟩
  · rw [flow, flows]
    exact peer.trans unfinished
  · rw [flow, flows]
    exact dissected

/-- A segment of the peer leaves the direction as it stands. -/
theorem stands_handle_opposite (alive : c.closed = false) (fin : s.flags.fin = false)
    (rst : s.flags.rst = false) (unfinished : (c.flow d).finFrame = none)
    (stands : (c.flow d.opposite).Stands isn b a) :
    (c.handle registry config probe d s).connection.closed = false ∧
      ((c.handle registry config probe d s).connection.flow d).finFrame = none ∧
      ((c.handle registry config probe d s).connection.flow d.opposite).Stands isn b a := by
  have own := (c.finFrame_dissected registry config probe d s).trans unfinished
  obtain ⟨flows, closed, -⟩ := c.handle_of_open registry config probe d alive fin rst own
  refine ⟨closed, ?_, ?_⟩
  · rw [flow, flows]
    exact own
  · rw [flow, flows]
    exact stands.samePayload (c.samePayload_dissected_opposite registry config probe d s)

/-- A FIN without payload closes the assembler of its direction. -/
theorem stands_handle_fin (lengthProbe : LengthProbe) (alive : c.closed = false)
    (syn : s.flags.syn = false) (fin : s.flags.fin = true) (rst : s.flags.rst = false)
    (empty : s.payload = []) (unfinished : (c.flow d.opposite).finFrame = none)
    (stands : (c.flow d).Stands isn b a) :
    let handled := c.handle registry config (some lengthProbe) d s
    handled.connection.closed = false ∧
      (handled.connection.flow d.opposite).finFrame = none ∧
      (handled.connection.flow d).Stands isn b (a.close s.frame).assembler ∧
      handled.pdus = (a.close s.frame).pdu.toList := by
  intro handled
  have kept := stands.samePayload ((Flow.samePayload_opened syn stands.baseSeq).trans
    (c.samePayload_linked registry config d s).1)
  have peer := (c.samePayload_linked registry config d s).2.finFrame.trans unfinished
  have dissected := c.dissected_of_empty registry config (some lengthProbe) d empty
  have finished : c.finished registry config (some lengthProbe) d s =
      (c.linked registry config d s).closeDirection d s.frame true := by
    rw [Connection.finished, fin, if_pos rfl, dissected]
    rfl
  have other : (((c.linked registry config d s).closeDirection d s.frame true).connection.flow
      d.opposite).finFrame = none := by
    unfold closeDirection
    dsimp only
    rw [if_pos rfl, flow_setFlow_opposite]
    exact peer
  obtain ⟨flows, closed⟩ := c.handle_of_unfinished registry config (some lengthProbe) d alive rst
    (e := d.opposite) (by rw [finished]; exact other)
  rw [finished] at flows
  refine ⟨closed, ?_, ?_, ?_⟩
  · rw [flow, flows]
    exact other
  · rw [flow, flows]
    show Flow.Stands isn b _
      (((c.linked registry config d s).closeDirection d s.frame true).connection.flow d)
    unfold closeDirection
    dsimp only
    rw [if_pos rfl, flow_setFlow_same]
    exact ⟨kept.baseSeq, kept.reorder, by rw [kept.assembler]⟩
  · show (c.handle registry config (some lengthProbe) d s).pdus = _
    rw [handle_pdus, finished, dissected]
    unfold closeDirection
    dsimp only
    rw [if_pos rfl, kept.assembler]
    rfl

/-- A segment without FIN ends no direction. -/
theorem finFrame_handle (probe : Option LengthProbe) (fin : s.flags.fin = false) (e : Direction) :
    ((c.handle registry config probe d s).connection.flow e).finFrame = (c.flow e).finFrame := by
  have finished : c.finished registry config probe d s =
      { connection := (c.dissected registry config probe d s).connection } := by
    rw [Connection.finished, fin, if_neg Bool.false_ne_true]
  have dissected : ((c.dissected registry config probe d s).connection.flow e).finFrame =
      (c.flow e).finFrame := by
    by_cases own : e = d
    · rw [own]
      exact c.finFrame_dissected registry config probe d s
    · obtain rfl := Direction.eq_opposite_of_ne own
      exact (c.samePayload_dissected_opposite registry config probe d s).finFrame
  rw [flow, handle_flows, finished, ← dissected]
  unfold endWith
  split
  · rfl
  · cases e <;> rfl

end

end Connection

/-! ### One direction of a conversation -/

namespace Session

/-- The live connection of the conversation, last active at `last`, is where direction `d` stands at the
buffer `b` and the assembler `a`; the peer has not ended its direction. -/
structure Feeding (config : Config) (conversation : Conversation) (d : Direction) (isn : Seq)
    (b : ReorderBuffer) (a : Assembler) (last : Nat) (s : Session) : Prop where
  consistent : s.Consistent
  settings : s.config = config
  live : ∃ c ∈ s.table.live, c.conversation = conversation ∧ c.tsPrev = last ∧ c.closed = false ∧
    (c.flow d.opposite).finFrame = none ∧ (c.flow d).Stands isn b a

/-- A call that brings payload in direction `d`, and neither opens nor ends anything. -/
structure Brings (probe : LengthProbe) (conversation : Conversation) (d : Direction)
    (call : Call) : Prop where
  conversation : call.conversation = conversation
  direction : call.direction = d
  probe : call.probe = some probe
  plain : call.segment.IsPlain
  data : 2 ≤ call.segment.payloadLen

/-- A call that ends direction `d`: a FIN without payload. -/
structure Finishes (conversation : Conversation) (d : Direction) (call : Call) : Prop where
  conversation : call.conversation = conversation
  direction : call.direction = d
  fin : call.segment.flags.fin = true
  syn : call.segment.flags.syn = false
  rst : call.segment.flags.rst = false
  empty : call.segment.payload = []

namespace Feeding

variable {config : Config} {conversation : Conversation} {d : Direction} {isn : Seq}
  {b : ReorderBuffer} {a : Assembler} {last : Nat} {s : Session}

/-- A call that opens nothing is handled by the connection, which then stands where handling left
it. -/
theorem step (h : s.Feeding config conversation d isn b a last) {call : Call}
    (same : call.conversation = conversation) (opening : call.segment.isOpening = false)
    (recent : call.segment.timestamp ≤ last + config.idleTimeout) :
    ∃ (c : Connection) (registry : MetaRegistry), c.closed = false ∧
      (c.flow d.opposite).finFrame = none ∧ (c.flow d).Stands isn b a ∧
      let handled := c.handle registry config call.probe call.direction call.segment
      deliveredIn call.direction [s.take call] = handled.pdus.map (fun pdu => (pdu.seq, pdu.data)) ∧
      ∀ b' a', handled.connection.closed = false →
        (handled.connection.flow d.opposite).finFrame = none →
        (handled.connection.flow d).Stands isn b' a' →
        (s.take call).session.Feeding config conversation d isn b' a' call.segment.timestamp := by
  obtain ⟨consistent, settings, c, mem, conv, active, alive, unfinished, stands⟩ := h
  have handles := handles_of_live consistent mem (conv.trans same.symm)
    (by rw [active, settings]; exact recent) opening
  have swept : (s.swept call).config = config := handles.config.trans settings
  have unfolded : handled call ⟨s.swept call, c.stream, false, []⟩ c =
      c.handle (s.swept call).registry config call.probe call.direction call.segment := by
    rw [handled, swept]
  refine ⟨c, (s.swept call).registry, alive, unfinished, stands, ?_⟩
  rw [← unfolded]
  refine ⟨handles.deliveredIn consistent, fun b' a' closed unfinished stands => ?_⟩
  exact ⟨consistent.take call, (config_take consistent call).trans settings, _,
    handles.mem_live_take consistent, handles.sameIdentity.conversation.trans conv, rfl, closed,
    unfinished, stands⟩

/-- A call of the direction: its payload is pushed, and what comes out is fed. -/
theorem push (h : s.Feeding config conversation d isn b a last) {probe : LengthProbe} {call : Call}
    (same : call.conversation = conversation) (own : call.direction = d)
    (dissected : call.probe = some probe) (plain : call.segment.IsPlain)
    (data : call.segment.payload = [] ∨ 2 ≤ call.segment.payloadLen)
    (recent : call.segment.timestamp ≤ last + config.idleTimeout)
    (room : (b.push (call.segment.chunk isn)).1.heldBytes ≤ config.maxReorderBytes) :
    let fed := a.feedAll config.framing probe (b.push (call.segment.chunk isn)).2.released
    (s.take call).session.Feeding config conversation d isn (b.push (call.segment.chunk isn)).1
        fed.assembler call.segment.timestamp ∧
      deliveredIn d [s.take call] = fed.pdus.map fun pdu => (pdu.seq, pdu.data) := by
  subst own
  obtain ⟨c, registry, alive, unfinished, stands, delivered, rebuild⟩ :=
    h.step same (by rw [Segment.isOpening, plain.syn, Bool.false_and]) recent
  rw [dissected] at delivered rebuild
  obtain ⟨closed, unfinished, stands, pdus⟩ :=
    Connection.stands_handle registry probe alive plain data unfinished stands room
  exact ⟨rebuild _ _ closed unfinished stands, delivered.trans (congrArg _ pdus)⟩

/-- **One call**: its payload is pushed, and what comes out is fed. -/
theorem take (h : s.Feeding config conversation d isn b a last) {probe : LengthProbe}
    {stream : List UInt8} {call : Call} (carries : Carries probe stream isn conversation d call)
    (recent : call.segment.timestamp ≤ last + config.idleTimeout)
    (room : (b.pushAll (arrivals d isn [call])).heldBytes ≤ config.maxReorderBytes) :
    let fed := a.feedAll config.framing probe (b.releasedBy (arrivals d isn [call]))
    (s.take call).session.Feeding config conversation d isn (b.pushAll (arrivals d isn [call]))
        fed.assembler call.segment.timestamp ∧
      deliveredIn d [s.take call] = fed.pdus.map fun pdu => (pdu.seq, pdu.data) := by
  intro fed
  by_cases own : call.direction = d
  · have arrives : arrivals d isn [call] = [call.segment.chunk isn] := by simp [arrivals, own]
    have out : b.releasedBy (arrivals d isn [call]) = (b.push (call.segment.chunk isn)).2.released := by
      rw [arrives]
      exact List.append_nil _
    rw [arrives] at room
    unfold fed
    rw [out, arrives]
    exact h.push carries.conversation own carries.probe ⟨carries.syn own, carries.fin, carries.rst⟩
      ((carries.slice own).imp_right And.left) recent room
  · obtain ⟨c, registry, alive, unfinished, stands, delivered, rebuild⟩ :=
      h.step carries.conversation carries.opening recent
    rw [carries.probe] at delivered rebuild
    obtain rfl := Direction.eq_opposite_of_ne (Ne.symm own)
    have arrives : arrivals call.direction.opposite isn [call] = [] := by
      simp [arrivals, own]
    rw [Direction.opposite_opposite] at unfinished rebuild
    obtain ⟨closed, unfinished, stands⟩ := Connection.stands_handle_opposite registry (some probe)
      alive carries.fin carries.rst unfinished stands
    unfold fed
    rw [arrives, deliveredIn_of_direction h.consistent own]
    exact ⟨rebuild _ _ closed unfinished stands, rfl⟩

/-- **Any number of calls.**  The calls that come `next` stay timely. -/
theorem run {probe : LengthProbe} {stream : List UInt8} {calls : List Call}
    (h : s.Feeding config conversation d isn b a last) (next : List Call)
    (carries : ∀ call ∈ calls, Carries probe stream isn conversation d call)
    (timely : (last :: (calls ++ next).map (·.segment.timestamp)).IsChain
      fun earlier later => later ≤ earlier + config.idleTimeout)
    (room : ∀ pushed, pushed <+: arrivals d isn calls →
      (b.pushAll pushed).heldBytes ≤ config.maxReorderBytes)
    (fine : (a.feedAll config.framing probe (b.releasedBy (arrivals d isn calls))).error = none) :
    let fed := a.feedAll config.framing probe (b.releasedBy (arrivals d isn calls))
    (∃ last', (last' :: next.map (·.segment.timestamp)).IsChain
        (fun earlier later => later ≤ earlier + config.idleTimeout) ∧
      (s.after calls).Feeding config conversation d isn (b.pushAll (arrivals d isn calls))
        fed.assembler last') ∧
      deliveredIn d (s.run calls) = fed.pdus.map fun pdu => (pdu.seq, pdu.data) := by
  induction calls generalizing s b a last with
  | nil => exact ⟨⟨last, timely, h⟩, rfl⟩
  | cons call rest ih =>
      have arrives : arrivals d isn (call :: rest) =
          arrivals d isn [call] ++ arrivals d isn rest := arrivals_append d isn [call] rest
      rw [arrives, ReorderBuffer.releasedBy_append] at fine
      have first := h.take (carries call List.mem_cons_self) timely.rel
        (room _ (arrives ▸ List.prefix_append _ _))
      have split := Assembler.feedAll_append (Assembler.error_feedAll_of_append fine)
        ((b.pushAll (arrivals d isn [call])).releasedBy (arrivals d isn rest))
      rw [split] at fine
      obtain ⟨feeding, delivered⟩ := ih first.1
        (fun later mem => carries later (List.mem_cons_of_mem call mem)) timely.of_cons
        (fun pushed front => by
          rw [← ReorderBuffer.pushAll_append]
          exact room _ (arrives ▸ (List.prefix_append_right_inj _).2 front)) fine
      intro fed
      unfold fed
      rw [arrives, ReorderBuffer.releasedBy_append, ReorderBuffer.pushAll_append, split, run_cons,
        deliveredIn_cons, first.2, delivered]
      exact ⟨feeding, List.map_append.symm⟩

/-- **The FIN of the direction** closes its assembler, whatever the buffer still holds. -/
theorem take_fin (h : s.Feeding config conversation d isn b a last) {probe : LengthProbe}
    {call : Call} (dissected : call.probe = some probe) (finishes : Finishes conversation d call)
    (recent : call.segment.timestamp ≤ last + config.idleTimeout) :
    (s.take call).session.Feeding config conversation d isn b (a.close call.segment.frame).assembler
        call.segment.timestamp ∧
      deliveredIn d [s.take call] =
        (a.close call.segment.frame).pdu.toList.map fun pdu => (pdu.seq, pdu.data) := by
  obtain ⟨same, rfl, fin, syn, rst, empty⟩ := finishes
  have opening : call.segment.isOpening = false := by
    rw [Segment.isOpening, syn, Bool.false_and]
  obtain ⟨c, registry, alive, unfinished, stands, delivered, rebuild⟩ := h.step same opening recent
  rw [dissected] at delivered rebuild
  obtain ⟨closed, unfinished, stands, pdus⟩ := Connection.stands_handle_fin registry probe alive
    syn fin rst empty unfinished stands
  exact ⟨rebuild _ _ closed unfinished stands, delivered.trans (congrArg _ pdus)⟩

end Feeding

/-! ### Before the opening -/

/-- No live connection of the conversation has seen the end of direction `e`. -/
structure Unfinished (conversation : Conversation) (e : Direction) (s : Session) : Prop where
  consistent : s.Consistent
  unfinished : ∀ c ∈ s.table.live, c.conversation = conversation → (c.flow e).finFrame = none

namespace Unfinished

variable {s : Session} {conversation : Conversation} {e : Direction} {call : Call} {r : Resolved}

/-- No direction of a connection that opens has ended. -/
theorem finFrame_start (stream : Nat) (conv : Conversation) (now : Nat) :
    (Connection.start stream conv now).conversation = conversation →
      ((Connection.start stream conv now).flow e).finFrame = none := by
  intro _
  rw [Connection.flow, Connection.start, Duplex.get_both]

theorem resolved (h : s.Unfinished conversation e) (ok : s.resolved call = .ok r) :
    r.session.Unfinished conversation e where
  consistent := (h.consistent.swept call).resolve ok
  unfinished := h.consistent.forall_live_resolved
    (P := fun c => c.conversation = conversation → (c.flow e).finFrame = none) finFrame_start
    h.unfinished ok

/-- It takes a FIN to end a direction. -/
theorem take (h : s.Unfinished conversation e) (fin : call.segment.flags.fin = false) :
    (s.take call).session.Unfinished conversation e where
  consistent := h.consistent.take call
  unfinished := by
    refine h.consistent.forall_live_take
      (P := fun c => c.conversation = conversation → (c.flow e).finFrame = none) finFrame_start
      h.unfinished fun r c handles before same => ?_
    have still := before (handles.sameIdentity.conversation.symm.trans same)
    exact (Connection.finFrame_handle r.session.registry call.probe fin e).trans still

theorem after (h : s.Unfinished conversation e) {calls : List Call}
    (fin : ∀ call ∈ calls, call.segment.flags.fin = false) :
    (s.after calls).Unfinished conversation e := by
  induction calls using List.reverseRecOn with
  | nil => exact h
  | append_singleton calls call ih =>
      rw [after_concat]
      exact (ih fun c mem => fin c (List.mem_append_left _ mem)).take
        (fin call (List.mem_append_right _ (List.mem_singleton_self call)))

end Unfinished

theorem unfinished_new (config : Config) (conversation : Conversation) (e : Direction) :
    (new config).Unfinished conversation e where
  consistent := consistent_new config
  unfinished _ mem := absurd mem List.not_mem_nil

/-- The SYN of an untouched direction: from then on its payload is fed to a fresh assembler. -/
theorem Handles.feeding_take_syn {s : Session} {syn : Call} {r : Resolved} {c : Connection}
    (h : s.Consistent) (handles : s.Handles syn r c) (alive : c.closed = false)
    (untouched : (c.flow syn.direction).Untouched)
    (unfinished : (c.flow syn.direction.opposite).finFrame = none)
    (isSyn : syn.segment.flags.syn = true) (fin : syn.segment.flags.fin = false)
    (rst : syn.segment.flags.rst = false) (empty : syn.segment.payload = []) :
    (s.take syn).session.Feeding s.config syn.conversation syn.direction syn.segment.seq
        (ReorderBuffer.sync {} 1) {} syn.segment.timestamp ∧
      TcpCapture.deliveredIn syn.direction [s.take syn] = [] := by
  obtain ⟨closed, anchored, pdus⟩ := Connection.anchored_handle r.session.registry r.session.config
    syn.probe alive untouched isSyn fin rst empty
  refine ⟨⟨h.take syn, config_take h syn, _, handles.mem_live_take h,
    handles.sameIdentity.conversation.trans handles.conversation, rfl, closed,
    (Connection.finFrame_handle r.session.registry syn.probe fin _).trans unfinished,
    anchored.baseSeq, anchored.reorder, anchored.assembler⟩, ?_⟩
  rw [handles.deliveredIn h, show (handled syn r c).pdus = [] from pdus]
  rfl

/-- **The SYN of a direction**: from then on its payload is fed to a fresh assembler. -/
theorem Unopened.feeding_take_syn {s : Session} {syn : Call}
    (h : s.Unopened syn.conversation syn.direction)
    (peer : s.Unfinished syn.conversation syn.direction.opposite)
    (isSyn : syn.segment.flags.syn = true) (fin : syn.segment.flags.fin = false)
    (rst : syn.segment.flags.rst = false) (empty : syn.segment.payload = [])
    (accepted : (s.take syn).report.isOk = true) :
    (s.take syn).session.Feeding s.config syn.conversation syn.direction syn.segment.seq
        (ReorderBuffer.sync {} 1) {} syn.segment.timestamp ∧
      deliveredIn syn.direction [s.take syn] = [] := by
  rcases s.take_cases syn with ⟨e, refused⟩ | ⟨r, c, handles⟩
  · rw [take_of_refused refused] at accepted
    cases accepted
  · obtain ⟨alive, untouched⟩ := (h.resolved handles.resolved).untouched c handles.mem
      handles.conversation
    exact handles.feeding_take_syn h.consistent alive untouched
      ((peer.resolved handles.resolved).unfinished c handles.mem handles.conversation) isSyn fin rst
      empty

end Session

end TcpCapture
