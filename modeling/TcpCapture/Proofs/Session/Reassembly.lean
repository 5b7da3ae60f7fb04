import TcpCapture.Proofs.Session.Payload
import TcpCapture.Proofs.Session.Run

/-!
# Reassembly over a whole run

One direction of a connection carries a stream in slices.  Whatever the order in which they arrive, how
often, and how they overlap, the PDUs delivered are those of the stream parsed from its front.

## Main definitions

* `deliveredIn` — the PDUs that some calls deliver in a direction
* `Session.Unopened` — no connection of the conversation has seen anything of a direction
* `Carries` — a call after the opening, which carries at most a slice of the stream
* `Session.Following` — the session follows the stream, and how far it got

**Why the order does not matter.**  How far the stream has come out depends on which of its positions
are covered by the slices so far, not on how they came about; what is delivered depends only on how far
the stream has come out.
-/

namespace TcpCapture

open Session

/-- The PDUs delivered in a direction, each with the position of its first byte. -/
def deliveredIn (d : Direction) (outcomes : List Processed) : List (Seq × List UInt8) :=
  ((outcomes.flatMap (·.deliveries)).filter (·.direction = d)).map fun x => (x.pdu.seq, x.pdu.data)

theorem deliveredIn_cons (d : Direction) (p : Processed) (rest : List Processed) :
    deliveredIn d (p :: rest) = deliveredIn d [p] ++ deliveredIn d rest := by
  simp [deliveredIn]

theorem deliveredIn_append (d : Direction) (l l' : List Processed) :
    deliveredIn d (l ++ l') = deliveredIn d l ++ deliveredIn d l' := by
  simp [deliveredIn]

/-- The payload sent in a direction, in its place. -/
def arrivals (d : Direction) (isn : Seq) (calls : List Call) : List Chunk :=
  (calls.filter (·.direction = d)).map (·.segment.chunk isn)

theorem arrivals_append (d : Direction) (isn : Seq) (l l' : List Call) :
    arrivals d isn (l ++ l') = arrivals d isn l ++ arrivals d isn l' := by
  simp [arrivals]

theorem deliveredIn_of_direction {s : Session} (h : s.Consistent) {call : Call} {d : Direction}
    (other : call.direction ≠ d) : deliveredIn d [s.take call] = [] := by
  unfold deliveredIn
  rw [List.map_eq_nil_iff, List.filter_eq_nil_iff]
  intro x mem
  rw [List.flatMap_cons, List.flatMap_nil, List.append_nil] at mem
  rw [direction_of_deliveries h mem, decide_eq_true_iff]
  exact other

theorem Session.Handles.deliveredIn {s : Session} {call : Call} {r : Resolved} {c : Connection}
    (h : s.Consistent) (handles : s.Handles call r c) :
    deliveredIn call.direction [s.take call] =
      (handled call r c).pdus.map fun pdu => (pdu.seq, pdu.data) := by
  unfold TcpCapture.deliveredIn
  rw [handles.take_eq h]
  simp [List.filter_map, Function.comp_def]

/-! ### Before the opening -/

/-- Nothing is known of the direction. -/
structure Flow.Untouched (f : Flow) : Prop where
  baseSeq : f.baseSeq = none
  finFrame : f.finFrame = none
  reorder : f.reorder = {}
  assembler : f.assembler = {}

theorem Flow.Untouched.samePayload {f g : Flow} (h : f.Untouched) (same : f.SamePayload g) :
    g.Untouched where
  baseSeq := same.baseSeq.trans h.baseSeq
  finFrame := same.finFrame.trans h.finFrame
  reorder := same.reorder.trans h.reorder
  assembler := same.assembler.trans h.assembler

/-- The numbering is anchored, and nothing else has happened. -/
structure Flow.Anchored (isn : Seq) (f : Flow) : Prop where
  baseSeq : f.baseSeq = some isn
  finFrame : f.finFrame = none
  reorder : f.reorder = { nextSeq := some 1 }
  assembler : f.assembler = {}

theorem Flow.Anchored.samePayload {isn : Seq} {f g : Flow} (h : f.Anchored isn)
    (same : f.SamePayload g) : g.Anchored isn where
  baseSeq := same.baseSeq.trans h.baseSeq
  finFrame := same.finFrame.trans h.finFrame
  reorder := same.reorder.trans h.reorder
  assembler := same.assembler.trans h.assembler

/-- A SYN anchors its flow. -/
theorem Flow.Untouched.opened {f : Flow} (h : f.Untouched) {s : Segment}
    (syn : s.flags.syn = true) : (f.opened s).Anchored s.seq := by
  rw [Flow.opened, syn, if_pos rfl]
  refine ⟨?_, h.finFrame, ?_, h.assembler⟩
  · rw [Flow.setBase, h.baseSeq]
    rfl
  · rw [h.reorder]
    rfl

/-- The SYN of an untouched direction anchors it in the connection that handles it, and brings no
PDU. -/
theorem Connection.anchored_handle {c : Connection} (registry : MetaRegistry) (config : Config)
    (probe : Option LengthProbe) {d : Direction} {s : Segment} (alive : c.closed = false)
    (untouched : (c.flow d).Untouched) (syn : s.flags.syn = true) (fin : s.flags.fin = false)
    (rst : s.flags.rst = false) (empty : s.payload = []) :
    (c.handle registry config probe d s).connection.closed = false ∧
      ((c.handle registry config probe d s).connection.flow d).Anchored s.seq ∧
      (c.handle registry config probe d s).pdus = [] := by
  have nothing := c.dissected_of_empty registry config probe d empty
  have anchored :=
    (untouched.opened syn).samePayload (c.samePayload_linked registry config d s).1
  obtain ⟨flows, closed, pdus⟩ := c.handle_of_open registry config probe d (e := d) alive fin rst
    (nothing ▸ anchored.finFrame)
  refine ⟨closed, ?_, pdus.trans (congrArg Connection.Dissected.pdus nothing)⟩
  rw [Connection.flow, flows, nothing]
  exact anchored

namespace Session

/-- No connection of the conversation has seen anything of direction `d`. -/
structure Unopened (conversation : Conversation) (d : Direction) (s : Session) : Prop where
  consistent : s.Consistent
  untouched : ∀ c ∈ s.table.live, c.conversation = conversation →
    c.closed = false ∧ (c.flow d).Untouched

theorem unopened_new (config : Config) (conversation : Conversation) (d : Direction) :
    (new config).Unopened conversation d where
  consistent := consistent_new config
  untouched := fun _ mem => absurd mem List.not_mem_nil

namespace Unopened

variable {s : Session} {conversation : Conversation} {d : Direction} {call : Call} {r : Resolved}

/-- A connection that opens has not seen the direction. -/
theorem untouched_start (stream : Nat) (conv : Conversation) (now : Nat) :
    (Connection.start stream conv now).conversation = conversation →
      (Connection.start stream conv now).closed = false ∧
        ((Connection.start stream conv now).flow d).Untouched := by
  refine fun _ => ⟨rfl, ?_⟩
  rw [Connection.flow, Connection.start, Duplex.get_both]
  exact ⟨rfl, rfl, rfl, rfl⟩

/-- A connection found or opened for a segment has not seen the direction either. -/
theorem resolved (h : s.Unopened conversation d) (ok : s.resolved call = .ok r) :
    r.session.Unopened conversation d where
  consistent := (h.consistent.swept call).resolve ok
  untouched := h.consistent.forall_live_resolved
    (P := fun c => c.conversation = conversation → c.closed = false ∧ (c.flow d).Untouched)
    untouched_start h.untouched ok

/-- Segments of the peer that end nothing leave the direction as it is. -/
theorem take (h : s.Unopened conversation d) (peer : d = call.direction.opposite)
    (fin : call.segment.flags.fin = false) (rst : call.segment.flags.rst = false)
    (same : call.conversation = conversation) :
    (s.take call).session.Unopened conversation d where
  consistent := h.consistent.take call
  untouched := by
    subst peer
    refine h.consistent.forall_live_take
      (P := fun c => c.conversation = conversation →
        c.closed = false ∧ (c.flow call.direction.opposite).Untouched)
      untouched_start h.untouched fun r c handles before _ => ?_
    obtain ⟨alive, untouched⟩ := before (handles.conversation.trans same)
    have untouched := untouched.samePayload (c.samePayload_dissected_opposite r.session.registry
      r.session.config call.probe call.direction call.segment)
    obtain ⟨flows, closed, -⟩ := c.handle_of_open r.session.registry r.session.config call.probe
      call.direction alive fin rst untouched.finFrame
    refine ⟨closed, ?_⟩
    show Flow.Untouched ((handled call r c).connection.flows.get call.direction.opposite)
    exact (congrArg (·.get call.direction.opposite) flows).symm ▸ untouched

/-- So do any number of them, and they deliver nothing in the direction. -/
theorem run (h : s.Unopened conversation d) {calls : List Call}
    (peers : ∀ call ∈ calls, call.conversation = conversation ∧ d = call.direction.opposite ∧
      call.segment.flags.fin = false ∧ call.segment.flags.rst = false) :
    (s.after calls).Unopened conversation d ∧ deliveredIn d (s.run calls) = [] := by
  induction calls generalizing s with
  | nil => exact ⟨h, rfl⟩
  | cons call rest ih =>
      obtain ⟨same, peer, fin, rst⟩ := peers call List.mem_cons_self
      obtain ⟨unopened, none⟩ := ih (h.take peer fin rst same)
        fun later mem => peers later (List.mem_cons_of_mem call mem)
      have other : call.direction ≠ d := by
        rw [peer]
        cases call.direction <;> decide
      refine ⟨unopened, ?_⟩
      rw [run_cons, deliveredIn_cons, deliveredIn_of_direction h.consistent other, none]
      rfl

end Unopened

/-! ### After the opening -/

end Session

/-- A call after the opening: its segment opens and ends nothing, and if it is of direction `d` its
payload is a slice of the stream, in its place. -/
structure Carries (probe : LengthProbe) (stream : List UInt8) (isn : Seq)
    (conversation : Conversation) (d : Direction) (call : Call) : Prop where
  conversation : call.conversation = conversation
  probe : call.probe = some probe
  opening : call.segment.isOpening = false
  fin : call.segment.flags.fin = false
  rst : call.segment.flags.rst = false
  syn : call.direction = d → call.segment.flags.syn = false
  slice : call.direction = d → call.segment.payload = [] ∨
    2 ≤ call.segment.payloadLen ∧ (call.segment.chunk isn).IsSlice stream 1

namespace Session

/-- The live connection of the conversation follows the stream in direction `d`, and was last active at
`last`. -/
structure Following (config : Config) (probe : LengthProbe) (stream : List UInt8) (isn : Seq)
    (conversation : Conversation) (d : Direction) (arrived : List Chunk)
    (delivered : List (Seq × List UInt8)) (last : Nat) (s : Session) : Prop where
  consistent : s.Consistent
  settings : s.config = config
  live : ∃ c ∈ s.table.live, c.conversation = conversation ∧ c.tsPrev = last ∧ c.closed = false ∧
    ∃ k p, (c.flow d).Received config.framing probe stream isn arrived delivered k p

/-- A segment that opens nothing is handled by the live connection of its conversation. -/
theorem handles_of_live {s : Session} (h : s.Consistent) {call : Call} {c : Connection}
    (mem : c ∈ s.table.live) (conversation : c.conversation = call.conversation)
    (recent : call.segment.timestamp ≤ c.tsPrev + s.config.idleTimeout)
    (opening : call.segment.isOpening = false) :
    s.Handles call ⟨s.swept call, c.stream, false, []⟩ c := by
  have live := h.mem_live_swept mem recent
  obtain ⟨displaced, indexed⟩ := h.swept call
  have found := indexed.find?_of_mem live
  refine ⟨?_, live, rfl, conversation⟩
  unfold resolved resolve
  rw [← conversation, found]
  dsimp only
  rw [opening, Bool.false_and, if_neg Bool.false_ne_true]

namespace Following

variable {config : Config} {probe : LengthProbe} {stream : List UInt8} {isn : Seq}
  {conversation : Conversation} {d : Direction} {arrived : List Chunk}
  {delivered : List (Seq × List UInt8)} {last : Nat} {s : Session}

/-- **One call**: what its segment carries arrives, and what that completes is delivered. -/
theorem take (desegment : config.framing.desegment = true)
    (bounded : config.framing.untilClose = false) (small : stream.length < 0x80000000)
    (regular : Assembler.Regular config.framing probe stream)
    (h : s.Following config probe stream isn conversation d arrived delivered last) {call : Call}
    (carries : Carries probe stream isn conversation d call)
    (recent : call.segment.timestamp ≤ last + config.idleTimeout)
    (room : totalOf (·.data.length) (arrived ++ arrivals d isn [call]) ≤ config.maxReorderBytes) :
    (s.take call).session.Following config probe stream isn conversation d
      (arrived ++ arrivals d isn [call]) (delivered ++ deliveredIn d [s.take call])
      call.segment.timestamp := by
  obtain ⟨c, mem, conv, active, alive, k, p, received⟩ := h.live
  obtain ⟨consistent, settings, -⟩ := h
  have handles := handles_of_live consistent mem (conv.trans carries.conversation.symm)
    (by rw [active, settings]; exact recent) carries.opening
  have same : (handled call ⟨s.swept call, c.stream, false, []⟩ c).connection.conversation =
      conversation := handles.sameIdentity.conversation.trans conv
  refine ⟨consistent.take call, (config_take consistent call).trans settings,
    _, handles.mem_live_take consistent, same, rfl, ?_⟩
  have swept : (s.swept call).config = config := handles.config.trans settings
  have unfolded : handled call ⟨s.swept call, c.stream, false, []⟩ c =
      c.handle (s.swept call).registry config (some probe) call.direction call.segment := by
    rw [handled, carries.probe, swept]
  -- the direction's own segments bring a slice or nothing, those of the peer touch nothing
  by_cases own : call.direction = d
  · subst own
    have arrives : arrivals call.direction isn [call] = [call.segment.chunk isn] := by
      simp [arrivals]
    rw [arrives] at room
    rw [arrives, handles.deliveredIn consistent, unfolded]
    have plain : call.segment.IsPlain := ⟨carries.syn rfl, carries.fin, carries.rst⟩
    rcases carries.slice rfl with empty | ⟨data, slice⟩
    · obtain ⟨closed, pdus, received⟩ := Connection.received_handle_empty (s.swept call).registry
        (some probe) alive plain empty received
      rw [pdus, List.map_nil, List.append_nil]
      exact ⟨closed, k, p, received⟩
    · exact Connection.received_handle_slice (s.swept call).registry alive plain data slice
        regular desegment bounded small room received
  · obtain rfl := Direction.eq_opposite_of_ne (Ne.symm own)
    have arrives : arrivals call.direction.opposite isn [call] = [] := by
      simp [arrivals, own]
    rw [arrives, deliveredIn_of_direction consistent own, List.append_nil, List.append_nil, unfolded]
    obtain ⟨closed, received⟩ := Connection.received_handle_opposite (s.swept call).registry
      (some probe) alive carries.fin carries.rst received
    exact ⟨closed, k, p, received⟩

/-- Any number of calls. -/
theorem run (desegment : config.framing.desegment = true)
    (bounded : config.framing.untilClose = false) (small : stream.length < 0x80000000)
    (regular : Assembler.Regular config.framing probe stream) {calls : List Call}
    (h : s.Following config probe stream isn conversation d arrived delivered last)
    (carries : ∀ call ∈ calls, Carries probe stream isn conversation d call)
    (timely : (last :: calls.map (·.segment.timestamp)).IsChain
      fun earlier later => later ≤ earlier + config.idleTimeout)
    (room : totalOf (·.data.length) (arrived ++ arrivals d isn calls) ≤ config.maxReorderBytes) :
    ∃ last', (s.after calls).Following config probe stream isn conversation d
      (arrived ++ arrivals d isn calls) (delivered ++ deliveredIn d (s.run calls)) last' := by
  induction calls generalizing s arrived delivered last with
  | nil =>
      refine ⟨last, ?_⟩
      rw [show arrivals d isn [] = [] from rfl, show deliveredIn d (s.run []) = [] from rfl,
        List.append_nil, List.append_nil]
      exact h
  | cons call rest ih =>
      have arrives : arrivals d isn (call :: rest) =
          arrivals d isn [call] ++ arrivals d isn rest := arrivals_append d isn [call] rest
      rw [arrives, ← List.append_assoc] at room
      -- what arrives in all bounds what has arrived by now
      have less : totalOf (·.data.length) (arrived ++ arrivals d isn [call]) ≤
          config.maxReorderBytes := by
        rw [totalOf_append] at room
        exact Nat.le_trans (Nat.le_add_right _ _) room
      have first := h.take desegment bounded small regular (carries call List.mem_cons_self)
        timely.rel less
      obtain ⟨last', followed⟩ := ih first
        (fun later mem => carries later (List.mem_cons_of_mem call mem)) timely.of_cons room
      refine ⟨last', ?_⟩
      rw [arrives, run_cons, deliveredIn_cons, ← List.append_assoc, ← List.append_assoc]
      exact followed

end Following

/-- The SYN of a direction anchors it in a live connection, and delivers nothing. -/
theorem Unopened.live_take_syn {s : Session} {syn : Call}
    (h : s.Unopened syn.conversation syn.direction) (isSyn : syn.segment.flags.syn = true)
    (fin : syn.segment.flags.fin = false) (rst : syn.segment.flags.rst = false)
    (empty : syn.segment.payload = []) (accepted : (s.take syn).report.isOk = true) :
    (∃ c ∈ (s.take syn).session.table.live, c.conversation = syn.conversation ∧
        c.tsPrev = syn.segment.timestamp ∧ c.closed = false ∧
        (c.flow syn.direction).Anchored syn.segment.seq) ∧
      deliveredIn syn.direction [s.take syn] = [] := by
  rcases s.take_cases syn with ⟨e, refused⟩ | ⟨r, c, handles⟩
  · rw [take_of_refused refused] at accepted
    cases accepted
  · obtain ⟨alive, untouched⟩ := (h.resolved handles.resolved).untouched c handles.mem
      handles.conversation
    obtain ⟨closed, anchored, pdus⟩ := Connection.anchored_handle r.session.registry
      r.session.config syn.probe alive untouched isSyn fin rst empty
    refine ⟨⟨_, handles.mem_live_take h.consistent,
      handles.sameIdentity.conversation.trans handles.conversation, rfl, closed, anchored⟩, ?_⟩
    rw [handles.deliveredIn h.consistent, show (handled syn r c).pdus = [] from pdus]
    rfl

/-- From then on the session follows the stream. -/
theorem Unopened.take_syn {s : Session} {syn : Call}
    (h : s.Unopened syn.conversation syn.direction) (isSyn : syn.segment.flags.syn = true)
    (fin : syn.segment.flags.fin = false) (rst : syn.segment.flags.rst = false)
    (empty : syn.segment.payload = []) (accepted : (s.take syn).report.isOk = true)
    (probe : LengthProbe) (stream : List UInt8) :
    (s.take syn).session.Following s.config probe stream syn.segment.seq syn.conversation
        syn.direction [] [] syn.segment.timestamp ∧
      deliveredIn syn.direction [s.take syn] = [] := by
  obtain ⟨⟨c, mem, conversation, active, alive, anchored⟩, nothing⟩ :=
    h.live_take_syn isSyn fin rst empty accepted
  exact ⟨⟨h.consistent.take syn, config_take h.consistent syn, c, mem, conversation, active, alive,
    0, 0, .nil anchored.baseSeq anchored.finFrame anchored.reorder anchored.assembler⟩, nothing⟩

/-- **Reassembly does not depend on the order of arrival.**  After the SYN of a direction, slices of a
stream arrive in that direction, in any order, repeated and overlapping as they may, among segments of
the peer and acknowledgments.  Once they cover the stream, the PDUs delivered are those of the stream
parsed from its front. -/
theorem deliveredIn_run_eq_parse {config : Config} (desegment : config.framing.desegment = true)
    (bounded : config.framing.untilClose = false) {probe : LengthProbe} {stream : List UInt8}
    (small : stream.length < 0x80000000)
    (regular : Assembler.Regular config.framing probe stream) {opening : List Call}
    {syn : Call} {calls : List Call}
    (peers : ∀ call ∈ opening, call.conversation = syn.conversation ∧
      syn.direction = call.direction.opposite ∧ call.segment.flags.fin = false ∧
      call.segment.flags.rst = false)
    (isSyn : syn.segment.flags.syn = true) (fin : syn.segment.flags.fin = false)
    (rst : syn.segment.flags.rst = false) (empty : syn.segment.payload = [])
    (accepted : (((new config).after opening).take syn).report.isOk = true)
    (carries : ∀ call ∈ calls,
      Carries probe stream syn.segment.seq syn.conversation syn.direction call)
    (timely : (syn.segment.timestamp :: calls.map (·.segment.timestamp)).IsChain
      fun earlier later => later ≤ earlier + config.idleTimeout)
    (room : totalOf (·.data.length) (arrivals syn.direction syn.segment.seq calls) ≤
      config.maxReorderBytes)
    (all : ∀ position < stream.length,
      Covered 1 (arrivals syn.direction syn.segment.seq calls) position) :
    deliveredIn syn.direction ((new config).run (opening ++ syn :: calls)) =
      Assembler.parse config.framing probe 1 stream := by
  obtain ⟨unopened, before⟩ :=
    (unopened_new config syn.conversation syn.direction).run peers
  have settings : ((new config).after opening).config = config :=
    config_after (consistent_new config) opening
  obtain ⟨following, anchored⟩ := unopened.take_syn isSyn fin rst empty accepted probe stream
  rw [settings] at following
  -- before the SYN nothing is delivered, nor by the SYN itself
  obtain ⟨last, -, -, c, -, -, -, -, k, p, received⟩ :=
    following.run desegment bounded small regular carries timely room
  have delivered := received.delivered_eq all
  rw [run_append, deliveredIn_append, before, run, deliveredIn_cons, anchored]
  exact delivered

/-- Two PDUs in three segments that overlap and arrive in the wrong order, over numbers that wrap. -/
theorem deliveredIn_run_wrapping :
    let config : Config := { framing := { fixedLen := 1 } }
    let probe : LengthProbe := LengthField.probe ⟨0, .one, 1⟩
    let client : Endpoint := ⟨.v4 0x0a000001, 40000⟩
    let server : Endpoint := ⟨.v4 0x0a000002, 443⟩
    let syn : Call := { segment := {
      source := client, destination := server, seq := 0xfffffffe, flags.syn := true } }
    let answer : Call := {
      segment := {
        source := server, destination := client, seq := 77, ack := 0xffffffff
        flags.syn := true, flags.ack := true }
      probe }
    let data (seq : Seq) (payload : List UInt8) : Call := {
      segment := {
        source := client, destination := server, seq, ack := 78, flags.ack := true, payload }
      probe }
    deliveredIn syn.direction ((new config).run [syn, answer, data 1 [11, 1, 12],
        data 0xffffffff [2, 10, 11], data 0xffffffff [2, 10]]) =
      [(1, [2, 10, 11]), (4, [1, 12])] := by
  intro config probe client server syn answer data
  have parsed : Assembler.parse config.framing probe 1 [2, 10, 11, 1, 12] =
      [(1, [2, 10, 11]), (4, [1, 12])] := by
    rw [Assembler.parse_of_some (n := 3) (by decide +kernel),
      Assembler.parse_of_some (n := 2) (by decide +kernel),
      Assembler.parse_of_none (by decide +kernel)]
    decide
  have regular : Assembler.Regular config.framing probe [2, 10, 11, 1, 12] :=
    LengthField.regular _ (by decide) (by decide) (by decide) _
  have carries : ∀ call ∈ [answer, data 1 [11, 1, 12], data 0xffffffff [2, 10, 11],
      data 0xffffffff [2, 10]],
      Carries probe [2, 10, 11, 1, 12] syn.segment.seq syn.conversation syn.direction call := by
    intro call mem
    simp only [List.mem_cons, List.not_mem_nil, or_false] at mem
    rcases mem with rfl | rfl | rfl | rfl
    · exact ⟨rfl, rfl, rfl, rfl, rfl, fun same => absurd same (by decide),
        fun same => absurd same (by decide)⟩
    all_goals
      exact ⟨rfl, rfl, rfl, rfl, rfl, fun _ => rfl,
        fun _ => Or.inr ⟨by decide, by decide, by decide⟩⟩
  have delivered := deliveredIn_run_eq_parse rfl rfl (by decide) regular
    (fun _ mem => absurd mem List.not_mem_nil) rfl rfl rfl rfl (by decide +kernel) carries
    (by decide) (by decide) (by decide)
  exact delivered.trans parsed

end Session

end TcpCapture
