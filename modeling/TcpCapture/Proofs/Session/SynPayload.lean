import TcpCapture.Proofs.Flow.Batches
import TcpCapture.Proofs.Session.Bytes
import TcpCapture.Proofs.Session.Feeding

/-!
# Payload on a SYN

A SYN takes the first number of its direction, and what comes with it the numbers behind.  Its payload
is pushed at the number of the SYN itself, one before the position that comes out first.

## Main definitions

* `Session.Feeding.run_next` — payload that arrives in order is fed segment by segment
* `SynRun` — a direction that opens with a SYN, with payload or without, and goes on in order
* `SynRun.InPlace` — the payload of the SYN and what follows it are one stream

**What is lost.**  Of the payload of a SYN the first byte counts as out before, and the others come out
one position early.  The segment behind it then starts one position late: it is held behind a hole that
nothing fills.
-/

namespace TcpCapture

open Session Assembler

/-! ### In order -/

/-- A chunk at the position to come out next comes out. -/
theorem ReorderBuffer.push_next {c : Chunk} (nonempty : c.data ≠ [])
    (short : c.data.length < 0x80000000) :
    push ⟨some c.seq, []⟩ c = (⟨some c.endSeq, []⟩, .inOrder [c]) := by
  have pos := List.length_pos_iff.2 nonempty
  have new : atOrBefore c.endSeq c.seq = false := by
    have compared := atOrBefore_advance c.seq (m := c.data.length) (n := 0) (by omega) (by omega)
    rw [advance_zero, decide_eq_false (by omega)] at compared
    exact compared
  have alone : release c c.seq [] = ([c], ⟨some c.endSeq, []⟩) := by
    rw [release, c.trimTo_seq, collect]
    rfl
  rw [push, if_neg nonempty]
  dsimp only
  rw [new, after_self, alone]
  rfl

namespace Session.Feeding

variable {config : Config} {conversation : Conversation} {d : Direction} {isn next : Seq}
  {a : Assembler} {last : Nat} {s : Session} {probe : LengthProbe}

/-- **Payload in order** comes out segment by segment, and each is fed whatever came of the others. -/
theorem run_next {calls : List Call}
    (h : s.Feeding config conversation d isn ⟨some next, []⟩ a last)
    (brings : ∀ call ∈ calls, Brings probe conversation d call)
    (short : ∀ call ∈ calls, call.segment.payloadLen < 0x80000000)
    (consecutive : Consecutive next (calls.map (·.segment.chunk isn)))
    (timely : (last :: calls.map (·.segment.timestamp)).IsChain
      fun earlier later => later ≤ earlier + config.idleTimeout) :
    (∃ next' last', (s.after calls).Feeding config conversation d isn ⟨some next', []⟩
        (a.feedEach config.framing probe (calls.map (·.segment.chunk isn))) last') ∧
      deliveredIn d (s.run calls) =
        (a.eachPdus config.framing probe (calls.map (·.segment.chunk isn))).map
          fun pdu => (pdu.seq, pdu.data) := by
  induction calls generalizing s a last next with
  | nil => exact ⟨⟨next, last, h⟩, rfl⟩
  | cons call rest ih =>
      obtain ⟨nonempty, rfl, consecutive⟩ := consecutive
      obtain ⟨same, own, dissected, plain, data⟩ := brings call List.mem_cons_self
      have pushed := ReorderBuffer.push_next nonempty (short call List.mem_cons_self)
      obtain ⟨feeding, delivered⟩ := h.push same own dissected plain (Or.inr data) timely.rel
        (by rw [pushed]; exact Nat.zero_le _)
      rw [pushed] at feeding delivered
      rw [ReorderEvent.released, feedAll_singleton] at feeding delivered
      obtain ⟨later, rest'⟩ := ih feeding
        (fun other mem => brings other (List.mem_cons_of_mem call mem))
        (fun other mem => short other (List.mem_cons_of_mem call mem)) consecutive timely.of_cons
      refine ⟨later, ?_⟩
      rw [run_cons, deliveredIn_cons, delivered, rest', ← List.map_append]
      rfl

end Session.Feeding

namespace Assembler

variable {framing : Framing} {probe : LengthProbe} {stream : List UInt8} {origin : Seq}
  {a : Assembler} {p k : Nat} {chunks : List Chunk}

/-- A regular stream in order is parsed, and no byte of it is lost. -/
theorem Assembling.feedEach (regular : Regular framing probe stream)
    (desegment : framing.desegment = true) (bounded : framing.untilClose = false)
    (h : Assembling framing probe stream origin a p k)
    (consecutive : Consecutive (advance origin k) chunks)
    (cut : chunks.flatMap (·.data) = stream.drop k) :
    (∃ p', Assembling framing probe stream origin (a.feedEach framing probe chunks) p'
        (k + (chunks.flatMap (·.data)).length) ∧
      parseFrom framing probe stream origin p =
        (a.eachPdus framing probe chunks).map (fun pdu => (pdu.seq, pdu.data)) ++
          parseFrom framing probe stream origin p') ∧
      (a.eachPdus framing probe chunks).flatMap (·.data) ++
        (a.feedEach framing probe chunks).buffer = a.buffer ++ chunks.flatMap (·.data) := by
  induction chunks generalizing a p k with
  | nil => exact ⟨⟨p, h, rfl⟩, (List.append_nil _).symm⟩
  | cons c rest ih =>
      obtain ⟨nonempty, seq, consecutive⟩ := consecutive
      rw [List.flatMap_cons] at cut ⊢
      obtain ⟨mid, first, error, parsed⟩ :=
        h.feedNext regular desegment bounded nonempty seq ⟨_, cut⟩
      have next : c.endSeq = advance origin (k + c.data.length) := by
        rw [Chunk.endSeq, seq, advance_advance]
      obtain ⟨⟨p', assembling, parsed'⟩, bytes⟩ := ih first (next ▸ consecutive)
        (by rw [← List.drop_drop, ← cut, List.drop_left])
      have kept := a.data_feed desegment error
      refine ⟨⟨p', ?_, ?_⟩, ?_⟩
      · rw [List.length_append, ← Nat.add_assoc]
        exact assembling
      · rw [parsed, parsed', eachPdus_cons, List.map_append, List.append_assoc]
      · rw [eachPdus_cons, List.flatMap_append, List.append_assoc, ← List.append_assoc a.buffer,
          ← kept, List.append_assoc, ← bytes]
        rfl

end Assembler

/-! ### The payload of a SYN -/

/-- A SYN of an untouched direction brings all of its payload but one byte. -/
theorem Connection.bytes_handle_syn {c : Connection} (registry : MetaRegistry) (config : Config)
    (probe : Option LengthProbe) {d : Direction} {s : Segment}
    (untouched : (c.flow d).Untouched) (syn : s.flags.syn = true) :
    totalOf (·.data.length) (c.handle registry config probe d s).pdus +
      ((c.handle registry config probe d s).connection.flow d).bytes ≤ s.payload.length - 1 := by
  have anchored := (untouched.opened syn).samePayload (c.samePayload_linked registry config d s).1
  have nothing : (c.flow d).bytes = 0 := by
    unfold Flow.bytes
    rw [untouched.reorder, untouched.assembler]
    rfl
  have brought := c.bytes_dissected registry config probe d s (n := s.payload.length - 1) ?_
  · rw [nothing, Nat.add_zero] at brought
    exact Nat.le_trans (c.bytes_handle_le registry config probe d s) brought
  · intro chunk data seq
    -- the payload is pushed at 0, where 1 is to come out next
    have start : chunk.seq = 0 := by
      rw [seq, Flow.relative, anchored.baseSeq]
      exact BitVec.sub_self _
    have pushed := (ReorderBuffer.bytes_push
      ((c.linked registry config d s).flow d).reorder chunk).2 1 (by rw [anchored.reorder])
      (by rw [start]; decide)
    rw [start, data] at pushed
    exact pushed

namespace Session

/-- What was `delivered` in direction `d` since it opened, and what is on its way there, is within what
`arrived`. -/
structure Within (config : Config) (conversation : Conversation) (d : Direction)
    (delivered arrived last : Nat) (s : Session) : Prop where
  consistent : s.Consistent
  settings : s.config = config
  live : ∃ c ∈ s.table.live, c.conversation = conversation ∧ c.tsPrev = last ∧
    delivered + (c.flow d).bytes ≤ arrived

/-- The bytes of the PDUs delivered in a direction. -/
def bytesIn (d : Direction) (outcomes : List Processed) : Nat :=
  totalOf (·.2.length) (deliveredIn d outcomes)

theorem bytesIn_cons (d : Direction) (p : Processed) (rest : List Processed) :
    bytesIn d (p :: rest) = bytesIn d [p] + bytesIn d rest := by
  rw [bytesIn, deliveredIn_cons, totalOf_append]
  rfl

theorem Handles.bytesIn {s : Session} {call : Call} {r : Resolved} {c : Connection}
    (h : s.Consistent) (handles : s.Handles call r c) :
    Session.bytesIn call.direction [s.take call] =
      totalOf (·.data.length) (handled call r c).pdus := by
  rw [Session.bytesIn, handles.deliveredIn h, totalOf_map]

namespace Within

variable {config : Config} {conversation : Conversation} {d : Direction}
  {delivered arrived last : Nat} {s : Session}

theorem take (h : s.Within config conversation d delivered arrived last) {call : Call}
    (same : call.conversation = conversation) (own : call.direction = d)
    (opening : call.segment.isOpening = false)
    (recent : call.segment.timestamp ≤ last + config.idleTimeout) :
    (s.take call).session.Within config conversation d (delivered + bytesIn d [s.take call])
      (arrived + call.segment.payload.length) call.segment.timestamp := by
  subst own
  obtain ⟨consistent, settings, c, mem, conv, active, within⟩ := h
  have handles := handles_of_live consistent mem (conv.trans same.symm)
    (by rw [active, settings]; exact recent) opening
  refine ⟨consistent.take call, (config_take consistent call).trans settings, _,
    handles.mem_live_take consistent, handles.sameIdentity.conversation.trans conv, rfl, ?_⟩
  have brought := c.bytes_handle (s.swept call).registry (s.swept call).config call.probe
    call.direction call.segment
  rw [handles.bytesIn consistent]
  change totalOf _ (handled call ⟨s.swept call, c.stream, false, []⟩ c).pdus +
    ((handled call ⟨s.swept call, c.stream, false, []⟩ c).connection.flow call.direction).bytes ≤ _
    at brought
  generalize handled call ⟨s.swept call, c.stream, false, []⟩ c = out at brought ⊢
  show delivered + totalOf _ out.pdus + (out.connection.flow call.direction).bytes ≤ _
  omega

theorem run {calls : List Call} (h : s.Within config conversation d delivered arrived last)
    (own : ∀ call ∈ calls, call.conversation = conversation ∧ call.direction = d ∧
      call.segment.isOpening = false)
    (timely : (last :: calls.map (·.segment.timestamp)).IsChain
      fun earlier later => later ≤ earlier + config.idleTimeout) :
    ∃ last', (s.after calls).Within config conversation d (delivered + bytesIn d (s.run calls))
      (arrived + totalOf (·.segment.payload.length) calls) last' := by
  induction calls generalizing s delivered arrived last with
  | nil => exact ⟨last, h⟩
  | cons call rest ih =>
      obtain ⟨same, direction, opening⟩ := own call List.mem_cons_self
      obtain ⟨last', within⟩ := ih (h.take same direction opening timely.rel)
        (fun other mem => own other (List.mem_cons_of_mem call mem)) timely.of_cons
      refine ⟨last', ?_⟩
      rw [run_cons, bytesIn_cons, totalOf_cons, ← Nat.add_assoc, ← Nat.add_assoc]
      exact within

end Within

/-- The SYN of an untouched direction brings all of its payload but one byte. -/
theorem Handles.within_take_syn {s : Session} {syn : Call} {r : Resolved} {c : Connection}
    (h : s.Consistent) (handles : s.Handles syn r c)
    (untouched : (c.flow syn.direction).Untouched) (isSyn : syn.segment.flags.syn = true) :
    (s.take syn).session.Within s.config syn.conversation syn.direction
      (Session.bytesIn syn.direction [s.take syn]) (syn.segment.payload.length - 1)
      syn.segment.timestamp := by
  refine ⟨h.take syn, config_take h syn, _, handles.mem_live_take h,
    handles.sameIdentity.conversation.trans handles.conversation, rfl, ?_⟩
  rw [handles.bytesIn h]
  exact Connection.bytes_handle_syn r.session.registry r.session.config syn.probe untouched isSyn

end Session

/-- In a session that may have seen anything before, a direction opens with a SYN and goes on in
order. -/
structure SynRun (config : Config) where
  probe : LengthProbe
  /-- All that was seen before. -/
  earlier : List Call
  syn : Call
  /-- What continues the payload of the SYN. -/
  later : List Call
  desegment : config.framing.desegment = true
  bounded : config.framing.untilClose = false
  regular : Regular config.framing probe
    (syn.segment.payload ++ later.flatMap (·.segment.payload))
  isSyn : syn.segment.flags.syn = true
  synFin : syn.segment.flags.fin = false
  synRst : syn.segment.flags.rst = false
  dissected : syn.probe = some probe
  accepted : (((new config).after earlier).take syn).report.isOk = true
  /-- The connection of the SYN has seen nothing of its direction, nor the end of the other. -/
  opens : ∀ r c, ((new config).after earlier).Handles syn r c → c.closed = false ∧
    (c.flow syn.direction).Untouched ∧ (c.flow syn.direction.opposite).finFrame = none
  brings : ∀ call ∈ later, Brings probe syn.conversation syn.direction call
  short : ∀ call ∈ later, call.segment.payloadLen < 0x80000000
  consecutive : Consecutive (advance 1 syn.segment.payloadLen)
    (later.map (·.segment.chunk syn.segment.seq))
  timely : (syn.segment.timestamp :: later.map (·.segment.timestamp)).IsChain
    fun earlier later => later ≤ earlier + config.idleTimeout

namespace SynRun

variable {config : Config} (run : SynRun config)

/-- What the direction sends: the payload of the SYN and what continues it. -/
def stream : List UInt8 := run.syn.segment.payload ++ run.later.flatMap (·.segment.payload)

/-- The session at the SYN. -/
def before : Session := (new config).after run.earlier

/-- The PDUs delivered in the direction since it opened. -/
def delivered : List (Seq × List UInt8) :=
  deliveredIn run.syn.direction (run.before.run (run.syn :: run.later))

/-- The stream is parsed from its first byte, no byte of it is lost, and none is held behind a hole. -/
def InPlace : Prop :=
  run.delivered = parse config.framing run.probe 1 run.stream ∧
    ∃ c ∈ (run.before.after (run.syn :: run.later)).table.live,
      c.conversation = run.syn.conversation ∧
      (c.flow run.syn.direction).reorder.held = [] ∧
      run.delivered.flatMap (·.2) ++ (c.flow run.syn.direction).assembler.buffer = run.stream

theorem consistent : run.before.Consistent := (consistent_new config).after run.earlier

theorem exists_handles : ∃ r c, run.before.Handles run.syn r c := by
  rcases run.before.take_cases run.syn with ⟨e, refused⟩ | handled
  · have accepted : (run.before.take run.syn).report.isOk = true := run.accepted
    rw [take_of_refused refused] at accepted
    cases accepted
  · exact handled

theorem config_before : run.before.config = config := config_after (consistent_new config) run.earlier

/-- Of a SYN with payload one byte is neither delivered nor on its way. -/
theorem syn_empty_of_inPlace (inPlace : run.InPlace) : run.syn.segment.payload = [] := by
  obtain ⟨-, c, mem, conversation, -, whole⟩ := inPlace
  obtain ⟨r, opened, handles⟩ := run.exists_handles
  have untouched := (run.opens r opened handles).2.1
  have follow : ∀ call ∈ run.later, call.conversation = run.syn.conversation ∧
      call.direction = run.syn.direction ∧ call.segment.isOpening = false := by
    intro call mem
    obtain ⟨same, own, -, plain, -⟩ := run.brings call mem
    exact ⟨same, own, by rw [Segment.isOpening, plain.syn, Bool.false_and]⟩
  obtain ⟨last, consistent, -, c', mem', conversation', -, within⟩ :=
    (handles.within_take_syn run.consistent untouched run.isSyn).run follow
      (by rw [run.config_before]; exact run.timely)
  -- the conversation has one connection
  obtain rfl : c' = c := by
    obtain ⟨displaced, indexed⟩ := consistent
    exact List.inj_on_of_nodup_map indexed.conversations mem' mem
      (conversation'.trans conversation.symm)
  have all := congrArg List.length whole
  rw [List.length_append, length_flatMap_eq_totalOf, stream, List.length_append,
    length_flatMap_eq_totalOf] at all
  have counted := bytesIn_cons run.syn.direction (run.before.take run.syn)
    ((run.before.take run.syn).session.run run.later)
  change totalOf (·.2.length) run.delivered = _ at counted
  unfold Flow.bytes at within
  refine List.length_eq_zero_iff.1 ?_
  omega

/-- Without payload on the SYN the stream comes out in order. -/
theorem inPlace_of_syn_empty (empty : run.syn.segment.payload = []) : run.InPlace := by
  obtain ⟨r, opened, handles⟩ := run.exists_handles
  obtain ⟨alive, untouched, unfinished⟩ := run.opens r opened handles
  obtain ⟨feeding, nothing⟩ := handles.feeding_take_syn run.consistent alive untouched unfinished
    run.isSyn run.synFin run.synRst empty
  rw [run.config_before] at feeding
  have consecutive := run.consecutive
  rw [Segment.payloadLen, empty, List.length_nil, advance_zero] at consecutive
  obtain ⟨⟨next, last, -, -, c, mem, conversation, -, -, -, stands⟩, delivered⟩ :=
    Feeding.run_next feeding run.brings run.short consecutive run.timely
  have cut : (run.later.map (·.segment.chunk run.syn.segment.seq)).flatMap (·.data) = run.stream := by
    rw [stream, empty, List.flatMap_map]
    rfl
  obtain ⟨⟨p, assembling, parsed⟩, bytes⟩ :=
    (assembling_new config.framing run.probe run.stream 1).feedEach run.regular run.desegment
      run.bounded ((advance_zero 1).symm ▸ consecutive) cut
  rw [cut, Nat.zero_add] at assembling
  rw [assembling.parseFrom_eq_nil, List.append_nil, parseFrom, advance_zero, List.drop_zero]
    at parsed
  have out : run.delivered = (eachPdus {} config.framing run.probe
      (run.later.map (·.segment.chunk run.syn.segment.seq))).map fun pdu => (pdu.seq, pdu.data) := by
    rw [SynRun.delivered, Session.run, deliveredIn_cons, nothing, delivered]
    rfl
  refine ⟨out.trans parsed.symm, c, mem, conversation, ?_, ?_⟩
  · rw [stands.reorder]
  · rw [out, List.flatMap_map, stands.assembler, bytes, cut]
    rfl

/-- **The payload of a SYN is in its place if and only if there is none.** -/
theorem inPlace_iff : run.InPlace ↔ run.syn.segment.payload = [] :=
  ⟨run.syn_empty_of_inPlace, run.inPlace_of_syn_empty⟩

/-- A SYN with a PDU, and a segment with another behind it. -/
theorem exists_syn_payload : ∃ run : SynRun {}, run.syn.segment.payload = [1, 10] := by
  let client : Endpoint := ⟨.v4 0x0a000001, 40000⟩
  let server : Endpoint := ⟨.v4 0x0a000002, 443⟩
  let probe : LengthProbe := LengthField.probe ⟨0, .one, 1⟩
  let syn : Call := {
    segment := {
      source := client, destination := server, flags.syn := true, payload := [1, 10] }
    probe }
  let data : Call := {
    segment := {
      source := client, destination := server, seq := 3, ack := 78, flags.ack := true
      payload := [1, 11] }
    probe }
  refine ⟨{
    probe
    earlier := []
    syn
    later := [data]
    desegment := rfl
    bounded := rfl
    regular := LengthField.regular _ (by decide) (by decide) (by decide) _
    isSyn := rfl
    synFin := rfl
    synRst := rfl
    dissected := rfl
    accepted := by decide +kernel
    opens := ?_
    brings := ?_
    short := by decide
    consecutive := ⟨by decide, by decide, trivial⟩
    timely := by decide }, rfl⟩
  · intro r c handles
    obtain ⟨alive, untouched⟩ := ((unopened_new _ syn.conversation syn.direction).resolved
      handles.resolved).untouched c handles.mem handles.conversation
    exact ⟨alive, untouched, ((unfinished_new _ syn.conversation _).resolved
      handles.resolved).unfinished c handles.mem handles.conversation⟩
  · intro call mem
    obtain rfl := List.mem_singleton.1 mem
    exact ⟨rfl, rfl, rfl, ⟨rfl, rfl, rfl⟩, by decide⟩

/-- Payload on a SYN is not in its place. -/
theorem not_inPlace : ¬ ∀ (config : Config) (run : SynRun config), run.InPlace := by
  intro all
  obtain ⟨run, payload⟩ := exists_syn_payload
  have empty := run.syn_empty_of_inPlace (all _ run)
  rw [payload] at empty
  cases empty

end SynRun

end TcpCapture
