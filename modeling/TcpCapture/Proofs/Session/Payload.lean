import TcpCapture.Proofs.Flow.Payload
import TcpCapture.Proofs.Pdu.Parse
import TcpCapture.Proofs.Session.Handling

/-!
# What handling a segment does to payload

A segment changes what is held back and collected in its own direction by the payload it carries, and in
no other way as long as it does not open, end or reset the connection; the other direction is not
touched at all.

## Main definitions

* `Flow.opened` — a flow once the numbering of a segment is noted
* `Flow.Received` — what a flow has made of the chunks of a stream that arrived so far

**Positions.**  A stream starts at relative sequence number 1, after the SYN.
-/

namespace TcpCapture

/-- The payload of a segment in its place, counted from the base of its direction. -/
def Segment.chunk (isn : Seq) (s : Segment) : Chunk := ⟨s.seq - isn, s.frame, s.timestamp, s.payload⟩

/-- The flow of a segment's sender once its numbering is anchored. -/
def Flow.opened (f : Flow) (s : Segment) : Flow :=
  if s.flags.syn then
    { f.setBase s.seq s.flags.syn with reorder := f.reorder.sync 1 }
  else f.setBase s.seq s.flags.syn

/-- Two flows that treat payload alike do so once the numbering of a segment is noted. -/
theorem Flow.SamePayload.opened {f g : Flow} (h : f.SamePayload g) (s : Segment) :
    (f.opened s).SamePayload (g.opened s) := by
  obtain ⟨baseSeq, finFrame, reorder, assembler⟩ := h
  unfold Flow.opened Flow.setBase
  split
  · exact ⟨by rw [baseSeq], finFrame, by rw [reorder], assembler⟩
  · exact ⟨by rw [baseSeq], finFrame, reorder, assembler⟩

namespace Connection

@[simp] theorem flow_setFlow_of_opposite (c : Connection) (d : Direction) (f : Flow) :
    (c.setFlow d.opposite f).flow d = c.flow d := by
  simp [flow, setFlow]

@[simp] theorem flow_setFlows_same (c : Connection) (d : Direction) (sender peer : Flow) :
    (c.setFlows d sender peer).flow d = sender := by
  simp [setFlows]

@[simp] theorem flow_setFlows_opposite (c : Connection) (d : Direction) (sender peer : Flow) :
    (c.setFlows d sender peer).flow d.opposite = peer := by
  simp [setFlows]

theorem flow_noteHandshake (c : Connection) (d e : Direction) (s : Segment) :
    (c.noteHandshake d s).flow e = c.flow e := by
  unfold noteHandshake
  split
  · rfl
  · split <;> rfl

section

variable {α : Type} (view : Flow → α) (c : Connection) (d : Direction) (s : Segment)

/-- What sees nothing of window scales sees nothing of their negotiation. -/
theorem view_negotiateWindowScale
    (unscaled : ∀ (f : Flow) windowScale, view { f with windowScale } = view f) (e : Direction) :
    view ((c.negotiateWindowScale d s).flow e) = view (c.flow e) := by
  unfold negotiateWindowScale
  split
  · rfl
  · extract_lets offered before sender peer
    have offers : view sender = view (c.flow d) := unscaled before offered
    by_cases own : e = d
    · subst own
      split
      · rw [flow_setFlows_same]
        exact (unscaled sender .notUsed).trans offers
      · rw [flow_setFlow_same]
        exact offers
    · obtain rfl := Direction.eq_opposite_of_ne own
      split
      · rw [flow_setFlows_opposite]
        exact unscaled peer .notUsed
      · rw [flow_setFlow_opposite]

/-- What sees nothing of bases and of what is held back, either, sees nothing of an opening. -/
theorem view_noteOpening
    (blind : ∀ (f : Flow) windowScale baseSeq reorder,
      view { f with windowScale, baseSeq, reorder } = view f) (e : Direction) :
    view ((c.noteOpening d s).flow e) = view (c.flow e) := by
  have negotiated := view_negotiateWindowScale view (c.noteHandshake d s) d s
    (fun f windowScale => blind f windowScale f.baseSeq f.reorder) e
  rw [← flow_noteHandshake c d e s, ← negotiated]
  unfold noteOpening
  dsimp only
  generalize (c.noteHandshake d s).negotiateWindowScale d s = scaled
  by_cases own : e = d
  · subst own
    have based (reorder : ReorderBuffer) :
        view { (scaled.flow e).setBase s.seq s.flags.syn with reorder } = view (scaled.flow e) :=
      blind (scaled.flow e) (scaled.flow e).windowScale _ reorder
    rw [flow_setFlow_same]
    split
    · exact based _
    · exact based (scaled.flow e).reorder
  · obtain rfl := Direction.eq_opposite_of_ne own
    rw [flow_setFlow_opposite]

end

theorem samePayload_negotiateWindowScale (c : Connection) (d : Direction) (s : Segment) :
    (c.flow d).SamePayload ((c.negotiateWindowScale d s).flow d) ∧
      (c.flow d.opposite).SamePayload ((c.negotiateWindowScale d s).flow d.opposite) := by
  unfold negotiateWindowScale
  split
  · exact ⟨.refl _, .refl _⟩
  · extract_lets offered sender peer
    split
    · rw [flow_setFlows_same, flow_setFlows_opposite]
      exact ⟨⟨rfl, rfl, rfl, rfl⟩, ⟨rfl, rfl, rfl, rfl⟩⟩
    · rw [flow_setFlow_same, flow_setFlow_opposite]
      exact ⟨⟨rfl, rfl, rfl, rfl⟩, .refl _⟩

/-- Noting the opening anchors the sender's numbering. -/
theorem samePayload_noteOpening (c : Connection) (d : Direction) (s : Segment) :
    ((c.flow d).opened s).SamePayload ((c.noteOpening d s).flow d) ∧
      (c.flow d.opposite).SamePayload ((c.noteOpening d s).flow d.opposite) := by
  have scaled := samePayload_negotiateWindowScale (c.noteHandshake d s) d s
  rw [flow_noteHandshake, flow_noteHandshake] at scaled
  unfold noteOpening
  dsimp only
  rw [flow_setFlow_same, flow_setFlow_opposite]
  exact ⟨scaled.1.opened s, scaled.2⟩

theorem samePayload_judge (c : Connection) (config : Config) (d : Direction) (s : Segment) :
    (c.flow d).SamePayload ((c.judge config d s).1.flow d) ∧
      (c.flow d.opposite).SamePayload ((c.judge config d s).1.flow d.opposite) := by
  unfold judge
  dsimp only
  rw [flow_setFlows_same, flow_setFlows_opposite]
  split
  · have keeps := keeps_classify (c.flow d) (c.flow d.opposite) s
      (config.thresholds.withRtt c.firstRtt)
    exact ⟨keeps.1.trans ⟨rfl, rfl, rfl, rfl⟩, keeps.2⟩
  · have keeps := keeps_track (c.flow d) (c.flow d.opposite) s
    exact ⟨keeps.1.trans ⟨rfl, rfl, rfl, rfl⟩, keeps.2⟩

/-- Two bytes or more are payload, classified or not. -/
theorem isProbing_judge {c : Connection} {s : Segment} (data : 2 ≤ s.payloadLen) (config : Config)
    (d : Direction) : (c.judge config d s).2.findings.isProbing = false := by
  unfold judge
  dsimp only
  split
  · exact isProbing_classify data _
  · rfl

section

variable {c : Connection} (registry : MetaRegistry) (config : Config) (probe : Option LengthProbe)
  (d : Direction) (s : Segment)

theorem samePayload_linked :
    ((c.flow d).opened s).SamePayload ((c.linked registry config d s).flow d) ∧
      (c.flow d.opposite).SamePayload ((c.linked registry config d s).flow d.opposite) :=
  have opened := c.samePayload_noteOpening d s
  have judged := (c.noteOpening d s).samePayload_judge config d s
  ⟨opened.1.trans judged.1, opened.2.trans judged.2⟩

/-- A segment leaves the payload of the other direction alone. -/
theorem samePayload_dissected_opposite :
    (c.flow d.opposite).SamePayload
      ((c.dissected registry config probe d s).connection.flow d.opposite) := by
  refine (c.samePayload_linked registry config d s).2.trans ?_
  rcases c.dissected_cases registry config probe d s with
    ⟨-, same⟩ | ⟨-, lengthProbe, f, chunks, -, -, fed⟩
  · rw [same]
    exact .refl _
  · rw [fed, flow_setFlow_opposite]
    exact .refl _

/-- A segment without payload brings no PDU. -/
theorem dissected_of_empty {s : Segment} (empty : s.payload = []) :
    c.dissected registry config probe d s = { connection := c.linked registry config d s } := by
  rcases c.dissected_cases registry config probe d s with ⟨-, same⟩ | ⟨passes, -⟩
  · exact same
  · exact absurd empty passes.2.1

/-- Two bytes or more are passed on. -/
theorem dissected_of_data (probe : LengthProbe) {s : Segment} (data : 2 ≤ s.payloadLen) :
    c.dissected registry config (some probe) d s =
      (c.linked registry config d s).reassemble config probe (c.passage config d s) := by
  have nonempty : (c.passage config d s).segment.payload.isEmpty = false := by
    refine List.isEmpty_eq_false_iff.2 ?_
    intro empty
    rw [Segment.payloadLen, show s.payload = [] from empty] at data
    simp at data
  have probing : (c.judged config d s).2.findings.isProbing = false := isProbing_judge data config d
  unfold dissected dissect
  dsimp only
  rw [nonempty, probing, Bool.or_false, if_neg Bool.false_ne_true]

/-- Taking the payload of an anchored direction, with its position counted from the anchor. -/
theorem reassemble_eq (probe : LengthProbe) {d : Direction} {s : Segment} {isn : Seq}
    (anchored : ((c.linked registry config d s).flow d).baseSeq = some isn) :
    (c.linked registry config d s).reassemble config probe (c.passage config d s) =
      let out := Connection.reorder ((c.linked registry config d s).flow d) (s.chunk isn)
        config.maxReorderBytes
      let fed := out.1.assembler.feedAll config.framing probe out.2
      { connection :=
          (c.linked registry config d s).setFlow d { out.1 with assembler := fed.assembler }
        pdus := fed.pdus
        error := fed.error
        delivered := fed.delivered } := by
  have relSeq : (c.passage config d s).relSeq = s.seq - isn := by
    show s.seq - ((c.linked registry config d s).flow d).baseSeq.getD 0 = _
    rw [anchored]
    rfl
  unfold reassemble
  rw [relSeq]
  rfl

/-- In a connection that is open a segment that resets nothing has no effect past its payload and its
own FIN, as long as some direction has not ended. -/
theorem handle_of_unfinished {s : Segment} (alive : c.closed = false) (rst : s.flags.rst = false)
    {e : Direction}
    (unfinished : ((c.finished registry config probe d s).connection.flow e).finFrame = none) :
    (c.handle registry config probe d s).connection.flows =
        (c.finished registry config probe d s).connection.flows ∧
      (c.handle registry config probe d s).connection.closed = false := by
  have half : (c.finished registry config probe d s).connection.bothFinished = false := by
    unfold bothFinished Flow.isFinished
    cases e with
    | forward =>
        have : (c.finished registry config probe d s).connection.flows.forward.finFrame = none :=
          unfinished
        rw [this]
        rfl
    | reverse =>
        have : (c.finished registry config probe d s).connection.flows.reverse.finFrame = none :=
          unfinished
        rw [this]
        exact Bool.and_false _
  -- one direction is still open, and the segment resets nothing
  have ended : ((c.finished registry config probe d s).connection.endWith s) =
      ((c.finished registry config probe d s).connection, none) := by
    rw [endWith, rst, half, if_pos (by simp)]
  have continues := c.continues_handle_of_ended registry config probe d s
  constructor
  · rw [handle_flows, ended]
  · rw [continues.closed, ended]
    exact (c.continues_finished registry config probe d s).closed.trans alive

/-- In a connection that is open, where some direction has not ended, a segment that ends nothing has
no effect past its payload. -/
theorem handle_of_open {s : Segment} (alive : c.closed = false) (fin : s.flags.fin = false)
    (rst : s.flags.rst = false) {e : Direction}
    (unfinished : ((c.dissected registry config probe d s).connection.flow e).finFrame = none) :
    (c.handle registry config probe d s).connection.flows =
        (c.dissected registry config probe d s).connection.flows ∧
      (c.handle registry config probe d s).connection.closed = false ∧
      (c.handle registry config probe d s).pdus = (c.dissected registry config probe d s).pdus := by
  have finished : c.finished registry config probe d s =
      { connection := (c.dissected registry config probe d s).connection } := by
    rw [Connection.finished, fin, if_neg Bool.false_ne_true]
  obtain ⟨flows, closed⟩ := c.handle_of_unfinished registry config probe d alive rst (e := e)
    (finished ▸ unfinished)
  rw [finished] at flows
  refine ⟨flows, closed, ?_⟩
  rw [handle_pdus, finished]
  exact List.append_nil _

end

end Connection

/-! ### A flow on its way through a stream -/

open Assembler in
/-- The chunks that `arrived` make the stream available up to position `k`, but for what is held back.
It is parsed up to position `p`, which has given the PDUs that are `delivered`. -/
structure Flow.Received (framing : Framing) (probe : LengthProbe) (stream : List UInt8) (isn : Seq)
    (arrived : List Chunk) (delivered : List (Seq × List UInt8)) (f : Flow) (k p : Nat) : Prop where
  baseSeq : f.baseSeq = some isn
  unfinished : f.finFrame = none
  holding : f.reorder.Holding stream 1 k
  assembling : f.assembler.Assembling framing probe stream 1 p k
  covered : ∀ position,
    Covered 1 arrived position ↔ position < k ∨ Covered 1 f.reorder.held position
  bytes : f.reorder.heldBytes ≤ totalOf (·.data.length) arrived
  parsed : delivered ++ parseFrom framing probe stream 1 p = parseFrom framing probe stream 1 0

namespace Flow.Received

variable {framing : Framing} {probe : LengthProbe} {stream : List UInt8} {isn : Seq}
  {arrived : List Chunk} {delivered : List (Seq × List UInt8)} {f : Flow} {k p : Nat}

theorem samePayload {g : Flow}
    (h : f.Received framing probe stream isn arrived delivered k p) (same : f.SamePayload g) :
    g.Received framing probe stream isn arrived delivered k p where
  baseSeq := same.baseSeq.trans h.baseSeq
  unfinished := same.finFrame.trans h.unfinished
  holding := same.reorder ▸ h.holding
  assembling := same.assembler ▸ h.assembling
  covered := same.reorder ▸ h.covered
  bytes := same.reorder ▸ h.bytes
  parsed := h.parsed

/-- A flow whose numbering was just anchored has received nothing. -/
theorem nil (baseSeq : f.baseSeq = some isn) (unfinished : f.finFrame = none)
    (reorder : f.reorder = { nextSeq := some 1 }) (assembler : f.assembler = {}) :
    f.Received framing probe stream isn [] [] 0 0 where
  baseSeq := baseSeq
  unfinished := unfinished
  holding := by
    rw [reorder]
    exact ⟨by rw [advance_zero], Nat.zero_le _, nofun, nofun⟩
  assembling := assembler ▸ Assembler.assembling_new framing probe stream 1
  covered position := by simp [reorder, Covered]
  bytes := by rw [reorder]; exact Nat.le_refl 0
  parsed := rfl

/-- A chunk without data changes nothing. -/
theorem concat_empty (h : f.Received framing probe stream isn arrived delivered k p) {c : Chunk}
    (empty : c.data = []) : f.Received framing probe stream isn (arrived ++ [c]) delivered k p where
  baseSeq := h.baseSeq
  unfinished := h.unfinished
  holding := h.holding
  assembling := h.assembling
  covered position := by
    have none : ¬ c.Covers 1 position := by
      rintro ⟨start, stop⟩
      rw [empty, List.length_nil] at stop
      omega
    rw [← h.covered, covered_concat]
    exact or_iff_right none
  bytes := by
    rw [totalOf_append]
    exact Nat.le_trans h.bytes (Nat.le_add_right _ _)
  parsed := h.parsed

/-- When all of the stream has arrived all of its PDUs are delivered. -/
theorem delivered_eq (h : f.Received framing probe stream isn arrived delivered k p)
    (all : ∀ position < stream.length, Covered 1 arrived position) :
    delivered = Assembler.parse framing probe 1 stream := by
  have hk : k = stream.length := by
    refine Nat.le_antisymm h.holding.le (Nat.not_lt.1 ?_)
    intro less
    -- the position after what came out is behind a hole, so it is not covered
    rcases (h.covered k).1 (all k less) with before | ⟨c, mem, start, -⟩
    · exact Nat.lt_irrefl k before
    · exact Nat.not_lt.2 start (h.holding.behind c mem)
  have assembling := h.assembling
  have parsed := h.parsed
  rw [hk] at assembling
  rw [assembling.parseFrom_eq_nil, List.append_nil] at parsed
  rw [parsed, Assembler.parseFrom, advance_zero, List.drop_zero]

end Flow.Received

/-- Below the limit nothing is given up. -/
theorem Connection.reorder_of_le {f : Flow} {chunk : Chunk} {limit : Nat}
    (room : (f.reorder.push chunk).1.heldBytes ≤ limit) :
    Connection.reorder f chunk limit =
      ({ f with reorder := (f.reorder.push chunk).1 }, (f.reorder.push chunk).2.released) := by
  unfold Connection.reorder
  dsimp only
  split
  · rename_i chunks event
    rw [event]
    rfl
  · rename_i event
    rw [event]
    rfl
  · rename_i event
    rw [if_pos room, event]
    rfl

/-- **Taking a slice** of the stream: the PDUs it completes follow those delivered before. -/
theorem Flow.Received.take {framing : Framing} {probe : LengthProbe} {stream : List UInt8}
    {isn : Seq} {arrived : List Chunk} {delivered : List (Seq × List UInt8)} {f : Flow} {k p : Nat}
    (h : f.Received framing probe stream isn arrived delivered k p)
    (regular : Assembler.Regular framing probe stream) (desegment : framing.desegment = true)
    (bounded : framing.untilClose = false) (small : stream.length < 0x80000000) {c : Chunk}
    (slice : c.IsSlice stream 1) {limit : Nat}
    (room : totalOf (·.data.length) (arrived ++ [c]) ≤ limit) :
    ∃ k' p', Flow.Received framing probe stream isn (arrived ++ [c])
      (delivered ++ ((Connection.reorder f c limit).1.assembler.feedAll framing probe
        (Connection.reorder f c limit).2).pdus.map fun pdu => (pdu.seq, pdu.data))
      { (Connection.reorder f c limit).1 with
        assembler := ((Connection.reorder f c limit).1.assembler.feedAll framing probe
          (Connection.reorder f c limit).2).assembler } k' p' := by
  obtain ⟨k', out⟩ := h.holding.push small slice
  have bytes : (f.reorder.push c).1.heldBytes ≤ totalOf (·.data.length) (arrived ++ [c]) := by
    have held := out.bytes
    have := h.bytes
    rw [totalOf_cons] at held
    rw [totalOf_append, totalOf_cons, totalOf_nil]
    exact Nat.le_trans held (by unfold ReorderBuffer.heldBytes at this; omega)
  rw [Connection.reorder_of_le (Nat.le_trans bytes room)]
  obtain ⟨p', assembling, -, parsed⟩ := h.assembling.feedAll regular desegment bounded out.tiles
  refine ⟨k', p', h.baseSeq, h.unfinished, out.holding, assembling, ?_, bytes, ?_⟩
  · intro position
    rw [← out.covered, covered_cons, covered_concat, h.covered]
    tauto
  · rw [List.append_assoc, ← parsed]
    exact h.parsed

/-! ### Handling a segment of the stream -/

/-- The segment neither opens, ends nor resets a connection. -/
structure Segment.IsPlain (s : Segment) : Prop where
  syn : s.flags.syn = false
  fin : s.flags.fin = false
  rst : s.flags.rst = false

/-- Once a direction is anchored its segments leave the anchor alone. -/
theorem Flow.samePayload_opened {f : Flow} {s : Segment} {isn : Seq} (syn : s.flags.syn = false)
    (baseSeq : f.baseSeq = some isn) : f.SamePayload (f.opened s) := by
  rw [Flow.opened, syn, if_neg Bool.false_ne_true]
  refine ⟨?_, rfl, rfl, rfl⟩
  rw [Flow.setBase, baseSeq]
  rfl

namespace Connection

section

variable {framing : Framing} {lengthProbe : LengthProbe} {stream : List UInt8} {isn : Seq}
  {arrived : List Chunk} {delivered : List (Seq × List UInt8)} {k p : Nat} {c : Connection}
  {s : Segment} (registry : MetaRegistry) {config : Config} (probe : Option LengthProbe)
  {d : Direction}

/-- Segments of the other direction leave the stream alone. -/
theorem received_handle_opposite (alive : c.closed = false) (fin : s.flags.fin = false)
    (rst : s.flags.rst = false)
    (h : (c.flow d.opposite).Received framing lengthProbe stream isn arrived delivered k p) :
    (c.handle registry config probe d s).connection.closed = false ∧
      ((c.handle registry config probe d s).connection.flow d.opposite).Received
        framing lengthProbe stream isn arrived delivered k p := by
  have kept := h.samePayload (c.samePayload_dissected_opposite registry config probe d s)
  obtain ⟨flows, closed, -⟩ :=
    c.handle_of_open registry config probe d alive fin rst kept.unfinished
  refine ⟨closed, ?_⟩
  rw [flow, flows]
  exact kept

/-- So do segments without payload, and they bring no PDU. -/
theorem received_handle_empty (alive : c.closed = false) (plain : s.IsPlain)
    (empty : s.payload = [])
    (h : (c.flow d).Received framing lengthProbe stream isn arrived delivered k p) :
    (c.handle registry config probe d s).connection.closed = false ∧
      (c.handle registry config probe d s).pdus = [] ∧
      ((c.handle registry config probe d s).connection.flow d).Received
        framing lengthProbe stream isn (arrived ++ [s.chunk isn]) delivered k p := by
  have same := (Flow.samePayload_opened plain.syn h.baseSeq).trans
    (c.samePayload_linked registry config d s).1
  have kept := (h.samePayload same).concat_empty (c := s.chunk isn) empty
  have nothing := c.dissected_of_empty registry config probe d empty
  obtain ⟨flows, closed, pdus⟩ :=
    c.handle_of_open registry config probe d alive plain.fin plain.rst
      (e := d) (nothing ▸ kept.unfinished)
  refine ⟨closed, pdus.trans (congrArg Dissected.pdus nothing), ?_⟩
  rw [flow, flows, nothing]
  exact kept

/-- A slice of the stream brings the PDUs it completes. -/
theorem received_handle_slice (alive : c.closed = false) (plain : s.IsPlain)
    (data : 2 ≤ s.payloadLen) (slice : (s.chunk isn).IsSlice stream 1)
    (regular : Assembler.Regular config.framing lengthProbe stream)
    (desegment : config.framing.desegment = true) (bounded : config.framing.untilClose = false)
    (small : stream.length < 0x80000000)
    (room : totalOf (·.data.length) (arrived ++ [s.chunk isn]) ≤ config.maxReorderBytes)
    (h : (c.flow d).Received config.framing lengthProbe stream isn arrived delivered k p) :
    (c.handle registry config (some lengthProbe) d s).connection.closed = false ∧
      ∃ k' p', ((c.handle registry config (some lengthProbe) d s).connection.flow d).Received
        config.framing lengthProbe stream isn (arrived ++ [s.chunk isn])
        (delivered ++ (c.handle registry config (some lengthProbe) d s).pdus.map
          fun pdu => (pdu.seq, pdu.data)) k' p' := by
  have same := (Flow.samePayload_opened plain.syn h.baseSeq).trans
    (c.samePayload_linked registry config d s).1
  have kept := h.samePayload same
  obtain ⟨k', p', received⟩ := kept.take regular desegment bounded small slice room
  have dissected := c.dissected_of_data registry config d lengthProbe data
  rw [reassemble_eq registry config lengthProbe kept.baseSeq] at dissected
  have arrives : ((c.dissected registry config (some lengthProbe) d s).connection.flow d).Received
      config.framing lengthProbe stream isn (arrived ++ [s.chunk isn])
      (delivered ++ (c.dissected registry config (some lengthProbe) d s).pdus.map
        fun pdu => (pdu.seq, pdu.data)) k' p' := by
    rw [dissected, flow_setFlow_same]
    exact received
  obtain ⟨flows, closed, pdus⟩ :=
    c.handle_of_open registry config (some lengthProbe) d alive plain.fin plain.rst
      arrives.unfinished
  refine ⟨closed, k', p', ?_⟩
  rw [flow, flows, pdus]
  exact arrives

end

end Connection

end TcpCapture
