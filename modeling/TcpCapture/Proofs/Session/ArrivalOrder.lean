import TcpCapture.Proofs.Flow.Batches
import TcpCapture.Proofs.Session.Bytes
import TcpCapture.Proofs.Session.Feeding

/-!
# The order of arrival and bad lengths

The segments of a direction come out of its reorder buffer whole and in order, whatever the order they
arrive in.  Where they come out together they are fed together, up to the first that holds a length
which cannot be framed.

## Main definitions

* `Transfer` — a direction that opens and carries a stream in segments
* `Transfer.delivered` — what is delivered when the segments arrive in some order
* `Transfer.OrderFree` — every order delivers the same

**What is lost.**  A segment that fills a hole brings those held back behind it along.  If its bytes end
in an error the others are gone: the buffer has moved past them, and nothing feeds them again.  In order
each of them would have been fed by itself.
-/

namespace TcpCapture

open Session Assembler

/-- A run of calls feeds the batches its pushes let out, each up to its first error. -/
theorem Session.Feeding.deliveredIn_run {config : Config} {conversation : Conversation}
    {d : Direction} {isn : Seq} {b : ReorderBuffer} {a : Assembler} {last : Nat} {s : Session}
    (h : s.Feeding config conversation d isn b a last) {probe : LengthProbe} {stream : List UInt8}
    {calls : List Call} (carries : ∀ call ∈ calls, Carries probe stream isn conversation d call)
    (timely : (last :: calls.map (·.segment.timestamp)).IsChain
      fun earlier later => later ≤ earlier + config.idleTimeout)
    (room : ∀ pushed, pushed <+: arrivals d isn calls →
      (b.pushAll pushed).heldBytes ≤ config.maxReorderBytes) :
    deliveredIn d (s.run calls) =
      (a.batchPdus config.framing probe (b.batches (arrivals d isn calls))).map
        fun pdu => (pdu.seq, pdu.data) := by
  induction calls generalizing s b a last with
  | nil => rfl
  | cons call rest ih =>
      have arrives : arrivals d isn (call :: rest) =
          arrivals d isn [call] ++ arrivals d isn rest := arrivals_append d isn [call] rest
      obtain ⟨feeding, delivered⟩ := h.take (carries call List.mem_cons_self) timely.rel
        (room _ (arrives ▸ List.prefix_append _ _))
      have later := ih feeding (fun later mem => carries later (List.mem_cons_of_mem call mem))
        timely.of_cons fun pushed front => by
          rw [← ReorderBuffer.pushAll_append]
          exact room _ (arrives ▸ (List.prefix_append_right_inj _).2 front)
      rw [run_cons, deliveredIn_cons, delivered, later, arrives, ReorderBuffer.batches_append, ← List.map_append]
      -- one call pushes one chunk, or none
      by_cases own : call.direction = d
      · have one : arrivals d isn [call] = [call.segment.chunk isn] := by simp [arrivals, own]
        rw [one, ReorderBuffer.releasedBy, ReorderBuffer.releasedBy, List.append_nil]
        rfl
      · have none : arrivals d isn [call] = [] := by simp [arrivals, own]
        rw [none]
        rfl

/-- A direction opens on a new session and carries a stream in segments, while no hole is given up. -/
structure Transfer (config : Config) where
  probe : LengthProbe
  /-- What the peer sends first. -/
  opening : List Call
  syn : Call
  /-- The segments of the stream, in their order. -/
  segments : List Call
  peers : ∀ call ∈ opening, call.conversation = syn.conversation ∧
    syn.direction = call.direction.opposite ∧ call.segment.flags.fin = false ∧
    call.segment.flags.rst = false
  isSyn : syn.segment.flags.syn = true
  synFin : syn.segment.flags.fin = false
  synRst : syn.segment.flags.rst = false
  synEmpty : syn.segment.payload = []
  accepted : (((new config).after opening).take syn).report.isOk = true
  brings : ∀ call ∈ segments, Brings probe syn.conversation syn.direction call
  consecutive : Consecutive 1 (segments.map (·.segment.chunk syn.segment.seq))
  small : (segments.flatMap (·.segment.payload)).length < 0x80000000
  timely : ∀ earlier ∈ syn :: segments, ∀ later ∈ segments,
    later.segment.timestamp ≤ earlier.segment.timestamp + config.idleTimeout
  room : ∀ order, order.Perm segments →
    ∀ pushed, pushed <+: arrivals syn.direction syn.segment.seq order →
      ((ReorderBuffer.sync {} 1).pushAll pushed).heldBytes ≤ config.maxReorderBytes

namespace Transfer

variable {config : Config}

/-- The payload of the segments, each in its place. -/
def chunks (t : Transfer config) : List Chunk :=
  t.segments.map (·.segment.chunk t.syn.segment.seq)

/-- The PDUs delivered in the direction when its segments arrive in some `order`. -/
def delivered (t : Transfer config) (order : List Call) : List (Seq × List UInt8) :=
  deliveredIn t.syn.direction ((new config).run (t.opening ++ t.syn :: order))

/-- Every order of arrival delivers what the order of the stream delivers. -/
def OrderFree (t : Transfer config) : Prop :=
  ∀ order, order.Perm t.segments → t.delivered order = t.delivered t.segments

section

variable (t : Transfer config) {order : List Call}

theorem small_chunks : (t.chunks.flatMap (·.data)).length < 0x80000000 := by
  rw [chunks, List.flatMap_map]
  exact t.small

/-- The segments lie end to end in the stream. -/
theorem tiles : Tiles (t.chunks.flatMap (·.data)) 1 0 t.chunks (t.chunks.flatMap (·.data)).length :=
  Consecutive.tiles t.small_chunks (Nat.zero_le _) ((advance_zero 1).symm ▸ t.consecutive) rfl

theorem nonempty : ∀ c ∈ t.chunks, c.data ≠ [] := fun c mem => (t.tiles.isSlice c mem).nonempty

theorem carries {call : Call} (mem : call ∈ t.segments) :
    Carries t.probe (t.chunks.flatMap (·.data)) t.syn.segment.seq t.syn.conversation
      t.syn.direction call := by
  obtain ⟨conversation, direction, probe, ⟨syn, fin, rst⟩, data⟩ := t.brings call mem
  refine ⟨conversation, probe, ?_, fin, rst, fun _ => syn, fun _ => Or.inr ⟨data, ?_⟩⟩
  · rw [Segment.isOpening, syn, Bool.false_and]
  · exact t.tiles.isSlice _ (List.mem_map_of_mem mem)

theorem arrivals_eq (sub : order ⊆ t.segments) :
    arrivals t.syn.direction t.syn.segment.seq order =
      order.map (·.segment.chunk t.syn.segment.seq) := by
  rw [arrivals, List.filter_eq_self.2]
  intro call mem
  exact decide_eq_true (t.brings call (sub mem)).direction

/-- **What an order of arrival delivers** is what the batches it lets out give. -/
theorem delivered_eq (perm : order.Perm t.segments) :
    t.delivered order =
      (batchPdus {} config.framing t.probe ((ReorderBuffer.sync {} 1).batches
        (order.map (·.segment.chunk t.syn.segment.seq)))).map fun pdu => (pdu.seq, pdu.data) := by
  -- the opening and the SYN
  obtain ⟨unopened, nothing⟩ :=
    (unopened_new config t.syn.conversation t.syn.direction).run t.peers
  have peer := (unfinished_new config t.syn.conversation t.syn.direction.opposite).after
    fun call mem => (t.peers call mem).2.2.1
  obtain ⟨feeding, nothing'⟩ := unopened.feeding_take_syn peer t.isSyn t.synFin t.synRst t.synEmpty
    t.accepted
  have settings : ((new config).after t.opening).config = config :=
    config_after (consistent_new config) t.opening
  rw [settings] at feeding
  have timely : (t.syn.segment.timestamp :: order.map (·.segment.timestamp)).IsChain
      fun earlier later => later ≤ earlier + config.idleTimeout := by
    show ((t.syn :: order).map (·.segment.timestamp)).IsChain _
    refine (List.pairwise_map.2 (List.pairwise_cons.2 ⟨?_, ?_⟩)).isChain
    · intro later mem
      exact t.timely _ List.mem_cons_self _ (perm.subset mem)
    · refine List.pairwise_of_forall_mem_list fun earlier mem later mem' => ?_
      exact t.timely _ (List.mem_cons_of_mem _ (perm.subset mem)) _ (perm.subset mem')
  have fed := feeding.deliveredIn_run (fun call mem => t.carries (perm.subset mem)) timely
    (t.room order perm)
  rw [delivered, run_append, deliveredIn_append, nothing, Session.run, deliveredIn_cons, nothing',
    fed, t.arrivals_eq perm.subset, List.nil_append, List.nil_append]

/-- In the order of the stream the segments are fed one by one. -/
theorem delivered_segments :
    t.delivered t.segments = (eachPdus {} config.framing t.probe t.chunks).map
      fun pdu => (pdu.seq, pdu.data) := by
  rw [t.delivered_eq (List.Perm.refl _), ReorderBuffer.batches_in_order t.consecutive t.small_chunks,
    (batchPdus_map_singleton _ _ _ _).1]
  rfl

/-- Where the order of arrival is of no account there is nothing to be framed behind a bad length. -/
theorem silentBehindErrors_of_orderFree (free : t.OrderFree) :
    SilentBehindErrors {} config.framing t.probe t.chunks := by
  refine silentBehindErrors_of_late (fun pdu => (pdu.seq, pdu.data)) t.nonempty ?_
  intro front c mid rest split
  -- the segment of `c` may arrive behind those of `mid`
  obtain ⟨front', back', segments, rfl, back⟩ := List.map_eq_append_iff.1 split
  obtain ⟨call, others, rfl, rfl, mids⟩ := List.map_eq_cons_iff.1 back
  obtain ⟨mid', rest', rfl, rfl, rfl⟩ := List.map_eq_append_iff.1 mids
  have perm : (front' ++ (mid' ++ call :: rest')).Perm t.segments := by
    rw [segments]
    exact List.Perm.append_left front' List.perm_middle
  have same := free _ perm
  rw [t.delivered_segments, t.delivered_eq perm, List.map_append, List.map_append, List.map_cons,
    ReorderBuffer.batches_of_late t.consecutive t.small_chunks split] at same
  exact same

/-- Where there is nothing to be framed behind a bad length, batches give what their segments give. -/
theorem orderFree_of_silentBehindErrors
    (silent : SilentBehindErrors {} config.framing t.probe t.chunks) : t.OrderFree := by
  intro order perm
  have out : ((ReorderBuffer.sync {} 1).batches
      (order.map (·.segment.chunk t.syn.segment.seq))).flatten = t.chunks := by
    rw [ReorderBuffer.flatten_batches]
    refine ReorderBuffer.releasedBy_of_perm t.chunks [] [] t.consecutive t.small_chunks
      (List.append_nil _).symm ?_ nofun
    rw [List.append_nil]
    exact perm.map _
  rw [t.delivered_eq perm, t.delivered_segments,
    batchPdus_eq_eachPdus (out ▸ t.nonempty) (out ▸ silent), out]

/-- **The order of arrival is of no account if and only if there is no PDU to be framed behind a bad
length**, whichever of the segments behind it framing resumes with. -/
theorem orderFree_iff : t.OrderFree ↔ SilentBehindErrors {} config.framing t.probe t.chunks :=
  ⟨t.silentBehindErrors_of_orderFree, t.orderFree_of_silentBehindErrors⟩

end

/-- Two segments; the first holds two lengths that are zero, the second a PDU. -/
theorem exists_zero_lengths : ∃ t : Transfer {},
    t.probe = LengthField.probe ⟨0, .one, 0⟩ ∧
      t.chunks = [⟨1, 3, 3, [0, 0]⟩, ⟨3, 2, 2, [2, 9]⟩] := by
  let client : Endpoint := ⟨.v4 0x0a000001, 40000⟩
  let server : Endpoint := ⟨.v4 0x0a000002, 443⟩
  let probe : LengthProbe := LengthField.probe ⟨0, .one, 0⟩
  let syn : Call := {
    segment := {
      source := client, destination := server, flags.syn := true, frame := 1, timestamp := 1 } }
  let data (seq : Seq) (payload : List UInt8) (time : Nat) : Call := {
    segment := {
      source := client, destination := server, seq, ack := 78, flags.ack := true, payload
      frame := time, timestamp := time }
    probe }
  refine ⟨{
    probe
    opening := []
    syn
    segments := [data 1 [0, 0] 3, data 3 [2, 9] 2]
    peers := fun _ mem => absurd mem List.not_mem_nil
    isSyn := rfl
    synFin := rfl
    synRst := rfl
    synEmpty := rfl
    accepted := by decide +kernel
    brings := ?_
    consecutive := ⟨by decide, by decide, by decide, by decide, trivial⟩
    small := by decide
    timely := by decide
    room := ?_ }, rfl, ?_⟩
  · intro call mem
    simp only [List.mem_cons, List.not_mem_nil, or_false] at mem
    rcases mem with rfl | rfl <;> exact ⟨rfl, rfl, rfl, ⟨rfl, rfl, rfl⟩, by decide⟩
  · intro order perm pushed front
    -- there are four bytes in all
    have all : totalOf (·.data.length) (arrivals syn.direction 0 order) = 4 :=
      (totalOf_perm ((perm.filter _).map _)).trans (by decide)
    obtain ⟨later, split⟩ := front
    have split : pushed ++ later = arrivals syn.direction 0 order := split
    rw [← split, totalOf_append] at all
    have held := ReorderBuffer.heldBytes_pushAll_le (ReorderBuffer.sync {} 1) pushed
    rw [show (ReorderBuffer.sync {} 1).heldBytes = 0 from rfl] at held
    show _ ≤ 4194304
    omega
  · show [(data 1 [0, 0] 3).segment.chunk 0, (data 3 [2, 9] 2).segment.chunk 0] = _
    decide

/-- The bytes behind a bad length are lost where their segments come out together. -/
theorem not_orderFree : ¬ ∀ (config : Config) (t : Transfer config), t.OrderFree := by
  intro all
  obtain ⟨t, probe, chunks⟩ := exists_zero_lengths
  have silent := t.silentBehindErrors_of_orderFree (all _ t)
  rw [probe, chunks] at silent
  -- the second segment gives a PDU when it is fed by itself
  have nothing := silent [] _ [_] rfl (by decide +kernel) _ (List.suffix_refl _)
  revert nothing
  decide +kernel

end Transfer

end TcpCapture
