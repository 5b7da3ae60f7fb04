import TcpCapture.Proofs.Session.Feeding

/-!
# FINs that overtake payload

A FIN ends its direction in the moment it arrives: what was let out by then is all that belongs to the
PDU it ends, and payload that arrives later, or was held back behind a hole, begins anew.

## Main definitions

* `EndingRun` — a run in which a direction opens, carries a stream and ends
* `EndingRun.split` — how much of the stream came out before the FIN
* `EndingRun.EndsInPlace` — what is delivered is what the whole stream gives

**What is lost.**  The FIN stands behind all of the stream, yet acts on the part that came out.  With a
length probe the PDU open at that point is dropped, and what follows is cut from a wrong boundary; where
the direction is one PDU, that PDU is cut short.
-/

namespace TcpCapture

open Session Assembler

/-- What a direction sends arrives as slices of the stream, or without payload. -/
theorem slices_arrivals {probe : LengthProbe} {stream : List UInt8} {isn : Seq}
    {conversation : Conversation} {d : Direction} {calls : List Call}
    (carries : ∀ call ∈ calls, Carries probe stream isn conversation d call) :
    ∀ c ∈ arrivals d isn calls, c.data = [] ∨ c.IsSlice stream 1 := by
  intro c mem
  obtain ⟨call, sent, rfl⟩ := List.mem_map.1 mem
  obtain ⟨sent, own⟩ := List.mem_filter.1 sent
  exact ((carries call sent).slice (of_decide_eq_true own)).imp_right And.right

/-- A run on a new session in which a direction opens, carries a stream in slices that cover it, and
ends with a FIN behind the stream, while no hole is given up.  Slices may arrive in any order, before or
after the FIN. -/
structure EndingRun (config : Config) where
  probe : LengthProbe
  stream : List UInt8
  /-- What the peer sends first. -/
  opening : List Call
  syn : Call
  /-- What arrives between the SYN and the FIN. -/
  before : List Call
  fin : Call
  /-- What arrives after the FIN. -/
  late : List Call
  desegment : config.framing.desegment = true
  regular : config.framing.untilClose = false → ∀ bytes, Regular config.framing probe bytes
  small : stream.length < 0x80000000
  peers : ∀ call ∈ opening, call.conversation = syn.conversation ∧
    syn.direction = call.direction.opposite ∧ call.segment.flags.fin = false ∧
    call.segment.flags.rst = false
  isSyn : syn.segment.flags.syn = true
  synFin : syn.segment.flags.fin = false
  synRst : syn.segment.flags.rst = false
  synEmpty : syn.segment.payload = []
  accepted : (((new config).after opening).take syn).report.isOk = true
  carries : ∀ call ∈ before ++ late,
    Carries probe stream syn.segment.seq syn.conversation syn.direction call
  finishes : Finishes syn.conversation syn.direction fin
  behind : fin.segment.seq = advance syn.segment.seq (stream.length + 1)
  dissected : fin.probe = some probe
  timely : (syn.segment.timestamp :: (before ++ fin :: late).map (·.segment.timestamp)).IsChain
    fun earlier later => later ≤ earlier + config.idleTimeout
  room : ∀ pushed, pushed <+: arrivals syn.direction syn.segment.seq (before ++ late) →
    ((ReorderBuffer.sync {} 1).pushAll pushed).heldBytes ≤ config.maxReorderBytes
  all : ∀ position < stream.length,
    Covered 1 (arrivals syn.direction syn.segment.seq (before ++ late)) position

namespace EndingRun

variable {config : Config}

/-- All calls of the run. -/
def calls (run : EndingRun config) : List Call :=
  run.opening ++ run.syn :: (run.before ++ run.fin :: run.late)

/-- The PDUs delivered in the direction. -/
def delivered (run : EndingRun config) : List (Seq × List UInt8) :=
  deliveredIn run.syn.direction ((new config).run run.calls)

/-- How much of the stream came out before the FIN. -/
def split (run : EndingRun config) : Nat :=
  coveredPrefix run.stream 1 (arrivals run.syn.direction run.syn.segment.seq run.before)

/-- The FIN ends the direction at its own place: what is delivered is what the stream gives when it ends
behind its last byte. -/
def EndsInPlace (run : EndingRun config) : Prop :=
  run.delivered = closedPdus config.framing run.probe 1 run.stream

/-- What comes out before the FIN and after it lies end to end, and together is the stream. -/
theorem tiles_releasedBy (run : EndingRun config) :
    let buffer := ReorderBuffer.sync {} 1
    let first := arrivals run.syn.direction run.syn.segment.seq run.before
    let later := arrivals run.syn.direction run.syn.segment.seq run.late
    Tiles run.stream 1 0 (buffer.releasedBy first) run.split ∧
      Tiles run.stream 1 run.split ((buffer.pushAll first).releasedBy later) run.stream.length := by
  intro buffer first later
  have slices : ∀ c ∈ first, c.data = [] ∨ c.IsSlice run.stream 1 :=
    slices_arrivals fun call mem => run.carries call (List.mem_append_left _ mem)
  have others : ∀ c ∈ later, c.data = [] ∨ c.IsSlice run.stream 1 :=
    slices_arrivals fun call mem => run.carries call (List.mem_append_right _ mem)
  have all : coveredPrefix run.stream 1 (first ++ later) = run.stream.length := by
    refine coveredPrefix_eq (Nat.le_refl _) (fun position inside => ?_)
      fun less => absurd less (Nat.lt_irrefl _)
    have covered := run.all position inside
    rw [arrivals_append] at covered
    exact covered
  exact ⟨(ReorderBuffer.letOut_pushAll_sync run.small slices).tiles,
    all ▸ (ReorderBuffer.letOut_pushAll_later run.small slices others).tiles⟩

/-- **The FIN acts when it arrives**: the PDUs delivered are those of the stream split where it had come
out to by then. -/
theorem delivered_eq (run : EndingRun config) :
    run.delivered = pdusSplitAt config.framing run.probe 1 run.stream run.split := by
  obtain ⟨first, later⟩ := run.tiles_releasedBy
  obtain ⟨⟨fine, fine'⟩, parsed⟩ :=
    feedAll_close_feedAll run.desegment run.regular run.small first later run.fin.segment.frame
  -- the opening and the SYN
  obtain ⟨unopened, nothing⟩ :=
    (unopened_new config run.syn.conversation run.syn.direction).run run.peers
  have peer := (unfinished_new config run.syn.conversation run.syn.direction.opposite).after
    fun call mem => (run.peers call mem).2.2.1
  obtain ⟨feeding, nothing'⟩ := unopened.feeding_take_syn peer run.isSyn run.synFin run.synRst
    run.synEmpty run.accepted
  have settings : ((new config).after run.opening).config = config :=
    config_after (consistent_new config) run.opening
  rw [settings] at feeding
  -- what arrives before the FIN, the FIN, and what arrives after it
  have room := run.room
  rw [arrivals_append] at room
  obtain ⟨⟨last, timely, fed⟩, before⟩ := feeding.run (run.fin :: run.late)
    (fun call mem => run.carries call (List.mem_append_left _ mem)) run.timely
    (fun pushed front => room pushed (front.trans (List.prefix_append _ _))) fine
  obtain ⟨closed, ending⟩ := fed.take_fin run.dissected run.finishes timely.rel
  obtain ⟨-, late⟩ := closed.run []
    (fun call mem => run.carries call (List.mem_append_right _ mem))
    (by rw [List.append_nil]; exact timely.of_cons)
    (fun pushed front => by
      rw [← ReorderBuffer.pushAll_append]
      exact room _ ((List.prefix_append_right_inj _).2 front)) fine'
  rw [delivered, calls, run_append, deliveredIn_append, nothing, Session.run, deliveredIn_cons,
    nothing', run_append, deliveredIn_append, before, Session.run, deliveredIn_cons, ending, late,
    ← parsed, List.nil_append, List.nil_append, List.append_assoc]

/-- **A FIN ends its direction in place if and only if the part of the stream that came out before it
ends at a good place.** -/
theorem endsInPlace_iff (run : EndingRun config) :
    run.EndsInPlace ↔ EndsBetween config.framing run.probe run.stream run.split := by
  have inside : run.split ≤ run.stream.length := run.tiles_releasedBy.2.le
  rw [EndsInPlace, run.delivered_eq]
  exact pdusSplitAt_eq_iff (fun mode => run.regular mode run.stream) run.small inside

/-- A stream of two PDUs in two slices; the FIN behind them arrives between the two. -/
theorem exists_overtaking : ∃ run : EndingRun { framing := { fixedLen := 1 } },
    run.probe = LengthField.probe ⟨0, .one, 1⟩ ∧ run.stream = [2, 10, 11, 1, 12] ∧
      run.split = 2 := by
  let client : Endpoint := ⟨.v4 0x0a000001, 40000⟩
  let server : Endpoint := ⟨.v4 0x0a000002, 443⟩
  let probe : LengthProbe := LengthField.probe ⟨0, .one, 1⟩
  let data (seq : Seq) (payload : List UInt8) : Call := {
    segment := {
      source := client, destination := server, seq, ack := 78, flags.ack := true, payload }
    probe }
  refine ⟨{
    probe
    stream := [2, 10, 11, 1, 12]
    opening := []
    syn := { segment := { source := client, destination := server, flags.syn := true }, probe }
    before := [data 1 [2, 10]]
    fin := {
      segment := {
        source := client, destination := server, seq := 6, ack := 78
        flags.fin := true, flags.ack := true }
      probe }
    late := [data 3 [11, 1, 12]]
    desegment := rfl
    regular := fun _ => LengthField.regular _ (by decide) (by decide) (by decide)
    small := by decide
    peers := fun _ mem => absurd mem List.not_mem_nil
    isSyn := rfl
    synFin := rfl
    synRst := rfl
    synEmpty := rfl
    accepted := by decide +kernel
    carries := ?_
    finishes := ⟨rfl, rfl, rfl, rfl, rfl, rfl⟩
    behind := by decide
    dissected := rfl
    timely := by decide
    room := ?_
    all := by decide }, rfl, rfl, ?_⟩
  · intro call mem
    simp only [List.cons_append, List.nil_append, List.mem_cons, List.not_mem_nil, or_false] at mem
    rcases mem with rfl | rfl
    all_goals
      exact ⟨rfl, rfl, rfl, rfl, rfl, fun _ => rfl,
        fun _ => Or.inr ⟨by decide, by decide, by decide⟩⟩
  · simp only [← List.mem_inits]
    decide +kernel
  · show coveredPrefix [2, 10, 11, 1, 12] 1 (arrivals _ 0 [data 1 [2, 10]]) = 2
    decide +kernel

/-- A FIN that overtakes payload does not end its direction in place: no PDU of the stream is
delivered. -/
theorem not_endsInPlace : ¬ ∀ (config : Config) (run : EndingRun config), run.EndsInPlace := by
  intro all
  obtain ⟨run, probe, stream, split⟩ := exists_overtaking
  have inPlace := all _ run
  rw [EndsInPlace, delivered_eq, probe, stream, split, pdusSplitAt, closedPdus, closedPdus] at inPlace
  -- neither the two bytes before the FIN nor the three after it hold a whole PDU
  rw [if_neg Bool.false_ne_true, if_neg Bool.false_ne_true, if_neg Bool.false_ne_true,
    parse_of_none (by decide +kernel), parse_of_none (by decide +kernel),
    parse_of_some (n := 3) (by decide +kernel)] at inPlace
  cases inPlace

end EndingRun

end TcpCapture
