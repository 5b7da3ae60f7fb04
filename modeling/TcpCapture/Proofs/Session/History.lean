import Mathlib.Data.List.Forall2
import TcpCapture.Proofs.Session.Numbering
import TcpCapture.Proofs.Session.Summaries

/-!
# Histories

A connection that keeps a history has a record for each segment it handled.  Positions in it count from
where their own direction was first seen, acknowledgments from where that of the peer was; but as long as
the peer was not seen, from zero.

## Main definitions

* `Session.callsOf` — the calls of a run that are about a stream
* `originOf?` — where a direction counts from after some calls
* `Recorded`, `Records` — what is recorded of a call, and of some calls in turn
* `StreamSummary.OneNumbering` — acknowledgments and the positions they are about count from one origin
* `PeerKnown` — acknowledgments come after their peer, or count from zero anyway
* `oneNumbering_iff` — a history has one numbering exactly if the peer was known

**The history and the calls.**  A summary does not say what its records are about.  They are put beside the
calls that are about the same stream, of which there are as many.
-/

namespace TcpCapture

/-! ### Origins -/

/-- Where a direction counts from after some calls, if one of them was of that direction. -/
def originOf? (calls : List Call) (d : Direction) : Option Seq :=
  (calls.find? (·.direction == d)).map (·.segment.origin)

theorem originOf?_append (calls more : List Call) (d : Direction) :
    originOf? (calls ++ more) d = (originOf? calls d).or (originOf? more d) := by
  unfold originOf?
  rw [List.find?_append, Option.map_or]

theorem originOf?_singleton (call : Call) (d : Direction) :
    originOf? [call] d = if call.direction = d then some call.segment.origin else none := by
  unfold originOf?
  rw [List.find?_singleton]
  by_cases own : call.direction = d
  · rw [if_pos (beq_iff_eq.2 own), if_pos own]
    rfl
  · rw [if_neg (mt beq_iff_eq.1 own), if_neg own]
    rfl

/-! ### Records -/

/-- The record is about the segment of the call. -/
structure SegmentRecord.About (r : SegmentRecord) (call : Call) : Prop where
  frame : r.frame = call.segment.frame
  direction : r.direction = call.direction
  timestamp : r.timestamp = call.segment.timestamp
  len : r.len = call.segment.payloadLen
  flags : r.flags = call.segment.flags

/-- What is recorded of a call after some earlier ones. -/
structure Recorded (earlier : List Call) (call : Call) (r : SegmentRecord) : Prop
    extends r.About call where
  seq : r.seq = call.segment.seq - (originOf? (earlier ++ [call]) call.direction).getD 0
  ack : r.ack =
    if call.segment.flags.ack then
      some (call.segment.ack - (originOf? earlier call.direction.opposite).getD 0)
    else none

/-- What is recorded of some calls, one after the other. -/
inductive Records : List Call → List SegmentRecord → Prop where
  | nil : Records [] []
  | concat {calls : List Call} {records : List SegmentRecord} {call : Call} {r : SegmentRecord} :
      Records calls records → Recorded calls call r → Records (calls ++ [call]) (records ++ [r])

namespace Records

variable {calls : List Call} {records : List SegmentRecord}

/-- There is one record for each call. -/
theorem about (h : Records calls records) :
    List.Forall₂ SegmentRecord.About records calls := by
  induction h with
  | nil => exact .nil
  | concat _ recorded ih => exact List.rel_append ih (.cons recorded.toAbout .nil)

theorem zip_concat (h : Records calls records) (call : Call) (r : SegmentRecord) :
    (records ++ [r]).zip (calls ++ [call]) = records.zip calls ++ [(r, call)] :=
  List.zip_append h.about.length_eq

/-- A record beside a call was made of that call. -/
theorem of_mem (h : Records calls records) {r : SegmentRecord} {call : Call}
    (mem : (r, call) ∈ records.zip calls) :
    ∃ earlier later, calls = earlier ++ call :: later ∧ Recorded earlier call r := by
  induction h with
  | nil => cases mem
  | @concat calls records last _ before recorded ih =>
      rw [before.zip_concat, List.mem_append, List.mem_singleton, Prod.mk.injEq] at mem
      rcases mem with mem | ⟨rfl, rfl⟩
      · obtain ⟨earlier, later, rfl, known⟩ := ih mem
        exact ⟨earlier, later ++ [last], List.append_assoc .., known⟩
      · exact ⟨calls, [], rfl, recorded⟩

/-- Beside each call there is a record of it. -/
theorem exists_record (h : Records calls records) {earlier later : List Call} {call : Call}
    (split : calls = earlier ++ call :: later) :
    ∃ r, (r, call) ∈ records.zip calls ∧ Recorded earlier call r := by
  induction h generalizing later with
  | nil => exact absurd split.symm (List.append_ne_nil_of_right_ne_nil _ (List.cons_ne_nil _ _))
  | @concat calls records last r before recorded ih =>
      rw [before.zip_concat]
      rcases List.eq_nil_or_concat later with rfl | ⟨rest, y, rfl⟩
      · obtain ⟨rfl, rfl⟩ := List.append_singleton_inj.1 split
        exact ⟨r, List.mem_concat_self, recorded⟩
      · rw [List.concat_eq_append, ← List.cons_append, ← List.append_assoc] at split
        obtain ⟨same, -⟩ := List.append_singleton_inj.1 split
        obtain ⟨r, mem, known⟩ := ih same
        exact ⟨r, List.mem_append_left _ mem, known⟩

end Records

/-! ### The history of a connection -/

/-- The connection has handled the calls, and has a record of each. -/
structure StreamSummary.Follows (x : StreamSummary) (calls : List Call) : Prop where
  baseSeq : ∀ d, (x.flows.get d).baseSeq = originOf? calls d
  records : Records calls x.segments.toList

namespace Connection

variable (c : Connection) (registry : MetaRegistry) (config : Config) (probe : Option LengthProbe)
  (d : Direction) (s : Segment)

theorem baseSeq_summary (e : Direction) : (c.summary.flows.get e).baseSeq = (c.flow e).baseSeq := by
  cases e <;> rfl

theorem history_noteOpening : (c.noteOpening d s).history = c.history := by
  have shaken : (c.noteHandshake d s).history = c.history := by
    unfold noteHandshake
    split
    · rfl
    · split <;> rfl
  rw [← shaken]
  show ((c.noteHandshake d s).negotiateWindowScale d s).history = _
  unfold negotiateWindowScale
  split
  · rfl
  · extract_lets offered sender peer
    split <;> rfl

theorem history_dissected :
    (c.dissected registry config probe d s).connection.history = c.history := by
  have linked : (c.linked registry config d s).history = c.history := c.history_noteOpening d s
  rcases c.dissected_cases registry config probe d s with ⟨-, same⟩ | ⟨-, _, _, _, -, -, fed⟩
  · rw [same, linked]
  · rw [fed]
    exact linked

theorem history_ended : (c.ended registry config probe d s).1.history = c.history := by
  have finished : (c.finished registry config probe d s).connection.history = c.history := by
    rw [← c.history_dissected registry config probe d s]
    unfold finished
    split
    · obtain ⟨f, closed, -⟩ :=
        (c.dissected registry config probe d s).connection.closeDirection_cases d s.frame probe.isSome
      rw [closed]
      rfl
    · rfl
  rw [← finished]
  unfold ended endWith
  split <;> rfl

/-- With a history kept, handling a segment adds its record. -/
theorem history_handle (on : config.recordHistory = true) :
    (c.handle registry config probe d s).connection.history =
      c.history.push (c.recorded config d s) := by
  rw [handle_eq]
  dsimp only
  rw [if_pos on, history_ended]

/-- What is recorded when the connection has handled some calls before. -/
theorem recorded_of_follows {c : Connection} {calls : List Call} (h : c.summary.Follows calls)
    (call : Call) : Recorded calls call (c.recorded config call.direction call.segment) := by
  have base (e : Direction) : (c.flow e).baseSeq = originOf? calls e :=
    (c.baseSeq_summary e).symm.trans (h.baseSeq e)
  refine ⟨⟨rfl, rfl, rfl, rfl, rfl⟩, ?_, ?_⟩
  · show call.segment.seq - (((c.judged config call.direction call.segment).1.flow _).baseSeq).getD 0 = _
    rw [baseSeq_judged_own, base, originOf?_append, originOf?_singleton, if_pos rfl]
  · show (if call.segment.flags.ack then some (call.segment.ack -
      (((c.judged config call.direction call.segment).1.flow _).baseSeq).getD 0) else none) = _
    rw [baseSeq_judged_opposite, base]

end Connection

/-- **One call**: the connection that handles it has a record of it, too. -/
theorem StreamSummary.Follows.handle {c : Connection} {calls : List Call} {config : Config}
    (on : config.recordHistory = true) (h : c.summary.Follows calls) (call : Call)
    (registry : MetaRegistry) (now : Nat) :
    StreamSummary.Follows
      { (c.handle registry config call.probe call.direction call.segment).connection with
        tsPrev := now }.summary (calls ++ [call]) := by
  refine ⟨fun e => ?_, ?_⟩
  · have same := (c.sameNumbering_handle config call.direction call.segment registry call.probe e).baseSeq
    rw [Connection.baseSeq_summary, originOf?_append, originOf?_singleton, ← h.baseSeq e,
      c.baseSeq_summary]
    refine same.trans ?_
    by_cases own : e = call.direction
    · subst own
      rw [if_pos rfl, Connection.baseSeq_judged_own]
    · rw [if_neg (Ne.symm own), Option.or_none]
      obtain rfl := Direction.eq_opposite_of_ne own
      exact c.baseSeq_judged_opposite ..
  · show Records _ (c.handle registry config call.probe call.direction
      call.segment).connection.history.toList
    rw [Connection.history_handle _ _ _ _ _ _ on, Array.toList_push]
    exact h.records.concat (c.recorded_of_follows config h call)

/-! ### One numbering -/

/-- Acknowledgments are recorded in the numbering of the positions they are about: two records of opposite
directions are as far apart as the numbers that their segments carried. -/
def StreamSummary.OneNumbering (x : StreamSummary) (calls : List Call) : Prop :=
  ∀ r call r' call', (r, call) ∈ x.segments.toList.zip calls →
    (r', call') ∈ x.segments.toList.zip calls → r'.direction = r.direction.opposite →
      ∀ ack, r.ack = some ack → ack - r'.seq = call.segment.ack - call'.segment.seq

/-- A segment that acknowledges comes after one of its peer, unless the peer turns out to count from
zero. -/
def PeerKnown (calls : List Call) : Prop :=
  ∀ earlier call later, calls = earlier ++ call :: later → call.segment.flags.ack = true →
    originOf? earlier call.direction.opposite = none →
      ∀ origin, originOf? calls call.direction.opposite = some origin → origin = 0

/-- A direction that was seen keeps its origin. -/
theorem originOf?_of_prefix {earlier calls : List Call} {d : Direction} {origin : Seq}
    (known : originOf? earlier d = some origin) (within : earlier <+: calls) :
    originOf? calls d = some origin := by
  obtain ⟨later, rfl⟩ := within
  rw [originOf?_append, known, Option.some_or]

/-- The origin of a direction is that of some segment of it. -/
theorem exists_call_of_originOf? {calls : List Call} {d : Direction} {origin : Seq}
    (known : originOf? calls d = some origin) :
    ∃ earlier call later, calls = earlier ++ call :: later ∧ call.direction = d := by
  obtain ⟨call, found, -⟩ := Option.map_eq_some_iff.1 known
  obtain ⟨earlier, later, split⟩ := List.append_of_mem (List.mem_of_find?_eq_some found)
  exact ⟨earlier, call, later, split, by simpa using List.find?_some found⟩

/-- A position is recorded from the origin that its direction has from then on. -/
theorem Recorded.exists_origin {earlier later : List Call} {call : Call} {r : SegmentRecord}
    (h : Recorded earlier call r) : ∃ origin,
      originOf? (earlier ++ call :: later) call.direction = some origin ∧
        r.seq = call.segment.seq - origin := by
  have within : earlier ++ [call] <+: earlier ++ call :: later :=
    List.prefix_append_right_inj _ |>.2 ⟨later, rfl⟩
  cases known : originOf? (earlier ++ [call]) call.direction with
  | none =>
      rw [originOf?_append, originOf?_singleton, if_pos rfl, Option.or_eq_none_iff] at known
      cases known.2
  | some origin =>
      refine ⟨origin, originOf?_of_prefix known within, ?_⟩
      rw [h.seq, known, Option.getD_some]

/-- **The history of a connection has one numbering if and only if the peer was known.** -/
theorem StreamSummary.Follows.peerKnown_iff {x : StreamSummary} {calls : List Call}
    (h : x.Follows calls) : x.OneNumbering calls ↔ PeerKnown calls := by
  constructor
  · intro one earlier call later split acks unseen origin known
    obtain ⟨earlier', call', later', split', peer⟩ := exists_call_of_originOf? known
    obtain ⟨r, mem, recorded⟩ := h.records.exists_record split
    obtain ⟨r', mem', recorded'⟩ := h.records.exists_record split'
    obtain ⟨base, known', seq⟩ := recorded'.exists_origin
    rw [← split', peer] at known'
    obtain rfl := Option.some_inj.1 (known.symm.trans known')
    have opposite : r'.direction = r.direction.opposite := by
      rw [recorded'.direction, recorded.direction, peer]
    have ack : r.ack = some call.segment.ack := by
      rw [recorded.ack, if_pos acks, unseen, Option.getD_none]
      exact congrArg some (BitVec.sub_zero _)
    have apart := one r call r' call' mem mem' opposite _ ack
    rw [seq] at apart
    bv_omega
  · intro peerKnown r call r' call' mem mem' opposite ack acked
    obtain ⟨earlier, later, split, recorded⟩ := h.records.of_mem mem
    obtain ⟨earlier', later', split', recorded'⟩ := h.records.of_mem mem'
    rw [recorded.direction, recorded'.direction] at opposite
    obtain ⟨origin, known, seq⟩ := recorded'.exists_origin
    rw [← split', opposite] at known
    rw [recorded.ack] at acked
    split at acked
    · rename_i acks
      have base : (originOf? earlier call.direction.opposite).getD 0 = origin := by
        cases seen : originOf? earlier call.direction.opposite with
        | none => exact (peerKnown earlier call later split acks seen origin known).symm
        | some base =>
            have later := originOf?_of_prefix seen ⟨call :: later, split.symm⟩
            exact Option.some_inj.1 (later.symm.trans known)
      rw [base, Option.some_inj] at acked
      rw [seq, ← acked]
      bv_omega
    · cases acked

namespace Session

/-- The calls that are about a stream. -/
def callsOf (s : Session) (stream : Nat) : List Call → List Call
  | [] => []
  | call :: rest =>
    (if (s.take call).stream? = some stream then [call] else []) ++
      (s.take call).session.callsOf stream rest

theorem callsOf_concat (s : Session) (stream : Nat) (calls : List Call) (call : Call) :
    s.callsOf stream (calls ++ [call]) = s.callsOf stream calls ++
      if ((s.after calls).take call).stream? = some stream then [call] else [] := by
  induction calls generalizing s with
  | nil => exact List.append_nil _
  | cons first rest ih =>
      show _ ++ (s.take first).session.callsOf stream (rest ++ [call]) = _
      rw [ih, ← List.append_assoc]
      rfl

/-- All calls may be about one stream. -/
theorem callsOf_eq_self {s : Session} {stream : Nat} {calls : List Call}
    (all : ∀ p ∈ s.run calls, p.stream? = some stream) : s.callsOf stream calls = calls := by
  induction calls generalizing s with
  | nil => rfl
  | cons first rest ih =>
      obtain ⟨own, others⟩ := List.forall_mem_cons.1 all
      show (if (s.take first).stream? = some stream then [first] else []) ++ _ = _
      rw [if_pos own, ih others]
      rfl

/-- No call is about a stream that has not opened. -/
theorem callsOf_nextStream (config : Config) (calls : List Call) :
    (new config).callsOf ((new config).after calls).table.nextStream calls = [] := by
  have unseen : ((new config).after calls).table.nextStream ∉ (new config).streamsSeen calls := by
    rw [mem_streamsSeen]
    exact Nat.lt_irrefl _
  generalize ((new config).after calls).table.nextStream = stream at unseen
  generalize new config = s at unseen
  induction calls generalizing s with
  | nil => rfl
  | cons first rest ih =>
      have other : (s.take first).stream? ≠ some stream := fun same =>
        unseen (List.mem_filterMap.2 ⟨_, List.mem_cons_self, same⟩)
      show (if (s.take first).stream? = some stream then [first] else []) ++ _ = _
      rw [if_neg other, List.nil_append]
      refine ih _ fun seen => unseen ?_
      obtain ⟨p, mem, same⟩ := List.mem_filterMap.1 seen
      exact List.mem_filterMap.2 ⟨p, List.mem_cons_of_mem _ mem, same⟩

/-- **A run**: every connection has a record of each call that is about its stream. -/
theorem follows_after {config : Config} (on : config.recordHistory = true) (calls : List Call) :
    ∀ x ∈ ((new config).after calls).summaries, x.Follows ((new config).callsOf x.stream calls) := by
  induction calls using List.reverseRecOn with
  | nil => exact fun x mem => absurd mem List.not_mem_nil
  | append_singleton calls call ih =>
      have consistent := (consistent_new config).after calls
      intro x mem
      rw [after_concat] at mem
      rw [callsOf_concat]
      rcases (Numbered.after config calls).mem_summaries_take consistent mem with
        ⟨before, other⟩ | ⟨r, c, handles, rfl, known⟩
      · rw [if_neg other, List.append_nil]
        exact ih x before
      · have stream : ({ (handled call r c).connection with
            tsPrev := call.segment.timestamp }.summary).stream = c.stream :=
          handles.sameIdentity.stream
        have settings : r.session.config = config :=
          handles.config.trans (config_after (consistent_new config) calls)
        have follows : c.summary.Follows ((new config).callsOf c.stream calls) := by
          rcases known with before | rfl
          · exact ih _ before
          · show StreamSummary.Follows _ ((new config).callsOf ((new config).after calls).table.nextStream
              calls)
            rw [callsOf_nextStream]
            exact ⟨fun d => by cases d <;> rfl, .nil⟩
        rw [stream, if_pos (handles.stream?_take consistent)]
        exact follows.handle (by rwa [settings]) call _ _

/-- **Each history has one record for each call about its stream, and these have one numbering if and only
if the peer was known.** -/
theorem oneNumbering_iff {config : Config} (on : config.recordHistory = true) (calls : List Call)
    {x : StreamSummary} (mem : x ∈ ((new config).after calls).summaries) :
    List.Forall₂ SegmentRecord.About x.segments.toList ((new config).callsOf x.stream calls) ∧
      (x.OneNumbering ((new config).callsOf x.stream calls) ↔
        PeerKnown ((new config).callsOf x.stream calls)) :=
  have follows := follows_after on calls x mem
  ⟨follows.records.about, follows.peerKnown_iff⟩

/-- The history of a handshake has one numbering: the answer comes after the SYN that it acknowledges. -/
theorem handshake_numbering :
    let client : Endpoint := ⟨.v4 0x0a000001, 40000⟩
    let server : Endpoint := ⟨.v4 0x0a000002, 443⟩
    let syn : Call :=
      { segment := { source := client, destination := server, seq := 99, flags.syn := true } }
    let answer : Call := {
      segment := {
        source := server, destination := client, seq := 4999, ack := 100
        flags := { syn := true, ack := true } } }
    ∃ x ∈ ((new {}).after [syn, answer]).summaries, x.segments.size = 2 ∧
      x.OneNumbering ((new {}).callsOf x.stream [syn, answer]) := by
  intro client server syn answer
  have streams : ((new {}).after [syn, answer]).summaries.map (·.stream) = [0] := by decide +kernel
  obtain ⟨x, mem, stream⟩ := List.mem_map.1 (streams ▸ List.mem_singleton_self 0)
  have calls : (new {}).callsOf x.stream [syn, answer] = [syn, answer] :=
    callsOf_eq_self (by rw [stream]; decide +kernel)
  obtain ⟨about, numbering⟩ := oneNumbering_iff rfl [syn, answer] mem
  refine ⟨x, mem, ?_⟩
  rw [calls] at about numbering ⊢
  refine ⟨about.length_eq, numbering.2 ?_⟩
  intro earlier call later split acks unseen
  rcases earlier with _ | ⟨first, _ | ⟨second, rest⟩⟩
  · obtain ⟨rfl, -⟩ := List.cons.inj split
    exact absurd acks (by decide)
  · obtain ⟨rfl, tail⟩ := List.cons.inj split
    obtain ⟨rfl, -⟩ := List.cons.inj tail
    exact absurd unseen (by decide)
  · exact absurd (congrArg List.length split) (by simp)

/-- In the middle of a connection, one side acknowledges before the other is seen: the acknowledgment is
recorded as it is, and the position that it is about as 1. -/
theorem not_oneNumbering : ¬ ∀ (config : Config) (calls : List Call), config.recordHistory = true →
    ∀ x ∈ ((new config).after calls).summaries,
      x.OneNumbering ((new config).callsOf x.stream calls) := by
  intro all
  let client : Endpoint := ⟨.v4 0x0a000001, 40000⟩
  let server : Endpoint := ⟨.v4 0x0a000002, 443⟩
  let data : Call := {
    segment := {
      source := client, destination := server, seq := 100, ack := 5000, flags.ack := true
      payload := [7] } }
  let answer : Call := {
    segment := {
      source := server, destination := client, seq := 5000, ack := 101, flags.ack := true
      payload := [8] } }
  have streams : ((new {}).after [data, answer]).summaries.map (·.stream) = [0] := by decide +kernel
  obtain ⟨x, mem, stream⟩ := List.mem_map.1 (streams ▸ List.mem_singleton_self 0)
  have calls : (new {}).callsOf x.stream [data, answer] = [data, answer] :=
    callsOf_eq_self (by rw [stream]; decide +kernel)
  have one := all {} [data, answer] rfl x mem
  have follows := follows_after rfl [data, answer] x mem
  rw [calls] at one follows
  have origin := follows.peerKnown_iff.1 one [] data [answer] rfl rfl rfl 4999 (by decide)
  exact absurd origin (by decide)

end Session

end TcpCapture
