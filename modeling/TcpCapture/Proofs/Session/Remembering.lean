import TcpCapture.Proofs.Session.Feeding
import TcpCapture.Proofs.Session.History
import TcpCapture.Proofs.Session.Subflows

/-!
# What a connection remembers

A live connection does not keep the segments it handled.  What it does keep — where its directions count
from, how much payload they sent, whether they ended — is told by the calls that are about its stream.

## Main definitions

* `Session.forall_live_calls_iff` — what holds of live connections and of the calls about them, call by
  call
* `Connection.flow_handle` — a flow once a segment is handled, and once it was only judged
* `isOver`, `carriesData` — some calls end their connection, or bring payload
* `Connection.Remembers` — what a connection keeps of the calls about its stream

**Ends.**  A connection is closed in the call that brings the second FIN.  So one that both directions have
ended is closed, and the calls alone tell whether it is.
-/

namespace TcpCapture

/-! ### Live connections and the calls about them -/

namespace Session

section

variable {P : List Call → Connection → Prop}
  (start : ∀ stream conversation now, P [] (.start stream conversation now))

include start

/-- What holds of the live connections and the calls about them holds of one that opens, too. -/
theorem forall_resolved_calls {config : Config} {calls : List Call}
    (all : ∀ c ∈ ((new config).after calls).table.live, P ((new config).callsOf c.stream calls) c)
    {call : Call} {r : Resolved} {c : Connection}
    (handles : ((new config).after calls).Handles call r c) :
    ∀ e ∈ r.session.table.live, P ((new config).callsOf e.stream calls) e := by
  intro e mem
  rcases handles.live_cases ((consistent_new config).after calls) mem with mem | rfl
  · exact all e mem
  · show P ((new config).callsOf ((new config).after calls).table.nextStream calls) _
    rw [callsOf_nextStream]
    exact start ..

/-- **One call**: it is added to the calls about the connection that handles it, and to no others. -/
theorem forall_live_calls_concat {config : Config} {calls : List Call}
    (all : ∀ c ∈ ((new config).after calls).table.live, P ((new config).callsOf c.stream calls) c)
    {call : Call}
    (keeps : ∀ r c, ((new config).after calls).Handles call r c →
      P ((new config).callsOf c.stream calls ++ [call])
        { (handled call r c).connection with tsPrev := call.segment.timestamp }) :
    ∀ c ∈ ((new config).after (calls ++ [call])).table.live,
      P ((new config).callsOf c.stream (calls ++ [call])) c := by
  have consistent := (consistent_new config).after calls
  rw [after_concat]
  intro e mem
  rw [callsOf_concat]
  rcases ((new config).after calls).take_cases call with ⟨error, refused⟩ | ⟨r, c, handles⟩
  · rw [take_of_refused refused] at mem ⊢
    rw [if_neg nofun, List.append_nil]
    exact all e (consistent.live_swept_subset call mem)
  · rw [handles.stream?_take consistent]
    rcases (handles.mem_live_take_iff consistent).1 mem with rfl | ⟨mem, other⟩
    · show P ((new config).callsOf (handled call r c).connection.stream calls ++
        if some c.stream = some (handled call r c).connection.stream then _ else _) _
      rw [handles.sameIdentity.stream, if_pos rfl]
      exact keeps r c handles
    · rw [if_neg fun same => other (Option.some.inj same).symm, List.append_nil]
      exact forall_resolved_calls start all handles e mem

/-- **A run**: if each call handled tells whether its connection keeps to the calls about it, live
connections do so all the time exactly if every call sees to it. -/
theorem forall_live_calls_iff {Q : List Call → Call → Connection → Prop}
    (tells : ∀ known c registry config (call : Call), c.conversation = call.conversation → P known c →
      (P (known ++ [call])
        { (c.handle registry config call.probe call.direction call.segment).connection with
          tsPrev := call.segment.timestamp } ↔ Q known call c))
    (config : Config) (calls : List Call) :
    (∀ pre, pre <+: calls → ∀ c ∈ ((new config).after pre).table.live,
        P ((new config).callsOf c.stream pre) c) ↔
      ∀ pre call, pre ++ [call] <+: calls → ∀ r c, ((new config).after pre).Handles call r c →
        Q ((new config).callsOf c.stream pre) call c := by
  constructor
  · intro all pre call reached r c handles
    have consistent := (consistent_new config).after pre
    have before := all pre ((List.prefix_append _ _).trans reached)
    have after := all _ reached
    rw [after_concat] at after
    have has := after _ (handles.mem_live_take consistent)
    rw [callsOf_concat, handles.stream?_take consistent] at has
    change P ((new config).callsOf (handled call r c).connection.stream pre ++
      if some c.stream = some (handled call r c).connection.stream then _ else _) _ at has
    rw [handles.sameIdentity.stream, if_pos rfl] at has
    exact (tells _ c _ _ call handles.conversation
      (forall_resolved_calls start before handles c handles.mem)).1 has
  · intro every pre
    induction pre using List.reverseRecOn with
    | nil => exact fun _ c mem => absurd mem List.not_mem_nil
    | append_singleton pre call ih =>
        intro reached
        have before := ih ((List.prefix_append _ _).trans reached)
        refine forall_live_calls_concat start before fun r c handles => ?_
        exact (tells _ c _ _ call handles.conversation
          (forall_resolved_calls start before handles c handles.mem)).2 (every pre call reached r c handles)

/-- What every call keeps holds of the live connections after every run. -/
theorem forall_live_calls
    (keeps : ∀ known c registry config (call : Call), c.conversation = call.conversation → P known c →
      P (known ++ [call])
        { (c.handle registry config call.probe call.direction call.segment).connection with
          tsPrev := call.segment.timestamp })
    (config : Config) (calls : List Call) :
    ∀ c ∈ ((new config).after calls).table.live, P ((new config).callsOf c.stream calls) c :=
  (forall_live_calls_iff start (Q := fun _ _ _ => True)
    (fun known c registry config call own has =>
      iff_true_intro (keeps known c registry config call own has))
    config calls).2 (fun _ _ _ _ _ _ => trivial) calls (List.prefix_refl _)

end

end Session

/-! ### Flows -/

/-- The second flow has the window scale and the counters of the first one. -/
structure Flow.SameTerms (f g : Flow) : Prop where
  windowScale : g.windowScale = f.windowScale
  counters : g.counters = f.counters

namespace Classified

theorem sameTerms_settle (sender peer : Flow) (s : Segment) (f : Findings)
    (dupAck : Option (BitVec 32 × Nat)) (window : BitVec 32) :
    sender.SameTerms (settle sender peer s f dupAck window).sender ∧
      peer.SameTerms (settle sender peer s f dupAck window).peer := by
  refine ⟨⟨rfl, rfl⟩, ?_⟩
  unfold settle
  dsimp only
  split <;> exact ⟨rfl, rfl⟩

end Classified

open Classified in
/-- Classification neither scales windows nor counts. -/
theorem sameTerms_classify (sender peer : Flow) (s : Segment) (limits : Thresholds) :
    sender.SameTerms (classify sender peer s limits).sender ∧
      peer.SameTerms (classify sender peer s limits).peer := by
  obtain ⟨nondup, dups, found, dupAck, -, eq⟩ := classify_cases sender peer s limits
  rw [eq]
  obtain ⟨own, other⟩ := sameTerms_settle { sender with lastNondupAck := nondup, dupAckCount := dups }
    (marked peer found.ackLostPacket) s found dupAck (sender.scaledWindow s.window s.flags.syn)
  refine ⟨⟨own.windowScale, own.counters⟩, ?_⟩
  have unmarked : peer.SameTerms (marked peer found.ackLostPacket) := by
    unfold marked
    split <;> exact ⟨rfl, rfl⟩
  exact ⟨other.windowScale.trans unmarked.windowScale, other.counters.trans unmarked.counters⟩

namespace Connection

section

variable (c : Connection) (registry : MetaRegistry) (config : Config) (probe : Option LengthProbe)
  (d : Direction) (s : Segment)

/-- Judging counts the segment for its own direction; the terms stay as they are otherwise. -/
theorem terms_judge :
    ((c.judge config d s).1.flow d).windowScale = (c.flow d).windowScale ∧
      (∃ found, ((c.judge config d s).1.flow d).counters =
        (c.flow d).counters.record s.payloadLen found) ∧
      (c.flow d.opposite).SameTerms ((c.judge config d s).1.flow d.opposite) := by
  unfold judge
  dsimp only
  rw [flow_setFlows_same, flow_setFlows_opposite]
  split
  · have same := sameTerms_classify (c.flow d) (c.flow d.opposite) s
      (config.thresholds.withRtt c.firstRtt)
    exact ⟨same.1.windowScale, ⟨_, by rw [same.1.counters]⟩, same.2⟩
  · have same := Classified.sameTerms_settle (c.flow d) (c.flow d.opposite) s {} none
      ((c.flow d).scaledWindow s.window s.flags.syn)
    exact ⟨same.1.windowScale, ⟨_, by rw [← same.1.counters]; rfl⟩, same.2⟩

theorem counters_negotiateWindowScale (e : Direction) :
    ((c.negotiateWindowScale d s).flow e).counters = (c.flow e).counters :=
  view_negotiateWindowScale Flow.counters c d s (fun _ _ => rfl) e

/-- Past the window scale, noting the opening touches neither scale nor counters. -/
theorem sameTerms_noteOpening (e : Direction) :
    (((c.noteHandshake d s).negotiateWindowScale d s).flow e).SameTerms
      ((c.noteOpening d s).flow e) := by
  unfold noteOpening
  dsimp only
  generalize (c.noteHandshake d s).negotiateWindowScale d s = negotiated
  by_cases own : e = d
  · subst own
    rw [flow_setFlow_same]
    split <;> exact ⟨rfl, rfl⟩
  · obtain rfl := Direction.eq_opposite_of_ne own
    rw [flow_setFlow_opposite]
    exact ⟨rfl, rfl⟩

/-- The payload of a segment is counted once, for its own direction. -/
theorem payloadBytes_judged (e : Direction) :
    ((c.judged config d s).1.flow e).counters.payloadBytes =
      (c.flow e).counters.payloadBytes + if e = d then s.payloadLen else 0 := by
  obtain ⟨-, ⟨found, own⟩, other⟩ := (c.noteOpening d s).terms_judge config d s
  have opened := (c.sameTerms_noteOpening d s e).counters
  rw [counters_negotiateWindowScale, flow_noteHandshake] at opened
  by_cases same : e = d
  · subst same
    rw [judged, own, opened, if_pos rfl]
    rfl
  · obtain rfl := Direction.eq_opposite_of_ne same
    rw [judged, other.counters, opened, if_neg same, Nat.add_zero]

theorem finFrame_judged (e : Direction) :
    ((c.judged config d s).1.flow e).finFrame = (c.flow e).finFrame := by
  have opened := c.samePayload_noteOpening d s
  have judged := (c.noteOpening d s).samePayload_judge config d s
  by_cases own : e = d
  · subst own
    have anchored : ((c.flow e).opened s).finFrame = (c.flow e).finFrame := by
      unfold Flow.opened
      split <;> rfl
    exact (judged.1.finFrame.trans opened.1.finFrame).trans anchored
  · obtain rfl := Direction.eq_opposite_of_ne own
    exact judged.2.finFrame.trans opened.2.finFrame

/-! ### A flow once its segment is handled -/

section

variable {α : Type} (view : Flow → α)
  (blind : ∀ (f : Flow) buffer assembler, view { f with reorder := buffer, assembler } = view f)

include blind

theorem view_reorder (f : Flow) (chunk : Chunk) (limit : Nat) :
    view (reorder f chunk limit).1 = view f := by
  unfold reorder skipGap
  dsimp only
  split
  · exact blind f _ f.assembler
  · exact blind f _ f.assembler
  · split
    · exact blind f _ f.assembler
    · split <;> exact blind f _ _

/-- What sees nothing of what is held back and collected sees nothing of payload. -/
theorem view_dissected (e : Direction) :
    view ((c.dissected registry config probe d s).connection.flow e) =
      view ((c.judged config d s).1.flow e) := by
  rcases c.dissected_cases registry config probe d s with
    ⟨-, same⟩ | ⟨-, lengthProbe, f, chunks, -, reordered, fed⟩
  · rw [same]
    rfl
  · rw [fed]
    by_cases own : e = d
    · subst own
      have kept := view_reorder view blind ((c.linked registry config e s).flow e)
        (c.arriving config e s) config.maxReorderBytes
      rw [reordered] at kept
      rw [flow_setFlow_same]
      exact (blind f f.reorder _).trans kept
    · obtain rfl := Direction.eq_opposite_of_ne own
      rw [flow_setFlow_opposite]
      rfl

/-- It sees nothing of the end of the connection, either. -/
theorem view_ended (e : Direction) :
    view ((c.handle registry config probe d s).connection.flow e) =
      view ((c.finished registry config probe d s).connection.flow e) := by
  rw [flow, handle_flows]
  unfold endWith
  split
  · rfl
  · cases e <;> exact blind _ _ _

/-- **A flow once a segment is handled**: since it was judged only what is held back, what is collected
and the end of the direction have changed. -/
theorem view_handle (unended : ∀ (f : Flow) finFrame, view { f with finFrame } = view f)
    (e : Direction) :
    view ((c.handle registry config probe d s).connection.flow e) =
      view ((c.judged config d s).1.flow e) := by
  have dissected := c.view_dissected registry config probe d s view blind e
  have closed (f : Flow) finFrame assembler : view { f with finFrame, assembler } = view f :=
    (blind { f with finFrame } f.reorder assembler).trans (unended f finFrame)
  rw [c.view_ended registry config probe d s view blind, ← dissected]
  unfold finished
  split
  · unfold closeDirection
    dsimp only
    by_cases own : e = d
    · subst own
      split
      · rw [flow_setFlow_same]
        exact closed _ _ _
      · rw [flow_setFlow_same]
        exact unended _ _
    · obtain rfl := Direction.eq_opposite_of_ne own
      split
      · rw [flow_setFlow_opposite]
      · rw [flow_setFlow_opposite]
  · rfl

end

/-- A FIN ends its own direction. -/
theorem isFinished_finished (e : Direction) :
    ((c.finished registry config probe d s).connection.flow e).isFinished =
      ((c.flow e).isFinished || (e == d && s.flags.fin)) := by
  have dissected : ((c.dissected registry config probe d s).connection.flow e).isFinished =
      (c.flow e).isFinished := by
    unfold Flow.isFinished
    rw [c.view_dissected registry config probe d s Flow.finFrame (fun _ _ _ => rfl) e,
      finFrame_judged]
  unfold finished
  split
  · rename_i fin
    rw [fin, Bool.and_true, ← dissected]
    unfold closeDirection
    dsimp only
    by_cases own : e = d
    · subst own
      rw [beq_self_eq_true, Bool.or_true]
      split
      · rw [flow_setFlow_same]
        exact Option.isSome_or.trans (Bool.or_true _)
      · rw [flow_setFlow_same]
        exact Option.isSome_or.trans (Bool.or_true _)
    · rw [beq_eq_false_iff_ne.2 own, Bool.or_false]
      obtain rfl := Direction.eq_opposite_of_ne own
      split
      · rw [flow_setFlow_opposite]
      · rw [flow_setFlow_opposite]
  · rename_i fin
    rw [Bool.not_eq_true] at fin
    rw [fin, Bool.and_false, Bool.or_false]
    exact dissected

theorem isFinished_handle (e : Direction) :
    ((c.handle registry config probe d s).connection.flow e).isFinished =
      ((c.flow e).isFinished || (e == d && s.flags.fin)) := by
  rw [← c.isFinished_finished registry config probe d s e]
  exact c.view_ended registry config probe d s Flow.isFinished (fun _ _ _ => rfl) e

/-- The first segment of a direction anchors its numbering. -/
theorem baseSeq_handle (e : Direction) :
    ((c.handle registry config probe d s).connection.flow e).baseSeq =
      (c.flow e).baseSeq.or (if d = e then some s.origin else none) := by
  rw [c.view_handle registry config probe d s Flow.baseSeq (fun _ _ _ => rfl)
    (fun _ _ => rfl) e]
  by_cases own : d = e
  · subst own
    rw [if_pos rfl]
    exact c.baseSeq_judged_own ..
  · rw [if_neg own, Option.or_none]
    obtain rfl := Direction.eq_opposite_of_ne (Ne.symm own)
    exact c.baseSeq_judged_opposite ..

theorem payloadBytes_handle :
    ((c.handle registry config probe d s).connection.flow .forward).counters.payloadBytes +
        ((c.handle registry config probe d s).connection.flow .reverse).counters.payloadBytes =
      (c.flow .forward).counters.payloadBytes + (c.flow .reverse).counters.payloadBytes +
        s.payloadLen := by
  have counted (e : Direction) := c.payloadBytes_judged config d s e
  have kept (e : Direction) := c.view_handle registry config probe d s Flow.counters
    (fun _ _ _ => rfl) (fun _ _ => rfl) e
  rw [kept, kept, counted, counted]
  cases d with
  | forward =>
      rw [if_pos rfl, if_neg nofun]
      omega
  | reverse =>
      rw [if_neg nofun, if_pos rfl]
      omega

/-- A connection is closed by a reset, or once both directions have ended. -/
theorem closed_handle :
    (c.handle registry config probe d s).connection.closed =
      (c.closed || s.flags.rst || (c.handle registry config probe d s).connection.bothFinished) := by
  have ended (e : Direction) :=
    c.view_ended registry config probe d s Flow.isFinished (fun _ _ _ => rfl) e
  have both : (c.handle registry config probe d s).connection.bothFinished =
      (c.finished registry config probe d s).connection.bothFinished :=
    congrArg₂ and (ended .forward) (ended .reverse)
  have before := (c.continues_finished registry config probe d s).closed
  rw [(c.continues_handle_of_ended registry config probe d s).closed, both, ← before, Bool.or_assoc]
  unfold endWith
  split
  · rename_i stays
    rcases Bool.or_eq_true_iff.1 stays with closed | goesOn
    · rw [closed, Bool.true_or]
    · rw [Bool.not_eq_true'] at goesOn
      rw [goesOn, Bool.or_false]
  · rename_i ends
    rw [Bool.or_eq_true, not_or, Bool.not_eq_true', Bool.not_eq_false] at ends
    rw [ends.2, Bool.or_true]
    rfl

end

end Connection

/-! ### Memories -/

/-- One of the calls ends a direction. -/
def hasFin (calls : List Call) (d : Direction) : Bool :=
  calls.any fun call => call.direction == d && call.segment.flags.fin

/-- The calls end their connection: by a reset, or in both directions. -/
def isOver (calls : List Call) : Bool :=
  calls.any (·.segment.flags.rst) || (hasFin calls .forward && hasFin calls .reverse)

/-- The calls bring payload. -/
def carriesData (calls : List Call) : Bool := calls.any (·.segment.payloadLen != 0)

section

variable (calls : List Call) (call : Call)

theorem hasFin_concat (d : Direction) :
    hasFin (calls ++ [call]) d =
      (hasFin calls d || (call.direction == d && call.segment.flags.fin)) := by
  rw [hasFin, List.any_append, ← hasFin, List.any_cons, List.any_nil, Bool.or_false]

theorem carriesData_concat :
    carriesData (calls ++ [call]) = (carriesData calls || call.segment.payloadLen != 0) := by
  rw [carriesData, List.any_append, ← carriesData, List.any_cons, List.any_nil, Bool.or_false]

/-- Calls end their connection with the last of them, or before. -/
theorem isOver_concat :
    isOver (calls ++ [call]) = (isOver calls || call.segment.flags.rst ||
      (hasFin (calls ++ [call]) .forward && hasFin (calls ++ [call]) .reverse)) := by
  rw [isOver, isOver, List.any_append, List.any_cons, List.any_nil, Bool.or_false, hasFin_concat,
    hasFin_concat]
  -- a direction that had ended has ended still
  cases hasFin calls .forward <;> cases hasFin calls .reverse <;>
    cases calls.any (·.segment.flags.rst) <;> cases call.segment.flags.rst <;> simp

end

namespace Connection

/-- What a connection keeps of the calls about its stream. -/
structure Remembers (c : Connection) (calls : List Call) : Prop where
  conversation : ∀ call ∈ calls, call.conversation = c.conversation
  baseSeq : ∀ d, (c.flow d).baseSeq = originOf? calls d
  payload : (c.flows.forward.counters.payloadBytes + c.flows.reverse.counters.payloadBytes != 0) =
    carriesData calls
  finished : ∀ d, (c.flow d).isFinished = hasFin calls d
  closed : c.closed = isOver calls

namespace Remembers

variable {c : Connection} {calls : List Call}

theorem start (stream : Nat) (conversation : Conversation) (now : Nat) :
    (Connection.start stream conversation now).Remembers [] where
  conversation _ mem := nomatch mem
  baseSeq d := by cases d <;> rfl
  payload := rfl
  finished d := by cases d <;> rfl
  closed := rfl

theorem bothFinished (h : c.Remembers calls) :
    c.bothFinished = (hasFin calls .forward && hasFin calls .reverse) :=
  congrArg₂ and (h.finished .forward) (h.finished .reverse)

/-- **One call**: the connection that handles it remembers it, too. -/
theorem handle (h : c.Remembers calls) (registry : MetaRegistry) (config : Config) {call : Call}
    (own : c.conversation = call.conversation) :
    Remembers
      { (c.handle registry config call.probe call.direction call.segment).connection with
        tsPrev := call.segment.timestamp } (calls ++ [call]) := by
  have identity := c.sameIdentity_handle registry config call.probe call.direction call.segment
  have finished (e : Direction) :
      ((c.handle registry config call.probe call.direction call.segment).connection.flow e).isFinished =
        hasFin (calls ++ [call]) e := by
    rw [c.isFinished_handle, h.finished, hasFin_concat, Bool.beq_comm]
  refine ⟨fun earlier mem => ?conversation, fun e => ?baseSeq, ?payload, finished, ?closed⟩
  case conversation =>
    rcases List.mem_append.1 mem with mem | mem
    · exact (h.conversation earlier mem).trans identity.conversation.symm
    · obtain rfl := List.mem_singleton.1 mem
      exact own.symm.trans identity.conversation.symm
  case baseSeq =>
    rw [originOf?_append, originOf?_singleton, ← h.baseSeq e]
    exact c.baseSeq_handle registry config call.probe call.direction call.segment e
  case payload =>
    have bytes := c.payloadBytes_handle registry config call.probe call.direction call.segment
    have before := h.payload
    rw [carriesData_concat, ← before]
    refine (congrArg (· != 0) bytes).trans ?_
    rw [Bool.eq_iff_iff, Bool.or_eq_true, bne_iff_ne, bne_iff_ne, bne_iff_ne]
    exact (not_congr Nat.add_eq_zero_iff).trans Decidable.not_and_iff_or_not
  case closed =>
    have both := congrArg₂ and (finished .forward) (finished .reverse)
    rw [isOver_concat, ← h.closed, ← both]
    exact c.closed_handle registry config call.probe call.direction call.segment

/-- Whether a SYN starts over is told by the calls before it. -/
theorem isPortReuse_eq (h : c.Remembers calls) (d : Direction) (s : Segment) :
    Session.isPortReuse c d s =
      (isOver calls || (carriesData calls && (originOf? calls d).any (· != s.seq))) := by
  unfold Session.isPortReuse
  rw [h.closed, h.bothFinished, h.payload, h.baseSeq, isOver, Bool.or_assoc (calls.any _), Bool.or_self]

end Remembers

end Connection

namespace Session

/-- **A run**: a live connection remembers the calls about its stream. -/
theorem remembers_after (config : Config) (calls : List Call) :
    ∀ c ∈ ((new config).after calls).table.live,
      c.Remembers ((new config).callsOf c.stream calls) :=
  forall_live_calls (P := fun known c => c.Remembers known)
    (fun stream conversation now => Connection.Remembers.start stream conversation now)
    (fun _ _ registry config _ own remembers => remembers.handle registry config own) config calls

end Session

end TcpCapture
