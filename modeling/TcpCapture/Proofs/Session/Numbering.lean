import TcpCapture.Proofs.Connection.Renumbering
import TcpCapture.Proofs.Flow.Judging
import TcpCapture.Proofs.Session.Payload

/-!
# Handling segments whose numbers start elsewhere

A connection whose directions start to count elsewhere handles the renumbered segments as it would
have handled the original ones: what is reported and delivered is the same, and the connection
afterwards is the renumbered one.

## Main definitions

* `Segment.answers` — the segment carries numbers of its peer
* `Segment.origin` — where a direction counts from
* `Flow.Based` — numbers of the flow are relative to a base
* `StreamSummary.renumber` — the summary of a renumbered connection

**Before the peer was seen** its numbers have nothing to be relative to, and are reported as they are.
A segment that carries such numbers looks different when the peer counts from elsewhere.
-/

namespace TcpCapture

/-- The segment carries numbers of its peer: an acknowledgment or SACK blocks. -/
def Segment.answers (s : Segment) : Bool := s.flags.ack || !s.sack.blocks.isEmpty

/-- Where a direction counts from when this is its first segment. -/
def Segment.origin (s : Segment) : Seq := if s.flags.syn then s.seq else s.seq - 1

/-! ### Summaries -/

/-- Numbers were only kept once there was a base. -/
def Flow.Based (f : Flow) : Prop := f.nextSeq.isSome → f.baseSeq.isSome

/-- The two have the same base and the same position. -/
structure Flow.SameNumbering (f g : Flow) : Prop where
  baseSeq : g.baseSeq = f.baseSeq
  nextSeq : g.nextSeq = f.nextSeq

theorem Flow.SameNumbering.refl (f : Flow) : f.SameNumbering f := ⟨rfl, rfl⟩

theorem Flow.SameNumbering.trans {f g h : Flow} (hfg : f.SameNumbering g)
    (hgh : g.SameNumbering h) : f.SameNumbering h where
  baseSeq := hgh.baseSeq.trans hfg.baseSeq
  nextSeq := hgh.nextSeq.trans hfg.nextSeq

/-- The summary of a flow that counts from `own` numbers later. -/
def FlowSummary.renumber (own : Seq) (f : FlowSummary) : FlowSummary :=
  { f with baseSeq := f.baseSeq.map (· + own) }

/-- The summary of a connection whose directions count from `shift` numbers later. -/
def StreamSummary.renumber (shift : Direction → Seq) (x : StreamSummary) : StreamSummary :=
  { x with
    flows := ⟨x.flows.forward.renumber (shift .forward), x.flows.reverse.renumber (shift .reverse)⟩ }

theorem Flow.summary_renumber {f : Flow} (based : f.Based) (own other : Seq) :
    (f.renumber own other).summary = f.summary.renumber own := by
  have relative : (f.nextSeq.map (· + own)).map (f.renumber own other).relative =
      f.nextSeq.map f.relative := by
    cases next : f.nextSeq with
    | none => rfl
    | some seq =>
        exact congrArg some (f.relative_renumber own other (based (by rw [next]; rfl)) seq)
  have unacked : (f.unacked.map (·.renumber own)).length = f.unacked.length := List.length_map _
  unfold summary FlowSummary.renumber
  rw [FlowSummary.mk.injEq]
  exact ⟨rfl, rfl, relative, rfl, rfl, unacked⟩

namespace Connection

/-- Both flows only keep numbers that have a base. -/
def Based (c : Connection) : Prop := ∀ d, (c.flow d).Based

theorem summary_renumber {c : Connection} (based : c.Based) (shift : Direction → Seq) :
    (c.renumber shift).summary = c.summary.renumber shift := by
  have forward := Flow.summary_renumber (based .forward) (shift .forward) (shift .reverse)
  have reverse := Flow.summary_renumber (based .reverse) (shift .reverse) (shift .forward)
  exact congrArg₂ (fun x y => { c.summary with flows := ⟨x, y⟩ }) forward reverse

/-! ### The stages of handling -/

section

variable (shift : Direction → Seq) (c : Connection) (config : Config) (d : Direction) (s : Segment)

theorem noteOpening_renumber :
    (c.renumber shift).noteOpening d (renumbered shift d s) =
      (c.noteOpening d s).renumber shift := by
  unfold noteOpening
  dsimp only
  rw [noteHandshake_renumber, negotiateWindowScale_renumber, flow_renumber,
    show (renumbered shift d s).seq = s.seq + shift d from rfl, Flow.setBase_renumber,
    ← setFlow_renumber, apply_ite (Flow.renumber _ _)]
  rfl

theorem judge_renumber :
    (c.renumber shift).judge config d (renumbered shift d s) =
      ((c.judge config d s).1.renumber shift, (c.judge config d s).2) := by
  unfold judge
  dsimp only
  rw [flow_renumber, flow_renumber, Direction.opposite_opposite,
    show (c.renumber shift).firstRtt = c.firstRtt from rfl, classify_renumber, track_renumber,
    ← apply_ite (Classified.renumber _ _), ← setFlows_renumber]
  rfl

/-- The record of a segment is the same, if all of its numbers are relative to a base. -/
theorem recordOf_renumber {c : Connection} {s : Segment} (own : (c.flow d).baseSeq.isSome)
    (known : s.answers = true → (c.flow d.opposite).baseSeq.isSome)
    (classification : Classification) :
    (c.renumber shift).recordOf d (renumbered shift d s) classification =
      c.recordOf d s classification := by
  have seq : ((c.flow d).renumber (shift d) (shift d.opposite)).relative (s.seq + shift d) =
      (c.flow d).relative s.seq := Flow.relative_renumber _ _ own s.seq
  have other (answers : s.answers = true) (number : Seq) :
      ((c.flow d.opposite).renumber (shift d.opposite) (shift d)).relative
        (number + shift d.opposite) = (c.flow d.opposite).relative number :=
    Flow.relative_renumber _ _ (known answers) number
  have ack : (if s.flags.ack then some (((c.flow d.opposite).renumber (shift d.opposite)
      (shift d)).relative (s.ack + shift d.opposite)) else none) =
      if s.flags.ack then some ((c.flow d.opposite).relative s.ack) else none := by
    refine ite_congr rfl (fun set => ?_) fun _ => rfl
    rw [other (by rw [Segment.answers, set, Bool.true_or])]
  have sack : (renumbered shift d s).sack.map (fun block =>
      ⟨((c.flow d.opposite).renumber (shift d.opposite) (shift d)).relative block.left,
        ((c.flow d.opposite).renumber (shift d.opposite) (shift d)).relative block.right⟩) =
      s.sack.map fun block =>
        ⟨(c.flow d.opposite).relative block.left, (c.flow d.opposite).relative block.right⟩ := by
    rw [show (renumbered shift d s).sack = s.sack.map _ from rfl, SackBlocks.map_map]
    refine SackBlocks.map_congr fun block mem => ?_
    have answers : s.answers = true := by
      rw [Segment.answers, Bool.or_eq_true_iff, Bool.not_eq_true', List.isEmpty_eq_false_iff]
      exact Or.inr (List.ne_nil_of_mem mem)
    exact congrArg₂ SackBlock.mk (other answers block.left) (other answers block.right)
  unfold recordOf
  dsimp only
  rw [flow_renumber, flow_renumber, Direction.opposite_opposite,
    show (renumbered shift d s).seq = s.seq + shift d from rfl,
    show (renumbered shift d s).ack = s.ack + shift d.opposite from rfl, seq, sack,
    show (renumbered shift d s).flags = s.flags from rfl, ack]
  rfl

theorem reorder_renumber (f : Flow) (own other : Seq) (chunk : Chunk) (limit : Nat) :
    reorder (f.renumber own other) chunk limit =
      ((reorder f chunk limit).1.renumber own other, (reorder f chunk limit).2) := by
  unfold reorder
  rw [show (f.renumber own other).reorder = f.reorder from rfl]
  rcases f.reorder.push chunk with ⟨buffer, event⟩
  cases event with
  | inOrder chunks => rfl
  | duplicate seq => rfl
  | gap expected got =>
      dsimp only
      split
      · rfl
      · unfold skipGap
        dsimp only
        cases buffer.skipGap? <;> rfl

theorem sameNumbering_reorder (f : Flow) (chunk : Chunk) (limit : Nat) :
    f.SameNumbering (reorder f chunk limit).1 := by
  unfold reorder
  dsimp only
  split
  · exact ⟨rfl, rfl⟩
  · exact ⟨rfl, rfl⟩
  · split
    · exact ⟨rfl, rfl⟩
    · unfold skipGap
      dsimp only
      split <;> exact ⟨rfl, rfl⟩

theorem dissect_renumber (probe : Option LengthProbe) (p : Passage) (own other : Seq)
    (found : Findings) :
    (c.renumber shift).dissect config probe { p with segment := p.segment.renumber own other } found =
      { c.dissect config probe p found with
        connection := (c.dissect config probe p found).connection.renumber shift } := by
  unfold dissect
  cases probe with
  | none => rfl
  | some probe =>
      dsimp only
      show (if p.segment.payload.isEmpty || found.isProbing then _ else _) = _
      split
      · rfl
      · unfold reassemble
        dsimp only
        rw [flow_renumber, reorder_renumber, ← setFlow_renumber]
        rfl

theorem closeDirection_renumber (frame : Nat) (dissecting : Bool) :
    (c.renumber shift).closeDirection d frame dissecting =
      { c.closeDirection d frame dissecting with
        connection := (c.closeDirection d frame dissecting).connection.renumber shift } := by
  unfold closeDirection
  dsimp only
  rw [flow_renumber]
  cases dissecting with
  | false =>
      rw [if_neg Bool.false_ne_true, if_neg Bool.false_ne_true, ← setFlow_renumber]
      rfl
  | true =>
      rw [if_pos rfl, if_pos rfl, ← setFlow_renumber]
      rfl

theorem endWith_renumber :
    (c.renumber shift).endWith (renumbered shift d s) =
      ((c.endWith s).1.renumber shift, (c.endWith s).2) := by
  unfold endWith
  show (if c.closed || !(s.flags.rst || c.bothFinished) then _ else _) = _
  split <;> rfl

/-! ### Handling -/

/-- Noting the opening gives the segment's own direction a base, unless it has one. -/
theorem baseSeq_judged_own :
    ((c.judged config d s).1.flow d).baseSeq = (c.flow d).baseSeq.or (some s.origin) := by
  have opened : ((c.flow d).opened s).baseSeq = (c.flow d).baseSeq.or (some s.origin) := by
    unfold Flow.opened Flow.setBase Segment.origin
    cases s.flags.syn <;> rfl
  have same := (c.samePayload_noteOpening d s).1.trans
    ((c.noteOpening d s).samePayload_judge config d s).1
  rw [judged, same.baseSeq, opened]

theorem baseSeq_judged : ((c.judged config d s).1.flow d).baseSeq.isSome := by
  rw [baseSeq_judged_own, Option.isSome_or, Option.isSome_some, Bool.or_true]

/-- It leaves that of the peer alone. -/
theorem baseSeq_judged_opposite :
    ((c.judged config d s).1.flow d.opposite).baseSeq = (c.flow d.opposite).baseSeq :=
  ((c.samePayload_noteOpening d s).2.trans
    ((c.noteOpening d s).samePayload_judge config d s).2).baseSeq

theorem judged_renumber :
    (c.renumber shift).judged config d (renumbered shift d s) =
      ((c.judged config d s).1.renumber shift, (c.judged config d s).2) := by
  rw [judged, judged, noteOpening_renumber, judge_renumber]

theorem passage_renumber :
    (c.renumber shift).passage config d (renumbered shift d s) =
      { c.passage config d s with segment := renumbered shift d s } := by
  have relative := Flow.relative_renumber (shift d) (shift d.opposite) (c.baseSeq_judged config d s)
    s.seq
  unfold passage
  rw [judged_renumber]
  dsimp only
  rw [flow_renumber, show (renumbered shift d s).seq = s.seq + shift d from rfl, relative]
  rfl

variable (registry : MetaRegistry) (probe : Option LengthProbe)

theorem correlated_renumber :
    (c.renumber shift).correlated registry config d (renumbered shift d s) =
      c.correlated registry config d s := by
  unfold correlated
  rw [passage_renumber, judged_renumber]
  rfl

theorem linked_renumber :
    (c.renumber shift).linked registry config d (renumbered shift d s) =
      (c.linked registry config d s).renumber shift := by
  unfold linked
  rw [passage_renumber, judged_renumber]
  rfl

theorem dissected_renumber :
    (c.renumber shift).dissected registry config probe d (renumbered shift d s) =
      { c.dissected registry config probe d s with
        connection := (c.dissected registry config probe d s).connection.renumber shift } := by
  unfold dissected
  rw [linked_renumber, passage_renumber, judged_renumber]
  exact dissect_renumber ..

theorem finished_renumber :
    (c.renumber shift).finished registry config probe d (renumbered shift d s) =
      { c.finished registry config probe d s with
        connection := (c.finished registry config probe d s).connection.renumber shift } := by
  unfold finished
  rw [dissected_renumber, closeDirection_renumber]
  show (if s.flags.fin then _ else _) = _
  split <;> rfl

theorem ended_renumber :
    (c.renumber shift).ended registry config probe d (renumbered shift d s) =
      ((c.ended registry config probe d s).1.renumber shift,
        (c.ended registry config probe d s).2) := by
  unfold ended
  rw [finished_renumber, endWith_renumber]

/-- **Handling sees differences only.** -/
theorem handle_renumber {c : Connection} {s : Segment}
    (known : s.answers = true → (c.flow d.opposite).baseSeq.isSome) :
    (c.renumber shift).handle registry config probe d (renumbered shift d s) =
      { c.handle registry config probe d s with
        connection := (c.handle registry config probe d s).connection.renumber shift } := by
  have record : (c.renumber shift).recorded config d (renumbered shift d s) =
      c.recorded config d s := by
    unfold recorded
    rw [judged_renumber]
    exact recordOf_renumber shift d (c.baseSeq_judged config d s)
      (by rw [baseSeq_judged_opposite]; exact known) _
  rw [handle_eq, handle_eq, record, correlated_renumber, dissected_renumber, finished_renumber,
    ended_renumber, judged_renumber]
  cases config.recordHistory <;> rfl

/-! ### Numbers have a base -/

theorem nextSeq_judged_opposite :
    ((c.judged config d s).1.flow d.opposite).nextSeq = (c.flow d.opposite).nextSeq := by
  have opened := view_noteOpening Flow.nextSeq c d s (fun _ _ _ _ => rfl) d.opposite
  rw [← opened]
  unfold judged judge
  dsimp only
  rw [flow_setFlows_opposite]
  split
  · exact nextSeq_classify_peer ..
  · exact Classified.nextSeq_settle_peer ..

theorem sameNumbering_setFlow {f : Flow} (same : (c.flow d).SameNumbering f) (e : Direction) :
    (c.flow e).SameNumbering ((c.setFlow d f).flow e) := by
  by_cases own : e = d
  · subst own
    rw [flow_setFlow_same]
    exact same
  · obtain rfl := Direction.eq_opposite_of_ne own
    rw [flow_setFlow_opposite]
    exact .refl _

theorem sameNumbering_dissected (e : Direction) :
    ((c.judged config d s).1.flow e).SameNumbering
      ((c.dissected registry config probe d s).connection.flow e) := by
  show ((c.linked registry config d s).flow e).SameNumbering _
  rcases c.dissected_cases registry config probe d s with
    ⟨-, same⟩ | ⟨-, lengthProbe, f, chunks, -, reordered, fed⟩
  · rw [same]
    exact .refl _
  · obtain ⟨baseSeq, nextSeq⟩ := sameNumbering_reorder
      ((c.linked registry config d s).flow d) (c.arriving config d s) config.maxReorderBytes
    rw [reordered] at baseSeq nextSeq
    rw [fed]
    refine sameNumbering_setFlow _ d ?_ e
    exact ⟨baseSeq, nextSeq⟩

theorem sameNumbering_finished (e : Direction) :
    ((c.dissected registry config probe d s).connection.flow e).SameNumbering
      ((c.finished registry config probe d s).connection.flow e) := by
  unfold finished closeDirection
  split
  · dsimp only
    split
    · refine sameNumbering_setFlow _ d ?_ e
      exact ⟨rfl, rfl⟩
    · refine sameNumbering_setFlow _ d ?_ e
      exact ⟨rfl, rfl⟩
  · exact .refl _

theorem sameNumbering_handle (e : Direction) :
    ((c.judged config d s).1.flow e).SameNumbering
      ((c.handle registry config probe d s).connection.flow e) := by
  refine (c.sameNumbering_dissected config d s registry probe e).trans
    ((c.sameNumbering_finished config d s registry probe e).trans ?_)
  rw [flow, flow, handle_flows]
  unfold endWith
  split
  · exact .refl _
  · cases e <;> exact ⟨rfl, rfl⟩

/-- Handling keeps only numbers that have a base. -/
theorem Based.handle {c : Connection} (h : c.Based) :
    (c.handle registry config probe d s).connection.Based := by
  intro e numbered
  have same := c.sameNumbering_handle config d s registry probe e
  rw [same.nextSeq] at numbered
  rw [same.baseSeq]
  by_cases own : e = d
  · subst own
    exact c.baseSeq_judged config e s
  · obtain rfl := Direction.eq_opposite_of_ne own
    rw [nextSeq_judged_opposite] at numbered
    rw [baseSeq_judged_opposite]
    exact h d.opposite numbered

end

end Connection

end TcpCapture
